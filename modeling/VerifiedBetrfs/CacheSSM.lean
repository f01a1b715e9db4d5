import VerifiedBetrfs.AbstractCache
import VerifiedBetrfs.RequestTraffic
import VerifiedBetrfs.Shards

/-!
# The page cache as a sharded machine

The shards hold the slots of the cache, the traffic with the disk and the requests of the clients.
-/

namespace VerifiedBetrfs

namespace CacheSSM

open CacheIfc

abbrev Block := PageDisk.Block

/-- Whether a page agrees with the disk or is being written. -/
inductive Status where
  | clean
  | dirty
  | writeback

/-- What a slot of the cache holds. -/
inductive Entry where
  | empty
  | reading (diskIdx : Nat)
  | entry (diskIdx : Nat) (data : Block)

/-- A part of the state of the cache. -/
structure Shard where
  diskIdxToCacheIdx : FiniteMap Nat (Option Nat)
  entries : FiniteMap Nat Entry
  statuses : FiniteMap Nat Status
  writeReqs : FiniteMap Nat Block
  writeResps : Finset Nat
  readReqs : Finset Nat
  readResps : FiniteMap Nat Block
  tickets : FiniteMap RequestId Input
  stubs : FiniteMap RequestId Output
  syncReqs : FiniteMap RequestId (Finset Nat)
  havocs : FiniteMap RequestId Nat

/-- A shard, or nothing if two shards did not fit together. -/
abbrev M := Option Shard

def Shard.dot (x y : Shard) : M := do
  let diskIdxToCacheIdx ← x.diskIdxToCacheIdx.join y.diskIdxToCacheIdx
  let entries ← x.entries.join y.entries
  let statuses ← x.statuses.join y.statuses
  let writeReqs ← x.writeReqs.join y.writeReqs
  let writeResps ← DisjointSet.join x.writeResps y.writeResps
  let readReqs ← DisjointSet.join x.readReqs y.readReqs
  let readResps ← x.readResps.join y.readResps
  let tickets ← x.tickets.join y.tickets
  let stubs ← x.stubs.join y.stubs
  let syncReqs ← x.syncReqs.join y.syncReqs
  let havocs ← x.havocs.join y.havocs
  return { diskIdxToCacheIdx, entries, statuses, writeReqs, writeResps, readReqs, readResps,
           tickets, stubs, syncReqs, havocs }

def dot (x y : M) : M := x.bind fun x => y.bind fun y => x.dot y

def Shard.unit : Shard :=
  ⟨.empty, .empty, .empty, .empty, ∅, ∅, .empty, .empty, .empty, .empty, .empty⟩

def diskWriteReq (diskAddr : Nat) (data : Block) : Shard :=
  { Shard.unit with writeReqs := .singleton diskAddr data }

def diskWriteResp (diskAddr : Nat) : Shard := { Shard.unit with writeResps := {diskAddr} }

def diskReadReq (diskAddr : Nat) : Shard := { Shard.unit with readReqs := {diskAddr} }

def diskReadResp (diskAddr : Nat) (data : Block) : Shard :=
  { Shard.unit with readResps := .singleton diskAddr data }

section

variable (rid : RequestId)

def normalTicket (input : Input) : Shard := { Shard.unit with tickets := .singleton rid input }

def normalStub (output : Output) : Shard := { Shard.unit with stubs := .singleton rid output }

def syncReq (diskIndices : Finset Nat) : Shard :=
  { Shard.unit with syncReqs := .singleton rid diskIndices }

def havoc (diskIdx : Nat) : Shard := { Shard.unit with havocs := .singleton rid diskIdx }

def ticket : Input → Shard
  | .syncInput keys => syncReq rid keys
  | .havocInput key => havoc rid key
  | .writeInput key data => normalTicket rid (.writeInput key data)
  | .readInput key => normalTicket rid (.readInput key)

def stub : Output → Shard
  | .syncOutput => syncReq rid ∅
  | .havocOutput key => havoc rid key
  | .writeOutput => normalStub rid .writeOutput
  | .readOutput data => normalStub rid (.readOutput data)

end

def requestIdsInUse : M → Finset RequestId
  | some m => m.tickets.support ∪ m.stubs.support ∪ m.syncReqs.support ∪ m.havocs.support
  | none => ∅

def maxDiskPages : Nat := 0xffffffffffffffff

def maxCacheSize : Nat := 0xffffffff

/-- No page has a slot. -/
def initShard : Shard :=
  { Shard.unit with
    diskIdxToCacheIdx := .ofFinset (Finset.range maxDiskPages) fun _ => some none
    entries := .ofFinset (Finset.range maxCacheSize) fun _ => some .empty }

def Init (s : M) : Prop := s = some initShard

/-- A free slot is taken for a page. -/
def StartRead (s s' : Shard) (cacheIdx diskIdx : Nat) : Prop :=
  s.entries.lookup cacheIdx = some .empty ∧ s.diskIdxToCacheIdx.lookup diskIdx = some none ∧
    s' = { s with
      entries := s.entries.insert cacheIdx (.reading diskIdx)
      diskIdxToCacheIdx := s.diskIdxToCacheIdx.insert diskIdx (some cacheIdx)
      readReqs := insert diskIdx s.readReqs }

/-- A page has arrived. -/
def FinishRead (s s' : Shard) (cacheIdx diskIdx : Nat) : Prop :=
  ∃ data, s.entries.lookup cacheIdx = some (.reading diskIdx) ∧
    s.readResps.lookup diskIdx = some data ∧
    s' = { s with
      entries := s.entries.insert cacheIdx (.entry diskIdx data)
      statuses := s.statuses.insert cacheIdx .clean
      readResps := s.readResps.erase diskIdx }

section

variable (s s' : Shard) (cacheIdx : Nat)

/-- A dirty page is sent to the disk. -/
def StartWriteback : Prop :=
  ∃ diskIdx data, s.statuses.lookup cacheIdx = some .dirty ∧
    s.entries.lookup cacheIdx = some (.entry diskIdx data) ∧
    s' = { s with
      statuses := s.statuses.insert cacheIdx .writeback
      writeReqs := s.writeReqs.insert diskIdx data }

/-- The status is not looked at. -/
def FinishWriteback : Prop :=
  ∃ diskIdx data status, s.entries.lookup cacheIdx = some (.entry diskIdx data) ∧
    s.statuses.lookup cacheIdx = some status ∧ diskIdx ∈ s.writeResps ∧
    s' = { s with
      statuses := s.statuses.insert cacheIdx .clean
      writeResps := s.writeResps.erase diskIdx }

/-- A clean page leaves its slot. -/
def Evict : Prop :=
  ∃ diskIdx data slot, s.statuses.lookup cacheIdx = some .clean ∧
    s.entries.lookup cacheIdx = some (.entry diskIdx data) ∧
    s.diskIdxToCacheIdx.lookup diskIdx = some slot ∧
    s' = { s with
      entries := s.entries.insert cacheIdx .empty
      diskIdxToCacheIdx := s.diskIdxToCacheIdx.insert diskIdx none
      statuses := s.statuses.erase cacheIdx }

end

section

variable (s s' : Shard) (cacheIdx : Nat) (rid : RequestId)

/-- A sync request sees that a page is clean. -/
def ObserveCleanForSync : Prop :=
  ∃ diskIdx data keys, s.statuses.lookup cacheIdx = some .clean ∧
    s.entries.lookup cacheIdx = some (.entry diskIdx data) ∧ s.syncReqs.lookup rid = some keys ∧
    s' = { s with syncReqs := s.syncReqs.insert rid (keys.erase diskIdx) }

def ApplyRead : Prop :=
  ∃ diskIdx data, s.entries.lookup cacheIdx = some (.entry diskIdx data) ∧
    s.tickets.lookup rid = some (.readInput diskIdx) ∧
    s' = { s with
      tickets := s.tickets.erase rid
      stubs := s.stubs.insert rid (.readOutput data.val) }

def ApplyWrite : Prop :=
  ∃ diskIdx data newData, s.entries.lookup cacheIdx = some (.entry diskIdx data) ∧
    s.statuses.lookup cacheIdx = some .dirty ∧
    s.tickets.lookup rid = some (.writeInput diskIdx newData) ∧
    ∃ isBlock : newData.length = 4096,
      s' = { s with
        tickets := s.tickets.erase rid
        stubs := s.stubs.insert rid .writeOutput
        entries := s.entries.insert cacheIdx (.entry diskIdx ⟨newData, isBlock⟩) }

end

/-- A page becomes dirty before it is written. -/
def MarkDirty (s s' : Shard) (cacheIdx : Nat) : Prop :=
  s.statuses.lookup cacheIdx = some .clean ∧
    s' = { s with statuses := s.statuses.insert cacheIdx .dirty }

def HavocNew (s s' : Shard) (cacheIdx : Nat) (rid : RequestId) (newData : Block) : Prop :=
  ∃ diskIdx, s.entries.lookup cacheIdx = some .empty ∧ s.havocs.lookup rid = some diskIdx ∧
    s.diskIdxToCacheIdx.lookup diskIdx = some none ∧
    s' = { s with
      entries := s.entries.insert cacheIdx (.entry diskIdx newData)
      statuses := s.statuses.insert cacheIdx .dirty
      diskIdxToCacheIdx := s.diskIdxToCacheIdx.insert diskIdx (some cacheIdx) }

def HavocEvict (s s' : Shard) (cacheIdx : Nat) (rid : RequestId) : Prop :=
  ∃ diskIdx data status slot, s.entries.lookup cacheIdx = some (.entry diskIdx data) ∧
    s.statuses.lookup cacheIdx = some status ∧ status ≠ .writeback ∧
    s.havocs.lookup rid = some diskIdx ∧ s.diskIdxToCacheIdx.lookup diskIdx = some slot ∧
    s' = { s with
      entries := s.entries.insert cacheIdx .empty
      statuses := s.statuses.erase cacheIdx
      diskIdxToCacheIdx := s.diskIdxToCacheIdx.insert diskIdx none }

/-- The steps of a shard. -/
inductive Step where
  | startRead (cacheIdx diskIdx : Nat)
  | finishRead (cacheIdx diskIdx : Nat)
  | startWriteback (cacheIdx : Nat)
  | finishWriteback (cacheIdx : Nat)
  | evict (cacheIdx : Nat)
  | observeCleanForSync (cacheIdx : Nat) (rid : RequestId)
  | applyRead (cacheIdx : Nat) (rid : RequestId)
  | applyWrite (cacheIdx : Nat) (rid : RequestId)
  | markDirty (cacheIdx : Nat)
  | havocNew (cacheIdx : Nat) (rid : RequestId) (newData : Block)
  | havocEvict (cacheIdx : Nat) (rid : RequestId)

def InternalStep (shard shard' : Shard) : Step → Prop
  | .startRead cacheIdx diskIdx => StartRead shard shard' cacheIdx diskIdx
  | .finishRead cacheIdx diskIdx => FinishRead shard shard' cacheIdx diskIdx
  | .startWriteback cacheIdx => StartWriteback shard shard' cacheIdx
  | .finishWriteback cacheIdx => FinishWriteback shard shard' cacheIdx
  | .evict cacheIdx => Evict shard shard' cacheIdx
  | .observeCleanForSync cacheIdx rid => ObserveCleanForSync shard shard' cacheIdx rid
  | .applyRead cacheIdx rid => ApplyRead shard shard' cacheIdx rid
  | .applyWrite cacheIdx rid => ApplyWrite shard shard' cacheIdx rid
  | .markDirty cacheIdx => MarkDirty shard shard' cacheIdx
  | .havocNew cacheIdx rid newData => HavocNew shard shard' cacheIdx rid newData
  | .havocEvict cacheIdx rid => HavocEvict shard shard' cacheIdx rid

def Internal (s s' : M) : Prop :=
  ∃ shard shard' step, s = some shard ∧ s' = some shard' ∧ InternalStep shard shard' step

end CacheSSM

def cacheSSM : DiskSSM CacheSSM.M CacheIfc.Input CacheIfc.Output where
  dot := CacheSSM.dot
  ticket rid input := some (CacheSSM.ticket rid input)
  stub rid output := some (CacheSSM.stub rid output)
  requestIdsInUse := CacheSSM.requestIdsInUse
  diskWriteReq diskAddr data := some (CacheSSM.diskWriteReq diskAddr data)
  diskWriteResp diskAddr := some (CacheSSM.diskWriteResp diskAddr)
  diskReadReq diskAddr := some (CacheSSM.diskReadReq diskAddr)
  diskReadResp diskAddr data := some (CacheSSM.diskReadResp diskAddr data)
  Init := CacheSSM.Init
  Internal := CacheSSM.Internal

namespace CacheSSM

/-- What a joined shard is made of. -/
structure Joined (x y whole : Shard) : Prop where
  diskIdxToCacheIdx : x.diskIdxToCacheIdx.join y.diskIdxToCacheIdx = some whole.diskIdxToCacheIdx
  entries : x.entries.join y.entries = some whole.entries
  statuses : x.statuses.join y.statuses = some whole.statuses
  writeReqs : x.writeReqs.join y.writeReqs = some whole.writeReqs
  writeResps : DisjointSet.join x.writeResps y.writeResps = some whole.writeResps
  readReqs : DisjointSet.join x.readReqs y.readReqs = some whole.readReqs
  readResps : x.readResps.join y.readResps = some whole.readResps
  tickets : x.tickets.join y.tickets = some whole.tickets
  stubs : x.stubs.join y.stubs = some whole.stubs
  syncReqs : x.syncReqs.join y.syncReqs = some whole.syncReqs
  havocs : x.havocs.join y.havocs = some whole.havocs

theorem dot_eq_some_iff {x y whole : Shard} : x.dot y = some whole ↔ Joined x y whole := by
  constructor
  · intro fits
    simp only [Shard.dot, Option.bind_eq_bind, Option.bind_eq_some_iff, Option.pure_def,
      Option.some.injEq] at fits
    obtain ⟨_, eq1, _, eq2, _, eq3, _, eq4, _, eq5, _, eq6, _, eq7, _, eq8, _, eq9, _, eq10, _,
      eq11, rfl⟩ := fits
    exact ⟨eq1, eq2, eq3, eq4, eq5, eq6, eq7, eq8, eq9, eq10, eq11⟩
  · intro joined
    simp [Shard.dot, joined.diskIdxToCacheIdx, joined.entries, joined.statuses, joined.writeReqs,
      joined.writeResps, joined.readReqs, joined.readResps, joined.tickets, joined.stubs,
      joined.syncReqs, joined.havocs]

theorem dot_of_joined {x y whole : Shard} (joined : Joined x y whole) :
    dot (some x) (some y) = some whole :=
  dot_eq_some_iff.mpr joined

theorem exists_joined_of_dot {x y : M} {whole : Shard} (fits : dot x y = some whole) :
    ∃ x' y', x = some x' ∧ y = some y' ∧ Joined x' y' whole := by
  simp only [dot, Option.bind_eq_some_iff] at fits
  obtain ⟨x', isLeft, y', isRight, joins⟩ := fits
  exact ⟨x', y', isLeft, isRight, dot_eq_some_iff.mp joins⟩

abbrev System := AsyncDiskSystem.Variables M

def Entry.diskIdx? : Entry → Option Nat
  | .empty => none
  | .reading diskIdx | .entry diskIdx _ => some diskIdx

def Entry.data? : Entry → Option Block
  | .entry _ data => some data
  | _ => none

/-- Slots with a page have a status, and the map from pages to slots is their inverse. -/
structure SlotsInv (m : Shard) : Prop where
  status_iff : ∀ slot,
    (m.statuses.lookup slot).isSome ↔ ((m.entries.lookup slot).bind Entry.data?).isSome
  slot_iff : ∀ slot page, (m.entries.lookup slot).bind Entry.diskIdx? = some page ↔
    m.diskIdxToCacheIdx.lookup page = some (some slot)

/-- A slot waits for the page. -/
def IsReading (m : Shard) (addr : Nat) : Prop :=
  ∃ slot page, m.diskIdxToCacheIdx.lookup addr = some (some slot) ∧
    m.entries.lookup slot = some (.reading page)

/-- A slot with the page is being written. -/
def IsWriting (m : Shard) (addr : Nat) : Prop :=
  ∃ slot, m.diskIdxToCacheIdx.lookup addr = some (some slot) ∧
    m.statuses.lookup slot = some .writeback

namespace SlotsInv

variable {m : Shard} (slots : SlotsInv m) {slot slot' page : Nat} {data data' : Block}

include slots

theorem slot_unique {entry entry' : Entry} (found : m.entries.lookup slot = some entry)
    (found' : m.entries.lookup slot' = some entry') (isPage : entry.diskIdx? = some page)
    (isPage' : entry'.diskIdx? = some page) : slot = slot' := by
  have mapped := (slots.slot_iff slot page).mp (by simp [found, isPage])
  have mapped' := (slots.slot_iff slot' page).mp (by simp [found', isPage'])
  simpa using mapped.symm.trans mapped'

theorem isReading_iff : IsReading m page ↔
    ∃ slot, m.entries.lookup slot = some (.reading page) := by
  constructor
  · rintro ⟨slot, page', mapped, found⟩
    obtain rfl : page' = page := by
      simpa [found, Entry.diskIdx?] using (slots.slot_iff slot page).mpr mapped
    exact ⟨slot, found⟩
  · rintro ⟨slot, found⟩
    exact ⟨slot, page, (slots.slot_iff slot page).mp (by simp [found, Entry.diskIdx?]), found⟩

theorem exists_entry {status : Status} (found : m.statuses.lookup slot = some status) :
    ∃ page data, m.entries.lookup slot = some (.entry page data) := by
  have holds := (slots.status_iff slot).mp (by simp [found])
  cases entry : m.entries.lookup slot with
  | none => simp [entry] at holds
  | some entry' =>
    cases entry' with
    | entry page data => exact ⟨page, data, rfl⟩
    | empty | reading => simp [entry, Entry.data?] at holds

theorem isWriting_iff : IsWriting m page ↔ ∃ slot data,
    m.entries.lookup slot = some (.entry page data) ∧
      m.statuses.lookup slot = some .writeback := by
  constructor
  · rintro ⟨slot, mapped, isWriteback⟩
    obtain ⟨page', data, found⟩ := slots.exists_entry isWriteback
    obtain rfl : page' = page := by
      simpa [found, Entry.diskIdx?] using (slots.slot_iff slot page).mpr mapped
    exact ⟨slot, data, found, isWriteback⟩
  · rintro ⟨slot, data, found, isWriteback⟩
    exact ⟨slot, (slots.slot_iff slot page).mp (by simp [found, Entry.diskIdx?]), isWriteback⟩

theorem not_reading_and_writing (reading : IsReading m page) (writing : IsWriting m page) :
    False := by
  obtain ⟨_, found⟩ := slots.isReading_iff.mp reading
  obtain ⟨_, _, found', -⟩ := slots.isWriting_iff.mp writing
  obtain rfl := slots.slot_unique found found' rfl rfl
  cases found.symm.trans found'

end SlotsInv

def readTraffic (disk : PageDisk.Variables) (m : Shard) : Traffic RequestId Nat where
  reqs := { addr | addr ∈ m.readReqs }
  sent id := (disk.reqReads.lookup id).map (·.addr)
  answered id := (disk.respReads.lookup id).map (·.addr)
  resps := { addr | (m.readResps.lookup addr).isSome }

def writeTraffic (disk : PageDisk.Variables) (m : Shard) : Traffic RequestId Nat where
  reqs := { addr | (m.writeReqs.lookup addr).isSome }
  sent id := (disk.reqWrites.lookup id).map (·.addr)
  answered id := (disk.respWrites.lookup id).map (·.addr)
  resps := { addr | addr ∈ m.writeResps }

/-- What is clean, and what is on its way, agrees with the disk. -/
structure Agrees (disk : PageDisk.Variables) (m : Shard) : Prop where
  clean : ∀ {slot page data}, m.statuses.lookup slot = some .clean →
    m.entries.lookup slot = some (.entry page data) → disk.contents.lookup page = some data
  respRead : ∀ {id resp}, disk.respReads.lookup id = some resp →
    disk.contents.lookup resp.addr = some resp.data
  readResp : ∀ {page data}, m.readResps.lookup page = some data →
    disk.contents.lookup page = some data
  writeReq : ∀ {page data slot data'}, m.writeReqs.lookup page = some data →
    m.entries.lookup slot = some (.entry page data') → data' = data
  reqWrite : ∀ {id req slot data}, disk.reqWrites.lookup id = some req →
    m.entries.lookup slot = some (.entry req.addr data) → data = req.data
  respWrite : ∀ {id resp slot data}, disk.respWrites.lookup id = some resp →
    m.entries.lookup slot = some (.entry resp.addr data) →
      disk.contents.lookup resp.addr = some data
  writeResp : ∀ {page slot data}, page ∈ m.writeResps →
    m.entries.lookup slot = some (.entry page data) → disk.contents.lookup page = some data

/-- Slots and disk agree on the pages that are read and written. -/
structure ShardInv (disk : PageDisk.Variables) (m : Shard) : Prop where
  slots : SlotsInv m
  reads : (readTraffic disk m).WF
  writes : (writeTraffic disk m).WF
  reading : ∀ {addr}, (readTraffic disk m).InFlight addr → IsReading m addr
  writing : ∀ {addr}, (writeTraffic disk m).InFlight addr → IsWriting m addr
  tickets_stubs : ∀ {rid input}, m.tickets.lookup rid = some input → m.stubs.lookup rid = none
  agrees : Agrees disk m

def Inv (s : System) : Prop := ∃ m, s.machine = some m ∧ ShardInv s.disk m

theorem Inv.not_conflicting {s : System} (inv : Inv s) (disk' : PageDisk.Variables)
    (id id' : RequestId) : ¬ PageDisk.HavocConflictingWrites s.disk disk' id id' ∧
      ¬ PageDisk.HavocConflictingWriteRead s.disk disk' id id' := by
  obtain ⟨m, -, inv⟩ := inv
  constructor
  · rintro ⟨isOther, req, req', found, found', same⟩
    have sent : (writeTraffic s.disk m).sent id = some req.addr := by simp [writeTraffic, found]
    have sent' : (writeTraffic s.disk m).sent id' = some req.addr := by
      simp [writeTraffic, found', same]
    exact isOther (inv.writes.sent_unique sent sent')
  · rintro ⟨req, req', found, found', same⟩
    have sent : (writeTraffic s.disk m).sent id = some req.addr := by simp [writeTraffic, found]
    have sent' : (readTraffic s.disk m).sent id' = some req.addr := by
      simp [readTraffic, found', same]
    exact inv.slots.not_reading_and_writing (inv.reading (Or.inr (Or.inl ⟨id', sent'⟩)))
      (inv.writing (Or.inr (Or.inl ⟨id, sent⟩)))

end CacheSSM

end VerifiedBetrfs
