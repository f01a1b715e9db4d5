import VerifiedBetrfs.CacheSSM

/-!
# Every step of the cache and the disk keeps the invariant

A step changes one slot, or moves one request or answer between the machine and the disk.
-/

namespace VerifiedBetrfs.CacheSSM

open FiniteMap (join_erase join_insert join_insert_new lookup_erase_eq_some lookup_insert
  lookup_insert_eq_some lookup_insert_of_ne lookup_whole_of_join)

variable {disk : PageDisk.Variables} {m m' : Shard}

theorem internalStep_whole {p whole : Shard} {step : Step} (inv : ShardInv disk whole)
    (joined : Joined m p whole) (next : InternalStep m m' step) :
    ∃ whole', InternalStep whole whole' step ∧ Joined m' p whole' := by
  have atEntries := lookup_whole_of_join joined.entries
  have atStatuses := lookup_whole_of_join joined.statuses
  have atMap := lookup_whole_of_join joined.diskIdxToCacheIdx
  have atTickets := lookup_whole_of_join joined.tickets
  have atHavocs := lookup_whole_of_join joined.havocs
  have noStatus : ∀ {slot entry}, whole.entries.lookup slot = some entry → entry.data? = none →
      whole.statuses.lookup slot = none := by
    intro slot entry found noData
    rw [← Option.not_isSome_iff_eq_none, inv.slots.status_iff, found]
    simp [noData]
  cases step with
  | startRead cacheIdx diskIdx =>
    obtain ⟨found, mapped, rfl⟩ := next
    have absent : diskIdx ∉ whole.readReqs := by
      intro member
      obtain ⟨slot, _, mapped', -⟩ := inv.reading (Or.inl member)
      cases (atMap mapped).symm.trans mapped'
    exact ⟨_, ⟨atEntries found, atMap mapped, rfl⟩,
      { joined with
        entries := join_insert joined.entries _ found
        diskIdxToCacheIdx := join_insert joined.diskIdxToCacheIdx _ mapped
        readReqs := DisjointSet.join_insert_new joined.readReqs absent }⟩
  | finishRead cacheIdx diskIdx =>
    obtain ⟨_, found, answer, rfl⟩ := next
    exact ⟨_, ⟨_, atEntries found, lookup_whole_of_join joined.readResps answer, rfl⟩,
      { joined with
        entries := join_insert joined.entries _ found
        statuses := join_insert_new joined.statuses _ (noStatus (atEntries found) rfl)
        readResps := join_erase joined.readResps answer }⟩
  | startWriteback cacheIdx =>
    obtain ⟨diskIdx, _, isDirty, found, rfl⟩ := next
    have absent : whole.writeReqs.lookup diskIdx = none := by
      refine Option.eq_none_iff_forall_ne_some.mpr fun data' requested => ?_
      have isReq : diskIdx ∈ (writeTraffic disk whole).reqs := by simp [writeTraffic, requested]
      obtain ⟨slot, _, found', isWriteback⟩ :=
        inv.slots.isWriting_iff.mp (inv.writing (Or.inl isReq))
      obtain rfl := inv.slots.slot_unique (atEntries found) found' rfl rfl
      cases (atStatuses isDirty).symm.trans isWriteback
    exact ⟨_, ⟨diskIdx, _, atStatuses isDirty, atEntries found, rfl⟩,
      { joined with
        statuses := join_insert joined.statuses _ isDirty
        writeReqs := join_insert_new joined.writeReqs _ absent }⟩
  | finishWriteback cacheIdx =>
    obtain ⟨_, _, _, found, hasStatus, answer, rfl⟩ := next
    exact ⟨_, ⟨_, _, _, atEntries found, atStatuses hasStatus,
        DisjointSet.mem_whole_of_join joined.writeResps answer, rfl⟩,
      { joined with
        statuses := join_insert joined.statuses _ hasStatus
        writeResps := DisjointSet.join_erase joined.writeResps answer }⟩
  | evict cacheIdx =>
    obtain ⟨_, _, _, isClean, found, mapped, rfl⟩ := next
    exact ⟨_, ⟨_, _, _, atStatuses isClean, atEntries found, atMap mapped, rfl⟩,
      { joined with
        entries := join_insert joined.entries _ found
        diskIdxToCacheIdx := join_insert joined.diskIdxToCacheIdx _ mapped
        statuses := join_erase joined.statuses isClean }⟩
  | observeCleanForSync cacheIdx rid =>
    obtain ⟨_, _, _, isClean, found, requested, rfl⟩ := next
    exact ⟨_, ⟨_, _, _, atStatuses isClean, atEntries found,
        lookup_whole_of_join joined.syncReqs requested, rfl⟩,
      { joined with syncReqs := join_insert joined.syncReqs _ requested }⟩
  | applyRead cacheIdx rid =>
    obtain ⟨_, _, found, requested, rfl⟩ := next
    exact ⟨_, ⟨_, _, atEntries found, atTickets requested, rfl⟩,
      { joined with
        tickets := join_erase joined.tickets requested
        stubs := join_insert_new joined.stubs _
          (inv.tickets_stubs (atTickets requested)) }⟩
  | applyWrite cacheIdx rid =>
    obtain ⟨_, _, _, found, isDirty, requested, isBlock, rfl⟩ := next
    exact ⟨_, ⟨_, _, _, atEntries found, atStatuses isDirty, atTickets requested,
        isBlock, rfl⟩,
      { joined with
        tickets := join_erase joined.tickets requested
        stubs := join_insert_new joined.stubs _
          (inv.tickets_stubs (atTickets requested))
        entries := join_insert joined.entries _ found }⟩
  | markDirty cacheIdx =>
    obtain ⟨isClean, rfl⟩ := next
    exact ⟨_, ⟨atStatuses isClean, rfl⟩,
      { joined with statuses := join_insert joined.statuses _ isClean }⟩
  | havocNew cacheIdx rid newData =>
    obtain ⟨_, found, requested, mapped, rfl⟩ := next
    exact ⟨_, ⟨_, atEntries found, atHavocs requested, atMap mapped, rfl⟩,
      { joined with
        entries := join_insert joined.entries _ found
        statuses := join_insert_new joined.statuses _ (noStatus (atEntries found) rfl)
        diskIdxToCacheIdx := join_insert joined.diskIdxToCacheIdx _ mapped }⟩
  | havocEvict cacheIdx rid =>
    obtain ⟨_, _, _, _, found, hasStatus, notWriteback, requested, mapped, rfl⟩ := next
    exact ⟨_, ⟨_, _, _, _, atEntries found, atStatuses hasStatus, notWriteback,
        atHavocs requested, atMap mapped, rfl⟩,
      { joined with
        entries := join_insert joined.entries _ found
        statuses := join_erase joined.statuses hasStatus
        diskIdxToCacheIdx := join_insert joined.diskIdxToCacheIdx _ mapped }⟩

/-- A step that changes one slot only. -/
structure ChangesSlot (m m' : Shard) (slot : Nat) : Prop where
  slots : SlotsInv m'
  entries : ∀ other, other ≠ slot → m'.entries.lookup other = m.entries.lookup other
  statuses : ∀ other, other ≠ slot → m'.statuses.lookup other = m.statuses.lookup other

namespace SlotsInv

variable {slot page : Nat} {entry entry' : Entry}

section

variable (slots : SlotsInv m)

include slots

section

variable (entriesEq : m'.entries = m.entries.insert slot entry')
  (hasStatus : (m'.statuses.lookup slot).isSome ↔ entry'.data?.isSome)
  (elsewhere : ∀ other, other ≠ slot → m'.statuses.lookup other = m.statuses.lookup other)

include entriesEq hasStatus elsewhere

theorem changesSlot
    (slotIff : ∀ slot page, (m'.entries.lookup slot).bind Entry.diskIdx? = some page ↔
      m'.diskIdxToCacheIdx.lookup page = some (some slot)) : ChangesSlot m m' slot where
  slots.status_iff other := by
    rw [entriesEq, lookup_insert]
    by_cases isSlot : other = slot
    · simpa [isSlot] using hasStatus
    · rw [if_neg isSlot, elsewhere other isSlot, slots.status_iff]
  slots.slot_iff := slotIff
  entries other isOther := by rw [entriesEq, lookup_insert_of_ne _ _ _ isOther]
  statuses := elsewhere

section

variable (found : m.entries.lookup slot = some entry)

include found

theorem replace (samePage : entry.diskIdx? = entry'.diskIdx?)
    (mapEq : m'.diskIdxToCacheIdx = m.diskIdxToCacheIdx) : ChangesSlot m m' slot := by
  refine slots.changesSlot entriesEq hasStatus elsewhere fun slot' page' => ?_
  rw [entriesEq, mapEq, lookup_insert, ← slots.slot_iff]
  by_cases isSlot : slot' = slot
  · simp [isSlot, found, samePage]
  · simp [isSlot]

/-- A slot is given a page or taken from it, while neither belongs to another one. -/
theorem remap {target : Option Nat} (oldPage : ∀ other, entry.diskIdx? = some other → other = page)
    (oldSlot : ∀ other, m.diskIdxToCacheIdx.lookup page = some (some other) → other = slot)
    (newPage : ∀ other, entry'.diskIdx? = some other → other = page)
    (newSlot : ∀ other, target = some other → other = slot)
    (same : entry'.diskIdx? = some page ↔ target = some slot)
    (mapEq : m'.diskIdxToCacheIdx = m.diskIdxToCacheIdx.insert page target) :
    ChangesSlot m m' slot := by
  refine slots.changesSlot entriesEq hasStatus elsewhere fun slot' page' => ?_
  have before := slots.slot_iff slot' page'
  rw [entriesEq, mapEq, lookup_insert, lookup_insert]
  by_cases isSlot : slot' = slot <;> by_cases isPage : page' = page
  · simpa [isSlot, isPage] using same
  · rw [isSlot, found, Option.bind_some] at before
    rw [if_pos isSlot, if_neg isPage, isSlot, ← before, Option.bind_some]
    exact iff_of_false (fun isNew => isPage (newPage page' isNew))
      fun isOld => isPage (oldPage page' isOld)
  · rw [isPage] at before
    rw [if_neg isSlot, if_pos isPage, isPage, before, Option.some.injEq]
    exact iff_of_false (fun isOld => isSlot (oldSlot slot' isOld))
      fun isNew => isSlot (newSlot slot' isNew)
  · simpa [isSlot, isPage] using before

end

theorem claim (isEmpty : m.entries.lookup slot = some .empty)
    (isFree : m.diskIdxToCacheIdx.lookup page = some none) (isPage : entry'.diskIdx? = some page)
    (mapEq : m'.diskIdxToCacheIdx = m.diskIdxToCacheIdx.insert page (some slot)) :
    ChangesSlot m m' slot :=
  slots.remap entriesEq hasStatus elsewhere isEmpty nofun (by simp [isFree]) (by simp [isPage])
    (by simp) (by simp [isPage]) mapEq

end

theorem release (found : m.entries.lookup slot = some entry) (isPage : entry.diskIdx? = some page)
    (entriesEq : m'.entries = m.entries.insert slot .empty)
    (mapEq : m'.diskIdxToCacheIdx = m.diskIdxToCacheIdx.insert page none)
    (statusesEq : m'.statuses = m.statuses.erase slot) : ChangesSlot m m' slot := by
  have mapped := (slots.slot_iff slot page).mp (by simp [found, isPage])
  exact slots.remap entriesEq (by simp [statusesEq, Entry.data?])
    (fun other isOther => by simp [statusesEq, isOther]) found (by simp [isPage])
    (by simp [mapped]) (by simp [Entry.diskIdx?]) (by simp) (by simp [Entry.diskIdx?]) mapEq

theorem setStatus {status status' : Status}
    (found : m.statuses.lookup slot = some status) (entriesEq : m'.entries = m.entries)
    (mapEq : m'.diskIdxToCacheIdx = m.diskIdxToCacheIdx)
    (statusesEq : m'.statuses = m.statuses.insert slot status') : ChangesSlot m m' slot where
  slots.status_iff other := by
    rw [entriesEq, statusesEq, ← slots.status_iff, lookup_insert]
    by_cases isSlot : other = slot <;> simp [isSlot, found]
  slots.slot_iff slot' page' := by rw [entriesEq, mapEq, slots.slot_iff]
  entries _ _ := by rw [entriesEq]
  statuses other isOther := by rw [statusesEq, lookup_insert_of_ne _ _ _ isOther]

end

end SlotsInv

/-- An entry changes only while its page is not being written.  What becomes clean agrees with the
disk. -/
theorem Agrees.of_step (agrees : Agrees disk m)
    (entries : ∀ {slot page data}, m'.entries.lookup slot = some (.entry page data) →
      m.entries.lookup slot = some (.entry page data) ∨ ¬ (writeTraffic disk m).InFlight page)
    (clean : ∀ {slot page data}, m'.statuses.lookup slot = some .clean →
      m'.entries.lookup slot = some (.entry page data) →
        (m.statuses.lookup slot = some .clean ∧ m.entries.lookup slot = some (.entry page data)) ∨
          disk.contents.lookup page = some data)
    (readResps : ∀ {page data}, m'.readResps.lookup page = some data →
      m.readResps.lookup page = some data)
    (writeReqs : ∀ {page data}, m'.writeReqs.lookup page = some data →
      m.writeReqs.lookup page = some data ∨
        ∀ {slot data'}, m'.entries.lookup slot = some (.entry page data') → data' = data)
    (writeResps : m'.writeResps ⊆ m.writeResps) : Agrees disk m' where
  clean isClean found := by
    obtain ⟨wasClean, wasFound⟩ | agreesNow := clean isClean found
    · exact agrees.clean wasClean wasFound
    · exact agreesNow
  respRead := agrees.respRead
  readResp answer := agrees.readResp (readResps answer)
  writeReq requested found := by
    obtain wasRequested | isNew := writeReqs requested
    · obtain wasFound | notInFlight := entries found
      · exact agrees.writeReq wasRequested wasFound
      · exact (notInFlight (Or.inl (by simp [writeTraffic, wasRequested]))).elim
    · exact isNew found
  reqWrite {id req slot data} requested found := by
    obtain wasFound | notInFlight := entries found
    · exact agrees.reqWrite requested wasFound
    · exact (notInFlight (Or.inr (Or.inl ⟨id, by simp [writeTraffic, requested]⟩))).elim
  respWrite {id resp slot data} answer found := by
    obtain wasFound | notInFlight := entries found
    · exact agrees.respWrite answer wasFound
    · exact (notInFlight (Or.inr (Or.inr (Or.inl ⟨id, by simp [writeTraffic, answer]⟩)))).elim
  writeResp answer found := by
    obtain wasFound | notInFlight := entries found
    · exact agrees.writeResp (writeResps answer) wasFound
    · exact (notInFlight (Or.inr (Or.inr (Or.inr (writeResps answer))))).elim

/-- The pages in flight keep their slots, if a slot changes whose page is not in flight. -/
theorem ChangesSlot.isReading {slot page : Nat} (change : ChangesSlot m m' slot)
    (slots : SlotsInv m) (notSlot : m.entries.lookup slot ≠ some (.reading page))
    (reading : IsReading m page) : IsReading m' page := by
  obtain ⟨other, found⟩ := slots.isReading_iff.mp reading
  have isOther : other ≠ slot := by
    rintro rfl
    exact notSlot found
  exact change.slots.isReading_iff.mpr ⟨other, by rw [change.entries other isOther, found]⟩

theorem ChangesSlot.isWriting {slot page : Nat} (change : ChangesSlot m m' slot)
    (slots : SlotsInv m) (notSlot : ∀ data, m.entries.lookup slot = some (.entry page data) →
      m.statuses.lookup slot ≠ some .writeback) (writing : IsWriting m page) :
    IsWriting m' page := by
  obtain ⟨other, data, found, isWriteback⟩ := slots.isWriting_iff.mp writing
  have isOther : other ≠ slot := by
    rintro rfl
    exact notSlot data found isWriteback
  exact change.slots.isWriting_iff.mpr ⟨other, data, by rw [change.entries other isOther, found],
    by rw [change.statuses other isOther, isWriteback]⟩

namespace ShardInv

variable (inv : ShardInv disk m) {cacheIdx diskIdx : Nat} {rid : RequestId} {status : Status}
  {data : Block}

include inv

theorem not_inFlight_of_status (found : m.entries.lookup cacheIdx = some (.entry diskIdx data))
    (hasStatus : m.statuses.lookup cacheIdx = some status) (isOther : status ≠ .writeback) :
    ¬ (writeTraffic disk m).InFlight diskIdx := by
  intro inFlight
  obtain ⟨_, _, found', isWriteback⟩ := inv.slots.isWriting_iff.mp (inv.writing inFlight)
  obtain rfl := inv.slots.slot_unique found found' rfl rfl
  exact isOther (Option.mem_unique hasStatus isWriteback)

theorem startRead (step : StartRead m m' cacheIdx diskIdx) : ShardInv disk m' := by
  obtain ⟨isEmpty, isFree, isNext⟩ := step
  have change : ChangesSlot m m' cacheIdx := by
    subst isNext
    refine inv.slots.claim rfl ?_ (fun _ _ => rfl) isEmpty isFree rfl rfl
    rw [inv.slots.status_iff, isEmpty]
    rfl
  have issued : readTraffic disk m' = (readTraffic disk m).issue diskIdx := by
    simp [isNext, readTraffic, Traffic.issue, Set.insert_def]
  subst isNext
  refine { inv with
    slots := change.slots
    reads := issued ▸ inv.reads.issue fun inFlight => by
      obtain ⟨_, _, mapped, -⟩ := inv.reading inFlight
      cases isFree.symm.trans mapped
    reading := fun {addr} inFlight => ?_
    writing := fun {addr} inFlight => ?_
    agrees := ?_ }
  · rw [issued] at inFlight
    obtain rfl | wasInFlight := Traffic.inFlight_of_issue inFlight
    · exact change.slots.isReading_iff.mpr ⟨cacheIdx, by simp⟩
    · exact change.isReading inv.slots (by simp [isEmpty]) (inv.reading wasInFlight)
  · exact change.isWriting inv.slots (by simp [isEmpty]) (inv.writing inFlight)
  · have kept : ∀ {slot page data},
        (m.entries.insert cacheIdx (.reading diskIdx)).lookup slot = some (.entry page data) →
          m.entries.lookup slot = some (.entry page data) := by
      intro slot page data found
      obtain ⟨-, ⟨⟩⟩ | ⟨-, wasFound⟩ := lookup_insert_eq_some.mp found
      exact wasFound
    exact inv.agrees.of_step (fun found => Or.inl (kept found))
      (fun isClean found => Or.inl ⟨isClean, kept found⟩) id Or.inl (Finset.Subset.refl _)

theorem finishRead (step : FinishRead m m' cacheIdx diskIdx) : ShardInv disk m' := by
  obtain ⟨_, isReading, answer, isNext⟩ := step
  have change : ChangesSlot m m' cacheIdx := by
    subst isNext
    exact inv.slots.replace rfl (by simp [Entry.data?]) (lookup_insert_of_ne m.statuses _)
      isReading rfl rfl
  have finished : readTraffic disk m' = (readTraffic disk m).finish diskIdx := by
    simp only [isNext, readTraffic, Traffic.finish, Traffic.mk.injEq, true_and]
    ext addr
    by_cases isPage : addr = diskIdx <;> simp [isPage]
  have isResp : diskIdx ∈ (readTraffic disk m).resps := by simp [readTraffic, answer]
  have noWrite : ¬ (writeTraffic disk m).InFlight diskIdx := fun inFlight =>
    inv.slots.not_reading_and_writing (inv.slots.isReading_iff.mpr ⟨_, isReading⟩)
      (inv.writing inFlight)
  subst isNext
  refine { inv with
    slots := change.slots
    reads := finished ▸ inv.reads.finish
    reading := fun {addr} inFlight => ?_
    writing := fun {addr} inFlight => ?_
    agrees := ?_ }
  · rw [finished] at inFlight
    obtain ⟨wasInFlight, isOther⟩ := inv.reads.inFlight_of_finish isResp inFlight
    refine change.isReading inv.slots ?_ (inv.reading wasInFlight)
    simp [isReading, isOther.symm]
  · exact change.isWriting inv.slots (by simp [isReading]) (inv.writing inFlight)
  · refine inv.agrees.of_step (fun {slot page data'} found => ?_)
      (fun {slot page data'} isClean found => ?_)
      (fun {page data'} stillAnswer => (lookup_erase_eq_some.mp stillAnswer).2)
      Or.inl (Finset.Subset.refl _)
    · obtain ⟨-, ⟨⟩⟩ | ⟨-, wasFound⟩ := lookup_insert_eq_some.mp found
      · exact Or.inr noWrite
      · exact Or.inl wasFound
    · obtain ⟨-, ⟨⟩⟩ | ⟨isOther, wasFound⟩ := lookup_insert_eq_some.mp found
      · exact Or.inr (inv.agrees.readResp answer)
      · exact Or.inl ⟨(lookup_insert_of_ne _ _ _ isOther).symm.trans isClean, wasFound⟩

theorem startWriteback (step : StartWriteback m m' cacheIdx) : ShardInv disk m' := by
  obtain ⟨diskIdx, data, isDirty, found, isNext⟩ := step
  have change : ChangesSlot m m' cacheIdx := by
    subst isNext
    exact inv.slots.setStatus isDirty rfl rfl rfl
  have issued : writeTraffic disk m' = (writeTraffic disk m).issue diskIdx := by
    simp only [isNext, writeTraffic, Traffic.issue, Traffic.mk.injEq, and_true]
    ext addr
    by_cases isPage : addr = diskIdx <;> simp [isPage]
  subst isNext
  refine { inv with
    slots := change.slots
    writes := issued ▸ inv.writes.issue
      (inv.not_inFlight_of_status found isDirty (by simp))
    reading := fun {addr} inFlight => ?_
    writing := fun {addr} inFlight => ?_
    agrees := ?_ }
  · exact change.slots.isReading_iff.mpr (inv.slots.isReading_iff.mp (inv.reading inFlight))
  · rw [issued] at inFlight
    obtain rfl | wasInFlight := Traffic.inFlight_of_issue inFlight
    · exact change.slots.isWriting_iff.mpr ⟨cacheIdx, data, found, by simp⟩
    · exact change.isWriting inv.slots (by simp [isDirty]) (inv.writing wasInFlight)
  · refine inv.agrees.of_step Or.inl (fun {slot page data'} isClean found' => ?_) id
      (fun {page data'} requested => ?_) (Finset.Subset.refl _)
    · obtain ⟨-, ⟨⟩⟩ | ⟨-, wasClean⟩ := lookup_insert_eq_some.mp isClean
      exact Or.inl ⟨wasClean, found'⟩
    · obtain ⟨rfl, rfl⟩ | ⟨-, wasRequested⟩ := lookup_insert_eq_some.mp requested
      · refine Or.inr fun found' => ?_
        obtain rfl := inv.slots.slot_unique found' found rfl rfl
        simpa using found'.symm.trans found
      · exact Or.inl wasRequested

theorem finishWriteback (step : FinishWriteback m m' cacheIdx) : ShardInv disk m' := by
  obtain ⟨diskIdx, data, _, found, hasStatus, answer, isNext⟩ := step
  have change : ChangesSlot m m' cacheIdx := by
    subst isNext
    exact inv.slots.setStatus hasStatus rfl rfl rfl
  have finished : writeTraffic disk m' = (writeTraffic disk m).finish diskIdx := by
    simp only [isNext, writeTraffic, Traffic.finish, Traffic.mk.injEq, true_and]
    ext addr
    simp [and_comm]
  subst isNext
  refine { inv with
    slots := change.slots
    writes := finished ▸ inv.writes.finish
    reading := fun {addr} inFlight => ?_
    writing := fun {addr} inFlight => ?_
    agrees := ?_ }
  · exact change.slots.isReading_iff.mpr (inv.slots.isReading_iff.mp (inv.reading inFlight))
  · rw [finished] at inFlight
    obtain ⟨wasInFlight, isOther⟩ := inv.writes.inFlight_of_finish answer inFlight
    refine change.isWriting inv.slots ?_ (inv.writing wasInFlight)
    simp [found, isOther.symm]
  · refine inv.agrees.of_step Or.inl (fun {slot page data'} isClean found' => ?_) id Or.inl
      (Finset.erase_subset _ _)
    obtain ⟨rfl, -⟩ | ⟨-, wasClean⟩ := lookup_insert_eq_some.mp isClean
    · obtain ⟨rfl, rfl⟩ : diskIdx = page ∧ data = data' := by simpa using found.symm.trans found'
      exact Or.inr (inv.agrees.writeResp answer found)
    · exact Or.inl ⟨wasClean, found'⟩

theorem of_change (change : ChangesSlot m m' cacheIdx)
    (notReading : ∀ page, m.entries.lookup cacheIdx ≠ some (.reading page))
    (notWriteback : m.statuses.lookup cacheIdx ≠ some .writeback)
    (sameReads : readTraffic disk m' = readTraffic disk m)
    (sameWrites : writeTraffic disk m' = writeTraffic disk m)
    (answered : ∀ {rid input}, m'.tickets.lookup rid = some input → m'.stubs.lookup rid = none)
    (agrees : Agrees disk m') : ShardInv disk m' where
  slots := change.slots
  reads := sameReads ▸ inv.reads
  writes := sameWrites ▸ inv.writes
  reading inFlight :=
    change.isReading inv.slots (notReading _) (inv.reading (sameReads ▸ inFlight))
  writing inFlight :=
    change.isWriting inv.slots (fun _ _ => notWriteback) (inv.writing (sameWrites ▸ inFlight))
  tickets_stubs := answered
  agrees := agrees

theorem emptySlot (found : m.entries.lookup cacheIdx = some (.entry diskIdx data))
    (hasStatus : m.statuses.lookup cacheIdx = some status) (notWriteback : status ≠ .writeback) :
    ShardInv disk { m with
      entries := m.entries.insert cacheIdx .empty
      diskIdxToCacheIdx := m.diskIdxToCacheIdx.insert diskIdx none
      statuses := m.statuses.erase cacheIdx } := by
  refine inv.of_change (inv.slots.release found rfl rfl rfl rfl) (by simp [found])
    (by simp [hasStatus, notWriteback]) rfl rfl inv.tickets_stubs ?_
  have kept : ∀ {slot page data},
      (m.entries.insert cacheIdx .empty).lookup slot = some (.entry page data) →
        m.entries.lookup slot = some (.entry page data) := by
    intro slot page data found
    obtain ⟨-, ⟨⟩⟩ | ⟨-, wasFound⟩ := lookup_insert_eq_some.mp found
    exact wasFound
  exact inv.agrees.of_step (fun found => Or.inl (kept found))
    (fun isClean found => Or.inl ⟨(lookup_erase_eq_some.mp isClean).2, kept found⟩)
    id Or.inl (Finset.Subset.refl _)

theorem evict (step : Evict m m' cacheIdx) : ShardInv disk m' := by
  obtain ⟨_, _, _, isClean, found, -, rfl⟩ := step
  exact inv.emptySlot found isClean (by simp)

theorem havocEvict (step : HavocEvict m m' cacheIdx rid) : ShardInv disk m' := by
  obtain ⟨_, _, _, _, found, hasStatus, notWriteback, -, -, rfl⟩ := step
  exact inv.emptySlot found hasStatus notWriteback

theorem havocNew {newData : Block} (step : HavocNew m m' cacheIdx rid newData) :
    ShardInv disk m' := by
  obtain ⟨diskIdx, isEmpty, -, isFree, rfl⟩ := step
  have noWrite : ¬ (writeTraffic disk m).InFlight diskIdx := by
    intro inFlight
    obtain ⟨slot, mapped, -⟩ := inv.writing inFlight
    cases isFree.symm.trans mapped
  have noStatus : m.statuses.lookup cacheIdx = none := by
    rw [← Option.not_isSome_iff_eq_none, inv.slots.status_iff, isEmpty]
    simp [Entry.data?]
  refine inv.of_change (inv.slots.claim rfl (by simp [Entry.data?])
    (lookup_insert_of_ne m.statuses _) isEmpty isFree rfl rfl) (by simp [isEmpty])
    (by simp [noStatus]) rfl rfl inv.tickets_stubs ?_
  refine inv.agrees.of_step (fun {slot page data'} found => ?_)
    (fun {slot page data'} isClean found => ?_) id Or.inl (Finset.Subset.refl _)
  · obtain ⟨-, ⟨⟩⟩ | ⟨-, wasFound⟩ := lookup_insert_eq_some.mp found
    · exact Or.inr noWrite
    · exact Or.inl wasFound
  · obtain ⟨-, ⟨⟩⟩ | ⟨isOther, wasClean⟩ := lookup_insert_eq_some.mp isClean
    exact Or.inl ⟨wasClean, (lookup_insert_of_ne _ _ _ isOther).symm.trans found⟩

theorem markDirty (step : MarkDirty m m' cacheIdx) : ShardInv disk m' := by
  obtain ⟨isClean, rfl⟩ := step
  obtain ⟨page, _, found⟩ := inv.slots.exists_entry isClean
  refine inv.of_change (inv.slots.setStatus isClean rfl rfl rfl) (by simp [found])
    (by simp [isClean]) rfl rfl inv.tickets_stubs ?_
  refine inv.agrees.of_step Or.inl (fun {slot page data'} stillClean found => ?_) id Or.inl
    (Finset.Subset.refl _)
  obtain ⟨-, ⟨⟩⟩ | ⟨-, wasClean⟩ := lookup_insert_eq_some.mp stillClean
  exact Or.inl ⟨wasClean, found⟩

theorem observeCleanForSync (step : ObserveCleanForSync m m' cacheIdx rid) : ShardInv disk m' := by
  obtain ⟨_, _, _, -, -, -, rfl⟩ := step
  exact { inv with slots := { inv.slots with }, agrees := { inv.agrees with } }

theorem tickets_stubs_answer {output : CacheIfc.Output} {other : RequestId}
    {input : CacheIfc.Input} (found : (m.tickets.erase rid).lookup other = some input) :
    (m.stubs.insert rid output).lookup other = none := by
  obtain ⟨isOther, wasFound⟩ := lookup_erase_eq_some.mp found
  rw [lookup_insert_of_ne _ _ _ isOther, inv.tickets_stubs wasFound]

theorem applyRead (step : ApplyRead m m' cacheIdx rid) : ShardInv disk m' := by
  obtain ⟨_, _, -, -, rfl⟩ := step
  exact { inv with
    slots := { inv.slots with }
    tickets_stubs := inv.tickets_stubs_answer
    agrees := { inv.agrees with } }

theorem applyWrite (step : ApplyWrite m m' cacheIdx rid) : ShardInv disk m' := by
  obtain ⟨_, _, _, found, isDirty, -, _, rfl⟩ := step
  refine inv.of_change (inv.slots.replace rfl
    ⟨fun _ => rfl, fun _ => by simp [isDirty]⟩ (fun _ _ => rfl) found rfl rfl) (by simp [found])
    (by simp [isDirty]) rfl rfl inv.tickets_stubs_answer ?_
  refine inv.agrees.of_step (fun {slot page data'} found' => ?_)
    (fun {slot page data'} isClean found' => ?_) id Or.inl (Finset.Subset.refl _)
  · obtain ⟨-, ⟨⟩⟩ | ⟨-, wasFound⟩ := lookup_insert_eq_some.mp found'
    · exact Or.inr (inv.not_inFlight_of_status found isDirty (by simp))
    · exact Or.inl wasFound
  · obtain ⟨rfl, -⟩ | ⟨-, wasFound⟩ := lookup_insert_eq_some.mp found'
    · cases isDirty.symm.trans isClean
    · exact Or.inl ⟨isClean, wasFound⟩

theorem internalStep {step : Step} (next : InternalStep m m' step) : ShardInv disk m' := by
  cases step with
  | startRead => exact inv.startRead next
  | finishRead => exact inv.finishRead next
  | startWriteback => exact inv.startWriteback next
  | finishWriteback => exact inv.finishWriteback next
  | evict => exact inv.evict next
  | observeCleanForSync => exact inv.observeCleanForSync next
  | applyRead => exact inv.applyRead next
  | applyWrite => exact inv.applyWrite next
  | markDirty => exact inv.markDirty next
  | havocNew => exact inv.havocNew next
  | havocEvict => exact inv.havocEvict next

end ShardInv

end VerifiedBetrfs.CacheSSM
