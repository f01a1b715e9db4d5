import VerifiedBetrfs.CacheDiskSteps

/-!
# The cache with its disk is an abstract cache

The durable value of a page is the one on the disk; the value that is read is the one in the cache,
if a slot holds the page.
-/

namespace VerifiedBetrfs.CacheSSM

open CacheIfc AbstractCache

variable {disk : PageDisk.Variables} {m m' : Shard} {page slot : Nat} {data : Block}
  {disk' : PageDisk.Variables} {s s' : System}

def diskValue (disk : PageDisk.Variables) (page : Nat) : AbstractCache.Value :=
  match disk.contents.lookup page with
  | some data => data.val
  | none => []

def cachedData (m : Shard) (page : Nat) : Option Block :=
  (m.diskIdxToCacheIdx.lookup page).join.bind fun slot => (m.entries.lookup slot).bind Entry.data?

/-- What is read of a page. -/
def readValue (disk : PageDisk.Variables) (m : Shard) (page : Nat) : AbstractCache.Value :=
  match cachedData m page with
  | some data => data.val
  | none => diskValue disk page

/-- The state of the abstract cache. -/
def interpShard (disk : PageDisk.Variables) (m : Shard) : AbstractCache.Variables where
  store page := some ⟨diskValue disk page, readValue disk m page⟩
  tickets := m.tickets
  stubs := m.stubs
  syncReqs := m.syncReqs
  havocReqs := m.havocs

def interp (s : System) : AbstractCache.Variables :=
  interpShard s.disk (s.machine.getD Shard.unit)

theorem diskValue_of_eq (stored : disk.contents.lookup page = some data) :
    diskValue disk page = data.val := by
  rw [diskValue, stored]

theorem SlotsInv.cachedData_eq_some_iff (slots : SlotsInv m) :
    cachedData m page = some data ↔ ∃ slot, m.entries.lookup slot = some (.entry page data) := by
  simp only [cachedData, Option.bind_eq_some_iff, Option.join_eq_some_iff]
  constructor
  · rintro ⟨slot, mapped, entry, found, hasData⟩
    have isPage : entry.diskIdx? = some page := by
      simpa [found] using (slots.slot_iff slot page).mpr mapped
    cases entry with
    | empty | reading => cases hasData
    | entry page' data' =>
      obtain rfl : page' = page := by simpa [Entry.diskIdx?] using isPage
      obtain rfl : data' = data := by simpa [Entry.data?] using hasData
      exact ⟨slot, found⟩
  · rintro ⟨slot, found⟩
    exact ⟨slot, (slots.slot_iff slot page).mp (by simp [found, Entry.diskIdx?]), _, found, rfl⟩

theorem SlotsInv.readValue_of_entry (slots : SlotsInv m)
    (found : m.entries.lookup slot = some (.entry page data)) :
    readValue disk m page = data.val := by
  rw [readValue, slots.cachedData_eq_some_iff.mpr ⟨slot, found⟩]

theorem SlotsInv.readValue_of_no_entry (slots : SlotsInv m)
    (none : ∀ slot data, m.entries.lookup slot ≠ some (.entry page data)) :
    readValue disk m page = diskValue disk page := by
  have notCached : cachedData m page = Option.none :=
    Option.eq_none_iff_forall_ne_some.mpr fun data isCached => by
      obtain ⟨slot, found⟩ := slots.cachedData_eq_some_iff.mp isCached
      exact none slot data found
  rw [readValue, notCached]

theorem SlotsInv.readValue_of_ne (slots : SlotsInv m) (slots' : SlotsInv m')
    (elsewhere : ∀ other, other ≠ slot → m'.entries.lookup other = m.entries.lookup other)
    (notBefore : ∀ data, m.entries.lookup slot ≠ some (.entry page data))
    (notAfter : ∀ data, m'.entries.lookup slot ≠ some (.entry page data)) :
    readValue disk m' page = readValue disk m page := by
  have same : cachedData m' page = cachedData m page := by
    refine Option.ext fun data => ?_
    rw [slots.cachedData_eq_some_iff, slots'.cachedData_eq_some_iff]
    refine exists_congr fun other => ?_
    by_cases isSlot : other = slot
    · subst isSlot
      exact iff_of_false (notAfter data) (notBefore data)
    · rw [elsewhere other isSlot]
  rw [readValue, readValue, same]

theorem interpShard_congr (sameValue : ∀ page, readValue disk m' page = readValue disk m page)
    (tickets : m'.tickets = m.tickets) (stubs : m'.stubs = m.stubs)
    (syncReqs : m'.syncReqs = m.syncReqs) (havocs : m'.havocs = m.havocs) :
    interpShard disk m' = interpShard disk m := by
  simp only [interpShard, sameValue, tickets, stubs, syncReqs, havocs]

theorem next_of_eq {s s' : AbstractCache.Variables} (same : s' = s) :
    AbstractCache.Next s s' .internalOp :=
  ⟨.stutter, rfl, same⟩

namespace ShardInv

variable (inv : ShardInv disk m) {cacheIdx diskIdx : Nat} {rid : RequestId}

include inv

theorem interp_startRead (step : StartRead m m' cacheIdx diskIdx) :
    interpShard disk m' = interpShard disk m := by
  have slots' := (inv.startRead step).slots
  obtain ⟨isEmpty, _, rfl⟩ := step
  exact interpShard_congr (fun page => inv.slots.readValue_of_ne slots'
    (FiniteMap.lookup_insert_of_ne m.entries _) (by simp [isEmpty]) (by simp)) rfl rfl rfl rfl

theorem interp_finishRead (step : FinishRead m m' cacheIdx diskIdx) :
    interpShard disk m' = interpShard disk m := by
  have slots' := (inv.finishRead step).slots
  obtain ⟨data, isReading, answer, rfl⟩ := step
  refine interpShard_congr (fun page => ?_) rfl rfl rfl rfl
  by_cases isPage : page = diskIdx
  · subst isPage
    have notCached : ∀ slot data', m.entries.lookup slot ≠ some (.entry page data') := by
      intro slot data' found
      obtain rfl := inv.slots.slot_unique found isReading rfl rfl
      cases found.symm.trans isReading
    have isCached : (m.entries.insert cacheIdx (.entry page data)).lookup cacheIdx =
        some (.entry page data) := by simp
    rw [slots'.readValue_of_entry isCached, inv.slots.readValue_of_no_entry notCached,
      diskValue_of_eq (inv.agrees.readResp answer)]
  · exact inv.slots.readValue_of_ne slots' (FiniteMap.lookup_insert_of_ne m.entries _)
      (by simp [isReading]) (by simp [Ne.symm isPage])

theorem readValue_emptySlot {data : Block} (slots' : SlotsInv m')
    (found : m.entries.lookup cacheIdx = some (.entry diskIdx data))
    (entriesEq : m'.entries = m.entries.insert cacheIdx .empty) (page : Nat) :
    readValue disk m' page =
      if page = diskIdx then diskValue disk page else readValue disk m page := by
  split
  · rename_i isPage
    subst isPage
    refine slots'.readValue_of_no_entry fun slot data' found' => ?_
    rw [entriesEq, FiniteMap.lookup_insert_eq_some] at found'
    obtain ⟨-, ⟨⟩⟩ | ⟨isOther, wasFound⟩ := found'
    exact isOther (inv.slots.slot_unique wasFound found rfl rfl)
  · rename_i isOther
    have elsewhere : ∀ other, other ≠ cacheIdx →
        m'.entries.lookup other = m.entries.lookup other := by
      rw [entriesEq]
      exact FiniteMap.lookup_insert_of_ne m.entries _
    exact inv.slots.readValue_of_ne slots' elsewhere (by simp [found, Ne.symm isOther])
      (by simp [entriesEq])

theorem interp_evict (step : Evict m m' cacheIdx) : interpShard disk m' = interpShard disk m := by
  have slots' := (inv.evict step).slots
  obtain ⟨_, _, _, isClean, found, -, rfl⟩ := step
  refine interpShard_congr (fun page => ?_) rfl rfl rfl rfl
  rw [inv.readValue_emptySlot slots' found rfl]
  split
  · rename_i isPage
    rw [isPage, inv.slots.readValue_of_entry found,
      diskValue_of_eq (inv.agrees.clean isClean found)]
  · rfl

theorem next_observeCleanForSync (step : ObserveCleanForSync m m' cacheIdx rid) :
    AbstractCache.Next (interpShard disk m) (interpShard disk m') .internalOp := by
  obtain ⟨diskIdx, _, keys, isClean, found, requested, rfl⟩ := step
  refine ⟨.observeCleanForSync rid diskIdx, rfl, keys, _, requested, rfl, ?_, rfl⟩
  rw [inv.slots.readValue_of_entry found, diskValue_of_eq (inv.agrees.clean isClean found)]

theorem next_applyRead (step : CacheSSM.ApplyRead m m' cacheIdx rid) :
    AbstractCache.Next (interpShard disk m) (interpShard disk m') .internalOp := by
  obtain ⟨diskIdx, _, found, requested, rfl⟩ := step
  refine ⟨.applyRead rid, rfl, diskIdx, _, requested, rfl, ?_⟩
  simp only [interpShard, inv.slots.readValue_of_entry found]
  rfl

theorem next_applyWrite (step : CacheSSM.ApplyWrite m m' cacheIdx rid) :
    AbstractCache.Next (interpShard disk m) (interpShard disk m') .internalOp := by
  have slots' := (inv.applyWrite step).slots
  obtain ⟨diskIdx, _, newData, found, _, requested, isBlock, rfl⟩ := step
  refine ⟨.applyWrite rid, rfl, diskIdx, newData, _, requested, rfl, ?_⟩
  have isCached : (m.entries.insert cacheIdx (.entry diskIdx ⟨newData, isBlock⟩)).lookup cacheIdx =
      some (.entry diskIdx ⟨newData, isBlock⟩) := by simp
  simp only [interpShard, AbstractCache.Variables.mk.injEq, and_true]
  funext page
  rw [IMap.update_eq_ite]
  split
  · rename_i isPage
    subst isPage
    rw [slots'.readValue_of_entry isCached]
    rfl
  · rename_i isOther
    rw [inv.slots.readValue_of_ne slots' (FiniteMap.lookup_insert_of_ne m.entries _)
      (by simp [found, Ne.symm isOther]) fun data' found' => ?_]
    cases isCached.symm.trans found'
    exact isOther rfl

theorem next_havocNew {newData : Block} (step : HavocNew m m' cacheIdx rid newData) :
    AbstractCache.Next (interpShard disk m) (interpShard disk m') .internalOp := by
  have slots' := (inv.havocNew step).slots
  obtain ⟨diskIdx, isEmpty, requested, _, rfl⟩ := step
  refine ⟨.doHavoc rid, rfl, diskIdx, requested, rfl, fun page isOther => ?_⟩
  simp only [interpShard]
  rw [inv.slots.readValue_of_ne slots' (FiniteMap.lookup_insert_of_ne m.entries _)
    (by simp [isEmpty]) (by simp [Ne.symm isOther])]

theorem next_havocEvict (step : HavocEvict m m' cacheIdx rid) :
    AbstractCache.Next (interpShard disk m) (interpShard disk m') .internalOp := by
  have slots' := (inv.havocEvict step).slots
  obtain ⟨diskIdx, _, _, _, found, _, _, requested, -, rfl⟩ := step
  refine ⟨.doHavoc rid, rfl, diskIdx, requested, rfl, fun page isOther => ?_⟩
  simp only [interpShard]
  rw [inv.readValue_emptySlot slots' found rfl, if_neg isOther]

theorem next_internalStep {step : CacheSSM.Step} (next : InternalStep m m' step) :
    AbstractCache.Next (interpShard disk m) (interpShard disk m') .internalOp := by
  cases step with
  | startRead => exact next_of_eq (inv.interp_startRead next)
  | finishRead => exact next_of_eq (inv.interp_finishRead next)
  | startWriteback =>
    obtain ⟨_, _, -, -, rfl⟩ := next
    exact next_of_eq rfl
  | finishWriteback =>
    obtain ⟨_, _, _, -, -, -, rfl⟩ := next
    exact next_of_eq rfl
  | evict => exact next_of_eq (inv.interp_evict next)
  | observeCleanForSync => exact inv.next_observeCleanForSync next
  | applyRead => exact inv.next_applyRead next
  | applyWrite => exact inv.next_applyWrite next
  | markDirty =>
    obtain ⟨-, rfl⟩ := next
    exact next_of_eq rfl
  | havocNew => exact inv.next_havocNew next
  | havocEvict => exact inv.next_havocEvict next

end ShardInv

theorem slotsInv_initShard : SlotsInv initShard := by
  constructor
  · intro slot
    simp only [initShard, Shard.unit, FiniteMap.lookup_empty, FiniteMap.lookup_ofFinset]
    split <;> simp [Entry.data?]
  · intro slot page
    simp only [initShard, FiniteMap.lookup_ofFinset]
    split <;> split <;> simp [Entry.diskIdx?]

theorem shardInv_initShard (diskInit : PageDisk.Init disk) : ShardInv disk initShard := by
  have noReads : readTraffic disk initShard = .none := by
    simp [readTraffic, Traffic.none, initShard, Shard.unit, diskInit.reqReads, diskInit.respReads]
    rfl
  have noWrites : writeTraffic disk initShard = .none := by
    simp [writeTraffic, Traffic.none, initShard, Shard.unit, diskInit.reqWrites,
      diskInit.respWrites]
    rfl
  refine ⟨slotsInv_initShard, noReads ▸ Traffic.wf_none, noWrites ▸ Traffic.wf_none,
    fun inFlight => (Traffic.not_inFlight_none (noReads ▸ inFlight)).elim,
    fun inFlight => (Traffic.not_inFlight_none (noWrites ▸ inFlight)).elim, ?_, ?_⟩
  · intro rid input found
    cases found
  · constructor
    · intro slot page data isClean
      cases isClean
    · intro id resp found
      simp [diskInit.respReads] at found
    · intro page data found
      cases found
    · intro page data slot data' found
      cases found
    · intro id req slot data found
      simp [diskInit.reqWrites] at found
    · intro id resp slot data found
      simp [diskInit.respWrites] at found
    · intro page slot data member
      cases member

theorem readValue_initShard (page : Nat) : readValue disk initShard page = diskValue disk page := by
  have notCached : cachedData initShard page = none := by
    simp only [cachedData, initShard, FiniteMap.lookup_ofFinset]
    split <;> rfl
  rw [readValue, notCached]

namespace ShardInv

variable {rid : RequestId}

theorem of_same (inv : ShardInv disk m) (syncReqs : FiniteMap RequestId (Finset Nat))
    (havocs : FiniteMap RequestId Nat) : ShardInv disk { m with syncReqs, havocs } :=
  { inv with slots := { inv.slots with }, agrees := { inv.agrees with } }

theorem of_tickets_stubs (inv : ShardInv disk m) (tickets : FiniteMap RequestId Input)
    (stubs : FiniteMap RequestId Output)
    (apart : ∀ {rid input}, tickets.lookup rid = some input → stubs.lookup rid = none) :
    ShardInv disk { m with tickets, stubs } :=
  { inv with
    slots := { inv.slots with }
    tickets_stubs := apart
    agrees := { inv.agrees with } }

theorem newNormalTicket (inv : ShardInv disk m) (input : Input)
    (fresh : m.stubs.lookup rid = none) :
    ShardInv disk { m with tickets := m.tickets.insert rid input } :=
  inv.of_tickets_stubs _ _ fun {other input'} found => by
    obtain ⟨rfl, -⟩ | ⟨-, wasFound⟩ := FiniteMap.lookup_insert_eq_some.mp found
    · exact fresh
    · exact inv.tickets_stubs wasFound

theorem newTicket (input : Input) (inv : ShardInv disk m) (fresh : rid ∉ requestIdsInUse (some m)) :
    ∃ m', Joined m (ticket rid input) m' ∧ ShardInv disk m' ∧
      AbstractCache.Next (interpShard disk m) (interpShard disk m') (.start rid input) := by
  simp only [requestIdsInUse, Finset.mem_union, FiniteMap.mem_support, not_or,
    Option.not_isSome_iff_eq_none] at fresh
  obtain ⟨⟨⟨notTicket, notStub⟩, notSync⟩, notHavoc⟩ := fresh
  cases input with
  | syncInput keys =>
    exact ⟨_, joined_syncReq.mpr ⟨notSync, rfl⟩, inv.of_same _ _, .newSyncTicket, rid, keys, rfl,
      notSync, rfl⟩
  | havocInput key =>
    exact ⟨_, joined_havoc.mpr ⟨notHavoc, rfl⟩, inv.of_same _ _, .newHavocTicket, rid, key, rfl,
      notHavoc, rfl⟩
  | writeInput key data =>
    exact ⟨_, joined_normalTicket.mpr ⟨notTicket, rfl⟩, inv.newNormalTicket _ notStub, .newTicket,
      rid, _, rfl, Or.inl ⟨key, data, rfl⟩, notTicket, rfl⟩
  | readInput key =>
    exact ⟨_, joined_normalTicket.mpr ⟨notTicket, rfl⟩, inv.newNormalTicket _ notStub, .newTicket,
      rid, _, rfl, Or.inr ⟨key, rfl⟩, notTicket, rfl⟩

theorem erase_insert_of_absent {V : Type} {map : FiniteMap RequestId V} {value : V}
    (absent : map.lookup rid = none) : (map.insert rid value).erase rid = map :=
  (FiniteMap.eq_erase_of_insert absent rfl).symm

theorem consumeNormalStub {output : Output}
    (inv : ShardInv disk { m with stubs := m.stubs.insert rid output })
    (absent : m.stubs.lookup rid = none) :
    ShardInv disk m ∧ AbstractCache.Next
      (interpShard disk { m with stubs := m.stubs.insert rid output }) (interpShard disk m)
        (.endOp rid output) := by
  refine ⟨?_, .consumeStub, rid, output, rfl, by simp [interpShard], ?_⟩
  · refine inv.of_tickets_stubs m.tickets m.stubs fun {other input} found => ?_
    exact FiniteMap.absent_of_insert (inv.tickets_stubs found)
  · simp only [interpShard, erase_insert_of_absent absent]
    rfl

theorem consumeStub {output : Output} (inv : ShardInv disk m)
    (joined : Joined m' (stub rid output) m) :
    ShardInv disk m' ∧
      AbstractCache.Next (interpShard disk m) (interpShard disk m') (.endOp rid output) := by
  cases output with
  | syncOutput =>
    obtain ⟨absent, rfl⟩ := joined_syncReq.mp joined
    refine ⟨inv.of_same m'.syncReqs m'.havocs, .consumeSyncStub, rid, rfl,
      by simp [interpShard], ?_⟩
    simp only [interpShard, erase_insert_of_absent absent]
    rfl
  | havocOutput key =>
    obtain ⟨absent, rfl⟩ := joined_havoc.mp joined
    refine ⟨inv.of_same m'.syncReqs m'.havocs, .consumeHavocStub, rid, key, key, rfl,
      by simp [interpShard], ?_⟩
    simp only [interpShard, erase_insert_of_absent absent]
    rfl
  | writeOutput | readOutput data =>
    obtain ⟨absent, rfl⟩ := joined_normalStub.mp joined
    exact inv.consumeNormalStub absent

end ShardInv

theorem ShardInv.next_processWrite {id : RequestId} (inv : ShardInv disk m)
    (step : PageDisk.ProcessWrite disk disk' id) :
    AbstractCache.Next (interpShard disk m) (interpShard disk' m) .internalOp := by
  obtain ⟨⟨addr, _⟩, _, requested, -, rfl⟩ := step
  have isSent : (writeTraffic disk m).sent id = some addr := by simp [writeTraffic, requested]
  obtain ⟨_, data', found, -⟩ :=
    inv.slots.isWriting_iff.mp (inv.writing (Or.inr (Or.inl ⟨id, isSent⟩)))
  obtain rfl := inv.agrees.reqWrite requested found
  refine ⟨.persist addr, rfl, _, rfl, ?_⟩
  simp only [interpShard, AbstractCache.Variables.mk.injEq, and_true]
  funext page
  rw [IMap.update_eq_ite]
  split
  · rename_i isPage
    subst isPage
    have stored : (disk.contents.insert page data').lookup page = some data' := by simp
    rw [inv.slots.readValue_of_entry found, inv.slots.readValue_of_entry found,
      diskValue_of_eq stored]
    rfl
  · rename_i isOther
    have sameDisk : (disk.contents.insert addr data').lookup page = disk.contents.lookup page :=
      FiniteMap.lookup_insert_of_ne _ _ _ isOther
    simp only [readValue, diskValue, sameDisk]

theorem ShardInv.diskInternal (inv : ShardInv disk m) (isDisk : s.disk = disk)
    (isMachine : s.machine = some m) (next : PageDisk.NextInternal disk disk') :
    ShardInv disk' m ∧
      AbstractCache.Next (interpShard disk m) (interpShard disk' m) .internalOp := by
  subst isDisk
  have noConflict := Inv.not_conflicting ⟨m, isMachine, inv⟩
  obtain ⟨step, next⟩ := next
  cases step with
  | processReadStep id =>
    refine ⟨inv.processRead next, ?_⟩
    obtain ⟨_, _, -, -, rfl⟩ := next
    exact next_of_eq rfl
  | processWriteStep id => exact ⟨inv.processWrite next, inv.next_processWrite next⟩
  | havocConflictingWritesStep id id' => exact ((noConflict disk' id id').1 next).elim
  | havocConflictingWriteReadStep id id' => exact ((noConflict disk' id id').2 next).elim

theorem ShardInv.interaction {dop : PageDisk.DiskOp} (inv : ShardInv disk m)
    (diskNext : PageDisk.Next disk s'.disk dop)
    (machineNext : AsyncDiskSystem.MachineInteraction cacheSSM (some m) s'.machine dop) :
    ∃ m', s'.machine = some m' ∧ ShardInv s'.disk m' ∧
      interpShard s'.disk m' = interpShard disk m := by
  cases dop with
  | reqReadOp id req =>
    obtain ⟨fresh, fresh', diskEq⟩ := diskNext
    obtain ⟨m', _, isMachine, isReq, joined⟩ := exists_joined_of_dot machineNext.symm
    cases isReq
    obtain ⟨absent, rfl⟩ := joined_diskReadReq.mp joined
    rw [diskEq]
    exact ⟨m', isMachine, inv.sendRead absent fresh fresh', rfl⟩
  | reqWriteOp id req =>
    obtain ⟨fresh, fresh', diskEq⟩ := diskNext
    obtain ⟨m', _, isMachine, isReq, joined⟩ := exists_joined_of_dot machineNext.symm
    cases isReq
    obtain ⟨absent, rfl⟩ := joined_diskWriteReq.mp joined
    rw [diskEq]
    exact ⟨m', isMachine, inv.sendWrite absent fresh fresh', rfl⟩
  | respReadOp id resp =>
    obtain ⟨answer, diskEq⟩ := diskNext
    have isAnswered : (readTraffic disk m).answered id = some resp.addr := by
      simp [readTraffic, answer]
    have absent : m.readResps.lookup resp.addr = none := by
      simpa [readTraffic] using inv.reads.answered_resp isAnswered
    refine ⟨_, machineNext.trans (dot_of_joined (joined_diskReadResp.mpr ⟨absent, rfl⟩)), ?_⟩
    rw [diskEq]
    exact ⟨inv.receiveRead answer, rfl⟩
  | respWriteOp id resp =>
    obtain ⟨answer, diskEq⟩ := diskNext
    have isAnswered : (writeTraffic disk m).answered id = some resp.addr := by
      simp [writeTraffic, answer]
    have absent : resp.addr ∉ m.writeResps := inv.writes.answered_resp isAnswered
    refine ⟨_, machineNext.trans (dot_of_joined (joined_diskWriteResp.mpr ⟨absent, rfl⟩)), ?_⟩
    rw [diskEq]
    exact ⟨inv.receiveWrite answer, rfl⟩

theorem interp_of_machine (isMachine : s.machine = some m) : interp s = interpShard s.disk m := by
  rw [interp, isMachine, Option.getD_some]

theorem Inv.internal (inv : Inv s) (next : AsyncDiskSystem.Internal cacheSSM s s') :
    Inv s' ∧ AbstractCache.Next (interp s) (interp s') .internalOp := by
  obtain ⟨m, isMachine, inv⟩ := inv
  obtain ⟨step, next⟩ := next
  rw [interp_of_machine isMachine]
  cases step with
  | machineStep shard shard' rest =>
    obtain ⟨⟨x, _, step, rfl, rfl, internal⟩, before, after, diskEq⟩ := next
    have fits : dot (some x) rest = some m := before.symm.trans isMachine
    obtain ⟨_, _, ⟨⟩, rfl, joined⟩ := exists_joined_of_dot fits
    obtain ⟨m', wholeNext, joined'⟩ := internalStep_whole inv joined internal
    have isMachine' : s'.machine = some m' := after.trans (dot_of_joined joined')
    rw [interp_of_machine isMachine', diskEq]
    exact ⟨⟨m', isMachine', diskEq ▸ inv.internalStep wholeNext⟩, inv.next_internalStep wholeNext⟩
  | interactionStep dop =>
    obtain ⟨diskNext, machineNext⟩ := next
    rw [isMachine] at machineNext
    obtain ⟨m', isMachine', inv', same⟩ := inv.interaction diskNext machineNext
    rw [interp_of_machine isMachine', same]
    exact ⟨⟨m', isMachine', inv'⟩, next_of_eq rfl⟩
  | diskInternalStep =>
    obtain ⟨sameMachine, diskNext⟩ := next
    have isMachine' : s'.machine = some m := sameMachine.symm.trans isMachine
    obtain ⟨inv', next'⟩ := inv.diskInternal rfl isMachine diskNext
    rw [interp_of_machine isMachine']
    exact ⟨⟨m, isMachine', inv'⟩, next'⟩

theorem inv_of_init (diskInit : PageDisk.Init s.disk) (init : CacheSSM.Init s.machine) : Inv s :=
  ⟨initShard, init, shardInv_initShard diskInit⟩

theorem cache_refines :
    (asyncDiskSystem cacheSSM).Refines abstractCacheStateMachine Inv interp where
  init {s} initial := by
    obtain ⟨diskInit, init⟩ := initial
    refine ⟨inv_of_init diskInit init, ?_⟩
    rw [interp_of_machine init]
    exact ⟨rfl, rfl⟩
  next {s s' label} inv next := by
    cases label with
    | start rid input =>
      obtain ⟨m, isMachine, inv⟩ := inv
      obtain ⟨⟨fresh, after⟩, diskEq⟩ := next
      rw [isMachine] at fresh after
      obtain ⟨m', joined, inv', next'⟩ := inv.newTicket input fresh
      have isMachine' : s'.machine = some m' := after.trans (dot_of_joined joined)
      rw [interp_of_machine isMachine, interp_of_machine isMachine', ← diskEq]
      exact ⟨⟨m', isMachine', diskEq ▸ inv'⟩, next'⟩
    | endOp rid output =>
      obtain ⟨m, isMachine, inv⟩ := inv
      obtain ⟨before, diskEq⟩ := next
      have fits : dot s'.machine (some (stub rid output)) = some m := before.symm.trans isMachine
      obtain ⟨m', _, isMachine', isStub, joined⟩ := exists_joined_of_dot fits
      cases isStub
      obtain ⟨inv', next'⟩ := inv.consumeStub joined
      rw [interp_of_machine isMachine, interp_of_machine isMachine', ← diskEq]
      exact ⟨⟨m', isMachine', diskEq ▸ inv'⟩, next'⟩
    | internalOp => exact inv.internal next
    | crashOp =>
      obtain ⟨diskCrash, init⟩ := next
      have diskInit : PageDisk.Init s'.disk := by
        rw [diskCrash]
        exact ⟨rfl, rfl, rfl, rfl⟩
      obtain ⟨m, isMachine, -⟩ := inv
      refine ⟨inv_of_init diskInit init, .crash, ?_⟩
      rw [interp_of_machine isMachine, interp_of_machine init]
      refine ⟨rfl, rfl, rfl, ?_⟩
      simp only [interpShard, readValue_initShard]
      rw [diskCrash]
      rfl

/-- The cache with its disk refines the abstract cache.  The disk never sees a conflict, and the
value of a page is the one in the cache, or else on the disk. -/
theorem cache_refines_abstractCache :
    (asyncDiskSystem cacheSSM).Refines abstractCacheStateMachine Inv interp ∧
    (∀ s : System, Inv s → ∀ disk' id id',
      ¬ PageDisk.HavocConflictingWrites s.disk disk' id id' ∧
        ¬ PageDisk.HavocConflictingWriteRead s.disk disk' id id') ∧
    ∀ s : System, Inv s → ∀ page, ∃ m elem, s.machine = some m ∧
      (interp s).store page = some elem ∧ elem.persistent = diskValue s.disk page ∧
      (∀ slot data, m.entries.lookup slot = some (.entry page data) →
        elem.ephemeral = data.val) ∧
      ((∀ slot data, m.entries.lookup slot ≠ some (.entry page data)) →
        elem.ephemeral = diskValue s.disk page) := by
  refine ⟨cache_refines, fun s inv => inv.not_conflicting, fun s inv page => ?_⟩
  obtain ⟨m, isMachine, inv⟩ := inv
  refine ⟨m, ⟨diskValue s.disk page, readValue s.disk m page⟩, isMachine, ?_, rfl,
    fun slot data found => inv.slots.readValue_of_entry found,
    fun notCached => inv.slots.readValue_of_no_entry notCached⟩
  rw [interp_of_machine isMachine]
  rfl

theorem dot_unit (x : Shard) : dot (some x) (some Shard.unit) = some x := by
  apply dot_of_joined
  constructor
  all_goals first | exact FiniteMap.join_empty _ | exact DisjointSet.join_empty _

theorem machine_next {disk : PageDisk.Variables} {m m' : Shard} (step : Step)
    (next : InternalStep m m' step) :
    AsyncDiskSystem.Internal cacheSSM ⟨disk, some m⟩ ⟨disk, some m'⟩ :=
  ⟨.machineStep (some m) (some m') (some Shard.unit), ⟨m, m', step, rfl, rfl, next⟩,
    (dot_unit m).symm, (dot_unit m').symm, rfl⟩

section ReadOfOnePage

variable (page : Block)

/-- A disk with one page. -/
def onePageDisk : PageDisk.Variables := ⟨.empty, .empty, .empty, .empty, .singleton 5 page⟩

def askedDisk : PageDisk.Variables := { onePageDisk page with reqReads := .insert .empty 7 ⟨5⟩ }

def answeredDisk : PageDisk.Variables :=
  { askedDisk page with
    reqReads := (askedDisk page).reqReads.erase 7
    respReads := .insert .empty 7 ⟨5, page⟩ }

def readDisk : PageDisk.Variables :=
  { answeredDisk page with respReads := (answeredDisk page).respReads.erase 7 }

/-- The initial shard with a request to read the page. -/
def oneTicket : Shard :=
  { initShard with tickets := initShard.tickets.insert 0 (.readInput 5) }

/-- Page 5 has slot 0, and is not there yet. -/
def slotReading : Shard :=
  { oneTicket with
    entries := oneTicket.entries.insert 0 (.reading 5)
    diskIdxToCacheIdx := oneTicket.diskIdxToCacheIdx.insert 5 (some 0) }

/-- The page is in its slot. -/
def slotRead : Shard :=
  { slotReading with
    entries := slotReading.entries.insert 0 (.entry 5 page)
    statuses := slotReading.statuses.insert 0 .clean
    readResps := (slotReading.readResps.insert 5 page).erase 5 }

def slotServed : Shard := { slotRead page with tickets := (slotRead page).tickets.erase 0 }

/-- Page 5 is read from the disk, and handed to a client. -/
def readStates : Nat → System
  | 0 => ⟨onePageDisk page, some initShard⟩
  | 1 => ⟨onePageDisk page, some oneTicket⟩
  | 2 => ⟨onePageDisk page, some { slotReading with readReqs := insert 5 slotReading.readReqs }⟩
  | 3 => ⟨askedDisk page, some slotReading⟩
  | 4 => ⟨answeredDisk page, some slotReading⟩
  | 5 => ⟨readDisk page,
      some { slotReading with readResps := slotReading.readResps.insert 5 page }⟩
  | 6 => ⟨readDisk page, some (slotRead page)⟩
  | 7 => ⟨readDisk page, some { slotServed page with
      stubs := (slotServed page).stubs.insert 0 (.readOutput page.val) }⟩
  | _ => ⟨readDisk page, some (slotServed page)⟩

def readLabels : Nat → CrashAsyncOp Input Output
  | 0 => .start 0 (.readInput 5)
  | 7 => .endOp 0 (.readOutput page.val)
  | _ => .internalOp

-- The initial shard has a slot for every page, and must not be evaluated.
attribute [local irreducible] initShard

theorem readStates_next (index : Nat) (inRun : index < 8) :
    (asyncDiskSystem cacheSSM).Next (readStates page index) (readStates page (index + 1))
      (readLabels page index) := by
  rcases index with _ | _ | _ | _ | _ | _ | _ | _ | index
  · have joined : Joined initShard (ticket 0 (.readInput 5)) oneTicket :=
      joined_normalTicket.mpr ⟨by simp [initShard, Shard.unit], rfl⟩
    have fresh : 0 ∉ requestIdsInUse (some initShard) := by
      simp [requestIdsInUse, initShard, Shard.unit]
    exact ⟨⟨fresh, (dot_of_joined joined).symm⟩, rfl⟩
  · exact machine_next (.startRead 0 5) ⟨by simp [oneTicket, initShard, maxCacheSize],
      by simp [oneTicket, initShard, maxDiskPages], rfl⟩
  · have joined : Joined slotReading (diskReadReq 5)
        { slotReading with readReqs := insert 5 slotReading.readReqs } :=
      joined_diskReadReq.mpr
        ⟨by simp [slotReading, oneTicket, initShard, Shard.unit], rfl⟩
    exact ⟨.interactionStep (.reqReadOp 7 ⟨5⟩), ⟨rfl, rfl, rfl⟩, (dot_of_joined joined).symm⟩
  · exact ⟨.diskInternalStep, rfl, .processReadStep 7, ⟨5⟩, page, by simp [readStates, askedDisk],
      by simp [readStates, askedDisk, onePageDisk], rfl⟩
  · have joined : Joined slotReading (diskReadResp 5 page)
        { slotReading with readResps := slotReading.readResps.insert 5 page } :=
      joined_diskReadResp.mpr ⟨by simp [slotReading, oneTicket, initShard, Shard.unit], rfl⟩
    refine ⟨.interactionStep (.respReadOp 7 ⟨5, page⟩), ⟨?_, rfl⟩, (dot_of_joined joined).symm⟩
    simp [readStates, answeredDisk]
  · exact machine_next (.finishRead 0 5) ⟨page, by simp [slotReading], by simp, rfl⟩
  · exact machine_next (.applyRead 0 0)
      ⟨5, page, by simp [slotRead], by simp [slotRead, slotReading, oneTicket], rfl⟩
  · have joined : Joined (slotServed page) (stub 0 (.readOutput page.val))
        { slotServed page with stubs := (slotServed page).stubs.insert 0 (.readOutput page.val) } :=
      joined_normalStub.mpr
        ⟨by simp [slotServed, slotRead, slotReading, oneTicket, initShard, Shard.unit], rfl⟩
    exact ⟨(dot_of_joined joined).symm, rfl⟩
  · omega

def readRun : (asyncDiskSystem cacheSSM).Behavior where
  length := 8
  states := readStates page
  labels := readLabels page
  starts := ⟨⟨rfl, rfl, rfl, rfl⟩, rfl⟩
  steps := readStates_next page

end ReadOfOnePage

theorem cache_refines_abstractCache_read : ∃ run : (asyncDiskSystem cacheSSM).Behavior,
    run.length = 8 ∧ run.labels 0 = .start 0 (.readInput 5) ∧
      run.labels 7 = .endOp 0 (.readOutput (List.replicate 4096 0)) ∧
      ∀ index < 8, abstractCacheStateMachine.Next (interp (run.states index))
        (interp (run.states (index + 1))) (run.labels index) := by
  obtain ⟨refines, -, -⟩ := cache_refines_abstractCache
  let run := readRun ⟨List.replicate 4096 0, List.length_replicate⟩
  refine ⟨run, rfl, rfl, rfl, fun index inRun => ?_⟩
  exact (refines.next (refines.inductive'.holds run inRun.le) (run.steps index inRun)).2

end VerifiedBetrfs.CacheSSM
