import VerifiedBetrfs.JournalSystem

/-!
# The invariant of the journal system by phases

Each lemma says what a step keeps, and what it does to the journals that the state stands for.
-/

namespace VerifiedBetrfs.JournalSystem

open DiskLayout SectorType Journal JournalRanges JournalIntervals ViewOp JournalDisk JournalCache

section Selection

variable {disk : JournalDisk.Variables}

variable {superblock : Superblock}

theorem diskHasSuperblock_eq_some {which : Fin 2} :
    diskHasSuperblock disk which = some superblock ↔
      disk.superblock which = some superblock ∧ WFSuperblock superblock := by
  rw [diskHasSuperblock, Option.filter_eq_some_iff, decide_eq_true_iff]

theorem superblockOfDisk_eq_some :
    superblockOfDisk disk = some superblock ↔
      ∃ superblock1 superblock2,
        (disk.superblock 0 = some superblock1 ∧ WFSuperblock superblock1) ∧
        (disk.superblock 1 = some superblock2 ∧ WFSuperblock superblock2) ∧
        selectSuperblock superblock1 superblock2 = superblock := by
  simp only [superblockOfDisk, newerSuperblock, Option.bind_eq_some_iff, Option.map_eq_some_iff,
    diskHasSuperblock_eq_some]
  constructor
  · rintro ⟨superblock1, first, superblock2, second, selected⟩
    exact ⟨superblock1, superblock2, first, second, selected⟩
  · rintro ⟨superblock1, superblock2, first, second, selected⟩
    exact ⟨superblock1, first, superblock2, second, selected⟩

theorem WFDisk.exists_superblockOfDisk (wf : WFDisk disk) :
    ∃ superblock, superblockOfDisk disk = some superblock := by
  obtain ⟨superblock1, first⟩ := wf 0
  obtain ⟨superblock2, second⟩ := wf 1
  exact ⟨_, superblockOfDisk_eq_some.mpr ⟨superblock1, superblock2, first, second, rfl⟩⟩

theorem superblockOfDisk_wf (selected : superblockOfDisk disk = some superblock) :
    WFSuperblock superblock := by
  obtain ⟨_, _, first, second, rfl⟩ := superblockOfDisk_eq_some.mp selected
  rw [selectSuperblock]
  split
  · exact second.2
  · exact first.2

theorem superblockOfDisk_congr {disk' : JournalDisk.Variables}
    (same : disk'.superblock = disk.superblock) :
    superblockOfDisk disk' = superblockOfDisk disk := by
  simp only [superblockOfDisk, newerSuperblock, diskHasSuperblock, same]

/-- A superblock that comes right after the other one in the count is the one
selected. -/
theorem superblockOfDisk_of_next {which : Fin 2} {old new : Superblock}
    (isOld : disk.superblock which = some old) (wfOld : WFSuperblock old)
    (isNew : disk.superblock (otherSuperblock which) = some new) (wfNew : WFSuperblock new)
    (next : new.counter = incrementSuperblockCounter old.counter) :
    superblockOfDisk disk = some new := by
  match which with
  | 0 =>
    refine superblockOfDisk_eq_some.mpr ⟨old, new, ⟨isOld, wfOld⟩, ⟨isNew, wfNew⟩, ?_⟩
    have next : Increments1 old.counter new.counter := next
    rw [selectSuperblock, selectSuperblockIndex, if_pos next, if_pos rfl]
  | 1 =>
    refine superblockOfDisk_eq_some.mpr ⟨new, old, ⟨isNew, wfNew⟩, ⟨isOld, wfOld⟩, ?_⟩
    have notNext : ¬ Increments1 new.counter old.counter := by
      rw [Increments1, next]
      exact (incrementSuperblockCounter_twice_ne old.counter).symm
    rw [selectSuperblock, selectSuperblockIndex, if_neg notNext, if_neg (by decide)]

end Selection

/-- The journals of the view are those of the system. -/
structure Shows (s : Variables) (v : JournalView.Variables) : Prop where
  j1 : persistentJournal s = some v.j1
  j2 : frozenJournal s = some v.j2
  j3 : ephemeralJournal s = some v.j3
  jGamma : gammaJournal s = some v.jGamma
  jDelta : deltaJournal s = v.jDelta
  persistentLoc : persistentLoc s = some v.persistentLoc
  frozenLoc : frozenLoc s = v.frozenLoc
  syncReqs : syncReqs s = v.syncReqs

variable {s : Variables} {v : JournalView.Variables} {r : Ready} {disk : JournalDisk.Variables}
  {reqWrites : FiniteMap ReqId JournalInterval} {id1 : ReqId}

theorem I_eq_some : I s = some v ↔ Shows s v := by
  simp only [I, Option.bind_eq_some_iff, Option.map_eq_some_iff]
  constructor
  · rintro ⟨_, isJ1, _, isJ2, _, isJ3, _, isGamma, _, isLoc, rfl⟩
    exact ⟨isJ1, isJ2, isJ3, isGamma, rfl, isLoc, rfl, rfl⟩
  · rintro ⟨isJ1, isJ2, isJ3, isGamma, isDelta, isLoc, isFrozenLoc, isSyncReqs⟩
    exact ⟨_, isJ1, _, isJ2, _, isJ3, _, isGamma, _, isLoc, by
      rw [isDelta, isFrozenLoc, isSyncReqs]⟩

section Values

variable {s : Variables} {onDisk : Superblock}

section

variable (selected : superblockOfDisk s.disk = some onDisk)

include selected

theorem persistentJournal_eq :
    persistentJournal s = diskJournal s.disk.journal (journalIntervalOfSuperblock onDisk) := by
  rw [persistentJournal, selected, Option.bind_some]

theorem frozenJournal_eq :
    frozenJournal s = diskJournal s.disk.journal ⟨frozenStartPos s onDisk, frozenLen s onDisk⟩ := by
  rw [frozenJournal, selected, Option.bind_some]

theorem gammaLog_eq :
    gammaLog s = diskJournal s.disk.journal ⟨onDisk.journalStart, gammaLen s onDisk⟩ := by
  rw [gammaLog, selected, Option.bind_some]

theorem persistentLoc_eq : persistentLoc s = some onDisk.indirectionTableLoc := by
  rw [persistentLoc, selected, Option.map_some]

end

theorem persistentLoc_congr {s' : Variables} (same : s'.disk.superblock = s.disk.superblock) :
    persistentLoc s' = persistentLoc s := by
  rw [persistentLoc, superblockOfDisk_congr same, persistentLoc]

variable {r : Ready} {disk : JournalDisk.Variables}

section

variable (selected : superblockOfDisk disk = some onDisk)

include selected

theorem frozenJournal_of_isFrozen (isFrozen : r.isFrozen = true) :
    frozenJournal ⟨.ready r, disk⟩ = diskJournal disk.journal
      ⟨journalPosAdd r.superblock.journalStart r.frozenJournalPosition,
        r.writtenJournalLen - r.frozenJournalPosition⟩ := by
  rw [frozenJournal_eq selected]
  simp only [frozenStartPos, frozenLen, isFrozen, if_true]

theorem frozenJournal_of_not_isFrozen (notFrozen : r.isFrozen = false) :
    frozenJournal ⟨.ready r, disk⟩ =
      diskJournal disk.journal ⟨r.superblock.journalStart, r.writtenJournalLen⟩ := by
  rw [frozenJournal_eq selected]
  simp only [frozenStartPos, frozenLen, notFrozen, Bool.false_eq_true, if_false]

theorem gammaLog_of_not_updated (notUpdated : ¬ HasLocationUpdateOccurredUnacked r disk) :
    gammaLog ⟨.ready r, disk⟩ =
      diskJournal disk.journal ⟨onDisk.journalStart, r.writtenJournalLen⟩ := by
  rw [gammaLog_eq selected]
  simp only [gammaLen, notUpdated, if_false]

theorem gammaLog_of_updated (updated : HasLocationUpdateOccurredUnacked r disk) :
    gammaLog ⟨.ready r, disk⟩ = diskJournal disk.journal
      ⟨onDisk.journalStart, r.writtenJournalLen - r.frozenJournalPosition⟩ := by
  rw [gammaLog_eq selected]
  simp only [gammaLen, updated, if_true]

theorem gammaJournal_of_not_updated (notUpdated : ¬ HasUpdateOccurredUnacked r disk) :
    gammaJournal ⟨.ready r, disk⟩ =
      (diskJournal disk.journal ⟨onDisk.journalStart, r.writtenJournalLen⟩).map
        (· ++ r.inMemoryJournalFrozen) := by
  simp only [gammaJournal]
  rw [gammaLog_of_not_updated selected fun updated => notUpdated updated.1]

end

theorem exists_gammaLog {jes : List JournalEntry}
    (isGamma : gammaJournal ⟨.ready r, disk⟩ = some jes) :
    ∃ log, gammaLog ⟨.ready r, disk⟩ = some log ∧ log ++ r.inMemoryJournalFrozen = jes :=
  Option.map_eq_some_iff.mp isGamma

end Values

section SyncRequests

variable {reqs : JournalCache.SyncReqs}
  {state state' : JournalCache.SyncReqStatus → ThreeStateTypes.SyncReqStatus}

theorem ofNat_toNat_eq_iff {id : Int} {word : UInt64} (inRange : 0 ≤ id ∧ id < 2 ^ 64) :
    UInt64.ofNat id.toNat = word ↔ id = word.toNat := by
  rw [← UInt64.toNat_inj, UInt64.toNat_ofNat']
  omega

theorem syncReqsOf_toNat (id : UInt64) :
    syncReqsOf reqs state id.toNat = (reqs.lookup id).map state := by
  have := UInt64.toNat_lt id
  rw [syncReqsOf, if_pos (by omega), Int.toNat_natCast, UInt64.ofNat_toNat]

theorem syncReqsOf_insert (id : UInt64) (status : JournalCache.SyncReqStatus) :
    syncReqsOf (reqs.insert id status) state =
      (syncReqsOf reqs state).update id.toNat (state status) := by
  funext other
  rw [IMap.update_eq_ite, syncReqsOf, syncReqsOf]
  by_cases inRange : 0 ≤ other ∧ other < 2 ^ 64
  · rw [if_pos inRange, if_pos inRange, FiniteMap.lookup_insert]
    simp only [ofNat_toNat_eq_iff inRange]
    split <;> rfl
  · have := UInt64.toNat_lt id
    rw [if_neg inRange, if_neg inRange, if_neg (by omega)]

theorem syncReqsOf_erase (id : UInt64) :
    syncReqsOf (reqs.erase id) state = (syncReqsOf reqs state).remove1 id.toNat := by
  funext other
  rw [IMap.remove1_eq_ite, syncReqsOf, syncReqsOf]
  by_cases inRange : 0 ≤ other ∧ other < 2 ^ 64
  · rw [if_pos inRange, if_pos inRange, FiniteMap.lookup_erase]
    simp only [ofNat_toNat_eq_iff inRange]
    split <;> rfl
  · rw [if_neg inRange, if_neg inRange, ite_self]

theorem syncReqsOf_change {change : ThreeStateTypes.SyncReqStatus → ThreeStateTypes.SyncReqStatus}
    (same : ∀ status, state' status = change (state status)) :
    syncReqsOf reqs state' = fun id => (syncReqsOf reqs state id).map change := by
  funext id
  rw [syncReqsOf, syncReqsOf]
  split
  · rw [Option.map_map]
    exact congrArg (Option.map · _) (funext same)
  · rfl

theorem syncReqsOf_filterMap {change : JournalCache.SyncReqStatus → JournalCache.SyncReqStatus}
    {change' : ThreeStateTypes.SyncReqStatus → ThreeStateTypes.SyncReqStatus}
    (same : ∀ status, state' (change status) = change' (state status)) :
    syncReqsOf (reqs.filterMap fun status => some (change status)) state' = fun id =>
      (syncReqsOf reqs state id).map change' := by
  have changed : syncReqsOf (reqs.filterMap fun status => some (change status)) state' =
      syncReqsOf reqs (state' ∘ change) := by
    funext id
    rw [syncReqsOf, syncReqsOf, FiniteMap.lookup_filterMap]
    cases reqs.lookup (UInt64.ofNat id.toNat) <;> rfl
  rw [changed]
  exact syncReqsOf_change same

end SyncRequests

theorem Inv.exists_shows (inv : Inv s) : ∃ v, Shows s v := by
  obtain ⟨j1, isJ1⟩ := Option.ne_none_iff_exists'.mp inv.persistentJournal
  obtain ⟨j2, isJ2⟩ := Option.ne_none_iff_exists'.mp inv.frozenJournal
  obtain ⟨j3, isJ3⟩ := Option.ne_none_iff_exists'.mp inv.ephemeralJournal
  obtain ⟨jGamma, isGamma⟩ := Option.ne_none_iff_exists'.mp inv.gammaJournal
  obtain ⟨superblock, selected⟩ := inv.wfDisk.exists_superblockOfDisk
  refine ⟨⟨j1, j2, j3, jGamma, deltaJournal s, superblock.indirectionTableLoc, frozenLoc s,
    syncReqs s⟩, isJ1, isJ2, isJ3, isGamma, rfl, ?_, rfl, rfl⟩
  rw [JournalSystem.persistentLoc, selected, Option.map_some]

/-- The invariant of a loaded cache, its parts unfolded. -/
structure ReadyInv (r : Ready) (disk : JournalDisk.Variables) : Prop where
  cache : JournalCache.InvReady r
  wfDisk : WFDisk disk
  selected : superblockOfDisk disk = some r.superblock ∨
    (r.newSuperblock ≠ none ∧ superblockOfDisk disk = r.newSuperblock)
  journalWrites : ∀ id interval, disk.reqWriteJournals.lookup id = some interval →
    id ∈ r.outstandingJournalWrites ∧ CorrectInflightJournalWrite r interval
  writesDontOverlap : WriteJournalRequestsDontOverlap disk.reqWriteJournals
  superblockWrites : CorrectInflightSuperblockWrites r disk
  recordedSuperblockWrites : ∀ which pending, disk.reqWriteSuperblock which = some pending →
    r.superblockWrite = some pending.id
  superblockWritesDiffer : ∀ pending pending', disk.reqWriteSuperblock 0 = some pending →
    disk.reqWriteSuperblock 1 = some pending' → pending.id ≠ pending'.id
  current : disk.superblock r.whichSuperblock = some r.superblock
  noSuperblockReads : ∀ which, disk.reqReadSuperblock which = ∅
  noJournalReads : ∀ id, disk.reqReadJournals.lookup id = none
  journalLength : disk.journal.length = numJournalBlocks

theorem Inv.toReady (inv : Inv ⟨.ready r, disk⟩) : ReadyInv r disk where
  __ := inv
  __ := inv.ready r rfl
  __ := inv.recorded
  journalWrites id interval isWrite := by
    obtain ⟨r', same, recorded⟩ := inv.recorded.journalWrites id interval isWrite
    cases same
    exact ⟨recorded, (inv.ready r rfl).journalWrites id recorded interval isWrite⟩
  recordedSuperblockWrites which pending isWrite := by
    obtain ⟨r', same, recorded⟩ := inv.recorded.superblockWrites which pending isWrite
    cases same
    exact recorded
  noSuperblockReads which := by
    refine Finset.eq_empty_of_forall_notMem fun id isRead => ?_
    obtain ⟨l, _, absurd, _⟩ := inv.recorded.superblockReads which id isRead
    cases absurd
  noJournalReads id := by
    refine Option.eq_none_iff_forall_ne_some.mpr fun interval isRead => ?_
    obtain ⟨l, absurd, _⟩ := inv.recorded.journalReads id interval isRead
    cases absurd

theorem ReadyInv.toInv (inv : ReadyInv r disk) (shows : Shows ⟨.ready r, disk⟩ v) :
    Inv ⟨.ready r, disk⟩ where
  __ := inv
  ready _ same := by
    cases same
    exact { inv with
        journalWrites := fun id _ interval isWrite => (inv.journalWrites id interval isWrite).2 }
  loadingSuperblock _ absurd := by cases absurd
  loadingOther _ absurd := by cases absurd
  readsDontOverlap := by
    constructor
    · intro id interval isRead
      rw [inv.noJournalReads id] at isRead
      cases isRead
    · intro id _ interval _ isRead
      rw [inv.noJournalReads id] at isRead
      cases isRead
  recorded := { inv with
    superblockWrites := fun which pending isWrite =>
      ⟨r, rfl, inv.recordedSuperblockWrites which pending isWrite⟩
    journalWrites := fun id interval isWrite =>
      ⟨r, rfl, (inv.journalWrites id interval isWrite).1⟩
    superblockReads := fun which id isRead => by
      rw [inv.noSuperblockReads which] at isRead
      exact absurd isRead (Finset.notMem_empty id)
    superblockReadsDiffer := by
      simp only [inv.noSuperblockReads, disjoint_self, Finset.bot_eq_empty]
    journalReads := fun id interval isRead => by
      rw [inv.noJournalReads id] at isRead
      cases isRead }
  persistentJournal := by simp [shows.j1]
  frozenJournal := by simp [shows.j2]
  ephemeralJournal := by simp [shows.j3]
  gammaJournal := by simp [shows.jGamma]

section ReadySuperblocks

variable {r : Ready} {disk : JournalDisk.Variables}

/-- The disk holds the superblock that the cache knows, or the one being written. -/
theorem ReadyInv.selected_cases (inv : ReadyInv r disk) :
    (¬ HasUpdateOccurredUnacked r disk ∧ superblockOfDisk disk = some r.superblock) ∨
    (∃ newSuperblock, r.newSuperblock = some newSuperblock ∧
      HasUpdateOccurredUnacked r disk ∧ superblockOfDisk disk = some newSuperblock) := by
  by_cases updated : HasUpdateOccurredUnacked r disk
  · obtain ⟨newSuperblock, isNew⟩ := Option.ne_none_iff_exists'.mp updated.1
    obtain ⟨commit, wf, -⟩ := inv.cache.commit newSuperblock isNew
    have onDisk := updated.2.trans isNew
    exact .inr ⟨newSuperblock, isNew, updated,
      superblockOfDisk_of_next inv.current inv.cache.superblock onDisk wf commit.counter⟩
  · refine .inl ⟨updated, ?_⟩
    rcases inv.selected with current | ⟨isNew, selected⟩
    · exact current
    · obtain ⟨newSuperblock, isNew⟩ := Option.ne_none_iff_exists'.mp isNew
      obtain ⟨commit, -⟩ := inv.cache.commit newSuperblock isNew
      rw [isNew] at selected
      obtain ⟨which, isOnDisk⟩ : ∃ which, disk.superblock which = some newSuperblock := by
        obtain ⟨_, _, isFirst, isSecond, rfl⟩ := superblockOfDisk_eq_some.mp selected
        rw [selectSuperblock]
        split
        · exact ⟨1, isSecond.1⟩
        · exact ⟨0, isFirst.1⟩
      rcases eq_or_eq_otherSuperblock r.whichSuperblock which with rfl | rfl
      · rw [inv.current] at isOnDisk
        cases isOnDisk
        exact absurd commit.counter (incrementSuperblockCounter_ne _).symm
      · refine absurd ⟨?_, ?_⟩ updated
        · rw [isNew]
          exact Option.some_ne_none _
        · rw [isOnDisk, isNew]

theorem ReadyInv.selected_of_noWrite (inv : ReadyInv r disk) (noWrite : r.superblockWrite = none) :
    ¬ HasUpdateOccurredUnacked r disk ∧ superblockOfDisk disk = some r.superblock := by
  have noNew := inv.cache.newSuperblock_eq_none noWrite
  rcases inv.selected_cases with current | ⟨_, isNew, -⟩
  · exact current
  · rw [noNew] at isNew
    cases isNew

end ReadySuperblocks

/-- The requests of a journal write are for blocks of the interval, and do not overlap. -/
structure NewWrites (reqWrites reqWrites' : FiniteMap ReqId JournalInterval)
    (ids : Finset ReqId) (written : JournalInterval) : Prop where
  request : ∀ id part, reqWrites'.lookup id = some part →
    reqWrites.lookup id = some part ∨
    (reqWrites.lookup id = none ∧ id ∈ ids ∧ ContiguousJournalInterval part ∧
      Subinterval part written)
  apart : ∀ id id' part part', reqWrites.lookup id = none → reqWrites.lookup id' = none →
    reqWrites'.lookup id = some part → reqWrites'.lookup id' = some part' →
    journalIntervalOverlap part part' → id = id'

theorem newWrites_insert {interval : JournalInterval} (fresh : reqWrites.lookup id1 = none)
    (contiguous : ContiguousJournalInterval interval) :
    NewWrites reqWrites (reqWrites.insert id1 interval) (writeIds id1 none) interval where
  request id part isPart := by
    obtain ⟨rfl, ⟨⟩⟩ | ⟨same, isPart⟩ := FiniteMap.lookup_insert_eq_some.mp isPart
    · refine .inr ⟨fresh, by simp [writeIds], contiguous, .inl ⟨?_, ?_⟩⟩ <;> omega
    · exact .inl isPart
  apart id id' part part' isNew isNew' isPart isPart' _ := by
    simp only [FiniteMap.lookup_insert] at isPart isPart'
    split_ifs at isPart isPart' with same same'
    · rw [same, same']
    · rw [isNew'] at isPart'
      cases isPart'
    · rw [isNew] at isPart
      cases isPart
    · rw [isNew] at isPart
      cases isPart

theorem newWrites_insert_insert {id2 : ReqId} {start len : Nat}
    (fresh : reqWrites.lookup id1 = none) (fresh' : reqWrites.lookup id2 = none)
    (valid : ValidJournalInterval ⟨start, len⟩) (wraps : numJournalBlocks < start + len) :
    NewWrites reqWrites
      ((reqWrites.insert id1 ⟨start, numJournalBlocks - start⟩).insert id2
        ⟨0, len - (numJournalBlocks - start)⟩)
      (writeIds id1 (some id2)) ⟨start, len⟩ where
  request id part isPart := by
    obtain ⟨startLt, lenLe⟩ := valid
    simp only at startLt lenLe
    simp only [FiniteMap.lookup_insert] at isPart
    split_ifs at isPart with second first
    · cases isPart
      subst second
      refine .inr ⟨fresh', by simp [writeIds], ⟨⟨?_, ?_⟩, ?_⟩, .inr ⟨?_, ?_⟩⟩ <;>
        simp only <;> omega
    · cases isPart
      subst first
      refine .inr ⟨fresh, by simp [writeIds], ⟨⟨?_, ?_⟩, ?_⟩, .inl ⟨?_, ?_⟩⟩ <;>
        simp only <;> omega
    · exact .inl isPart
  apart id id' part part' isNew isNew' isPart isPart' overlap := by
    obtain ⟨startLt, lenLe⟩ := valid
    obtain ⟨below, above⟩ := overlap
    simp only at startLt lenLe
    simp only [FiniteMap.lookup_insert, isNew, isNew'] at isPart isPart'
    split_ifs at isPart isPart' with second second' first' first second' first'
    · rw [second, second']
    · cases isPart
      cases isPart'
      simp only at below above
      omega
    · cases isPart
      cases isPart'
      simp only at below above
      omega
    · rw [first, first']

theorem newWrites_of_recvWriteJournal {disk' : JournalDisk.Variables} {id2 : Option ReqId}
    {req : ReqWriteJournal} (recv : RecvWriteJournal disk disk' id1 id2 req) :
    ∃ reqWrites journal',
      disk' = { disk with reqWriteJournals := reqWrites, journal := journal' } ∧
      NewWrites disk.reqWriteJournals reqWrites (writeIds id1 id2)
        ⟨req.start, req.journal.length⟩ ∧
      JournalUpdate disk.journal journal' ⟨req.start, req.journal.length⟩ req.journal := by
  obtain ⟨fresh, fresh', update, whole, split⟩ := recv
  by_cases fits : req.start + req.journal.length ≤ numJournalBlocks
  · obtain ⟨rfl, isDisk⟩ := whole fits
    exact ⟨_, disk'.journal, isDisk, newWrites_insert fresh ⟨update.validInterval, fits⟩, update⟩
  · obtain ⟨second, rfl, -, isDisk⟩ := split (by simpa using fits)
    exact ⟨_, disk'.journal, isDisk, newWrites_insert_insert fresh (fresh' second rfl)
      update.validInterval (by simpa using fits), update⟩

section ReadyJournal

variable {r : Ready} {disk disk' : JournalDisk.Variables} {v : JournalView.Variables}
  {jr : JournalRange} {id1 : ReqId} {id2 : Option ReqId} {jes : List JournalEntry}
  {ids : Finset ReqId}

/-- Entries that follow the frozen ones extend the frozen journal when they are
written. -/
theorem frozenJournal_append {onDisk : Superblock} {jes' : List JournalEntry}
    (inv : ReadyInv r disk) (noFrozen : r.inMemoryJournalFrozen = [])
    (fits : jr.length + r.writtenJournalLen ≤ numJournalBlocks)
    (update : JournalUpdate disk.journal disk'.journal
      ⟨journalPosAdd r.superblock.journalStart r.writtenJournalLen, jr.length⟩ jr)
    (selected : superblockOfDisk disk = some onDisk)
    (selected' : superblockOfDisk disk' = some onDisk) (parses : parseJournalRange jr = some jes')
    (isFrozenJournal : frozenJournal ⟨.ready r, disk⟩ = some jes) :
    frozenJournal ⟨.ready (r.journalWritten jr ids), disk'⟩ = some (jes ++ jes') := by
  cases isFrozen : r.isFrozen with
  | false =>
    rw [frozenJournal_of_not_isFrozen selected isFrozen] at isFrozenJournal
    rw [frozenJournal_of_not_isFrozen (r := r.journalWritten jr ids) selected' isFrozen]
    exact update.diskJournal_append rfl (by omega) isFrozenJournal parses
  | true =>
    have frozenLe := inv.cache.frozenLe isFrozen
    rw [frozenJournal_of_isFrozen selected isFrozen] at isFrozenJournal
    rw [frozenJournal_of_isFrozen (r := r.journalWritten jr ids) selected' isFrozen]
    have follows : journalPosAdd r.superblock.journalStart r.writtenJournalLen =
        journalPosAdd (journalPosAdd r.superblock.journalStart r.frozenJournalPosition)
          (r.writtenJournalLen - r.frozenJournalPosition) := by
      rw [journalPosAdd, journalPosAdd, journalPosAdd,
        Cyclic.posAdd_posAdd inv.cache.superblock.start (by omega)]
      congr 1
      omega
    have appended := update.diskJournal_append follows (by omega) isFrozenJournal parses
    simp only [Ready.journalWritten, noFrozen, if_true]
    rwa [show r.writtenJournalLen + jr.length - r.frozenJournalPosition =
      r.writtenJournalLen - r.frozenJournalPosition + jr.length by omega]

theorem journalUpdate_of_recvWriteJournal {req : ReqWriteJournal}
    (recv : RecvWriteJournal disk disk' id1 id2 req) :
    JournalUpdate disk.journal disk'.journal ⟨req.start, req.journal.length⟩ req.journal ∧
      disk'.superblock = disk.superblock := by
  obtain ⟨_, _, rfl, -, update⟩ := newWrites_of_recvWriteJournal recv
  exact ⟨update, rfl⟩

section

variable (inv : ReadyInv r disk) (noWrite : r.superblockWrite = none)
  (fits : jr.length + r.writtenJournalLen ≤ numJournalBlocks)

include inv noWrite fits

theorem ReadyInv.writeBackJournalReq
    (recv : RecvWriteJournal disk disk' id1 id2
      ⟨journalPosAdd r.superblock.journalStart r.writtenJournalLen, jr⟩) :
    ReadyInv (r.journalWritten jr (writeIds id1 id2)) disk' := by
  obtain ⟨_, _, rfl, newWrites, update⟩ := newWrites_of_recvWriteJournal recv
  have startLt := inv.cache.superblock.start
  have lenLe := inv.cache.lenLe
  simp only at newWrites update
  have oldWrite : ∀ id part, disk.reqWriteJournals.lookup id = some part →
      id ∈ r.outstandingJournalWrites ∧ CorrectInflightJournalWrite r part := inv.journalWrites
  refine {
    inv with
    cache := inv.cache.journalWritten noWrite fits
    journalWrites := fun id part isPart => ?_
    writesDontOverlap := ⟨fun id part isPart => ?_, fun id id' part part' isPart isPart' overlap =>
      ?_⟩
    journalLength := update.valid' }
  · rcases newWrites.request id part isPart with isOld | ⟨-, isId, contiguous, sub⟩
    · obtain ⟨recorded, valid, sub, noNew⟩ := oldWrite id part isOld
      refine ⟨Finset.mem_union_left _ recorded, valid, ?_, noNew⟩
      refine sub.mono ?_
      simp only [Ready.journalWritten]
      omega
    · refine ⟨Finset.mem_union_right _ isId, contiguous.1, ?_,
        inv.cache.newSuperblock_eq_none noWrite⟩
      exact sub.of_later startLt lenLe (by omega)
  · rcases newWrites.request id part isPart with isOld | ⟨-, -, contiguous, -⟩
    · exact inv.writesDontOverlap.1 id part isOld
    · exact contiguous
  · rcases newWrites.request id part isPart with isOld | ⟨isNew, -, -, sub⟩
    · rcases newWrites.request id' part' isPart' with isOld' | ⟨-, -, -, sub'⟩
      · exact inv.writesDontOverlap.2 id id' part part' isOld isOld' overlap
      · exact absurd overlap (not_overlap_of_subinterval startLt lenLe (by omega)
          (oldWrite id part isOld).2.2.1 sub')
    · rcases newWrites.request id' part' isPart' with isOld' | ⟨isNew', -⟩
      · exact absurd overlap.symm (not_overlap_of_subinterval startLt lenLe (by omega)
          (oldWrite id' part' isOld').2.2.1 sub)
      · exact newWrites.apart id id' part part' isNew isNew' isPart isPart' overlap

section

variable (update : JournalUpdate disk.journal disk'.journal
    ⟨journalPosAdd r.superblock.journalStart r.writtenJournalLen, jr.length⟩ jr)
  (sameSuperblock : disk'.superblock = disk.superblock)

include update sameSuperblock

/-- No commit is on its way, so a write at the end of the log is after what the
superblock on disk names. -/
theorem persistentJournal_journalWritten :
    persistentJournal ⟨.ready (r.journalWritten jr ids), disk'⟩ =
      persistentJournal ⟨.ready r, disk⟩ := by
  obtain ⟨-, selected⟩ := inv.selected_of_noWrite noWrite
  have selected' : superblockOfDisk disk' = some r.superblock := by
    rw [superblockOfDisk_congr sameSuperblock, selected]
  rw [persistentJournal_eq selected', persistentJournal_eq selected]
  exact update.diskJournal_kept rfl inv.cache.superblock.start inv.cache.lenLe (by omega)

theorem gammaJournal_journalWritten
    (isGamma : gammaJournal ⟨.ready r, disk⟩ = some jes)
    (parses : parseJournalRange jr = some r.nextToWrite) :
    gammaJournal ⟨.ready (r.journalWritten jr ids), disk'⟩ =
      some (if r.inMemoryJournalFrozen = [] then jes ++ r.inMemoryJournal else jes) := by
  obtain ⟨notUpdated, selected⟩ := inv.selected_of_noWrite noWrite
  obtain ⟨log, isLog, rfl⟩ := exists_gammaLog isGamma
  rw [gammaLog_of_not_updated selected fun updated => notUpdated updated.1] at isLog
  have appended := update.diskJournal_append rfl (by omega) isLog parses
  have selected' : superblockOfDisk disk' = some r.superblock := by
    rw [superblockOfDisk_congr sameSuperblock, selected]
  have notUpdated' : ¬ HasLocationUpdateOccurredUnacked (r.journalWritten jr ids) disk' := by
    simp only [HasLocationUpdateOccurredUnacked, HasUpdateOccurredUnacked, sameSuperblock]
    exact fun updated => notUpdated updated.1
  have written : gammaLog ⟨.ready (r.journalWritten jr ids), disk'⟩ =
      some (log ++ r.nextToWrite) := by
    rw [gammaLog_of_not_updated selected' notUpdated', ← appended]
    rfl
  simp only [gammaJournal, written, Option.map_some, Ready.nextToWrite]
  split
  · next noFrozen => simp [Ready.journalWritten, noFrozen]
  · simp [Ready.journalWritten]

end

variable (shows : Shows ⟨.ready r, disk⟩ v) (parses : parseJournalRange jr = some r.nextToWrite)
  (recv : RecvWriteJournal disk disk' id1 id2
    ⟨journalPosAdd r.superblock.journalStart r.writtenJournalLen, jr⟩)

include shows parses recv

/-- Writing the entries in memory moves them from the end of the view's journal
to its log. -/
theorem Shows.writeBackJournalReq (noFrozen : r.inMemoryJournalFrozen = []) :
    Shows ⟨.ready (r.journalWritten jr (writeIds id1 id2)), disk'⟩
      { v with
        j2 := v.j2 ++ v.jDelta
        jGamma := v.jGamma ++ v.jDelta
        jDelta := []
        syncReqs := ThreeStateTypes.syncReqs3to2 v.syncReqs } := by
  obtain ⟨update, sameSuperblock⟩ := journalUpdate_of_recvWriteJournal recv
  obtain ⟨notUpdated, selected⟩ := inv.selected_of_noWrite noWrite
  have selected' := (superblockOfDisk_congr sameSuperblock).trans selected
  have isDelta : r.inMemoryJournal = v.jDelta := shows.jDelta
  have isNext : r.nextToWrite = v.jDelta := by
    rw [Ready.nextToWrite, if_pos noFrozen, isDelta]
  refine ⟨?_, ?_, shows.j3, ?_, ?_, ?_, shows.frozenLoc, ?_⟩
  · exact (persistentJournal_journalWritten inv noWrite fits update sameSuperblock).trans shows.j1
  · rw [isNext] at parses
    exact frozenJournal_append inv noFrozen fits update selected selected' parses shows.j2
  · rw [gammaJournal_journalWritten inv noWrite fits update sameSuperblock shows.jGamma parses,
      if_pos noFrozen, isDelta]
  · simp only [deltaJournal, Ready.journalWritten, noFrozen, if_true]
  · exact (persistentLoc_congr sameSuperblock).trans shows.persistentLoc
  · have changed : (r.journalWritten jr (writeIds id1 id2)).syncReqs =
        syncReqs3to2 r.syncReqs := by
      simp only [Ready.journalWritten, noFrozen, if_true]
    have notUpdated' :
        ¬ HasUpdateOccurredUnacked (r.journalWritten jr (writeIds id1 id2)) disk' := by
      simp only [HasUpdateOccurredUnacked, sameSuperblock]
      exact notUpdated
    simp only [JournalSystem.syncReqs, JournalCache.Variables.syncReqs, changed]
    rw [← shows.syncReqs]
    refine syncReqsOf_filterMap fun status => ?_
    cases status <;> simp [syncReqState, notUpdated, notUpdated']

/-- Writing the frozen entries changes nothing that the state stands for. -/
theorem Shows.writeBackJournalReq_frozen (someFrozen : r.inMemoryJournalFrozen ≠ []) :
    Shows ⟨.ready (r.journalWritten jr (writeIds id1 id2)), disk'⟩ v := by
  obtain ⟨update, sameSuperblock⟩ := journalUpdate_of_recvWriteJournal recv
  obtain ⟨_, selected⟩ := inv.selected_of_noWrite noWrite
  have selected' := (superblockOfDisk_congr sameSuperblock).trans selected
  obtain ⟨atEnd, isFrozen⟩ := inv.cache.frozenEntries someFrozen
  have startLt := inv.cache.superblock.start
  refine ⟨?_, ?_, shows.j3, ?_, ?_, ?_, shows.frozenLoc, ?_⟩
  · exact (persistentJournal_journalWritten inv noWrite fits update sameSuperblock).trans shows.j1
  · -- The frozen journal is empty before and after.
    have before := shows.j2
    rw [frozenJournal_of_isFrozen selected isFrozen, atEnd, Nat.sub_self,
      diskJournal_empty inv.journalLength (journalPosAdd_lt startLt inv.cache.writtenLe)]
      at before
    rw [frozenJournal_of_isFrozen (r := r.journalWritten jr (writeIds id1 id2)) selected'
      isFrozen, ← before]
    simp only [Ready.journalWritten, someFrozen, if_false, Nat.sub_self]
    exact diskJournal_empty update.valid' (journalPosAdd_lt startLt (by omega))
  · rw [gammaJournal_journalWritten inv noWrite fits update sameSuperblock shows.jGamma parses,
      if_neg someFrozen]
  · rw [← shows.jDelta]
    simp only [deltaJournal, Ready.journalWritten, someFrozen, if_false]
  · exact (persistentLoc_congr sameSuperblock).trans shows.persistentLoc
  · have kept : (r.journalWritten jr (writeIds id1 id2)).syncReqs = r.syncReqs := by
      simp only [Ready.journalWritten, someFrozen, if_false]
    have sameState : syncReqState ⟨.ready (r.journalWritten jr (writeIds id1 id2)), disk'⟩ =
        syncReqState ⟨.ready r, disk⟩ := by
      funext status
      simp only [syncReqState, HasUpdateOccurredUnacked, sameSuperblock]
      rfl
    simp only [JournalSystem.syncReqs, JournalCache.Variables.syncReqs, kept, sameState]
    exact shows.syncReqs

end

end ReadyJournal

end VerifiedBetrfs.JournalSystem
