import VerifiedBetrfs.JournalSystemInv

/-!
# The steps of the journal system

Commits, freezes and crashes while the cache is ready.
-/

namespace VerifiedBetrfs.JournalSystem

open Function (update update_of_ne update_self)

open DiskLayout SectorType Journal JournalRanges JournalIntervals ViewOp JournalDisk JournalCache

section ReadySteps

variable {r : Ready} {disk disk' : JournalDisk.Variables} {v : JournalView.Variables}

variable {which : Fin 2}

theorem ReadyInv.pending_ids_ne {pending pending' : ReqWriteSuperblockId} (inv : ReadyInv r disk)
    (isPending : disk.reqWriteSuperblock which = some pending)
    (isPending' : disk.reqWriteSuperblock (otherSuperblock which) = some pending') :
    pending.id ≠ pending'.id := by
  match which with
  | 0 => exact inv.superblockWritesDiffer pending pending' isPending isPending'
  | 1 => exact (inv.superblockWritesDiffer pending' pending isPending' isPending).symm

/-- The only superblock write on the disk's queue is the one of the commit. -/
theorem ReadyInv.pending_eq {pending : ReqWriteSuperblockId} (inv : ReadyInv r disk)
    (isPending : disk.reqWriteSuperblock which = some pending) :
    which = otherSuperblock r.whichSuperblock ∧
      r.newSuperblock = some pending.req.superblock ∧ r.superblockWrite = some pending.id := by
  have recorded := inv.recordedSuperblockWrites which pending isPending
  obtain ⟨_, isNew, isWrite⟩ := inv.superblockWrites pending.id recorded
  rcases eq_or_eq_otherSuperblock r.whichSuperblock which with rfl | rfl
  · -- Both superblocks would be written under one identifier.
    have differ := inv.pending_ids_ne isPending isWrite
    exact absurd rfl differ
  · rw [isPending] at isWrite
    rw [Option.some.inj isWrite]
    exact ⟨rfl, isNew, recorded⟩

theorem ReadyInv.noPending (inv : ReadyInv r disk) (noWrite : r.superblockWrite = none)
    (which : Fin 2) : disk.reqWriteSuperblock which = none := by
  refine Option.eq_none_iff_forall_ne_some.mpr fun pending isPending => ?_
  have recorded := inv.recordedSuperblockWrites which pending isPending
  rw [noWrite] at recorded
  cases recorded

variable {newSuperblock : Superblock} {id : ReqId} {commitStatus : CommitStatus}

section

variable (inv : ReadyInv r disk)

include inv

section

variable (noWrite : r.superblockWrite = none)
  (cache : JournalCache.InvReady (r.committing id newSuperblock commitStatus))

include noWrite cache

/-- The superblock on disk is not the new one before it is written, since its
counter would have had it selected. -/
theorem ReadyInv.not_updated_committing :
    ¬ HasUpdateOccurredUnacked (r.committing id newSuperblock commitStatus) disk := by
  rintro ⟨-, onDisk⟩
  obtain ⟨commit, wf, -⟩ := cache.commit newSuperblock rfl
  have next : newSuperblock.counter = incrementSuperblockCounter r.superblock.counter :=
    commit.counter
  have selected := superblockOfDisk_of_next inv.current inv.cache.superblock onDisk wf next
  rw [(inv.selected_of_noWrite noWrite).2] at selected
  cases selected
  exact incrementSuperblockCounter_ne _ next.symm

variable
    (recv : RecvWriteSuperblock disk disk' id (otherSuperblock r.whichSuperblock) ⟨newSuperblock⟩)

include recv

theorem ReadyInv.committing (noWrites : r.outstandingJournalWrites = ∅) :
    ReadyInv (r.committing id newSuperblock commitStatus) disk' := by
  obtain ⟨-, rfl⟩ := recv
  have noPending := inv.noPending noWrite
  have isWrite : ∀ which pending, update disk.reqWriteSuperblock
      (otherSuperblock r.whichSuperblock) (some ⟨id, ⟨newSuperblock⟩⟩) which = some pending →
      which = otherSuperblock r.whichSuperblock ∧ pending = ⟨id, ⟨newSuperblock⟩⟩ := by
    intro which pending isPending
    by_cases same : which = otherSuperblock r.whichSuperblock
    · rw [same, update_self] at isPending
      cases isPending
      exact ⟨same, rfl⟩
    · rw [update_of_ne same, noPending] at isPending
      cases isPending
  exact {
    inv with
    cache := cache
    selected := .inl (inv.selected_of_noWrite noWrite).2
    journalWrites := fun other interval isRequest => by
      have recorded := (inv.journalWrites other interval isRequest).1
      rw [noWrites] at recorded
      exact absurd recorded (Finset.notMem_empty other)
    superblockWrites := fun other isOther => by
      cases isOther
      exact ⟨newSuperblock, rfl, update_self _ _ _⟩
    recordedSuperblockWrites := fun which pending isPending => by
      obtain ⟨-, rfl⟩ := isWrite which pending isPending
      rfl
    superblockWritesDiffer := fun pending pending' isPending isPending' => by
      have first := (isWrite 0 pending isPending).1
      have second := (isWrite 1 pending' isPending').1
      rw [← second] at first
      cases first }

theorem Shows.committing (shows : Shows ⟨.ready r, disk⟩ v) :
    Shows ⟨.ready (r.committing id newSuperblock commitStatus), disk'⟩ v := by
  obtain ⟨-, rfl⟩ := recv
  obtain ⟨notUpdated, selected⟩ := inv.selected_of_noWrite noWrite
  have notUpdated' := inv.not_updated_committing noWrite cache
  refine { shows with jGamma := ?_, syncReqs := ?_ }
  · rw [← shows.jGamma, gammaJournal_of_not_updated selected notUpdated]
    exact gammaJournal_of_not_updated selected notUpdated'
  · rw [← shows.syncReqs]
    refine congrArg (syncReqsOf r.syncReqs) (funext fun status => ?_)
    cases status with
    | state1 => rfl
    | state2 =>
      simp only [syncReqState]
      rw [if_neg notUpdated]
      exact if_neg notUpdated'
    | state3 => rfl

end

theorem ReadyInv.updated_of_ack (ack : AckWriteSuperblock disk disk' id which) :
    HasUpdateOccurredUnacked r disk ∧
      disk' = { disk with
        reqWriteSuperblock :=
          update disk.reqWriteSuperblock (otherSuperblock r.whichSuperblock) none } := by
  obtain ⟨_, isPending, -, onDisk, rfl⟩ := ack
  obtain ⟨rfl, isNew, -⟩ := inv.pending_eq isPending
  refine ⟨⟨?_, ?_⟩, rfl⟩
  · rw [isNew]
    exact Option.some_ne_none _
  · rw [isNew, ← onDisk]

theorem ReadyInv.selected_of_updated
    (updated : HasUpdateOccurredUnacked r disk) : superblockOfDisk disk = r.newSuperblock := by
  rcases inv.selected_cases with ⟨notUpdated, -⟩ | ⟨_, isNew, -, selected⟩
  · exact absurd updated notUpdated
  · rw [isNew, selected]

theorem ReadyInv.superblockAcked {r' : Ready}
    (ack : AckWriteSuperblock disk disk' id which) (cache : JournalCache.InvReady r')
    (noWrite : r'.superblockWrite = none) (isCurrent : some r'.superblock = r.newSuperblock)
    (isOther : r'.whichSuperblock = otherSuperblock r.whichSuperblock) : ReadyInv r' disk' := by
  obtain ⟨updated, rfl⟩ := inv.updated_of_ack ack
  obtain ⟨-, -, noWrites, -⟩ := inv.cache.commit r'.superblock isCurrent.symm
  have noPending : ∀ slot, update disk.reqWriteSuperblock
      (otherSuperblock r.whichSuperblock) none slot = none := by
    intro slot
    by_cases same : slot = otherSuperblock r.whichSuperblock
    · rw [same, update_self]
    · rw [update_of_ne same]
      refine Option.eq_none_iff_forall_ne_some.mpr fun pending isPending => ?_
      exact same (inv.pending_eq isPending).1
  exact {
    inv with
    cache := cache
    selected := .inl (isCurrent ▸ inv.selected_of_updated updated)
    journalWrites := fun other interval isRequest => by
      have recorded := (inv.journalWrites other interval isRequest).1
      rw [noWrites] at recorded
      exact absurd recorded (Finset.notMem_empty other)
    superblockWrites := fun other isWrite => by
      rw [noWrite] at isWrite
      cases isWrite
    recordedSuperblockWrites := fun slot pending isPending => by
      cases (noPending slot).symm.trans isPending
    superblockWritesDiffer := fun pending _ isPending _ => by
      cases (noPending 0).symm.trans isPending
    current := by rw [isOther, updated.2, isCurrent] }

end

/-- Requests that were persistent on disk are so in the cache once it hears of the superblock. -/
theorem syncReqs_acked {r' : Ready} (updated : HasUpdateOccurredUnacked r disk)
    (changed : r'.syncReqs = syncReqs2to1 r.syncReqs) :
    syncReqs ⟨.ready r', disk'⟩ = syncReqs ⟨.ready r, disk⟩ := by
  have acked : syncReqs ⟨.ready r', disk'⟩ = fun id =>
      (syncReqs ⟨.ready r, disk⟩ id).map fun status => status := by
    simp only [syncReqs, JournalCache.Variables.syncReqs, changed]
    refine syncReqsOf_filterMap fun status => ?_
    cases status <;> simp [syncReqState, updated]
  rw [acked]
  funext id
  exact Option.map_id'

section

variable (inv : ReadyInv r disk)

include inv

section

variable (shows : Shows ⟨.ready r, disk⟩ v) (ack : AckWriteSuperblock disk disk' id which)
  (isNew : r.newSuperblock = some newSuperblock)

include shows ack isNew

theorem Shows.logCommitted (isLog : r.commitStatus = .commitAdvanceLog) :
    Shows ⟨.ready (r.logCommitted newSuperblock), disk'⟩ v := by
  obtain ⟨updated, rfl⟩ := inv.updated_of_ack ack
  obtain ⟨commit, -⟩ := inv.cache.commit newSuperblock isNew
  have selected := (inv.selected_of_updated updated).trans isNew
  have isAdvanced := commit.of_log (by simp [isLog])
  have sameStart : newSuperblock.journalStart = r.superblock.journalStart := by
    rw [isAdvanced, Ready.advancedLog]
  have notLocation : ¬ HasLocationUpdateOccurredUnacked r disk := fun location => by
    rw [HasLocationUpdateOccurredUnacked, isLog] at location
    cases location.2
  refine { shows with j2 := ?_, jGamma := ?_, syncReqs := ?_ }
  · rw [← shows.j2]
    simp only [frozenJournal, frozenStartPos, frozenLen, Ready.logCommitted, sameStart]
    rfl
  · rw [← shows.jGamma]
    simp only [gammaJournal]
    rw [gammaLog_of_not_updated selected notLocation]
    exact gammaJournal_of_not_updated (r := r.logCommitted newSuperblock) selected
      fun updated' => updated'.1 rfl
  · exact (syncReqs_acked updated rfl).trans shows.syncReqs

theorem Shows.locationCommitted (isLocation : r.commitStatus = .commitAdvanceLocation) :
    v.frozenLoc = some v.persistentLoc ∧
      Shows ⟨.ready (r.locationCommitted newSuperblock), disk'⟩ { v with frozenLoc := none } := by
  obtain ⟨updated, rfl⟩ := inv.updated_of_ack ack
  obtain ⟨commit, -⟩ := inv.cache.commit newSuperblock isNew
  have selected := (inv.selected_of_updated updated).trans isNew
  obtain ⟨isFrozen, loc, isLoc, rfl⟩ := commit.of_location isLocation
  have showsLoc := persistentLoc_eq (s := ⟨.ready r, disk⟩) selected
  refine ⟨?_, shows.j1, ?_, shows.j3, ?_, shows.jDelta, shows.persistentLoc, rfl, ?_⟩
  · rw [← shows.frozenLoc, ← shows.persistentLoc, showsLoc]
    exact isLoc
  · rw [← shows.j2, frozenJournal_of_isFrozen selected isFrozen]
    exact frozenJournal_of_not_isFrozen (r := r.locationCommitted (r.advancedLocation loc))
      selected rfl
  · rw [← shows.jGamma]
    simp only [gammaJournal]
    rw [gammaLog_of_updated selected ⟨updated, isLocation⟩]
    exact gammaJournal_of_not_updated (r := r.locationCommitted (r.advancedLocation loc)) selected
      fun updated' => updated'.1 rfl
  · exact (syncReqs_acked updated rfl).trans shows.syncReqs

end

theorem ReadyInv.journalAcked (ack : AckWriteJournal disk disk' id) :
    ReadyInv { r with outstandingJournalWrites := r.outstandingJournalWrites.erase id } disk' := by
  obtain ⟨-, rfl⟩ := ack
  exact {
    inv with
    cache := inv.cache.journalAcked
    journalWrites := fun other interval isRequest => by
      obtain ⟨differ, isOld⟩ := FiniteMap.lookup_erase_eq_some.mp isRequest
      obtain ⟨recorded, correct⟩ := inv.journalWrites other interval isOld
      exact ⟨Finset.mem_erase_of_ne_of_mem differ recorded, correct⟩
    writesDontOverlap := by
      refine ⟨fun other interval isRequest => ?_, fun first second interval interval' isFirst
        isSecond overlap => ?_⟩
      · exact inv.writesDontOverlap.1 other interval (FiniteMap.lookup_of_erase isRequest)
      · exact inv.writesDontOverlap.2 first second interval interval'
          (FiniteMap.lookup_of_erase isFirst) (FiniteMap.lookup_of_erase isSecond) overlap }

omit inv in
theorem Shows.journalAcked (shows : Shows ⟨.ready r, disk⟩ v)
    (ack : AckWriteJournal disk disk' id) :
    Shows ⟨.ready { r with outstandingJournalWrites := r.outstandingJournalWrites.erase id },
      disk'⟩ v := by
  obtain ⟨-, rfl⟩ := ack
  exact { shows with }

theorem ReadyInv.frozen (noWrite : r.superblockWrite = none) : ReadyInv r.frozen disk :=
  { inv with cache := inv.cache.frozen noWrite }

/-- A freeze starts a new frozen journal, which is empty, and ends the log at
all that has been entered. -/
theorem Shows.frozen (shows : Shows ⟨.ready r, disk⟩ v)
    (noWrite : r.superblockWrite = none) (noReplay : r.replayJournal = []) :
    Shows ⟨.ready r.frozen, disk⟩
      { v with
        j2 := v.j3
        jGamma := v.jGamma ++ v.jDelta
        jDelta := []
        frozenLoc := none
        syncReqs := ThreeStateTypes.syncReqs3to2 v.syncReqs } := by
  obtain ⟨notUpdated, selected⟩ := inv.selected_of_noWrite noWrite
  have notUpdated' : ¬ HasUpdateOccurredUnacked r.frozen disk := notUpdated
  have isJ3 : r.replayJournal = v.j3 := Option.some.inj shows.j3
  have isDelta : r.inMemoryJournal = v.jDelta := shows.jDelta
  refine { shows with j2 := ?_, jGamma := ?_, jDelta := rfl, frozenLoc := rfl, syncReqs := ?_ }
  · rw [frozenJournal_of_isFrozen (r := r.frozen) selected rfl, ← isJ3, noReplay]
    simp only [Ready.frozen, Nat.sub_self]
    exact diskJournal_empty inv.journalLength
      (journalPosAdd_lt inv.cache.superblock.start inv.cache.writtenLe)
  · have before := shows.jGamma
    rw [gammaJournal_of_not_updated selected notUpdated] at before
    obtain ⟨_, isLog, isGamma⟩ := Option.map_eq_some_iff.mp before
    rw [gammaJournal_of_not_updated selected notUpdated']
    simp only [Ready.frozen]
    rw [isLog, ← isGamma, ← isDelta, Option.map_some, List.append_assoc]
  · rw [← shows.syncReqs]
    refine syncReqsOf_filterMap fun status => ?_
    cases status <;> simp [syncReqState, notUpdated, notUpdated']

theorem ReadyInv.receiveFrozenLoc {loc : Location} (isFrozen : r.isFrozen = true)
    (noLoc : r.frozenLoc = none) (valid : ValidIndirectionTableLocation loc) :
    ReadyInv { r with frozenLoc := some loc } disk :=
  { inv with cache := inv.cache.receiveFrozenLoc isFrozen noLoc valid }

omit inv in
theorem Shows.receiveFrozenLoc (shows : Shows ⟨.ready r, disk⟩ v) (loc : Location) :
    Shows ⟨.ready { r with frozenLoc := some loc }, disk⟩ { v with frozenLoc := some loc } :=
  { shows with frozenLoc := rfl }

theorem ReadyInv.advance {entries : List JournalEntry} :
    ReadyInv { r with inMemoryJournal := entries } disk :=
  { inv with cache := { inv.cache with } }

omit inv in
theorem Shows.advance (shows : Shows ⟨.ready r, disk⟩ v) (entries : List JournalEntry) :
    Shows ⟨.ready { r with inMemoryJournal := r.inMemoryJournal ++ entries }, disk⟩
      { v with jDelta := v.jDelta ++ entries } :=
  { shows with jDelta := congrArg (· ++ entries) shows.jDelta }

theorem ReadyInv.replay {replayJournal : List JournalEntry} :
    ReadyInv { r with replayJournal } disk :=
  { inv with cache := { inv.cache with } }

omit inv in
theorem Shows.replay (shows : Shows ⟨.ready r, disk⟩ v) (replayJournal : List JournalEntry) :
    Shows ⟨.ready { r with replayJournal }, disk⟩ { v with j3 := replayJournal } :=
  { shows with j3 := rfl }

theorem ReadyInv.setSyncReqs {syncReqs : JournalCache.SyncReqs} :
    ReadyInv { r with syncReqs } disk :=
  { inv with cache := { inv.cache with } }

omit inv in
theorem syncReqs_processed (updated : HasUpdateOccurredUnacked r disk') :
    syncReqs ⟨.ready r, disk'⟩ = ThreeStateTypes.syncReqs2to1 (syncReqs ⟨.ready r, disk⟩) := by
  refine syncReqsOf_change fun status => ?_
  cases status with
  | state1 => rfl
  | state2 =>
    simp only [syncReqState, updated, if_true]
    by_cases before : HasUpdateOccurredUnacked r disk <;> simp [before]
  | state3 => rfl

variable (process : ProcessWriteSuperblock disk disk' which)

include process

theorem ReadyInv.processed :
    ∃ newSuperblock, r.newSuperblock = some newSuperblock ∧
      disk' = { disk with
        superblock := update disk.superblock (otherSuperblock r.whichSuperblock)
          (some newSuperblock) } ∧
      superblockOfDisk disk' = some newSuperblock ∧
      HasUpdateOccurredUnacked r disk' := by
  obtain ⟨_, isPending, rfl⟩ := process
  obtain ⟨rfl, isNew, -⟩ := inv.pending_eq isPending
  obtain ⟨commit, wf, -⟩ := inv.cache.commit _ isNew
  refine ⟨_, isNew, rfl, ?_, ?_, ?_⟩
  · refine superblockOfDisk_of_next ?_ inv.cache.superblock (update_self _ _ _) wf commit.counter
    exact (update_of_ne (otherSuperblock_ne _).symm _ _).trans inv.current
  · rw [isNew]
    exact Option.some_ne_none _
  · rw [isNew]
    exact update_self _ _ _

theorem ReadyInv.processWriteSuperblock : ReadyInv r disk' := by
  obtain ⟨newSuperblock, isNew, rfl, selected, -⟩ := inv.processed process
  obtain ⟨-, wf, -⟩ := inv.cache.commit newSuperblock isNew
  exact {
    inv with
    wfDisk := fun slot => by
      by_cases same : slot = otherSuperblock r.whichSuperblock
      · rw [same]
        exact ⟨newSuperblock, update_self _ _ _, wf⟩
      · obtain ⟨superblock, isSuperblock, wfSuperblock⟩ := inv.wfDisk slot
        exact ⟨superblock, (update_of_ne same _ _).trans isSuperblock, wfSuperblock⟩
    selected := .inr ⟨by rw [isNew]; exact Option.some_ne_none _, by rw [selected, isNew]⟩
    current := (update_of_ne (otherSuperblock_ne _).symm _ _).trans inv.current }

/-- A superblock that extends the log makes the log persistent when it reaches
the disk. -/
theorem Shows.processWriteSuperblock_log (shows : Shows ⟨.ready r, disk⟩ v)
    (isLog : r.commitStatus ≠ .commitAdvanceLocation) :
    Shows ⟨.ready r, disk'⟩
      { v with
        j1 := v.jGamma
        syncReqs := ThreeStateTypes.syncReqs2to1 v.syncReqs } := by
  obtain ⟨newSuperblock, isNew, isDisk, selected', updated'⟩ := inv.processed process
  obtain ⟨commit, -, -, noFrozen⟩ := inv.cache.commit newSuperblock isNew
  have isAdvanced := commit.of_log isLog
  have sameJournal : disk'.journal = disk.journal := by rw [isDisk]
  have notLocation : ∀ disk, ¬ HasLocationUpdateOccurredUnacked r disk := fun _ location =>
    isLog location.2
  -- The log starts where the old superblock and the new one say.
  obtain ⟨onDisk, selected, sameStart, sameLoc⟩ : ∃ onDisk, superblockOfDisk disk = some onDisk ∧
      onDisk.journalStart = r.superblock.journalStart ∧
      onDisk.indirectionTableLoc = r.superblock.indirectionTableLoc := by
    rcases inv.selected_cases with ⟨-, selected⟩ | ⟨_, isOther, -, selected⟩
    · exact ⟨_, selected, rfl, rfl⟩
    · rw [isNew] at isOther
      cases isOther
      refine ⟨_, selected, ?_⟩
      rw [isAdvanced]
      exact ⟨rfl, rfl⟩
  have isLogged : diskJournal disk.journal
      ⟨r.superblock.journalStart, r.writtenJournalLen⟩ = some v.jGamma := by
    obtain ⟨log, isLogged, isGamma⟩ := exists_gammaLog shows.jGamma
    rw [gammaLog_of_not_updated selected (notLocation disk), sameStart] at isLogged
    rw [isLogged, ← isGamma, noFrozen, List.append_nil]
  have isFrozenJournal := shows.j2
  have isLoc := shows.persistentLoc
  rw [frozenJournal_eq selected] at isFrozenJournal
  rw [persistentLoc_eq selected, sameLoc] at isLoc
  refine { shows with j1 := ?_, j2 := ?_, jGamma := ?_, persistentLoc := ?_, syncReqs := ?_ }
  · rw [persistentJournal_eq selected', ← isLogged, isAdvanced]
    simp only [sameJournal]
    rfl
  · rw [frozenJournal_eq selected', ← isFrozenJournal]
    simp only [sameJournal]
    rfl
  · simp only [gammaJournal]
    rw [gammaLog_of_not_updated selected' (notLocation disk'), sameJournal, isAdvanced]
    simp only [Ready.advancedLog]
    rw [isLogged, noFrozen, Option.map_some, List.append_nil]
  · rw [persistentLoc_eq selected', ← isLoc, isAdvanced]
    rfl
  · rw [← shows.syncReqs]
    exact syncReqs_processed updated'

/-- The frozen journal is persistent once the superblock of the frozen location reaches the disk. -/
theorem Shows.processWriteSuperblock_location (shows : Shows ⟨.ready r, disk⟩ v)
    (isLocation : r.commitStatus = .commitAdvanceLocation) :
    ∃ loc, v.frozenLoc = some loc ∧
      Shows ⟨.ready r, disk'⟩
        { v with
          j1 := v.j2
          jGamma := v.j2
          persistentLoc := loc
          syncReqs := ThreeStateTypes.syncReqs2to1 v.syncReqs } := by
  obtain ⟨newSuperblock, isNew, isDisk, selected', updated'⟩ := inv.processed process
  obtain ⟨commit, -, -, noFrozen⟩ := inv.cache.commit newSuperblock isNew
  obtain ⟨isFrozen, loc, isLoc, rfl⟩ := commit.of_location isLocation
  have sameJournal : disk'.journal = disk.journal := by rw [isDisk]
  obtain ⟨_, selected⟩ := inv.wfDisk.exists_superblockOfDisk
  have isFrozenJournal := shows.j2
  rw [frozenJournal_of_isFrozen selected isFrozen] at isFrozenJournal
  refine ⟨loc, shows.frozenLoc.symm.trans isLoc, ?_, ?_, shows.j3, ?_, shows.jDelta, ?_,
    shows.frozenLoc, ?_⟩
  · rw [persistentJournal_eq selected', ← isFrozenJournal]
    simp only [sameJournal]
    rfl
  · rw [frozenJournal_of_isFrozen selected' isFrozen, sameJournal, isFrozenJournal]
  · simp only [gammaJournal]
    rw [gammaLog_of_updated selected' ⟨updated', isLocation⟩, sameJournal]
    simp only [Ready.advancedLocation]
    rw [isFrozenJournal, noFrozen, Option.map_some, List.append_nil]
  · rw [persistentLoc_eq selected']
    rfl
  · rw [← shows.syncReqs]
    exact syncReqs_processed updated'

end

end ReadySteps

end VerifiedBetrfs.JournalSystem
