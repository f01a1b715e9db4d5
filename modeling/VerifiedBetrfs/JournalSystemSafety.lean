import VerifiedBetrfs.JournalSystemLoading

/-!
# Crash safety of the journal system

Every step is a step of the journal view.  What a superblock write was sent for is what a crash
finds once that write is the last one on the disk.
-/

namespace VerifiedBetrfs.JournalSystem

open DiskLayout SectorType Journal JournalRanges JournalIntervals ViewOp JournalDisk JournalCache

variable {s s' : Variables} {v : JournalView.Variables}

/-- The invariant holds after a step that the view can take too. -/
def StepRefines (s' : Variables) (v : JournalView.Variables) (vop : VOp) : Prop :=
  ∃ v', Inv s' ∧ Shows s' v' ∧ v'.j1 = v.j1 ∧ JournalView.Next v v' vop

theorem stepRefines_stutter {vop : VOp} (inv : Inv s') (shows : Shows s' v)
    (internal : vop = .journalInternalOp ∨ vop = .statesInternalOp) : StepRefines s' v vop :=
  ⟨v, inv, shows, rfl, .stutterStep, internal, rfl⟩

theorem setSyncReqs_inv {reqs : JournalCache.SyncReqs} {disk : JournalDisk.Variables}
    {machine : JournalCache.Variables} {v' : JournalView.Variables} (inv : Inv ⟨machine, disk⟩)
    (shows' : Shows ⟨machine.setSyncReqs reqs, disk⟩ v') :
    Inv ⟨machine.setSyncReqs reqs, disk⟩ := by
  cases machine with
  | ready r => exact inv.toReady.setSyncReqs.toInv shows'
  | loadingOther l =>
    have loading := inv.toLoadingOther
    exact LoadingOtherInv.toInv { loading with } shows'
  | loadingSuperblock l =>
    have loading := inv.toLoadingSuperblock
    exact LoadingSuperblockInv.toInv { loading with cache := { loading.cache with } } shows'

theorem Shows.setSyncReqs {disk : JournalDisk.Variables} {machine : JournalCache.Variables}
    (shows : Shows ⟨machine, disk⟩ v) (reqs : JournalCache.SyncReqs) :
    Shows ⟨machine.setSyncReqs reqs, disk⟩
      { v with syncReqs := syncReqsOf reqs (syncReqState ⟨machine, disk⟩) } := by
  cases machine with
  | ready r | loadingOther l | loadingSuperblock l =>
    exact { shows with syncReqs := rfl }

section Machine

variable {disk disk' : JournalDisk.Variables} {machine machine' : JournalCache.Variables}
  {dop : DiskOp} {vop : VOp}

/-- The superblocks on disk change only by a step of the disk, the journal also when a write is
sent. -/
theorem unchanged_of_diskNext (diskNext : JournalDisk.Next disk disk' dop) :
    disk'.superblock = disk.superblock ∧
      ((∀ id1 id2 req, dop ≠ .reqWriteJournalOp id1 id2 req) → disk'.journal = disk.journal) := by
  cases dop with
  | reqReadSuperblockOp id which => obtain ⟨-, rfl⟩ := diskNext; exact ⟨rfl, fun _ => rfl⟩
  | reqReadJournalOp id interval => obtain ⟨-, -, rfl⟩ := diskNext; exact ⟨rfl, fun _ => rfl⟩
  | reqWriteSuperblockOp id which req => obtain ⟨-, rfl⟩ := diskNext; exact ⟨rfl, fun _ => rfl⟩
  | reqWriteJournalOp id1 id2 req =>
    refine ⟨?_, fun notWrite => absurd rfl (notWrite id1 id2 req)⟩
    obtain ⟨-, -, -, fits, wraps⟩ := diskNext
    rcases Nat.lt_or_ge numJournalBlocks (req.start + req.journal.length) with beyond | inside
    · obtain ⟨_, -, -, isDisk⟩ := wraps beyond
      rw [isDisk]
    · rw [(fits inside).2]
  | respReadSuperblockOp id which superblock =>
    obtain ⟨-, -, rfl⟩ := diskNext
    exact ⟨rfl, fun _ => rfl⟩
  | respReadJournalOp id journal => obtain ⟨-, -, -, -, rfl⟩ := diskNext; exact ⟨rfl, fun _ => rfl⟩
  | respWriteSuperblockOp id which =>
    obtain ⟨-, -, -, -, rfl⟩ := diskNext
    exact ⟨rfl, fun _ => rfl⟩
  | respWriteJournalOp id => obtain ⟨-, rfl⟩ := diskNext; exact ⟨rfl, fun _ => rfl⟩
  | noDiskOp => rw [show disk' = disk from diskNext]; exact ⟨rfl, fun _ => rfl⟩

theorem committing_refines {r : Ready} {id : ReqId} {newSuperblock : Superblock}
    {commitStatus : CommitStatus} (inv : Inv ⟨.ready r, disk⟩) (shows : Shows ⟨.ready r, disk⟩ v)
    (noCommit : r.commitStatus = .commitNone) (noWrites : r.outstandingJournalWrites = ∅)
    (cache : JournalCache.InvReady (r.committing id newSuperblock commitStatus))
    (recv : RecvWriteSuperblock disk disk' id (otherSuperblock r.whichSuperblock) ⟨newSuperblock⟩) :
    StepRefines ⟨.ready (r.committing id newSuperblock commitStatus), disk'⟩ v
      .journalInternalOp := by
  have ready := inv.toReady
  have noWrite := ready.cache.writeIffCommit.mpr noCommit
  have shows' := Shows.committing ready noWrite cache recv shows
  exact stepRefines_stutter ((ready.committing noWrite cache recv noWrites).toInv shows') shows'
    (.inl rfl)

section

variable (shows : Shows ⟨machine, disk⟩ v) (loading : ∀ r, machine ≠ .ready r)
  (loading' : ∀ r, machine' ≠ .ready r) (sameReqs : machine'.syncReqs = machine.syncReqs)
  (diskNext : JournalDisk.Next disk disk' dop)
  (notWrite : ∀ id1 id2 req, dop ≠ .reqWriteJournalOp id1 id2 req)

include shows loading loading' sameReqs diskNext notWrite

/-- While the system is loading, only what is on disk and the sync requests
matter. -/
theorem Shows.ofLoading : Shows ⟨machine', disk'⟩ v := by
  obtain ⟨sameSuperblock, sameJournal⟩ := unchanged_of_diskNext diskNext
  have samePersistent : persistentJournal ⟨machine', disk'⟩ =
      persistentJournal ⟨machine, disk⟩ := by
    simp only [persistentJournal, superblockOfDisk_congr sameSuperblock, sameJournal notWrite]
  have frozen : ∀ {machine : JournalCache.Variables} {disk : JournalDisk.Variables},
      (∀ r, machine ≠ .ready r) →
        frozenJournal ⟨machine, disk⟩ = persistentJournal ⟨machine, disk⟩ ∧
        ephemeralJournal ⟨machine, disk⟩ = persistentJournal ⟨machine, disk⟩ ∧
        gammaJournal ⟨machine, disk⟩ = persistentJournal ⟨machine, disk⟩ ∧
        deltaJournal ⟨machine, disk⟩ = [] ∧ JournalSystem.frozenLoc ⟨machine, disk⟩ = none := by
    intro machine disk loading
    cases machine with
    | ready r => exact absurd rfl (loading r)
    | loadingOther l | loadingSuperblock l => exact ⟨rfl, rfl, rfl, rfl, rfl⟩
  have sameState : syncReqState ⟨machine', disk'⟩ = syncReqState ⟨machine, disk⟩ := by
    cases machine with
    | ready r => exact absurd rfl (loading r)
    | loadingOther l | loadingSuperblock l =>
      cases machine' with
      | ready r => exact absurd rfl (loading' r)
      | loadingOther l' => rfl
      | loadingSuperblock l' => rfl
  obtain ⟨isFrozen, isEphemeral, isGamma, isDelta, isLoc⟩ := frozen loading
  obtain ⟨isFrozen', isEphemeral', isGamma', isDelta', isLoc'⟩ := frozen loading'
  refine ⟨samePersistent.trans shows.j1, ?_, ?_, ?_, ?_, ?_, ?_, ?_⟩
  · rw [isFrozen', samePersistent, ← isFrozen, shows.j2]
  · rw [isEphemeral', samePersistent, ← isEphemeral, shows.j3]
  · rw [isGamma', samePersistent, ← isGamma, shows.jGamma]
  · rw [isDelta', ← isDelta, shows.jDelta]
  · exact (persistentLoc_congr sameSuperblock).trans shows.persistentLoc
  · rw [isLoc', ← isLoc, shows.frozenLoc]
  · rw [← shows.syncReqs]
    simp only [JournalSystem.syncReqs, sameReqs, sameState]

theorem stepRefines_loading (internal : vop = .journalInternalOp ∨ vop = .statesInternalOp)
    (inv' : Shows ⟨machine', disk'⟩ v → Inv ⟨machine', disk'⟩) :
    StepRefines ⟨machine', disk'⟩ v vop :=
  have shows' := shows.ofLoading loading loading' sameReqs diskNext notWrite
  stepRefines_stutter (inv' shows') shows' internal

end

variable (inv : Inv ⟨machine, disk⟩) (shows : Shows ⟨machine, disk⟩ v)
  (diskNext : JournalDisk.Next disk disk' dop)

include inv shows diskNext

theorem writeBackJournalReq_refines {jr : JournalRange}
    (next : WriteBackJournalReq machine machine' dop vop jr) :
    StepRefines ⟨machine', disk'⟩ v vop := by
  obtain ⟨r, _, _, rfl, rfl, parses, fits, -, noWrite, -, -, rfl, rfl⟩ := next
  have ready := inv.toReady.writeBackJournalReq noWrite fits diskNext
  by_cases noFrozen : r.inMemoryJournalFrozen = []
  · have shows' := Shows.writeBackJournalReq inv.toReady noWrite fits shows parses diskNext noFrozen
    exact ⟨_, ready.toInv shows', shows', rfl, .extendLog2Step, rfl, rfl⟩
  · have shows' := Shows.writeBackJournalReq_frozen inv.toReady noWrite fits shows parses diskNext
      noFrozen
    exact stepRefines_stutter (ready.toInv shows') shows' (.inl rfl)

theorem writeBackJournalResp_refines (next : WriteBackJournalResp machine machine' dop vop) :
    StepRefines ⟨machine', disk'⟩ v vop := by
  obtain ⟨_, _, rfl, rfl, rfl, -, rfl⟩ := next
  have shows' := shows.journalAcked diskNext
  exact stepRefines_stutter ((inv.toReady.journalAcked diskNext).toInv shows') shows' (.inl rfl)

theorem advanceLog_refines (next : WriteBackSuperblockReqAdvanceLog machine machine' dop vop) :
    StepRefines ⟨machine', disk'⟩ v vop := by
  obtain ⟨_, _, rfl, rfl, noCommit, noWrites, noFrozen, -, rfl, rfl⟩ := next
  have cache := inv.toReady.cache
  exact committing_refines inv shows noCommit noWrites (cache.advanceLog noWrites noFrozen) diskNext

theorem advanceLocation_refines
    (next : WriteBackSuperblockReqAdvanceLocation machine machine' dop vop) :
    StepRefines ⟨machine', disk'⟩ v vop := by
  obtain ⟨_, _, _, rfl, rfl, isLoc, noCommit, noWrites, noFrozen, -, -, -, rfl, rfl⟩ := next
  have cache := inv.toReady.cache
  exact committing_refines inv shows noCommit noWrites
    (cache.advanceLocation isLoc noWrites noFrozen) diskNext

theorem writeBackSuperblockResp_refines (next : WriteBackSuperblockResp machine machine' dop vop) :
    StepRefines ⟨machine', disk'⟩ v vop := by
  obtain ⟨_, _, _, _, newSuperblock, rfl, rfl, _, isNew, rfl, location, log⟩ := next
  have ready := inv.toReady
  obtain ⟨commit, -⟩ := ready.cache.commit newSuperblock isNew
  rcases commit with ⟨isLog, -⟩ | ⟨isLocation, -⟩
  · obtain ⟨rfl, rfl⟩ := log isLog
    have shows' := Shows.logCommitted ready shows diskNext isNew isLog
    have ready' := ready.superblockAcked diskNext (ready.cache.logCommitted isNew isLog) rfl
      isNew.symm rfl
    exact stepRefines_stutter (ready'.toInv shows') shows' (.inl rfl)
  · obtain ⟨rfl, rfl⟩ := location isLocation
    obtain ⟨isPersistent, shows'⟩ := Shows.locationCommitted ready shows diskNext isNew isLocation
    have ready' := ready.superblockAcked diskNext (ready.cache.locationCommitted isNew isLocation)
      rfl isNew.symm rfl
    exact ⟨_, ready'.toInv shows', shows', rfl, .cleanUpStep, rfl, isPersistent, rfl⟩

variable {which : Fin 2}

theorem pageInJournalReq_refines (next : PageInJournalReq machine machine' dop vop which) :
    StepRefines ⟨machine', disk'⟩ v vop := by
  obtain ⟨_, _, _, rfl, rfl, rfl, -, -, front, back⟩ := next
  rcases eq_or_eq_otherSuperblock 0 which with rfl | rfl
  · obtain ⟨isFront, noRead, notLoaded, rfl⟩ := front rfl
    exact stepRefines_loading shows nofun nofun rfl diskNext nofun (.inl rfl)
      (inv.toLoadingOther.pageInFrontReq isFront noRead notLoaded diskNext).toInv
  · obtain ⟨isBack, noRead, notLoaded, rfl⟩ := back rfl
    exact stepRefines_loading shows nofun nofun rfl diskNext nofun (.inl rfl)
      (inv.toLoadingOther.pageInBackReq isBack noRead notLoaded diskNext).toInv

theorem pageInJournalResp_refines (next : PageInJournalResp machine machine' dop vop which) :
    StepRefines ⟨machine', disk'⟩ v vop := by
  obtain ⟨_, _, _, rfl, rfl, rfl, front, back⟩ := next
  rcases eq_or_eq_otherSuperblock 0 which with rfl | rfl
  · obtain ⟨isRead, rfl⟩ := front rfl
    exact stepRefines_loading shows nofun nofun rfl diskNext nofun (.inl rfl)
      (inv.toLoadingOther.pageInFrontResp isRead diskNext).toInv
  · obtain ⟨isRead, rfl⟩ := back rfl
    exact stepRefines_loading shows nofun nofun rfl diskNext nofun (.inl rfl)
      (inv.toLoadingOther.pageInBackResp isRead diskNext).toInv

theorem pageInSuperblockReq_refines (next : PageInSuperblockReq machine machine' dop vop which) :
    StepRefines ⟨machine', disk'⟩ v vop := by
  obtain ⟨_, _, rfl, rfl, rfl, noRead, unfinished, rfl⟩ := next
  exact stepRefines_loading shows nofun nofun rfl diskNext nofun (.inl rfl)
    (inv.toLoadingSuperblock.pageInReq noRead unfinished diskNext).toInv

theorem pageInSuperblockResp_refines (next : PageInSuperblockResp machine machine' dop vop which) :
    StepRefines ⟨machine', disk'⟩ v vop := by
  obtain ⟨_, _, _, rfl, rfl, rfl, isOutstanding, rfl⟩ := next
  exact stepRefines_loading shows nofun nofun rfl diskNext nofun (.inl rfl)
    (inv.toLoadingSuperblock.pageInResp isOutstanding diskNext).toInv

theorem finishLoadingSuperblockPhase_refines
    (next : FinishLoadingSuperblockPhase machine machine' dop vop) :
    StepRefines ⟨machine', disk'⟩ v vop := by
  obtain ⟨_, _, _, rfl, rfl, first, second, rfl, rfl⟩ := next
  obtain rfl : disk' = disk := id diskNext
  have loading := inv.toLoadingSuperblock.finish first second
  have isLoc := shows.persistentLoc
  rw [persistentLoc_eq loading.selected] at isLoc
  refine ⟨v, loading.toInv (shows.ofLoading nofun nofun rfl diskNext nofun),
    shows.ofLoading nofun nofun rfl diskNext nofun, rfl, .presentPersistentLocStep, ?_, rfl⟩
  rw [← Option.some.inj isLoc]

theorem finishLoadingOtherPhase_refines (next : FinishLoadingOtherPhase machine machine' dop vop) :
    StepRefines ⟨machine', disk'⟩ v vop := by
  obtain ⟨l, replayJournal, position, rfl, rfl, rfl, -, -, frontLoaded, backLoaded, parses, rfl⟩ :=
    next
  cases diskNext
  have loading := inv.toLoadingOther
  have isReplay := loading.persistentJournal_eq frontLoaded backLoaded (.loadingOther l) parses
  have shows' : Shows ⟨.ready (l.finished replayJournal position), disk⟩ v :=
    Shows.finish loading shows isReplay
  exact stepRefines_stutter ((loading.finish frontLoaded backLoaded).toInv shows') shows' (.inl rfl)

theorem freeze_refines (next : Freeze machine machine' dop vop) :
    StepRefines ⟨machine', disk'⟩ v vop := by
  obtain ⟨_, rfl, rfl, rfl, noWrite, notPersistent, noReplay, rfl⟩ := next
  cases diskNext
  have ready := inv.toReady
  have shows' := Shows.frozen ready shows noWrite noReplay
  refine ⟨_, (ready.frozen noWrite).toInv shows', shows', rfl, .move2to3Step, rfl, ?_, rfl⟩
  have isLoc := shows.persistentLoc
  rw [persistentLoc_eq (ready.selected_of_noWrite noWrite).2] at isLoc
  rw [← shows.frozenLoc, ← Option.some.inj isLoc]
  exact notPersistent

theorem receiveFrozenLoc_refines (next : ReceiveFrozenLoc machine machine' dop vop) :
    StepRefines ⟨machine', disk'⟩ v vop := by
  obtain ⟨_, loc, rfl, rfl, rfl, isFrozen, noLoc, valid, rfl⟩ := next
  cases diskNext
  have shows' := shows.receiveFrozenLoc loc
  exact ⟨_, (inv.toReady.receiveFrozenLoc isFrozen noLoc valid).toInv shows', shows', rfl,
    .obtainFrozenLocStep, loc, rfl, rfl⟩

theorem advance_refines (next : Advance machine machine' dop vop) :
    StepRefines ⟨machine', disk'⟩ v vop := by
  obtain ⟨r, uiop, rfl, rfl, rfl, noReplay, rfl⟩ := next
  cases diskNext
  have shows' := shows.advance (journalEntriesForUIOp uiop)
  have isJ3 : r.replayJournal = v.j3 := Option.some.inj shows.j3
  exact ⟨_, inv.toReady.advance.toInv shows', shows', rfl, .move3Step, uiop, rfl,
    isJ3.symm.trans noReplay, rfl⟩

theorem replay_refines (next : JournalCache.Replay machine machine' dop vop) :
    StepRefines ⟨machine', disk'⟩ v vop := by
  obtain ⟨r, uiop, replayJournal, rfl, rfl, rfl, isReplay, rfl⟩ := next
  cases diskNext
  have shows' := shows.replay replayJournal
  have isJ3 : r.replayJournal = v.j3 := Option.some.inj shows.j3
  exact ⟨_, inv.toReady.replay.toInv shows', shows', rfl, .replayStep, uiop, rfl,
    isJ3.symm.trans isReplay, rfl⟩

theorem pushSyncReq_refines {id : UInt64} (next : PushSyncReq machine machine' dop vop id) :
    StepRefines ⟨machine', disk'⟩ v vop := by
  obtain ⟨rfl, rfl, fresh, rfl⟩ := next
  cases diskNext
  have shows' := shows.setSyncReqs (machine.syncReqs.insert id .state3)
  refine ⟨_, setSyncReqs_inv inv shows', shows', rfl, .pushSyncStep, id.toNat, rfl, ?_, ?_⟩
  · rw [← shows.syncReqs, JournalSystem.syncReqs, syncReqsOf_toNat, fresh, Option.map_none]
  · rw [syncReqsOf_insert, ← shows.syncReqs]
    rfl

theorem popSyncReq_refines {id : UInt64} (next : PopSyncReq machine machine' dop vop id) :
    StepRefines ⟨machine', disk'⟩ v vop := by
  obtain ⟨rfl, rfl, isState, rfl⟩ := next
  cases diskNext
  have shows' := shows.setSyncReqs (machine.syncReqs.erase id)
  refine ⟨_, setSyncReqs_inv inv shows', shows', rfl, .popSyncStep, id.toNat, rfl, ?_, ?_⟩
  · rw [← shows.syncReqs, JournalSystem.syncReqs, syncReqsOf_toNat, isState, Option.map_some]
    rfl
  · rw [syncReqsOf_erase, ← shows.syncReqs]
    rfl

theorem noOp_refines (next : NoOp machine machine' dop vop) :
    StepRefines ⟨machine', disk'⟩ v vop := by
  obtain ⟨internal, isOp, rfl⟩ := next
  rcases isOp with rfl | ⟨id, which, superblock, rfl⟩ | ⟨id, journal, rfl⟩ |
    ⟨id, which, rfl, unrecorded⟩ | ⟨id, rfl, unrecorded⟩
  · cases diskNext
    exact stepRefines_stutter inv shows internal
  · have ack : AckReadSuperblock disk disk' id which superblock := diskNext
    obtain ⟨l, -, rfl, -⟩ := inv.recorded.superblockReads which id ack.1
    exact stepRefines_loading shows nofun nofun rfl diskNext nofun internal
      (inv.toLoadingSuperblock.ignoreRead ack).toInv
  · have ack : AckReadJournal disk disk' id journal := diskNext
    obtain ⟨l, rfl, -⟩ := inv.recorded.journalReads id _ ack.choose_spec.1
    have loading := inv.toLoadingOther
    exact stepRefines_loading shows nofun nofun rfl diskNext nofun internal
      (loading.afterAnswer ack (loading.parts.ignore ack)).toInv
  · obtain ⟨pending, isPending, rfl, -⟩ := diskNext
    exact absurd (inv.recorded.superblockWrites which pending isPending) unrecorded
  · obtain ⟨interval, isWrite⟩ := Option.ne_none_iff_exists'.mp diskNext.1
    exact absurd (inv.recorded.journalWrites id interval isWrite) unrecorded

end Machine

theorem machine_refines {dop : DiskOp} {vop : VOp} {step : JournalCache.Step} (inv : Inv s)
    (shows : Shows s v) (next : Machine s s' dop vop step) : StepRefines s' v vop := by
  obtain ⟨cacheNext, diskNext⟩ := next
  cases step with
  | writeBackJournalReqStep jr => exact writeBackJournalReq_refines inv shows diskNext cacheNext
  | writeBackJournalRespStep => exact writeBackJournalResp_refines inv shows diskNext cacheNext
  | writeBackSuperblockReqAdvanceLogStep =>
    exact advanceLog_refines inv shows diskNext cacheNext
  | writeBackSuperblockReqAdvanceLocationStep =>
    exact advanceLocation_refines inv shows diskNext cacheNext
  | writeBackSuperblockRespStep =>
    exact writeBackSuperblockResp_refines inv shows diskNext cacheNext
  | pageInJournalReqStep which => exact pageInJournalReq_refines inv shows diskNext cacheNext
  | pageInJournalRespStep which => exact pageInJournalResp_refines inv shows diskNext cacheNext
  | pageInSuperblockReqStep which => exact pageInSuperblockReq_refines inv shows diskNext cacheNext
  | pageInSuperblockRespStep which =>
    exact pageInSuperblockResp_refines inv shows diskNext cacheNext
  | finishLoadingSuperblockPhaseStep =>
    exact finishLoadingSuperblockPhase_refines inv shows diskNext cacheNext
  | finishLoadingOtherPhaseStep =>
    exact finishLoadingOtherPhase_refines inv shows diskNext cacheNext
  | freezeStep => exact freeze_refines inv shows diskNext cacheNext
  | receiveFrozenLocStep => exact receiveFrozenLoc_refines inv shows diskNext cacheNext
  | advanceStep => exact advance_refines inv shows diskNext cacheNext
  | replayStep => exact replay_refines inv shows diskNext cacheNext
  | pushSyncReqStep id => exact pushSyncReq_refines inv shows diskNext cacheNext
  | popSyncReqStep id => exact popSyncReq_refines inv shows diskNext cacheNext
  | noOpStep => exact noOp_refines inv shows diskNext cacheNext

theorem diskInternal_refines {step : InternalStep} {vop : VOp} (inv : Inv s) (shows : Shows s v)
    (next : DiskInternal s s' step vop) :
    ∃ v', Inv s' ∧ Shows s' v' ∧ JournalView.Next v v' vop := by
  obtain ⟨_, _⟩ := s
  obtain ⟨_, _⟩ := s'
  obtain ⟨which⟩ := step
  obtain ⟨rfl, process, rfl⟩ := next
  obtain ⟨pending, isPending, -⟩ := id process
  obtain ⟨r, rfl, -⟩ := inv.recorded.superblockWrites which pending isPending
  have ready := inv.toReady
  have ready' := ready.processWriteSuperblock process
  by_cases isLocation : r.commitStatus = .commitAdvanceLocation
  · obtain ⟨loc, isLoc, shows'⟩ :=
      Shows.processWriteSuperblock_location ready process shows isLocation
    exact ⟨_, ready'.toInv shows', shows', .move1to2Step, rfl, loc, isLoc, rfl⟩
  · have shows' := Shows.processWriteSuperblock_log ready process shows isLocation
    exact ⟨_, ready'.toInv shows', shows', .extendLog1Step, rfl, rfl⟩

theorem next_refines {vop : VOp} (inv : Inv s) (shows : Shows s v) (next : Next s s' vop) :
    ∃ v', Inv s' ∧ Shows s' v' ∧ JournalView.Next v v' vop := by
  obtain ⟨step, stepNext⟩ := next
  cases step with
  | machineStep dop machineStep =>
    obtain ⟨v', inv', shows', -, viewNext⟩ := machine_refines inv shows stepNext
    exact ⟨v', inv', shows', viewNext⟩
  | diskInternalStep step => exact diskInternal_refines inv shows stepNext
  | crashStep =>
    obtain ⟨inv', shows'⟩ := crash_inv inv shows stepNext
    exact ⟨_, inv', shows', .crashStep, stepNext.1, rfl⟩

/-- A superblock write, with the journal that it is to make persistent. -/
structure SuperblockWrite where
  superblock : Superblock
  journal : List JournalEntry

/-- The last superblock write that reached the disk, and the last one sent. -/
structure History where
  reached : SuperblockWrite
  sent : Option SuperblockWrite

/-- A commit of the log makes the whole log persistent, one of the frozen location the part after
it. -/
def History.next (h : History) (s : Variables) : Step → History
  | .machineStep (.reqWriteSuperblockOp _ _ req) .writeBackSuperblockReqAdvanceLogStep =>
    { h with sent := (gammaJournal s).map (SuperblockWrite.mk req.superblock) }
  | .machineStep (.reqWriteSuperblockOp _ _ req) .writeBackSuperblockReqAdvanceLocationStep =>
    { h with sent := (frozenJournal s).map (SuperblockWrite.mk req.superblock) }
  | .machineStep _ _ => h
  | .diskInternalStep (.processWriteSuperblockStep _) =>
    { h with reached := h.sent.getD h.reached }
  | .crashStep => { h with sent := none }

/-- A run of the system from a newly made disk, with its history. -/
inductive Run (loc : Location) : Variables → History → Prop where
  | init {s : Variables} {onDisk : Superblock} (start : Init s loc)
      (selected : superblockOfDisk s.disk = some onDisk) : Run loc s ⟨⟨onDisk, []⟩, none⟩
  | step {s s' : Variables} {h : History} {vop : VOp} {step : Step} (run : Run loc s h)
      (next : NextStep s s' vop step) : Run loc s' (h.next s step)

/-- The history records what is on disk and what is on its way there. -/
structure Recorded (s : Variables) (h : History) : Prop where
  selected : superblockOfDisk s.disk = some h.reached.superblock
  journal : persistentJournal s = some h.reached.journal
  sent : ∀ r newSuperblock, s.machine = .ready r → r.newSuperblock = some newSuperblock →
    ∃ journal, h.sent = some ⟨newSuperblock, journal⟩ ∧
      diskJournal s.disk.journal (journalIntervalOfSuperblock newSuperblock) = some journal

section Histories

variable {disk disk' : JournalDisk.Variables} {dop : DiskOp} {h : History}
  {step : JournalCache.Step} {vop : VOp} {r : Ready} {loc : Location}

/-- A commit is under way after a step only if the step sent it, or it was under way before and the
step wrote no journal. -/
theorem machine_newSuperblock {r' : Ready} {newSuperblock : Superblock} (inv : Inv s)
    (next : Machine s s' dop vop step) (isReady : s'.machine = .ready r')
    (isNew : r'.newSuperblock = some newSuperblock) :
    step = .writeBackSuperblockReqAdvanceLogStep ∨
      step = .writeBackSuperblockReqAdvanceLocationStep ∨
      ∃ r, s.machine = .ready r ∧ r.newSuperblock = some newSuperblock ∧
        ∀ id1 id2 req, dop ≠ .reqWriteJournalOp id1 id2 req := by
  obtain ⟨machine, _⟩ := s
  obtain ⟨_, _⟩ := s'
  obtain ⟨cacheNext, _⟩ := next
  subst isReady
  cases step with
  | writeBackJournalReqStep jr =>
    obtain ⟨r, id1, id2, rfl, -, -, -, -, noWrite, -, -, -, same⟩ := cacheNext
    cases same
    have noNew := inv.toReady.cache.newSuperblock_eq_none noWrite
    cases noNew.symm.trans isNew
  | writeBackJournalRespStep =>
    obtain ⟨r, id, rfl, -, rfl, -, same⟩ := cacheNext
    cases same
    exact .inr (.inr ⟨r, rfl, isNew, nofun⟩)
  | writeBackSuperblockReqAdvanceLogStep => exact .inl rfl
  | writeBackSuperblockReqAdvanceLocationStep => exact .inr (.inl rfl)
  | writeBackSuperblockRespStep =>
    obtain ⟨r, r', id, which, old, rfl, -, -, isOld, same, location, log⟩ := cacheNext
    cases same
    obtain ⟨⟨isLog, -⟩ | ⟨isLocation, -⟩, -⟩ := inv.toReady.cache.commit old isOld
    · rw [(log isLog).2] at isNew
      cases isNew
    · rw [(location isLocation).2] at isNew
      cases isNew
  | pageInJournalReqStep which =>
    obtain ⟨l, id, _, -, -, -, -, -, front, back⟩ := cacheNext
    rcases eq_or_eq_otherSuperblock 0 which with rfl | rfl
    · cases (front rfl).2.2.2
    · cases (back rfl).2.2.2
  | pageInJournalRespStep which =>
    obtain ⟨l, id, _, -, -, -, front, back⟩ := cacheNext
    rcases eq_or_eq_otherSuperblock 0 which with rfl | rfl
    · cases (front rfl).2
    · cases (back rfl).2
  | pageInSuperblockReqStep which => cases cacheNext.choose_spec.choose_spec.2.2.2.2.2
  | pageInSuperblockRespStep which =>
    cases cacheNext.choose_spec.choose_spec.choose_spec.2.2.2.2
  | finishLoadingSuperblockPhaseStep =>
    cases cacheNext.choose_spec.choose_spec.choose_spec.2.2.2.2.2
  | finishLoadingOtherPhaseStep =>
    obtain ⟨l, replayJournal, _, -, -, -, -, -, -, -, -, same⟩ := cacheNext
    cases same
    cases isNew
  | freezeStep =>
    obtain ⟨r, rfl, -, rfl, -, -, -, same⟩ := cacheNext
    cases same
    exact .inr (.inr ⟨r, rfl, isNew, nofun⟩)
  | receiveFrozenLocStep =>
    obtain ⟨r, _, rfl, -, rfl, -, -, -, same⟩ := cacheNext
    cases same
    exact .inr (.inr ⟨r, rfl, isNew, nofun⟩)
  | advanceStep =>
    obtain ⟨r, uiop, rfl, -, rfl, -, same⟩ := cacheNext
    cases same
    exact .inr (.inr ⟨r, rfl, isNew, nofun⟩)
  | replayStep =>
    obtain ⟨r, uiop, replayJournal, rfl, -, rfl, -, same⟩ := cacheNext
    cases same
    exact .inr (.inr ⟨r, rfl, isNew, nofun⟩)
  | pushSyncReqStep id | popSyncReqStep id =>
    obtain ⟨-, rfl, -, same⟩ := cacheNext
    cases machine <;> cases same
    exact .inr (.inr ⟨_, rfl, isNew, nofun⟩)
  | noOpStep =>
    obtain ⟨-, isOp, rfl⟩ := cacheNext
    refine .inr (.inr ⟨r', rfl, isNew, fun id1 id2 req isWrite => ?_⟩)
    subst isWrite
    simp at isOp

theorem ReadyInv.diskJournal_advancedLog (inv : ReadyInv r disk) (shows : Shows ⟨.ready r, disk⟩ v)
    (noWrite : r.superblockWrite = none) (noFrozen : r.inMemoryJournalFrozen = []) :
    diskJournal disk.journal (journalIntervalOfSuperblock r.advancedLog) = some v.jGamma := by
  obtain ⟨notUpdated, selected⟩ := inv.selected_of_noWrite noWrite
  obtain ⟨_, isLogged, isGamma⟩ := exists_gammaLog shows.jGamma
  rw [gammaLog_of_not_updated selected fun location => notUpdated location.1] at isLogged
  rw [noFrozen, List.append_nil] at isGamma
  rw [← isGamma]
  exact isLogged

theorem ReadyInv.diskJournal_advancedLocation (inv : ReadyInv r disk)
    (shows : Shows ⟨.ready r, disk⟩ v) (isLoc : r.frozenLoc = some loc) :
    diskJournal disk.journal (journalIntervalOfSuperblock (r.advancedLocation loc)) =
      some v.j2 := by
  obtain ⟨_, selected⟩ := inv.wfDisk.exists_superblockOfDisk
  have isFrozenJournal := shows.j2
  rw [frozenJournal_of_isFrozen selected (inv.cache.frozenLoc loc isLoc).2] at isFrozenJournal
  exact isFrozenJournal

theorem History.next_reached (step : JournalCache.Step) :
    (h.next s (.machineStep dop step)).reached = h.reached := by
  unfold History.next
  split <;> simp_all

section

variable (recorded : Recorded s h) (inv : Inv s)

include recorded inv

theorem Recorded.machine (shows : Shows s v) (next : Machine s s' dop vop step) :
    Recorded s' (h.next s (.machineStep dop step)) := by
  have sameSuperblock := (unchanged_of_diskNext next.2).1
  obtain ⟨_, -, shows', sameJ1, -⟩ := machine_refines inv shows next
  refine ⟨?_, ?_, ?_⟩
  · rw [superblockOfDisk_congr sameSuperblock, History.next_reached]
    exact recorded.selected
  · rw [shows'.j1, sameJ1, ← shows.j1, History.next_reached]
    exact recorded.journal
  intro r' newSuperblock isReady isNew
  have underWay := machine_newSuperblock inv next isReady isNew
  obtain ⟨_, _⟩ := s
  obtain ⟨_, _⟩ := s'
  obtain ⟨cacheNext, diskNext⟩ := next
  subst isReady
  by_cases isLog : step = .writeBackSuperblockReqAdvanceLogStep
  · subst isLog
    obtain ⟨r, id, rfl, -, noCommit, -, noFrozen, -, rfl, same⟩ := cacheNext
    cases same
    cases isNew
    have noWrite := inv.toReady.cache.writeIffCommit.mpr noCommit
    refine ⟨v.jGamma, by rw [History.next, shows.jGamma, Option.map_some], ?_⟩
    obtain ⟨-, rfl⟩ := diskNext
    exact inv.toReady.diskJournal_advancedLog shows noWrite noFrozen
  by_cases isLocation : step = .writeBackSuperblockReqAdvanceLocationStep
  · subst isLocation
    obtain ⟨r, id, _, rfl, -, isLoc, -, -, -, -, -, -, rfl, same⟩ := cacheNext
    cases same
    cases isNew
    refine ⟨v.j2, by rw [History.next, shows.j2, Option.map_some], ?_⟩
    obtain ⟨-, rfl⟩ := diskNext
    exact inv.toReady.diskJournal_advancedLocation shows isLoc
  rcases underWay with log | location | ⟨r, rfl, isSent, notWrite⟩
  · exact absurd log isLog
  · exact absurd location isLocation
  · obtain ⟨journal, sent, isJournal⟩ := recorded.sent r newSuperblock rfl isSent
    have sameHistory : ∀ s, h.next s (.machineStep dop step) = h := by
      intro s
      unfold History.next
      split <;> simp_all
    rw [sameHistory]
    refine ⟨journal, sent, ?_⟩
    rw [(unchanged_of_diskNext diskNext).2 notWrite]
    exact isJournal

theorem Recorded.diskInternal {step : InternalStep} (next : DiskInternal s s' step vop) :
    Recorded s' (h.next s (.diskInternalStep step)) := by
  obtain ⟨_, disk⟩ := s
  obtain ⟨_, disk'⟩ := s'
  obtain ⟨which⟩ := step
  obtain ⟨rfl, process, rfl⟩ := next
  obtain ⟨pending, isPending, -⟩ := id process
  obtain ⟨r, rfl, -⟩ := inv.recorded.superblockWrites which pending isPending
  obtain ⟨newSuperblock, isNew, isDisk, selected, -⟩ := inv.toReady.processed process
  obtain ⟨journal, sent, isJournal⟩ := recorded.sent r newSuperblock rfl isNew
  have sameJournal : disk'.journal = disk.journal := by rw [show disk' = _ from isDisk]
  rw [History.next, sent, Option.getD_some]
  refine ⟨selected, ?_, fun r' other isReady isOther => ?_⟩
  · rw [persistentJournal_eq selected, ← isJournal, sameJournal]
  · cases isReady
    cases isNew.symm.trans isOther
    refine ⟨journal, rfl, ?_⟩
    rw [← isJournal, sameJournal]

theorem Recorded.crash (crash : Crash s s' vop) : Recorded s' (h.next s .crashStep) := by
  obtain ⟨-, machine, diskCrash⟩ := crash
  obtain ⟨sameSuperblock, sameJournal⟩ := persistentJournal_crash inv diskCrash
  refine ⟨sameSuperblock.trans recorded.selected, sameJournal.trans recorded.journal, ?_⟩
  intro r newSuperblock isReady
  rw [isReady] at machine
  cases machine

end

theorem Run.recorded (run : Run loc s h) : Inv s ∧ Recorded s h := by
  induction run with
  | init start selected =>
    obtain ⟨inv, shows⟩ := init_inv start
    refine ⟨inv, selected, shows.j1, fun r newSuperblock isReady => ?_⟩
    have machine := start.machine
    rw [isReady] at machine
    cases machine
  | step run next ih =>
    obtain ⟨inv, recorded⟩ := ih
    obtain ⟨v, shows⟩ := inv.exists_shows
    obtain ⟨v', inv', -⟩ := next_refines inv shows ⟨_, next⟩
    refine ⟨inv', ?_⟩
    rename_i step
    cases step with
    | machineStep dop machineStep => exact recorded.machine inv shows next
    | diskInternalStep step => exact recorded.diskInternal inv next
    | crashStep => exact recorded.crash inv next

end Histories

/-- The invariant of the journal system is inductive, and each step is one of the journal view.
After a crash at any point of a run, the selected superblock is the last one that reached the disk
and the region that it names holds the journal it was sent for, which a loaded machine replays. -/
theorem journal_crashSafe :
    (∀ s loc, Init s loc → Inv s ∧ ∃ v, I s = some v ∧ JournalView.Init v loc) ∧
    (∀ s s' vop, Inv s → Next s s' vop →
      Inv s' ∧ ∃ v v', I s = some v ∧ I s' = some v' ∧ JournalView.Next v v' vop) ∧
    (∀ loc s s' h vop, Run loc s h → Crash s s' vop →
      superblockOfDisk s'.disk = some h.reached.superblock ∧
      diskJournal s'.disk.journal (journalIntervalOfSuperblock h.reached.superblock) =
        some h.reached.journal) ∧
    (∀ loc s s' h dop vop, Run loc s h → Machine s s' dop vop .finishLoadingOtherPhaseStep →
      ∃ r, s'.machine = .ready r ∧ r.superblock = h.reached.superblock ∧
        r.replayJournal = h.reached.journal) := by
  refine ⟨?_, ?_, ?_, ?_⟩
  · intro s loc init
    obtain ⟨inv, shows⟩ := init_inv init
    exact ⟨inv, _, I_eq_some.mpr shows, rfl⟩
  · intro s s' vop inv next
    obtain ⟨v, shows⟩ := inv.exists_shows
    obtain ⟨v', inv', shows', viewNext⟩ := next_refines inv shows next
    exact ⟨inv', v, v', I_eq_some.mpr shows, I_eq_some.mpr shows', viewNext⟩
  · intro loc s s' h vop run crash
    obtain ⟨inv, recorded⟩ := run.recorded
    obtain ⟨selected, journal, -⟩ := recorded.crash inv crash
    exact ⟨selected, (persistentJournal_eq selected).symm.trans journal⟩
  · intro loc s s' h dop vop run next
    obtain ⟨inv, recorded⟩ := run.recorded
    obtain ⟨_, _⟩ := s
    obtain ⟨⟨l, _, _, rfl, -, -, -, -, front, back, parses, isReady⟩, -⟩ := next
    have loading := inv.toLoadingOther
    have isReplay := loading.persistentJournal_eq front back (.loadingOther l) parses
    refine ⟨_, isReady, Option.mem_unique loading.selected recorded.selected, ?_⟩
    exact Option.mem_unique isReplay recorded.journal

end VerifiedBetrfs.JournalSystem
