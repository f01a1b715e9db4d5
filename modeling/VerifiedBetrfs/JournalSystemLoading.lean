import VerifiedBetrfs.JournalSystemSteps

/-!
# Crashes and loading

After a crash the cache reads both superblocks and then the interval that the newer one names.
-/

namespace VerifiedBetrfs.JournalSystem

open Function (update update_of_ne update_self)

open DiskLayout SectorType Journal JournalRanges JournalIntervals ViewOp JournalDisk JournalCache

/-- No write is pending. -/
structure QuietDisk (disk : JournalDisk.Variables) : Prop where
  wfDisk : WFDisk disk
  noSuperblockWrites : ∀ which, disk.reqWriteSuperblock which = none
  noJournalWrites : ∀ id, disk.reqWriteJournals.lookup id = none
  contiguous : ∀ id interval, disk.reqReadJournals.lookup id = some interval →
    ContiguousJournalInterval interval
  journalLength : disk.journal.length = numJournalBlocks

section Quiet

variable {machine : JournalCache.Variables} {disk disk' : JournalDisk.Variables}

theorem Inv.quietDisk (inv : Inv ⟨machine, disk⟩) (notReady : ∀ r, machine ≠ .ready r) :
    QuietDisk disk where
  __ := inv
  noSuperblockWrites which := by
    refine Option.eq_none_iff_forall_ne_some.mpr fun pending isPending => ?_
    obtain ⟨r, isReady, _⟩ := inv.recorded.superblockWrites which pending isPending
    exact notReady r isReady
  noJournalWrites id := by
    refine Option.eq_none_iff_forall_ne_some.mpr fun interval isWrite => ?_
    obtain ⟨r, isReady, _⟩ := inv.recorded.journalWrites id interval isWrite
    exact notReady r isReady
  contiguous := inv.readsDontOverlap.1

theorem QuietDisk.writesDontOverlap (quiet : QuietDisk disk) :
    WriteJournalRequestsDontOverlap disk.reqWriteJournals := by
  refine ⟨fun id interval isWrite => ?_, fun id _ interval _ isWrite => ?_⟩
  · cases (quiet.noJournalWrites id).symm.trans isWrite
  · cases (quiet.noJournalWrites id).symm.trans isWrite

/-- While the cache is not ready, the reads that it waits for are all there is to say about the
requests. -/
theorem QuietDisk.toInv (quiet : QuietDisk disk) {v : JournalView.Variables}
    (shows : Shows ⟨machine, disk⟩ v) (cache : JournalCache.Inv machine)
    (notReady : ∀ r, machine ≠ .ready r)
    (loadingSuperblock : ∀ l, machine = .loadingSuperblock l → InvLoadingSuperblock l disk)
    (loadingOther : ∀ l, machine = .loadingOther l → InvLoadingOther l disk)
    (superblockReads : ∀ which, ∀ id ∈ disk.reqReadSuperblock which,
      ∃ l slot, machine = .loadingSuperblock l ∧ l.outstandingSuperblockRead slot = some id)
    (superblockReadsDiffer : Disjoint (disk.reqReadSuperblock 0) (disk.reqReadSuperblock 1))
    (journalReads : ∀ id interval, disk.reqReadJournals.lookup id = some interval →
      ∃ l, machine = .loadingOther l ∧
        (l.journalFrontRead = some id ∨ l.journalBackRead = some id)) :
    Inv ⟨machine, disk⟩ where
  cache := cache
  wfDisk := quiet.wfDisk
  ready r isReady := absurd isReady (notReady r)
  loadingSuperblock := loadingSuperblock
  loadingOther := loadingOther
  writesDontOverlap := quiet.writesDontOverlap
  readsDontOverlap := by
    refine ⟨quiet.contiguous, fun _ id _ interval _ isWrite => ?_⟩
    cases (quiet.noJournalWrites id).symm.trans isWrite
  recorded := {
    superblockWrites := fun which _ isPending => by
      cases (quiet.noSuperblockWrites which).symm.trans isPending
    superblockWritesDiffer := fun _ _ isPending _ => by
      cases (quiet.noSuperblockWrites 0).symm.trans isPending
    journalWrites := fun id _ isWrite => by
      cases (quiet.noJournalWrites id).symm.trans isWrite
    superblockReads := superblockReads
    superblockReadsDiffer := superblockReadsDiffer
    journalReads := journalReads }
  persistentJournal := by simp [shows.j1]
  frozenJournal := by simp [shows.j2]
  ephemeralJournal := by simp [shows.j3]
  gammaJournal := by simp [shows.jGamma]
  journalLength := quiet.journalLength

end Quiet

/-- The invariant while the superblocks are read. -/
structure LoadingSuperblockInv (l : LoadingSuperblock) (disk : JournalDisk.Variables) : Prop
    extends QuietDisk disk where
  cache : JournalCache.InvLoadingSuperblock l
  success : ∀ which superblock, l.superblock which = .superblockSuccess superblock →
    disk.superblock which = some superblock
  superblockReads : ∀ which, ∀ id ∈ disk.reqReadSuperblock which,
    ∃ slot, l.outstandingSuperblockRead slot = some id
  superblockReadsDiffer : ∀ which slot id, id ∈ disk.reqReadSuperblock which →
    id ∈ disk.reqReadSuperblock slot → which = slot
  noJournalReads : ∀ id, disk.reqReadJournals.lookup id = none

section LoadingSuperblocks

variable {l : LoadingSuperblock} {disk disk' : JournalDisk.Variables}
  {v : JournalView.Variables} {id : ReqId} {which : Fin 2}

theorem Inv.toLoadingSuperblock (inv : Inv ⟨.loadingSuperblock l, disk⟩) :
    LoadingSuperblockInv l disk where
  __ := inv.quietDisk nofun
  __ := inv.loadingSuperblock l rfl
  cache := inv.cache
  superblockReads which id isRead := by
    obtain ⟨l', slot, same, recorded⟩ := inv.recorded.superblockReads which id isRead
    cases same
    exact ⟨slot, recorded⟩
  superblockReadsDiffer which slot id isRead isRead' := by
    have differ := Finset.disjoint_left.mp inv.recorded.superblockReadsDiffer
    match which, slot with
    | 0, 0 | 1, 1 => rfl
    | 0, 1 => exact absurd isRead' (differ isRead)
    | 1, 0 => exact absurd isRead (differ isRead')
  noJournalReads id := by
    refine Option.eq_none_iff_forall_ne_some.mpr fun interval isRead => ?_
    obtain ⟨l', absurd, _⟩ := inv.recorded.journalReads id interval isRead
    cases absurd

theorem LoadingSuperblockInv.toInv (inv : LoadingSuperblockInv l disk)
    (shows : Shows ⟨.loadingSuperblock l, disk⟩ v) : Inv ⟨.loadingSuperblock l, disk⟩ := by
  refine inv.toQuietDisk.toInv shows inv.cache nofun ?_ nofun ?_ ?_ ?_
  · rintro _ ⟨⟩
    exact ⟨inv.success⟩
  · intro which id isRead
    obtain ⟨slot, recorded⟩ := inv.superblockReads which id isRead
    exact ⟨l, slot, rfl, recorded⟩
  · refine Finset.disjoint_left.mpr fun id isRead isRead' => ?_
    cases inv.superblockReadsDiffer 0 1 id isRead isRead'
  · intro id _ isRead
    cases (inv.noJournalReads id).symm.trans isRead

theorem LoadingSuperblockInv.pageInReq (inv : LoadingSuperblockInv l disk)
    (noRead : l.outstandingSuperblockRead which = none)
    (unfinished : l.superblock which = .superblockUnfinished)
    (recv : RecvReadSuperblock disk disk' id which) :
    LoadingSuperblockInv
      { l with
        outstandingSuperblockRead := update l.outstandingSuperblockRead which (some id) }
      disk' := by
  obtain ⟨fresh, rfl⟩ := recv
  have isOld : ∀ slot other, other ∈ update disk.reqReadSuperblock which
      (insert id (disk.reqReadSuperblock which)) slot →
      (slot = which ∧ other = id) ∨ (other ≠ id ∧ other ∈ disk.reqReadSuperblock slot) := by
    intro slot other isRead
    by_cases same : slot = which
    · rw [same, update_self, Finset.mem_insert] at isRead
      rcases isRead with isId | isRead
      · exact .inl ⟨same, isId⟩
      · refine .inr ⟨fun isId => ?_, by rw [same]; exact isRead⟩
        exact fresh which (isId ▸ isRead)
    · rw [update_of_ne same] at isRead
      exact .inr ⟨fun isId => fresh slot (isId ▸ isRead), isRead⟩
  have keeps : ∀ slot, l.superblock slot ≠ .superblockUnfinished →
      update l.outstandingSuperblockRead which (some id) slot =
        l.outstandingSuperblockRead slot := by
    intro slot finished
    refine update_of_ne (fun same => ?_) _ _
    rw [same] at finished
    exact finished unfinished
  exact {
    inv with
    cache := {
      success := fun slot superblock isSuccess => by
        refine ⟨(keeps slot ?_).trans (inv.cache.success slot superblock isSuccess).1,
          (inv.cache.success slot superblock isSuccess).2⟩
        rw [isSuccess]
        exact SuperblockReadResult.noConfusion
      corruption := fun slot isCorrupt => by
        refine (keeps slot ?_).trans (inv.cache.corruption slot isCorrupt)
        rw [isCorrupt]
        exact SuperblockReadResult.noConfusion }
    superblockReads := fun slot other isRead => by
      rcases isOld slot other isRead with ⟨-, rfl⟩ | ⟨-, isRead⟩
      · exact ⟨which, update_self _ _ _⟩
      · obtain ⟨recordedAt, recorded⟩ := inv.superblockReads slot other isRead
        refine ⟨recordedAt, (update_of_ne (fun same => ?_) _ _).trans recorded⟩
        rw [same, noRead] at recorded
        cases recorded
    superblockReadsDiffer := fun first second other isFirst isSecond => by
      rcases isOld first other isFirst with ⟨sameFirst, rfl⟩ | ⟨differ, isFirst⟩
      · rcases isOld second other isSecond with ⟨sameSecond, -⟩ | ⟨differ, -⟩
        · rw [sameFirst, sameSecond]
        · exact absurd rfl differ
      · rcases isOld second other isSecond with ⟨-, isId⟩ | ⟨-, isSecond⟩
        · exact absurd isId differ
        · exact inv.superblockReadsDiffer first second other isFirst isSecond }

variable {superblock : Option Superblock}

theorem readResult_eq_success {value : Superblock}
    (isSuccess : readResult superblock = .superblockSuccess value) :
    superblock = some value ∧ WFSuperblock value := by
  cases superblock with
  | none => cases isSuccess
  | some superblock =>
    simp only [readResult] at isSuccess
    split at isSuccess
    · next wf =>
        cases isSuccess
        exact ⟨rfl, wf⟩
    · cases isSuccess

theorem mem_of_ackReadSuperblock {slot : Fin 2} {other : ReqId}
    (isRead : other ∈ update disk.reqReadSuperblock which
      ((disk.reqReadSuperblock which).erase id) slot) :
    other ∈ disk.reqReadSuperblock slot ∧ (slot = which → other ≠ id) := by
  by_cases same : slot = which
  · subst same
    rw [update_self, Finset.mem_erase] at isRead
    exact ⟨isRead.2, fun _ => isRead.1⟩
  · rw [update_of_ne same] at isRead
    exact ⟨isRead, fun isWhich => absurd isWhich same⟩

theorem LoadingSuperblockInv.pageInResp (inv : LoadingSuperblockInv l disk)
    (isOutstanding : l.outstandingSuperblockRead which = some id)
    (ack : AckReadSuperblock disk disk' id which superblock) :
    LoadingSuperblockInv
      { l with
        outstandingSuperblockRead := update l.outstandingSuperblockRead which none
        superblock := update l.superblock which (readResult superblock) }
      disk' := by
  obtain ⟨isRead, isAnswer, rfl⟩ := ack
  have isNone : ∀ slot, l.outstandingSuperblockRead slot = none →
      update l.outstandingSuperblockRead which none slot = none := by
    intro slot noRead
    by_cases same : slot = which
    · rw [same, update_self]
    · rw [update_of_ne same, noRead]
  have isSuccess : ∀ slot value,
      update l.superblock which (readResult superblock) slot = .superblockSuccess value →
      (slot = which ∧ superblock = some value ∧ WFSuperblock value) ∨
      (slot ≠ which ∧ l.superblock slot = .superblockSuccess value) := by
    intro slot value success
    by_cases same : slot = which
    · rw [same, update_self] at success
      exact .inl ⟨same, readResult_eq_success success⟩
    · rw [update_of_ne same] at success
      exact .inr ⟨same, success⟩
  exact {
    inv with
    cache := {
      success := fun slot value success => by
        rcases isSuccess slot value success with ⟨rfl, -, wf⟩ | ⟨-, success⟩
        · exact ⟨update_self _ _ _, wf⟩
        · obtain ⟨noRead, wf⟩ := inv.cache.success slot value success
          exact ⟨isNone slot noRead, wf⟩
      corruption := fun slot corrupt => by
        by_cases same : slot = which
        · rw [same]
          exact update_self _ _ _
        · exact isNone slot (inv.cache.corruption slot
            ((update_of_ne same _ _).symm.trans corrupt)) }
    success := fun slot value success => by
      rcases isSuccess slot value success with ⟨rfl, rfl, -⟩ | ⟨-, success⟩
      · exact (isAnswer (Option.some_ne_none _)).symm
      · exact inv.success slot value success
    superblockReads := fun slot other isOther => by
      obtain ⟨isOther, differ⟩ := mem_of_ackReadSuperblock isOther
      obtain ⟨recordedAt, recorded⟩ := inv.superblockReads slot other isOther
      refine ⟨recordedAt, (update_of_ne (fun same => ?_) _ _).trans recorded⟩
      -- The identifier answered is on the queue of one superblock only.
      rw [same, isOutstanding] at recorded
      cases recorded
      exact differ (inv.superblockReadsDiffer slot which id isOther isRead) rfl
    superblockReadsDiffer := fun first second other isFirst isSecond =>
      inv.superblockReadsDiffer first second other (mem_of_ackReadSuperblock isFirst).1
        (mem_of_ackReadSuperblock isSecond).1 }

theorem LoadingSuperblockInv.ignoreRead (inv : LoadingSuperblockInv l disk)
    (ack : AckReadSuperblock disk disk' id which superblock) : LoadingSuperblockInv l disk' := by
  obtain ⟨-, -, rfl⟩ := ack
  exact {
    inv with
    superblockReads := fun slot other isOther =>
      inv.superblockReads slot other (mem_of_ackReadSuperblock isOther).1
    superblockReadsDiffer := fun first second other isFirst isSecond =>
      inv.superblockReadsDiffer first second other (mem_of_ackReadSuperblock isFirst).1
        (mem_of_ackReadSuperblock isSecond).1 }

end LoadingSuperblocks

section Parts

variable {disk disk' : JournalDisk.Variables} {interval interval' : Option JournalInterval}
  {read read' : Option ReqId} {loaded loaded' : Option JournalRange} {id : ReqId}
  {requested : JournalInterval}

theorem loadedPart_of_recvReadJournal (recv : RecvReadJournal disk disk' id requested) :
    LoadedPart disk' (some requested) (some id) none := by
  obtain ⟨-, -, rfl⟩ := recv
  refine ⟨fun other part isOther isPart => ?_, fun _ absent => by cases absent⟩
  cases isOther
  simp only [FiniteMap.lookup_insert, if_true] at isPart
  exact isPart

/-- The cache forgets a read of the other part whose identifier is used
again. -/
theorem LoadedPart.otherRequested (part : LoadedPart disk interval read loaded)
    (recv : RecvReadJournal disk disk' id requested) :
    LoadedPart disk' interval (if read = some id then none else read) loaded := by
  obtain ⟨-, -, rfl⟩ := recv
  refine ⟨fun other otherPart isOther isPart => ?_, fun jr isLoaded => ?_⟩
  · split at isOther
    · cases isOther
    · next differ =>
        rw [isOther] at differ
        obtain ⟨same, -⟩ | ⟨-, isPart⟩ := FiniteMap.lookup_insert_eq_some.mp isPart
        · exact absurd (congrArg some same) differ
        · exact part.1 other otherPart isOther isPart
  · obtain ⟨rfl, isInterval⟩ := part.2 jr isLoaded
    exact ⟨by simp, isInterval⟩

theorem LoadedPart.answered {journal : JournalRange}
    (part : LoadedPart disk interval (some id) loaded)
    (ack : AckReadJournal disk disk' id (some journal)) :
    LoadedPart disk' interval none (some journal) := by
  obtain ⟨asked, isAsked, -, isAnswer, rfl⟩ := ack
  refine ⟨nofun, fun jr isLoaded => ⟨rfl, asked, ?_, ?_⟩⟩
  · exact part.1 id asked rfl isAsked
  · cases isLoaded
    exact isAnswer (Option.some_ne_none _)

theorem LoadedPart.exists_range (part : LoadedPart disk (some requested) read loaded)
    (isLoaded : loaded ≠ none) :
    ∃ jr, loaded = some jr ∧ diskJournalRange disk.journal requested = some jr := by
  obtain ⟨jr, isRange⟩ := Option.ne_none_iff_exists'.mp isLoaded
  obtain ⟨-, _, isOther, onDisk⟩ := part.2 jr isRange
  cases isOther
  exact ⟨jr, isRange, onDisk⟩

theorem LoadedPart.interval_ne_none (part : LoadedPart disk interval read loaded)
    (isLoaded : loaded ≠ none) : interval ≠ none := by
  obtain ⟨jr, isRange⟩ := Option.ne_none_iff_exists'.mp isLoaded
  obtain ⟨-, _, rfl, -⟩ := part.2 jr isRange
  exact Option.some_ne_none _

theorem LoadedPart.otherAnswered {answer : Option JournalRange}
    (part : LoadedPart disk interval read loaded)
    (ack : AckReadJournal disk disk' id answer) : LoadedPart disk' interval read loaded := by
  obtain ⟨_, -, -, -, rfl⟩ := ack
  exact ⟨fun other otherPart isOther isPart =>
    part.1 other otherPart isOther (FiniteMap.lookup_of_erase isPart), part.2⟩

theorem LoadedPart.read_eq_none (part : LoadedPart disk interval read loaded)
    (isPart : read ≠ none → interval ≠ none) (isLoaded : interval ≠ none → loaded ≠ none) :
    read = none := by
  by_contra isRead
  obtain ⟨jr, isRange⟩ := Option.ne_none_iff_exists'.mp (isLoaded (isPart isRead))
  exact isRead (part.2 jr isRange).1

/-- Two parts of the journal that are loaded one beside the other.  The disk reads nothing else. -/
structure LoadedParts (disk : JournalDisk.Variables) (interval : Option JournalInterval)
    (read : Option ReqId) (loaded : Option JournalRange) (interval' : Option JournalInterval)
    (read' : Option ReqId) (loaded' : Option JournalRange) : Prop where
  part : LoadedPart disk interval read loaded
  part' : LoadedPart disk interval' read' loaded'
  isPart : read ≠ none → interval ≠ none
  isPart' : read' ≠ none → interval' ≠ none
  differ : ∀ id, read = some id → read' ≠ some id
  reads : ∀ id requested, disk.reqReadJournals.lookup id = some requested →
    read = some id ∨ read' = some id

namespace LoadedParts

theorem symm (parts : LoadedParts disk interval read loaded interval' read' loaded') :
    LoadedParts disk interval' read' loaded' interval read loaded :=
  ⟨parts.part', parts.part, parts.isPart', parts.isPart,
    fun id isRead' isRead => parts.differ id isRead isRead',
    fun id requested isRead => (parts.reads id requested isRead).symm⟩

theorem request (parts : LoadedParts disk (some requested) none none interval' read' loaded')
    (recv : RecvReadJournal disk disk' id requested) :
    LoadedParts disk' (some requested) (some id) none interval'
      (if read' = some id then none else read') loaded' where
  part := loadedPart_of_recvReadJournal recv
  part' := parts.part'.otherRequested recv
  isPart _ := Option.some_ne_none _
  isPart' isRead := parts.isPart' fun noRead => isRead (by simp [noRead])
  differ other isOther := by
    cases isOther
    split
    · exact (Option.some_ne_none _).symm
    · assumption
  reads other part isRead := by
    obtain ⟨-, -, rfl⟩ := recv
    obtain ⟨rfl, -⟩ | ⟨differ, isOld⟩ := FiniteMap.lookup_insert_eq_some.mp isRead
    · exact .inl rfl
    · rcases parts.reads other part isOld with absent | recorded
      · cases absent
      · simp only [recorded, Option.some.injEq, differ, if_false, or_true]

theorem ignore {answer : Option JournalRange}
    (parts : LoadedParts disk interval read loaded interval' read' loaded')
    (ack : AckReadJournal disk disk' id answer) :
    LoadedParts disk' interval read loaded interval' read' loaded' where
  __ := parts
  part := parts.part.otherAnswered ack
  part' := parts.part'.otherAnswered ack
  reads other requested isRead := by
    obtain ⟨_, -, -, -, rfl⟩ := ack
    exact parts.reads other requested (FiniteMap.lookup_of_erase isRead)

theorem answer {journal : JournalRange}
    (parts : LoadedParts disk interval (some id) loaded interval' read' loaded')
    (ack : AckReadJournal disk disk' id (some journal)) :
    LoadedParts disk' interval none (some journal) interval' read' loaded' where
  part := parts.part.answered ack
  part' := parts.part'.otherAnswered ack
  isPart absent := absurd rfl absent
  isPart' := parts.isPart'
  differ := nofun
  reads other requested isRead := by
    obtain ⟨_, -, -, -, rfl⟩ := ack
    obtain ⟨differ, isOld⟩ := FiniteMap.lookup_erase_eq_some.mp isRead
    rcases parts.reads other requested isOld with same | recorded
    · exact absurd (Option.some.inj same).symm differ
    · exact .inr recorded

end LoadedParts

end Parts

/-- The invariant while the journal is read. -/
structure LoadingOtherInv (l : LoadingOther) (disk : JournalDisk.Variables) : Prop
    extends QuietDisk disk where
  wfSuperblock : WFSuperblock l.superblock
  selected : superblockOfDisk disk = some l.superblock
  current : disk.superblock l.whichSuperblock = some l.superblock
  noSuperblockReads : ∀ which, disk.reqReadSuperblock which = ∅
  parts : LoadedParts disk (journalFrontIntervalOfSuperblock l.superblock) l.journalFrontRead
    l.journalFront (journalBackIntervalOfSuperblock l.superblock) l.journalBackRead l.journalBack

section LoadingJournal

variable {l : LoadingOther} {disk disk' : JournalDisk.Variables} {v : JournalView.Variables}

theorem Inv.toLoadingOther (inv : Inv ⟨.loadingOther l, disk⟩) : LoadingOtherInv l disk := by
  have cache : JournalCache.InvLoadingOther l := inv.cache
  have loading := inv.loadingOther l rfl
  refine ⟨inv.quietDisk nofun, cache.superblock, loading.selected, loading.current, ?_,
    loading.front, loading.back, cache.frontRead, cache.backRead, loading.readsDiffer, ?_⟩
  · intro which
    refine Finset.eq_empty_of_forall_notMem fun id isRead => ?_
    obtain ⟨l', _, absurd, _⟩ := inv.recorded.superblockReads which id isRead
    cases absurd
  · intro id interval isRead
    obtain ⟨l', same, recorded⟩ := inv.recorded.journalReads id interval isRead
    cases same
    exact recorded

theorem LoadingOtherInv.cache (inv : LoadingOtherInv l disk) : JournalCache.InvLoadingOther l :=
  ⟨inv.wfSuperblock, inv.parts.isPart, inv.parts.part.interval_ne_none, inv.parts.isPart',
    inv.parts.part'.interval_ne_none⟩

theorem LoadingOtherInv.toInv (inv : LoadingOtherInv l disk)
    (shows : Shows ⟨.loadingOther l, disk⟩ v) : Inv ⟨.loadingOther l, disk⟩ := by
  refine inv.toQuietDisk.toInv shows inv.cache nofun nofun ?_ ?_ ?_ ?_
  · rintro _ ⟨⟩
    exact ⟨inv.selected, inv.parts.part, inv.parts.part', inv.parts.differ, inv.current⟩
  · intro which id isRead
    rw [inv.noSuperblockReads which] at isRead
    exact absurd isRead (Finset.notMem_empty id)
  · simp only [inv.noSuperblockReads, disjoint_self, Finset.bot_eq_empty]
  · exact fun id interval isRead => ⟨l, rfl, inv.parts.reads id interval isRead⟩

theorem LoadingSuperblockInv.finish {l : LoadingSuperblock} {superblock1 superblock2 : Superblock}
    (inv : LoadingSuperblockInv l disk) (first : l.superblock 0 = .superblockSuccess superblock1)
    (second : l.superblock 1 = .superblockSuccess superblock2) :
    LoadingOtherInv
      { superblock := selectSuperblock superblock1 superblock2
        whichSuperblock := selectSuperblockIndex superblock1 superblock2
        journalFrontRead := none
        journalBackRead := none
        journalFront := none
        journalBack := none
        syncReqs := l.syncReqs } disk := by
  obtain ⟨noRead1, wf1⟩ := inv.cache.success 0 superblock1 first
  obtain ⟨noRead2, wf2⟩ := inv.cache.success 1 superblock2 second
  have onDisk1 := inv.success 0 superblock1 first
  have onDisk2 := inv.success 1 superblock2 second
  have selected : superblockOfDisk disk = some (selectSuperblock superblock1 superblock2) :=
    superblockOfDisk_eq_some.mpr ⟨superblock1, superblock2, ⟨onDisk1, wf1⟩, ⟨onDisk2, wf2⟩, rfl⟩
  exact {
    inv with
    wfSuperblock := superblockOfDisk_wf selected
    selected := selected
    current := by
      simp only [selectSuperblock, selectSuperblockIndex]
      split
      · simpa using onDisk2
      · simpa using onDisk1
    noSuperblockReads := fun which => by
      refine Finset.eq_empty_of_forall_notMem fun id isRead => ?_
      obtain ⟨slot, recorded⟩ := inv.superblockReads which id isRead
      have noRead : ∀ slot, l.outstandingSuperblockRead slot = none :=
        Fin.forall_fin_two.mpr ⟨noRead1, noRead2⟩
      cases (noRead slot).symm.trans recorded
    parts := {
      part := ⟨nofun, nofun⟩
      part' := ⟨nofun, nofun⟩
      isPart := fun absent => absurd rfl absent
      isPart' := fun absent => absurd rfl absent
      differ := nofun
      reads := fun id _ isRead => by cases (inv.noJournalReads id).symm.trans isRead } }

section

variable (inv : LoadingOtherInv l disk) {id : ReqId} {requested : JournalInterval}
  {journal : JournalRange}

include inv

theorem LoadingOtherInv.afterRequest {front back : Option ReqId}
    (recv : RecvReadJournal disk disk' id requested)
    (parts : LoadedParts disk' (journalFrontIntervalOfSuperblock l.superblock) front
      l.journalFront (journalBackIntervalOfSuperblock l.superblock) back l.journalBack) :
    LoadingOtherInv { l with journalFrontRead := front, journalBackRead := back } disk' := by
  obtain ⟨-, contiguous, rfl⟩ := recv
  refine { inv with contiguous := fun other interval isRead => ?_, parts := parts }
  obtain ⟨-, rfl⟩ | ⟨-, isOld⟩ := FiniteMap.lookup_insert_eq_some.mp isRead
  · exact contiguous
  · exact inv.contiguous other interval isOld

theorem LoadingOtherInv.pageInFrontReq
    (isFront : journalFrontIntervalOfSuperblock l.superblock = some requested)
    (noRead : l.journalFrontRead = none) (notLoaded : l.journalFront = none)
    (recv : RecvReadJournal disk disk' id requested) :
    LoadingOtherInv
      { l with
        journalFrontRead := some id
        journalBackRead := if l.journalBackRead = some id then none else l.journalBackRead }
      disk' := by
  have parts := inv.parts
  rw [isFront, noRead, notLoaded] at parts
  refine inv.afterRequest recv ?_
  rw [isFront, notLoaded]
  exact parts.request recv

theorem LoadingOtherInv.pageInBackReq
    (isBack : journalBackIntervalOfSuperblock l.superblock = some requested)
    (noRead : l.journalBackRead = none) (notLoaded : l.journalBack = none)
    (recv : RecvReadJournal disk disk' id requested) :
    LoadingOtherInv
      { l with
        journalBackRead := some id
        journalFrontRead := if l.journalFrontRead = some id then none else l.journalFrontRead }
      disk' := by
  have parts := inv.parts.symm
  rw [isBack, noRead, notLoaded] at parts
  refine inv.afterRequest recv ?_
  rw [isBack, notLoaded]
  exact (parts.request recv).symm

theorem LoadingOtherInv.afterAnswer {answer : Option JournalRange}
    {frontRead backRead : Option ReqId}
    {front back : Option JournalRange} (ack : AckReadJournal disk disk' id answer)
    (parts : LoadedParts disk' (journalFrontIntervalOfSuperblock l.superblock) frontRead front
      (journalBackIntervalOfSuperblock l.superblock) backRead back) :
    LoadingOtherInv
      { l with
        journalFrontRead := frontRead
        journalFront := front
        journalBackRead := backRead
        journalBack := back }
      disk' := by
  obtain ⟨_, -, -, -, rfl⟩ := ack
  refine { inv with contiguous := fun other interval isRead => ?_, parts := parts }
  exact inv.contiguous other interval (FiniteMap.lookup_of_erase isRead)

theorem LoadingOtherInv.pageInFrontResp (isRead : l.journalFrontRead = some id)
    (ack : AckReadJournal disk disk' id (some journal)) :
    LoadingOtherInv { l with journalFrontRead := none, journalFront := some journal } disk' := by
  have parts := inv.parts
  rw [isRead] at parts
  exact inv.afterAnswer ack (parts.answer ack)

theorem LoadingOtherInv.pageInBackResp (isRead : l.journalBackRead = some id)
    (ack : AckReadJournal disk disk' id (some journal)) :
    LoadingOtherInv { l with journalBackRead := none, journalBack := some journal } disk' := by
  have parts := inv.parts.symm
  rw [isRead] at parts
  exact inv.afterAnswer ack (parts.answer ack).symm

variable
    (frontLoaded : journalFrontIntervalOfSuperblock l.superblock ≠ none → l.journalFront ≠ none)
    (backLoaded : journalBackIntervalOfSuperblock l.superblock ≠ none → l.journalBack ≠ none)

include frontLoaded backLoaded

theorem LoadingOtherInv.diskJournalRange_eq :
    diskJournalRange disk.journal (journalIntervalOfSuperblock l.superblock) =
      some l.fullRange := by
  obtain ⟨startLt, _, -⟩ := inv.wfSuperblock
  have isFront := inv.parts.part
  have isBack := inv.parts.part'
  rw [LoadingOther.fullRange]
  simp only [journalIntervalOfSuperblock]
  by_cases empty : l.superblock.journalLen = 0
  · rw [if_neg (by simp [journalBackIntervalOfSuperblock, journalBackInterval, empty]),
      if_neg (by simp [journalFrontIntervalOfSuperblock, journalFrontInterval, empty]), empty]
    exact diskJournalRange_eq_some.mpr ⟨⟨startLt, Nat.zero_le _⟩, inv.journalLength,
      Cyclic.slice_zero (by rw [inv.journalLength]; exact startLt)⟩
  · by_cases fits : l.superblock.journalLen ≤ numJournalBlocks - l.superblock.journalStart
    · have noBack : journalBackIntervalOfSuperblock l.superblock = none := by
        rw [journalBackIntervalOfSuperblock, journalBackInterval, if_neg empty, if_pos fits]
      have front : journalFrontIntervalOfSuperblock l.superblock =
          some ⟨l.superblock.journalStart, l.superblock.journalLen⟩ := by
        rw [journalFrontIntervalOfSuperblock, journalFrontInterval, if_neg empty, if_pos fits]
      rw [front] at isFront frontLoaded
      obtain ⟨jr, isLoaded, isRange⟩ := isFront.exists_range (frontLoaded (Option.some_ne_none _))
      rw [if_neg (by simp [noBack]), if_pos (by simp [front]), isLoaded, isRange, Option.getD_some]
    · have front : journalFrontIntervalOfSuperblock l.superblock =
          some ⟨l.superblock.journalStart, numJournalBlocks - l.superblock.journalStart⟩ := by
        rw [journalFrontIntervalOfSuperblock, journalFrontInterval, if_neg empty, if_neg fits]
      have back : journalBackIntervalOfSuperblock l.superblock = some ⟨0,
          l.superblock.journalLen - (numJournalBlocks - l.superblock.journalStart)⟩ := by
        rw [journalBackIntervalOfSuperblock, journalBackInterval, if_neg empty, if_neg fits]
      rw [front] at isFront frontLoaded
      rw [back] at isBack backLoaded
      obtain ⟨jr, isLoaded, isRange⟩ := isFront.exists_range (frontLoaded (Option.some_ne_none _))
      obtain ⟨_, isLoaded', isRange'⟩ := isBack.exists_range (backLoaded (Option.some_ne_none _))
      rw [if_pos (by simp [back]), isLoaded, isLoaded', Option.getD_some, Option.getD_some]
      have wraps : journalPosAdd l.superblock.journalStart
          (numJournalBlocks - l.superblock.journalStart) = 0 := by
        rw [journalPosAdd, Cyclic.posAdd, if_pos (by omega)]
        omega
      rw [← wraps] at isRange'
      have appended := diskJournalRange_append (by omega) isRange isRange'
      rwa [show numJournalBlocks - l.superblock.journalStart +
        (l.superblock.journalLen - (numJournalBlocks - l.superblock.journalStart)) =
          l.superblock.journalLen by omega] at appended

variable {replayJournal : List JournalEntry}

theorem LoadingOtherInv.persistentJournal_eq (machine : JournalCache.Variables)
    (parses : JournalRangeParses l.fullRange replayJournal) :
    persistentJournal ⟨machine, disk⟩ = some replayJournal := by
  rw [JournalSystem.persistentJournal_eq inv.selected, diskJournal,
    inv.diskJournalRange_eq frontLoaded backLoaded, Option.bind_some, parses]

theorem LoadingOtherInv.finish {frozenJournalPosition : Nat} :
    ReadyInv (l.finished replayJournal frozenJournalPosition) disk :=
  { inv with
    cache := inv.cache.finished
    selected := .inl inv.selected
    journalWrites := fun id _ isWrite => by
      cases (inv.noJournalWrites id).symm.trans isWrite
    writesDontOverlap := inv.writesDontOverlap
    superblockWrites := nofun
    recordedSuperblockWrites := fun which _ isPending => by
      cases (inv.noSuperblockWrites which).symm.trans isPending
    superblockWritesDiffer := fun _ _ isPending _ => by
      cases (inv.noSuperblockWrites 0).symm.trans isPending
    noJournalReads := fun id => by
      refine Option.eq_none_iff_forall_ne_some.mpr fun interval isRead => ?_
      have parts := inv.parts
      rcases parts.reads id interval isRead with isFrontRead | isBackRead
      · cases (parts.part.read_eq_none parts.isPart frontLoaded).symm.trans isFrontRead
      · cases (parts.part'.read_eq_none parts.isPart' backLoaded).symm.trans isBackRead }

end

variable {replayJournal : List JournalEntry} {frozenJournalPosition : Nat}

theorem Shows.finish (inv : LoadingOtherInv l disk) (shows : Shows ⟨.loadingOther l, disk⟩ v)
    (isReplay : persistentJournal ⟨.loadingOther l, disk⟩ = some replayJournal) :
    Shows ⟨.ready (l.finished replayJournal frozenJournalPosition), disk⟩ v := by
  have notUpdated :
      ¬ HasUpdateOccurredUnacked (l.finished replayJournal frozenJournalPosition) disk :=
    fun updated => updated.1 rfl
  have isJ3 : persistentJournal ⟨.loadingOther l, disk⟩ = some v.j3 := shows.j3
  refine { shows with j2 := ?_, j3 := ?_, jGamma := ?_, syncReqs := ?_ }
  · rw [← shows.j2, frozenJournal_of_not_isFrozen
      (r := l.finished replayJournal frozenJournalPosition) inv.selected rfl]
    exact (frozenJournal_eq (s := ⟨.loadingOther l, disk⟩) inv.selected).symm
  · rw [← isJ3, isReplay]
    rfl
  · rw [← shows.jGamma, gammaJournal_of_not_updated inv.selected notUpdated]
    simp only [gammaJournal]
    rw [gammaLog_eq inv.selected]
    simp [LoadingOther.finished, gammaLen]
  · rw [← shows.syncReqs]
    refine congrArg (syncReqsOf l.syncReqs) (funext fun status => ?_)
    cases status with
    | state1 => rfl
    | state2 =>
      simp only [syncReqState]
      exact if_neg notUpdated
    | state3 => rfl

end LoadingJournal

section Start

variable {s s' : Variables} {v : JournalView.Variables}

theorem syncReqsOf_empty {state : JournalCache.SyncReqStatus → ThreeStateTypes.SyncReqStatus} :
    syncReqsOf .empty state = IMap.empty := by
  funext id
  simp [syncReqsOf, IMap.empty]

/-- A machine that starts over a disk without requests stands for the journal
that the disk's superblock names. -/
theorem start_inv {j1 : List JournalEntry} {onDisk : Superblock}
    (machine : JournalCache.Init s.machine) (idle : Idle s.disk) (wfDisk : WFDisk s.disk)
    (journalLength : s.disk.journal.length = numJournalBlocks)
    (isJournal : persistentJournal s = some j1) (selected : superblockOfDisk s.disk = some onDisk) :
    Inv s ∧ Shows s ⟨j1, j1, j1, j1, [], onDisk.indirectionTableLoc, none, IMap.empty⟩ := by
  obtain ⟨_, disk⟩ := s
  cases machine
  have shows : Shows ⟨_, disk⟩ ⟨j1, j1, j1, j1, [], onDisk.indirectionTableLoc, none, IMap.empty⟩ :=
    ⟨isJournal, isJournal, isJournal, isJournal, rfl, persistentLoc_eq selected, rfl,
      syncReqsOf_empty⟩
  refine ⟨LoadingSuperblockInv.toInv ?_ shows, shows⟩
  obtain ⟨noSuperblockReads, noJournalReads, noSuperblockWrites, noJournalWrites⟩ := idle
  exact {
    cache := ⟨nofun, nofun⟩
    wfDisk := wfDisk
    success := nofun
    noSuperblockWrites := fun which => by rw [noSuperblockWrites]
    noJournalWrites := fun id => by rw [noJournalWrites, FiniteMap.lookup_empty]
    superblockReads := fun which id isRead => by
      rw [noSuperblockReads] at isRead
      exact absurd isRead (Finset.notMem_empty id)
    superblockReadsDiffer := fun which _ id isRead _ => by
      rw [noSuperblockReads] at isRead
      exact absurd isRead (Finset.notMem_empty id)
    noJournalReads := fun id => by rw [noJournalReads, FiniteMap.lookup_empty]
    contiguous := fun id interval isRead => by
      rw [noJournalReads, FiniteMap.lookup_empty] at isRead
      cases isRead
    journalLength := journalLength }

theorem Inv.journalUntouched (inv : Inv s) {onDisk : Superblock} {i : Nat}
    (selected : superblockOfDisk s.disk = some onDisk)
    (inside : InCyclicRange i (journalIntervalOfSuperblock onDisk)) :
    JournalUntouched i s.disk.reqWriteJournals := by
  intro id interval isWrite touched
  obtain ⟨r, isReady, recorded⟩ := inv.recorded.journalWrites id interval isWrite
  have cache : JournalCache.InvReady r := by
    have := inv.cache
    rwa [isReady] at this
  have ready := inv.ready r isReady
  obtain ⟨-, sub, noNew⟩ := ready.journalWrites id recorded interval isWrite
  have isCurrent : onDisk = r.superblock := by
    rcases ready.selected with current | ⟨isNew, -⟩
    · exact Option.mem_unique selected current
    · exact absurd noNew isNew
  rw [isCurrent] at inside
  exact sub.not_inCyclicRange cache.superblock.start cache.lenLe cache.writtenLe touched inside

/-- A crash keeps the superblocks and the journal that the selected one names. -/
theorem persistentJournal_crash (inv : Inv s) (crash : JournalDisk.Crash s.disk s'.disk) :
    superblockOfDisk s'.disk = superblockOfDisk s.disk ∧
      persistentJournal s' = persistentJournal s := by
  have sameSuperblock := superblockOfDisk_congr crash.superblock
  obtain ⟨_, selected⟩ := inv.wfDisk.exists_superblockOfDisk
  refine ⟨sameSuperblock, ?_⟩
  rw [persistentJournal_eq selected, persistentJournal_eq (sameSuperblock.trans selected)]
  obtain ⟨startLt, lenLe, -⟩ := superblockOfDisk_wf selected
  refine diskJournal_congr ⟨startLt, lenLe⟩ inv.journalLength crash.journal.1 fun i iLt inside => ?_
  refine (crash.journal.2 i ?_ (inv.journalUntouched selected inside)).symm
  rw [inv.journalLength]
  exact iLt

theorem crash_inv {vop : VOp} (inv : Inv s) (shows : Shows s v) (crash : Crash s s' vop) :
    Inv s' ∧ Shows s' ⟨v.j1, v.j1, v.j1, v.j1, [], v.persistentLoc, none, IMap.empty⟩ := by
  obtain ⟨-, machine, diskCrash⟩ := crash
  obtain ⟨sameSuperblock, sameJournal⟩ := persistentJournal_crash inv diskCrash
  obtain ⟨onDisk, selected⟩ := inv.wfDisk.exists_superblockOfDisk
  have isLoc : onDisk.indirectionTableLoc = v.persistentLoc := by
    have isLoc := shows.persistentLoc
    rw [persistentLoc_eq selected] at isLoc
    exact Option.some.inj isLoc
  rw [← isLoc]
  refine start_inv machine diskCrash.idle ?_ ?_ (sameJournal.trans shows.j1)
    (sameSuperblock.trans selected)
  · intro which
    rw [diskCrash.superblock]
    exact inv.wfDisk which
  · rw [diskCrash.journal.1, inv.journalLength]

theorem init_inv {loc : Location} (init : Init s loc) :
    Inv s ∧ Shows s ⟨[], [], [], [], [], loc, none, IMap.empty⟩ := by
  obtain ⟨machine, ⟨idle, journalLength⟩, wfDisk, _, selected, _, isLen, rfl⟩ := init
  refine start_inv machine idle wfDisk journalLength ?_ selected
  rw [persistentJournal_eq selected, journalIntervalOfSuperblock, isLen]
  exact diskJournal_empty journalLength (superblockOfDisk_wf selected).start

end Start

end VerifiedBetrfs.JournalSystem
