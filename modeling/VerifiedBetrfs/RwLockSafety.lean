import VerifiedBetrfs.RwLockSteps

/-!
# Safety of the reader-writer lock

Every step is right in every frame, so the handle of the page is lent to one owner at a time.
-/

namespace VerifiedBetrfs.RwLock

variable {Stored : Type} {m : M Stored} {x : Shard Stored} {central : CentralState Stored}

theorem Step.sound {m' : M Stored} {event : RwEvent Stored} (step : Step m m' event) :
    Sound m m' event := by
  cases step with
  | takeWriteback step => exact takeWriteback_sound step
  | releaseWriteback step => exact releaseWriteback_sound step
  | threadlessClaim step => exact threadlessClaim_sound step
  | sharedToClaim t b step => exact sharedToClaim_sound step
  | claimToPending step => exact claimToPending_sound step
  | takeExcLockFinishWriteback clean step => exact takeExcLockFinishWriteback_sound step
  | takeExcLockCheckRefCount step => exact takeExcLockCheckRefCount_sound step
  | withdrawTakeExcLockFinish b step => exact withdrawTakeExcLockFinish_sound step
  | depositDowngradeExcLock b step => exact depositDowngradeExcLock_sound step
  | depositDowngradeExcLockToClaim b step => exact depositDowngradeExcLockToClaim_sound step
  | excIncCount t step => exact excIncCount_sound step
  | markDirty step => exact markDirty_sound step
  | claimToShared step => exact claimToShared_sound step
  | abandonExcPending step => exact abandonExcPending_sound step
  | depositUnmap b step => exact depositUnmap_sound step
  | depositUnmap2 b step => exact depositUnmap2_sound step
  | withdrawAlloc b step => exact withdrawAlloc_sound step
  | withdrawAllocNoRefcount b step => exact withdrawAllocNoRefcount_sound step
  | readingIncCount t step => exact readingIncCount_sound step
  | obtainReading step => exact obtainReading_sound step
  | readPendingToExc clean dummyB step => exact readPendingToExc_sound step
  | obtainReadingNoRefcount step => exact obtainReadingNoRefcount_sound step
  | depositReadingToShared b step => exact depositReadingToShared_sound step
  | depositReadingToDone b step => exact depositReadingToDone_sound step
  | depositAbandonReadPending b step => exact depositAbandonReadPending_sound step
  | sharedIncCount t step => exact sharedIncCount_sound step
  | sharedDecCountPending t step | sharedDecCountPending2 t step
  | sharedDecCountObtained t b step => exact sharedDecCount_sound rfl step
  | sharedCheckExc t step => exact sharedCheckExc_sound step
  | sharedCheckReading t step => exact sharedCheckReading_sound step

theorem framed_init (b : Stored) :
    Framed ⟨some ⟨.unmapped, b⟩, .empty, 0, none, none, none⟩
      { unitShard with refCounts := .ofFinset (Finset.Ico 0 rcWidth) fun _ => some 0 }
      ⟨.unmapped, b⟩ := by
  refine ⟨?_, rfl, .unmapped b, ?_, ?_⟩
  · simp [Compatible, unitShard]
  · intro t isSlot
    simp [unitShard, isSlot]
  · simp [unitShard]

theorem occupied_init (b : Stored) : Occupied (init b) := (framed_init b).occupied

theorem interp_init (b : Stored) : interp (init b) = some b := (framed_init b).interp_eq

/-- What the lock promises to its owners. -/
structure Safe (x : Shard Stored) : Prop where
  alone : ∀ t clean, x.exc = some (.excObtained t clean) →
    (∀ ss ∈ x.sharedState, ∃ t', ss = .sharedPending t') ∧ x.read = none ∧ x.writeback = none
  sharedSees : ∀ t b, .sharedObtained t b ∈ x.sharedState → interp (some x) = some b
  writebackSees : ∀ b, x.writeback = some (.writebackObtained b) → interp (some x) = some b
  refCounts : ∀ t, t < rcWidth → x.refCounts.lookup t = some (countAllRefs x t)

theorem interp_eq_stored (isCentral : x.central = some central) (noReader : x.read = none)
    (notObtained : ∀ t clean, x.exc ≠ some (.excObtained t clean)) :
    interp (some x) = some central.storedValue := by
  obtain ⟨_, _, _, exc, read, _⟩ := x
  obtain rfl : _ = some central := isCentral
  obtain rfl : read = none := noReader
  cases exc with
  | none => rfl
  | some exc =>
    cases exc with
    | excObtained t clean => exact absurd rfl (notObtained t clean)
    | _ => rfl

theorem ShardInv.safe (inv : ShardInv x central) (isCentral : x.central = some central) :
    Safe x where
  alone := by
    intro t clean isObtained
    obtain ⟨noReader, noWriteback, -⟩ := inv.excObtained t clean isObtained
    refine ⟨fun ss member => ⟨ss.t, ?_⟩, noReader, noWriteback⟩
    exact (inv.sharedState ss member).eq_sharedPending (.inr (.inl ⟨t, clean, isObtained⟩))
  sharedSees := by
    intro t b member
    obtain ⟨-, isStored, notObtained, noReader, -⟩ := inv.sharedState _ member
    rw [interp_eq_stored isCentral noReader notObtained, isStored]
  writebackSees := by
    intro b isWriteback
    obtain ⟨noReader, isStored⟩ := inv.writebackObtained b isWriteback
    have notObtained : ∀ t clean, x.exc ≠ some (.excObtained t clean) := by
      intro t clean isObtained
      obtain ⟨-, noWriteback, -⟩ := inv.excObtained t clean isObtained
      rw [noWriteback] at isWriteback
      cases isWriteback
    rw [interp_eq_stored isCentral noReader notObtained, isStored]
  refCounts := inv.refCounts

theorem Occupied.inv (occupied : Occupied m) : Inv m := fun _ => occupied

/-- A lock that is there stays so along every run, and what it stores is that of a cell. -/
theorem run_occupied {b : Stored} {events : List (RwEvent Stored)} {whole : M Stored}
    (run : (rwLock Stored).Run Step (init b) events whole) :
    Occupied whole ∧ CellRun (some b) events (interp whole) := by
  apply run.refines _ (occupied_init b)
  intro m m' event step p occupied
  exact step.sound p occupied.inv

/-- Every step of every part of the lock keeps the invariant in every frame, and what is stored is
kept, withdrawn or deposited as the step says.  In every state reached, who has obtained the lock
alone excludes all that read, fill or write back the page, who reads or writes it back sees the
stored handle, each counter is the number of the references of its slot, and the handle is lent only
if it has been deposited. -/
theorem rwLock_safe {b : Stored} {events : List (RwEvent Stored)} {whole : M Stored}
    (run : (rwLock Stored).Run Step (init b) events whole) :
    (∀ m m' event, Step m m' event → (rwLock Stored).Permits m m' event) ∧
    (∃ x, whole = some x ∧ Safe x) ∧ CellRun (some b) events (interp whole) ∧
    ∀ before between after x y,
      events = before ++ .withdraw x :: between ++ .withdraw y :: after →
        ∃ z, .deposit z ∈ between := by
  obtain ⟨⟨x, _, isWhole, isCentral, inv⟩, cellRun⟩ := run_occupied run
  refine ⟨?_, ⟨x, isWhole, inv.safe isCentral⟩, cellRun, ?_⟩
  · intro m m' event step
    rw [Rw.permits_iff]
    intro p inv
    obtain ⟨occupied, cellStep⟩ := step.sound p inv
    exact ⟨occupied.inv, cellStep⟩
  · rintro before between after x y rfl
    exact cellRun.exists_deposit_between

theorem dot_eq_dot {x y x' y' : Shard Nat} (fits : Compatible x y)
    (fits' : Compatible x' y') (same : x.merge y = x'.merge y') :
    dot (some x) (some y) = dot (some x') (some y') := by
  rw [dot, dot, if_pos fits, if_pos fits', same]

theorem reframed {a b a' b' : M Nat} {events : List (RwEvent Nat)}
    (run : (rwLock Nat).Run Step (init 5) events (dot a b)) (same : dot a b = dot a' b') :
    (rwLock Nat).Run Step (init 5) events ((rwLock Nat).dot a' b') := by
  rw [same] at run
  exact run

/-- What a filled page has beside the counter of slot zero. -/
def filled : Shard Nat :=
  { unitShard with
    central := some ⟨.available, 6⟩
    refCounts := .ofFinset (Finset.Ico 1 rcWidth) fun _ => some 0 }

/-- The counters with one reader in slot zero. -/
def counted : Shard Nat := { unitShard with refCounts := filled.refCounts.insert 0 1 }

theorem dot_rcs_eq_filled :
    dot (centralHandle ⟨.available, 6⟩) (rcs 0 rcWidth) =
      dot (refCount 0 0) (some filled) := by
  refine dot_eq_dot (by decide) (by decide) ?_
  simp only [Shard.merge, filled, unitShard]
  congr 1
  ext1 slot
  by_cases first : slot = 0
  · simp [first, rcWidth]
  · simp [first, Nat.one_le_iff_ne_zero]

theorem dot_filled_eq_counted :
    dot (dot (refCount 0 1) (sharedHandle (.sharedPending 0))) (some filled) =
      dot (dot (centralHandle ⟨.available, 6⟩) (sharedHandle (.sharedPending 0)))
        (some counted) := by
  refine dot_eq_dot (by decide +kernel) (by decide +kernel) ?_
  simp only [Shard.merge, filled, counted, unitShard]
  congr 1
  ext1 slot
  by_cases first : slot = 0
  · simp [first, rcWidth]
  · simp [first, Nat.one_le_iff_ne_zero]

theorem dot_counted_eq_shared :
    dot (dot (centralHandle ⟨.available, 6⟩) (sharedHandle (.sharedObtained 0 6)))
        (some counted) =
      dot (centralHandle ⟨.available, 6⟩)
        (some { counted with sharedState := {.sharedObtained 0 6} }) := by
  refine dot_eq_dot (by decide +kernel) (by decide +kernel) ?_
  simp only [Shard.merge, counted, unitShard]
  congr 1

/-- A page is filled.  One then reads it while another claims it, and the reader sees what was
filled in. -/
theorem rwLock_safe_claimed : ∃ x : Shard Nat,
    (rwLock Nat).Run Step (init 5)
      [.withdraw 5, .deposit 6, .internal, .internal, .internal, .internal] (some x) ∧
    x.sharedState = {.sharedObtained 0 6} ∧ x.exc = some (.excClaim (-1) 6) ∧
    interp (some x) = some 6 := by
  have alloc : Step (centralHandle ⟨.unmapped, 5⟩)
      (dot (centralHandle ⟨.reading, 5⟩) (readHandle (.readObtained (-1)))) (.withdraw 5) :=
    .withdrawAllocNoRefcount 5 ⟨rfl, rfl⟩
  have fill : Step (dot (centralHandle ⟨.reading, 5⟩) (readHandle (.readObtained (-1))))
      (centralHandle ⟨.available, 6⟩) (.deposit 6) :=
    .depositReadingToDone 6 ⟨_, rfl, rfl⟩
  have start : (rwLock Nat).Run Step (init 5) []
      ((rwLock Nat).dot (centralHandle ⟨.unmapped, 5⟩) (rcs 0 rcWidth)) := .refl
  have filledRun : (rwLock Nat).Run Step (init 5) [.withdraw 5, .deposit 6]
      ((rwLock Nat).dot (refCount 0 0) (some filled)) :=
    reframed (.tail (.tail start alloc) fill) dot_rcs_eq_filled
  have count : Step (refCount 0 0) (dot (refCount 0 1) (sharedHandle (.sharedPending 0)))
      (.internal : RwEvent Nat) :=
    .sharedIncCount 0 ⟨0, by decide, rfl, rfl⟩
  have countedRun : (rwLock Nat).Run Step (init 5) [.withdraw 5, .deposit 6, .internal]
      ((rwLock Nat).dot (dot (centralHandle ⟨.available, 6⟩) (sharedHandle (.sharedPending 0)))
        (some counted)) :=
    reframed (.tail filledRun count) dot_filled_eq_counted
  have checkExc : Step (dot (centralHandle ⟨.available, 6⟩) (sharedHandle (.sharedPending 0)))
      (dot (centralHandle ⟨.available, 6⟩) (sharedHandle (.sharedPending2 0))) .internal :=
    .sharedCheckExc 0 ⟨⟨.available, 6⟩, .inl rfl, rfl, rfl⟩
  have checkReading :
      Step (dot (centralHandle ⟨.available, 6⟩) (sharedHandle (.sharedPending2 0)))
        (dot (centralHandle ⟨.available, 6⟩) (sharedHandle (.sharedObtained 0 6))) .internal :=
    .sharedCheckReading 0 ⟨⟨.available, 6⟩, by decide, by decide, by decide, rfl, rfl⟩
  have sharedRun : (rwLock Nat).Run Step (init 5)
      [.withdraw 5, .deposit 6, .internal, .internal, .internal]
      ((rwLock Nat).dot (centralHandle ⟨.available, 6⟩)
        (some { counted with sharedState := {.sharedObtained 0 6} })) :=
    reframed (.tail (.tail countedRun checkExc) checkReading) dot_counted_eq_shared
  have claim : Step (centralHandle ⟨.available, 6⟩)
      (dot (centralHandle ⟨.claimed, 6⟩) (excHandle (.excClaim (-1) 6))) .internal :=
    .threadlessClaim ⟨⟨.available, 6⟩, .inl rfl, rfl, rfl⟩
  have run := Rw.Run.tail sharedRun claim
  obtain ⟨-, ⟨x, isWhole, safe⟩, -, -⟩ := rwLock_safe run
  rw [isWhole] at run
  have isShared : (some x).map (·.sharedState) = some {.sharedObtained 0 6} := by
    rw [← isWhole]
    rfl
  have isClaimed : (some x).map (·.exc) = some (some (.excClaim (-1) 6)) := by
    rw [← isWhole]
    rfl
  rw [Option.map_some, Option.some_inj] at isShared isClaimed
  exact ⟨x, run, isShared, isClaimed, safe.sharedSees 0 6 (by simp [isShared])⟩

end VerifiedBetrfs.RwLock
