import VerifiedBetrfs.RwLockInv

/-!
# The steps of the reader-writer lock

A step takes some parts of the lock and gives other parts back, in a frame that it does not see.
-/

namespace VerifiedBetrfs.RwLock

open FiniteMap (lookup_empty lookup_mapUpdate lookup_singleton)

variable {Stored : Type}

/-- The invariant of what a shard and its frame are together. -/
structure Framed (x rest : Shard Stored) (central : CentralState Stored) : Prop where
  compatible : Compatible x rest
  isCentral : x.central.or rest.central = some central
  control : Control central (x.exc.or rest.exc) (x.read.or rest.read)
    (x.writeback.or rest.writeback)
  refCounts : ∀ t : Nat, t < rcWidth → (x.refCounts.lookup t).or (rest.refCounts.lookup t) =
    some (countSharedRefs x.sharedState t + countSharedRefs rest.sharedState t +
      countExcRefs (x.exc.or rest.exc) t + countReadRefs (x.read.or rest.read) t)
  sharedState : ∀ ss, ss ∈ x.sharedState ∨ ss ∈ rest.sharedState →
    SharedInv central (x.exc.or rest.exc) (x.read.or rest.read) ss

/-- The stored handle, unless one of the exclusive parts has it. -/
def storedIn (central : CentralState Stored) (exc : Option (ExcState Stored))
    (read : Option ReadState) : Option Stored :=
  match exc, read with
  | some (.excObtained _ _), _ | _, some _ => none
  | _, none => some central.storedValue

theorem countSharedRefs_add (shared shared' : Multiset (SharedState Stored)) (t : Int) :
    countSharedRefs (shared + shared') t = countSharedRefs shared t + countSharedRefs shared' t :=
  Multiset.countP_add _ _ _

variable {central : CentralState Stored} {x rest : Shard Stored} {event : RwEvent Stored}
  {c : CentralState Stored} {clean : Bool} {count slot t : Nat} {ss : SharedState Stored}

theorem Framed.iff_shardInv :
    Framed x rest central ↔ Compatible x rest ∧ (x.merge rest).central = some central ∧
      ShardInv (x.merge rest) central := by
  constructor
  · intro framed
    refine ⟨framed.compatible, framed.isCentral, .of_control framed.control ?_ ?_⟩
    · intro t isSlot
      rw [Shard.merge, lookup_mapUpdate, framed.refCounts t isSlot, countAllRefs,
        countSharedRefs_add]
    · intro ss member
      exact framed.sharedState ss (Multiset.mem_add.mp member)
  · rintro ⟨compatible, isCentral, inv⟩
    refine ⟨compatible, isCentral, inv.control, ?_, ?_⟩
    · intro t isSlot
      have counted := inv.refCounts t isSlot
      rw [countAllRefs, Shard.merge, lookup_mapUpdate, countSharedRefs_add] at counted
      exact counted
    · intro ss member
      exact inv.sharedState ss (Multiset.mem_add.mpr member)

theorem Framed.dot_eq (framed : Framed x rest central) :
    dot (some x) (some rest) = some (x.merge rest) :=
  if_pos framed.compatible

theorem Framed.occupied (framed : Framed x rest central) : Occupied (dot (some x) (some rest)) := by
  obtain ⟨-, isCentral, inv⟩ := iff_shardInv.mp framed
  rw [framed.dot_eq]
  exact ⟨_, central, rfl, isCentral, inv⟩

theorem Framed.interp_eq (framed : Framed x rest central) : interp (dot (some x) (some rest)) =
      storedIn central (x.exc.or rest.exc) (x.read.or rest.read) := by
  rw [framed.dot_eq]
  simp only [interp, Shard.merge, framed.isCentral, Option.map_some]
  rfl

theorem eq_unitShard_of_merge (merged : x.merge rest = unitShard) : x = unitShard := by
  obtain ⟨_, refCounts, shared, _, _, _⟩ := x
  simp only [Shard.merge, unitShard, Shard.mk.injEq, Option.or_eq_none_iff] at merged
  obtain ⟨⟨rfl, -⟩, counts, noShared, ⟨rfl, -⟩, ⟨rfl, -⟩, rfl, -⟩ := merged
  obtain rfl : shared = 0 := by
    apply Multiset.le_zero.mp
    rw [← noShared]
    exact Multiset.le_add_right shared rest.sharedState
  have noCounts : refCounts = .empty := by
    apply FiniteMap.ext
    intro t
    have absent : (rest.refCounts.mapUpdate refCounts).lookup t = none := by
      rw [counts, lookup_empty]
    rw [lookup_mapUpdate, Option.or_eq_none_iff] at absent
    rw [absent.1, lookup_empty]
  rw [noCounts]
  rfl

theorem exists_framed {p : M Stored} (nontrivial : x ≠ unitShard) (inv : Inv (dot (some x) p)) :
    ∃ rest central, p = some rest ∧ Framed x rest central := by
  cases p with
  | none =>
    obtain ⟨whole, central, isWhole, -⟩ := inv (by simp [dot, unit])
    simp [dot] at isWhole
  | some rest =>
    by_cases compatible : Compatible x rest
    · have isDot : dot (some x) (some rest) = some (x.merge rest) := if_pos compatible
      have notUnit : dot (some x) (some rest) ≠ unit := by
        intro isUnit
        rw [isDot] at isUnit
        exact nontrivial (eq_unitShard_of_merge (Option.some.inj isUnit))
      obtain ⟨whole, central, isWhole, isCentral, shardInv⟩ := inv notUnit
      obtain rfl : x.merge rest = whole := Option.mem_unique isDot isWhole
      exact ⟨rest, central, rfl, Framed.iff_shardInv.mpr ⟨compatible, isCentral, shardInv⟩⟩
    · have isNone : dot (some x) (some rest) = none := if_neg compatible
      obtain ⟨whole, central, isWhole, -⟩ := inv (by simp [isNone, unit])
      simp [isNone] at isWhole

/-- In every frame the lock stays and what it stores is that of a cell. -/
def Sound (m m' : M Stored) (event : RwEvent Stored) : Prop :=
  ∀ p, Inv (dot m p) → Occupied (dot m' p) ∧
    CellStep (interp (dot m p)) event (interp (dot m' p))

theorem sound_of_framed {m' : M Stored} (nontrivial : x ≠ unitShard)
    (step : ∀ rest central, Framed x rest central → ∃ x' central', m' = some x' ∧
      Framed x' rest central' ∧
      CellStep (storedIn central (x.exc.or rest.exc) (x.read.or rest.read)) event
        (storedIn central' (x'.exc.or rest.exc) (x'.read.or rest.read))) :
    Sound (some x) m' event := by
  intro p inv
  obtain ⟨rest, central, rfl, framed⟩ := exists_framed nontrivial inv
  obtain ⟨x', central', rfl, framed', cellStep⟩ := step rest central framed
  rw [← framed.interp_eq, ← framed'.interp_eq] at cellStep
  exact ⟨framed'.occupied, cellStep⟩

theorem dot_central_writeback (central : CentralState Stored) (writeback : WritebackState Stored) :
    dot (centralHandle central) (writebackHandle writeback) =
      some ⟨some central, .empty, 0, none, none, some writeback⟩ := rfl

theorem dot_central_exc (central : CentralState Stored) (exc : ExcState Stored) :
    dot (centralHandle central) (excHandle exc) =
      some ⟨some central, .empty, 0, some exc, none, none⟩ := rfl

theorem dot_central_read (central : CentralState Stored) (read : ReadState) :
    dot (centralHandle central) (readHandle read) =
      some ⟨some central, .empty, 0, none, some read, none⟩ := rfl

theorem dot_central_shared (central : CentralState Stored) (ss : SharedState Stored) :
    dot (centralHandle central) (sharedHandle ss) =
      some ⟨some central, .empty, {ss}, none, none, none⟩ := rfl

theorem centralHandle_eq (central : CentralState Stored) :
    centralHandle central = some ⟨some central, .empty, 0, none, none, none⟩ := rfl

/-- One reference, if it is for the slot that is counted. -/
def slotRef (t' t : Int) : Nat := if t' = t then 1 else 0

theorem slotRef_self (t : Int) : slotRef t t = 1 := if_pos rfl

theorem slotRef_of_ne {t' t : Int} (isOther : t' ≠ t) : slotRef t' t = 0 := if_neg isOther

@[simp]
theorem slotRef_neg_one (t : Nat) : slotRef (-1) t = 0 := by
  apply slotRef_of_ne
  omega

@[simp]
theorem countSharedRefs_zero (t : Int) :
    countSharedRefs (0 : Multiset (SharedState Stored)) t = 0 := rfl

@[simp]
theorem countSharedRefs_singleton (ss : SharedState Stored) (t : Int) :
    countSharedRefs {ss} t = slotRef ss.t t := by
  simp [countSharedRefs, slotRef, ← Multiset.cons_zero, Multiset.countP_cons]

@[simp]
theorem countExcRefs_none (t : Int) : countExcRefs (none : Option (ExcState Stored)) t = 0 := rfl

@[simp]
theorem countExcRefs_some (exc : ExcState Stored) (t : Int) :
    countExcRefs (some exc) t = slotRef exc.t t := rfl

@[simp]
theorem countReadRefs_none (t : Int) : countReadRefs none t = 0 := rfl

@[simp]
theorem countReadRefs_readPending (t : Int) : countReadRefs (some .readPending) t = 0 := rfl

@[simp]
theorem countReadRefs_readPendingCounted (t t' : Int) :
    countReadRefs (some (.readPendingCounted t')) t = slotRef t' t := rfl

@[simp]
theorem countReadRefs_readObtained (t t' : Int) :
    countReadRefs (some (.readObtained t')) t = slotRef t' t := rfl

attribute [simp] SharedState.t ExcState.t

/-- The move from one control state to another, with the owners that take part in it. -/
structure Moved (c : CentralState Stored) (own : Multiset (SharedState Stored))
    (exc : Option (ExcState Stored)) (read : Option ReadState) (c' : CentralState Stored)
    (own' : Multiset (SharedState Stored)) (exc' : Option (ExcState Stored))
    (read' : Option ReadState) (writeback' : Option (WritebackState Stored))
    (event : RwEvent Stored) : Prop where
  control : Control c' exc' read' writeback'
  sameRefs : ∀ t : Nat, countSharedRefs own' t + countExcRefs exc' t + countReadRefs read' t =
    countSharedRefs own t + countExcRefs exc t + countReadRefs read t
  own : ∀ ss ∈ own', SharedInv c' exc' read' ss
  others : ∀ ss, SharedInv c exc read ss → SharedInv c' exc' read' ss
  stored : CellStep (storedIn c exc read) event (storedIn c' exc' read')

variable {own : Multiset (SharedState Stored)} {e : Option (ExcState Stored)} {r : Option ReadState}

/-- A step of parts that have the flag and no counter. -/
theorem sound_of_central {w : Option (WritebackState Stored)} {m' : M Stored}
    (step : ∀ exc read writeback, (e = none ∨ exc = none) → (r = none ∨ read = none) →
      (w = none ∨ writeback = none) →
      Control c (e.or exc) (r.or read) (w.or writeback) →
      (∀ ss ∈ own, SharedInv c (e.or exc) (r.or read) ss) →
      ∃ c' own' e' r' w', m' = some ⟨some c', .empty, own', e', r', w'⟩ ∧
        (e' = none ∨ exc = none) ∧ (r' = none ∨ read = none) ∧ (w' = none ∨ writeback = none) ∧
        Moved c own (e.or exc) (r.or read) c' own' (e'.or exc) (r'.or read) (w'.or writeback)
          event) : Sound (some ⟨some c, .empty, own, e, r, w⟩) m' event := by
  apply sound_of_framed (by simp [unitShard])
  rintro ⟨central, _, _, exc, read, writeback⟩ c' framed
  obtain ⟨centralApart, -, excApart, readApart, writebackApart⟩ := framed.compatible
  obtain rfl := Option.some.inj framed.isCentral
  obtain rfl : central = none := by simpa using centralApart
  simp only [Option.isNone_iff_eq_none] at excApart readApart writebackApart
  obtain ⟨c', own', e', r', w', rfl, excApart', readApart', writebackApart', moved⟩ :=
    step exc read writeback excApart readApart writebackApart framed.control
      (fun ss member => framed.sharedState ss (.inl member))
  refine ⟨_, c', rfl, ⟨?_, rfl, moved.control, ?_, ?_⟩, moved.stored⟩
  · simp [Compatible, excApart', readApart', writebackApart']
  · intro t isSlot
    have counted := framed.refCounts t isSlot
    have same := moved.sameRefs t
    simp only [lookup_empty, Option.none_or] at counted ⊢
    rw [counted]
    congr 1
    omega
  · rintro ss (isOwn | isOther)
    · exact moved.own ss isOwn
    · exact moved.others ss (framed.sharedState ss (.inr isOther))

variable {m m' : M Stored}

/-- A step of parts that have the flag and the exclusive state. -/
theorem sound_of_exc {exc : ExcState Stored} (step : ∀ read writeback,
    Control c (some exc) read writeback →
      ∃ c' own' e', m' = some ⟨some c', .empty, own', e', none, none⟩ ∧
        Moved c 0 (some exc) read c' own' e' read writeback event) :
    Sound (dot (centralHandle c) (excHandle exc)) m' event := by
  rw [dot_central_exc]
  apply sound_of_central
  intro exc read writeback noExc _ _ control _
  obtain rfl : exc = none := by simpa using noExc
  obtain ⟨c', own', e', rfl, moved⟩ := step read writeback control
  exact ⟨c', own', e', none, none, rfl, .inr rfl, .inl rfl, .inl rfl, by simpa using moved⟩

/-- A step of parts that have the flag and the state of the reader that fills the page. -/
theorem sound_of_read {read : ReadState} (step : ∀ exc writeback,
    Control c exc (some read) writeback →
      ∃ c' own' e' r', m' = some ⟨some c', .empty, own', e', r', none⟩ ∧ (e' = none ∨ exc = none) ∧
        Moved c 0 exc (some read) c' own' (e'.or exc) r' writeback event) :
    Sound (dot (centralHandle c) (readHandle read)) m' event := by
  rw [dot_central_read]
  apply sound_of_central
  intro exc read writeback _ noRead _ control _
  obtain rfl : read = none := by simpa using noRead
  obtain ⟨c', own', e', r', rfl, excApart, moved⟩ := step exc writeback control
  exact ⟨c', own', e', r', none, rfl, excApart, .inr rfl, .inl rfl, by simpa using moved⟩

theorem takeWriteback_sound (step : TakeWriteback m m') : Sound m m' .internal := by
  obtain ⟨⟨_, b⟩, rfl, rfl, rfl⟩ := step
  rw [centralHandle_eq, dot_central_writeback]
  apply sound_of_central
  intro exc read writeback _ _ _ control _
  obtain ⟨rfl, rfl, rfl⟩ : exc = none ∧ read = none ∧ writeback = none := control.flagInv
  exact ⟨_, _, _, _, _, rfl, .inl rfl, .inl rfl, .inr rfl, .writeback b, fun _ => rfl, by simp,
    fun _ => .of_open rfl ⟨by simp, rfl, trivial⟩, .internal _⟩

/-- Only three flags go together with a writeback. -/
theorem releaseWriteback_sound (step : ReleaseWriteback m m') : Sound m m' .internal := by
  obtain ⟨_, ⟨b⟩, rfl, fromWriteback, fromPending, fromClaimed⟩ := step
  simp only [centralHandle_eq] at fromWriteback fromPending fromClaimed
  apply sound_of_central
  intro exc read writeback _ _ noWriteback control _
  obtain rfl : writeback = none := by simpa using noWriteback
  cases control with
  | writeback =>
    exact ⟨_, _, _, _, _, fromWriteback rfl, .inl rfl, .inl rfl, .inl rfl, .available b,
      fun _ => rfl, by simp, fun _ => .of_open rfl ⟨by simp, rfl, trivial⟩, .internal _⟩
  | writebackClaimed _ isSlot =>
    exact ⟨_, _, _, _, _, fromClaimed rfl, .inl rfl, .inl rfl, .inl rfl, .claimed b isSlot,
      fun _ => rfl, by simp, fun _ => .of_open rfl ⟨by simp, rfl, trivial⟩, .internal _⟩
  | writebackPendingExcLock _ isSlot =>
    exact ⟨_, _, _, _, _, fromPending rfl, .inl rfl, .inl rfl, .inl rfl,
      .pendingExcLock b isSlot, fun _ => rfl, by simp,
      fun _ => .of_open rfl ⟨by simp, rfl, trivial⟩, .internal _⟩

theorem threadlessClaim_sound (step : ThreadlessClaim m m') : Sound m m' .internal := by
  obtain ⟨⟨_, b⟩, isFlag, rfl, rfl⟩ := step
  rw [centralHandle_eq, dot_central_exc]
  apply sound_of_central
  intro exc read writeback _ _ _ control _
  obtain rfl | rfl := isFlag
  · obtain ⟨rfl, rfl, rfl⟩ : exc = none ∧ read = none ∧ writeback = none := control.flagInv
    exact ⟨_, _, _, _, _, rfl, .inr rfl, .inl rfl, .inl rfl, .claimed b (by decide),
      by simp, by simp, fun _ => .of_open rfl ⟨by simp, rfl, trivial⟩, .internal _⟩
  · obtain ⟨rfl, rfl, b', rfl⟩ :
        exc = none ∧ read = none ∧ ∃ b', writeback = some (.writebackObtained b') := control.flagInv
    cases control
    exact ⟨_, _, _, _, _, rfl, .inr rfl, .inl rfl, .inl rfl, .writebackClaimed b (by decide),
      by simp, by simp, fun _ => .of_open rfl ⟨by simp, rfl, trivial⟩, .internal _⟩

variable {b : Stored}

theorem sharedToClaim_sound {t : Int} (step : SharedToClaim m m' t b) : Sound m m' .internal := by
  obtain ⟨⟨_, stored⟩, isFlag, rfl, rfl⟩ := step
  rw [dot_central_shared, dot_central_exc]
  apply sound_of_central
  intro exc read writeback _ _ _ control own
  obtain ⟨_, isStored, -⟩ := own _ (Multiset.mem_singleton_self _)
  obtain rfl : b = stored := isStored
  have isSlot' : -1 ≤ t ∧ t < rcWidth := by omega
  obtain rfl | rfl := isFlag
  · obtain ⟨rfl, rfl, rfl⟩ : exc = none ∧ read = none ∧ writeback = none := control.flagInv
    exact ⟨_, _, _, _, _, rfl, .inr rfl, .inl rfl, .inl rfl, .claimed b isSlot',
      by simp, by simp, fun _ => .of_open rfl ⟨by simp, rfl, trivial⟩, .internal _⟩
  · obtain ⟨rfl, rfl, b', rfl⟩ :
        exc = none ∧ read = none ∧ ∃ b', writeback = some (.writebackObtained b') := control.flagInv
    cases control
    exact ⟨_, _, _, _, _, rfl, .inr rfl, .inl rfl, .inl rfl, .writebackClaimed b isSlot',
      by simp, by simp, fun _ => .of_open rfl ⟨by simp, rfl, trivial⟩, .internal _⟩

theorem claimToPending_sound (step : ClaimToPending m m') : Sound m m' .internal := by
  obtain ⟨_, _, b, rfl, rfl⟩ := step
  apply sound_of_exc
  intro read writeback control
  cases control with
  | claimed _ isSlot =>
    exact ⟨_, _, _, dot_central_exc _ _, .pendingExcLock b isSlot,
      by simp, by simp, fun _ => .of_open rfl ⟨by simp, rfl, trivial⟩, .internal _⟩
  | writebackClaimed _ isSlot =>
    exact ⟨_, _, _, dot_central_exc _ _, .writebackPendingExcLock b isSlot,
      by simp, by simp, fun _ => .of_open rfl ⟨by simp, rfl, trivial⟩, .internal _⟩

theorem takeExcLockFinishWriteback_sound (step : TakeExcLockFinishWriteback m m' clean) :
    Sound m m' .internal := by
  obtain ⟨_, _, b, -, notWriteback, rfl, rfl⟩ := step
  apply sound_of_exc
  intro read writeback control
  cases control with
  | pendingExcLock _ isSlot =>
    have mapped : excLockFlag clean ≠ .unmapped := by cases clean <;> simp [excLockFlag]
    exact ⟨_, _, _, dot_central_exc _ _,
      .excPending b isSlot (by decide) rfl, by simp, by simp,
      fun _ => .of_open rfl ⟨mapped, rfl, rfl⟩, .internal _⟩
  | writebackPendingExcLock _ isSlot => exact absurd rfl notWriteback

theorem depositDowngradeExcLock_sound (step : DepositDowngradeExcLock m m' b) :
    Sound m m' (.deposit b) := by
  obtain ⟨_, t, clean, nonneg, isSlot, rfl, rfl⟩ := step
  apply sound_of_exc
  intro read writeback control
  cases control
  exact ⟨_, _, _, dot_central_shared _ _, .available b, by simp,
    by simp [SharedInv, nonneg, isSlot], fun _ => .of_closed (.inr (.inl ⟨t, clean, rfl⟩)),
    .deposit b⟩

theorem depositDowngradeExcLockToClaim_sound (step : DepositDowngradeExcLockToClaim m m' b) :
    Sound m m' (.deposit b) := by
  obtain ⟨_, t, clean, -, -, rfl, rfl⟩ := step
  apply sound_of_exc
  intro read writeback control
  cases control with
  | excObtained _ isSlot =>
    exact ⟨_, _, _, dot_central_exc _ _, .claimed b isSlot, by simp, by simp,
      fun _ => .of_closed (.inr (.inl ⟨t, clean, rfl⟩)), .deposit b⟩

theorem markDirty_sound (step : MarkDirty m m') : Sound m m' .internal := by
  obtain ⟨_, t, clean, rfl, rfl⟩ := step
  apply sound_of_exc
  intro read writeback control
  cases control with
  | excObtained b isSlot =>
    exact ⟨_, _, _, dot_central_exc _ _, .excObtained b isSlot rfl, by simp,
      by simp, fun _ => .of_closed (.inr (.inl ⟨t, clean, rfl⟩)), .internal _⟩

theorem claimToShared_sound (step : ClaimToShared m m') : Sound m m' .internal := by
  obtain ⟨_, t, b, _, rfl, rfl⟩ := step
  apply sound_of_exc
  intro read writeback control
  cases control with
  | claimed _ isSlot =>
    have isSlot' : 0 ≤ t ∧ t < rcWidth := by omega
    exact ⟨_, _, _, dot_central_shared _ _, .available b, by simp,
      by simp [SharedInv, isSlot'], fun _ => .of_open rfl ⟨by simp, rfl, trivial⟩, .internal _⟩
  | writebackClaimed _ isSlot =>
    have isSlot' : 0 ≤ t ∧ t < rcWidth := by omega
    exact ⟨_, _, _, dot_central_shared _ _, .writeback b, by simp,
      by simp [SharedInv, isSlot'], fun _ => .of_open rfl ⟨by simp, rfl, trivial⟩, .internal _⟩

theorem abandonExcPending_sound (step : AbandonExcPending m m') : Sound m m' .internal := by
  obtain ⟨_, _, _, b, rfl, rfl⟩ := step
  apply sound_of_exc
  intro read writeback control
  cases control
  exact ⟨_, _, _, centralHandle_eq _, .available b, by simp, by simp,
    fun _ => .of_open rfl ⟨by simp, rfl, trivial⟩, .internal _⟩

theorem depositUnmap_sound (step : DepositUnmap m m' b) : Sound m m' (.deposit b) := by
  obtain ⟨_, clean, rfl, rfl⟩ := step
  apply sound_of_exc
  intro read writeback control
  cases control
  exact ⟨_, _, _, centralHandle_eq _, .unmapped b, by simp, by simp,
    fun _ => .of_closed (.inr (.inl ⟨-1, clean, rfl⟩)), .deposit b⟩

theorem depositUnmap2_sound (step : DepositUnmap2 m m' b) : Sound m m' (.deposit b) := by
  obtain ⟨_, t, clean, nonneg, rfl, rfl⟩ := step
  apply sound_of_exc
  intro read writeback control
  cases control with
  | excObtained _ isSlot =>
    exact ⟨_, _, _, dot_central_shared _ _, .unmapped b, by simp,
      by simp [SharedInv, nonneg, isSlot.2], fun _ => .of_closed (.inr (.inl ⟨t, clean, rfl⟩)),
      .deposit b⟩

theorem withdrawAlloc_sound (step : WithdrawAlloc m m' b) : Sound m m' (.withdraw b) := by
  obtain ⟨rfl, rfl⟩ := step
  rw [centralHandle_eq, dot_central_read]
  apply sound_of_central
  intro exc read writeback _ _ _ control _
  obtain ⟨rfl, rfl, rfl⟩ : writeback = none ∧ read = none ∧ exc = none := control.flagInv
  exact ⟨_, _, _, _, _, rfl, .inl rfl, .inr rfl, .inl rfl, .readPending b, by simp, by simp,
    fun _ => .of_closed (.inl rfl), .withdraw b⟩

theorem withdrawAllocNoRefcount_sound (step : WithdrawAllocNoRefcount m m' b) :
    Sound m m' (.withdraw b) := by
  obtain ⟨rfl, rfl⟩ := step
  rw [centralHandle_eq, dot_central_read]
  apply sound_of_central
  intro exc read writeback _ _ _ control _
  obtain ⟨rfl, rfl, rfl⟩ : writeback = none ∧ read = none ∧ exc = none := control.flagInv
  exact ⟨_, _, _, _, _, rfl, .inl rfl, .inr rfl, .inl rfl, .readObtained b (by decide), by simp,
    by simp, fun _ => .of_closed (.inl rfl), .withdraw b⟩

theorem obtainReading_sound (step : ObtainReading m m') : Sound m m' .internal := by
  obtain ⟨_, t, rfl, rfl⟩ := step
  apply sound_of_read
  intro exc writeback control
  cases control with
  | readPendingCounted b isSlot =>
    have isSlot' : -1 ≤ t ∧ t < rcWidth := by omega
    exact ⟨_, _, _, _, dot_central_read _ _, .inl rfl, .readObtained b isSlot', by simp,
      by simp, fun _ => .of_closed (.inr (.inr (.inr ⟨t, rfl⟩))), .internal _⟩

theorem readPendingToExc_sound {dummyB : Stored} (step : ReadPendingToExc m m' clean dummyB) :
    Sound m m' .internal := by
  obtain ⟨_, t, rfl, rfl⟩ := step
  apply sound_of_read
  intro exc writeback control
  cases control with
  | readPendingCounted b isSlot =>
    have isSlot' : -1 ≤ t ∧ t < rcWidth := by omega
    exact ⟨_, _, _, _, dot_central_exc _ _, .inr rfl, .excObtained dummyB isSlot' rfl,
      by simp, by simp, fun _ => .of_closed (.inr (.inr (.inr ⟨t, rfl⟩))), .internal _⟩

theorem obtainReadingNoRefcount_sound (step : ObtainReadingNoRefcount m m') :
    Sound m m' .internal := by
  obtain ⟨_, rfl, rfl⟩ := step
  apply sound_of_read
  intro exc writeback control
  cases control with
  | readPending b =>
    exact ⟨_, _, _, _, dot_central_read _ _, .inl rfl, .readObtained b (by decide),
      by simp, by simp, fun _ => .of_closed (.inr (.inr (.inl rfl))), .internal _⟩

theorem depositReadingToShared_sound (step : DepositReadingToShared m m' b) :
    Sound m m' (.deposit b) := by
  obtain ⟨_, t, _, rfl, rfl⟩ := step
  apply sound_of_read
  intro exc writeback control
  cases control with
  | readObtained _ isSlot =>
    have isSlot' : 0 ≤ t ∧ t < rcWidth := by omega
    exact ⟨_, _, _, _, dot_central_shared _ _, .inl rfl, .available b, by simp,
      by simp [SharedInv, isSlot'], fun _ => .of_reading rfl (by simp) rfl rfl, .deposit b⟩

theorem depositReadingToDone_sound (step : DepositReadingToDone m m' b) :
    Sound m m' (.deposit b) := by
  obtain ⟨_, rfl, rfl⟩ := step
  apply sound_of_read
  intro exc writeback control
  cases control
  exact ⟨_, _, _, _, centralHandle_eq _, .inl rfl, .available b, by simp, by simp,
    fun _ => .of_reading rfl (by simp) rfl rfl, .deposit b⟩

theorem depositAbandonReadPending_sound (step : DepositAbandonReadPending m m' b) :
    Sound m m' (.deposit b) := by
  obtain ⟨_, rfl, rfl⟩ := step
  apply sound_of_read
  intro exc writeback control
  cases control
  exact ⟨_, _, _, _, centralHandle_eq _, .inl rfl, .unmapped b, by simp, by simp,
    fun _ => .of_closed (.inr (.inr (.inl rfl))), .deposit b⟩

/-- The references of some owners and of the exclusive parts. -/
def refs (own : Multiset (SharedState Stored)) (exc : Option (ExcState Stored))
    (read : Option ReadState) (t : Int) : Nat :=
  countSharedRefs own t + countExcRefs exc t + countReadRefs read t

/-- The change of one counter, with the owners that take part in it. -/
structure Counted (slot count : Nat) (c : CentralState Stored)
    (own : Multiset (SharedState Stored)) (exc : Option (ExcState Stored))
    (read : Option ReadState) (count' : Nat) (own' : Multiset (SharedState Stored))
    (exc' : Option (ExcState Stored)) (read' : Option ReadState)
    (writeback : Option (WritebackState Stored)) : Prop where
  control : Control c exc' read' writeback
  refsAt : count' + refs own exc read slot = count + refs own' exc' read' slot
  refsOther : ∀ t : Nat, t ≠ slot → refs own' exc' read' t = refs own exc read t
  ownInv : ∀ ss ∈ own', SharedInv c exc' read' ss
  others : ∀ ss, SharedInv c exc read ss → (ss.t = slot → refs own exc read slot < count) →
    SharedInv c exc' read' ss
  stored : storedIn c exc read = storedIn c exc' read'

/-- A counter counts what takes part in the step, and the others of its slot. -/
theorem Framed.count_eq (framed : Framed ⟨none, .singleton slot count, own, e, r, none⟩ rest c)
    (isSlot : slot < rcWidth) : count = refs own (e.or rest.exc) (r.or rest.read) slot +
      countSharedRefs rest.sharedState slot := by
  have counted := framed.refCounts slot isSlot
  simp only [lookup_singleton, if_pos, Option.some_or, Option.some.injEq] at counted
  rw [refs]
  omega

theorem sound_of_counter (isSlot : slot < rcWidth)
    (step : ∀ c exc read writeback, (e = none ∨ exc = none) → (r = none ∨ read = none) →
      Control c (e.or exc) (r.or read) writeback →
      (∀ ss ∈ own, SharedInv c (e.or exc) (r.or read) ss) →
      refs own (e.or exc) (r.or read) slot ≤ count →
      ∃ count' own' e' r', m' = some ⟨none, .singleton slot count', own', e', r', none⟩ ∧
        (e' = none ∨ exc = none) ∧ (r' = none ∨ read = none) ∧
        Counted slot count c own (e.or exc) (r.or read) count' own' (e'.or exc) (r'.or read)
          writeback) :
    Sound (some ⟨none, .singleton slot count, own, e, r, none⟩) m'
      .internal := by
  apply sound_of_framed
  · intro isUnit
    have noCount : FiniteMap.singleton slot count = .empty := congrArg Shard.refCounts isUnit
    have found := lookup_singleton slot slot count
    simp [noCount] at found
  rintro ⟨_, _, shared, exc, read, writeback⟩ c framed
  obtain ⟨-, countsApart, excApart, readApart, -⟩ := framed.compatible
  have isCount : count = refs own (e.or exc) (r.or read) slot + countSharedRefs shared slot :=
    framed.count_eq isSlot
  simp only [Option.isNone_iff_eq_none] at excApart readApart
  obtain ⟨count', own', e', r', rfl, excApart', readApart', counted⟩ :=
    step c exc read writeback excApart readApart framed.control
      (fun ss member => framed.sharedState ss (.inl member)) (by omega)
  refine ⟨_, c, rfl, ⟨?_, framed.isCentral, counted.control, ?_, ?_⟩, ?_⟩
  · exact ⟨by simp, countsApart, by simpa using excApart', by simpa using readApart', by simp⟩
  · intro t isSlot'
    have others := framed.refCounts t isSlot'
    simp only [lookup_singleton] at others ⊢
    by_cases isKey : t = slot
    · subst isKey
      have refsAt := counted.refsAt
      simp only [refs] at refsAt isCount
      simp only [if_pos, Option.some_or, Option.some.injEq]
      omega
    · have refsOther := counted.refsOther t isKey
      simp only [refs] at refsOther
      simp only [isKey, if_false, Option.none_or] at others ⊢
      rw [others, Option.some.injEq]
      omega
  · rintro ss (isOwn | isOther)
    · exact counted.ownInv ss isOwn
    · apply counted.others ss (framed.sharedState ss (.inr isOther))
      intro isSlot'
      have positive : 0 < countSharedRefs shared ss.t :=
        Multiset.countP_pos.mpr ⟨ss, isOther, rfl⟩
      rw [isSlot'] at positive
      omega
  · simpa using counted.stored

section Dot

variable (slot count : Nat)

theorem mapUpdate_singleton_empty :
    (FiniteMap.singleton slot count).mapUpdate .empty = .singleton slot count := by
  apply FiniteMap.ext
  intro t
  rw [lookup_mapUpdate, lookup_empty, Option.none_or]

theorem mapUpdate_empty_singleton :
    FiniteMap.empty.mapUpdate (.singleton slot count) = .singleton slot count := by
  apply FiniteMap.ext
  intro t
  rw [lookup_mapUpdate, lookup_empty, Option.or_none]

theorem dot_refCount_exc (exc : ExcState Stored) :
    dot (refCount slot count) (excHandle exc) =
      some ⟨none, .singleton slot count, 0, some exc, none, none⟩ := by
  simp [dot, refCount, excHandle, Compatible, Shard.merge, unitShard, mapUpdate_empty_singleton]

theorem dot_exc_refCount (exc : ExcState Stored) :
    dot (excHandle exc) (refCount slot count) =
      some ⟨none, .singleton slot count, 0, some exc, none, none⟩ := by
  simp [dot, refCount, excHandle, Compatible, Shard.merge, unitShard, mapUpdate_singleton_empty]

theorem dot_read_refCount (read : ReadState) :
    dot (readHandle read : M Stored) (refCount slot count) =
      some ⟨none, .singleton slot count, 0, none, some read, none⟩ := by
  simp [dot, refCount, readHandle, Compatible, Shard.merge, unitShard, mapUpdate_singleton_empty]

theorem dot_refCount_shared (ss : SharedState Stored) :
    dot (refCount slot count) (sharedHandle ss) =
      some ⟨none, .singleton slot count, {ss}, none, none, none⟩ := by
  simp [dot, refCount, sharedHandle, Compatible, Shard.merge, unitShard, mapUpdate_empty_singleton]

end Dot

theorem refCount_eq (slot count : Nat) : (refCount slot count : M Stored) =
    some ⟨none, .singleton slot count, 0, none, none, none⟩ := rfl

theorem slotRef_natCast_of_ne {t' : Nat} (isOther : t ≠ t') : slotRef t' t = 0 := by
  apply slotRef_of_ne
  omega

theorem excIncCount_sound (step : ExcIncCount m m' t) : Sound m m' .internal := by
  obtain ⟨_, clean, isSlot, rfl, rfl⟩ := step
  rw [dot_refCount_exc, dot_refCount_exc]
  apply sound_of_counter isSlot
  intro c exc read writeback noExc _ control _ _
  obtain rfl : exc = none := by simpa using noExc
  cases control with
  | excObtained b _ isFlag =>
    have isSlot' : -1 ≤ (t : Int) ∧ (t : Int) < rcWidth := by omega
    refine ⟨_, _, _, _, rfl, .inr rfl, .inl rfl, .excObtained b isSlot' isFlag, ?_, ?_, ?_, ?_, ?_⟩
    · simp [refs, slotRef_self]
    · intro other isOther
      simp [refs, slotRef_natCast_of_ne isOther]
    · simp
    · exact fun ss inv _ => .of_closed (.inr (.inl ⟨-1, clean, rfl⟩)) inv
    · rfl

theorem readingIncCount_sound (step : ReadingIncCount m m' t) : Sound m m' .internal := by
  obtain ⟨_, isSlot, rfl, rfl⟩ := step
  rw [dot_read_refCount, dot_read_refCount]
  apply sound_of_counter isSlot
  intro c exc read writeback _ noRead control _ _
  obtain rfl : read = none := by simpa using noRead
  cases control with
  | readPending b =>
    have isSlot' : 0 ≤ (t : Int) ∧ (t : Int) < rcWidth := by omega
    refine ⟨_, _, _, _, rfl, .inl rfl, .inr rfl, .readPendingCounted b isSlot', ?_, ?_, ?_, ?_, ?_⟩
    · simp [refs, slotRef_self]
    · intro other isOther
      simp [refs, slotRef_natCast_of_ne isOther]
    · simp
    · exact fun ss inv _ => .of_closed (.inr (.inr (.inl rfl))) inv
    · rfl

/-- No other owner has a reference in the slot, so that all that read are above it. -/
theorem takeExcLockCheckRefCount_sound (step : TakeExcLockCheckRefCount m m') :
    Sound m m' .internal := by
  obtain ⟨t, visited, _, b, isSlot, rfl, rfl⟩ := step
  rw [dot_exc_refCount, dot_exc_refCount]
  apply sound_of_counter isSlot
  intro c exc read writeback noExc _ control _ _
  obtain rfl : exc = none := by simpa using noExc
  cases control with
  | excPending _ isThread _ isFlag =>
    have isVisited : 0 ≤ (visited : Int) + 1 ∧ (visited : Int) + 1 ≤ rcWidth := by omega
    refine ⟨_, _, _, _, rfl, .inr rfl, .inl rfl, .excPending b isThread isVisited isFlag, ?_, ?_,
      ?_, ?_, ?_⟩
    · simp [refs]
    · simp [refs]
    · simp
    · intro ss inv alone
      have isOther : ss.t ≠ visited := by
        intro isVisited
        have others := alone isVisited
        have expected : (if (visited : Int) = t then 1 else 0) = slotRef t visited :=
          if_congr eq_comm rfl rfl
        simp [refs, expected] at others
      cases ss with
      | sharedPending _ => exact inv
      | sharedPending2 _ =>
        obtain ⟨isSlot, _, _, _, belowSlot, mapped⟩ := inv
        have below := belowSlot _ _ _ _ rfl
        refine ⟨isSlot, by simp, by simp, by simp, ?_, mapped⟩
        rintro _ _ _ _ ⟨⟩
        exact Int.add_one_le_of_lt (lt_of_le_of_ne below isOther.symm)
      | sharedObtained _ _ =>
        obtain ⟨isSlot, isStored, _, noReader, mapped, belowSlot⟩ := inv
        have below := belowSlot _ _ _ _ rfl
        refine ⟨isSlot, isStored, by simp, noReader, mapped, ?_⟩
        rintro _ _ _ _ ⟨⟩
        exact Int.add_one_le_of_lt (lt_of_le_of_ne below isOther.symm)
    · rfl

/-- All counters have been visited, and nobody reads any more. -/
theorem withdrawTakeExcLockFinish_sound (step : WithdrawTakeExcLockFinish m m' b) :
    Sound m m' (.withdraw b) := by
  obtain ⟨_, _, rfl, rfl⟩ := step
  apply sound_of_framed (by simp [unitShard])
  rintro ⟨_, _, _, exc, _, _⟩ c framed
  have compatible := framed.compatible
  have control := framed.control
  have sharedState := framed.sharedState
  obtain ⟨-, countsApart, excApart, -⟩ := compatible
  obtain rfl : exc = none := by simpa using excApart
  cases control with
  | excPending _ isSlot _ isFlag =>
    refine ⟨_, _, rfl, ⟨?_, framed.isCentral, .excObtained b isSlot isFlag, framed.refCounts, ?_⟩,
      .withdraw b⟩
    · exact ⟨by simp [unitShard], countsApart, .inr rfl, .inl rfl, .inl rfl⟩
    · rintro ss (isOwn | isOther)
      · simp [unitShard] at isOwn
      · have inv := sharedState ss (.inr isOther)
        cases ss with
        | sharedPending _ => exact inv
        | sharedPending2 _ =>
          have below := inv.2.2.2.2.1 _ _ _ _ rfl
          have isSlot := inv.1
          omega
        | sharedObtained _ _ =>
          have below := inv.2.2.2.2.2 _ _ _ _ rfl
          have isSlot := inv.1
          omega

theorem sharedIncCount_sound (step : SharedIncCount m m' t) : Sound m m' .internal := by
  obtain ⟨_, isSlot, rfl, rfl⟩ := step
  rw [refCount_eq, dot_refCount_shared]
  apply sound_of_counter isSlot
  intro c exc read writeback _ _ control _ _
  refine ⟨_, _, _, _, rfl, .inl rfl, .inl rfl, control, ?_, ?_, ?_, ?_, ?_⟩
  · simp [refs, slotRef_self]
    omega
  · intro other isOther
    simp [refs, slotRef_natCast_of_ne isOther]
  · simp [SharedInv, isSlot]
  · exact fun ss inv _ => inv
  · rfl

theorem sharedDecCount_sound (isThread : ss.t = t) (step : SharedDecCount m m' t ss) :
    Sound m m' .internal := by
  obtain ⟨_, isSlot, rfl, isNext⟩ := step
  rw [dot_refCount_shared]
  apply sound_of_counter isSlot
  intro c exc read writeback _ _ control _ counted
  simp only [refs, countSharedRefs_singleton, isThread, slotRef_self] at counted
  rw [isNext (by omega), refCount_eq]
  refine ⟨_, _, _, _, rfl, .inl rfl, .inl rfl, control, ?_, ?_, ?_, ?_, ?_⟩
  · simp only [refs, countSharedRefs_singleton, countSharedRefs_zero, isThread, slotRef_self]
    omega
  · intro other isOther
    simp only [refs, countSharedRefs_singleton, countSharedRefs_zero, isThread,
      slotRef_natCast_of_ne isOther]
  · simp
  · exact fun ss inv _ => inv
  · rfl

theorem sharedCheckExc_sound {t : Int} (step : SharedCheckExc m m' t) : Sound m m' .internal := by
  obtain ⟨central, isFlag, rfl, rfl⟩ := step
  rw [dot_central_shared, dot_central_shared]
  apply sound_of_central
  intro exc read writeback _ _ _ control own
  have allowed : SharedInv central exc read (.sharedPending2 t) := by
    cases control with
    | @excPending _ _ _ clean _ _ _ isFlag' | @excObtained _ _ clean _ _ isFlag' =>
      cases clean <;> simp [isFlag', excLockFlag] at isFlag
    | _ => simp_all [SharedInv]
  exact ⟨_, _, _, _, _, rfl, .inl rfl, .inl rfl, .inl rfl, control, by simp,
    by simpa using allowed, fun _ inv => inv, .internal _⟩

/-- Who fills the page has not finished as long as the flag says so. -/
theorem sharedCheckReading_sound {t : Int} (step : SharedCheckReading m m' t) :
    Sound m m' .internal := by
  obtain ⟨central, -, -, notReading, rfl, rfl⟩ := step
  rw [dot_central_shared, dot_central_shared]
  apply sound_of_central
  intro exc read writeback _ _ _ control own
  obtain ⟨isSlot, notObtained, notPending, notCounted, belowSlot, mapped⟩ :=
    own _ (Multiset.mem_singleton_self _)
  have noReader : read = none := by
    cases control with
    | readPending => exact absurd rfl notPending
    | readPendingCounted => exact absurd rfl (notCounted _)
    | readObtained => exact absurd rfl notReading
    | _ => rfl
  have allowed : SharedInv central exc read (.sharedObtained t central.storedValue) :=
    ⟨isSlot, rfl, notObtained, noReader, mapped, belowSlot⟩
  exact ⟨_, _, _, _, _, rfl, .inl rfl, .inl rfl, .inl rfl, control, by simp,
    by simpa using allowed, fun _ inv => inv, .internal _⟩

end VerifiedBetrfs.RwLock
