import VerifiedBetrfs.RwLock

/-!
# The invariant of the reader-writer lock

The flag tells the control state of the lock, and each counter is the number of references of its
slot.
-/

namespace VerifiedBetrfs.RwLock

variable {Stored : Type}

/-- What the flag says about the exclusive parts. -/
def FlagInv (flag : Flag) (exc : Option (ExcState Stored)) (read : Option ReadState)
    (writeback : Option (WritebackState Stored)) : Prop :=
  match flag with
  | .unmapped => writeback = none ∧ read = none ∧ exc = none
  | .reading => (∃ t, read = some (.readObtained t)) ∧ writeback = none
  | .readingExcLock =>
    (read = some .readPending ∨ ∃ t, read = some (.readPendingCounted t)) ∧ writeback = none
  | .available => exc = none ∧ read = none ∧ writeback = none
  | .writeback => exc = none ∧ read = none ∧ ∃ b, writeback = some (.writebackObtained b)
  | .excLockClean =>
    ((∃ t visited b, exc = some (.excPending t visited true b)) ∨
      ∃ t, exc = some (.excObtained t true)) ∧ writeback = none
  | .excLockDirty =>
    ((∃ t visited b, exc = some (.excPending t visited false b)) ∨
      ∃ t, exc = some (.excObtained t false)) ∧ writeback = none
  | .writebackPendingExcLock =>
    (∃ t b, exc = some (.excPendingAwaitWriteback t b)) ∧
      ∃ b, writeback = some (.writebackObtained b)
  | .pendingExcLock =>
    (∃ t b, exc = some (.excPendingAwaitWriteback t b)) ∧ writeback = none
  | .writebackClaimed =>
    (∃ t b, exc = some (.excClaim t b)) ∧ ∃ b, writeback = some (.writebackObtained b)
  | .claimed => (∃ t b, exc = some (.excClaim t b)) ∧ writeback = none

/-- What holds as long as one of the owners that share the page is there. -/
def SharedInv (central : CentralState Stored) (exc : Option (ExcState Stored))
    (read : Option ReadState) : SharedState Stored → Prop
  | .sharedPending t => 0 ≤ t ∧ t < rcWidth
  | .sharedPending2 t =>
    (0 ≤ t ∧ t < rcWidth) ∧ (∀ t' clean, exc ≠ some (.excObtained t' clean)) ∧
      read ≠ some .readPending ∧ (∀ t', read ≠ some (.readPendingCounted t')) ∧
      (∀ t' visited clean b, exc = some (.excPending t' visited clean b) → visited ≤ t) ∧
      central.flag ≠ .unmapped
  | .sharedObtained t b =>
    (0 ≤ t ∧ t < rcWidth) ∧ b = central.storedValue ∧
      (∀ t' clean, exc ≠ some (.excObtained t' clean)) ∧ read = none ∧
      central.flag ≠ .unmapped ∧
      ∀ t' visited clean b, exc = some (.excPending t' visited clean b) → visited ≤ t

/-- The parts of the lock fit the flag and the counters. -/
structure ShardInv (x : Shard Stored) (central : CentralState Stored) : Prop where
  excPendingAwaitWriteback : ∀ t b, x.exc = some (.excPendingAwaitWriteback t b) →
    x.read = none ∧ (-1 ≤ t ∧ t < rcWidth) ∧ b = central.storedValue
  excClaim : ∀ t b, x.exc = some (.excClaim t b) →
    x.read = none ∧ (-1 ≤ t ∧ t < rcWidth) ∧ b = central.storedValue
  excPending : ∀ t visited clean b, x.exc = some (.excPending t visited clean b) →
    x.read = none ∧ x.writeback = none ∧ (0 ≤ visited ∧ visited ≤ rcWidth) ∧
      (-1 ≤ t ∧ t < rcWidth) ∧ b = central.storedValue
  excObtained : ∀ t clean, x.exc = some (.excObtained t clean) →
    x.read = none ∧ x.writeback = none ∧ -1 ≤ t ∧ t < rcWidth
  writebackObtained : ∀ b, x.writeback = some (.writebackObtained b) →
    x.read = none ∧ b = central.storedValue
  readPending : x.read = some .readPending → x.writeback = none
  readPendingCounted : ∀ t, x.read = some (.readPendingCounted t) →
    x.writeback = none ∧ 0 ≤ t ∧ t < rcWidth
  readObtained : ∀ t, x.read = some (.readObtained t) → -1 ≤ t ∧ t < rcWidth
  refCounts : ∀ t, t < rcWidth → x.refCounts.lookup t = some (countAllRefs x t)
  flag : FlagInv central.flag x.exc x.read x.writeback
  sharedState : ∀ ss ∈ x.sharedState, SharedInv central x.exc x.read ss

/-- The state of a lock that is there. -/
def Occupied (m : M Stored) : Prop :=
  ∃ x central, m = some x ∧ x.central = some central ∧ ShardInv x central

def Inv (m : M Stored) : Prop := m ≠ unit → Occupied m

/-- The lock as a primitive that keeps the handle of the page. -/
def rwLock (Stored : Type) : Rw (M Stored) Stored where
  dot := dot
  unit := unit
  Inv := Inv
  interp := interp

/-- The flag with the owners that go with it. -/
inductive Control : CentralState Stored → Option (ExcState Stored) → Option ReadState →
    Option (WritebackState Stored) → Prop where
  | unmapped (b : Stored) : Control ⟨.unmapped, b⟩ none none none
  | readPending (b : Stored) : Control ⟨.readingExcLock, b⟩ none (some .readPending) none
  | readPendingCounted (b : Stored) {t : Int} (isSlot : 0 ≤ t ∧ t < rcWidth) :
      Control ⟨.readingExcLock, b⟩ none (some (.readPendingCounted t)) none
  | readObtained (b : Stored) {t : Int} (isSlot : -1 ≤ t ∧ t < rcWidth) :
      Control ⟨.reading, b⟩ none (some (.readObtained t)) none
  | available (b : Stored) : Control ⟨.available, b⟩ none none none
  | writeback (b : Stored) : Control ⟨.writeback, b⟩ none none (some (.writebackObtained b))
  | claimed (b : Stored) {t : Int} (isSlot : -1 ≤ t ∧ t < rcWidth) :
      Control ⟨.claimed, b⟩ (some (.excClaim t b)) none none
  | writebackClaimed (b : Stored) {t : Int} (isSlot : -1 ≤ t ∧ t < rcWidth) :
      Control ⟨.writebackClaimed, b⟩ (some (.excClaim t b)) none
        (some (.writebackObtained b))
  | pendingExcLock (b : Stored) {t : Int} (isSlot : -1 ≤ t ∧ t < rcWidth) :
      Control ⟨.pendingExcLock, b⟩ (some (.excPendingAwaitWriteback t b)) none none
  | writebackPendingExcLock (b : Stored) {t : Int} (isSlot : -1 ≤ t ∧ t < rcWidth) :
      Control ⟨.writebackPendingExcLock, b⟩ (some (.excPendingAwaitWriteback t b)) none
        (some (.writebackObtained b))
  | excPending (b : Stored) {t visited : Int} {clean : Bool} {flag : Flag}
      (isSlot : -1 ≤ t ∧ t < rcWidth) (isVisited : 0 ≤ visited ∧ visited ≤ rcWidth)
      (isFlag : flag = excLockFlag clean) :
      Control ⟨flag, b⟩ (some (.excPending t visited clean b)) none none
  | excObtained (b : Stored) {t : Int} {clean : Bool} {flag : Flag}
      (isSlot : -1 ≤ t ∧ t < rcWidth) (isFlag : flag = excLockFlag clean) :
      Control ⟨flag, b⟩ (some (.excObtained t clean)) none none

variable {central : CentralState Stored} {x : Shard Stored}

theorem ShardInv.exc_eq_none (inv : ShardInv x central) {read : ReadState}
    (isRead : x.read = some read) : x.exc = none := by
  have notNone : x.read ≠ none := by simp [isRead]
  cases isExc : x.exc with
  | none => rfl
  | some exc =>
    cases exc with
    | excClaim t b => exact absurd (inv.excClaim t b isExc).1 notNone
    | excPendingAwaitWriteback t b =>
      exact absurd (inv.excPendingAwaitWriteback t b isExc).1 notNone
    | excPending t visited clean b =>
      exact absurd (inv.excPending t visited clean b isExc).1 notNone
    | excObtained t clean => exact absurd (inv.excObtained t clean isExc).1 notNone

/-- The exclusive parts that the flag asks for are in one of the control states. -/
theorem ShardInv.control (inv : ShardInv x central) : Control central x.exc x.read x.writeback := by
  obtain ⟨flag, stored⟩ := central
  obtain ⟨_, _, _, exc, _, writeback⟩ := x
  have byFlag := inv.flag
  cases flag with
  | unmapped =>
    obtain ⟨rfl, rfl, rfl⟩ := byFlag
    exact .unmapped stored
  | reading =>
    obtain ⟨⟨t, rfl⟩, rfl⟩ := byFlag
    obtain rfl : exc = none := inv.exc_eq_none rfl
    exact .readObtained stored (inv.readObtained t rfl)
  | readingExcLock =>
    obtain ⟨rfl | ⟨t, rfl⟩, rfl⟩ := byFlag
    · obtain rfl : exc = none := inv.exc_eq_none rfl
      exact .readPending stored
    · obtain rfl : exc = none := inv.exc_eq_none rfl
      exact .readPendingCounted stored (inv.readPendingCounted t rfl).2
  | available =>
    obtain ⟨rfl, rfl, rfl⟩ := byFlag
    exact .available stored
  | claimed =>
    obtain ⟨⟨t, b, rfl⟩, rfl⟩ := byFlag
    obtain ⟨rfl, isSlot, rfl⟩ := inv.excClaim t b rfl
    exact .claimed _ isSlot
  | writeback =>
    obtain ⟨rfl, rfl, b, rfl⟩ := byFlag
    obtain ⟨-, rfl⟩ := inv.writebackObtained b rfl
    exact .writeback _
  | writebackClaimed =>
    obtain ⟨⟨t, b, rfl⟩, b', rfl⟩ := byFlag
    obtain ⟨rfl, isSlot, rfl⟩ := inv.excClaim t b rfl
    obtain ⟨-, rfl⟩ := inv.writebackObtained b' rfl
    exact .writebackClaimed _ isSlot
  | writebackPendingExcLock =>
    obtain ⟨⟨t, b, rfl⟩, b', rfl⟩ := byFlag
    obtain ⟨rfl, isSlot, rfl⟩ := inv.excPendingAwaitWriteback t b rfl
    obtain ⟨-, rfl⟩ := inv.writebackObtained b' rfl
    exact .writebackPendingExcLock _ isSlot
  | pendingExcLock =>
    obtain ⟨⟨t, b, rfl⟩, rfl⟩ := byFlag
    obtain ⟨rfl, isSlot, rfl⟩ := inv.excPendingAwaitWriteback t b rfl
    exact .pendingExcLock _ isSlot
  | excLockClean =>
    obtain ⟨⟨t, visited, b, rfl⟩ | ⟨t, rfl⟩, rfl⟩ := byFlag
    · obtain ⟨rfl, -, isVisited, isSlot, rfl⟩ := inv.excPending t visited true b rfl
      exact .excPending _ isSlot isVisited rfl
    · obtain ⟨rfl, -, isSlot⟩ := inv.excObtained t true rfl
      exact .excObtained _ isSlot rfl
  | excLockDirty =>
    obtain ⟨⟨t, visited, b, rfl⟩ | ⟨t, rfl⟩, rfl⟩ := byFlag
    · obtain ⟨rfl, -, isVisited, isSlot, rfl⟩ := inv.excPending t visited false b rfl
      exact .excPending _ isSlot isVisited rfl
    · obtain ⟨rfl, -, isSlot⟩ := inv.excObtained t false rfl
      exact .excObtained _ isSlot rfl

theorem Control.flagInv {exc : Option (ExcState Stored)} {read : Option ReadState}
    {writeback : Option (WritebackState Stored)} (control : Control central exc read writeback) :
    FlagInv central.flag exc read writeback := by
  cases control with
  | @excPending b t visited clean flag isSlot isVisited isFlag
  | @excObtained b t clean flag isSlot isFlag =>
    cases clean <;> simp [FlagInv, isFlag, excLockFlag]
  | _ => simp [FlagInv]

theorem ShardInv.of_control (control : Control central x.exc x.read x.writeback)
    (refCounts : ∀ t, t < rcWidth → x.refCounts.lookup t = some (countAllRefs x t))
    (sharedState : ∀ ss ∈ x.sharedState, SharedInv central x.exc x.read ss) :
    ShardInv x central := by
  have flag := control.flagInv
  obtain ⟨_, _, _, _, _, _⟩ := x
  constructor
  case refCounts => exact refCounts
  case flag => exact flag
  case sharedState => exact sharedState
  all_goals
    clear refCounts sharedState flag
    intros
    cases control <;> simp_all

section

variable (central : CentralState Stored) (exc : Option (ExcState Stored)) (read : Option ReadState)

/-- Nobody may read the page, so that each owner is still in its first phase. -/
def Closed : Prop :=
  central.flag = .unmapped ∨ (∃ t clean, exc = some (.excObtained t clean)) ∨
    read = some .readPending ∨ ∃ t, read = some (.readPendingCounted t)

/-- Everybody may read the page. -/
def Open : Prop :=
  central.flag ≠ .unmapped ∧ read = none ∧
    match exc with
    | some (.excObtained _ _) => False
    | some (.excPending _ visited _ _) => visited = 0
    | _ => True

end

section Shared

variable {central central' : CentralState Stored} {exc exc' : Option (ExcState Stored)}
  {read read' : Option ReadState} {ss : SharedState Stored}

theorem SharedInv.isSlot (inv : SharedInv central exc read ss) : 0 ≤ ss.t ∧ ss.t < rcWidth := by
  cases ss with
  | sharedPending t => exact inv
  | sharedPending2 t | sharedObtained t b => exact inv.1

theorem SharedInv.eq_sharedPending (inv : SharedInv central exc read ss)
    (closed : Closed central exc read) : ss = .sharedPending ss.t := by
  cases ss with
  | sharedPending t => rfl
  | sharedPending2 t =>
    obtain ⟨-, notObtained, notPending, notCounted, -, mapped⟩ := inv
    obtain isUnmapped | ⟨t', clean, isExc⟩ | isRead | ⟨t', isRead⟩ := closed
    · exact absurd isUnmapped mapped
    · exact absurd isExc (notObtained t' clean)
    · exact absurd isRead notPending
    · exact absurd isRead (notCounted t')
  | sharedObtained t b =>
    obtain ⟨-, -, notObtained, noReader, mapped, -⟩ := inv
    obtain isUnmapped | ⟨t', clean, isExc⟩ | isRead | ⟨t', isRead⟩ := closed
    · exact absurd isUnmapped mapped
    · exact absurd isExc (notObtained t' clean)
    · simp [noReader] at isRead
    · simp [noReader] at isRead

theorem SharedInv.of_closed (closed : Closed central exc read)
    (inv : SharedInv central exc read ss) : SharedInv central' exc' read' ss := by
  have isSlot := inv.isSlot
  rw [inv.eq_sharedPending closed]
  exact isSlot

/-- The new state lets everybody read what has been stored before. -/
theorem SharedInv.of_open (sameStored : central'.storedValue = central.storedValue)
    (isOpen : Open central' exc' read') (inv : SharedInv central exc read ss) :
    SharedInv central' exc' read' ss := by
  obtain ⟨mapped, rfl, unlocked⟩ := isOpen
  have isSlot := inv.isSlot
  have notObtained : ∀ t clean, exc' ≠ some (.excObtained t clean) := by
    rintro t clean rfl
    exact unlocked
  have belowSlot : ∀ t visited clean b, exc' = some (.excPending t visited clean b) →
      visited ≤ ss.t := by
    rintro t visited clean b rfl
    obtain rfl : visited = 0 := unlocked
    exact isSlot.1
  cases ss with
  | sharedPending t => exact isSlot
  | sharedPending2 t => exact ⟨isSlot, notObtained, by simp, by simp, belowSlot, mapped⟩
  | sharedObtained t b =>
    have isStored : b = central'.storedValue := inv.2.1.trans sameStored.symm
    exact ⟨isSlot, isStored, notObtained, rfl, mapped, belowSlot⟩

theorem SharedInv.of_reading {t : Int} (isReading : read = some (.readObtained t))
    (mapped : central'.flag ≠ .unmapped) (noReader : read' = none) (notLocked : exc' = none)
    (inv : SharedInv central exc read ss) : SharedInv central' exc' read' ss := by
  cases ss with
  | sharedPending t => exact inv
  | sharedPending2 t =>
    exact ⟨inv.1, by simp [notLocked], by simp [noReader], by simp [noReader],
      by simp [notLocked], mapped⟩
  | sharedObtained t b =>
    obtain ⟨-, -, -, absent, -⟩ := inv
    rw [isReading] at absent
    cases absent

end Shared

end VerifiedBetrfs.RwLock
