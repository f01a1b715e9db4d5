import Mathlib.Data.List.Basic

/-!
# Monoids that keep a stored thing

The users of a primitive own parts of its state and change them in ways that are right in every
frame.
-/

namespace VerifiedBetrfs

/-- The state of the primitive, and what it stores. -/
structure Rw (M Stored : Type) where
  dot : M → M → M
  unit : M
  Inv : M → Prop
  interp : M → Option Stored

/-- What a step does to the stored value. -/
inductive RwEvent (Stored : Type) where
  | internal
  | withdraw (x : Stored)
  | deposit (x : Stored)

namespace Rw

variable {M Stored : Type} (rw : Rw M Stored)

/-- The invariant and what is stored are kept in every frame. -/
def Transition (a b : M) : Prop :=
  ∀ p, rw.Inv (rw.dot a p) →
    rw.Inv (rw.dot b p) ∧ rw.interp (rw.dot a p) = rw.interp (rw.dot b p)

def Withdraw (a b : M) (x : Stored) : Prop :=
  ∀ p, rw.Inv (rw.dot a p) →
    rw.Inv (rw.dot b p) ∧ rw.interp (rw.dot a p) = some x ∧ rw.interp (rw.dot b p) = none

def Deposit (a b : M) (x : Stored) : Prop :=
  ∀ p, rw.Inv (rw.dot a p) →
    rw.Inv (rw.dot b p) ∧ rw.interp (rw.dot a p) = none ∧ rw.interp (rw.dot b p) = some x

/-- A change of one part is right in every frame. -/
def Permits (a b : M) : RwEvent Stored → Prop
  | .internal => rw.Transition a b
  | .withdraw x => rw.Withdraw a b x
  | .deposit x => rw.Deposit a b x

/-- The runs in which each step changes one part of the whole. -/
inductive Run (Next : M → M → RwEvent Stored → Prop) (start : M) :
    List (RwEvent Stored) → M → Prop where
  | refl : Run Next start [] start
  | tail {events : List (RwEvent Stored)} {a b p : M} {event : RwEvent Stored} :
      Run Next start events (rw.dot a p) → Next a b event →
        Run Next start (events ++ [event]) (rw.dot b p)

end Rw

/-- A cell that is empty or holds one thing. -/
inductive CellStep {Stored : Type} : Option Stored → RwEvent Stored → Option Stored → Prop where
  | internal (cell : Option Stored) : CellStep cell .internal cell
  | withdraw (x : Stored) : CellStep (some x) (.withdraw x) none
  | deposit (x : Stored) : CellStep none (.deposit x) (some x)

namespace CellStep

variable {Stored : Type} {cell cell' : Option Stored} {x : Stored}

@[simp]
theorem internal_iff : CellStep cell .internal cell' ↔ cell = cell' := by
  constructor
  · rintro ⟨⟩
    rfl
  · rintro rfl
    exact .internal cell

@[simp]
theorem withdraw_iff : CellStep cell (.withdraw x) cell' ↔ cell = some x ∧ cell' = none := by
  constructor
  · rintro ⟨⟩
    exact ⟨rfl, rfl⟩
  · rintro ⟨rfl, rfl⟩
    exact .withdraw x

@[simp]
theorem deposit_iff : CellStep cell (.deposit x) cell' ↔ cell = none ∧ cell' = some x := by
  constructor
  · rintro ⟨⟩
    exact ⟨rfl, rfl⟩
  · rintro ⟨rfl, rfl⟩
    exact .deposit x

end CellStep

def CellRun {Stored : Type} (start : Option Stored) :
    List (RwEvent Stored) → Option Stored → Prop
  | [], cell => start = cell
  | event :: events, cell => ∃ next, CellStep start event next ∧ CellRun next events cell

namespace CellRun

variable {Stored : Type} {start cell : Option Stored}

theorem append_iff {first second : List (RwEvent Stored)} :
    CellRun start (first ++ second) cell ↔
      ∃ middle, CellRun start first middle ∧ CellRun middle second cell := by
  induction first generalizing start with
  | nil => simp [CellRun]
  | cons event first ih =>
    simp only [List.cons_append, CellRun, ih]
    constructor
    · rintro ⟨next, step, middle, before, after⟩
      exact ⟨middle, ⟨next, step, before⟩, after⟩
    · rintro ⟨middle, ⟨next, step, before⟩, after⟩
      exact ⟨next, step, middle, before, after⟩

/-- An empty cell is filled again before something is withdrawn. -/
theorem exists_deposit {x : Stored} {events : List (RwEvent Stored)}
    (run : CellRun none events (some x)) : ∃ y, .deposit y ∈ events := by
  induction events with
  | nil => cases run
  | cons event events ih =>
    obtain ⟨_, step, rest⟩ := run
    cases step with
    | internal =>
      obtain ⟨y, member⟩ := ih rest
      exact ⟨y, List.mem_cons_of_mem _ member⟩
    | deposit y => exact ⟨y, List.mem_cons_self⟩

/-- What has been withdrawn is not withdrawn again before something is deposited. -/
theorem exists_deposit_between {x y : Stored} {before between after : List (RwEvent Stored)}
    (run : CellRun start (before ++ .withdraw x :: between ++ .withdraw y :: after) cell) :
    ∃ z, .deposit z ∈ between := by
  obtain ⟨_, lent, _, step, -⟩ := append_iff.mp run
  obtain ⟨_, -, _, taken, rest⟩ := append_iff.mp lent
  cases taken
  cases step
  exact exists_deposit rest

end CellRun

namespace Rw

variable {M Stored : Type} {rw : Rw M Stored}

/-- In every frame the invariant is kept and the stored thing is that of a cell. -/
theorem permits_iff {a b : M} {event : RwEvent Stored} : rw.Permits a b event ↔
    ∀ p, rw.Inv (rw.dot a p) → rw.Inv (rw.dot b p) ∧
      CellStep (rw.interp (rw.dot a p)) event (rw.interp (rw.dot b p)) := by
  cases event with
  | internal => simp only [Permits, Transition, CellStep.internal_iff]
  | withdraw x => simp only [Permits, Withdraw, CellStep.withdraw_iff]
  | deposit x => simp only [Permits, Deposit, CellStep.deposit_iff]

/-- What every step keeps holds along every run, and the stored thing is that of a cell. -/
theorem Run.refines {Next : M → M → RwEvent Stored → Prop} {Holds : M → Prop} {start whole : M}
    {events : List (RwEvent Stored)} (run : rw.Run Next start events whole)
    (kept : ∀ a b event, Next a b event → ∀ p, Holds (rw.dot a p) → Holds (rw.dot b p) ∧
      CellStep (rw.interp (rw.dot a p)) event (rw.interp (rw.dot b p)))
    (holds : Holds start) :
    Holds whole ∧ CellRun (rw.interp start) events (rw.interp whole) := by
  induction run with
  | refl => exact ⟨holds, rfl⟩
  | @tail events a b p event previous next ih =>
    obtain ⟨holds', step⟩ := kept a b event next p ih.1
    exact ⟨holds', CellRun.append_iff.mpr ⟨_, ih.2, _, step, rfl⟩⟩

end Rw

end VerifiedBetrfs
