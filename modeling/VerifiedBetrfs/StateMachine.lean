import Mathlib.Data.List.Basic

/-!
# Labelled state machines, behaviors and refinement

An inductive invariant holds along every behavior, and a step-by-step refinement carries behaviors
to behaviors with the same labels.
-/

namespace VerifiedBetrfs

universe u v w

/-- A state machine whose transitions carry a label. -/
structure StateMachine (State : Type u) (Label : Type v) where
  Init : State → Prop
  Next : State → State → Label → Prop

namespace StateMachine

variable {State : Type u} {Label : Type v} {Abstract : Type w}

/-- A finite run from an initial state.  The indices past `length` carry no
information. -/
structure Behavior (machine : StateMachine State Label) where
  length : Nat
  states : Nat → State
  labels : Nat → Label
  starts : machine.Init (states 0)
  steps : ∀ index < length,
    machine.Next (states index) (states (index + 1)) (labels index)

/-- The labels of the first `count` steps of a behavior, in order. -/
def Behavior.history {machine : StateMachine State Label}
    (run : machine.Behavior) (count : Nat) : List Label :=
  (List.range count).map run.labels

variable {machine : StateMachine State Label} {invariant : State → Prop}

@[simp]
theorem Behavior.history_zero (run : machine.Behavior) : run.history 0 = [] :=
  rfl

theorem Behavior.history_succ (run : machine.Behavior) (count : Nat) :
    run.history (count + 1) = run.history count ++ [run.labels count] := by
  simp [Behavior.history, List.range_succ]

/-- A predicate that holds initially and is preserved by every step. -/
structure Inductive (machine : StateMachine State Label)
    (invariant : State → Prop) : Prop where
  init : ∀ {s}, machine.Init s → invariant s
  next : ∀ {s s' label}, invariant s → machine.Next s s' label → invariant s'

/-- An inductive invariant holds at every point of every behavior. -/
theorem Inductive.holds (inductive' : machine.Inductive invariant) (run : machine.Behavior)
    {index : Nat} (indexLe : index ≤ run.length) : invariant (run.states index) := by
  induction index with
  | zero => exact inductive'.init run.starts
  | succ index ih =>
    exact inductive'.next (ih (by omega)) (run.steps index (by omega))

/-- A step-by-step refinement under a function, on the states with an invariant. -/
structure Refines (machine : StateMachine State Label)
    (spec : StateMachine Abstract Label) (invariant : State → Prop)
    (interp : State → Abstract) : Prop where
  init : ∀ {s}, machine.Init s → invariant s ∧ spec.Init (interp s)
  next : ∀ {s s' label}, invariant s → machine.Next s s' label →
    invariant s' ∧ spec.Next (interp s) (interp s') label

theorem Refines.inductive' {spec : StateMachine Abstract Label} {interp : State → Abstract}
    (refines : machine.Refines spec invariant interp) : machine.Inductive invariant where
  init initial := (refines.init initial).1
  next holds step := (refines.next holds step).1

/-- The image of a behavior under a refinement is a behavior of the
specification with the same labels. -/
def Refines.image {machine : StateMachine State Label}
    {spec : StateMachine Abstract Label} {invariant : State → Prop}
    {interp : State → Abstract}
    (refines : machine.Refines spec invariant interp)
    (run : machine.Behavior) : spec.Behavior where
  length := run.length
  states index := interp (run.states index)
  labels := run.labels
  starts := (refines.init run.starts).2
  steps index indexLt :=
    (refines.next (refines.inductive'.holds run (by omega))
      (run.steps index indexLt)).2

/-- The transitions chained from one state to another, with their labels. -/
inductive Path (machine : StateMachine State Label) :
    State → List Label → State → Prop
  | nil (s : State) : Path machine s [] s
  | snoc {s middle s' : State} {labels : List Label} {label : Label}
      (path : Path machine s labels middle)
      (next : machine.Next middle s' label) :
      Path machine s (labels ++ [label]) s'

theorem Path.trans {s middle s' : State} {first second : List Label}
    (before : machine.Path s first middle) (after : machine.Path middle second s') :
    machine.Path s (first ++ second) s' := by
  induction after with
  | nil => simpa using before
  | snoc _ next ih =>
    rw [← List.append_assoc]
    exact ih.snoc next

end StateMachine

end VerifiedBetrfs
