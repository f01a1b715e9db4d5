import VerifiedBetrfs.FiniteMap
import VerifiedBetrfs.StateMachine

/-!
# Asynchronous state machines

What a client sees of a behavior are the starts and the ends of requests.  In the rule for
equivalent behaviors the related state may depend on what the behavior does later.
-/

namespace VerifiedBetrfs

universe u v

abbrev RequestId := Nat

/-- One operation of a sequential machine. -/
structure InputOutput (Input Output : Type) where
  input : Input
  output : Output

/-- What clients see of a step. -/
inductive AsyncOp (Input Output : Type) where
  | start (rid : RequestId) (input : Input)
  | endOp (rid : RequestId) (output : Output)
  | internalOp

namespace AsyncStateMachine

/-- A state with the requests that wait and the answers not yet taken. -/
structure Variables (State Input Output : Type) where
  s : State
  reqs : FiniteMap RequestId Input
  resps : FiniteMap RequestId Output

variable {State Input Output : Type} (machine : StateMachine State (InputOutput Input Output))

/-- The first states: no request and no answer. -/
structure Init (s : Variables State Input Output) : Prop where
  sInit : machine.Init s.s
  reqsEmpty : s.reqs = FiniteMap.empty
  respsEmpty : s.resps = FiniteMap.empty

/-- A request is answered at one instant. -/
structure InternalNext (rid : RequestId) (input : Input) (output : Output)
    (s s' : Variables State Input Output) : Prop where
  requested : s.reqs.lookup rid = some input
  reqs_eq : s'.reqs = s.reqs.erase rid
  resps_eq : s'.resps = s.resps.insert rid output
  sNext : machine.Next s.s s'.s ⟨input, output⟩

def Next (s s' : Variables State Input Output) : AsyncOp Input Output → Prop
  | .start rid input => s' = { s with reqs := s.reqs.insert rid input } ∧ s.reqs.lookup rid = none
  | .internalOp => s' = s ∨ ∃ rid input output, InternalNext machine rid input output s s'
  | .endOp rid output =>
    s = { s' with resps := s'.resps.insert rid output } ∧ s'.resps.lookup rid = none

end AsyncStateMachine

/-- The machine over the requests and the responses of a sequential machine. -/
def asyncStateMachine {State Input Output : Type}
    (machine : StateMachine State (InputOutput Input Output)) :
    StateMachine (AsyncStateMachine.Variables State Input Output) (AsyncOp Input Output) where
  Init := AsyncStateMachine.Init machine
  Next := AsyncStateMachine.Next machine

namespace Linearize

/-- A run, with the last step first. -/
inductive Behavior (State : Type u) (Input Output : Type) where
  | stepped (s : State) (op : AsyncOp Input Output) (tail : Behavior State Input Output)
  | inited (s : State)

variable {State : Type u} {Abstract : Type v} {Input Output : Type}

namespace Behavior

def s : Behavior State Input Output → State
  | stepped s _ _ | inited s => s

def WF (machine : StateMachine State (AsyncOp Input Output)) :
    Behavior State Input Output → Prop
  | stepped s' op tail => tail.WF machine ∧ machine.Next tail.s s' op
  | inited s => machine.Init s

end Behavior

/-- Two behaviors that differ in their internal steps only. -/
inductive Equiv : Behavior State Input Output → Behavior Abstract Input Output → Prop
  | inited (s : State) (t : Abstract) : Equiv (.inited s) (.inited t)
  | internalLeft (s : State) {a : Behavior State Input Output}
      {b : Behavior Abstract Input Output} (tails : Equiv a b) :
      Equiv (.stepped s .internalOp a) b
  | internalRight (t : Abstract) {a : Behavior State Input Output}
      {b : Behavior Abstract Input Output} (tails : Equiv a b) :
      Equiv a (.stepped t .internalOp b)
  | both (s : State) (t : Abstract) (op : AsyncOp Input Output)
      {a : Behavior State Input Output} {b : Behavior Abstract Input Output}
      (tails : Equiv a b) : Equiv (.stepped s op a) (.stepped t op b)

/-- The starts and the ends among some labels. -/
def visible : List (AsyncOp Input Output) → List (AsyncOp Input Output)
  | [] => []
  | .internalOp :: ops => visible ops
  | .start rid input :: ops => .start rid input :: visible ops
  | .endOp rid output :: ops => .endOp rid output :: visible ops

@[simp]
theorem visible_nil : visible ([] : List (AsyncOp Input Output)) = [] := rfl

@[simp]
theorem visible_internalOp (ops : List (AsyncOp Input Output)) :
    visible (.internalOp :: ops) = visible ops := rfl

@[simp]
theorem visible_start (rid : RequestId) (input : Input) (ops : List (AsyncOp Input Output)) :
    visible (.start rid input :: ops) = .start rid input :: visible ops := rfl

@[simp]
theorem visible_endOp (rid : RequestId) (output : Output) (ops : List (AsyncOp Input Output)) :
    visible (.endOp rid output :: ops) = .endOp rid output :: visible ops := rfl

@[simp]
theorem visible_append (first second : List (AsyncOp Input Output)) :
    visible (first ++ second) = visible first ++ visible second := by
  induction first with
  | nil => rfl
  | cons op ops ih => cases op <;> simp [ih]

/-- The starts and the ends of a behavior, in the order in which they happen. -/
def Behavior.trace : Behavior State Input Output → List (AsyncOp Input Output)
  | .stepped _ op tail => tail.trace ++ visible [op]
  | .inited _ => []

theorem eq_internalOp_or_visible (op : AsyncOp Input Output) :
    op = .internalOp ∨ visible [op] = [op] := by
  cases op with
  | internalOp => exact Or.inl rfl
  | start rid input | endOp rid output => exact Or.inr rfl

/-- The outer induction drops the internal steps of the first behavior, the inner one
those of the second. -/
theorem equiv_of_trace_eq {a : Behavior State Input Output} {b : Behavior Abstract Input Output}
    (sameTrace : a.trace = b.trace) : Equiv a b := by
  induction a generalizing b with
  | inited s =>
    induction b with
    | inited t => exact .inited s t
    | stepped t op b ih =>
      obtain rfl | shown := eq_internalOp_or_visible op
      · exact .internalRight t (ih (by simpa [Behavior.trace] using sameTrace))
      · simp [Behavior.trace, shown] at sameTrace
  | stepped s op a ih =>
    obtain rfl | shown := eq_internalOp_or_visible op
    · exact .internalLeft s (ih (by simpa [Behavior.trace] using sameTrace))
    · induction b with
      | inited t => simp [Behavior.trace, shown] at sameTrace
      | stepped t op' b ihRight =>
        obtain rfl | shown' := eq_internalOp_or_visible op'
        · exact .internalRight t (ihRight (by simpa [Behavior.trace] using sameTrace))
        · rw [Behavior.trace, Behavior.trace, shown, shown'] at sameTrace
          obtain ⟨sameTail, sameOp⟩ := List.append_inj' sameTrace rfl
          obtain rfl := List.singleton_inj.mp sameOp
          exact .both s t op (ih sameTail)

/-- Some steps that show what one step with the given label shows. -/
def Weak (machine : StateMachine State (AsyncOp Input Output)) (s : State)
    (op : AsyncOp Input Output) (s' : State) : Prop :=
  ∃ ops, machine.Path s ops s' ∧ visible ops = visible [op]

section Weak

variable {machine : StateMachine State (AsyncOp Input Output)} {s middle s' : State}
  {op : AsyncOp Input Output}

theorem Weak.refl (s : State) : Weak machine s .internalOp s :=
  ⟨[], .nil s, rfl⟩

theorem Weak.single (next : machine.Next s s' op) : Weak machine s op s' :=
  ⟨[op], (StateMachine.Path.nil s).snoc next, rfl⟩

theorem Weak.trans (before : Weak machine s .internalOp middle)
    (after : Weak machine middle op s') : Weak machine s op s' := by
  obtain ⟨first, firstPath, firstVisible⟩ := before
  obtain ⟨second, secondPath, secondVisible⟩ := after
  refine ⟨first ++ second, firstPath.trans secondPath, ?_⟩
  rw [visible_append, firstVisible, secondVisible]
  rfl

theorem exists_behavior_of_path {ops : List (AsyncOp Input Output)}
    {b : Behavior State Input Output} (wf : b.WF machine) (path : machine.Path b.s ops s') :
    ∃ b' : Behavior State Input Output,
      b'.WF machine ∧ b'.s = s' ∧ b'.trace = b.trace ++ visible ops := by
  generalize start : b.s = first at path
  induction path with
  | nil => exact ⟨b, wf, start, by simp⟩
  | snoc _ next ih =>
    obtain ⟨b', wf', last, trace'⟩ := ih
    refine ⟨.stepped _ _ b', ⟨wf', last ▸ next⟩, rfl, ?_⟩
    rw [Behavior.trace, trace', visible_append, List.append_assoc]

theorem exists_behavior_of_run (run : machine.Behavior) {index : Nat} (le : index ≤ run.length) :
    ∃ b : Behavior State Input Output,
      b.WF machine ∧ b.s = run.states index ∧ b.trace = visible (run.history index) := by
  induction index with
  | zero => exact ⟨.inited _, run.starts, rfl, rfl⟩
  | succ index ih =>
    obtain ⟨b, wf, last, trace⟩ := ih (by omega)
    refine ⟨.stepped _ _ b, ⟨wf, last ▸ run.steps index le⟩, rfl, ?_⟩
    rw [Behavior.trace, trace, run.history_succ, visible_append]

end Weak

/-- A simulation whose relation depends on a guess of what happens later, which a step carries
backwards. -/
structure ProphecySimulation {Guess : Type} (machine : StateMachine State (AsyncOp Input Output))
    (spec : StateMachine Abstract (AsyncOp Input Output)) (invariant : State → Prop)
    (Possible : Guess → State → Prop) (Related : Guess → State → Abstract → Prop) : Prop where
  inductive' : machine.Inductive invariant
  init : ∀ {s}, machine.Init s → ∀ guess, ∃ t, spec.Init t ∧ Related guess s t
  next : ∀ {s s' op}, invariant s → machine.Next s s' op → ∀ guess', Possible guess' s' →
    ∃ guess, Possible guess s ∧ ∀ t, Related guess s t →
      ∃ t', Weak spec t op t' ∧ Related guess' s' t'

section Simulation

variable {machine : StateMachine State (AsyncOp Input Output)}
  {spec : StateMachine Abstract (AsyncOp Input Output)} {invariant : State → Prop}
  {a : Behavior State Input Output}

theorem invariant_of_wf (inductive' : machine.Inductive invariant) (wf : a.WF machine) :
    invariant a.s := by
  induction a with
  | inited s => exact inductive'.init wf
  | stepped s op tail ih => exact inductive'.next (ih wf.1) wf.2

/-- Every behavior has an equivalent one, for every guess that is possible at its end. -/
theorem ProphecySimulation.exists_behavior {Guess : Type} {Possible : Guess → State → Prop}
    {Related : Guess → State → Abstract → Prop}
    (simulation : ProphecySimulation machine spec invariant Possible Related) (wf : a.WF machine)
    {guess : Guess} (possible : Possible guess a.s) :
    ∃ b : Behavior Abstract Input Output,
      b.WF spec ∧ a.trace = b.trace ∧ Related guess a.s b.s := by
  induction a generalizing guess with
  | inited s =>
    obtain ⟨t, initial, related⟩ := simulation.init wf guess
    exact ⟨.inited t, initial, rfl, related⟩
  | stepped s' op tail ih =>
    have holds := invariant_of_wf simulation.inductive' wf.1
    obtain ⟨_, possibleBefore, answer⟩ := simulation.next holds wf.2 guess possible
    obtain ⟨b, wfB, sameTrace, related⟩ := ih wf.1 possibleBefore
    obtain ⟨_, ⟨_, path, shown⟩, related'⟩ := answer b.s related
    obtain ⟨b', wfB', rfl, trace'⟩ := exists_behavior_of_path wfB path
    refine ⟨b', wfB', ?_, related'⟩
    rw [trace', Behavior.trace, sameTrace, shown]

end Simulation

end Linearize

end VerifiedBetrfs
