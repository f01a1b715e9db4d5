import VerifiedBetrfs.KeyType
import VerifiedBetrfs.FiniteMap
import VerifiedBetrfs.StateMachine

/-!
# The dictionary state machine

The plain dictionary that every layer of the system is finally compared with.
-/

namespace VerifiedBetrfs

universe u

namespace UI

/-- Where a range of keys starts. -/
inductive RangeStart where
  | inclusive (key : Key)
  | exclusive (key : Key)
  | negativeInf
deriving DecidableEq

/-- Where a range of keys ends. -/
inductive RangeEnd where
  | inclusive (key : Key)
  | exclusive (key : Key)
  | positiveInf
deriving DecidableEq

/-- A key that a query has found. -/
structure SuccResult where
  key : Key
  value : Value
deriving DecidableEq

/-- Labels of user-visible transitions. -/
inductive Op where
  | noOp
  | syncOp
  | crashOp
  | pushSyncOp (id : Int)
  | popSyncOp (id : Int)
  | getOp (key : Key) (value : Value)
  | getBeginOp (key : Key) (id : Int)
  | getEndOp (value : Value) (id : Int)
  | putOp (key : Key) (value : Value)
  | succOp (start : RangeStart) (results : List SuccResult) (stop : RangeEnd)
deriving DecidableEq

end UI

/-- A state machine over user-visible labels, with an invariant of its
reachable states. -/
structure UIStateMachine (State : Type u) extends StateMachine State UI.Op where
  Inv : State → Prop
  inductive' : toStateMachine.Inductive Inv

namespace MapSpec

open UI

/-- The value of a key that is not in the dictionary. -/
def emptyValue : Value := ValueType.defaultValue

abbrev View := IMap Key Value

/-- The dictionary. -/
structure Variables where
  view : View

def ViewComplete (view : View) : Prop := ∀ key, key ∈ view.keys

def WF (s : Variables) : Prop := ViewComplete s.view

def emptyMap : View := IMap.const emptyValue

def Init (s : Variables) : Prop := s = ⟨emptyMap⟩

/-- A key is read. -/
def Query (s s' : Variables) (uiop : Op) (key : Key) (result : Value) : Prop :=
  uiop = .getOp key result ∧ WF s ∧ s.view key = some result ∧ s' = s

def LowerBound (start : RangeStart) (key : Key) : Prop :=
  match start with
  | .inclusive bound => bound ≤ key
  | .exclusive bound => bound < key
  | .negativeInf => True

def UpperBound (key : Key) (stop : RangeEnd) : Prop :=
  match stop with
  | .inclusive bound => key ≤ bound
  | .exclusive bound => key < bound
  | .positiveInf => True

def InRange (start : RangeStart) (key : Key) (stop : RangeEnd) : Prop :=
  LowerBound start key ∧ UpperBound key stop

instance : (start : RangeStart) → (key : Key) → Decidable (LowerBound start key)
  | .inclusive bound, key => inferInstanceAs (Decidable (bound ≤ key))
  | .exclusive bound, key => inferInstanceAs (Decidable (bound < key))
  | .negativeInf, _ => inferInstanceAs (Decidable True)

instance : (key : Key) → (stop : RangeEnd) → Decidable (UpperBound key stop)
  | key, .inclusive bound => inferInstanceAs (Decidable (key ≤ bound))
  | key, .exclusive bound => inferInstanceAs (Decidable (key < bound))
  | _, .positiveInf => inferInstanceAs (Decidable True)

instance (start : RangeStart) (key : Key) (stop : RangeEnd) :
    Decidable (InRange start key stop) :=
  inferInstanceAs (Decidable (_ ∧ _))

/-- Some key could lie between the two bounds. -/
def NonEmptyRange (start : RangeStart) (stop : RangeEnd) : Prop :=
  match start, stop with
  | .negativeInf, _ | _, .positiveInf => True
  | .inclusive low, .inclusive high => low ≤ high
  | .inclusive low, .exclusive high | .exclusive low, .inclusive high
  | .exclusive low, .exclusive high => low < high

/-- The keys of a range are listed. -/
def Succ (s s' : Variables) (uiop : Op) (start : RangeStart)
    (results : List SuccResult) (stop : RangeEnd) : Prop :=
  uiop = .succOp start results stop ∧
  WF s ∧
  s' = s ∧
  NonEmptyRange start stop ∧
  (∀ result ∈ results, s.view result.key = some result.value) ∧
  (∀ result ∈ results, result.value ≠ emptyValue) ∧
  (∀ result ∈ results, InRange start result.key stop) ∧
  results.Pairwise (fun first second => first.key < second.key) ∧
  (∀ key, InRange start key stop → s.view key ≠ some emptyValue →
    ∃ result ∈ results, result.key = key)

/-- A key is written. -/
def Write (s s' : Variables) (uiop : Op) (key : Key) (newValue : Value) : Prop :=
  uiop = .putOp key newValue ∧ WF s ∧ WF s' ∧ s'.view = s.view.update key newValue

def Stutter (s s' : Variables) (uiop : Op) : Prop :=
  uiop = .noOp ∧ s' = s

/-- The operations of the dictionary. -/
inductive Step where
  | queryStep (key : Key) (result : Value)
  | writeStep (key : Key) (newValue : Value)
  | succStep (start : RangeStart) (results : List SuccResult) (stop : RangeEnd)
  | stutterStep

def NextStep (s s' : Variables) (uiop : Op) : Step → Prop
  | .queryStep key result => Query s s' uiop key result
  | .writeStep key newValue => Write s s' uiop key newValue
  | .succStep start results stop => Succ s s' uiop start results stop
  | .stutterStep => Stutter s s' uiop

def Next (s s' : Variables) (uiop : Op) : Prop :=
  ∃ step, NextStep s s' uiop step

/-- The dictionary as a labelled state machine. -/
def machine : StateMachine Variables Op where
  Init := Init
  Next := Next

theorem init_WF {s : Variables} (init : Init s) : WF s := by
  subst init
  exact fun key => ⟨emptyValue, rfl⟩

variable {s s' : Variables} {uiop : Op}

theorem next_WF (wf : WF s) (next : Next s s' uiop) : WF s' := by
  obtain ⟨step, next⟩ := next
  cases step with
  | queryStep key result =>
    obtain ⟨_, _, _, rfl⟩ := next
    exact wf
  | writeStep key newValue => exact next.2.2.1
  | succStep start results stop =>
    obtain ⟨_, _, rfl, _⟩ := next
    exact wf
  | stutterStep =>
    obtain ⟨_, rfl⟩ := next
    exact wf

/-- The dictionary with its well-formedness as the invariant. -/
def uiMachine : UIStateMachine Variables where
  toStateMachine := machine
  Inv := WF
  inductive' := ⟨init_WF, next_WF⟩

/-- What one operation does to the dictionary. -/
def applyOp (view : View) : Op → View
  | .putOp key value => view.update key value
  | _ => view

/-- What an operation may answer in a given dictionary. -/
def Answers (view : View) : Op → Prop
  | .getOp key value => view key = some value
  | .succOp start results stop =>
    (∀ result ∈ results, InRange start result.key stop) ∧
    results.Pairwise (fun first second => first.key < second.key) ∧
    ∀ key value, InRange start key stop →
      ((⟨key, value⟩ : SuccResult) ∈ results ↔
        view key = some value ∧ value ≠ emptyValue)
  | _ => True

/-- A step changes the dictionary exactly as its label says. -/
theorem next_view (next : Next s s' uiop) : s'.view = applyOp s.view uiop := by
  obtain ⟨step, next⟩ := next
  cases step with
  | queryStep key result =>
    obtain ⟨rfl, _, _, rfl⟩ := next
    rfl
  | writeStep key newValue =>
    obtain ⟨rfl, _, _, view⟩ := next
    exact view
  | succStep start results stop =>
    obtain ⟨rfl, _, rfl, _⟩ := next
    rfl
  | stutterStep =>
    obtain ⟨rfl, rfl⟩ := next
    rfl

/-- The answer in a step's label is the one the dictionary holds. -/
theorem next_answers (next : Next s s' uiop) : Answers s.view uiop := by
  obtain ⟨step, next⟩ := next
  cases step with
  | queryStep key result =>
    obtain ⟨rfl, _, found, _⟩ := next
    exact found
  | writeStep key newValue | stutterStep =>
    obtain ⟨rfl, _⟩ := next
    trivial
  | succStep start results stop =>
    obtain ⟨rfl, _, _, _, found, nonempty, inRange, sorted, complete⟩ := next
    refine ⟨inRange, sorted, fun key value keyInRange => ⟨?_, ?_⟩⟩
    · intro member
      exact ⟨found _ member, nonempty _ member⟩
    · rintro ⟨bound, notEmpty⟩
      obtain ⟨result, member, rfl⟩ := complete key keyInRange
        (by rw [bound]; simpa using notEmpty)
      have sameValue : result.value = value := by
        simpa [found result member] using bound
      rw [← sameValue]
      exact member

/-- The dictionary at the end of a path is the one at its start with the
operations of the path applied in order. -/
theorem path_view {uiops : List Op} (path : machine.Path s uiops s') :
    s'.view = uiops.foldl applyOp s.view := by
  induction path with
  | nil => rfl
  | snoc _ next ih =>
    rw [List.foldl_append, ← ih]
    exact next_view next

/-- The dictionary after a run is the empty one with the operations of the
run applied in order. -/
theorem behavior_view (run : machine.Behavior) {index : Nat} (indexLe : index ≤ run.length) :
    (run.states index).view = (run.history index).foldl applyOp emptyMap := by
  induction index with
  | zero =>
    have start : run.states 0 = ⟨emptyMap⟩ := run.starts
    simp [start]
  | succ index ih =>
    rw [run.history_succ, List.foldl_append, ← ih (by omega)]
    exact next_view (run.steps index (by omega))

end MapSpec

end VerifiedBetrfs
