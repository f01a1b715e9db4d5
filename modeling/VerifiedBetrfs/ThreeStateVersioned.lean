import VerifiedBetrfs.MapSpec

/-!
# Crash safety as three versions of one state

A crash falls back to the persistent version, and a sync request is answered once the version that
was ephemeral at the request has become persistent.
-/

namespace VerifiedBetrfs

universe u

namespace ThreeStateTypes

/-- Where the data of a sync request is now: persistent, frozen, or still ephemeral. -/
inductive SyncReqStatus where
  | state1
  | state2
  | state3
deriving DecidableEq

abbrev SyncReqs := IMap Int SyncReqStatus

def syncReqs2to1 (syncReqs : SyncReqs) : SyncReqs := fun id =>
  (syncReqs id).map fun
    | .state1 | .state2 => .state1
    | .state3 => .state3

def syncReqs3to2 (syncReqs : SyncReqs) : SyncReqs := fun id =>
  (syncReqs id).map fun
    | .state1 => .state1
    | .state2 | .state3 => .state2

end ThreeStateTypes

namespace ThreeStateVersioned

open UI ThreeStateTypes

/-- The persistent, the frozen and the ephemeral version. -/
structure Variables (State : Type u) where
  s1 : State
  s2 : State
  s3 : State
  outstandingSyncReqs : SyncReqs

/-- The steps of the versioned machine. -/
inductive Step where
  | crashStep
  | move1to2Step
  | move2to3Step
  | move3Step
  | pushSyncStep (id : Int)
  | popSyncStep (id : Int)
deriving DecidableEq

section Machine

variable {State : Type u} (SM : UIStateMachine State)

def Init (s : Variables State) : Prop :=
  SM.Init s.s1 ∧ s.s2 = s.s1 ∧ s.s3 = s.s1 ∧ s.outstandingSyncReqs = IMap.empty

section

variable (s s' : Variables State) (uiop : Op)

/-- Only the persistent version is left. -/
def Crash : Prop := uiop = .crashOp ∧ s' = ⟨s.s1, s.s1, s.s1, IMap.empty⟩

/-- The frozen version becomes persistent. -/
def Move1to2 : Prop := uiop = .noOp ∧ s' = ⟨s.s2, s.s2, s.s3, syncReqs2to1 s.outstandingSyncReqs⟩

/-- The ephemeral version is frozen. -/
def Move2to3 : Prop := uiop = .noOp ∧ s' = ⟨s.s1, s.s3, s.s3, syncReqs3to2 s.outstandingSyncReqs⟩

/-- The ephemeral version takes a step. -/
def Move3 : Prop := SM.Next s.s3 s'.s3 uiop ∧ s' = ⟨s.s1, s.s2, s'.s3, s.outstandingSyncReqs⟩

def PushSync (id : Int) : Prop :=
  uiop = .pushSyncOp id ∧
  s.outstandingSyncReqs id = none ∧
  s' = ⟨s.s1, s.s2, s.s3, s.outstandingSyncReqs.update id .state3⟩

def PopSync (id : Int) : Prop :=
  uiop = .popSyncOp id ∧
  s.outstandingSyncReqs id = some .state1 ∧
  s' = ⟨s.s1, s.s2, s.s3, s.outstandingSyncReqs.remove1 id⟩

def NextStep : Step → Prop
  | .crashStep => Crash s s' uiop
  | .move1to2Step => Move1to2 s s' uiop
  | .move2to3Step => Move2to3 s s' uiop
  | .move3Step => Move3 SM s s' uiop
  | .pushSyncStep id => PushSync s s' uiop id
  | .popSyncStep id => PopSync s s' uiop id

def Next : Prop := ∃ step, NextStep SM s s' uiop step

end

def machine : StateMachine (Variables State) Op where
  Init := Init SM
  Next := Next SM

end Machine

/-- The operations applied to each of the three versions since the start. -/
structure Histories where
  l1 : List Op
  l2 : List Op
  l3 : List Op

namespace Histories

/-- Nothing has been applied yet. -/
def start : Histories := ⟨[], [], []⟩

/-- The lists move with the states they belong to. -/
def advance (lists : Histories) (uiop : Op) : Step → Histories
  | .crashStep => ⟨lists.l1, lists.l1, lists.l1⟩
  | .move1to2Step => ⟨lists.l2, lists.l2, lists.l3⟩
  | .move2to3Step => ⟨lists.l1, lists.l3, lists.l3⟩
  | .move3Step => ⟨lists.l1, lists.l2, lists.l3 ++ [uiop]⟩
  | .pushSyncStep _ | .popSyncStep _ => lists

end Histories

section Histories

variable {State : Type u} {SM : UIStateMachine State} {s s' : Variables State} {initial : State}
  {lists : Histories} {uiop : Op} {step : Step}

/-- Each version is what its list makes of the initial state, and the list of an older one a
prefix. -/
structure Tracks (SM : UIStateMachine State) (initial : State)
    (s : Variables State) (lists : Histories) : Prop where
  le12 : lists.l1 <+: lists.l2
  le23 : lists.l2 <+: lists.l3
  path1 : SM.Path initial lists.l1 s.s1
  path2 : SM.Path initial lists.l2 s.s2
  path3 : SM.Path initial lists.l3 s.s3

theorem tracks_start (init : Init SM s) : Tracks SM s.s1 s .start := by
  obtain ⟨_, same2, same3, _⟩ := init
  refine ⟨List.prefix_rfl, List.prefix_rfl, .nil _, ?_, ?_⟩
  · rw [same2]
    exact .nil _
  · rw [same3]
    exact .nil _

theorem Tracks.next (tracks : Tracks SM initial s lists) (next : NextStep SM s s' uiop step) :
    Tracks SM initial s' (lists.advance uiop step) := by
  obtain ⟨le12, le23, path1, path2, path3⟩ := tracks
  cases step with
  | crashStep =>
    obtain ⟨_, rfl⟩ := next
    exact ⟨List.prefix_rfl, List.prefix_rfl, path1, path1, path1⟩
  | move1to2Step =>
    obtain ⟨_, rfl⟩ := next
    exact ⟨List.prefix_rfl, le23, path2, path2, path3⟩
  | move2to3Step =>
    obtain ⟨_, rfl⟩ := next
    exact ⟨le12.trans le23, List.prefix_rfl, path1, path3, path3⟩
  | move3Step =>
    obtain ⟨step3, same⟩ := next
    rw [same]
    exact ⟨le12, le23.trans (List.prefix_append _ _), path1, path2, path3.snoc step3⟩
  | pushSyncStep id | popSyncStep id =>
    obtain ⟨_, _, rfl⟩ := next
    exact ⟨le12, le23, path1, path2, path3⟩

/-- No step, not even a crash, takes anything out of the persistent version. -/
theorem persistent_grows (tracks : Tracks SM initial s lists) (uiop : Op) (step : Step) :
    lists.l1 <+: (lists.advance uiop step).l1 := by
  cases step with
  | move1to2Step => exact tracks.le12
  | _ => exact List.prefix_rfl

/-- A sync request finds the given operations in its version, or when answered in the persistent
one. -/
def Covered (ops : List Op) (lists : Histories) : Option SyncReqStatus → Prop
  | none | some .state1 => ops <+: lists.l1
  | some .state2 => ops <+: lists.l2
  | some .state3 => ops <+: lists.l3

theorem Covered.next {ops : List Op} {id : Int} (tracks : Tracks SM initial s lists)
    (next : NextStep SM s s' uiop step) (noCrash : uiop ≠ .crashOp)
    (covered : Covered ops lists (s.outstandingSyncReqs id)) :
    Covered ops (lists.advance uiop step) (s'.outstandingSyncReqs id) := by
  cases step with
  | crashStep => exact absurd next.1 noCrash
  | move1to2Step =>
    obtain ⟨_, rfl⟩ := next
    rcases status : s.outstandingSyncReqs id with _ | _ | _ | _ <;>
      simp only [status, Covered, syncReqs2to1, Histories.advance,
        Option.map_none, Option.map_some] at covered ⊢
    · exact covered.trans tracks.le12
    · exact covered.trans tracks.le12
    · exact covered
    · exact covered
  | move2to3Step =>
    obtain ⟨_, rfl⟩ := next
    rcases status : s.outstandingSyncReqs id with _ | _ | _ | _ <;>
      simp only [status, Covered, syncReqs3to2, Histories.advance,
        Option.map_none, Option.map_some] at covered ⊢
    · exact covered
    · exact covered
    · exact covered.trans tracks.le23
    · exact covered
  | move3Step =>
    rw [next.2]
    rcases status : s.outstandingSyncReqs id with _ | _ | _ | _ <;>
      simp only [status, Covered, Histories.advance] at covered ⊢
    · exact covered
    · exact covered
    · exact covered
    · exact covered.trans (List.prefix_append _ _)
  | pushSyncStep pushed =>
    obtain ⟨_, fresh, rfl⟩ := next
    simp only [IMap.update_eq_ite, Histories.advance]
    split_ifs with same
    · subst same
      rw [fresh] at covered
      exact covered.trans (tracks.le12.trans tracks.le23)
    · exact covered
  | popSyncStep popped =>
    obtain ⟨_, synced, rfl⟩ := next
    simp only [IMap.remove1_eq_ite, Histories.advance]
    split_ifs with same
    · subst same
      rw [synced] at covered
      exact covered
    · exact covered

end Histories

/-- A run with the step taken at each point, which the label alone does not tell. -/
structure Run {State : Type u} (SM : UIStateMachine State)
    extends (machine SM).Behavior where
  kinds : Nat → Step
  explains : ∀ index < length,
    NextStep SM (states index) (states (index + 1)) (labels index) (kinds index)

namespace Run

variable {State : Type u} {SM : UIStateMachine State} {first last : Nat}

/-- The operations in each version after the first `index` steps. -/
def lists (run : Run SM) : Nat → Histories
  | 0 => .start
  | index + 1 => (run.lists index).advance (run.labels index) (run.kinds index)

theorem tracks (run : Run SM) {index : Nat} (indexLe : index ≤ run.length) :
    Tracks SM (run.states 0).s1 (run.states index) (run.lists index) := by
  induction index with
  | zero => exact tracks_start run.starts
  | succ index ih => exact (ih (by omega)).next (run.explains index (by omega))

theorem persistent_prefix (run : Run SM) (le : first ≤ last) (lastLe : last ≤ run.length) :
    (run.lists first).l1 <+: (run.lists last).l1 := by
  induction last, le using Nat.le_induction with
  | base => exact List.prefix_rfl
  | succ last le ih =>
    have grows := persistent_grows (run.tracks (by omega : last ≤ run.length))
      (run.labels last) (run.kinds last)
    exact (ih (by omega)).trans grows

theorem covered (run : Run SM) {ops : List Op} {id : Int} (le : first ≤ last)
    (lastLe : last ≤ run.length)
    (noCrash : ∀ index, first ≤ index → index < last → run.labels index ≠ .crashOp)
    (atFirst : Covered ops (run.lists first) ((run.states first).outstandingSyncReqs id)) :
    Covered ops (run.lists last) ((run.states last).outstandingSyncReqs id) := by
  induction last, le using Nat.le_induction with
  | base => exact atFirst
  | succ last le ih =>
    have before := ih (by omega) (fun index low high => noCrash index low (by omega))
    exact before.next (run.tracks (by omega)) (run.explains last (by omega))
      (noCrash last le (by omega))

end Run

/-- The dictionary that a list of operations makes of the empty one. -/
def result (ops : List Op) : MapSpec.Variables :=
  ⟨ops.foldl MapSpec.applyOp MapSpec.emptyMap⟩

theorem eq_result_of_path {initial s : MapSpec.Variables} {ops : List Op}
    (init : MapSpec.Init initial)
    (path : MapSpec.uiMachine.Path initial ops s) : s = result ops := by
  have view := MapSpec.path_view path
  rw [show initial.view = MapSpec.emptyMap by rw [init]] at view
  exact congrArg MapSpec.Variables.mk view

/-- The dictionary itself never shows one of the labels that belong to the
versions around it. -/
theorem dictionary_label {s s' : MapSpec.Variables} {uiop : Op} (next : MapSpec.Next s s' uiop) :
    uiop ≠ .crashOp ∧ ∀ id, uiop ≠ .pushSyncOp id ∧ uiop ≠ .popSyncOp id := by
  obtain ⟨step, next⟩ := next
  cases step with
  | queryStep key value | writeStep key value | succStep start results stop | stutterStep =>
    obtain ⟨rfl, _⟩ := next
    simp

/-- A crash or a sync label shows which step was taken. -/
theorem step_of_label {s s' : Variables MapSpec.Variables} {uiop : Op} {step : Step}
    (next : NextStep MapSpec.uiMachine s s' uiop step) :
    (uiop = .crashOp → step = .crashStep) ∧
    ∀ id, (uiop = .pushSyncOp id → step = .pushSyncStep id) ∧
      (uiop = .popSyncOp id → step = .popSyncStep id) := by
  cases step with
  | move3Step =>
    obtain ⟨notCrash, notSync⟩ := dictionary_label next.1
    exact ⟨fun label => absurd label notCrash, fun id =>
      ⟨fun label => absurd label (notSync id).1,
        fun label => absurd label (notSync id).2⟩⟩
  | _ =>
    obtain ⟨rfl, _⟩ := next
    simp

namespace Run

variable (run : Run MapSpec.uiMachine)

theorem states_eq_result {index : Nat} (indexLe : index ≤ run.length) :
    (run.states index).s1 = result (run.lists index).l1 ∧
    (run.states index).s2 = result (run.lists index).l2 ∧
    (run.states index).s3 = result (run.lists index).l3 := by
  have tracks := run.tracks indexLe
  have initial : MapSpec.Init (run.states 0).s1 := run.starts.1
  exact ⟨eq_result_of_path initial tracks.path1,
    eq_result_of_path initial tracks.path2, eq_result_of_path initial tracks.path3⟩

/-- The lists behind a sync that was requested and answered with no crash in
between. -/
theorem synced {requested answered last : Nat} {id : Int} (order : requested < answered)
    (answeredLt : answered < run.length) (push : run.labels requested = .pushSyncOp id)
    (pop : run.labels answered = .popSyncOp id)
    (noCrash : ∀ index, requested < index → index < answered → run.labels index ≠ .crashOp)
    (le : answered ≤ last) (lastLe : last ≤ run.length) :
    (run.lists requested).l3 <+: (run.lists last).l1 := by
  have pushStep := run.explains requested (by omega)
  have pushKind := ((step_of_label pushStep).2 id).1 push
  have popStep := run.explains answered answeredLt
  have popKind := ((step_of_label popStep).2 id).2 pop
  rw [pushKind] at pushStep
  rw [popKind] at popStep
  obtain ⟨_, _, pushed⟩ := pushStep
  obtain ⟨_, synced, _⟩ := popStep
  have atRequest : Covered (run.lists requested).l3 (run.lists (requested + 1))
      ((run.states (requested + 1)).outstandingSyncReqs id) := by
    rw [pushed, lists, pushKind]
    simp [Covered, Histories.advance]
  have atAnswer := run.covered (by omega) (by omega)
    (fun index low high => noCrash index (by omega) high) atRequest
  rw [synced] at atAnswer
  exact List.IsPrefix.trans atAnswer (run.persistent_prefix le lastLe)

end Run

/-- Over any run with any number of crashes, the three versions stay prefix-ordered results of their
operation lists, a crash only drops a suffix of the visible operations, and nothing that was visible
at the request of an answered sync is ever lost. -/
theorem versions_durable (run : Run MapSpec.uiMachine) :
    (∀ index ≤ run.length,
      (run.lists index).l1 <+: (run.lists index).l2 ∧
      (run.lists index).l2 <+: (run.lists index).l3 ∧
      (run.states index).s1 = result (run.lists index).l1 ∧
      (run.states index).s2 = result (run.lists index).l2 ∧
      (run.states index).s3 = result (run.lists index).l3) ∧
    (∀ index < run.length, run.labels index = .crashOp →
      ∃ ops, ops <+: (run.lists index).l3 ∧
        (run.states (index + 1)).s3 = result ops) ∧
    (∀ requested answered id, requested < answered → answered < run.length →
      run.labels requested = .pushSyncOp id →
      run.labels answered = .popSyncOp id →
      (∀ index, requested < index → index < answered →
        run.labels index ≠ .crashOp) →
      ∀ last, answered ≤ last → last ≤ run.length →
        (run.lists requested).l3 <+: (run.lists last).l1 ∧
        (run.lists requested).l3 <+: (run.lists last).l3) := by
  refine ⟨fun index indexLe => ?_, fun index indexLt label => ?_, ?_⟩
  · have tracks := run.tracks indexLe
    exact ⟨tracks.le12, tracks.le23, run.states_eq_result indexLe⟩
  · have tracks := run.tracks (Nat.le_of_lt indexLt)
    have crash := run.explains index indexLt
    rw [(step_of_label crash).1 label] at crash
    refine ⟨(run.lists index).l1, tracks.le12.trans tracks.le23, ?_⟩
    rw [crash.2]
    exact (run.states_eq_result (Nat.le_of_lt indexLt)).1
  · intro requested answered id order answeredLt push pop noCrash last le lastLe
    have persistent := run.synced order answeredLt push pop noCrash le lastLe
    have tracks := run.tracks lastLe
    exact ⟨persistent, persistent.trans (tracks.le12.trans tracks.le23)⟩

end ThreeStateVersioned

end VerifiedBetrfs
