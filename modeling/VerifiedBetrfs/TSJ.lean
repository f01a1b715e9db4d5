import VerifiedBetrfs.Journal
import VerifiedBetrfs.ThreeStateVersioned

/-!
# Three versions with journals

Each version is an older state plus a journal still to be replayed over it.  `jGamma` leads from the
persistent state to the end of the frozen version, `jDelta` from there to that of the ephemeral one.
-/

namespace VerifiedBetrfs

open MapSpec (Variables uiMachine)

universe u

namespace TSJ

open UI ThreeStateTypes Journal

/-- Three states, each with the journal that leads from it to its version. -/
structure Variables (State : Type u) where
  s1 : State
  s2 : State
  s3 : State
  j1 : List JournalEntry
  j2 : List JournalEntry
  j3 : List JournalEntry
  jGamma : List JournalEntry
  jDelta : List JournalEntry
  outstandingSyncReqs : SyncReqs

/-- The steps of the journaled machine. -/
inductive Step where
  | crashStep
  | move1to2Step
  | move2to3Step
  | extendLog1Step
  | extendLog2Step
  | move3Step
  | replayStep (replayedUIOp : Op)
  | pushSyncStep (id : Int)
  | popSyncStep (id : Int)
  | stutterStep

section Machine

variable {State : Type u} (SM : UIStateMachine State)

/-- Three equal states without journals. -/
structure Init (s : Variables State) : Prop where
  s1 : SM.Init s.s1
  s2 : s.s2 = s.s1
  s3 : s.s3 = s.s1
  j1 : s.j1 = []
  j2 : s.j2 = []
  j3 : s.j3 = []
  jGamma : s.jGamma = []
  jDelta : s.jDelta = []
  outstandingSyncReqs : s.outstandingSyncReqs = IMap.empty

section

variable (s s' : Variables State)

def Crash (uiop : Op) : Prop :=
  uiop = .crashOp ∧
  s' = ⟨s.s1, s.s1, s.s1, s.j1, s.j1, s.j1, s.j1, [], IMap.empty⟩

/-- The frozen version becomes persistent. -/
def Move1to2 (uiop : Op) : Prop :=
  uiop = .noOp ∧
  s' = ⟨s.s2, s.s2, s.s3, s.j2, s.j2, s.j3, s.j2, s.jDelta,
    syncReqs2to1 s.outstandingSyncReqs⟩

/-- The ephemeral version is frozen. -/
def Move2to3 (uiop : Op) : Prop :=
  uiop = .noOp ∧
  s' = ⟨s.s1, s.s3, s.s3, s.j1, s.j3, s.j3, s.jGamma ++ s.jDelta, [],
    syncReqs3to2 s.outstandingSyncReqs⟩

/-- The persistent version catches up with the log. -/
def ExtendLog1 (uiop : Op) : Prop :=
  uiop = .noOp ∧
  s' = ⟨s.s1, s.s2, s.s3, s.jGamma, s.j2, s.j3, s.jGamma, s.jDelta,
    syncReqs2to1 s.outstandingSyncReqs⟩

def ExtendLog2 (uiop : Op) : Prop :=
  uiop = .noOp ∧
  s' = ⟨s.s1, s.s2, s.s3, s.j1, s.j2 ++ s.jDelta, s.j3, s.jGamma ++ s.jDelta, [],
    syncReqs3to2 s.outstandingSyncReqs⟩

def Move3 (uiop : Op) : Prop :=
  SM.Next s.s3 s'.s3 uiop ∧
  s.j3 = [] ∧
  s' = ⟨s.s1, s.s2, s'.s3, s.j1, s.j2, s.j3, s.jGamma,
    s.jDelta ++ journalEntriesForUIOp uiop, s.outstandingSyncReqs⟩

/-- An operation of the journal is replayed. -/
def Replay (uiop replayedUIOp : Op) : Prop :=
  uiop = .noOp ∧
  SM.Next s.s3 s'.s3 replayedUIOp ∧
  s.j3 = journalEntriesForUIOp replayedUIOp ++ s'.j3 ∧
  s' = ⟨s.s1, s.s2, s'.s3, s.j1, s.j2, s'.j3, s.jGamma, s.jDelta,
    s.outstandingSyncReqs⟩

def PushSync (uiop : Op) (id : Int) : Prop :=
  uiop = .pushSyncOp id ∧
  s.outstandingSyncReqs id = none ∧
  s' = { s with outstandingSyncReqs := s.outstandingSyncReqs.update id .state3 }

def PopSync (uiop : Op) (id : Int) : Prop :=
  uiop = .popSyncOp id ∧
  s.outstandingSyncReqs id = some .state1 ∧
  s' = { s with outstandingSyncReqs := s.outstandingSyncReqs.remove1 id }

def Stutter (uiop : Op) : Prop := uiop = .noOp ∧ s = s'

def NextStep (uiop : Op) : Step → Prop
  | .crashStep => Crash s s' uiop
  | .move1to2Step => Move1to2 s s' uiop
  | .move2to3Step => Move2to3 s s' uiop
  | .extendLog1Step => ExtendLog1 s s' uiop
  | .extendLog2Step => ExtendLog2 s s' uiop
  | .move3Step => Move3 SM s s' uiop
  | .replayStep replayedUIOp => Replay SM s s' uiop replayedUIOp
  | .pushSyncStep id => PushSync s s' uiop id
  | .popSyncStep id => PopSync s s' uiop id
  | .stutterStep => Stutter s s' uiop

def Next (uiop : Op) : Prop := ∃ step, NextStep SM s s' uiop step

end

def machine : StateMachine (Variables State) Op where
  Init := Init SM
  Next := Next SM

end Machine

section Invariant

variable {State : Type u} {SM : UIStateMachine State} {jes jes2 : List JournalEntry} {uiop : Op}

/-- Some operations that leave exactly these entries lead from one state to the
other. -/
def JournalPath (SM : UIStateMachine State) (s : State) (jes : List JournalEntry)
    (s' : State) : Prop :=
  ∃ uiops, jes = journalEntriesForUIOps uiops ∧ SM.Path s uiops s'

/-- Sequence subtraction, meaningful when the second list is a suffix of the
first. -/
def seqSub {α : Type u} (first second : List α) : List α :=
  first.take (first.length - second.length)

/-- The operations behind the entries of `jes` that come before `jes2` lead
from one state to the other. -/
def Advances (SM : UIStateMachine State) (s : State) (jes : List JournalEntry)
    (s' : State) (jes2 : List JournalEntry) : Prop :=
  jes2 <:+ jes ∧ JournalPath SM s (seqSub jes jes2) s'

/-- The journals lead from each version to the next. -/
structure Inv (SM : UIStateMachine State) (s : Variables State) : Prop where
  s1 : SM.Inv s.s1
  s2 : SM.Inv s.s2
  s3 : SM.Inv s.s3
  gamma : Advances SM s.s1 s.jGamma s.s2 s.j2
  delta : Advances SM s.s2 (s.j2 ++ s.jDelta) s.s3 s.j3

@[simp]
theorem seqSub_append {α : Type u} (first second : List α) :
    seqSub (first ++ second) second = first := by
  simp [seqSub]

theorem advances_iff {s s' : State} :
    Advances SM s jes s' jes2 ↔ ∃ front, jes = front ++ jes2 ∧ JournalPath SM s front s' := by
  constructor
  · rintro ⟨⟨front, rfl⟩, path⟩
    exact ⟨front, rfl, by simpa using path⟩
  · rintro ⟨front, rfl, path⟩
    exact ⟨⟨front, rfl⟩, by simpa using path⟩

theorem JournalPath.refl (s : State) : JournalPath SM s [] s :=
  ⟨[], rfl, .nil s⟩

variable {s middle s' : State}

theorem JournalPath.trans {first second : List JournalEntry}
    (before : JournalPath SM s first middle) (after : JournalPath SM middle second s') :
    JournalPath SM s (first ++ second) s' := by
  obtain ⟨uiops, rfl, path⟩ := before
  obtain ⟨uiops', rfl, path'⟩ := after
  exact ⟨uiops ++ uiops', List.flatMap_append.symm, path.trans path'⟩

theorem JournalPath.snoc (before : JournalPath SM s jes middle) (next : SM.Next middle s' uiop) :
    JournalPath SM s (jes ++ journalEntriesForUIOp uiop) s' := by
  obtain ⟨uiops, rfl, path⟩ := before
  exact ⟨uiops ++ [uiop], (journalEntriesForUIOps_concat _ _).symm, path.snoc next⟩

theorem Advances.refl (s : State) (jes : List JournalEntry) : Advances SM s jes s jes :=
  advances_iff.2 ⟨[], rfl, .refl s⟩

/-- Entries written behind a version extend what leads up to it. -/
theorem Advances.extend (advances : Advances SM s jes s' jes2) (more : List JournalEntry) :
    Advances SM s (jes ++ more) s' (jes2 ++ more) := by
  obtain ⟨front, rfl, path⟩ := advances_iff.1 advances
  exact advances_iff.2 ⟨front, by simp, path⟩

theorem Advances.trans {jes3 : List JournalEntry} (before : Advances SM s jes middle jes2)
    (after : Advances SM middle jes2 s' jes3) : Advances SM s jes s' jes3 := by
  obtain ⟨front, rfl, path⟩ := advances_iff.1 before
  obtain ⟨front', rfl, path'⟩ := advances_iff.1 after
  exact advances_iff.2 ⟨front ++ front', by simp, path.trans path'⟩

theorem init_inv {s : Variables State} (init : Init SM s) : Inv SM s := by
  obtain ⟨initial, same2, same3, _, j2, j3, jGamma, jDelta, _⟩ := init
  have inv := SM.inductive'.init initial
  refine ⟨inv, same2 ▸ inv, same3 ▸ inv, ?_, ?_⟩
  · rw [same2, j2, jGamma]
    exact .refl _ _
  · rw [same2, same3, j2, j3, jDelta]
    exact .refl _ _

theorem next_inv {s s' : Variables State} (inv : Inv SM s) (next : Next SM s s' uiop) :
    Inv SM s' := by
  obtain ⟨step, next⟩ := next
  obtain ⟨inv1, inv2, inv3, gamma, delta⟩ := inv
  cases step with
  | crashStep =>
    obtain ⟨_, rfl⟩ := next
    exact ⟨inv1, inv1, inv1, .refl _ _, by simpa using Advances.refl s.s1 s.j1⟩
  | move1to2Step =>
    obtain ⟨_, rfl⟩ := next
    exact ⟨inv2, inv2, inv3, .refl _ _, delta⟩
  | move2to3Step =>
    obtain ⟨_, rfl⟩ := next
    refine ⟨inv1, inv3, inv3, (gamma.extend s.jDelta).trans delta, ?_⟩
    simpa using Advances.refl s.s3 s.j3
  | extendLog1Step | stutterStep =>
    obtain ⟨_, rfl⟩ := next
    exact ⟨inv1, inv2, inv3, gamma, delta⟩
  | extendLog2Step =>
    obtain ⟨_, rfl⟩ := next
    exact ⟨inv1, inv2, inv3, gamma.extend s.jDelta, by simpa using delta⟩
  | move3Step =>
    obtain ⟨step3, replayed, same⟩ := next
    rw [same]
    refine ⟨inv1, inv2, SM.inductive'.next inv3 step3, gamma, ?_⟩
    obtain ⟨front, upTo, path⟩ := advances_iff.1 delta
    refine advances_iff.2 ⟨front ++ journalEntriesForUIOp uiop, ?_, path.snoc step3⟩
    simp only [replayed, List.append_nil] at upTo ⊢
    rw [← upTo, List.append_assoc]
  | replayStep replayedUIOp =>
    obtain ⟨_, step3, journal, same⟩ := next
    rw [same]
    refine ⟨inv1, inv2, SM.inductive'.next inv3 step3, gamma, ?_⟩
    obtain ⟨front, upTo, path⟩ := advances_iff.1 delta
    refine advances_iff.2 ⟨front ++ journalEntriesForUIOp replayedUIOp, ?_, path.snoc step3⟩
    rw [upTo, journal, List.append_assoc]
  | pushSyncStep id | popSyncStep id =>
    obtain ⟨_, _, rfl⟩ := next
    exact ⟨inv1, inv2, inv3, gamma, delta⟩

end Invariant

end TSJ

namespace TSJMapRefinesThreeStateVersionedMap

open UI ThreeStateTypes Journal TSJ

abbrev TSJVariables := TSJ.Variables Variables

abbrev TSVVariables := ThreeStateVersioned.Variables Variables

/-- The three dictionaries, each after its journal. -/
def I (s : TSJVariables) : TSVVariables :=
  ⟨applySeq s.s1 s.j1, applySeq s.s2 s.j2, applySeq s.s3 s.j3, s.outstandingSyncReqs⟩

theorem applySeq_of_advances {m m' : Variables} {jes jes2 : List JournalEntry}
    (advances : Advances uiMachine m jes m' jes2) : applySeq m jes = applySeq m' jes2 := by
  obtain ⟨_, rfl, _, rfl, path⟩ := advances_iff.1 advances
  rw [applySeq_append, ← applySeq_of_path path]

/-- The entries that lie between the frozen and the ephemeral version are
already part of the ephemeral one. -/
theorem applySeq_delta {s : TSJVariables} (inv : Inv uiMachine s) :
    applySeq s.s3 (s.j3 ++ s.jDelta) = (I s).s3 := by
  have reached := applySeq_of_advances inv.delta
  calc applySeq s.s3 (s.j3 ++ s.jDelta)
      = applySeq (applySeq s.s2 (s.j2 ++ s.jDelta)) s.jDelta := by
        rw [applySeq_append, reached]
    _ = applySeq s.s2 (s.j2 ++ s.jDelta) := by
        rw [applySeq_append, applySeq_idempotent]
    _ = (I s).s3 := reached

variable {s s' : TSJVariables} {uiop : Op}

theorem extendLog1_refines (inv : Inv uiMachine s) (next : ExtendLog1 s s' uiop) :
    ThreeStateVersioned.Move1to2 (I s) (I s') uiop := by
  obtain ⟨label, rfl⟩ := next
  refine ⟨label, ?_⟩
  simp only [I, applySeq_of_advances inv.gamma]

theorem extendLog2_refines (inv : Inv uiMachine s) (next : ExtendLog2 s s' uiop) :
    ThreeStateVersioned.Move2to3 (I s) (I s') uiop := by
  obtain ⟨label, rfl⟩ := next
  refine ⟨label, ?_⟩
  simp only [I, applySeq_of_advances inv.delta]

theorem replay_unchanged {replayedUIOp : Op} (next : Replay uiMachine s s' uiop replayedUIOp) :
    I s' = I s := by
  obtain ⟨_, step3, journal, same⟩ := next
  rw [same]
  simp only [I, journal, applySeq_append]
  rw [← applySeq_of_next step3]

theorem move3_refines (next : TSJ.Move3 uiMachine s s' uiop) :
    ThreeStateVersioned.Move3 uiMachine (I s) (I s') uiop := by
  obtain ⟨step3, replayed, same⟩ := next
  rw [same]
  simp only [ThreeStateVersioned.Move3, I, replayed, applySeq_nil, and_true]
  exact step3

theorem stutter_refines {s : TSVVariables} : ThreeStateVersioned.Next uiMachine s s .noOp :=
  ⟨.move3Step, ⟨.stutterStep, rfl, rfl⟩, rfl⟩

theorem init_refines (init : TSJ.Init uiMachine s) : ThreeStateVersioned.Init uiMachine (I s) := by
  obtain ⟨initial, same2, same3, j1, j2, j3, _, _, reqs⟩ := init
  simp only [ThreeStateVersioned.Init, I, j1, j2, j3, same2, same3, reqs, applySeq_nil,
    and_self, and_true]
  exact initial

theorem next_refines (inv : Inv uiMachine s) (next : TSJ.Next uiMachine s s' uiop) :
    ThreeStateVersioned.Next uiMachine (I s) (I s') uiop := by
  obtain ⟨step, next⟩ := next
  cases step with
  | crashStep =>
    obtain ⟨label, rfl⟩ := next
    exact ⟨.crashStep, label, rfl⟩
  | move1to2Step =>
    obtain ⟨label, rfl⟩ := next
    exact ⟨.move1to2Step, label, rfl⟩
  | move2to3Step =>
    obtain ⟨label, rfl⟩ := next
    exact ⟨.move2to3Step, label, rfl⟩
  | extendLog1Step => exact ⟨.move1to2Step, extendLog1_refines inv next⟩
  | extendLog2Step => exact ⟨.move2to3Step, extendLog2_refines inv next⟩
  | move3Step => exact ⟨.move3Step, move3_refines next⟩
  | replayStep replayedUIOp =>
    rw [replay_unchanged next, next.1]
    exact stutter_refines
  | pushSyncStep id =>
    obtain ⟨label, fresh, rfl⟩ := next
    exact ⟨.pushSyncStep id, label, fresh, rfl⟩
  | popSyncStep id =>
    obtain ⟨label, synced, rfl⟩ := next
    exact ⟨.popSyncStep id, label, synced, rfl⟩
  | stutterStep =>
    obtain ⟨rfl, rfl⟩ := next
    exact stutter_refines

/-- The journaled machine keeps its invariant and refines the versioned dictionary step by step.
Replay changes none of the three dictionaries, and extending a log only moves a version up to the
next one. -/
theorem journaled_refines_versioned :
    (TSJ.machine uiMachine).Refines
      (ThreeStateVersioned.machine uiMachine) (Inv uiMachine) I ∧
    (∀ s, Inv uiMachine s →
      applySeq s.s3 (s.j3 ++ s.jDelta) = (I s).s3) ∧
    (∀ s s' uiop replayedUIOp, Inv uiMachine s →
      Replay uiMachine s s' uiop replayedUIOp → I s' = I s) ∧
    (∀ s s' uiop, Inv uiMachine s → ExtendLog1 s s' uiop →
      (I s').s1 = (I s).s2 ∧ (I s').s2 = (I s).s2 ∧ (I s').s3 = (I s).s3) ∧
    (∀ s s' uiop, Inv uiMachine s → ExtendLog2 s s' uiop →
      (I s').s1 = (I s).s1 ∧ (I s').s2 = (I s).s3 ∧ (I s').s3 = (I s).s3) := by
  refine ⟨⟨fun init => ⟨init_inv init, init_refines init⟩,
    fun inv next => ⟨next_inv inv next, next_refines inv next⟩⟩,
    fun s inv => applySeq_delta inv,
    fun s s' uiop replayedUIOp _ next => replay_unchanged next, ?_, ?_⟩
  · intro s s' uiop inv next
    have moved := (extendLog1_refines inv next).2
    rw [moved]
    exact ⟨rfl, rfl, rfl⟩
  · intro s s' uiop inv next
    have moved := (extendLog2_refines inv next).2
    rw [moved]
    exact ⟨rfl, rfl, rfl⟩

end TSJMapRefinesThreeStateVersionedMap

end VerifiedBetrfs
