import VerifiedBetrfs.DiskLayout
import VerifiedBetrfs.Journal
import VerifiedBetrfs.ThreeStateVersioned

/-!
# The states view and the journal view

The states view keeps the versions of the dictionary, the journal view the journals.  They share
nothing but the labels of their transitions.
-/

namespace VerifiedBetrfs

universe u

namespace ViewOp

open UI

abbrev Loc := DiskLayout.Location

/-- Labels that tie the steps of the two views together. -/
inductive VOp where
  | statesInternalOp
  | journalInternalOp
  | advanceOp (uiop : Op) (replay : Bool)
  | sendPersistentLocOp (loc : Loc)
  | freezeOp
  | sendFrozenLocOp (loc : Loc)
  | cleanUpOp
  | crashOp
  | pushSyncOp (id : Int)
  | popSyncOp (id : Int)

/-- What users see of a labelled step. -/
def VOpAgreesUIOp (vop : VOp) (uiop : Op) : Prop :=
  match vop with
  | .sendPersistentLocOp _ => uiop = .noOp
  | .advanceOp advanced replay =>
    (replay = true → uiop = .noOp) ∧ (replay = false → uiop = advanced)
  | .crashOp => uiop = .crashOp
  | .freezeOp => uiop = .noOp
  | .statesInternalOp => uiop = .noOp
  | .journalInternalOp => uiop = .noOp
  | .sendFrozenLocOp _ => uiop = .noOp
  | .cleanUpOp => uiop = .noOp
  | .pushSyncOp id => uiop = .pushSyncOp id
  | .popSyncOp id => uiop = .popSyncOp id

end ViewOp

namespace StatesView

open UI ViewOp

/-- The versions on disk and in memory, by their locations. -/
structure Variables (State : Type u) where
  disk : IMap Loc State
  persistentLoc : Option Loc
  frozenLoc : Option Loc
  frozenState : Option State
  ephemeralState : Option State

/-- The steps of the states side. -/
inductive Step where
  | obtainPersistentLocStep
  | advanceStep
  | crashStep
  | freezeStep
  | diskChangeStep
  | provideFrozenLocStep
  | forgetOldStep
  | stutterStep

section Machine

variable {State : Type u} (SM : UIStateMachine State)

def Init (s : Variables State) (loc : Loc) : Prop :=
  (∃ state, s.disk loc = some state ∧ SM.Init state) ∧
  s.persistentLoc = none ∧
  s.frozenLoc = none ∧
  s.frozenState = none ∧
  s.ephemeralState = none

/-- The states side learns the persistent location. -/
def ObtainPersistentLoc (s s' : Variables State) (vop : VOp) : Prop :=
  ∃ loc state, vop = .sendPersistentLocOp loc ∧
    s.persistentLoc = none ∧
    s.disk loc = some state ∧
    SM.Inv state ∧
    s' = { s with persistentLoc := some loc, ephemeralState := some state }

def Advance (s s' : Variables State) (vop : VOp) : Prop :=
  ∃ uiop replay state state', vop = .advanceOp uiop replay ∧
    s.ephemeralState = some state ∧
    SM.Next state state' uiop ∧
    s' = { s with ephemeralState := some state' }

/-- The versions at the persistent and the frozen location are kept, and every version while the
persistent location is not known yet. -/
structure DiskChangesPreservesPersistentAndFrozen (s s' : Variables State) :
    Prop where
  unknown : s.persistentLoc = none →
    ∀ loc state, s.disk loc = some state → s'.disk loc = some state
  persistent : ∀ loc, s.persistentLoc = some loc →
    ∃ state, s.disk loc = some state ∧ s'.disk loc = some state
  frozen : ∀ loc, s.frozenLoc = some loc →
    ∃ state, s.disk loc = some state ∧ s'.disk loc = some state

section

variable (s s' : Variables State) (vop : VOp)

def Crash : Prop :=
  vop = .crashOp ∧
  DiskChangesPreservesPersistentAndFrozen s s' ∧
  s' = ⟨s'.disk, none, none, none, none⟩

/-- The ephemeral version is frozen. -/
def Freeze : Prop :=
  vop = .freezeOp ∧
  s' = { s with frozenLoc := none, frozenState := s.ephemeralState }

def DiskChange : Prop :=
  vop = .statesInternalOp ∧
  DiskChangesPreservesPersistentAndFrozen s s' ∧
  s' = { s with disk := s'.disk }

/-- The frozen version has been written. -/
def ProvideFrozenLoc : Prop :=
  ∃ loc state, vop = .sendFrozenLocOp loc ∧
    s.frozenLoc = none ∧
    s.frozenState = some state ∧
    s.disk loc = some state ∧
    s' = { s with frozenLoc := some loc }

/-- The frozen version becomes the persistent one. -/
def ForgetOld : Prop :=
  vop = .cleanUpOp ∧
  s' = { s with persistentLoc := s.frozenLoc, frozenLoc := none, frozenState := none }

def Stutter : Prop :=
  (vop = .journalInternalOp ∨ vop = .statesInternalOp ∨
    (∃ id, vop = .pushSyncOp id) ∨ ∃ id, vop = .popSyncOp id) ∧
  s' = s

def NextStep : Step → Prop
  | .obtainPersistentLocStep => ObtainPersistentLoc SM s s' vop
  | .advanceStep => Advance SM s s' vop
  | .crashStep => Crash s s' vop
  | .freezeStep => Freeze s s' vop
  | .diskChangeStep => DiskChange s s' vop
  | .provideFrozenLocStep => ProvideFrozenLoc s s' vop
  | .forgetOldStep => ForgetOld s s' vop
  | .stutterStep => Stutter s s' vop

def Next : Prop := ∃ step, NextStep SM s s' vop step

end

end Machine

section Inversion

variable {State : Type u} {SM : UIStateMachine State} {s s' : Variables State}

theorem next_cases {vop : VOp} (next : Next SM s s' vop) :
    match vop with
    | .sendPersistentLocOp loc => ObtainPersistentLoc SM s s' (.sendPersistentLocOp loc)
    | .advanceOp uiop replay => Advance SM s s' (.advanceOp uiop replay)
    | .crashOp => Crash s s' .crashOp
    | .freezeOp => Freeze s s' .freezeOp
    | .statesInternalOp => DiskChange s s' .statesInternalOp ∨ s' = s
    | .sendFrozenLocOp loc => ProvideFrozenLoc s s' (.sendFrozenLocOp loc)
    | .cleanUpOp => ForgetOld s s' .cleanUpOp
    | .journalInternalOp | .pushSyncOp _ | .popSyncOp _ => s' = s := by
  obtain ⟨step, next⟩ := next
  cases step with
  | obtainPersistentLocStep | provideFrozenLocStep =>
    obtain ⟨loc, state, rfl, rest⟩ := next
    exact ⟨loc, state, rfl, rest⟩
  | advanceStep =>
    obtain ⟨uiop, replay, state, state', rfl, rest⟩ := next
    exact ⟨uiop, replay, state, state', rfl, rest⟩
  | crashStep | freezeStep | forgetOldStep =>
    obtain ⟨rfl, rest⟩ := next
    exact ⟨rfl, rest⟩
  | diskChangeStep =>
    obtain ⟨rfl, rest⟩ := next
    exact Or.inl ⟨rfl, rest⟩
  | stutterStep =>
    obtain ⟨rfl | rfl | ⟨id, rfl⟩ | ⟨id, rfl⟩, same⟩ := next
    · exact same
    · exact Or.inr same
    · exact same
    · exact same

end Inversion

end StatesView

namespace JournalView

open UI ViewOp Journal ThreeStateTypes

/-- The journals between the versions, and the locations of the versions. -/
structure Variables where
  j1 : List JournalEntry
  j2 : List JournalEntry
  j3 : List JournalEntry
  jGamma : List JournalEntry
  jDelta : List JournalEntry
  persistentLoc : Loc
  frozenLoc : Option Loc
  syncReqs : SyncReqs

def Init (s : Variables) (loc : Loc) : Prop :=
  s = ⟨[], [], [], [], [], loc, none, IMap.empty⟩

/-- The steps of the journal side. -/
inductive Step where
  | presentPersistentLocStep
  | obtainFrozenLocStep
  | cleanUpStep
  | crashStep
  | move1to2Step
  | move2to3Step
  | extendLog1Step
  | extendLog2Step
  | move3Step
  | replayStep
  | pushSyncStep
  | popSyncStep
  | stutterStep

section

variable (s s' : Variables) (vop : VOp)

def PresentPersistentLoc : Prop := vop = .sendPersistentLocOp s.persistentLoc ∧ s' = s

def ObtainFrozenLoc : Prop :=
  ∃ loc, vop = .sendFrozenLocOp loc ∧ s' = { s with frozenLoc := some loc }

/-- The switch of locations is over. -/
def CleanUp : Prop :=
  vop = .cleanUpOp ∧
  s.frozenLoc = some s.persistentLoc ∧
  s' = { s with frozenLoc := none }

def Crash : Prop :=
  vop = .crashOp ∧
  s' = ⟨s.j1, s.j1, s.j1, s.j1, [], s.persistentLoc, none, IMap.empty⟩

def Move1to2 : Prop :=
  vop = .journalInternalOp ∧
  ∃ loc, s.frozenLoc = some loc ∧
    s' = ⟨s.j2, s.j2, s.j3, s.j2, s.jDelta, loc, s.frozenLoc, syncReqs2to1 s.syncReqs⟩

def Move2to3 : Prop :=
  vop = .freezeOp ∧
  s.frozenLoc ≠ some s.persistentLoc ∧
  s' = ⟨s.j1, s.j3, s.j3, s.jGamma ++ s.jDelta, [], s.persistentLoc, none,
    syncReqs3to2 s.syncReqs⟩

def ExtendLog1 : Prop :=
  vop = .journalInternalOp ∧
  s' = ⟨s.jGamma, s.j2, s.j3, s.jGamma, s.jDelta, s.persistentLoc, s.frozenLoc,
    syncReqs2to1 s.syncReqs⟩

def ExtendLog2 : Prop :=
  vop = .journalInternalOp ∧
  s' = ⟨s.j1, s.j2 ++ s.jDelta, s.j3, s.jGamma ++ s.jDelta, [], s.persistentLoc,
    s.frozenLoc, syncReqs3to2 s.syncReqs⟩

def Move3 : Prop :=
  ∃ uiop, vop = .advanceOp uiop false ∧
    s.j3 = [] ∧
    s' = { s with jDelta := s.jDelta ++ journalEntriesForUIOp uiop }

def Replay : Prop :=
  ∃ uiop, vop = .advanceOp uiop true ∧
    s.j3 = journalEntriesForUIOp uiop ++ s'.j3 ∧
    s' = { s with j3 := s'.j3 }

def PushSync : Prop :=
  ∃ id, vop = .pushSyncOp id ∧
    s.syncReqs id = none ∧
    s' = { s with syncReqs := s.syncReqs.update id .state3 }

def PopSync : Prop :=
  ∃ id, vop = .popSyncOp id ∧
    s.syncReqs id = some .state1 ∧
    s' = { s with syncReqs := s.syncReqs.remove1 id }

def Stutter : Prop := (vop = .journalInternalOp ∨ vop = .statesInternalOp) ∧ s' = s

def NextStep : Step → Prop
  | .presentPersistentLocStep => PresentPersistentLoc s s' vop
  | .obtainFrozenLocStep => ObtainFrozenLoc s s' vop
  | .cleanUpStep => CleanUp s s' vop
  | .crashStep => Crash s s' vop
  | .move1to2Step => Move1to2 s s' vop
  | .move2to3Step => Move2to3 s s' vop
  | .extendLog1Step => ExtendLog1 s s' vop
  | .extendLog2Step => ExtendLog2 s s' vop
  | .move3Step => Move3 s s' vop
  | .replayStep => Replay s s' vop
  | .pushSyncStep => PushSync s s' vop
  | .popSyncStep => PopSync s s' vop
  | .stutterStep => Stutter s s' vop

def Next : Prop := ∃ step, NextStep s s' vop step

end

end JournalView

end VerifiedBetrfs
