import VerifiedBetrfs.TSJ
import VerifiedBetrfs.Views

/-!
# The two views together

The journal side switches to the frozen location before the states side hears of it, and a freeze or
a crash can fall between the two.
-/

namespace VerifiedBetrfs.CompositeView

open MapSpec (WF uiMachine)
open StatesView (next_cases)

open UI ViewOp

/-- The states side and the journal side. -/
structure Variables where
  tsm : StatesView.Variables MapSpec.Variables
  jc : JournalView.Variables

def Init (s : Variables) : Prop :=
  ∃ loc, StatesView.Init uiMachine s.tsm loc ∧ JournalView.Init s.jc loc

def NextStep (s s' : Variables) (vop : VOp) (uiop : Op) : Prop :=
  StatesView.Next uiMachine s.tsm s'.tsm vop ∧
  JournalView.Next s.jc s'.jc vop ∧
  VOpAgreesUIOp vop uiop

def Next (s s' : Variables) (uiop : Op) : Prop :=
  ∃ vop, NextStep s s' vop uiop

def machine : StateMachine Variables Op where
  Init := Init
  Next := Next

instance : Inhabited MapSpec.Variables := ⟨⟨MapSpec.emptyMap⟩⟩

def s1 (s : Variables) : MapSpec.Variables := s.tsm.disk.at' s.jc.persistentLoc

def s2 (s : Variables) : MapSpec.Variables := s.tsm.frozenState.getD (s1 s)

def s3 (s : Variables) : MapSpec.Variables := s.tsm.ephemeralState.getD (s1 s)

/-- The machine with three versions and journals. -/
def I (s : Variables) : TSJ.Variables MapSpec.Variables :=
  ⟨s1 s, s2 s, s3 s, s.jc.j1, s.jc.j2, s.jc.j3, s.jc.jGamma, s.jc.jDelta, s.jc.syncReqs⟩

/-- What the two sides know of each other's locations. -/
structure Linked (s : Variables) : Prop where
  frozenLoc : ∀ loc, s.jc.frozenLoc = some loc → s.tsm.frozenLoc = some loc
  persistentLoc : ∀ loc, s.tsm.persistentLoc = some loc →
    s.jc.persistentLoc = loc ∨ s.jc.frozenLoc = some s.jc.persistentLoc
  frozenSaved : ∀ loc, s.tsm.frozenLoc = some loc →
    ∃ state, s.tsm.frozenState = some state ∧ s.tsm.disk loc = some state
  frozenState : s.tsm.frozenState ≠ none → s.tsm.ephemeralState ≠ none
  ephemeralState : s.tsm.ephemeralState ≠ none → s.tsm.persistentLoc ≠ none
  present : s.jc.persistentLoc ∈ s.tsm.disk.keys

/-- The two sides fit together and make well-formed versions. -/
structure Inv (s : Variables) : Prop extends Linked s where
  inv1 : WF (s1 s)
  inv2 : WF (s2 s)
  inv3 : WF (s3 s)
  journaled : TSJ.Inv uiMachine (I s)

variable {s : Variables}

theorem Linked.inv (linked : Linked s) (journaled : TSJ.Inv uiMachine (I s)) : Inv s :=
  ⟨linked, journaled.s1, journaled.s2, journaled.s3, journaled⟩

theorem Linked.congr_locs {tsm : StatesView.Variables MapSpec.Variables}
    {jc jc' : JournalView.Variables} (linked : Linked ⟨tsm, jc⟩)
    (persistentLoc : jc'.persistentLoc = jc.persistentLoc := by rfl)
    (frozenLoc : jc'.frozenLoc = jc.frozenLoc := by rfl) : Linked ⟨tsm, jc'⟩ := by
  refine ⟨?_, ?_, linked.frozenSaved, linked.frozenState, linked.ephemeralState, ?_⟩
  · simp only [frozenLoc]
    exact linked.frozenLoc
  · simp only [frozenLoc, persistentLoc]
    exact linked.persistentLoc
  · simp only [persistentLoc]
    exact linked.present

/-- A states side that does not know the persistent location has only the version on disk. -/
theorem Linked.unknown (linked : Linked s) (unknown : s.tsm.persistentLoc = none) :
    s.tsm.ephemeralState = none ∧ s.tsm.frozenState = none ∧ s.tsm.frozenLoc = none := by
  have noEphemeral : s.tsm.ephemeralState = none := by
    by_contra known
    exact linked.ephemeralState known unknown
  have noFrozen : s.tsm.frozenState = none := by
    by_contra known
    exact linked.frozenState known noEphemeral
  refine ⟨noEphemeral, noFrozen, ?_⟩
  cases location : s.tsm.frozenLoc with
  | none => rfl
  | some loc =>
    obtain ⟨_, frozen, _⟩ := linked.frozenSaved loc location
    rw [noFrozen] at frozen
    cases frozen

/-- A change of the disk by the states side keeps the version that the journal side calls
persistent. -/
theorem Linked.keeps_persistent (linked : Linked s) {tsm' : StatesView.Variables MapSpec.Variables}
    (preserved : StatesView.DiskChangesPreservesPersistentAndFrozen s.tsm tsm') :
    ∃ state, s.tsm.disk s.jc.persistentLoc = some state ∧
      tsm'.disk s.jc.persistentLoc = some state := by
  cases known : s.tsm.persistentLoc with
  | none =>
    obtain ⟨state, bound⟩ := linked.present
    exact ⟨state, bound, preserved.unknown known _ _ bound⟩
  | some loc =>
    rcases linked.persistentLoc loc known with same | switched
    · rw [same]
      exact preserved.persistent loc known
    · exact preserved.frozen _ (linked.frozenLoc _ switched)

/-- A step keeps the two sides linked and is a step of the machine with three
versions and journals. -/
def StepRefines (s s' : Variables) (uiop : Op) : Prop :=
  Linked s' ∧ TSJ.Next uiMachine (I s) (I s') uiop

theorem stepRefines_of_unchanged {s s' : Variables} (linked : Linked s')
    (same : I s' = I s) : StepRefines s s' .noOp :=
  ⟨linked, .stutterStep, rfl, same.symm⟩

section Steps

variable {tsm tsm' : StatesView.Variables MapSpec.Variables}
  {jc jc' : JournalView.Variables} {uiop : Op}

section

variable (linked : Linked ⟨tsm, jc⟩) {loc : Loc} {advanced : Op}

include linked

theorem sendPersistentLoc_refines
    (states : StatesView.ObtainPersistentLoc uiMachine tsm tsm' (.sendPersistentLocOp loc))
    (journal : loc = jc.persistentLoc ∧ jc' = jc) : StepRefines ⟨tsm, jc⟩ ⟨tsm', jc'⟩ .noOp := by
  obtain ⟨rfl, rfl⟩ := journal
  obtain ⟨_, _, ⟨⟩, unknown, bound, _, rfl⟩ := states
  obtain ⟨noEphemeral, noFrozen, _⟩ := linked.unknown unknown
  apply stepRefines_of_unchanged
  · refine ⟨linked.frozenLoc, ?_, linked.frozenSaved, ?_, ?_, linked.present⟩
    · intro loc known
      exact Or.inl (Option.some.inj known)
    · intro frozen
      exact absurd noFrozen frozen
    · simp
  · have persistent := IMap.at'_of_eq_some bound
    have before : tsm.ephemeralState = none := noEphemeral
    simp [I, s1, s2, s3, persistent, before]

theorem advance_refines
    (states : StatesView.Advance uiMachine tsm tsm' (.advanceOp advanced false))
    (replayed : jc.j3 = [])
    (journal : jc' = { jc with jDelta := jc.jDelta ++ Journal.journalEntriesForUIOp advanced }) :
    StepRefines ⟨tsm, jc⟩ ⟨tsm', jc'⟩ advanced := by
  subst journal
  obtain ⟨_, _, _, _, ⟨⟩, ephemeral, next, rfl⟩ := states
  have known : tsm.persistentLoc ≠ none := linked.ephemeralState (by simp [ephemeral])
  refine ⟨{ linked with frozenState := ?_, ephemeralState := ?_ }, .move3Step, ?_, replayed, rfl⟩
  · simp
  · exact fun _ => known
  · simpa [I, s3, ephemeral] using next

theorem replay_refines (states : StatesView.Advance uiMachine tsm tsm' (.advanceOp advanced true))
    (entries : jc.j3 = Journal.journalEntriesForUIOp advanced ++ jc'.j3)
    (journal : jc' = { jc with j3 := jc'.j3 }) : StepRefines ⟨tsm, jc⟩ ⟨tsm', jc'⟩ .noOp := by
  obtain ⟨_, _, _, _, ⟨⟩, ephemeral, next, rfl⟩ := states
  have known : tsm.persistentLoc ≠ none := linked.ephemeralState (by simp [ephemeral])
  rw [journal]
  refine ⟨{ linked with
      frozenState := ?_
      ephemeralState := ?_ }, .replayStep advanced, rfl, ?_, entries, rfl⟩
  · simp
  · exact fun _ => known
  · simpa [I, s3, ephemeral] using next

/-- The version at the persistent location survives, also when only the journal side has switched to
it. -/
theorem crash_refines (states : StatesView.Crash tsm tsm' .crashOp)
    (journal : JournalView.Crash jc jc' .crashOp) : StepRefines ⟨tsm, jc⟩ ⟨tsm', jc'⟩ .crashOp := by
  obtain ⟨_, preserved, lost⟩ := states
  obtain ⟨_, rfl⟩ := journal
  obtain ⟨state, bound, kept⟩ := linked.keeps_persistent preserved
  rw [lost]
  refine ⟨⟨?_, ?_, ?_, ?_, ?_, ⟨state, kept⟩⟩, .crashStep, rfl, ?_⟩
  · simp
  · simp
  · simp
  · simp
  · simp
  · have before := IMap.at'_of_eq_some bound
    have after := IMap.at'_of_eq_some kept
    simp [I, s1, s2, s3, before, after]

theorem freeze_refines (states : StatesView.Freeze tsm tsm' .freezeOp)
    (journal : JournalView.Move2to3 jc jc' .freezeOp) :
    StepRefines ⟨tsm, jc⟩ ⟨tsm', jc'⟩ .noOp := by
  obtain ⟨_, rfl⟩ := states
  obtain ⟨_, notSwitched, rfl⟩ := journal
  refine ⟨⟨?_, ?_, ?_, fun frozen => frozen, linked.ephemeralState, linked.present⟩,
    .move2to3Step, rfl, rfl⟩
  · simp
  · intro loc known
    rcases linked.persistentLoc loc known with same | switched
    · exact Or.inl same
    · exact absurd switched notSwitched
  · simp

theorem diskChange_refines (states : StatesView.DiskChange tsm tsm' .statesInternalOp) :
    StepRefines ⟨tsm, jc⟩ ⟨tsm', jc⟩ .noOp := by
  obtain ⟨_, preserved, same⟩ := states
  obtain ⟨state, bound, kept⟩ := linked.keeps_persistent preserved
  rw [same]
  apply stepRefines_of_unchanged
  · refine { linked with frozenSaved := ?_, present := ⟨state, kept⟩ }
    intro loc location
    obtain ⟨frozen, saved, onDisk⟩ := linked.frozenSaved loc location
    obtain ⟨_, before, after⟩ := preserved.frozen loc location
    simp only [before, Option.some.injEq] at onDisk
    exact ⟨frozen, saved, onDisk ▸ after⟩
  · have before := IMap.at'_of_eq_some bound
    have after := IMap.at'_of_eq_some kept
    simp [I, s1, s2, s3, before, after]

theorem sendFrozenLoc_refines (states : StatesView.ProvideFrozenLoc tsm tsm' (.sendFrozenLocOp loc))
    (journal : jc' = { jc with frozenLoc := some loc }) :
    StepRefines ⟨tsm, jc⟩ ⟨tsm', jc'⟩ .noOp := by
  subst journal
  obtain ⟨_, state, ⟨⟩, noLoc, frozen, saved, rfl⟩ := states
  apply stepRefines_of_unchanged
  · refine ⟨fun loc known => known, ?_, ?_, linked.frozenState, linked.ephemeralState,
      linked.present⟩
    · intro persistent known
      rcases linked.persistentLoc persistent known with same | switched
      · exact Or.inl same
      · have location := linked.frozenLoc _ switched
        simp [noLoc] at location
    · rintro _ ⟨⟩
      exact ⟨state, frozen, saved⟩
  · rfl

theorem cleanUp_refines (states : StatesView.ForgetOld tsm tsm' .cleanUpOp)
    (journal : JournalView.CleanUp jc jc' .cleanUpOp) :
    StepRefines ⟨tsm, jc⟩ ⟨tsm', jc'⟩ .noOp := by
  obtain ⟨_, rfl⟩ := states
  obtain ⟨_, switched, rfl⟩ := journal
  have location : tsm.frozenLoc = some jc.persistentLoc := linked.frozenLoc _ switched
  obtain ⟨_, frozen, saved⟩ := linked.frozenSaved _ location
  simp only at frozen saved
  apply stepRefines_of_unchanged
  · refine ⟨?_, ?_, ?_, ?_, ?_, linked.present⟩
    · simp
    · intro loc known
      simp only [location, Option.some.injEq] at known
      exact Or.inl known
    · simp
    · simp
    · simp [location]
  · have persistent := IMap.at'_of_eq_some saved
    simp [I, s1, s2, s3, frozen, persistent]

/-- The superblock switch: the journal side calls the frozen version
persistent. -/
theorem move1to2_refines (journal : JournalView.Move1to2 jc jc' .journalInternalOp) :
    StepRefines ⟨tsm, jc⟩ ⟨tsm, jc'⟩ .noOp := by
  obtain ⟨_, loc, location, rfl⟩ := journal
  obtain ⟨state, frozen, saved⟩ := linked.frozenSaved loc (linked.frozenLoc loc location)
  simp only at frozen saved
  refine ⟨{ linked with persistentLoc := ?_, present := ⟨state, saved⟩ }, .move1to2Step, rfl, ?_⟩
  · exact fun _ _ => Or.inr location
  · have ephemeral : tsm.ephemeralState ≠ none := linked.frozenState (by simp [frozen])
    obtain ⟨_, ephemeral⟩ := Option.ne_none_iff_exists'.1 ephemeral
    have switched := IMap.at'_of_eq_some saved
    simp [I, s1, s2, s3, frozen, ephemeral, switched]

end

end Steps

theorem nextStep_refines {s s' : Variables} {vop : VOp} {uiop : Op}
    (linked : Linked s) (next : NextStep s s' vop uiop) : StepRefines s s' uiop := by
  obtain ⟨states, ⟨step, journal⟩, agrees⟩ := next
  obtain ⟨_, _⟩ := s'
  cases step with
  | presentPersistentLocStep =>
    obtain ⟨rfl, same⟩ := journal
    cases agrees
    exact sendPersistentLoc_refines linked (next_cases states) ⟨rfl, same⟩
  | obtainFrozenLocStep =>
    obtain ⟨_, rfl, same⟩ := journal
    cases agrees
    exact sendFrozenLoc_refines linked (next_cases states) same
  | cleanUpStep =>
    obtain ⟨rfl, rest⟩ := journal
    cases agrees
    exact cleanUp_refines linked (next_cases states) ⟨rfl, rest⟩
  | crashStep =>
    obtain ⟨rfl, same⟩ := journal
    cases agrees
    exact crash_refines linked (next_cases states) ⟨rfl, same⟩
  | move1to2Step =>
    obtain ⟨rfl, rest⟩ := journal
    cases agrees
    cases next_cases states
    exact move1to2_refines linked ⟨rfl, rest⟩
  | move2to3Step =>
    obtain ⟨rfl, rest⟩ := journal
    cases agrees
    exact freeze_refines linked (next_cases states) ⟨rfl, rest⟩
  | extendLog1Step =>
    obtain ⟨rfl, same⟩ := journal
    cases agrees
    cases next_cases states
    cases same
    exact ⟨linked.congr_locs, .extendLog1Step, rfl, rfl⟩
  | extendLog2Step =>
    obtain ⟨rfl, same⟩ := journal
    cases agrees
    cases next_cases states
    cases same
    exact ⟨linked.congr_locs, .extendLog2Step, rfl, rfl⟩
  | move3Step =>
    obtain ⟨advanced, rfl, replayed, same⟩ := journal
    rw [agrees.2 rfl]
    exact advance_refines linked (next_cases states) replayed same
  | replayStep =>
    obtain ⟨advanced, rfl, entries, same⟩ := journal
    rw [agrees.1 rfl]
    exact replay_refines linked (next_cases states) entries same
  | pushSyncStep =>
    obtain ⟨id, rfl, fresh, same⟩ := journal
    cases agrees
    cases next_cases states
    cases same
    exact ⟨linked.congr_locs, .pushSyncStep id, rfl, fresh, rfl⟩
  | popSyncStep =>
    obtain ⟨id, rfl, synced, same⟩ := journal
    cases agrees
    cases next_cases states
    cases same
    exact ⟨linked.congr_locs, .popSyncStep id, rfl, synced, rfl⟩
  | stutterStep =>
    obtain ⟨rfl | rfl, same⟩ := journal
    · cases agrees
      cases next_cases states
      cases same
      exact stepRefines_of_unchanged linked rfl
    · cases agrees
      cases same
      rcases next_cases states with change | unchanged
      · exact diskChange_refines linked change
      · cases unchanged
        exact stepRefines_of_unchanged linked rfl

theorem crash_keeps_persistent {s s' : Variables} {uiop : Op} (linked : Linked s)
    (crash : NextStep s s' .crashOp uiop) :
    ∃ state, s.tsm.disk s.jc.persistentLoc = some state ∧
      s'.tsm.disk s'.jc.persistentLoc = some state := by
  obtain ⟨states, ⟨step, journal⟩, _⟩ := crash
  obtain ⟨_, preserved, _⟩ := next_cases states
  have sameLoc : s'.jc.persistentLoc = s.jc.persistentLoc := by
    cases step with
    | crashStep | stutterStep | presentPersistentLocStep => rw [journal.2]
    | _ => simp [JournalView.NextStep, JournalView.ObtainFrozenLoc, JournalView.CleanUp,
        JournalView.Move1to2, JournalView.Move2to3, JournalView.ExtendLog1,
        JournalView.ExtendLog2, JournalView.Move3, JournalView.Replay,
        JournalView.PushSync, JournalView.PopSync] at journal
  rw [sameLoc]
  exact linked.keeps_persistent preserved

theorem init_refines (init : Init s) : Linked s ∧ TSJ.Init uiMachine (I s) := by
  obtain ⟨_, ⟨⟨state, bound, initial⟩, noPersistent, noFrozenLoc, noFrozen, noEphemeral⟩,
    journal⟩ := init
  obtain ⟨_, _⟩ := s
  cases journal
  simp only at bound noPersistent noFrozenLoc noFrozen noEphemeral
  constructor
  · constructor
    · simp
    · simp [noPersistent]
    · simp [noFrozenLoc]
    · simp [noFrozen]
    · simp [noEphemeral]
    · exact ⟨state, bound⟩
  · have persistent := IMap.at'_of_eq_some bound
    constructor
    · simpa [I, s1, persistent] using initial
    all_goals simp [I, s2, s3, noFrozen, noEphemeral]

/-- The composite view keeps its invariant and refines the three versions with journals.  In every
run the location that the journal side calls persistent holds a version on disk, and a crash finds
there the version that was there before. -/
theorem composite_refines_journaled :
    machine.Refines (TSJ.machine uiMachine) Inv I ∧
    (∀ (run : machine.Behavior), ∀ index ≤ run.length,
      (run.states index).jc.persistentLoc ∈ (run.states index).tsm.disk.keys) ∧
    (∀ (run : machine.Behavior), ∀ index < run.length,
      NextStep (run.states index) (run.states (index + 1)) .crashOp (run.labels index) →
      ∃ state,
        (run.states index).tsm.disk (run.states index).jc.persistentLoc = some state ∧
        (run.states (index + 1)).tsm.disk (run.states (index + 1)).jc.persistentLoc =
          some state) := by
  have refines : machine.Refines (TSJ.machine uiMachine) Inv I := by
    constructor
    · intro s init
      obtain ⟨linked, initial⟩ := init_refines init
      exact ⟨linked.inv (TSJ.init_inv initial), initial⟩
    · rintro s s' uiop inv ⟨_, next⟩
      obtain ⟨linked, journaled⟩ := nextStep_refines inv.toLinked next
      exact ⟨linked.inv (TSJ.next_inv inv.journaled journaled), journaled⟩
  refine ⟨refines, fun run index indexLe => ?_, fun run index indexLt crash => ?_⟩
  · exact (refines.inductive'.holds run indexLe).present
  · have inv := refines.inductive'.holds run (Nat.le_of_lt indexLt)
    exact crash_keeps_persistent inv.toLinked crash

/-- The three versions of the dictionary, each after its journal. -/
def versions (s : Variables) : ThreeStateVersioned.Variables MapSpec.Variables :=
  TSJMapRefinesThreeStateVersionedMap.I (I s)

/-- Every run of the two views, with any crashes, shows users a run of the versioned dictionary. -/
theorem composite_refines_versioned :
    machine.Refines (ThreeStateVersioned.machine uiMachine) Inv versions := by
  constructor
  · intro s init
    obtain ⟨linked, initial⟩ := init_refines init
    exact ⟨linked.inv (TSJ.init_inv initial),
      TSJMapRefinesThreeStateVersionedMap.init_refines initial⟩
  · rintro s s' uiop inv ⟨_, next⟩
    obtain ⟨linked, journaled⟩ := nextStep_refines inv.toLinked next
    exact ⟨linked.inv (TSJ.next_inv inv.journaled journaled),
      TSJMapRefinesThreeStateVersionedMap.next_refines inv.journaled journaled⟩

end VerifiedBetrfs.CompositeView
