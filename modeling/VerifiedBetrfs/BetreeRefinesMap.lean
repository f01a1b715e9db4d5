import VerifiedBetrfs.BetreeRedirect

/-!
# The abstract tree refines the dictionary

A tree is read as the dictionary that maps each key to the value its lookup finds.
-/

namespace VerifiedBetrfs.BetreeRefinesMap

open MapSpec (Next View WF emptyMap)
open BlockInterface (GC Inv OpStep OpTransaction Reads RootHasNoPredecessor gc_inv gc_view
  opTransaction_inv)
open BetreeSpec BetreeInv BetreeSteps BlockGraph Betree

/-- A lookup with the value that it finds. -/
structure LookupResult where
  lookup : Lookup
  result : Value

instance : Nonempty LookupResult := ⟨⟨[], default⟩⟩

/-- Some lookup that finds a value, if there is one. -/
noncomputable def getLookup (view : IMap Reference Node) (key : Key)
    (start : Reference) : LookupResult :=
  Classical.epsilon fun found =>
    IsSatisfyingLookupFrom view key found.result found.lookup start

/-- The value of a key, chosen by a lookup. -/
noncomputable def getValue (view : IMap Reference Node) (key : Key) : Value :=
  (getLookup view key root).result

noncomputable def iView (view : IMap Reference Node) : View :=
  fun key => some (getValue view key)

/-- The dictionary that a tree stands for. -/
noncomputable def I (s : Variables) : MapSpec.Variables := ⟨iView s.bcv.view⟩

theorem wf_I (s : Variables) : WF (I s) := fun _ => ⟨_, rfl⟩

variable {key : Key} {value : Value}

theorem getValue_eq {view : IMap Reference Node}
    (path : PathMessage view key root (.define value)) : getValue view key = value := by
  obtain ⟨lookup, satisfying⟩ := exists_satisfyingLookup_iff.mpr path
  have chosen : IsSatisfyingLookupFrom view key (getLookup view key root).result
      (getLookup view key root).lookup root :=
    Classical.epsilon_spec (p := fun found : LookupResult =>
      IsSatisfyingLookupFrom view key found.result found.lookup root) ⟨⟨lookup, value⟩, satisfying⟩
  have chosenPath := exists_satisfyingLookup_iff.mp ⟨_, chosen⟩
  exact chosenPath.define_unique path

theorem path_getValue {s : Variables} (inv : Inv s) (key : Key) :
    PathMessage s.bcv.view key root (.define (getValue s.bcv.view key)) := by
  obtain ⟨_, path⟩ := keyHasSatisfyingLookup_iff.mp (inv.2.2.2.1 key)
  rwa [getValue_eq path]

theorem view_of_lookupKeyValue {s : Variables} {lookup : Lookup}
    (found : LookupKeyValue lookup key value) (reads : Reads s.bcv lookup) :
    (I s).view key = some value := by
  obtain ⟨⟨starts, follows, visits⟩, defines⟩ := found
  have path := pathMessage_of_lookup starts reads follows visits
  rw [show interpretLookup lookup key = .define value from defines] at path
  exact congrArg some (getValue_eq path)

theorem inv_of_paths {s : Variables} (blocks : Inv s.bcv) (acyclic : IsAcyclic s.bcv.view)
    (noPredecessor : RootHasNoPredecessor s.bcv.view)
    (paths : ∀ key, ∃ value, PathMessage s.bcv.view key root (.define value)) : Inv s :=
  ⟨blocks, acyclic, acyclic_of_isAcyclic acyclic,
    fun key => keyHasSatisfyingLookup_iff.mpr (paths key), noPredecessor⟩

variable {s s' : Variables}

/-- A step that keeps the graph invariants and every lookup keeps the invariant and the
dictionary. -/
theorem preserved_of_paths (inv : Inv s) (blocks : Inv s'.bcv)
    (acyclic : IsAcyclic s'.bcv.view)
    (noPredecessor : RootHasNoPredecessor s'.bcv.view)
    (paths : ∀ key value, PathMessage s.bcv.view key root (.define value) →
      PathMessage s'.bcv.view key root (.define value)) :
    Inv s' ∧ I s' = I s := by
  have carried : ∀ key, PathMessage s'.bcv.view key root
      (.define (getValue s.bcv.view key)) :=
    fun key => paths key _ (path_getValue inv key)
  refine ⟨inv_of_paths blocks acyclic noPredecessor fun key => ⟨_, carried key⟩, ?_⟩
  apply congrArg MapSpec.Variables.mk
  funext key
  exact congrArg some (getValue_eq (carried key))

theorem initial_view (init : Betree.Init s) (ref : Reference) :
    s.bcv.view ref = if ref = root then some emptyNode else none := by
  by_cases isRoot : ref = root
  · simp [isRoot, init.2]
  · have absent : ref ∉ s.bcv.view.keys := by
      rw [init.1.1]
      exact isRoot
    simp [isRoot, IMap.notMem_keys.mp absent]

theorem initial_noEdge (init : Betree.Init s) (source target : Reference) :
    ¬ Edge s.bcv.view source target := by
  rintro ⟨_, bound, _, routed⟩
  rw [initial_view init source] at bound
  by_cases isRoot : source = root
  · simp only [isRoot, if_true, Option.some.injEq] at bound
    subst bound
    simp [emptyNode, IMap.empty] at routed
  · simp [isRoot] at bound

theorem init_refines (init : Betree.Init s) : Inv s ∧ I s = ⟨emptyMap⟩ := by
  have wf : WFNode emptyNode := by
    refine ⟨fun key => ⟨_, rfl⟩, fun key _ => ?_⟩
    exact trivial
  have paths : ∀ key, PathMessage s.bcv.view key root (.define MapSpec.emptyValue) :=
    fun key => PathMessage.stop init.2 wf
  have closed : IsClosed s.bcv.view := by
    intro ref node bound target isTarget
    exact absurd ⟨node, bound, isTarget⟩ (initial_noEdge init ref target)
  have acyclic : IsAcyclic s.bcv.view := by
    rw [isAcyclic_iff]
    intro vertex cycle
    obtain ⟨next, step, _⟩ := Relation.TransGen.head'_iff.mp cycle
    exact initial_noEdge init vertex next step
  have noPredecessor : RootHasNoPredecessor s.bcv.view := by
    intro ref node bound isTarget
    exact initial_noEdge init ref root ⟨node, bound, isTarget⟩
  refine ⟨inv_of_paths ⟨⟨_, init.2⟩, closed, BlockInterface.liveDataAvailable _⟩
    acyclic noPredecessor fun key => ⟨_, paths key⟩, ?_⟩
  apply congrArg MapSpec.Variables.mk
  funext key
  exact congrArg some (getValue_eq (paths key))

theorem insert_refines {ins : MessageInsertion} (inv : Inv s) (msgEq : ins.msg = .define value)
    (valid : ValidInsertion ins) (reads : Reads s.bcv (insertionReads ins))
    (transaction : OpTransaction s.bcv s'.bcv (insertionOps ins)) :
    Inv s' ∧ (I s').view = (I s).view.update ins.key value := by
  obtain ⟨blocks, acyclic, _, _, noPredecessor⟩ := id inv
  have edit := insert_graphEdit reads transaction
  have carried : ∀ key, PathMessage s'.bcv.view key root
      (if key = ins.key then .define value else .define (getValue s.bcv.view key)) :=
    fun key => insert_path msgEq noPredecessor reads valid transaction
      (path_getValue inv key)
  constructor
  · apply inv_of_paths (opTransaction_inv blocks transaction)
      (edit.isAcyclic blocks.2.1 acyclic) (edit.rootHasNoPredecessor blocks.1 noPredecessor)
    intro key
    by_cases same : key = ins.key
    · exact ⟨value, by simpa [same] using carried key⟩
    · exact ⟨_, by simpa [same] using carried key⟩
  · funext key
    have path := carried key
    split_ifs at path with same
    · simp [I, iView, same, getValue_eq (same ▸ path)]
    · simp [I, iView, IMap.update_eq_ite, same, getValue_eq path]

/-- Flushing, growing, redirecting and collecting garbage keep the invariant
and the dictionary. -/
theorem flush_preserves {flush : NodeFlush} (inv : Inv s) (valid : ValidFlush flush)
    (reads : Reads s.bcv (flushReads flush))
    (transaction : OpTransaction s.bcv s'.bcv (flushOps flush)) : Inv s' ∧ I s' = I s := by
  obtain ⟨blocks, acyclic, _, _, noPredecessor⟩ := id inv
  have edit := flush_graphEdit valid blocks.2.1 reads transaction
  apply preserved_of_paths inv (opTransaction_inv blocks transaction)
    (edit.isAcyclic blocks.2.1 acyclic) (edit.rootHasNoPredecessor blocks.1 noPredecessor)
  intro key value path
  exact (flush_paths valid blocks.2.1 acyclic reads transaction blocks.1).define path

theorem grow_preserves {growth : RootGrowth} (inv : Inv s) (reads : Reads s.bcv (growReads growth))
    (transaction : OpTransaction s.bcv s'.bcv (growOps growth)) : Inv s' ∧ I s' = I s := by
  obtain ⟨blocks, acyclic, _, _, noPredecessor⟩ := id inv
  have edit := grow_graphEdit blocks.1 reads transaction
  apply preserved_of_paths inv (opTransaction_inv blocks transaction)
    (edit.isAcyclic blocks.2.1 acyclic) (edit.rootHasNoPredecessor blocks.1 noPredecessor)
  intro key value path
  exact grow_path blocks.1 noPredecessor reads transaction path

theorem redirect_preserves {redirect : Redirect} (inv : Inv s) (valid : ValidRedirect redirect)
    (reads : Reads s.bcv (redirectReads redirect))
    (transaction : OpTransaction s.bcv s'.bcv (redirectOps redirect)) : Inv s' ∧ I s' = I s := by
  obtain ⟨blocks, acyclic, _, _, noPredecessor⟩ := id inv
  have view := redirect_view reads transaction
  have edit := redirect_graphEdit valid view
  apply preserved_of_paths inv (opTransaction_inv blocks transaction)
    (edit.isAcyclic blocks.2.1 acyclic) (edit.rootHasNoPredecessor blocks.1 noPredecessor)
  intro key value path
  exact (redirect_paths valid view blocks.2.1 acyclic blocks.1).define path

theorem gc_preserves {refs : Set Reference} (inv : Inv s)
    (gc : GC s.bcv s'.bcv refs) : Inv s' ∧ I s' = I s := by
  obtain ⟨blocks, acyclic, _, _, noPredecessor⟩ := id inv
  apply preserved_of_paths inv (gc_inv blocks gc) (gc_isAcyclic gc acyclic)
  · intro ref node bound
    exact noPredecessor ref node ((gc_view gc).mp bound).2
  · intro key value path
    exact gc_path gc (BlockInterface.root_notMem_of_canGCRefs blocks gc.1) path

theorem query_refines {q : LookupQuery} (valid : ValidQuery q)
    (reads : Reads s.bcv (queryReads q)) : Next (I s) (I s) (.getOp q.key q.value) :=
  ⟨.queryStep q.key q.value, rfl, wf_I s, view_of_lookupKeyValue valid reads, rfl⟩

theorem succQuery_refines {q : SuccQuery} (valid : ValidSuccQuery q)
    (reads : Reads s.bcv (succQueryReads q)) :
    Next (I s) (I s) (.succOp q.start q.results q.stop) := by
  obtain ⟨nonempty, found, notEmpty, inRange, sorted, missing⟩ := valid
  refine ⟨.succStep q.start q.results q.stop, rfl, wf_I s, rfl, nonempty, ?_, notEmpty,
    inRange, sorted, ?_⟩
  · intro result member
    exact view_of_lookupKeyValue (found result member) reads
  · intro key keyInRange hasValue
    by_contra notFound
    push Not at notFound
    exact hasValue (view_of_lookupKeyValue (missing key keyInRange notFound) reads)

theorem stutter_refines (same : I s' = I s) : Next (I s) (I s') .noOp :=
  ⟨.stutterStep, rfl, same⟩

/-- Only insertions change the dictionary. -/
def IsInsert : Betree.Step → Prop
  | .betreeStep (.betreeInsert _) => True
  | _ => False

theorem nextStep_refines {uiop : UI.Op} {step : Betree.Step} (inv : Inv s)
    (next : Betree.NextStep s s' uiop step) :
    Inv s' ∧ Next (I s) (I s') uiop ∧ (¬ IsInsert step → I s' = I s) := by
  have unchanged : uiop = .noOp → Inv s' ∧ I s' = I s →
      Inv s' ∧ Next (I s) (I s') uiop ∧ (¬ IsInsert step → I s' = I s) := by
    rintro rfl ⟨inv', same⟩
    exact ⟨inv', stutter_refines same, fun _ => same⟩
  cases step with
  | betreeStep step =>
    obtain ⟨valid, label, reads, transaction⟩ := next
    cases step with
    | betreeQuery q =>
      obtain rfl : s = s' := congrArg Variables.mk transaction
      rw [show uiop = .getOp q.key q.value from label]
      exact ⟨inv, query_refines valid reads, fun _ => rfl⟩
    | betreeSuccQuery sq =>
      obtain rfl : s = s' := congrArg Variables.mk transaction
      rw [show uiop = .succOp sq.start sq.results sq.stop from label]
      exact ⟨inv, succQuery_refines valid reads, fun _ => rfl⟩
    | betreeInsert ins =>
      obtain ⟨value, msgEq, rfl⟩ := label
      obtain ⟨inv', view⟩ := insert_refines inv msgEq valid reads transaction
      exact ⟨inv', ⟨.writeStep ins.key value, rfl, wf_I s, wf_I s', view⟩,
        fun notInsert => absurd trivial notInsert⟩
    | betreeFlush flush =>
      exact unchanged label (flush_preserves inv valid reads transaction)
    | betreeGrow growth =>
      exact unchanged label (grow_preserves inv reads transaction)
    | betreeRedirect redirect =>
      exact unchanged label (redirect_preserves inv valid reads transaction)
  | gcStep refs => exact unchanged next.1 (gc_preserves inv next.2)
  | stutterStep =>
    obtain ⟨rfl, label⟩ := next
    exact unchanged label ⟨inv, rfl⟩

theorem machine_refines : Betree.machine.Refines MapSpec.machine Inv I where
  init initial := init_refines initial
  next inv next := by
    obtain ⟨_, next⟩ := next
    obtain ⟨inv', spec, _⟩ := nextStep_refines inv next
    exact ⟨inv', spec⟩

/-- The abstract B-epsilon tree refines the dictionary: every step keeps the invariant and is a
dictionary step with the same label, so that along every run the answers are those of the dictionary
while flush, grow, redirect and garbage collection leave it alone. -/
theorem betree_refines_map :
    (∀ s : Variables, Betree.Init s → Inv s ∧ I s = ⟨emptyMap⟩) ∧
    (∀ (s s' : Variables) (uiop : UI.Op), Inv s → Betree.Next s s' uiop →
      Inv s' ∧ Next (I s) (I s') uiop) ∧
    (∀ (s s' : Variables) (uiop : UI.Op) (step : Betree.Step), Inv s →
      Betree.NextStep s s' uiop step → ¬ IsInsert step → I s' = I s) ∧
    (∀ run : Betree.machine.Behavior,
      (∀ index ≤ run.length,
        (I (run.states index)).view =
          (run.history index).foldl MapSpec.applyOp emptyMap) ∧
      (∀ index < run.length,
        MapSpec.Answers (I (run.states index)).view (run.labels index))) := by
  refine ⟨fun s init => init_refines init, fun s s' uiop inv next => ?_,
    fun s s' uiop step inv next notInsert => ?_, fun run => ⟨?_, ?_⟩⟩
  · exact machine_refines.next inv next
  · exact (nextStep_refines inv next).2.2 notInsert
  · intro index indexLe
    exact MapSpec.behavior_view (machine_refines.image run) indexLe
  · intro index indexLt
    exact MapSpec.next_answers ((machine_refines.image run).steps index indexLt)

/-- Growing the initial tree by one layer leaves the dictionary empty. -/
theorem betree_refines_map_grow :
    ∃ s s' : Variables, Betree.Init s ∧ Betree.Next s s' .noOp ∧ Inv s' ∧
      I s' = ⟨emptyMap⟩ := by
  let view : IMap Reference Node := IMap.empty.update root emptyNode
  let s : Variables := ⟨⟨view⟩⟩
  let middle : BlockInterface.Variables Node := ⟨view.update 1 emptyNode⟩
  let newroot : Node := ⟨IMap.const 1, IMap.const (.update ValueMessage.nopDelta)⟩
  let s' : Variables := ⟨⟨middle.view.update root newroot⟩⟩
  have noTargets : GraphNode.successors emptyNode = ∅ := by
    simp [GraphNode.successors, emptyNode, IMap.empty, IMap.values]
  have init : Betree.Init s := by
    refine ⟨⟨?_, ?_⟩, ?_⟩
    · simp [s, view, IMap.keys_update]
    · intro node bound
      simp only [s, view, IMap.update_same, Option.some.injEq] at bound
      rw [← bound, noTargets]
    · simp [s, view]
  have alloc : OpStep s.bcv middle (.allocOp 1 emptyNode) := by
    refine ⟨by simp [noTargets], ?_, rfl⟩
    simp [s, view, IMap.keys_update, root]
  have write : OpStep middle s'.bcv (.writeOp root newroot) := by
    refine ⟨?_, ?_, rfl⟩
    · rintro target ⟨_, routed⟩
      cases routed
      simp [middle, IMap.keys_update]
    · simp [middle, view, IMap.keys_update]
  have step : Betree.NextStep s s' .noOp (.betreeStep (.betreeGrow ⟨emptyNode, 1⟩)) := by
    refine ⟨trivial, rfl, ?_, middle, alloc, s'.bcv, write, rfl⟩
    intro op member
    simp only [betreeStepReads, growReads, List.mem_singleton] at member
    subst member
    exact init.2
  obtain ⟨inv, empty⟩ := betree_refines_map.1 s init
  obtain ⟨inv', _⟩ := betree_refines_map.2.1 s s' _ inv ⟨_, step⟩
  have same := betree_refines_map.2.2.1 s s' _ _ inv step id
  exact ⟨s, s', init, ⟨_, step⟩, inv', same.trans empty⟩

end VerifiedBetrfs.BetreeRefinesMap
