import VerifiedBetrfs.BetreeInv

/-!
# What each step of the tree does to lookups

A step rewrites one node and allocates fresh nodes that lead only to references below it.
-/

namespace VerifiedBetrfs.BetreeSteps

open ValueMessage (nopDelta one_def)
open BlockInterface (OpTransaction Reads RootHasNoPredecessor Variables)
open IMap (at' const update_of_ne update_same)

open BetreeSpec BetreeInv BlockGraph Relation

/-- A rewritten node and fresh nodes.  The rewritten node leads, directly or through a fresh node,
only to references that were below it before. -/
structure GraphEdit (view view' : IMap Reference Node) (parentref : Reference) :
    Prop where
  parentOld : parentref ∈ view.keys
  unchanged : ∀ ref ∈ view.keys, ref ≠ parentref → view' ref = view ref
  parentTarget : ∀ target ∈ view.keys, Edge view' parentref target →
    TransGen (Edge view) parentref target
  freshTarget : ∀ ref ∉ view.keys, ∀ target, Edge view' ref target →
    ∃ source, Edge view source target
  detour : ∀ ref ∉ view.keys, ∀ target, Edge view' parentref ref →
    Edge view' ref target → TransGen (Edge view) parentref target

theorem mem_keys_of_edge {view : IMap Reference Node} {source target : Reference}
    (closed : IsClosed view) (edge : Edge view source target) : target ∈ view.keys := by
  obtain ⟨node, bound, isTarget⟩ := edge
  exact closed source node bound isTarget

variable {view view' : IMap Reference Node}

theorem GraphEdit.edge_unchanged {parentref source target : Reference}
    (edit : GraphEdit view view' parentref) (sourceOld : source ∈ view.keys)
    (sourceNe : source ≠ parentref) : Edge view' source target ↔ Edge view source target := by
  unfold Edge
  rw [edit.unchanged source sourceOld sourceNe]

variable {parentref : Reference}

section

variable (edit : GraphEdit view view' parentref)

include edit

theorem GraphEdit.localEdit (closed : IsClosed view) :
    Digraph.LocalEdit (Edge view) (Edge view') view.keys where
  oldEdge := by
    intro source target sourceOld targetOld edge
    by_cases isParent : source = parentref
    · subst isParent
      exact edit.parentTarget target targetOld edge
    · exact TransGen.single ((edit.edge_unchanged sourceOld isParent).mp edge)
  newTarget := by
    intro source target sourceNew edge
    obtain ⟨_, oldEdge⟩ := edit.freshTarget source sourceNew target edge
    exact mem_keys_of_edge closed oldEdge
  detour := by
    intro source middle target sourceOld middleNew first second
    have isParent : source = parentref := by
      by_contra isParent
      exact middleNew (mem_keys_of_edge closed ((edit.edge_unchanged sourceOld isParent).mp first))
    subst isParent
    exact edit.detour middle middleNew target first second

theorem GraphEdit.isAcyclic (closed : IsClosed view) (acyclic : IsAcyclic view) : IsAcyclic view' :=
  isAcyclic_iff.mpr ((edit.localEdit closed).acyclic (isAcyclic_iff.mp acyclic))

theorem GraphEdit.rootHasNoPredecessor (hasRoot : root ∈ view.keys)
    (noPredecessor : RootHasNoPredecessor view) : RootHasNoPredecessor view' := by
  have noWalk : ∀ source, ¬ TransGen (Edge view) source root := by
    intro source walk
    obtain ⟨last, _, node, bound, isTarget⟩ := TransGen.tail'_iff.mp walk
    exact noPredecessor last node bound isTarget
  intro ref node bound isTarget
  have edge : Edge view' ref root := ⟨node, bound, isTarget⟩
  by_cases refOld : ref ∈ view.keys
  · by_cases isParent : ref = parentref
    · subst isParent
      exact noWalk ref (edit.parentTarget root hasRoot edge)
    · exact noWalk ref (TransGen.single ((edit.edge_unchanged refOld isParent).mp edge))
  · obtain ⟨source, oldEdge⟩ := edit.freshTarget ref refOld root edge
    exact noWalk source (TransGen.single oldEdge)

end

section Insert

variable {s s' : Variables Node} {ins : MessageInsertion}

theorem insert_view (transaction : OpTransaction s s' (insertionOps ins)) :
    s'.view = s.view.update root (addMessageToNode ins.oldroot ins.key ins.msg) := by
  obtain ⟨_, step, rfl⟩ := transaction
  exact step.2.2

theorem insert_graphEdit (reads : Reads s (insertionReads ins))
    (transaction : OpTransaction s s' (insertionOps ins)) : GraphEdit s.view s'.view root := by
  have oldRoot : s.view root = some ins.oldroot :=
    reads ⟨root, ins.oldroot⟩ (by simp [insertionReads])
  have view := insert_view transaction
  have unchanged : ∀ ref, ref ≠ root → s'.view ref = s.view ref := by
    intro ref refNe
    rw [view, update_of_ne _ _ refNe]
  have noFresh : ∀ ref ∉ s.view.keys, ∀ target, ¬ Edge s'.view ref target := by
    rintro ref refNew target ⟨node, bound, _⟩
    have refNe : ref ≠ root := by
      rintro rfl
      exact refNew ⟨_, oldRoot⟩
    rw [unchanged ref refNe] at bound
    exact refNew ⟨node, bound⟩
  refine ⟨⟨_, oldRoot⟩, fun ref _ refNe => unchanged ref refNe, ?_, ?_, ?_⟩
  · rintro target _ ⟨node, bound, isTarget⟩
    rw [view, update_same] at bound
    cases bound
    exact TransGen.single ⟨ins.oldroot, oldRoot, isTarget⟩
  · intro ref refNew target edge
    exact absurd edge (noFresh ref refNew target)
  · intro ref refNew target _ edge
    exact absurd edge (noFresh ref refNew target)

theorem wfNode_addMessageToNode {node : Node} (wf : WFNode node) (key : Key)
    {value : Value} : WFNode (addMessageToNode node key (.define value)) := by
  constructor
  · intro other
    simp only [addMessageToNode, addMessageToBuffer, IMap.keys_update]
    exact Set.mem_insert_of_mem key (wf.1 other)
  · intro other noChild
    by_cases same : other = key
    · subst same
      simp [addMessageToNode, addMessageToBuffer, at', BufferIsDefining,
        MessageOf.merge, MessageOf.IsDefine]
    · have old := wf.2 other noChild
      simpa [addMessageToNode, addMessageToBuffer, at', update_of_ne _ _ same] using old

theorem addMessageToNode_buffer (node : Node) (key other : Key) (msg : Message) :
    (addMessageToNode node key msg).buffer.at' other =
      if other = key then msg * node.buffer.at' key else node.buffer.at' other := by
  by_cases same : other = key
  · subst same
    simp [addMessageToNode, addMessageToBuffer, at', MessageOf.mul_eq_merge]
  · simp [addMessageToNode, addMessageToBuffer, at', same, update_of_ne _ _ same]

/-- A path from the root collects the inserted message first, if it is for the
inserted key. -/
theorem insert_path {value : Value} (msgEq : ins.msg = .define value)
    (noPredecessor : RootHasNoPredecessor s.view)
    (reads : Reads s (insertionReads ins))
    (valid : ValidInsertion ins)
    (transaction : OpTransaction s s' (insertionOps ins))
    {key : Key} {message : Message} (path : PathMessage s.view key root message) :
    PathMessage s'.view key root
      (if key = ins.key then .define value else message) := by
  have oldRoot : s.view root = some ins.oldroot :=
    reads ⟨root, ins.oldroot⟩ (by simp [insertionReads])
  have view := insert_view transaction
  have newRoot : s'.view root =
      some (addMessageToNode ins.oldroot ins.key ins.msg) := by
    rw [view, update_same]
  have newWF : WFNode (addMessageToNode ins.oldroot ins.key ins.msg) := by
    rw [msgEq]
    exact wfNode_addMessageToNode valid ins.key
  have unchanged : ∀ ref node, ref ≠ root → s.view ref = some node →
      s'.view ref = some node := by
    intro ref node refNe bound
    rw [view, update_of_ne _ _ refNe, bound]
  have buffer := addMessageToNode_buffer ins.oldroot ins.key key ins.msg
  rw [msgEq] at buffer
  cases path with
  | stop bound _ =>
    cases oldRoot.symm.trans bound
    have path' : PathMessage s'.view key root _ := PathMessage.stop newRoot newWF
    rw [msgEq, buffer] at path'
    by_cases same : key = ins.key
    · simpa [same] using path'
    · simpa [same] using path'
  | @descend _ child _ message' bound _ routed rest =>
    cases oldRoot.symm.trans bound
    have childNe : child ≠ root := by
      rintro rfl
      exact noPredecessor root ins.oldroot oldRoot ⟨key, routed⟩
    have rest' := rest.avoids_root noPredecessor unchanged childNe
    have path' := PathMessage.descend newRoot newWF routed rest'
    rw [msgEq, buffer] at path'
    by_cases same : key = ins.key
    · simpa [same] using path'
    · simpa [same] using path'

end Insert

section Grow

variable {s s' : Variables Node} {growth : RootGrowth}

theorem grow_view (transaction : OpTransaction s s' (growOps growth)) :
    growth.newchildref ∉ s.view.keys ∧
    s'.view = (s.view.update growth.newchildref growth.oldroot).update root
      ⟨const growth.newchildref, const (.update nopDelta)⟩ := by
  obtain ⟨_, alloc, _, write, rfl⟩ := transaction
  refine ⟨alloc.2.1, ?_⟩
  rw [write.2.2, alloc.2.2]

theorem grow_graphEdit (hasRoot : root ∈ s.view.keys) (reads : Reads s (growReads growth))
    (transaction : OpTransaction s s' (growOps growth)) : GraphEdit s.view s'.view root := by
  have oldRoot : s.view root = some growth.oldroot :=
    reads ⟨root, growth.oldroot⟩ (by simp [growReads])
  obtain ⟨fresh, view⟩ := grow_view transaction
  have freshEdge : ∀ ref ∉ s.view.keys, ∀ target, Edge s'.view ref target →
      Edge s.view root target := by
    rintro ref refNew target ⟨node, bound, isTarget⟩
    have refNe : ref ≠ root := by
      rintro rfl
      exact refNew hasRoot
    rw [view, update_of_ne _ _ refNe] at bound
    by_cases isFresh : ref = growth.newchildref
    · subst isFresh
      rw [update_same] at bound
      cases bound
      exact ⟨growth.oldroot, oldRoot, isTarget⟩
    · rw [update_of_ne _ _ isFresh] at bound
      exact absurd ⟨node, bound⟩ refNew
  refine ⟨hasRoot, ?_, ?_, ?_, ?_⟩
  · intro ref refOld refNe
    have notFresh : ref ≠ growth.newchildref := by
      rintro rfl
      exact fresh refOld
    rw [view, update_of_ne _ _ refNe, update_of_ne _ _ notFresh]
  · rintro target targetOld ⟨node, bound, _, routed⟩
    rw [view, update_same] at bound
    cases bound
    cases routed
    exact absurd targetOld fresh
  · intro ref refNew target edge
    exact ⟨root, freshEdge ref refNew target edge⟩
  · intro ref refNew target _ edge
    exact TransGen.single (freshEdge ref refNew target edge)

theorem grow_path (hasRoot : root ∈ s.view.keys) (noPredecessor : RootHasNoPredecessor s.view)
    (reads : Reads s (growReads growth)) (transaction : OpTransaction s s' (growOps growth))
    {key : Key} {message : Message} (path : PathMessage s.view key root message) :
    PathMessage s'.view key root message := by
  have oldRoot : s.view root = some growth.oldroot :=
    reads ⟨root, growth.oldroot⟩ (by simp [growReads])
  obtain ⟨fresh, view⟩ := grow_view transaction
  have freshNe : growth.newchildref ≠ root := by
    intro isRoot
    exact fresh (isRoot ▸ hasRoot)
  have newRoot : s'.view root = some ⟨const growth.newchildref,
      const (.update nopDelta)⟩ := by
    rw [view, update_same]
  have moved : s'.view growth.newchildref = some growth.oldroot := by
    rw [view, update_of_ne _ _ freshNe, update_same]
  have newWF : WFNode ⟨const growth.newchildref,
      const (.update nopDelta)⟩ := by
    refine ⟨fun other => ⟨_, rfl⟩, fun other noChild => ?_⟩
    exact absurd ⟨growth.newchildref, rfl⟩ noChild
  have unchanged : ∀ ref node, ref ≠ root → s.view ref = some node →
      s'.view ref = some node := by
    intro ref node refNe bound
    have notFresh : ref ≠ growth.newchildref := by
      rintro rfl
      exact fresh ⟨node, bound⟩
    rw [view, update_of_ne _ _ refNe, update_of_ne _ _ notFresh, bound]
  have below : PathMessage s'.view key growth.newchildref message := by
    cases path with
    | stop bound wf =>
      cases oldRoot.symm.trans bound
      exact PathMessage.stop moved wf
    | @descend _ child _ message' bound wf routed rest =>
      cases oldRoot.symm.trans bound
      have childNe : child ≠ root := by
        rintro rfl
        exact noPredecessor root growth.oldroot oldRoot ⟨key, routed⟩
      exact PathMessage.descend moved wf routed (rest.avoids_root noPredecessor unchanged childNe)
  have path' : PathMessage s'.view key root _ := PathMessage.descend newRoot newWF rfl below
  have identity : (const (.update nopDelta) : Buffer).at' key = 1 := rfl
  rwa [identity, one_mul] at path'

end Grow

section Flush

variable {s s' : Variables Node} {flush : NodeFlush}

theorem flush_view (transaction : OpTransaction s s' (flushOps flush)) :
    flush.newchildref ∉ s.view.keys ∧
    s'.view = (s.view.update flush.newchildref flush.newchild).update
      flush.parentref flush.newparent := by
  obtain ⟨_, alloc, _, write, rfl⟩ := transaction
  refine ⟨alloc.2.1, ?_⟩
  rw [write.2.2, alloc.2.2]

theorem flush_reads (reads : Reads s (flushReads flush)) :
    s.view flush.parentref = some flush.parent ∧ s.view flush.childref = some flush.child :=
  ⟨reads ⟨_, _⟩ (by simp [flushReads]), reads ⟨_, _⟩ (by simp [flushReads])⟩

section

variable (valid : ValidFlush flush) {key : Key}

include valid

theorem flush_newparent_child {target : Reference}
    (routed : flush.newparent.children key = some target) :
    (key ∈ flush.movedKeys ∧ target = flush.newchildref) ∨
      (key ∉ flush.movedKeys ∧ flush.parent.children key = some target) := by
  rw [valid.newparentChildren] at routed
  by_cases moved : key ∈ flush.movedKeys
  · simp only [moved, if_true, Option.map_eq_some_iff] at routed
    obtain ⟨_, _, rfl⟩ := routed
    exact Or.inl ⟨moved, rfl⟩
  · simp only [moved, if_false, Option.map_eq_some_iff] at routed
    obtain ⟨_, bound, rfl⟩ := routed
    exact Or.inr ⟨moved, bound⟩

theorem flush_graphEdit (closed : IsClosed s.view) (reads : Reads s (flushReads flush))
    (transaction : OpTransaction s s' (flushOps flush)) :
    GraphEdit s.view s'.view flush.parentref := by
  obtain ⟨parentBound, childBound⟩ := flush_reads reads
  obtain ⟨fresh, view⟩ := flush_view transaction
  have newParent : s'.view flush.parentref = some flush.newparent := by
    rw [view, update_same]
  have freshEdge : ∀ ref ∉ s.view.keys, ∀ target, Edge s'.view ref target →
      ref = flush.newchildref ∧ Edge s.view flush.childref target := by
    rintro ref refNew target ⟨node, bound, key, routed⟩
    have refNe : ref ≠ flush.parentref := by
      rintro rfl
      exact refNew ⟨_, parentBound⟩
    rw [view, update_of_ne _ _ refNe] at bound
    by_cases isFresh : ref = flush.newchildref
    · subst isFresh
      rw [update_same] at bound
      cases bound
      rw [valid.newchildChildren] at routed
      exact ⟨rfl, edge_of_child childBound routed⟩
    · rw [update_of_ne _ _ isFresh] at bound
      exact absurd ⟨node, bound⟩ refNew
  refine ⟨⟨_, parentBound⟩, ?_, ?_, ?_, ?_⟩
  · intro ref refOld refNe
    have notFresh : ref ≠ flush.newchildref := by
      rintro rfl
      exact fresh refOld
    rw [view, update_of_ne _ _ refNe, update_of_ne _ _ notFresh]
  · rintro target targetOld ⟨node, bound, key, routed⟩
    cases newParent.symm.trans bound
    rcases flush_newparent_child valid routed with ⟨_, rfl⟩ | ⟨_, old⟩
    · exact absurd targetOld fresh
    · exact TransGen.single (edge_of_child parentBound old)
  · intro ref refNew target edge
    exact ⟨flush.childref, (freshEdge ref refNew target edge).2⟩
  · intro ref refNew target first second
    obtain ⟨rfl, below⟩ := freshEdge ref refNew target second
    obtain ⟨node, bound, key, routed⟩ := first
    cases newParent.symm.trans bound
    rcases flush_newparent_child valid routed with ⟨moved, _⟩ | ⟨_, old⟩
    · have above := edge_of_child parentBound (valid.movedChild key moved)
      exact (TransGen.single above).tail below
    · exact absurd (mem_keys_of_edge closed (edge_of_child parentBound old)) fresh

theorem wfNode_newparent : WFNode flush.newparent := by
  constructor
  · intro key
    rw [valid.newparentBuffer]
    exact ⟨_, rfl⟩
  · intro key noChild
    have noOldChild : key ∉ flush.parent.children.keys := by
      rintro ⟨_, bound⟩
      apply noChild
      rw [valid.newparentChildren]
      simp [IMap.mem_keys, bound]
    have notFlushed : key ∉ flush.flushedKeys := by
      intro flushed
      exact noOldChild ⟨_, valid.movedChild key (valid.flushedMoved key flushed)⟩
    have defining := valid.parentWF.2 key noOldChild
    rw [valid.newparentBuffer]
    simpa [at', notFlushed] using defining

theorem wfNode_newchild : WFNode flush.newchild := by
  constructor
  · intro key
    rw [valid.newchildBuffer]
    exact ⟨_, rfl⟩
  · intro key noChild
    rw [valid.newchildChildren] at noChild
    have defining := valid.childWF.2 key noChild
    rw [valid.newchildBuffer]
    by_cases flushed : key ∈ flush.flushedKeys
    · have merged := MessageOf.IsDefine.mul (flush.parent.buffer.at' key) defining
      simpa [at', flushed, MessageOf.mul_eq_merge, BufferIsDefining] using merged
    · simpa [at', flushed] using defining

/-- The new parent and the new child together hold the same messages for a
moved key as the old ones. -/
theorem flush_messages (key : Key) :
    flush.newparent.buffer.at' key * flush.newchild.buffer.at' key =
      flush.parent.buffer.at' key * flush.child.buffer.at' key := by
  rw [valid.newparentBuffer, valid.newchildBuffer]
  by_cases flushed : key ∈ flush.flushedKeys
  · simp only [at', flushed, if_true, Option.getD_some, ← MessageOf.mul_eq_merge,
      ← one_def, one_mul]
  · simp [at', flushed]

theorem flush_newparent_buffer (notMoved : key ∉ flush.movedKeys) :
    flush.newparent.buffer.at' key = flush.parent.buffer.at' key := by
  have notFlushed : key ∉ flush.flushedKeys :=
    fun flushed => notMoved (valid.flushedMoved key flushed)
  rw [valid.newparentBuffer]
  simp [at', notFlushed]

/-- A path through the flushed parent is extended to reach the messages that
moved into the new child. -/
theorem flush_paths (inv : IsClosed s.view) (acyclic : IsAcyclic s.view)
    (reads : Reads s (flushReads flush))
    (transaction : OpTransaction s s' (flushOps flush)) {start : Reference}
    (startOld : start ∈ s.view.keys) : PreservesPaths s.view s'.view key start := by
  obtain ⟨parentBound, childBound⟩ := flush_reads reads
  obtain ⟨fresh, view⟩ := flush_view transaction
  have edit := flush_graphEdit valid inv reads transaction
  have newParent : s'.view flush.parentref = some flush.newparent := by
    rw [view, update_same]
  have newChild : s'.view flush.newchildref = some flush.newchild := by
    have distinct : flush.newchildref ≠ flush.parentref := by
      intro same
      exact fresh (same ▸ ⟨_, parentBound⟩)
    rw [view, update_of_ne _ _ distinct, update_same]
  have newParentWF := wfNode_newparent valid
  have newChildWF := wfNode_newchild valid
  intro message path
  induction path with
  | @stop ref node bound wf =>
    by_cases isParent : ref = flush.parentref
    · subst isParent
      cases parentBound.symm.trans bound
      by_cases moved : key ∈ flush.movedKeys
      · have routed : flush.newparent.children key = some flush.newchildref := by
          rw [valid.newparentChildren]
          simp [valid.movedChild key moved, moved]
        refine ⟨_, PathMessage.descend newParent newParentWF routed
          (PathMessage.stop newChild newChildWF), ?_⟩
        rw [flush_messages valid key]
        exact dvd_mul_right _ _
      · refine ⟨_, PathMessage.stop newParent newParentWF, ?_⟩
        rw [flush_newparent_buffer valid moved]
    · have bound' := (edit.unchanged ref startOld isParent).trans bound
      exact ⟨_, PathMessage.stop bound' wf, dvd_rfl⟩
  | @descend ref child node message bound wf routed rest ih =>
    have childOld : child ∈ s.view.keys := mem_keys_of_edge inv (edge_of_child bound routed)
    obtain ⟨_, path', extends'⟩ := ih childOld
    by_cases isParent : ref = flush.parentref
    · subst isParent
      cases parentBound.symm.trans bound
      by_cases moved : key ∈ flush.movedKeys
      · have childEq : child = flush.childref := by
          have toChild := valid.movedChild key moved
          rw [routed] at toChild
          exact Option.some.inj toChild
        subst childEq
        have routed' : flush.newparent.children key = some flush.newchildref := by
          rw [valid.newparentChildren]
          simp [routed, moved]
        have childNe : flush.childref ≠ flush.parentref := by
          intro same
          have loop := edge_of_child parentBound routed
          rw [same] at loop
          exact isAcyclic_iff.mp acyclic flush.parentref (TransGen.single loop)
        have childBound' : s'.view flush.childref = some flush.child := by
          rw [edit.unchanged flush.childref childOld childNe, childBound]
        -- The path below the old child is the path below the new one.
        cases path' with
        | stop bound' wf' =>
          cases childBound'.symm.trans bound'
          refine ⟨_, PathMessage.descend newParent newParentWF routed'
            (PathMessage.stop newChild newChildWF), ?_⟩
          rw [flush_messages valid key]
          exact mul_dvd_mul_left _ extends'
        | @descend _ grandchild _ message'' bound' wf' routed'' rest' =>
          cases childBound'.symm.trans bound'
          have newRouted : flush.newchild.children key = some grandchild := by
            rw [valid.newchildChildren]
            exact routed''
          refine ⟨_, PathMessage.descend newParent newParentWF routed'
            (PathMessage.descend newChild newChildWF newRouted rest'), ?_⟩
          rw [← mul_assoc, flush_messages valid key, mul_assoc]
          exact mul_dvd_mul_left _ extends'
      · have routed' : flush.newparent.children key = some child := by
          rw [valid.newparentChildren]
          simp [routed, moved]
        refine ⟨_, PathMessage.descend newParent newParentWF routed' path', ?_⟩
        rw [flush_newparent_buffer valid moved]
        exact mul_dvd_mul_left _ extends'
    · have bound' := (edit.unchanged ref startOld isParent).trans bound
      exact ⟨_, PathMessage.descend bound' wf routed path', mul_dvd_mul_left _ extends'⟩

end

end Flush

end VerifiedBetrfs.BetreeSteps
