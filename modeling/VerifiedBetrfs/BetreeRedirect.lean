import VerifiedBetrfs.BetreeSteps

/-!
# Redirecting children and collecting garbage

Neither of the two changes what lookups find.
-/

namespace VerifiedBetrfs.BetreeSteps

open BlockInterface (GC OpTransaction Reads Variables gc_view)
open BetreeSpec BetreeInv BlockGraph Relation

section Redirect

variable {s s' : Variables Node} {redirect : Redirect}

theorem opTransaction_append {first second : List (Op Node)} :
    OpTransaction s s' (first ++ second) ↔
      ∃ middle, OpTransaction s middle first ∧
        OpTransaction middle s' second := by
  induction first generalizing s with
  | nil => simp [OpTransaction]
  | cons op ops ih =>
    simp only [List.cons_append, OpTransaction, ih]
    constructor
    · rintro ⟨start, step, middle, rest, last⟩
      exact ⟨middle, ⟨start, step, rest⟩, last⟩
    · rintro ⟨middle, ⟨start, step, rest⟩, last⟩
      exact ⟨start, step, middle, rest, last⟩

theorem redirectChildAllocs_view {childrefs : List Reference} {children : IMap Reference Node}
    (transaction : OpTransaction s s' (redirectChildAllocs childrefs children)) :
    (∀ ref ∈ childrefs, ref ∉ s.view.keys ∧ s'.view ref = some (children.at' ref)) ∧
      ∀ ref ∉ childrefs, s'.view ref = s.view ref := by
  induction childrefs generalizing s with
  | nil =>
    cases transaction
    simp
  | cons childref childrefs ih =>
    obtain ⟨_, ⟨_, fresh, view⟩, rest⟩ := transaction
    obtain ⟨allocated, unchanged⟩ := ih rest
    have notAgain : childref ∉ childrefs := by
      intro member
      apply (allocated childref member).1
      rw [view, IMap.keys_update]
      exact Set.mem_insert _ _
    constructor
    · intro ref member
      rcases List.mem_cons.mp member with rfl | member
      · refine ⟨fresh, ?_⟩
        rw [unchanged ref notAgain, view, IMap.update_same]
      · refine ⟨fun old => (allocated ref member).1 ?_, (allocated ref member).2⟩
        rw [view, IMap.keys_update]
        exact Set.mem_insert_of_mem _ old
    · intro ref notMember
      rw [List.mem_cons, not_or] at notMember
      rw [unchanged ref notMember.2, view, IMap.update_of_ne _ _ notMember.1]

/-- The graph after a redirect. -/
structure RedirectView (view view' : IMap Reference Node) (redirect : Redirect) :
    Prop where
  oldParent : view redirect.parentref = some redirect.oldParent
  newParent : view' redirect.parentref = some redirect.newParent
  oldChild : ∀ ref ∈ redirect.oldChildrefs,
    view ref = some (redirect.oldChildren.at' ref)
  newChild : ∀ ref ∈ redirect.newChildrefs,
    view' ref = some (redirect.newChildren.at' ref)
  fresh : ∀ ref ∈ redirect.newChildrefs, ref ∉ view.keys
  unchanged : ∀ ref, ref ∉ redirect.newChildrefs → ref ≠ redirect.parentref →
    view' ref = view ref

theorem redirect_view (reads : Reads s (redirectReads redirect))
    (transaction : OpTransaction s s' (redirectOps redirect)) :
    RedirectView s.view s'.view redirect := by
  have oldParent : s.view redirect.parentref = some redirect.oldParent :=
    reads ⟨_, _⟩ (by simp [redirectReads])
  have oldChild : ∀ ref ∈ redirect.oldChildrefs,
      s.view ref = some (redirect.oldChildren.at' ref) := by
    intro ref member
    exact reads ⟨ref, redirect.oldChildren.at' ref⟩
      (by simp [redirectReads, redirectChildReads, member])
  obtain ⟨_, allocs, _, write, rfl⟩ := opTransaction_append.mp transaction
  obtain ⟨allocated, others⟩ := redirectChildAllocs_view allocs
  have view := write.2.2
  have childNe : ∀ ref ∈ redirect.newChildrefs, ref ≠ redirect.parentref := by
    rintro ref member rfl
    exact (allocated _ member).1 ⟨_, oldParent⟩
  refine ⟨oldParent, ?_, oldChild, ?_, fun ref member => (allocated ref member).1, ?_⟩
  · rw [view, IMap.update_same]
  · intro ref member
    rw [view, IMap.update_of_ne _ _ (childNe ref member), (allocated ref member).2]
  · intro ref notMember refNe
    rw [view, IMap.update_of_ne _ _ refNe, others ref notMember]

/-- The two children a redirected key is routed to, before and after. -/
structure RedirectedKey (view view' : IMap Reference Node) (redirect : Redirect)
    (key : Key) (oldRef newRef : Reference) (old new : Node) : Prop where
  oldRouted : redirect.oldParent.children key = some oldRef
  oldBound : view oldRef = some old
  newRouted : redirect.newParent.children key = some newRef
  newMember : newRef ∈ redirect.newChildrefs
  newBound : view' newRef = some new
  newWF : WFNode new
  sameBuffer : new.buffer.at' key = old.buffer.at' key
  sameChildren : new.children key = old.children key

variable {view view' : IMap Reference Node}

section

variable (valid : ValidRedirect redirect) (edit : RedirectView view view' redirect)

include valid edit

theorem redirectedKey {key : Key} {oldRef : Reference} (inKeys : key ∈ redirect.keys)
    (oldRouted : redirect.oldParent.children key = some oldRef) :
    ∃ newRef old new, RedirectedKey view view' redirect key oldRef newRef old new := by
  obtain ⟨newRef, newRouted⟩ := valid.keysRouted key inKeys
  have both : key ∈ redirect.keys ∩ redirect.oldParent.children.keys := ⟨inKeys, oldRef, oldRouted⟩
  have oldAt : redirect.oldParent.children.at' key = oldRef := IMap.at'_of_eq_some oldRouted
  have newAt : redirect.newParent.children.at' key = newRef := IMap.at'_of_eq_some newRouted
  have oldMember : oldRef ∈ redirect.oldChildrefs :=
    (valid.oldChildrefs oldRef).mp ⟨key, IMap.restrict_eq_some.mpr ⟨inKeys, oldRouted⟩⟩
  have newRefMember : newRef ∈ redirect.newChildrefs := newAt ▸ valid.keysRoutedToNew key inKeys
  have newWF : WFNode (redirect.newChildren.at' newRef) := by
    have member : newRef ∈ redirect.newChildren.keys := by
      rw [valid.newChildrenKeys]
      exact newRefMember
    obtain ⟨node, bound⟩ := member
    rw [IMap.at'_of_eq_some bound]
    exact valid.newChildrenWF node ⟨newRef, bound⟩
  have sameBuffer := (valid.childBuffers key both).2.2
  have sameChildren := (valid.childChildren key both).2.2
  rw [oldAt, newAt] at sameBuffer sameChildren
  exact ⟨newRef, _, _,
    { oldRouted := oldRouted
      oldBound := edit.oldChild oldRef oldMember
      newRouted := newRouted
      newMember := newRefMember
      newBound := edit.newChild newRef newRefMember
      newWF := newWF
      sameBuffer := congrArg (fun entry => entry.getD default) sameBuffer
      sameChildren := sameChildren }⟩

theorem redirect_graphEdit : GraphEdit view view' redirect.parentref := by
  have parentOld : redirect.parentref ∈ view.keys := ⟨_, edit.oldParent⟩
  have freshWalk : ∀ ref ∉ view.keys, ∀ target, Edge view' ref target →
      ∃ middle, Edge view redirect.parentref middle ∧ Edge view middle target := by
    rintro ref refNew target ⟨node, bound, isTarget⟩
    have member : ref ∈ redirect.newChildrefs := by
      by_contra notMember
      have refNe : ref ≠ redirect.parentref := by
        rintro rfl
        exact refNew parentOld
      rw [edit.unchanged ref notMember refNe] at bound
      exact refNew ⟨node, bound⟩
    have childBound : redirect.newChildren ref = some node := by
      have inKeys : ref ∈ redirect.newChildren.keys := by
        rw [valid.newChildrenKeys]
        exact member
      obtain ⟨_, childBound⟩ := inKeys
      have sameNode := edit.newChild ref member
      rw [IMap.at'_of_eq_some childBound, bound] at sameNode
      rw [childBound, sameNode]
    obtain ⟨key, newRouted, targetRouted, inKeys, oldRef, oldRouted⟩ :=
      valid.onlyOldGrandchildren ref node target childBound isTarget
    obtain ⟨_, _, _, both⟩ := redirectedKey valid edit inKeys oldRouted
    cases newRouted.symm.trans both.newRouted
    cases bound.symm.trans both.newBound
    rw [both.sameChildren] at targetRouted
    exact ⟨oldRef, edge_of_child edit.oldParent oldRouted, edge_of_child both.oldBound targetRouted⟩
  refine ⟨parentOld, ?_, ?_, ?_, ?_⟩
  · intro ref refOld refNe
    exact edit.unchanged ref (fun member => edit.fresh ref member refOld) refNe
  · rintro target targetOld ⟨node, bound, key, routed⟩
    cases edit.newParent.symm.trans bound
    by_cases inKeys : key ∈ redirect.keys
    · have member := valid.keysRoutedToNew key inKeys
      rw [IMap.at'_of_eq_some routed] at member
      exact absurd targetOld (edit.fresh target member)
    · have same := valid.otherKeys key inKeys
      exact TransGen.single (edge_of_child edit.oldParent (same.symm.trans routed))
  · intro ref refNew target edge
    obtain ⟨middle, _, below⟩ := freshWalk ref refNew target edge
    exact ⟨middle, below⟩
  · intro ref refNew target _ edge
    obtain ⟨middle, above, below⟩ := freshWalk ref refNew target edge
    exact (TransGen.single above).tail below

/-- A path through the redirected parent goes through the new child instead of
the old one. -/
theorem redirect_paths (closed : IsClosed view) (acyclic : IsAcyclic view) {key : Key}
    {start : Reference} (startOld : start ∈ view.keys) : PreservesPaths view view' key start := by
  have graphEdit := redirect_graphEdit valid edit
  intro message path
  induction path with
  | @stop ref node bound wf =>
    by_cases isParent : ref = redirect.parentref
    · subst isParent
      cases edit.oldParent.symm.trans bound
      refine ⟨_, PathMessage.stop edit.newParent valid.newParentWF, ?_⟩
      rw [valid.sameBuffer]
    · have bound' := (graphEdit.unchanged ref startOld isParent).trans bound
      exact ⟨_, PathMessage.stop bound' wf, dvd_rfl⟩
  | @descend ref child node message bound wf routed rest ih =>
    have childOld : child ∈ view.keys := mem_keys_of_edge closed (edge_of_child bound routed)
    obtain ⟨_, path', extends'⟩ := ih childOld
    by_cases isParent : ref = redirect.parentref
    · subst isParent
      cases edit.oldParent.symm.trans bound
      by_cases inKeys : key ∈ redirect.keys
      · obtain ⟨_, old, new, both⟩ := redirectedKey valid edit inKeys routed
        have childNe : child ≠ redirect.parentref := by
          intro same
          have loop := edge_of_child edit.oldParent routed
          rw [same] at loop
          exact isAcyclic_iff.mp acyclic redirect.parentref (TransGen.single loop)
        have oldBound' : view' child = some old := by
          rw [graphEdit.unchanged child childOld childNe, both.oldBound]
        -- The path below the old child is the path below the new one.
        cases path' with
        | stop bound' _ =>
          cases oldBound'.symm.trans bound'
          refine ⟨_, PathMessage.descend edit.newParent valid.newParentWF both.newRouted
            (PathMessage.stop both.newBound both.newWF), ?_⟩
          rw [valid.sameBuffer, both.sameBuffer]
          exact mul_dvd_mul_left _ extends'
        | @descend _ grandchild _ message'' bound' _ routed'' rest' =>
          cases oldBound'.symm.trans bound'
          rw [← both.sameChildren] at routed''
          refine ⟨_, PathMessage.descend edit.newParent valid.newParentWF both.newRouted
            (PathMessage.descend both.newBound both.newWF routed'' rest'), ?_⟩
          rw [valid.sameBuffer, both.sameBuffer]
          exact mul_dvd_mul_left _ extends'
      · have same := valid.otherKeys key inKeys
        refine ⟨_, PathMessage.descend edit.newParent valid.newParentWF
          (same.trans routed) path', ?_⟩
        rw [valid.sameBuffer]
        exact mul_dvd_mul_left _ extends'
    · have bound' := (graphEdit.unchanged ref startOld isParent).trans bound
      exact ⟨_, PathMessage.descend bound' wf routed path', mul_dvd_mul_left _ extends'⟩

end

end Redirect

section GarbageCollection

variable {s s' : Variables Node} {refs : Set Reference}

theorem gc_isAcyclic (gc : GC s s' refs) (acyclic : IsAcyclic s.view) : IsAcyclic s'.view := by
  rw [isAcyclic_iff] at acyclic ⊢
  apply acyclic.mono
  rintro source target ⟨node, bound, isTarget⟩
  exact ⟨node, ((gc_view gc).mp bound).2, isTarget⟩

theorem gc_path (gc : GC s s' refs) {key : Key} {start : Reference} {message : Message}
    (kept : start ∉ refs) (path : PathMessage s.view key start message) :
    PathMessage s'.view key start message := by
  induction path with
  | stop bound wf =>
    exact PathMessage.stop ((gc_view gc).mpr ⟨kept, bound⟩) wf
  | descend bound wf routed _ ih =>
    have childKept := BlockInterface.gc_target_kept gc kept (edge_of_child bound routed)
    exact PathMessage.descend ((gc_view gc).mpr ⟨kept, bound⟩) wf routed (ih childKept)

end GarbageCollection

end VerifiedBetrfs.BetreeSteps
