import VerifiedBetrfs.PivotParent

/-!
# Split and merge as redirects

On the keys of the fused slot the children on both sides stand for the same abstract node.
-/

namespace VerifiedBetrfs.PivotBetreeSpecRefinement

open BetreeSpec (Node Redirect ValidRedirect WFNode)
open BoundedPivotsLib SortedSearch BucketMaps BucketsLib BucketWeights

open PivotBetreeSpec (WFNode InvNode BoundedNode NodeFusion ValidSplitKey cutFusedChild cutLeftChild
  cutRightChild cutoffNode getlbound getubound splitParent)

def oneChild (ref : Reference) (node : PNode) : IMap Reference Node :=
  IMap.empty.update ref (iNode node)

def twoChildren (leftRef rightRef : Reference) (left right : PNode) :
    IMap Reference Node :=
  (IMap.empty.update leftRef (iNode left)).update rightRef (iNode right)

/-- A split as a redirect. -/
def iSplit (split : NodeFusion) : Redirect :=
  ⟨split.parentref,
    iNode split.fusedParent, [split.fusedChildref],
    oneChild split.fusedChildref split.fusedChild,
    iNode split.splitParent, [split.leftChildref, split.rightChildref],
    twoChildren split.leftChildref split.rightChildref split.leftChild split.rightChild,
    pivotTableBucketKeySet split.fusedParent.pivotTable split.slotIdx⟩

/-- A merge as a redirect. -/
def iMerge (split : NodeFusion) : Redirect :=
  ⟨split.parentref,
    iNode split.splitParent, [split.leftChildref, split.rightChildref],
    twoChildren split.leftChildref split.rightChildref split.leftChild split.rightChild,
    iNode split.fusedParent, [split.fusedChildref],
    oneChild split.fusedChildref split.fusedChild,
    pivotTableBucketKeySet split.fusedParent.pivotTable split.slotIdx⟩

/-- A parent routes every key of a set to the child `child key`, whose node is `node key`, and some
of the keys to each of the listed children. -/
structure Side (parent : Node) (keys : Set Key) (refs : List Reference)
    (children : IMap Reference Node) (child : Key → Reference)
    (node : Key → Node) : Prop where
  parentWF : WFNode parent
  childrenWF : ∀ node ∈ children.values, WFNode node
  routed : ∀ key ∈ keys, parent.children key = some (child key)
  bound : ∀ key ∈ keys, children (child key) = some (node key)
  used : ∀ ref, ref ∈ refs ↔ ∃ key ∈ keys, child key = ref
  domain : children.keys = { ref | ref ∈ refs }

section Sides

variable {parent : Node} {keys : Set Key} {refs : List Reference}
  {children : IMap Reference Node} {child : Key → Reference}
  {node : Key → Node} (side : Side parent keys refs children child node)

include side

theorem Side.mem_values {ref : Reference} :
    ref ∈ (parent.children.restrict keys).values ↔ ref ∈ refs := by
  rw [IMap.mem_values, side.used]
  constructor
  · rintro ⟨key, found⟩
    obtain ⟨inKeys, routed⟩ := IMap.restrict_eq_some.mp found
    exact ⟨key, inKeys, Option.mem_unique (side.routed key inKeys) routed⟩
  · rintro ⟨key, inKeys, rfl⟩
    exact ⟨key, IMap.restrict_eq_some.mpr ⟨inKeys, side.routed key inKeys⟩⟩

theorem Side.mem_domain {key : Key} (inKeys : key ∈ keys) : child key ∈ children.keys :=
  ⟨node key, side.bound key inKeys⟩

end Sides

theorem validRedirect_of_sides {redirect : Redirect}
    {oldChild newChild : Key → Reference} {oldNode newNode : Key → Node}
    (old : Side redirect.oldParent redirect.keys redirect.oldChildrefs redirect.oldChildren
      oldChild oldNode)
    (new : Side redirect.newParent redirect.keys redirect.newChildrefs redirect.newChildren
      newChild newNode)
    (sameBuffer : redirect.newParent.buffer = redirect.oldParent.buffer)
    (otherKeys : ∀ key, key ∉ redirect.keys →
      redirect.newParent.children key = redirect.oldParent.children key)
    (agree : ∀ key ∈ redirect.keys, AgreeAt (newNode key) (oldNode key) key)
    (exact : ∀ ref node key, redirect.newChildren ref = some node →
      key ∈ node.children.keys → key ∈ redirect.keys ∧ newChild key = ref) :
    ValidRedirect redirect := by
  have oldAt : ∀ key ∈ redirect.keys, redirect.oldParent.children.at' key = oldChild key :=
    fun key inKeys => IMap.at'_of_eq_some (old.routed key inKeys)
  have newAt : ∀ key ∈ redirect.keys, redirect.newParent.children.at' key = newChild key :=
    fun key inKeys => IMap.at'_of_eq_some (new.routed key inKeys)
  have oldNodeAt : ∀ key ∈ redirect.keys, redirect.oldChildren.at' (oldChild key) = oldNode key :=
    fun key inKeys => IMap.at'_of_eq_some (old.bound key inKeys)
  have newNodeAt : ∀ key ∈ redirect.keys, redirect.newChildren.at' (newChild key) = newNode key :=
    fun key inKeys => IMap.at'_of_eq_some (new.bound key inKeys)
  constructor
  case oldParentWF => exact old.parentWF
  case oldChildrenWF => exact old.childrenWF
  case newParentWF => exact new.parentWF
  case newChildrenWF => exact new.childrenWF
  case oldChildrefs => exact fun ref => old.mem_values
  case oldChildrenKeys =>
    rw [old.domain]
    exact Set.ext fun ref => old.mem_values.symm
  case newChildrefs => exact fun ref member => new.mem_values.mp member
  case newChildrenKeys => exact new.domain
  case sameBuffer => exact sameBuffer
  case keysRouted => exact fun key inKeys => ⟨_, new.routed key inKeys⟩
  case keysRoutedToNew =>
    intro key inKeys
    rw [newAt key inKeys, new.used]
    exact ⟨key, inKeys, rfl⟩
  case otherKeys => exact otherKeys
  case childBuffers =>
    rintro key ⟨inKeys, _⟩
    rw [oldAt key inKeys, newAt key inKeys, oldNodeAt key inKeys, newNodeAt key inKeys]
    exact ⟨old.mem_domain inKeys, new.mem_domain inKeys, (agree key inKeys).buffer⟩
  case childChildren =>
    rintro key ⟨inKeys, _⟩
    rw [oldAt key inKeys, newAt key inKeys, oldNodeAt key inKeys, newNodeAt key inKeys]
    exact ⟨old.mem_domain inKeys, new.mem_domain inKeys, (agree key inKeys).children⟩
  case onlyOldGrandchildren =>
    rintro ref node grandchild isChild ⟨key, found⟩
    obtain ⟨inKeys, rfl⟩ := exact ref node key isChild ⟨grandchild, found⟩
    exact ⟨key, new.routed key inKeys, found, inKeys, ⟨_, old.routed key inKeys⟩⟩

theorem keys_oneChild (ref : Reference) (node : PNode) :
    (oneChild ref node).keys = { other | other ∈ [ref] } := by
  rw [oneChild, IMap.keys_update, IMap.keys_empty]
  simp

variable {node : PNode} {key : Key}

theorem oneChild_eq_some {ref other : Reference} {child : Node} :
    oneChild ref node other = some child ↔ other = ref ∧ child = iNode node := by
  rw [oneChild, IMap.update_eq_ite]
  by_cases same : other = ref
  · simp [same, eq_comm]
  · simp [same, IMap.empty]

section TwoChildren

variable {leftRef rightRef : Reference} {left right : PNode}

theorem keys_twoChildren : (twoChildren leftRef rightRef left right).keys =
    { other | other ∈ [leftRef, rightRef] } := by
  rw [twoChildren, IMap.keys_update, IMap.keys_update, IMap.keys_empty]
  ext other
  simp [or_comm]

theorem twoChildren_cases {other : Reference} {child : Node}
    (found : twoChildren leftRef rightRef left right other = some child) :
    (other = leftRef ∧ child = iNode left) ∨ (other = rightRef ∧ child = iNode right) := by
  rw [twoChildren, IMap.update_eq_ite] at found
  split_ifs at found with isRight
  · exact Or.inr ⟨isRight, (Option.some.inj found).symm⟩
  · exact Or.inl (oneChild_eq_some.mp found)

theorem twoChildren_right : twoChildren leftRef rightRef left right rightRef =
    some (iNode right) := IMap.update_same _ _ _

theorem twoChildren_left (sameChild : leftRef = rightRef → left = right) :
    twoChildren leftRef rightRef left right leftRef = some (iNode left) := by
  by_cases same : leftRef = rightRef
  · rw [sameChild same, same]
    exact twoChildren_right
  · rw [twoChildren, IMap.update_of_ne _ _ same]
    exact IMap.update_same _ _ _

end TwoChildren

section ParentSides

variable {fused split : PNode} {slot : Nat} {pivot : Key}
  {fusedRef leftRef rightRef : Reference} {left right : Bucket}
  (splits : SplitsSlot fused split slot pivot fusedRef leftRef rightRef left right)
  (invFused : InvNode fused) (invSplit : InvNode split)

include splits invFused

theorem SplitsSlot.pivot_mem : pivot ∈ pivotTableBucketKeySet fused.pivotTable slot := by
  obtain ⟨low, atLow, lower⟩ := splits.below
  obtain ⟨high, atHigh, upper⟩ := splits.above
  exact (mem_pivotTableBucketKeySet invFused.wf.pivots).mpr
    ⟨low, high, atLow, atHigh, le_of_lt lower, upper⟩

theorem SplitsSlot.exists_mem_left :
    ∃ key ∈ pivotTableBucketKeySet fused.pivotTable slot, key < pivot := by
  obtain ⟨_, atLow, lower⟩ := splits.below
  obtain ⟨high, atHigh, upper⟩ := splits.above
  obtain ⟨key, rfl⟩ := WithTop.ne_top_iff_exists.mp (ne_top_of_lt lower)
  refine ⟨key, (mem_pivotTableBucketKeySet invFused.wf.pivots).mpr
    ⟨_, high, atLow, atHigh, le_refl _, lt_trans lower upper⟩, WithTop.coe_lt_coe.mp lower⟩

theorem fusedSide {child : PNode} (inv : InvNode child) :
    Side (iNode fused) (pivotTableBucketKeySet fused.pivotTable slot) [fusedRef]
      (oneChild fusedRef child) (fun _ => fusedRef) (fun _ => iNode child) where
  parentWF := wf_iNode invFused.wf
  childrenWF := by
    rintro node ⟨ref, found⟩
    rw [(oneChild_eq_some.mp found).2]
    exact wf_iNode inv.wf
  routed key inKeys := splits.fused_child invFused
    ((mem_pivotTableBucketKeySet invFused.wf.pivots).mp inKeys)
  bound _ _ := oneChild_eq_some.mpr ⟨rfl, rfl⟩
  used ref := by
    rw [List.mem_singleton]
    constructor
    · exact fun same => ⟨pivot, splits.pivot_mem invFused, same.symm⟩
    · rintro ⟨_, _, same⟩
      exact same.symm
  domain := keys_oneChild fusedRef child

include invSplit

theorem splitSide {leftChild rightChild : PNode} (invLeft : InvNode leftChild)
    (invRight : InvNode rightChild) (sameChild : leftRef = rightRef → leftChild = rightChild) :
    Side (iNode split) (pivotTableBucketKeySet fused.pivotTable slot) [leftRef, rightRef]
      (twoChildren leftRef rightRef leftChild rightChild)
      (fun key => if key < pivot then leftRef else rightRef)
      (fun key => iNode (if key < pivot then leftChild else rightChild)) where
  parentWF := wf_iNode invSplit.wf
  childrenWF := by
    rintro node ⟨ref, found⟩
    rcases twoChildren_cases found with ⟨_, rfl⟩ | ⟨_, rfl⟩
    · exact wf_iNode invLeft.wf
    · exact wf_iNode invRight.wf
  routed key inKeys := splits.split_child invFused invSplit
    ((mem_pivotTableBucketKeySet invFused.wf.pivots).mp inKeys)
  bound key _ := by
    split
    · exact twoChildren_left sameChild
    · exact twoChildren_right
  used ref := by
    obtain ⟨lower, lowerMem, less⟩ := splits.exists_mem_left invFused
    simp only [List.mem_cons, List.not_mem_nil, or_false]
    constructor
    · rintro (rfl | rfl)
      · exact ⟨lower, lowerMem, if_pos less⟩
      · exact ⟨pivot, splits.pivot_mem invFused, if_neg (lt_irrefl pivot)⟩
    · rintro ⟨key, _, rfl⟩
      split
      · exact Or.inl rfl
      · exact Or.inr rfl
  domain := keys_twoChildren

end ParentSides

section SlotBounds

variable {parent : PNode} (pivots : WFPivots parent.pivotTable) {slot : Nat}
  (inRange : slot < numBuckets parent.pivotTable)

include pivots inRange

theorem slot_bounds :
    parent.pivotTable[slot]? = some (keyToElement (getlbound parent slot)) ∧
      parent.pivotTable[slot + 1]? =
        some (upperElement (getubound parent slot)) := by
  obtain ⟨_, high, atLow, atHigh⟩ := exists_pivots inRange
  have less := getElem?_lt pivots.sorted atLow atHigh (Nat.lt_succ_self slot)
  obtain ⟨key, rfl⟩ := WithTop.ne_top_iff_exists.mp (ne_top_of_lt less)
  have lowEq : getlbound parent slot = key := by
    rw [getlbound, getKey, List.getElem!_eq_getElem?_getD, atLow,
      Option.getD_some, WithTop.untopD_coe]
  refine ⟨by rw [atLow, lowEq], ?_⟩
  rw [atHigh, getubound, getKey, List.getElem!_eq_getElem?_getD, atHigh, Option.getD_some]
  cases high using WithTop.recTopCoe with
  | top | coe high => rfl

theorem inSlot_iff_bounds {key : Key} :
    InSlot parent.pivotTable slot (keyToElement key) ↔
      keyToElement key < upperElement (getubound parent slot) ∧
        getlbound parent slot ≤ key := by
  obtain ⟨atLow, atHigh⟩ := slot_bounds pivots inRange
  constructor
  · rintro ⟨_, _, atLow', atHigh', lower, upper⟩
    obtain rfl := Option.mem_unique atLow atLow'
    obtain rfl := Option.mem_unique atHigh atHigh'
    exact ⟨upper, WithTop.coe_le_coe.mp lower⟩
  · rintro ⟨upper, lower⟩
    exact ⟨_, _, atLow, atHigh, WithTop.coe_le_coe.mpr lower, upper⟩

end SlotBounds

theorem boundedKey_of_validSplitKey {lpivot : Key} {rpivot : Option Key}
    (valid : ValidSplitKey node lpivot rpivot) (lower : lpivot ≤ key)
    (upper : keyToElement key < upperElement rpivot) : BoundedKey node.pivotTable key := by
  refine ⟨le_trans valid.lower.1 (WithTop.coe_le_coe.mpr lower), ?_⟩
  cases rpivot with
  | none =>
    rw [valid.unbounded rfl]
    exact upper
  | some rpivot => exact lt_of_lt_of_le upper (valid.upper rpivot rfl).1.2

theorem boundedKey_cutoffNode {parent : PNode} (inv : InvNode node)
    (pivots : WFPivots parent.pivotTable) {slot : Nat}
    (inRange : slot < numBuckets parent.pivotTable)
    (valid : ValidSplitKey node (getlbound parent slot) (getubound parent slot)) (key : Key) :
    BoundedKey (cutoffNode node (getlbound parent slot)
        (getubound parent slot)).pivotTable key ↔
      InSlot parent.pivotTable slot (keyToElement key) := by
  rw [(restricts_cutoffNode inv valid).bounded, inSlot_iff_bounds pivots inRange]
  constructor
  · exact fun both => both.2
  · exact fun range => ⟨boundedKey_of_validSplitKey valid range.2 range.1, range⟩

theorem boundedKey_of_child (child : key ∈ (iNode node).children.keys) :
    BoundedKey node.pivotTable key := by
  obtain ⟨_, found⟩ := child
  by_contra unbounded
  rw [iNode_children, if_neg unbounded] at found
  cases found

section Split

variable {f : NodeFusion} (valid : PivotBetreeSpec.ValidSplit f)
  (invParent : InvNode f.fusedParent) (invChild : InvNode f.fusedChild)

include valid invChild in
theorem split_cut : Restricts f.fusedChild (cutFusedChild f)
    fun key => keyToElement key <
        upperElement (getubound f.fusedParent f.slotIdx) ∧
      getlbound f.fusedParent f.slotIdx ≤ key :=
  restricts_cutoffNode invChild valid.childKeys

include valid invChild in
theorem split_atPivot : (cutFusedChild f).pivotTable[f.numChildrenLeft]? =
    some (keyToElement f.pivot) := by
  have cut := split_cut valid invChild
  have inRange : f.numChildrenLeft < numBuckets (cutFusedChild f).pivotTable := by
    rw [cut.inv.wf.numBuckets]
    exact valid.proper
  rw [(slot_bounds cut.inv.wf.pivots inRange).1, getlbound, valid.pivot]

include valid invChild in
theorem split_left : Restricts (cutFusedChild f) f.leftChild (· < f.pivot) := by
  rw [valid.newLeft]
  exact restricts_splitChildLeft (split_cut valid invChild).inv (split_atPivot valid invChild)
    valid.positive valid.proper

include valid invChild in
theorem split_right : Restricts (cutFusedChild f) f.rightChild (f.pivot ≤ ·) := by
  rw [valid.newRight]
  exact restricts_splitChildRight (split_cut valid invChild).inv (split_atPivot valid invChild)
    valid.proper

include valid invParent in
theorem split_splitsSlot : ∃ bucket, f.fusedParent.buckets[f.slotIdx]? = some bucket ∧
    SplitsSlot f.fusedParent f.splitParent f.slotIdx f.pivot f.fusedChildref f.leftChildref
      f.rightChildref (splitBucketLeft bucket f.pivot) (splitBucketRight bucket f.pivot) := by
  obtain ⟨refs, children, atSlot⟩ := valid.childref
  have inRange : f.slotIdx < numBuckets f.fusedParent.pivotTable := by
    rw [invParent.wf.numBuckets]
    exact valid.slot
  obtain ⟨low, high, atLow, atHigh⟩ := exists_pivots inRange
  have tableRange := (List.getElem?_eq_some_iff.mp atHigh).1
  have between := valid.insertable.2.2.2.1 ⟨Nat.succ_pos _, tableRange⟩
  rw [Nat.add_sub_cancel, List.getElem!_eq_getElem?_getD, List.getElem!_eq_getElem?_getD, atLow,
    atHigh, Option.getD_some, Option.getD_some] at between
  have atBucket := List.getElem?_eq_getElem valid.slot
  refine ⟨_, atBucket, ?_, ⟨low, atLow, between.1⟩, ⟨high, atHigh, between.2⟩,
    ⟨refs, children, atSlot, ?_⟩, ?_, ?_⟩
  · rw [valid.newParent, splitParent]
  · rw [valid.newParent, splitParent, children, Option.map_some]
  · rw [mergeBuckets_split, atBucket]
  · rw [valid.newParent, splitParent, splitBucketInList,
      getElem!_pos f.fusedParent.buckets _ valid.slot]

include valid invParent in
theorem split_newparent_inv : InvNode f.splitParent := by
  obtain ⟨_, atBucket, splits⟩ := split_splitsSlot valid invParent
  have good := goodBucket invParent atBucket
  exact splits.inv_split invParent (wf_splitBucketLeft good.wf _) (wf_splitBucketRight good.wf _)
    (wellMarshalled_splitBucketLeft good.sorted _) (wellMarshalled_splitBucketRight good.sorted _)
    (fun key member => (mem_keys_splitBucketLeft good.sorted member).2)
    (fun key member => (mem_keys_splitBucketRight good.sorted member).2) valid.room

include valid invParent invChild

theorem split_bounded (key : Key) :
    BoundedKey (cutFusedChild f).pivotTable key ↔
      key ∈ pivotTableBucketKeySet f.fusedParent.pivotTable f.slotIdx := by
  rw [mem_pivotTableBucketKeySet invParent.wf.pivots]
  refine boundedKey_cutoffNode invChild invParent.wf.pivots ?_ valid.childKeys key
  rw [invParent.wf.numBuckets]
  exact valid.slot

theorem split_refines : ValidRedirect (iSplit f) := by
  obtain ⟨_, _, splits⟩ := split_splitsSlot valid invParent
  have invSplit := split_newparent_inv valid invParent
  have cut := split_cut valid invChild
  have left := split_left valid invChild
  have right := split_right valid invChild
  have bounded := split_bounded valid invParent invChild
  refine validRedirect_of_sides (fusedSide splits invParent invChild)
    (splitSide splits invParent invSplit left.inv right.inv valid.sameChild)
    (splits.buffer_eq invParent invSplit) ?_ ?_ ?_
  · intro key outside
    refine splits.other_child invParent invSplit fun inSlot => outside ?_
    exact (mem_pivotTableBucketKeySet invParent.wf.pivots).mpr inSlot
  · intro key inKeys
    have inCut := (bounded key).mpr inKeys
    split_ifs with less
    · exact (left.agree key ((left.bounded key).mpr ⟨inCut, less⟩)).trans (cut.agree key inCut)
    · exact (right.agree key ((right.bounded key).mpr ⟨inCut, not_lt.mp less⟩)).trans
        (cut.agree key inCut)
  · intro ref node key found child
    rcases twoChildren_cases found with ⟨rfl, rfl⟩ | ⟨rfl, rfl⟩
    · obtain ⟨inCut, less⟩ := (left.bounded key).mp (boundedKey_of_child child)
      exact ⟨(bounded key).mp inCut, if_pos less⟩
    · obtain ⟨inCut, above⟩ := (right.bounded key).mp (boundedKey_of_child child)
      exact ⟨(bounded key).mp inCut, if_neg (not_lt.mpr above)⟩

end Split

section Merge

variable {f : NodeFusion} (valid : PivotBetreeSpec.ValidMerge f)
  (invParent : InvNode f.splitParent) (invLeft : InvNode f.leftChild)
  (invRight : InvNode f.rightChild)

include valid invParent in
theorem merge_atPivot : f.slotIdx + 1 < numBuckets f.splitParent.pivotTable ∧
    f.splitParent.pivotTable[f.slotIdx + 1]? = some (keyToElement f.pivot) := by
  have inRange : f.slotIdx + 1 < numBuckets f.splitParent.pivotTable := by
    rw [invParent.wf.numBuckets]
    have := valid.slot
    omega
  refine ⟨inRange, ?_⟩
  rw [(slot_bounds invParent.wf.pivots inRange).1, getlbound, valid.pivot]

include valid invParent in
theorem merge_ubound : getubound f.splitParent f.slotIdx = some f.pivot := by
  obtain ⟨_, atPivot⟩ := merge_atPivot valid invParent
  rw [getubound, valid.pivot, List.getElem!_eq_getElem?_getD, atPivot,
    Option.getD_some, if_pos (WithTop.coe_ne_top)]

include valid invParent in
theorem merge_table : WFPivots f.fusedParent.pivotTable ∧
    ∃ left right, SplitsSlot f.fusedParent f.splitParent f.slotIdx f.pivot f.fusedChildref
      f.leftChildref f.rightChildref left right := by
  obtain ⟨inRange, atPivot⟩ := merge_atPivot valid invParent
  obtain ⟨_, children, atLeft, atRight, fusedParent⟩ := valid.parentChildren
  have slotRange := valid.slot
  obtain ⟨low, _, atLow, _⟩ := exists_pivots (Nat.lt_of_succ_lt inRange)
  obtain ⟨_, high, _, atHigh⟩ := exists_pivots inRange
  have tableLength := (List.getElem?_eq_some_iff.mp atHigh).1
  have firstBucket := List.getElem?_eq_getElem (by omega : f.slotIdx < f.splitParent.buckets.length)
  have secondBucket :=
    List.getElem?_eq_getElem (by omega : f.slotIdx + 1 < f.splitParent.buckets.length)
  refine ⟨?_, f.splitParent.buckets[f.slotIdx]!, f.splitParent.buckets[f.slotIdx + 1]!, ?_,
    ⟨low, ?_, ?_⟩, ⟨high, ?_, ?_⟩, ⟨_, by rw [fusedParent], ?_, ?_⟩, ?_, ?_⟩
  · rw [fusedParent]
    exact invParent.wf.pivots.remove _ (by omega)
  · rw [fusedParent]
    exact (insert_remove atPivot).symm
  · rw [fusedParent, getElem?_remove, if_pos (Nat.lt_succ_self _), atLow]
  · exact getElem?_lt invParent.wf.pivots.sorted atLow atPivot (Nat.lt_succ_self _)
  · rw [fusedParent, getElem?_remove, if_neg (lt_irrefl _), atHigh]
  · exact getElem?_lt invParent.wf.pivots.sorted atPivot atHigh (Nat.lt_succ_self _)
  · exact getElem?_replace2with1 (List.getElem?_eq_some_iff.mp atLeft).1
  · rw [replace1with2_replace2with1 _ atLeft atRight, children]
  · rw [fusedParent, mergeBucketsInList, getElem?_replace2with1 (by omega)]
  · rw [fusedParent, mergeBucketsInList, replace1with2_replace2with1]
    · rw [List.getElem!_eq_getElem?_getD, firstBucket, Option.getD_some]
    · rw [List.getElem!_eq_getElem?_getD, secondBucket, Option.getD_some]

include valid invLeft in
theorem merge_cutLeft : Restricts f.leftChild (cutLeftChild f)
    fun key => keyToElement key < keyToElement f.pivot ∧
      getlbound f.splitParent f.slotIdx ≤ key :=
  restricts_cutoffNode invLeft valid.leftKeys

include valid invRight in
theorem merge_cutRight : Restricts f.rightChild (cutRightChild f)
    fun key => keyToElement key <
        upperElement (getubound f.splitParent (f.slotIdx + 1)) ∧
      f.pivot ≤ key :=
  restricts_cutoffNode invRight valid.rightKeys

include valid invParent invLeft in
theorem merge_left_bounded (key : Key) :
    BoundedKey (cutLeftChild f).pivotTable key ↔
      InSlot f.splitParent.pivotTable f.slotIdx (keyToElement key) := by
  have keys := valid.leftKeys
  obtain ⟨inRange, _⟩ := merge_atPivot valid invParent
  rw [cutLeftChild]
  rw [← merge_ubound valid invParent] at keys ⊢
  exact boundedKey_cutoffNode invLeft invParent.wf.pivots (Nat.lt_of_succ_lt inRange) keys key

include valid invParent invRight in
theorem merge_right_bounded (key : Key) :
    BoundedKey (cutRightChild f).pivotTable key ↔
      InSlot f.splitParent.pivotTable (f.slotIdx + 1) (keyToElement key) := by
  have keys := valid.rightKeys
  have pivot : f.pivot = getlbound f.splitParent (f.slotIdx + 1) := valid.pivot.symm
  rw [cutRightChild]
  rw [pivot] at keys ⊢
  exact boundedKey_cutoffNode invRight invParent.wf.pivots (merge_atPivot valid invParent).1
    keys key

include valid invLeft in
theorem merge_atLast : (cutLeftChild f).pivotTable.getLast? = some (keyToElement f.pivot) := by
  obtain ⟨cutKey, _, less⟩ := valid.leftKeys.upper f.pivot rfl
  have cut := restricts_cutoffNodeAndKeepLeft invLeft cutKey
  have lower := (cut.bounded _).mpr ⟨valid.leftKeys.lower, less⟩
  have inRange := inSlot_lt_numBuckets (inSlot_cutoffForRight cut.inv.wf.pivots lower)
  rw [numBuckets] at inRange
  change (splitRight (PivotBetreeSpec.cutoffNodeAndKeepLeft f.leftChild f.pivot).pivotTable
    (getlbound f.splitParent f.slotIdx)).getLast? = _
  rw [splitRight, List.getLast?_cons, List.getLast?_drop, if_neg (by omega)]
  change some ((splitLeft f.leftChild.pivotTable f.pivot).getLast?.getD _) = _
  rw [splitLeft, List.getLast?_concat, Option.getD_some]

theorem merge_atFirst : (cutRightChild f).pivotTable.head? = some (keyToElement f.pivot) := by
  rw [cutRightChild]
  cases getubound f.splitParent (f.slotIdx + 1) <;> rfl

include valid invLeft invRight in
theorem merge_newchild : f.fusedChild = concatNodes (cutLeftChild f)
      (cutRightChild f) f.pivot ∧ InvNode f.fusedChild := by
  have left := merge_cutLeft valid invLeft
  have right := merge_cutRight valid invRight
  have kind : (cutLeftChild f).children.isSome =
      (cutRightChild f).children.isSome := by
    rw [left.kind, right.kind, valid.sameKind]
  have newChild : f.fusedChild = concatNodes (cutLeftChild f)
      (cutRightChild f) f.pivot := valid.newChild
  refine ⟨newChild, ?_⟩
  rw [newChild]
  refine inv_concatNodes left.inv right.inv (merge_atLast valid invLeft) merge_atFirst kind ⟨?_, ?_⟩
  · have fanout := valid.fanout
    have leftFanout := left.fanout
    have rightFanout := right.fanout
    rw [concatNodes, List.length_append]
    omega
  · have weight := valid.weight
    have leftWeight := left.weight
    have rightWeight := right.weight
    rw [concatNodes, weightBucketList_append]
    omega

include valid invLeft invRight in
theorem merge_parts :
    Restricts f.fusedChild (cutLeftChild f) (· < f.pivot) ∧
      Restricts f.fusedChild (cutRightChild f) (f.pivot ≤ ·) := by
  have left := merge_cutLeft valid invLeft
  have right := merge_cutRight valid invRight
  have atLast := merge_atLast valid invLeft
  have atFirst := merge_atFirst (f := f)
  obtain ⟨newChild, inv⟩ := merge_newchild valid invLeft invRight
  have kind : (cutLeftChild f).children.isSome =
      (cutRightChild f).children.isSome := by
    rw [left.kind, right.kind, valid.sameKind]
  have atPivot := concatNodes_pivot left.inv atLast atFirst
  rw [newChild] at inv ⊢
  have leftPositive := left.inv.wf.pivots.length
  have rightPositive := right.inv.wf.pivots.length
  have leftLength := left.inv.wf.numBuckets
  have rightLength := right.inv.wf.numBuckets
  rw [numBuckets] at leftLength rightLength
  have proper : (cutLeftChild f).buckets.length < (concatNodes
      (cutLeftChild f) (cutRightChild f) f.pivot).buckets.length := by
    rw [concatNodes, List.length_append]
    omega
  have leftPart := restricts_splitChildLeft inv atPivot (by omega) proper
  have rightPart := restricts_splitChildRight inv atPivot proper
  rw [splitChildLeft_concatNodes left.inv atLast atFirst] at leftPart
  rw [splitChildRight_concatNodes left.inv atLast atFirst kind] at rightPart
  exact ⟨leftPart, rightPart⟩

include valid invParent in
theorem merge_newparent_inv : InvNode f.fusedParent := by
  obtain ⟨pivots, _, _, splits⟩ := merge_table valid invParent
  exact splits.inv_fused invParent pivots

include valid invParent invLeft invRight

theorem merge_bounded (key : Key) : BoundedKey f.fusedChild.pivotTable key ↔
    key ∈ pivotTableBucketKeySet f.fusedParent.pivotTable f.slotIdx := by
  obtain ⟨pivots, _, _, splits⟩ := merge_table valid invParent
  obtain ⟨leftPart, rightPart⟩ := merge_parts valid invLeft invRight
  rw [mem_pivotTableBucketKeySet pivots]
  by_cases less : key < f.pivot
  · have inLeft := leftPart.bounded key
    rw [merge_left_bounded valid invParent invLeft, splits.slots_left pivots (le_refl _)] at inLeft
    simpa only [less, and_true] using inLeft.symm
  · have inRight := rightPart.bounded key
    rw [merge_right_bounded valid invParent invRight,
      splits.slots_right pivots (le_refl _)] at inRight
    simpa only [not_lt.mp less, and_true] using inRight.symm

theorem merge_refines : ValidRedirect (iMerge f) := by
  obtain ⟨pivots, _, _, splits⟩ := merge_table valid invParent
  have invFused := merge_newparent_inv valid invParent
  have invChild := (merge_newchild valid invLeft invRight).2
  obtain ⟨leftPart, rightPart⟩ := merge_parts valid invLeft invRight
  have cutLeft := merge_cutLeft valid invLeft
  have cutRight := merge_cutRight valid invRight
  have bounded := merge_bounded valid invParent invLeft invRight
  refine validRedirect_of_sides
    (splitSide splits invFused invParent invLeft invRight valid.sameChild)
    (fusedSide splits invFused invChild) (splits.buffer_eq invFused invParent).symm ?_ ?_ ?_
  · intro key outside
    refine (splits.other_child invFused invParent fun inSlot => outside ?_).symm
    exact (mem_pivotTableBucketKeySet pivots).mpr inSlot
  · intro key inKeys
    have inFused := (bounded key).mpr inKeys
    by_cases less : key < f.pivot
    · have inLeft := (leftPart.bounded key).mpr ⟨inFused, less⟩
      rw [if_pos less]
      exact (leftPart.agree key inLeft).symm.trans (cutLeft.agree key inLeft)
    · have inRight := (rightPart.bounded key).mpr ⟨inFused, not_lt.mp less⟩
      rw [if_neg less]
      exact (rightPart.agree key inRight).symm.trans (cutRight.agree key inRight)
  · intro ref node key found child
    obtain ⟨rfl, rfl⟩ := oneChild_eq_some.mp found
    exact ⟨(bounded key).mp (boundedKey_of_child child), rfl⟩

end Merge

end VerifiedBetrfs.PivotBetreeSpecRefinement
