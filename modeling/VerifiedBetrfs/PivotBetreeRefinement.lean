import VerifiedBetrfs.PivotQueries
import VerifiedBetrfs.PivotUpdates
import VerifiedBetrfs.PivotFusion

/-!
# The tree with pivots refines the abstract tree, step by step

Every operation of the tree with pivots stands for one of the abstract tree, but for the repivot,
which gives a leaf with one bucket another pivot table.
-/

namespace VerifiedBetrfs.PivotBetreeSpecRefinement

open BetreeSpec (Node ValidBetreeStep betreeStepOps)
open BoundedPivotsLib BucketsLib BlockGraph

open PivotBetreeSpec (BetreeStep InvNode NodeFlush NodeFusion RootGrowth ValidBetreeStep ValidFlush
  ValidInsertion ValidMerge ValidSplit betreeStepOps betreeStepReads flushOps flushReads growOps
  growReads insertionOps insertionReads mergeOps mergeReads splitOps splitReads)

def iOp : Op PNode → Op Node
  | .allocOp ref node => .allocOp ref (iNode node)
  | .writeOp ref node => .writeOp ref (iNode node)

def iOps (ops : List (Op PNode)) : List (Op Node) := ops.map iOp

/-- The operation of the abstract tree.  A repivot has none. -/
def iStep : BetreeStep → Option BetreeSpec.BetreeStep
  | .betreeQuery q => some (.betreeQuery (iQuery q))
  | .betreeSuccQuery sq => some (.betreeSuccQuery (iSuccQuery sq))
  | .betreeInsert ins => some (.betreeInsert (iInsertion ins))
  | .betreeFlush flush => some (.betreeFlush (iFlush flush))
  | .betreeGrow growth => some (.betreeGrow (iGrow growth))
  | .betreeSplit fusion => some (.betreeRedirect (iSplit fusion))
  | .betreeMerge fusion => some (.betreeRedirect (iMerge fusion))
  | .betreeRepivot _ => none

/-- The interpretation is valid, the nodes written are well formed and the two write the same. -/
structure StepRefines (ops : List (Op PNode)) (step : BetreeSpec.BetreeStep) : Prop where
  valid : ValidBetreeStep step
  writes : ∀ op ∈ ops, InvNode op.node
  ops : iOps ops = betreeStepOps step

theorem insert_stepRefines {ins : PivotBetreeSpec.MessageInsertion}
    (valid : ValidInsertion ins) (inv : InvNode ins.oldroot) :
    StepRefines (insertionOps ins) (.betreeInsert (iInsertion ins)) where
  valid := wf_iNode inv.wf
  writes := List.forall_mem_singleton.mpr (insert_writes valid inv)
  ops := congrArg (fun node => [Op.writeOp root node]) (iNode_addMessageToNode valid inv)

theorem flush_stepRefines {flush : NodeFlush} (valid : ValidFlush flush)
    (invParent : InvNode flush.parent) (invChild : InvNode flush.child) :
    StepRefines (flushOps flush) (.betreeFlush (iFlush flush)) := by
  obtain ⟨_, _, _, _, does⟩ := exists_flushes valid invParent invChild
  have inRange := valid.slot
  have lighter := valid.parentWeight
  rw [List.getElem!_eq_getElem?_getD, List.getElem!_eq_getElem?_getD, does.atSlot,
    does.newparent, List.getElem?_set_self inRange, Option.getD_some, Option.getD_some] at lighter
  refine ⟨flush_refines does invParent invChild, ?_, rfl⟩
  refine List.forall_mem_cons.mpr ⟨flush_newchild_inv does invParent invChild, ?_⟩
  exact List.forall_mem_singleton.mpr (flush_newparent_inv does invParent lighter)

theorem grow_stepRefines {growth : RootGrowth} (inv : InvNode growth.oldroot) :
    StepRefines (growOps growth) (.betreeGrow (iGrow growth)) where
  valid := trivial
  writes := List.forall_mem_cons.mpr
    ⟨inv, List.forall_mem_singleton.mpr (inv_newroot (some growth.newchildref))⟩
  ops := congrArg
    (fun node => [Op.allocOp growth.newchildref (iNode growth.oldroot), Op.writeOp root node])
    (iNode_newroot growth.newchildref)

theorem split_stepRefines {f : NodeFusion} (valid : ValidSplit f)
    (invParent : InvNode f.fusedParent) (invChild : InvNode f.fusedChild) :
    StepRefines (splitOps f) (.betreeRedirect (iSplit f)) where
  valid := split_refines valid invParent invChild
  writes := List.forall_mem_cons.mpr ⟨(split_left valid invChild).inv, List.forall_mem_cons.mpr
    ⟨(split_right valid invChild).inv,
      List.forall_mem_singleton.mpr (split_newparent_inv valid invParent)⟩⟩
  ops := by
    have left : (iSplit f).newChildren.at' f.leftChildref = iNode f.leftChild :=
      IMap.at'_of_eq_some (twoChildren_left valid.sameChild)
    have right : (iSplit f).newChildren.at' f.rightChildref = iNode f.rightChild :=
      IMap.at'_of_eq_some twoChildren_right
    change [Op.allocOp f.leftChildref (iNode f.leftChild),
        .allocOp f.rightChildref (iNode f.rightChild), .writeOp f.parentref _] =
      [Op.allocOp f.leftChildref (IMap.at' _ _), .allocOp f.rightChildref (IMap.at' _ _),
        .writeOp f.parentref _]
    rw [left, right]
    rfl

theorem merge_stepRefines {f : NodeFusion} (valid : ValidMerge f)
    (invParent : InvNode f.splitParent) (invLeft : InvNode f.leftChild)
    (invRight : InvNode f.rightChild) :
    StepRefines (mergeOps f) (.betreeRedirect (iMerge f)) where
  valid := merge_refines valid invParent invLeft invRight
  writes := List.forall_mem_cons.mpr ⟨(merge_newchild valid invLeft invRight).2,
    List.forall_mem_singleton.mpr (merge_newparent_inv valid invParent)⟩
  ops := by
    have fused : (iMerge f).newChildren.at' f.fusedChildref = iNode f.fusedChild :=
      IMap.at'_of_eq_some (oneChild_eq_some.mpr ⟨rfl, rfl⟩)
    change [Op.allocOp f.fusedChildref (iNode f.fusedChild), .writeOp f.parentref _] =
      [Op.allocOp f.fusedChildref (IMap.at' _ _), .writeOp f.parentref _]
    rw [fused]
    rfl

/-- Every valid operation of the pivot tree but a repivot stands for a valid operation of the
abstract tree, writes nodes with the node invariant, and writes what the abstract operation
writes. -/
theorem pivotStep_refines_betreeStep (step : BetreeStep)
    (notRepivot : ∀ repivot, step ≠ .betreeRepivot repivot)
    (valid : ValidBetreeStep step)
    (reads : ∀ read ∈ betreeStepReads step, InvNode read.node) :
    ∃ istep, iStep step = some istep ∧ ValidBetreeStep istep ∧
      (∀ op ∈ betreeStepOps step, InvNode op.node) ∧
      iOps (betreeStepOps step) = betreeStepOps istep := by
  suffices refines : ∃ istep, iStep step = some istep ∧
      StepRefines (betreeStepOps step) istep by
    obtain ⟨istep, isStep, step⟩ := refines
    exact ⟨istep, isStep, step.valid, step.writes, step.ops⟩
  cases step with
  | betreeQuery q =>
    exact ⟨_, rfl, query_refines valid reads, List.forall_mem_nil _, rfl⟩
  | betreeSuccQuery sq =>
    exact ⟨_, rfl, succQuery_refines valid reads, List.forall_mem_nil _, rfl⟩
  | betreeInsert ins =>
    exact ⟨_, rfl, insert_stepRefines valid (reads ⟨root, ins.oldroot⟩ (by
      simp [betreeStepReads, insertionReads]))⟩
  | betreeFlush flush =>
    have nodes : InvNode flush.parent ∧ InvNode flush.child := by
      simpa [betreeStepReads, flushReads] using reads
    exact ⟨_, rfl, flush_stepRefines valid nodes.1 nodes.2⟩
  | betreeGrow growth =>
    have node : InvNode growth.oldroot := by
      simpa [betreeStepReads, growReads] using reads
    exact ⟨_, rfl, grow_stepRefines node⟩
  | betreeSplit f =>
    have nodes : InvNode f.fusedParent ∧ InvNode f.fusedChild := by
      simpa [betreeStepReads, splitReads] using reads
    exact ⟨_, rfl, split_stepRefines valid nodes.1 nodes.2⟩
  | betreeMerge f =>
    have nodes : InvNode f.splitParent ∧ InvNode f.leftChild ∧ InvNode f.rightChild := by
      simpa [betreeStepReads, mergeReads] using reads
    exact ⟨_, rfl, merge_stepRefines valid nodes.1 nodes.2.1 nodes.2.2⟩
  | betreeRepivot repivot => exact absurd rfl (notRepivot repivot)

/-- Keys and messages of one byte. -/
def byteMessage (byte : UInt8) : Message := .define (byteString byte)

/-- Two slots, below and above a key. -/
def twoSlots : PivotTable := [keyToElement emptyKey, keyToElement (byteString 5), ⊤]

theorem wf_twoSlots : WFPivots twoSlots := wfPivots_of_sorted (by decide) (by decide)

/-- A message for each slot. -/
def twoMessages : Bucket := ⟨[byteString 2, byteString 7], [byteMessage 1, byteMessage 3]⟩

theorem wf_twoMessages : WFBucket twoMessages := ⟨rfl, by unfold WFMessageSeq; decide⟩

theorem sorted_twoMessages : BucketWellMarshalled twoMessages := by
  unfold BucketWellMarshalled
  decide

def twoBuckets : BucketList :=
  [⟨[byteString 2], [byteMessage 4]⟩, ⟨[byteString 9], [byteMessage 6]⟩]

theorem inv_twoMessages {children : Option (List Reference)}
    (length : ∀ refs, children = some refs → 1 = refs.length)
    (bounded : PivotBetreeSpec.BoundedNode ⟨initPivotTable, children, [twoMessages]⟩) :
    InvNode ⟨initPivotTable, children, [twoMessages]⟩ := by
  refine invNode_of_good wf_initPivotTable rfl length (fun i bucket atI => ?_) bounded
  cases i with
  | zero =>
    obtain rfl := Option.some.inj atI
    exact goodBucketAt_of_inSlot wf_initPivotTable wf_twoMessages sorted_twoMessages
      fun key _ => inSlot_initPivotTable key
  | succ i => cases atI

theorem inv_parent_twoMessages : InvNode ⟨initPivotTable, some [1], [twoMessages]⟩ :=
  inv_twoMessages (by simp) (by unfold PivotBetreeSpec.BoundedNode; decide)

theorem goodBucketAt_singleton {pivots : PivotTable} {i : Nat} {key : Key} {byte : UInt8}
    (wf : WFPivots pivots) (inSlot : SortedSearch.InSlot pivots i (keyToElement key)) :
    GoodBucketAt pivots i ⟨[key], [byteMessage byte]⟩ := by
  refine goodBucketAt_of_inSlot wf ⟨rfl, ?_⟩ (List.pairwise_singleton _ _)
    (List.forall_mem_singleton.mpr inSlot)
  simp [WFMessageSeq, byteMessage, ValueMessage.identityMessage]

theorem inv_twoBuckets : InvNode ⟨twoSlots, none, twoBuckets⟩ := by
  refine invNode_of_good wf_twoSlots rfl nofun (fun i bucket atI => ?_)
    (by unfold PivotBetreeSpec.BoundedNode; decide)
  rcases i with _ | _ | i
  · obtain rfl := Option.some.inj atI
    exact goodBucketAt_singleton wf_twoSlots ⟨_, _, rfl, rfl, by decide, by decide⟩
  · obtain rfl := Option.some.inj atI
    exact goodBucketAt_singleton wf_twoSlots ⟨_, _, rfl, rfl, by decide, by decide⟩
  · cases atI

/-- One message is merged with one of the child, the other is put in front of one. -/
def twoSlotFlush : NodeFlush where
  parentref := 0
  parent := ⟨initPivotTable, some [1], [twoMessages]⟩
  newparent := ⟨initPivotTable, some [2], [emptyBucket]⟩
  childref := 1
  child := ⟨twoSlots, none, twoBuckets⟩
  newchildref := 2
  newchild := ⟨twoSlots, none, [⟨[byteString 2], [byteMessage 1]⟩,
    ⟨[byteString 7, byteString 9], [byteMessage 3, byteMessage 6]⟩]⟩
  slotIndex := 0

theorem valid_twoSlotFlush : ValidFlush twoSlotFlush where
  parentWF := inv_parent_twoMessages.wf
  childWF := inv_twoBuckets.wf
  slot := by decide
  childref := ⟨[1], rfl, rfl, by decide +kernel⟩
  boundedKeys := by
    unfold BoundedKeySeq
    decide +kernel
  newchild := by decide +kernel
  newchildBuckets := by
    refine ⟨wf_twoSlots, rfl, ?_⟩
    simp only [WFBucket, PreWFBucket, WFMessageSeq]
    decide +kernel
  newparentBucket := ⟨rfl, nofun⟩
  childWeight := by decide +kernel
  parentWeight := by decide +kernel

theorem pivotStep_refines_betreeStep_flush :
    ValidBetreeStep (.betreeFlush twoSlotFlush) ∧
      ∃ istep, iStep (.betreeFlush twoSlotFlush) = some istep ∧ ValidBetreeStep istep ∧
        (∀ op ∈ flushOps twoSlotFlush, InvNode op.node) ∧
        iOps (flushOps twoSlotFlush) = betreeStepOps istep := by
  refine ⟨valid_twoSlotFlush, pivotStep_refines_betreeStep (.betreeFlush twoSlotFlush) nofun
    valid_twoSlotFlush ?_⟩
  exact List.forall_mem_cons.mpr
    ⟨inv_parent_twoMessages, List.forall_mem_singleton.mpr inv_twoBuckets⟩

open SortedSearch BucketMaps BucketWeights
open PivotBetreeSpec (BoundedNode ValidRepivot applyRepivot Repivot)

section Repivot

variable {r : Repivot}

section

variable (valid : ValidRepivot r)

include valid

theorem repivot_pivots :
    r.pivots = [keyToElement emptyKey, keyToElement r.pivot, ⊤] := valid.pivots

/-- The slots of the new table are the keys below the pivot and those from it on. -/
theorem repivot_slot_left (key : Key) : InSlot r.pivots 0 (keyToElement key) ↔ key < r.pivot := by
  rw [repivot_pivots valid]
  constructor
  · rintro ⟨_, high, -, atHigh, -, upper⟩
    obtain rfl : keyToElement r.pivot = high := Option.some.inj atHigh
    exact WithTop.coe_lt_coe.mp upper
  · intro less
    exact ⟨_, _, rfl, rfl, WithTop.coe_le_coe.mpr (emptyKey_le key), WithTop.coe_lt_coe.mpr less⟩

theorem repivot_slot_right (key : Key) : InSlot r.pivots 1 (keyToElement key) ↔ r.pivot ≤ key := by
  rw [repivot_pivots valid]
  constructor
  · rintro ⟨low, _, atLow, -, lower, -⟩
    obtain rfl : keyToElement r.pivot = low := Option.some.inj atLow
    exact WithTop.coe_le_coe.mp lower
  · intro le
    exact ⟨_, _, rfl, rfl, WithTop.coe_le_coe.mpr le, WithTop.coe_lt_top key⟩

section

variable (inv : InvNode r.leaf)

include inv

theorem exists_leaf_bucket :
    ∃ bucket, r.leaf.buckets = [bucket] ∧ GoodBucketAt r.leaf.pivotTable 0 bucket := by
  obtain ⟨bucket, isBucket⟩ := List.length_eq_one_iff.mp valid.single
  have atBucket : r.leaf.buckets[0]? = some bucket := by
    rw [isBucket]
    rfl
  exact ⟨bucket, isBucket, goodBucket inv atBucket⟩

theorem inv_applyRepivot : InvNode (applyRepivot r) := by
  obtain ⟨bucket, isBucket, good⟩ := exists_leaf_bucket valid inv
  have isNode : applyRepivot r =
      ⟨r.pivots, none, [splitBucketLeft bucket r.pivot, splitBucketRight bucket r.pivot]⟩ := by
    rw [applyRepivot, isBucket]
    rfl
  have wfPivots := valid.allKeys.1
  have weight : weightBucketList r.leaf.buckets ≤ Bounds.maxTotalBucketWeight := inv.wf.bounded.2
  rw [isNode]
  refine invNode_of_good wfPivots ?_ (by simp) ?_ ⟨?_, ?_⟩
  · rw [repivot_pivots valid]
    rfl
  · intro i part atI
    match i, atI with
    | 0, atI =>
      obtain rfl := Option.some.inj atI
      refine goodBucketAt_of_inSlot wfPivots (wf_splitBucketLeft good.wf _)
        (wellMarshalled_splitBucketLeft good.sorted _) ?_
      intro key member
      exact (repivot_slot_left valid key).mpr (mem_keys_splitBucketLeft good.sorted member).2
    | 1, atI =>
      obtain rfl := Option.some.inj atI
      refine goodBucketAt_of_inSlot wfPivots (wf_splitBucketRight good.wf _)
        (wellMarshalled_splitBucketRight good.sorted _) ?_
      intro key member
      exact (repivot_slot_right valid key).mpr (mem_keys_splitBucketRight good.sorted member).2
    | i + 2, atI => cases atI
  · have fanout := valid.fanout
    rw [repivot_pivots valid] at fanout
    exact Nat.le_of_succ_le_succ fanout
  · have split := weightBucket_split bucket r.pivot
    simp only [isBucket, weightBucketList_cons, weightBucketList_nil] at weight ⊢
    omega

/-- The leaf gives each key the message of its only bucket, which has no key out of its bounds. -/
theorem iNode_leaf_buffer {bucket : Bucket} (isBucket : r.leaf.buckets = [bucket])
    (good : GoodBucketAt r.leaf.pivotTable 0 bucket) (key : Key) :
    (iNode r.leaf).buffer key = some (bucketGet bucket.asMap key * ValueMessage.defineDefault) := by
  have atBucket : r.leaf.buckets[0]? = some bucket := by
    rw [isBucket]
    rfl
  have isLeaf : leafMessage r.leaf = ValueMessage.defineDefault := by
    rw [leafMessage, valid.leaf]
    rfl
  by_cases bounded : BoundedKey r.leaf.pivotTable key
  · obtain ⟨idx, slot⟩ := (boundedKey_iff inv.wf.pivots).mp bounded
    have isFirst : idx = 0 := by
      have inRange := inSlot_lt_numBuckets slot
      rw [inv.wf.numBuckets, valid.single] at inRange
      omega
    subst isFirst
    rw [iBuffer_at inv.wf slot atBucket, isLeaf]
  · have absent : key ∉ bucket.keys := by
      intro member
      exact bounded (good.wfAt.2.1 key member)
    rw [iNode_buffer, if_neg bounded, bucketGet_of_notMem good.wf.1 absent, one_mul]

theorem iNode_applyRepivot_buffer {bucket : Bucket} (isBucket : r.leaf.buckets = [bucket])
    (good : GoodBucketAt r.leaf.pivotTable 0 bucket) (key : Key) :
    (iNode (applyRepivot r)).buffer key =
      some (bucketGet bucket.asMap key * ValueMessage.defineDefault) := by
  have wf := (inv_applyRepivot valid inv).wf
  have buckets : (applyRepivot r).buckets =
      [splitBucketLeft bucket r.pivot, splitBucketRight bucket r.pivot] := by
    rw [applyRepivot, isBucket]
    rfl
  obtain less | le := lt_or_ge key r.pivot
  · have slot : InSlot (applyRepivot r).pivotTable 0 (keyToElement key) :=
      (repivot_slot_left valid key).mpr less
    rw [iBuffer_at wf slot (by rw [buckets]; rfl),
      bucketGet_splitBucketLeft good.wf good.sorted less]
    rfl
  · have slot : InSlot (applyRepivot r).pivotTable 1 (keyToElement key) :=
      (repivot_slot_right valid key).mpr le
    rw [iBuffer_at wf slot (by rw [buckets]; rfl),
      bucketGet_splitBucketRight good.wf good.sorted le]
    rfl

end

end

theorem iNode_children_of_leaf {node : PNode} (isLeaf : node.children = none) (key : Key) :
    (iNode node).children key = none := by
  rw [iNode_children, isLeaf]
  split <;> rfl

/-- A repivot keeps the node invariant, and the abstract node stays the same. -/
theorem repivot_invisible (valid : ValidRepivot r) (inv : InvNode r.leaf) :
    InvNode (applyRepivot r) ∧ iNode (applyRepivot r) = iNode r.leaf := by
  obtain ⟨_, isBucket, good⟩ := exists_leaf_bucket valid inv
  refine ⟨inv_applyRepivot valid inv, congrArg₂ BetreeSpec.Node.mk (funext ?_) (funext ?_)⟩
  · intro key
    exact (iNode_children_of_leaf rfl key).trans (iNode_children_of_leaf valid.leaf key).symm
  · intro key
    exact (iNode_applyRepivot_buffer valid inv isBucket good key).trans
      (iNode_leaf_buffer valid inv isBucket good key).symm

end Repivot

/-- A leaf with two keys is cut between them. -/
def repivotTwoKeys : Repivot :=
  ⟨root, ⟨initPivotTable, none, [twoMessages]⟩, twoSlots, byteString 5⟩

theorem repivot_invisible_twoKeys :
    (applyRepivot repivotTwoKeys).buckets =
      [⟨[byteString 2], [byteMessage 1]⟩, ⟨[byteString 7], [byteMessage 3]⟩] ∧
    InvNode (applyRepivot repivotTwoKeys) ∧
      iNode (applyRepivot repivotTwoKeys) = iNode repivotTwoKeys.leaf := by
  have inv : InvNode repivotTwoKeys.leaf := inv_twoMessages nofun ⟨by decide, by decide⟩
  refine ⟨by decide +kernel,
    repivot_invisible ⟨inv.wf, by decide, ?_, rfl, ⟨wf_twoSlots, rfl, rfl⟩, rfl, rfl⟩ inv⟩
  intro bucket member
  have isBucket := List.mem_singleton.mp member
  rw [isBucket]
  exact ⟨rfl, fun key _ => ((routed_iff wf_initPivotTable).mpr (inSlot_initPivotTable key)).1⟩

end VerifiedBetrfs.PivotBetreeSpecRefinement
