import VerifiedBetrfs.PivotNode

/-!
# Insert, flush and grow on the pivot tree

The three updates that do not move pivots.
-/

namespace VerifiedBetrfs.PivotBetreeSpecRefinement

open BoundedPivotsLib SortedSearch BucketMaps BucketsLib BucketWeights BucketFlushModel

open PivotBetreeSpec (InvNode MessageInsertion NodeFlush RootGrowth ValidFlush ValidInsertion WFNode
  addMessageToNode flushResult)

def iInsertion (ins : MessageInsertion) : BetreeSpec.MessageInsertion :=
  ⟨ins.key, ins.msg, iNode ins.oldroot⟩

def movedKeys (node : PNode) (slotIndex : Nat) : Set Key :=
  { key | BoundedKey node.pivotTable key ∧ route node.pivotTable key = slotIndex }

def flushedKeys (flush : NodeFlush) : Set Key :=
  { key | key ∈ flush.parent.buckets[flush.slotIndex]!.asMap.support ∧
    key ∉ flush.newparent.buckets[flush.slotIndex]!.asMap.support }

/-- The abstract flush. -/
def iFlush (flush : NodeFlush) : BetreeSpec.NodeFlush :=
  ⟨flush.parentref, iNode flush.parent, iNode flush.newparent, flush.childref,
    iNode flush.child, flush.newchildref, iNode flush.newchild,
    movedKeys flush.parent flush.slotIndex, flushedKeys flush⟩

def iGrow (growth : RootGrowth) : BetreeSpec.RootGrowth :=
  ⟨iNode growth.oldroot, growth.newchildref⟩

section SetBucket

variable {node : PNode} (inv : InvNode node) {i : Nat} {bucket bucket' : Bucket}
  (atI : node.buckets[i]? = some bucket)

include atI in
theorem weightBucketList_set (bucket' : Bucket) : weightBucketList (node.buckets.set i bucket') +
    weightBucket bucket = weightBucketList node.buckets + weightBucket bucket' := by
  have inRange := (List.getElem?_eq_some_iff.mp atI).1
  have atSet : (node.buckets.set i bucket')[i]? = some bucket' := List.getElem?_set_self inRange
  rw [weightBucketList_parts atI, weightBucketList_parts atSet, List.take_set_of_le (le_refl i),
    List.drop_set_of_lt (by omega : i < i + 1)]
  omega

include inv atI in
/-- A node keeps its invariant when one bucket and the references of its
children change. -/
theorem inv_setBucket (good : GoodBucketAt node.pivotTable i bucket')
    (children : Option (List Reference))
    (numChildren : ∀ refs, children = some refs → node.buckets.length = refs.length)
    (room : weightBucketList (node.buckets.set i bucket') ≤ Bounds.maxTotalBucketWeight) :
    InvNode ⟨node.pivotTable, children, node.buckets.set i bucket'⟩ := by
  refine invNode_of_good inv.wf.pivots ?_ ?_ (fun j other atJ => ?_) ⟨?_, room⟩
  · rw [List.length_set, inv.wf.numBuckets]
  · intro refs isRefs
    rw [List.length_set]
    exact numChildren refs isRefs
  · by_cases same : j = i
    · subst same
      rw [List.getElem?_set_self (List.getElem?_eq_some_iff.mp atI).1] at atJ
      rwa [← Option.some.inj atJ]
    · rw [List.getElem?_set_ne (Ne.symm same)] at atJ
      have good := goodBucket inv atJ
      exact good
  · rw [List.length_set]
    exact inv.wf.bounded.1

omit inv atI in
theorem iNode_buffer_setBucket (inRange : i < node.buckets.length)
    {children : Option (List Reference)} (kind : children.isSome = node.children.isSome)
    (key : Key) :
    (iNode ⟨node.pivotTable, children, node.buckets.set i bucket'⟩).buffer key =
      if BoundedKey node.pivotTable key ∧ route node.pivotTable key = i then
        some (bucketGet bucket'.asMap key * leafMessage node)
      else (iNode node).buffer key := by
  have sameLeaf : leafMessage ⟨node.pivotTable, children, node.buckets.set i bucket'⟩ =
      leafMessage node := by
    simp only [leafMessage, kind]
  rw [iNode_buffer, iNode_buffer, sameLeaf]
  by_cases bounded : BoundedKey node.pivotTable key
  · by_cases routed : route node.pivotTable key = i
    · rw [if_pos bounded, if_pos ⟨bounded, routed⟩, bucketListGet,
        List.getElem!_eq_getElem?_getD, routed, List.getElem?_set_self inRange]
      rfl
    · rw [if_pos bounded, if_pos bounded, if_neg (fun both => routed both.2), bucketListGet,
        List.getElem!_eq_getElem?_getD, List.getElem?_set_ne (Ne.symm routed),
        ← List.getElem!_eq_getElem?_getD, bucketListGet]
  · rw [if_neg bounded, if_neg bounded, if_neg (fun both => bounded both.1)]

end SetBucket

section Insert

variable {ins : MessageInsertion} (valid : ValidInsertion ins)
  (inv : InvNode ins.oldroot)

include valid inv in
theorem insert_slot : InSlot ins.oldroot.pivotTable (route ins.oldroot.pivotTable ins.key)
    (keyToElement ins.key) :=
  (routed_iff inv.wf.pivots).mp ⟨valid.boundedKey, rfl⟩

theorem insert_newroot {bucket : Bucket}
    (atRoute : ins.oldroot.buckets[route ins.oldroot.pivotTable ins.key]? = some bucket) :
    addMessageToNode ins.oldroot ins.key ins.msg =
      ⟨ins.oldroot.pivotTable, ins.oldroot.children, ins.oldroot.buckets.set
        (route ins.oldroot.pivotTable ins.key) (bucketInsert bucket ins.key ins.msg)⟩ := by
  simp only [addMessageToNode, bucketListInsert,
    List.getElem!_eq_getElem?_getD, atRoute, Option.getD_some]

include valid inv in
theorem insert_writes : InvNode (addMessageToNode ins.oldroot ins.key ins.msg) := by
  have slot := insert_slot valid inv
  obtain ⟨bucket, atRoute⟩ := exists_bucket inv.wf slot
  have good := goodBucket inv atRoute
  rw [insert_newroot atRoute]
  refine inv_setBucket inv atRoute ?_ ins.oldroot.children inv.wf.numChildren ?_
  · refine goodBucketAt_of_inSlot inv.wf.pivots (wf_bucketInsert good.wf ins.key ins.msg)
      (wellMarshalled_bucketInsert bucket ins.key ins.msg) fun key member => ?_
    rcases mem_keys_bucketInsert good.wf.1 member with rfl | present
    · exact slot
    · exact good.inSlot inv.wf.pivots present
  · have balance := weightBucketList_set atRoute (bucketInsert bucket ins.key ins.msg)
    have grows := weight_bucketInsert_le good.wf good.sorted ins.key ins.msg
    have room := valid.room
    omega

include valid inv in
theorem iNode_addMessageToNode :
    iNode (addMessageToNode ins.oldroot ins.key ins.msg) =
      BetreeSpec.addMessageToNode (iNode ins.oldroot) ins.key ins.msg := by
  obtain ⟨_, atRoute⟩ := exists_bucket inv.wf (insert_slot valid inv)
  have inRange := (List.getElem?_eq_some_iff.mp atRoute).1
  have oldMessage := iBuffer_at inv.wf (insert_slot valid inv) atRoute
  rw [insert_newroot atRoute]
  refine congrArg (BetreeSpec.Node.mk (iChildren ins.oldroot)) (funext fun other => ?_)
  change (iNode _).buffer other = (iNode ins.oldroot).buffer.update _ _ other
  rw [iNode_buffer_setBucket inRange rfl, IMap.update_eq_ite, IMap.at'_of_eq_some oldMessage]
  by_cases same : other = ins.key
  · rw [if_pos same, same, if_pos ⟨valid.boundedKey, rfl⟩, bucketGet_bucketInsert, if_pos rfl,
      mul_assoc]
    rfl
  · rw [if_neg same]
    by_cases routed : BoundedKey ins.oldroot.pivotTable other ∧
        route ins.oldroot.pivotTable other = route ins.oldroot.pivotTable ins.key
    · rw [if_pos routed, bucketGet_bucketInsert, if_neg same]
      exact (iBuffer_at inv.wf ((routed_iff inv.wf.pivots).mp routed) atRoute).symm
    · rw [if_neg routed]

end Insert

/-- The first `count` entries of the bucket `top` of the parent move into the buckets of the
child. -/
structure Flushes (flush : NodeFlush) (refs : List Reference) (top : Bucket)
    (count : Nat) (bots : List Bucket) : Prop where
  atSlot : flush.parent.buckets[flush.slotIndex]? = some top
  children : flush.parent.children = some refs
  childref : refs[flush.slotIndex]? = some flush.childref
  newparent : flush.newparent = ⟨flush.parent.pivotTable,
    some (refs.set flush.slotIndex flush.newchildref),
    flush.parent.buckets.set flush.slotIndex ⟨top.keys.drop count, top.msgs.drop count⟩⟩
  newchild : flush.newchild = ⟨flush.child.pivotTable, flush.child.children, bots⟩
  boundedKeys : BoundedKeySeq flush.child.pivotTable top.keys
  length : bots.length = flush.child.buckets.length
  slots : ∀ j bot, flush.child.buckets[j]? = some bot → ∃ bot', bots[j]? = some bot' ∧
    SlotMerged flush.child.pivotTable (top.entries.take count) j bot bot'
  childWeight : weightBucketList bots ≤ Bounds.maxTotalBucketWeight

theorem exists_flushes {flush : NodeFlush}
    (valid : ValidFlush flush) (invParent : InvNode flush.parent)
    (invChild : InvNode flush.child) : ∃ refs top count bots,
      Flushes flush refs top count bots := by
  obtain ⟨refs, children, childref, newparent⟩ := valid.childref
  obtain ⟨top, atSlot⟩ : ∃ top, flush.parent.buckets[flush.slotIndex]? = some top :=
    ⟨_, List.getElem?_eq_getElem valid.slot⟩
  have topEq : flush.parent.buckets[flush.slotIndex]! = top := by
    rw [List.getElem!_eq_getElem?_getD, atSlot, Option.getD_some]
  have good := goodBucket invParent atSlot
  have bounded := valid.boundedKeys
  have newchild := valid.newchild
  have childWeight := valid.childWeight
  rw [newchild] at childWeight
  simp only [flushResult, topEq] at newparent bounded newchild childWeight
  obtain ⟨count, rest, length, slots⟩ := partialFlush_merged good.wf good.sorted
    invChild.wf.pivots bounded invChild.wf.numBuckets.symm
    fun j bot atJ => goodBucket invChild atJ
  rw [rest] at newparent
  exact ⟨refs, top, count, _, atSlot, children, childref, newparent, newchild, bounded, length,
    slots, childWeight⟩

theorem messageAt_of_mem {entries : List (Key × Message)} (sorted : SortedEntries entries)
    {key : Key} {msg : Message} (member : (key, msg) ∈ entries) : messageAt entries key = msg := by
  have nodup : (entries.map Prod.fst).Nodup := (List.pairwise_map.mpr sorted).imp ne_of_lt
  rw [messageAt, bucketGet, (FiniteMap.lookup_ofEntries_eq_some nodup).mpr member, Option.getD_some]

theorem messageAt_sublist {entries part : List (Key × Message)} (sorted : SortedEntries entries)
    (sublist : part.Sublist entries) (key : Key) :
    messageAt part key = if key ∈ part.map Prod.fst then messageAt entries key else 1 := by
  by_cases member : key ∈ part.map Prod.fst
  · obtain ⟨⟨_, _⟩, inPart, rfl⟩ := List.mem_map.mp member
    rw [if_pos member, messageAt_of_mem (sorted.sublist sublist) inPart,
      messageAt_of_mem sorted (sublist.subset inPart)]
  · rw [if_neg member, messageAt_of_notMem member]

section Flushed

variable {top : Bucket} (wf : WFBucket top) (sorted : BucketWellMarshalled top) (count : Nat)

theorem entries_drop (top : Bucket) (count : Nat) :
    (⟨top.keys.drop count, top.msgs.drop count⟩ : Bucket).entries = top.entries.drop count := by
  exact (List.drop_zipWith (f := Prod.mk)).symm

include wf in
include wf in
theorem wf_drop : WFBucket ⟨top.keys.drop count, top.msgs.drop count⟩ := by
  refine ⟨?_, fun msg member => wf.2 msg (List.mem_of_mem_drop member)⟩
  rw [PreWFBucket, List.length_drop, List.length_drop, wf.1]

include sorted in
theorem mem_drop_iff {key : Key} :
    key ∈ top.keys.drop count ↔ key ∈ top.keys ∧ key ∉ top.keys.take count := by
  have nodup : top.keys.Nodup := sorted.imp ne_of_lt
  have parts := List.take_append_drop count top.keys
  rw [← parts] at nodup
  have disjoint := (List.nodup_append.mp nodup).2.2
  constructor
  · exact fun inDrop => ⟨List.mem_of_mem_drop inDrop, fun inTake => disjoint _ inTake _ inDrop rfl⟩
  · rintro ⟨member, notTaken⟩
    rw [← parts] at member
    exact (List.mem_append.mp member).resolve_left notTaken

include wf sorted in
theorem bucketGet_drop (key : Key) :
    bucketGet (⟨top.keys.drop count, top.msgs.drop count⟩ : Bucket).asMap key =
      if key ∈ top.keys.take count then 1 else bucketGet top.asMap key := by
  split_ifs with taken
  · exact bucketGet_of_notMem (wf_drop wf count).1
      fun inDrop => ((mem_drop_iff sorted count).mp inDrop).2 taken
  · by_cases member : key ∈ top.keys
    · have inDrop := (mem_drop_iff sorted count).mpr ⟨member, taken⟩
      rw [← map_fst_entries wf.1, ← List.map_drop] at inDrop
      have whole := messageAt_sublist (wfEntries_entries wf sorted).sorted
        (List.drop_sublist count top.entries) key
      rw [if_pos inDrop, ← entries_drop] at whole
      exact whole
    · rw [bucketGet_of_notMem wf.1 member]
      exact bucketGet_of_notMem (wf_drop wf count).1
        fun inDrop => member (List.mem_of_mem_drop inDrop)

include wf sorted in
/-- The flushed entries of a slot give a key of the slot its message in the
bucket of the parent. -/
theorem messageAt_slotEntries {pivots : PivotTable} {j : Nat} {key : Key}
    (routed : route pivots key = j) :
    messageAt (slotEntries pivots j (top.entries.take count)) key =
      if key ∈ top.keys.take count then bucketGet top.asMap key else 1 := by
  have member : key ∈ (slotEntries pivots j (top.entries.take count)).map Prod.fst ↔
      key ∈ top.keys.take count := by
    rw [← map_fst_entries wf.1, ← List.map_take, slotEntries]
    constructor
    · exact fun inSlot => (List.filter_sublist.map Prod.fst).subset inSlot
    · intro taken
      obtain ⟨entry, inTake, rfl⟩ := List.mem_map.mp taken
      exact List.mem_map.mpr ⟨entry, List.mem_filter.mpr ⟨inTake, decide_eq_true routed⟩, rfl⟩
  have sublist : (slotEntries pivots j (top.entries.take count)).Sublist top.entries :=
    List.filter_sublist.trans (List.take_sublist count top.entries)
  rw [messageAt_sublist (wfEntries_entries wf sorted).sorted sublist]
  by_cases taken : key ∈ top.keys.take count
  · rw [if_pos taken, if_pos (member.mpr taken)]
    rfl
  · rw [if_neg taken, if_neg (fun inSlot => taken (member.mp inSlot))]

end Flushed

theorem mem_support_asMap {bucket : Bucket} (pre : PreWFBucket bucket) {key : Key} :
    key ∈ bucket.asMap.support ↔ key ∈ bucket.keys := by
  rw [FiniteMap.mem_support, ← not_iff_not, Option.not_isSome_iff_eq_none, lookup_asMap_eq_none pre]

section Flush

variable {flush : NodeFlush} {refs : List Reference} {top : Bucket}
  {count : Nat} {bots : List Bucket} (does : Flushes flush refs top count bots)
  (invParent : InvNode flush.parent) (invChild : InvNode flush.child)

include does invParent

theorem mem_flushedKeys {key : Key} : key ∈ flushedKeys flush ↔ key ∈ top.keys.take count := by
  have good := goodBucket invParent does.atSlot
  have inRange := (List.getElem?_eq_some_iff.mp does.atSlot).1
  have old : flush.parent.buckets[flush.slotIndex]! = top := by
    rw [List.getElem!_eq_getElem?_getD, does.atSlot, Option.getD_some]
  have new : flush.newparent.buckets[flush.slotIndex]! =
      ⟨top.keys.drop count, top.msgs.drop count⟩ := by
    rw [does.newparent, List.getElem!_eq_getElem?_getD, List.getElem?_set_self inRange,
      Option.getD_some]
  rw [flushedKeys, Set.mem_ofPred_eq, old, new, mem_support_asMap good.wf.1,
    mem_support_asMap (wf_drop good.wf count).1, mem_drop_iff good.sorted]
  constructor
  · rintro ⟨present, gone⟩
    by_contra notTaken
    exact gone ⟨present, notTaken⟩
  · exact fun taken => ⟨List.mem_of_mem_take taken, fun rest => rest.2 taken⟩

theorem flushed_slot {key : Key} (flushed : key ∈ flushedKeys flush) :
    InSlot flush.parent.pivotTable flush.slotIndex (keyToElement key) :=
  (goodBucket invParent does.atSlot).inSlot invParent.wf.pivots
    (List.mem_of_mem_take ((mem_flushedKeys does invParent).mp flushed))

theorem flush_newparent_inv
    (lighter : weightBucket ⟨top.keys.drop count, top.msgs.drop count⟩ ≤ weightBucket top) :
    InvNode flush.newparent := by
  have good := goodBucket invParent does.atSlot
  rw [does.newparent]
  refine inv_setBucket invParent does.atSlot ?_ _ ?_ ?_
  · refine goodBucketAt_of_inSlot invParent.wf.pivots (wf_drop good.wf count)
      (good.sorted.sublist (List.drop_sublist _ _)) fun key member => ?_
    exact good.inSlot invParent.wf.pivots (List.mem_of_mem_drop member)
  · intro refs' isRefs
    rw [← Option.some.inj isRefs, List.length_set]
    exact invParent.wf.numChildren refs does.children
  · have balance := weightBucketList_set does.atSlot ⟨top.keys.drop count, top.msgs.drop count⟩
    have room := invParent.wf.bounded.2
    omega

omit invParent in
open Classical in
theorem flush_newparent_children (key : Key) :
    (iNode flush.newparent).children key = ((iNode flush.parent).children key).map
      fun child => if key ∈ movedKeys flush.parent flush.slotIndex then flush.newchildref
        else child := by
  have inRange := (List.getElem?_eq_some_iff.mp does.childref).1
  rw [does.newparent, iNode_children, iNode_children, does.children]
  by_cases bounded : BoundedKey flush.parent.pivotTable key
  · rw [if_pos bounded, if_pos bounded, Option.bind_some, Option.bind_some]
    by_cases routed : route flush.parent.pivotTable key = flush.slotIndex
    · have moved : key ∈ movedKeys flush.parent flush.slotIndex := ⟨bounded, routed⟩
      rw [routed, List.getElem?_set_self inRange, does.childref, Option.map_some, if_pos moved]
    · have stays : key ∉ movedKeys flush.parent flush.slotIndex := fun moved => routed moved.2
      simp only [List.getElem?_set_ne (Ne.symm routed), stays, if_false, Option.map_id_fun', id_eq]
  · rw [if_neg bounded, if_neg bounded, Option.map_none]

open Classical in
theorem flush_newparent_buffer (key : Key) :
    (iNode flush.newparent).buffer key =
      some (if key ∈ flushedKeys flush then 1 else (iNode flush.parent).buffer.at' key) := by
  have good := goodBucket invParent does.atSlot
  have inRange := (List.getElem?_eq_some_iff.mp does.atSlot).1
  have old := iNode_buffer flush.parent key
  rw [does.newparent, iNode_buffer_setBucket inRange (by rw [does.children]; rfl)]
  by_cases routed : BoundedKey flush.parent.pivotTable key ∧
      route flush.parent.pivotTable key = flush.slotIndex
  · have oldMessage := iBuffer_at invParent.wf ((routed_iff invParent.wf.pivots).mp routed)
      does.atSlot
    rw [if_pos routed, bucketGet_drop good.wf good.sorted, IMap.at'_of_eq_some oldMessage]
    by_cases taken : key ∈ top.keys.take count
    · rw [if_pos taken, if_pos ((mem_flushedKeys does invParent).mpr taken), leafMessage,
        does.children]
      rfl
    · rw [if_neg taken, if_neg (fun flushed => taken ((mem_flushedKeys does invParent).mp flushed))]
  · have notFlushed : key ∉ flushedKeys flush := fun flushed =>
      routed ((routed_iff invParent.wf.pivots).mpr (flushed_slot does invParent flushed))
    rw [if_neg routed, if_neg notFlushed, IMap.at'_of_eq_some old, old]

include invChild

theorem flush_newchild_inv : InvNode flush.newchild := by
  have goodTop := goodBucket invParent does.atSlot
  rw [does.newchild]
  refine invNode_of_good invChild.wf.pivots ?_ ?_ (fun j bot' atJ => ?_) ⟨?_, does.childWeight⟩
  · rw [does.length, invChild.wf.numBuckets]
  · intro refs' isRefs
    rw [does.length]
    exact invChild.wf.numChildren refs' isRefs
  · have inRange := (List.getElem?_eq_some_iff.mp atJ).1
    rw [does.length] at inRange
    have atBot := List.getElem?_eq_getElem inRange
    obtain ⟨_, atJ', merged⟩ := does.slots j _ atBot
    rw [atJ'] at atJ
    rw [← Option.some.inj atJ]
    exact merged.good goodTop.wf invChild.wf.pivots does.boundedKeys (goodBucket invChild atBot)
  · rw [does.length]
    exact invChild.wf.bounded.1

open Classical in
theorem flush_newchild_buffer (key : Key) :
    (iNode flush.newchild).buffer key =
      some (if key ∈ flushedKeys flush then
          (iNode flush.parent).buffer.at' key * (iNode flush.child).buffer.at' key
        else (iNode flush.child).buffer.at' key) := by
  have goodTop := goodBucket invParent does.atSlot
  have invNew := flush_newchild_inv does invParent invChild
  have sameTable : flush.newchild.pivotTable = flush.child.pivotTable := by rw [does.newchild]
  by_cases bounded : BoundedKey flush.child.pivotTable key
  · have slot := (routed_iff invChild.wf.pivots).mp ⟨bounded, rfl⟩
    obtain ⟨bot, atBot⟩ := exists_bucket invChild.wf slot
    obtain ⟨bot', atBot', merged⟩ := does.slots _ bot atBot
    have childMessage := iBuffer_at invChild.wf slot atBot
    have newMessage := iBuffer_at invNew.wf (sameTable ▸ slot)
      (by rw [does.newchild]; exact atBot')
    have sameLeaf : leafMessage flush.newchild = leafMessage flush.child := by
      rw [does.newchild]
      rfl
    have mergedMessage : bucketGet bot'.asMap key = _ * bucketGet bot.asMap key :=
      merged.merged.message key
    rw [messageAt_slotEntries goodTop.wf goodTop.sorted count rfl] at mergedMessage
    rw [newMessage, mergedMessage, sameLeaf, IMap.at'_of_eq_some childMessage]
    by_cases flushed : key ∈ flushedKeys flush
    · have parentMessage := iBuffer_at invParent.wf (flushed_slot does invParent flushed)
        does.atSlot
      have parentLeaf : leafMessage flush.parent = 1 := by
        rw [leafMessage, does.children]
        rfl
      rw [if_pos ((mem_flushedKeys does invParent).mp flushed), if_pos flushed,
        IMap.at'_of_eq_some parentMessage, parentLeaf, mul_one, mul_assoc]
    · rw [if_neg (fun taken => flushed ((mem_flushedKeys does invParent).mpr taken)),
        if_neg flushed, one_mul]
  · have notFlushed : key ∉ flushedKeys flush := fun flushed => bounded
      (does.boundedKeys key (List.mem_of_mem_take ((mem_flushedKeys does invParent).mp flushed)))
    have old := iNode_buffer flush.child key
    rw [if_neg bounded] at old
    rw [if_neg notFlushed, IMap.at'_of_eq_some old, iNode_buffer, sameTable, if_neg bounded]

theorem flush_refines : BetreeSpec.ValidFlush (iFlush flush) where
  parentWF := wf_iNode invParent.wf
  childWF := wf_iNode invChild.wf
  flushedMoved _ flushed :=
    (routed_iff invParent.wf.pivots).mpr (flushed_slot does invParent flushed)
  movedChild key moved := (iChildren_eq_some invParent.wf).mpr
    ⟨refs, _, does.children, (routed_iff invParent.wf.pivots).mp moved, does.childref⟩
  newparentChildren := funext (flush_newparent_children does)
  newparentBuffer := funext (flush_newparent_buffer does invParent)
  newchildChildren := by
    change (iNode flush.newchild).children = _
    rw [does.newchild]
    rfl
  newchildBuffer := funext (flush_newchild_buffer does invParent invChild)

end Flush

theorem inSlot_initPivotTable (key : Key) : InSlot initPivotTable 0 (keyToElement key) :=
  ⟨keyToElement emptyKey, ⊤, rfl, rfl, WithTop.coe_le_coe.mpr (emptyKey_le key),
    WithTop.coe_lt_top key⟩

theorem inv_newroot (children : Option Reference) :
    InvNode ⟨initPivotTable, children.map ([·]), [emptyBucket]⟩ := by
  have fanout : [emptyBucket].length ≤ Bounds.maxNumChildren := by decide
  have weight : weightBucketList [emptyBucket] ≤ Bounds.maxTotalBucketWeight := by decide
  refine invNode_of_good wf_initPivotTable rfl ?_ (fun i bucket atI => ?_) ⟨fanout, weight⟩
  · intro refs isRefs
    obtain ⟨_, _, rfl⟩ := Option.map_eq_some_iff.mp isRefs
    rfl
  · obtain rfl : bucket = emptyBucket := List.mem_singleton.mp (List.mem_of_getElem? atI)
    refine goodBucketAt_of_inSlot wf_initPivotTable wf_emptyBucket wellMarshalled_emptyBucket ?_
    intro key member
    cases member

theorem iNode_newroot (ref : Reference) :
    iNode ⟨initPivotTable, some [ref], [emptyBucket]⟩ =
      ⟨IMap.const ref, IMap.const (.update ValueMessage.nopDelta)⟩ := by
  have inv := inv_newroot (some ref)
  have children : ∀ key, (iNode ⟨initPivotTable, some [ref], [emptyBucket]⟩).children key =
      some ref := fun key => iChildren_at inv.wf (inSlot_initPivotTable key)
  have buffer : ∀ key, (iNode ⟨initPivotTable, some [ref], [emptyBucket]⟩).buffer key =
      some (.update ValueMessage.nopDelta) := fun key =>
    iBuffer_at inv.wf (inSlot_initPivotTable key) rfl
  exact congrArg₂ BetreeSpec.Node.mk (funext children) (funext buffer)

end VerifiedBetrfs.PivotBetreeSpecRefinement
