import VerifiedBetrfs.BetreeSpec
import VerifiedBetrfs.PivotBetreeSpec

/-!
# Pivot nodes as abstract nodes

A pivot node routes a key to the child of its slot, and gives it the message of the bucket of its
slot.
-/

namespace VerifiedBetrfs.PivotBetreeSpecRefinement

open ValueMessage (defineDefault)
open BoundedPivotsLib SortedSearch BucketMaps BucketsLib BucketWeights

open PivotBetreeSpec (BoundedNode InvNode Node ValidSplitKey WFNode cutoffNode cutoffNodeAndKeepLeft
  cutoffNodeAndKeepRight splitChildLeft splitChildRight)

abbrev PNode := Node

def iChildren (node : PNode) : IMap Key Reference := fun key =>
  if BoundedKey node.pivotTable key then
    node.children.bind fun refs => refs[route node.pivotTable key]?
  else
    none

def iBufferInternal (node : PNode) : BetreeSpec.Buffer := fun key =>
  some (if BoundedKey node.pivotTable key then
      bucketListGet node.buckets node.pivotTable key
    else defineDefault)

def iBufferLeaf (node : PNode) : BetreeSpec.Buffer := fun key =>
  some (if BoundedKey node.pivotTable key then
      (bucketListGet node.buckets node.pivotTable key).merge defineDefault
    else defineDefault)

def iBuffer (node : PNode) : BetreeSpec.Buffer :=
  if node.children.isSome then iBufferInternal node else iBufferLeaf node

/-- The abstract node. -/
def iNode (node : PNode) : BetreeSpec.Node := ⟨iChildren node, iBuffer node⟩

/-- The message below the bucket of a key. -/
def leafMessage (node : PNode) : Message :=
  if node.children.isSome then 1 else defineDefault

theorem iNode_children (node : PNode) (key : Key) :
    (iNode node).children key = if BoundedKey node.pivotTable key then
        node.children.bind fun refs => refs[route node.pivotTable key]?
      else none := rfl

theorem iNode_buffer (node : PNode) (key : Key) :
    (iNode node).buffer key = some (if BoundedKey node.pivotTable key then
        bucketListGet node.buckets node.pivotTable key * leafMessage node
      else defineDefault) := by
  rw [iNode, iBuffer, leafMessage]
  split
  · rw [mul_one]
    rfl
  · rfl

section Slot

variable {node : PNode} {idx : Nat} {key : Key}

section

variable (wf : WFNode node)

include wf

section

variable (slot : InSlot node.pivotTable idx (keyToElement key))

include slot

theorem iChildren_at : (iNode node).children key = node.children.bind (·[idx]?) := by
  obtain ⟨bounded, rfl⟩ := (routed_iff wf.pivots).mpr slot
  exact if_pos bounded

theorem iBuffer_at {bucket : Bucket} (atBucket : node.buckets[idx]? = some bucket) :
    (iNode node).buffer key = some (bucketGet bucket.asMap key * leafMessage node) := by
  obtain ⟨bounded, rfl⟩ := (routed_iff wf.pivots).mpr slot
  rw [iNode_buffer, if_pos bounded, bucketListGet, List.getElem!_eq_getElem?_getD, atBucket,
    Option.getD_some]

theorem exists_bucket : ∃ bucket, node.buckets[idx]? = some bucket := by
  have inRange := inSlot_lt_numBuckets slot
  rw [wf.numBuckets] at inRange
  exact ⟨_, List.getElem?_eq_getElem inRange⟩

theorem exists_child {refs : List Reference} (children : node.children = some refs) :
    ∃ ref, refs[idx]? = some ref := by
  have inRange := inSlot_lt_numBuckets slot
  rw [wf.numBuckets, wf.numChildren refs children] at inRange
  exact ⟨_, List.getElem?_eq_getElem inRange⟩

end

theorem iChildren_eq_some {ref : Reference} :
    (iNode node).children key = some ref ↔ ∃ refs idx, node.children = some refs ∧
      InSlot node.pivotTable idx (keyToElement key) ∧ refs[idx]? = some ref := by
  constructor
  · intro child
    by_cases bounded : BoundedKey node.pivotTable key
    · obtain ⟨idx, slot⟩ := (boundedKey_iff wf.pivots).mp bounded
      rw [iChildren_at wf slot] at child
      obtain ⟨refs, children, atIdx⟩ := Option.bind_eq_some_iff.mp child
      exact ⟨refs, idx, children, slot, atIdx⟩
    · rw [iNode_children, if_neg bounded] at child
      cases child
  · rintro ⟨refs, idx, children, slot, atIdx⟩
    rw [iChildren_at wf slot, children, Option.bind_some, atIdx]

end

end Slot

variable {node : PNode} {first second : BetreeSpec.Node} {key : Key} {i : Nat} {bucket : Bucket}
  {part : PNode} {keep : Key → Prop}

theorem wf_iNode (wf : WFNode node) : BetreeSpec.WFNode (iNode node) := by
  refine ⟨fun key => ⟨_, iNode_buffer node key⟩, fun key noChild => ?_⟩
  rw [IMap.at'_of_eq_some (iNode_buffer node key)]
  split_ifs with bounded
  · obtain ⟨idx, slot⟩ := (boundedKey_iff wf.pivots).mp bounded
    cases children : node.children with
    | none =>
      rw [leafMessage, children]
      exact MessageOf.IsDefine.mul _ trivial
    | some refs =>
      obtain ⟨ref, atIdx⟩ := exists_child wf slot children
      exact absurd ⟨ref, (iChildren_eq_some wf).mpr ⟨refs, idx, children, slot, atIdx⟩⟩ noChild
  · trivial

/-- Two abstract nodes say the same about a key. -/
structure AgreeAt (first second : BetreeSpec.Node) (key : Key) : Prop where
  children : first.children.AgreeOnKey second.children key
  buffer : first.buffer.AgreeOnKey second.buffer key

theorem AgreeAt.symm (agree : AgreeAt first second key) : AgreeAt second first key :=
  ⟨agree.children.symm, agree.buffer.symm⟩

theorem AgreeAt.trans {third : BetreeSpec.Node} (agree : AgreeAt first second key)
    (agree' : AgreeAt second third key) : AgreeAt first third key :=
  ⟨agree.children.trans agree'.children, agree.buffer.trans agree'.buffer⟩

/-- Nodes agree on a key whose slots hold the same child and whose buckets give
it the same message. -/
theorem agreeAt_of_slots {node node' : PNode} (wf : WFNode node) (wf' : WFNode node')
    {idx idx' : Nat} (slot : InSlot node.pivotTable idx (keyToElement key))
    (slot' : InSlot node'.pivotTable idx' (keyToElement key))
    (kind : node.children.isSome = node'.children.isSome)
    (child : node.children.bind (·[idx]?) = node'.children.bind (·[idx']?))
    (message : ∀ bucket bucket', node.buckets[idx]? = some bucket →
      node'.buckets[idx']? = some bucket' →
        bucketGet bucket.asMap key = bucketGet bucket'.asMap key) :
    AgreeAt (iNode node) (iNode node') key := by
  obtain ⟨bucket, atBucket⟩ := exists_bucket wf slot
  obtain ⟨bucket', atBucket'⟩ := exists_bucket wf' slot'
  constructor
  · rw [IMap.AgreeOnKey, iChildren_at wf slot, iChildren_at wf' slot', child]
  · rw [IMap.AgreeOnKey, iBuffer_at wf slot atBucket, iBuffer_at wf' slot' atBucket',
      message bucket bucket' atBucket atBucket', leafMessage, leafMessage, kind]

theorem invNode_of_good (pivots : WFPivots node.pivotTable)
    (length : node.buckets.length = numBuckets node.pivotTable)
    (children : ∀ refs, node.children = some refs → node.buckets.length = refs.length)
    (good : ∀ i bucket, node.buckets[i]? = some bucket → GoodBucketAt node.pivotTable i bucket)
    (bounded : BoundedNode node) : InvNode node := by
  have wfBuckets : WFBucketList node.buckets node.pivotTable := by
    refine ⟨pivots, length, fun bucket member => ?_⟩
    obtain ⟨i, atI⟩ := List.mem_iff_getElem?.mp member
    exact (good i bucket atI).wf
  refine ⟨⟨length.symm, children, pivots, wfBuckets, bounded⟩,
    ⟨wfBuckets, fun i bucket atI => (good i bucket atI).wfAt⟩, fun bucket member => ?_⟩
  obtain ⟨i, atI⟩ := List.mem_iff_getElem?.mp member
  exact (good i bucket atI).sorted

theorem goodBucket (inv : InvNode node) (atI : node.buckets[i]? = some bucket) :
    GoodBucketAt node.pivotTable i bucket :=
  ⟨inv.proper.2 i bucket atI, inv.wellMarshalled bucket (List.mem_of_getElem? atI)⟩

theorem goodBucket_moved (inv : InvNode node) {pt : PivotTable} (pivots : WFPivots pt) {j : Nat}
    (atI : node.buckets[i]? = some bucket)
    (moved : ∀ key ∈ bucket.keys, InSlot node.pivotTable i (keyToElement key) →
      InSlot pt j (keyToElement key)) : GoodBucketAt pt j bucket :=
  goodBucketAt_of_inSlot pivots (goodBucket inv atI).wf (goodBucket inv atI).sorted
    fun key member => moved key member ((goodBucket inv atI).inSlot inv.wf.pivots member)

theorem weightBucketList_parts {buckets : BucketList} (atI : buckets[i]? = some bucket) :
    weightBucketList buckets = weightBucketList (buckets.take i) + weightBucket bucket +
      weightBucketList (buckets.drop (i + 1)) := by
  obtain ⟨inRange, rfl⟩ := List.getElem?_eq_some_iff.mp atI
  conv_lhs => rw [← List.take_append_drop i buckets, List.drop_eq_getElem_cons inRange]
  rw [weightBucketList_append, weightBucketList_cons, Nat.add_assoc]

theorem weightBucketList_take_drop (buckets : BucketList) (i : Nat) :
    weightBucketList (buckets.take i) + weightBucketList (buckets.drop i) =
      weightBucketList buckets := by
  rw [← weightBucketList_append, List.take_append_drop]

/-- `part` is the part of `node` on the keys that satisfy `keep`. -/
structure Restricts (node part : PNode) (keep : Key → Prop) : Prop where
  inv : InvNode part
  bounded : ∀ key, BoundedKey part.pivotTable key ↔ BoundedKey node.pivotTable key ∧ keep key
  agree : ∀ key, BoundedKey part.pivotTable key → AgreeAt (iNode part) (iNode node) key
  kind : part.children.isSome = node.children.isSome
  fanout : part.buckets.length ≤ node.buckets.length
  weight : weightBucketList part.buckets ≤ weightBucketList node.buckets

theorem Restricts.trans {node part' : PNode} {keep' : Key → Prop} (first : Restricts node part keep)
    (second : Restricts part part' keep') :
    Restricts node part' fun key => keep key ∧ keep' key where
  inv := second.inv
  bounded key := by rw [second.bounded, first.bounded, and_assoc]
  agree key bounded :=
    (second.agree key bounded).trans (first.agree key ((second.bounded key).mp bounded).1)
  kind := second.kind.trans first.kind
  fanout := le_trans second.fanout first.fanout
  weight := le_trans second.weight first.weight

/-- The slots of `part` are those of `node` from `offset` on, each cut down to the keys with
`keep`. -/
structure SlotwisePart (node part : PNode) (offset : Nat) (keep : Key → Prop) : Prop where
  pivots : WFPivots part.pivotTable
  length : part.buckets.length = numBuckets part.pivotTable
  numChildren : ∀ refs, part.children = some refs → part.buckets.length = refs.length
  slots : ∀ i key, InSlot part.pivotTable i (keyToElement key) ↔
    InSlot node.pivotTable (offset + i) (keyToElement key) ∧ keep key
  covered : ∀ i key, InSlot node.pivotTable i (keyToElement key) → keep key → offset ≤ i
  good : ∀ i bucket, part.buckets[i]? = some bucket → GoodBucketAt part.pivotTable i bucket
  kind : part.children.isSome = node.children.isSome
  child : ∀ i, i < part.buckets.length →
    part.children.bind (·[i]?) = node.children.bind (·[offset + i]?)
  message : ∀ i key bucket bucket', InSlot part.pivotTable i (keyToElement key) →
    part.buckets[i]? = some bucket' → node.buckets[offset + i]? = some bucket →
      bucketGet bucket'.asMap key = bucketGet bucket.asMap key
  fanout : part.buckets.length ≤ node.buckets.length
  weight : weightBucketList part.buckets ≤ weightBucketList node.buckets

theorem SlotwisePart.restricts {node : PNode} {offset : Nat}
    (slotwise : SlotwisePart node part offset keep) (inv : InvNode node) :
    Restricts node part keep := by
  have bounds : BoundedNode part :=
    ⟨le_trans slotwise.fanout inv.wf.bounded.1, le_trans slotwise.weight inv.wf.bounded.2⟩
  have inv' : InvNode part := invNode_of_good slotwise.pivots slotwise.length
    slotwise.numChildren slotwise.good bounds
  refine ⟨inv', fun key => ?_, fun key bounded => ?_, slotwise.kind, slotwise.fanout,
    slotwise.weight⟩
  · rw [boundedKey_iff slotwise.pivots, boundedKey_iff inv.wf.pivots]
    constructor
    · rintro ⟨i, slot⟩
      obtain ⟨slot', kept⟩ := (slotwise.slots i key).mp slot
      exact ⟨⟨_, slot'⟩, kept⟩
    · rintro ⟨⟨i, slot⟩, kept⟩
      obtain ⟨j, rfl⟩ := Nat.exists_eq_add_of_le (slotwise.covered i key slot kept)
      exact ⟨j, (slotwise.slots j key).mpr ⟨slot, kept⟩⟩
  · obtain ⟨i, slot⟩ := (boundedKey_iff slotwise.pivots).mp bounded
    have inRange := inSlot_lt_numBuckets slot
    rw [← slotwise.length] at inRange
    refine agreeAt_of_slots inv'.wf inv.wf slot ((slotwise.slots i key).mp slot).1 slotwise.kind
      (slotwise.child i inRange) fun bucket' bucket atPart atNode => ?_
    exact slotwise.message i key bucket bucket' slot atPart atNode

/-- What cutting at a key leaves of a bucket. -/
structure BucketPart (bucket part : Bucket) (keep : Key → Prop) : Prop where
  wf : WFBucket part
  sorted : BucketWellMarshalled part
  keys : ∀ key ∈ part.keys, key ∈ bucket.keys ∧ keep key
  message : ∀ key, keep key → bucketGet part.asMap key = bucketGet bucket.asMap key

section Parts

variable {node part : PNode} (inv : InvNode node) {keep : Key → Prop} {cut : Nat}

include inv

theorem bucketPart_self {i : Nat} {bucket : Bucket} (atI : node.buckets[i]? = some bucket)
    (kept : ∀ key, InSlot node.pivotTable i (keyToElement key) → keep key) :
    BucketPart bucket bucket keep where
  wf := (goodBucket inv atI).wf
  sorted := (goodBucket inv atI).sorted
  keys key member := ⟨member, kept key ((goodBucket inv atI).inSlot inv.wf.pivots member)⟩
  message _ _ := rfl

variable (pivots : WFPivots part.pivotTable)
    (weight : weightBucketList part.buckets ≤ weightBucketList node.buckets)

include pivots weight

section

variable (slots : ∀ i key, InSlot part.pivotTable i (keyToElement key) ↔
      InSlot node.pivotTable (cut + i) (keyToElement key) ∧ keep key)
    (covered : ∀ i key, InSlot node.pivotTable i (keyToElement key) → keep key → cut ≤ i)
    (parts : ∀ i bucket', part.buckets[i]? = some bucket' →
      ∃ bucket, node.buckets[cut + i]? = some bucket ∧ BucketPart bucket bucket' keep)

include slots covered parts

theorem SlotwisePart.of_parts (length : part.buckets.length = numBuckets part.pivotTable)
    (numChildren : ∀ refs, part.children = some refs → part.buckets.length = refs.length)
    (kind : part.children.isSome = node.children.isSome)
    (child : ∀ i, i < part.buckets.length →
      part.children.bind (·[i]?) = node.children.bind (·[cut + i]?))
    (fanout : part.buckets.length ≤ node.buckets.length) :
    SlotwisePart node part cut keep := by
  refine ⟨pivots, length, numChildren, slots, covered, fun i bucket' atPart => ?_, kind, child,
    fun i key bucket bucket' slot atPart atNode => ?_, fanout, weight⟩
  · obtain ⟨bucket, atNode, isPart⟩ := parts i bucket' atPart
    refine goodBucketAt_of_inSlot pivots isPart.wf isPart.sorted fun key member => ?_
    obtain ⟨present, kept⟩ := isPart.keys key member
    exact (slots i key).mpr ⟨(goodBucket inv atNode).inSlot inv.wf.pivots present, kept⟩
  · obtain ⟨_, atNode', isPart⟩ := parts i bucket' atPart
    obtain rfl := Option.mem_unique atNode atNode'
    exact isPart.message key ((slots i key).mp slot).2

theorem restricts_of_drop (bound : cut ≤ node.buckets.length)
    (table : part.pivotTable.length = node.pivotTable.length - cut)
    (children : part.children = node.children.map (·.drop cut))
    (length : part.buckets.length = node.buckets.length - cut) : Restricts node part keep := by
  refine (SlotwisePart.of_parts inv pivots weight slots covered parts ?_ ?_
    (by simp [children]) ?_ (length ▸ Nat.sub_le _ _)).restricts inv
  · have tableLength := inv.wf.numBuckets
    rw [numBuckets] at tableLength ⊢
    omega
  · intro refs isRefs
    obtain ⟨refs', isRefs', rfl⟩ := Option.map_eq_some_iff.mp (children ▸ isRefs)
    rw [length, List.length_drop, inv.wf.numChildren refs' isRefs']
  · intro i _
    rw [children]
    cases node.children with
    | none => rfl
    | some refs => simp

end

theorem restricts_of_take (bound : cut ≤ node.buckets.length)
    (table : part.pivotTable.length = cut + 1)
    (children : part.children = node.children.map (·.take cut))
    (length : part.buckets.length = cut)
    (slots : ∀ i key, InSlot part.pivotTable i (keyToElement key) ↔
      InSlot node.pivotTable i (keyToElement key) ∧ keep key)
    (parts : ∀ (i : Nat) bucket', part.buckets[i]? = some bucket' →
      ∃ bucket, node.buckets[i]? = some bucket ∧ BucketPart bucket bucket' keep) :
    Restricts node part keep := by
  refine (@SlotwisePart.of_parts _ _ inv _ 0 pivots weight ?_ (fun _ _ _ _ => Nat.zero_le _)
    ?_ ?_ ?_ (by simp [children]) ?_ (length ▸ bound)).restricts inv
  · simpa only [Nat.zero_add] using slots
  · simpa only [Nat.zero_add] using parts
  · rw [length, numBuckets, table, Nat.add_sub_cancel]
  · intro refs isRefs
    obtain ⟨refs', isRefs', rfl⟩ := Option.map_eq_some_iff.mp (children ▸ isRefs)
    have := inv.wf.numChildren refs' isRefs'
    rw [length, List.length_take]
    omega
  · intro i inRange
    rw [length] at inRange
    rw [children, Nat.zero_add]
    cases node.children with
    | none => rfl
    | some refs => simp [inRange]

end Parts

theorem getElem?_take_concat {α : Type} {l : List α} {cut : Nat} (bound : cut ≤ l.length)
    (x : α) (i : Nat) :
    (l.take cut ++ [x])[i]? = if i < cut then l[i]? else if i = cut then some x else none := by
  have length : (l.take cut).length = cut := List.length_take_of_le bound
  rw [List.getElem?_append, length, List.getElem?_take]
  split
  · rfl
  · rename_i beyond
    split_ifs with same
    · simp [same]
    · exact List.getElem?_eq_none (by simp; omega)

section CutoffLeft

variable {node : PNode} (inv : InvNode node) {pivot : Key}
  (valid : ValidLeftCutOffKey node.pivotTable pivot)

include inv valid

theorem cutoffForLeft_lt : cutoffForLeft node.pivotTable pivot < node.buckets.length := by
  obtain ⟨_, _, _, atHigh, _⟩ := exists_cutoffForLeft inv.wf.pivots valid
  have := (List.getElem?_eq_some_iff.mp atHigh).1
  rw [← inv.wf.numBuckets, numBuckets]
  omega

/-- A bucket of the cut node is an old bucket before the cut, or the left half
of the bucket at the cut. -/
theorem cutoffLeft_bucket (i : Nat) (bucket' : Bucket)
    (atI : (cutoffNodeAndKeepLeft node pivot).buckets[i]? = some bucket') :
    ∃ bucket, node.buckets[i]? = some bucket ∧ BucketPart bucket bucket' (· < pivot) := by
  have cutLt := cutoffForLeft_lt inv valid
  simp only [cutoffNodeAndKeepLeft, splitBucketListLeft,
    getElem?_take_concat (le_of_lt cutLt)] at atI
  split at atI
  · rename_i before
    refine ⟨bucket', atI, bucketPart_self inv atI fun key slot => ?_⟩
    obtain ⟨_, _, atLow, _, lower, _⟩ := exists_cutoffForLeft inv.wf.pivots valid
    obtain ⟨_, _, _, atNext, _, less⟩ := slot
    have nextLe := getElem?_le inv.wf.pivots.sorted atNext atLow before
    exact WithTop.coe_lt_coe.mp (lt_trans (lt_of_lt_of_le less nextLe) lower)
  · split at atI
    · rename_i same
      rw [getElem!_pos node.buckets _ cutLt] at atI
      obtain rfl := Option.some.inj atI
      have atNode := List.getElem?_eq_getElem cutLt
      have good := goodBucket inv atNode
      exact ⟨_, same ▸ atNode, wf_splitBucketLeft good.wf pivot,
        wellMarshalled_splitBucketLeft good.sorted pivot,
        fun _ => mem_keys_splitBucketLeft good.sorted,
        fun _ => bucketGet_splitBucketLeft good.wf good.sorted⟩
    · cases atI

theorem cutoffLeft_weight :
    weightBucketList (cutoffNodeAndKeepLeft node pivot).buckets ≤
      weightBucketList node.buckets := by
  have cutLt := cutoffForLeft_lt inv valid
  have split := weightBucket_split node.buckets[cutoffForLeft node.pivotTable pivot] pivot
  rw [weightBucketList_parts (List.getElem?_eq_getElem cutLt)]
  simp only [cutoffNodeAndKeepLeft, splitBucketListLeft,
    weightBucketList_append, weightBucketList_cons, weightBucketList_nil]
  rw [getElem!_pos node.buckets (cutoffForLeft node.pivotTable pivot) cutLt]
  omega

theorem restricts_cutoffNodeAndKeepLeft :
    Restricts node (cutoffNodeAndKeepLeft node pivot) (· < pivot) := by
  have cutLt := cutoffForLeft_lt inv valid
  have tableLength := inv.wf.numBuckets
  rw [numBuckets] at tableLength
  refine restricts_of_take inv (inv.wf.pivots.splitLeft valid) (cutoffLeft_weight inv valid)
    cutLt ?_ rfl ?_
    (fun _ _ => (inSlot_splitLeft inv.wf.pivots valid).trans (by rw [WithTop.coe_lt_coe]))
    (cutoffLeft_bucket inv valid)
  · simp only [cutoffNodeAndKeepLeft, splitLeft, List.length_append,
      List.length_take, List.length_singleton]
    omega
  · simp only [cutoffNodeAndKeepLeft, splitBucketListLeft, List.length_append,
      List.length_take, List.length_singleton]
    omega

end CutoffLeft

section CutoffRight

variable {node : PNode} (inv : InvNode node) {pivot : Key}
  (bounded : BoundedKey node.pivotTable pivot)

include inv bounded

theorem cutoffForRight_lt : cutoffForRight node.pivotTable pivot < node.buckets.length := by
  have := inSlot_lt_numBuckets (inSlot_cutoffForRight inv.wf.pivots bounded)
  rwa [inv.wf.numBuckets] at this

theorem cutoffRight_bucket (i : Nat) (bucket' : Bucket)
    (atI : (cutoffNodeAndKeepRight node pivot).buckets[i]? = some bucket') :
    ∃ bucket, node.buckets[cutoffForRight node.pivotTable pivot + i]? = some bucket ∧
      BucketPart bucket bucket' (pivot ≤ ·) := by
  have cutLt := cutoffForRight_lt inv bounded
  simp only [cutoffNodeAndKeepRight, splitBucketListRight] at atI
  cases i with
  | zero =>
    rw [getElem!_pos node.buckets _ cutLt, List.getElem?_cons_zero] at atI
    obtain rfl := Option.some.inj atI
    have atNode := List.getElem?_eq_getElem cutLt
    have good := goodBucket inv atNode
    exact ⟨_, atNode, wf_splitBucketRight good.wf pivot,
      wellMarshalled_splitBucketRight good.sorted pivot,
      fun _ => mem_keys_splitBucketRight good.sorted,
      fun _ => bucketGet_splitBucketRight good.wf good.sorted⟩
  | succ i =>
    rw [List.getElem?_cons_succ, List.getElem?_drop, Nat.add_assoc, Nat.add_comm 1] at atI
    refine ⟨bucket', atI, bucketPart_self inv atI fun key slot => ?_⟩
    obtain ⟨_, _, _, atHigh, _, upper⟩ := inSlot_cutoffForRight inv.wf.pivots bounded
    obtain ⟨_, _, atFirst, _, le, _⟩ := slot
    have leFirst := getElem?_le inv.wf.pivots.sorted atHigh atFirst (by omega)
    exact WithTop.coe_le_coe.mp (le_of_lt (lt_of_lt_of_le upper (le_trans leFirst le)))

theorem cutoffRight_weight :
    weightBucketList (cutoffNodeAndKeepRight node pivot).buckets ≤
      weightBucketList node.buckets := by
  have cutLt := cutoffForRight_lt inv bounded
  have split := weightBucket_split node.buckets[cutoffForRight node.pivotTable pivot] pivot
  rw [weightBucketList_parts (List.getElem?_eq_getElem cutLt)]
  simp only [cutoffNodeAndKeepRight, splitBucketListRight, weightBucketList_cons]
  rw [getElem!_pos node.buckets (cutoffForRight node.pivotTable pivot) cutLt]
  omega

theorem restricts_cutoffNodeAndKeepRight :
    Restricts node (cutoffNodeAndKeepRight node pivot) (pivot ≤ ·) := by
  have cutLt := cutoffForRight_lt inv bounded
  have tableLength := inv.wf.numBuckets
  rw [numBuckets] at tableLength
  refine restricts_of_drop inv (inv.wf.pivots.splitRight bounded) (cutoffRight_weight inv bounded)
    (fun _ _ => (inSlot_splitRight inv.wf.pivots bounded).trans (by rw [WithTop.coe_le_coe])) ?_
    (cutoffRight_bucket inv bounded) (le_of_lt cutLt) ?_ rfl ?_
  · intro i key slot kept
    obtain ⟨_, _, atLow, _, lower, _⟩ := inSlot_cutoffForRight inv.wf.pivots bounded
    obtain ⟨_, _, _, atNext, _, less⟩ := slot
    by_contra before
    have nextLe := getElem?_le inv.wf.pivots.sorted atNext atLow (by omega)
    have keptElement : keyToElement pivot ≤ keyToElement key := WithTop.coe_le_coe.mpr kept
    exact absurd (lt_of_lt_of_le less (le_trans nextLe lower)) (not_lt.mpr keptElement)
  · simp only [cutoffNodeAndKeepRight, splitRight, List.length_cons, List.length_drop]
    omega
  · simp only [cutoffNodeAndKeepRight, splitBucketListRight, List.length_cons, List.length_drop]
    omega

end CutoffRight

/-- The upper end of a range of keys. -/
def upperElement : Option Key → Element
  | none => ⊤
  | some key => keyToElement key

theorem restricts_cutoffNode (inv : InvNode node) {lpivot : Key} {rpivot : Option Key}
    (valid : ValidSplitKey node lpivot rpivot) :
    Restricts node (cutoffNode node lpivot rpivot)
      fun key => keyToElement key < upperElement rpivot ∧ lpivot ≤ key := by
  cases rpivot with
  | none =>
    have right := restricts_cutoffNodeAndKeepRight inv valid.lower
    refine { right with bounded := fun key => ?_ }
    have below : keyToElement key < upperElement none := WithTop.coe_lt_top key
    rw [and_iff_right below]
    exact right.bounded key
  | some rpivot =>
    obtain ⟨cutoff, _, less⟩ := valid.upper rpivot rfl
    have left := restricts_cutoffNodeAndKeepLeft inv cutoff
    have inside := (left.bounded lpivot).mpr ⟨valid.lower, less⟩
    have both := left.trans (restricts_cutoffNodeAndKeepRight left.inv inside)
    refine { both with bounded := fun key => ?_ }
    rw [upperElement, WithTop.coe_lt_coe]
    exact both.bounded key

section SplitChild

variable {child : PNode} (inv : InvNode child) {count : Nat} {pivot : Key}
  (atPivot : child.pivotTable[count]? = some (keyToElement pivot))

include inv atPivot

theorem slot_lt_iff {i : Nat} {key : Key}
    (slot : InSlot child.pivotTable i (keyToElement key)) : i < count ↔ key < pivot := by
  obtain ⟨_, _, atLow, atHigh, lower, upper⟩ := slot
  constructor
  · intro before
    exact WithTop.coe_lt_coe.mp
      (lt_of_lt_of_le upper (getElem?_le inv.wf.pivots.sorted atHigh atPivot before))
  · intro less
    by_contra after
    have le := le_trans (getElem?_le inv.wf.pivots.sorted atPivot atLow (by omega)) lower
    exact absurd less (not_lt.mpr (WithTop.coe_le_coe.mp le))

theorem restricts_splitChildLeft (positive : 0 < count) (proper : count < child.buckets.length) :
    Restricts child (splitChildLeft child count) (· < pivot) := by
  have tableLength := inv.wf.numBuckets
  rw [numBuckets] at tableLength
  refine restricts_of_take inv (inv.wf.pivots.take positive (by omega)) ?_ (le_of_lt proper)
    (List.length_take_of_le (by omega)) rfl (List.length_take_of_le (le_of_lt proper)) ?_ ?_
  · rw [← weightBucketList_take_drop child.buckets count]
    exact Nat.le_add_right _ _
  · intro i key
    rw [splitChildLeft, inSlot_take]
    constructor
    · rintro ⟨before, slot⟩
      exact ⟨slot, (slot_lt_iff inv atPivot slot).mp before⟩
    · rintro ⟨slot, less⟩
      exact ⟨(slot_lt_iff inv atPivot slot).mpr less, slot⟩
  · intro i bucket atI
    rw [splitChildLeft, List.getElem?_take] at atI
    split_ifs at atI with before
    exact ⟨bucket, atI, bucketPart_self inv atI fun key slot =>
      (slot_lt_iff inv atPivot slot).mp before⟩

theorem restricts_splitChildRight (proper : count < child.buckets.length) :
    Restricts child (splitChildRight child count) (pivot ≤ ·) := by
  have tableLength := inv.wf.numBuckets
  have kept : ∀ i key, InSlot child.pivotTable (count + i) (keyToElement key) → pivot ≤ key := by
    intro i key slot
    exact not_lt.mp (mt (slot_lt_iff inv atPivot slot).mpr (by omega))
  refine restricts_of_drop inv (inv.wf.pivots.drop (by omega)) ?_ ?_ ?_ ?_ (le_of_lt proper)
    List.length_drop rfl List.length_drop
  · rw [← weightBucketList_take_drop child.buckets count]
    exact Nat.le_add_left _ _
  · intro i key
    rw [splitChildRight, inSlot_drop, and_iff_left_of_imp (kept i key)]
  · intro i key slot above
    exact not_lt.mp (mt (slot_lt_iff inv atPivot slot).mp (not_lt.mpr above))
  · intro i bucket atI
    rw [splitChildRight, List.getElem?_drop] at atI
    exact ⟨bucket, atI, bucketPart_self inv atI (kept i)⟩

end SplitChild

/-- Two nodes whose tables meet at a key, as one node. -/
def concatNodes (left right : PNode) (pivot : Key) : PNode :=
  ⟨Sequences.concat3 left.pivotTable.dropLast (keyToElement pivot) right.pivotTable.tail,
    left.children.map (· ++ right.children.getD []), left.buckets ++ right.buckets⟩

section Concat

variable {left right : PNode} {pivot : Key} (invLeft : InvNode left) (invRight : InvNode right)
  (atLast : left.pivotTable.getLast? = some (keyToElement pivot))
  (atFirst : right.pivotTable.head? = some (keyToElement pivot))
  (kind : left.children.isSome = right.children.isSome)

include atLast atFirst in
theorem concatNodes_pivotTable :
    (concatNodes left right pivot).pivotTable = left.pivotTable ++ right.pivotTable.tail ∧
      (concatNodes left right pivot).pivotTable = left.pivotTable.dropLast ++ right.pivotTable := by
  have leftParts : left.pivotTable.dropLast ++ [keyToElement pivot] = left.pivotTable :=
    List.dropLast_append_getLast? _ atLast
  have rightParts : keyToElement pivot :: right.pivotTable.tail = right.pivotTable :=
    List.cons_head?_tail atFirst
  constructor
  · rw [concatNodes, Sequences.concat3, leftParts]
  · rw [concatNodes, Sequences.concat3, List.append_assoc, List.singleton_append, rightParts]

include invLeft atLast atFirst in
theorem splitChildLeft_concatNodes :
    splitChildLeft (concatNodes left right pivot) left.buckets.length = left := by
  have tableLength := invLeft.wf.numBuckets
  have positive := invLeft.wf.pivots.length
  rw [numBuckets] at tableLength
  have pivots : (concatNodes left right pivot).pivotTable.take (left.buckets.length + 1) =
      left.pivotTable := by
    rw [(concatNodes_pivotTable atLast atFirst).1]
    exact List.take_left' (by omega)
  have children : (concatNodes left right pivot).children.map (·.take left.buckets.length) =
      left.children := by
    cases leftChildren : left.children with
    | none => simp [concatNodes, leftChildren]
    | some refs => simp [concatNodes, leftChildren, invLeft.wf.numChildren refs leftChildren]
  have buckets : (concatNodes left right pivot).buckets.take left.buckets.length =
      left.buckets := List.take_left
  rw [splitChildLeft, pivots, children, buckets]

include invLeft atLast atFirst kind in
theorem splitChildRight_concatNodes :
    splitChildRight (concatNodes left right pivot) left.buckets.length = right := by
  have tableLength := invLeft.wf.numBuckets
  have pivots : (concatNodes left right pivot).pivotTable.drop left.buckets.length =
      right.pivotTable := by
    rw [(concatNodes_pivotTable atLast atFirst).2]
    exact List.drop_left' (by rw [List.length_dropLast]; exact tableLength)
  have children : (concatNodes left right pivot).children.map (·.drop left.buckets.length) =
      right.children := by
    cases leftChildren : left.children with
    | none =>
      rw [leftChildren, Option.isSome_none, eq_comm, Option.isSome_eq_false_iff,
        Option.isNone_iff_eq_none] at kind
      simp [concatNodes, leftChildren, kind]
    | some refs =>
      rw [leftChildren, Option.isSome_some, eq_comm, Option.isSome_iff_exists] at kind
      obtain ⟨_, rightChildren⟩ := kind
      simp [concatNodes, leftChildren, rightChildren, invLeft.wf.numChildren refs leftChildren]
  have buckets : (concatNodes left right pivot).buckets.drop left.buckets.length =
      right.buckets := List.drop_left
  rw [splitChildRight, pivots, children, buckets]

include invLeft atLast atFirst in
theorem concatNodes_pivot : (concatNodes left right pivot).pivotTable[left.buckets.length]? =
    some (keyToElement pivot) := by
  have tableLength := invLeft.wf.numBuckets
  have dropLength : left.pivotTable.dropLast.length = left.buckets.length := by
    rw [List.length_dropLast]
    exact tableLength
  rw [(concatNodes_pivotTable atLast atFirst).2, List.getElem?_append_right (by omega),
    dropLength, Nat.sub_self, ← List.head?_eq_getElem?, atFirst]

include invLeft invRight atLast atFirst kind in
theorem inv_concatNodes (bounded : BoundedNode (concatNodes left right pivot)) :
    InvNode (concatNodes left right pivot) := by
  have leftLength := invLeft.wf.numBuckets
  have rightLength := invRight.wf.numBuckets
  have leftPositive := invLeft.wf.pivots.length
  rw [numBuckets] at leftLength rightLength
  have leftPart : splitChildLeft (concatNodes left right pivot) _ = left :=
    splitChildLeft_concatNodes invLeft atLast atFirst
  have rightPart : splitChildRight (concatNodes left right pivot) _ = right :=
    splitChildRight_concatNodes invLeft atLast atFirst kind
  have pivots : WFPivots (concatNodes left right pivot).pivotTable :=
    invLeft.wf.pivots.concat invRight.wf.pivots atLast atFirst
  refine invNode_of_good pivots ?_ ?_ ?_ bounded
  · rw [(concatNodes_pivotTable atLast atFirst).1, numBuckets, concatNodes]
    simp only [List.length_append, List.length_tail]
    omega
  · intro refs children
    obtain ⟨refs', leftChildren, rfl⟩ := Option.map_eq_some_iff.mp children
    rw [leftChildren, Option.isSome_some, eq_comm, Option.isSome_iff_exists] at kind
    obtain ⟨refs'', rightChildren⟩ := kind
    rw [concatNodes, rightChildren, Option.getD_some, List.length_append, List.length_append,
      invLeft.wf.numChildren refs' leftChildren, invRight.wf.numChildren refs'' rightChildren]
  · intro i bucket atI
    rw [concatNodes, List.getElem?_append] at atI
    split_ifs at atI with before
    · refine goodBucket_moved invLeft pivots atI fun key _ slot => ?_
      have tables : (concatNodes left right pivot).pivotTable.take (left.buckets.length + 1) =
          left.pivotTable := congrArg Node.pivotTable leftPart
      rw [← tables, inSlot_take] at slot
      exact slot.2
    · refine goodBucket_moved invRight pivots atI fun key _ slot => ?_
      have tables : (concatNodes left right pivot).pivotTable.drop left.buckets.length =
          right.pivotTable := congrArg Node.pivotTable rightPart
      rw [← tables, inSlot_drop] at slot
      rwa [Nat.add_sub_of_le (by omega)] at slot

end Concat

end VerifiedBetrfs.PivotBetreeSpecRefinement
