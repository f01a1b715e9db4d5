import VerifiedBetrfs.BlockInterface
import VerifiedBetrfs.BucketFlush

/-!
# The tree with pivots

Nodes divide the keys among their children and buckets by a pivot table.
-/

namespace VerifiedBetrfs.PivotBetreeSpec

open UI BlockGraph BoundedPivotsLib BucketMaps BucketsLib BucketWeights

/-- A node with its pivots, its children if it is no leaf, and a bucket for each slot. -/
structure Node where
  pivotTable : PivotTable
  children : Option (List Reference)
  buckets : List Bucket
deriving DecidableEq

instance : GraphNode Node where
  successors node := { ref | ∃ refs, node.children = some refs ∧ ref ∈ refs }

def BoundedNode (node : Node) : Prop :=
  node.buckets.length ≤ Bounds.maxNumChildren ∧
    weightBucketList node.buckets ≤ Bounds.maxTotalBucketWeight

/-- The node has a bucket for each slot, and its weight is bounded. -/
structure WFNode (node : Node) : Prop where
  numBuckets : numBuckets node.pivotTable = node.buckets.length
  numChildren : ∀ refs, node.children = some refs → node.buckets.length = refs.length
  pivots : WFPivots node.pivotTable
  buckets : WFBucketList node.buckets node.pivotTable
  bounded : BoundedNode node

/-- The buckets are in order and hold keys of their slots only. -/
structure InvNode (node : Node) : Prop where
  wf : WFNode node
  proper : WFBucketListProper node.buckets node.pivotTable
  wellMarshalled : BucketListWellMarshalled node.buckets

def addMessageToNode (node : Node) (key : Key) (msg : Message) : Node :=
  { node with buckets := bucketListInsert node.buckets node.pivotTable key msg }

abbrev Layer := ReadOp Node

abbrev Lookup := List Layer

/-- A lookup of a key, with its value. -/
structure LookupQuery where
  key : Key
  value : Value
  lookup : Lookup

def BufferDefinesValue (log : Message) (value : Value) : Prop := log = .define value

def LookupVisitsWFNodes (lookup : Lookup) : Prop := ∀ layer ∈ lookup, WFNode layer.node

def LookupVisitsWellMarshalledBuckets (lookup : Lookup) (key : Key) : Prop :=
  ∀ layer ∈ lookup,
    BucketWellMarshalled layer.node.buckets[route layer.node.pivotTable key]!

def LookupBoundedKey (key : Key) (lookup : Lookup) : Prop :=
  ∀ layer ∈ lookup, BoundedKey layer.node.pivotTable key

def LookupFollowsChildRefs (key : Key) (lookup : Lookup) : Prop :=
  lookup.IsChain fun layer next =>
    ∃ refs, layer.node.children = some refs ∧
      refs[route layer.node.pivotTable key]? = some next.ref

def nodeLookup (node : Node) (key : Key) : Message :=
  bucketListGet node.buckets node.pivotTable key

/-- The message that a path collects for a key. -/
def interpretLookup (lookup : Lookup) (key : Key) : Message :=
  lookup.foldl (fun message layer => message.merge (nodeLookup layer.node key))
    (.update ValueMessage.nopDelta)

/-- At a leaf the keys without a message have the default value. -/
def interpretLookupAccountingForLeaf (lookup : Lookup) (key : Key) : Message :=
  if (lookup.getLast?.bind fun layer => layer.node.children).isSome then
    interpretLookup lookup key
  else
    (interpretLookup lookup key).merge ValueMessage.defineDefault

/-- A path from the root along the slots of the key. -/
structure WFLookupForKey (lookup : Lookup) (key : Key) : Prop where
  startsAtRoot : lookup.head?.map ReadOp.ref = some root
  visitsWFNodes : LookupVisitsWFNodes lookup
  boundedKey : LookupBoundedKey key lookup
  followsChildRefs : LookupFollowsChildRefs key lookup

def ValidQuery (q : LookupQuery) : Prop :=
  WFLookupForKey q.lookup q.key ∧
    (LookupVisitsWellMarshalledBuckets q.lookup q.key →
      BufferDefinesValue (interpretLookupAccountingForLeaf q.lookup q.key) q.value)

def queryReads (q : LookupQuery) : List (ReadOp Node) := q.lookup

def queryOps (_ : LookupQuery) : List (Op Node) := []

/-- A query for the keys from a start on, within one leaf. -/
structure SuccQuery where
  start : RangeStart
  results : List SuccResult
  stop : RangeEnd
  buckets : List Bucket
  lookup : Lookup

def lookupUpperBoundAtLayer (layer : Layer) (key : Key) : Option Key :=
  let r := route layer.node.pivotTable key
  if layer.node.pivotTable[r + 1]! ≠ ⊤ then some (getKey layer.node.pivotTable (r + 1)) else none

def optionKeyMin : Option Key → Option Key → Option Key
  | some key1, some key2 => if key1 < key2 then some key1 else some key2
  | some key1, none => some key1
  | none, k2 => k2

/-- The end of the keys that take the same path. -/
def lookupUpperBound (lookup : Lookup) (key : Key) : Option Key :=
  lookup.foldl (fun bound layer => optionKeyMin bound (lookupUpperBoundAtLayer layer key)) none

/-- The key that the lookup of a range query follows. -/
def startKey : RangeStart → Key
  | .inclusive key | .exclusive key => key
  | .negativeInf => emptyKey

/-- The results are those of the buckets on the path. -/
structure ValidSuccQuery (sq : SuccQuery) : Prop where
  wfLookup : WFLookupForKey sq.lookup (startKey sq.start)
  endsAtLeaf : ∀ layer, sq.lookup.getLast? = some layer → layer.node.children = none
  buckets : sq.buckets = sq.lookup.map fun layer =>
    layer.node.buckets[route layer.node.pivotTable (startKey sq.start)]!
  answer : BucketListWellMarshalled sq.buckets →
    MapSpec.NonEmptyRange sq.start sq.stop ∧
    (∀ bound, lookupUpperBound sq.lookup (startKey sq.start) = some bound →
      ¬ MapSpec.UpperBound bound sq.stop) ∧
    sq.results = sortedSeqOfKeyValueMap (keyValueMapOfBucket
      (clampRange (composeSeq (sq.buckets.map Bucket.asMap)) sq.start sq.stop))

def succQueryReads (q : SuccQuery) : List (ReadOp Node) := q.lookup

def succQueryOps (_ : SuccQuery) : List (Op Node) := []

/-- A message is put into the root. -/
structure MessageInsertion where
  key : Key
  msg : Message
  oldroot : Node

/-- The root has room for the message. -/
structure ValidInsertion (ins : MessageInsertion) : Prop where
  wf : WFNode ins.oldroot
  boundedKey : BoundedKey ins.oldroot.pivotTable ins.key
  room : weightBucketList ins.oldroot.buckets + weightKey ins.key + weightMessage ins.msg ≤
    Bounds.maxTotalBucketWeight

def insertionReads (ins : MessageInsertion) : List (ReadOp Node) := [⟨root, ins.oldroot⟩]

def insertionOps (ins : MessageInsertion) : List (Op Node) :=
  [.writeOp root (addMessageToNode ins.oldroot ins.key ins.msg)]

/-- Entries of one slot move to a copy of its child. -/
structure NodeFlush where
  parentref : Reference
  parent : Node
  newparent : Node
  childref : Reference
  child : Node
  newchildref : Reference
  newchild : Node
  slotIndex : Nat

def flushResult (f : NodeFlush) : BucketFlushModel.PartialFlushResult :=
  BucketFlushModel.partialFlush f.parent.buckets[f.slotIndex]! f.child.pivotTable f.child.buckets

/-- The conditions on a flush. -/
structure ValidFlush (f : NodeFlush) : Prop where
  parentWF : WFNode f.parent
  childWF : WFNode f.child
  slot : f.slotIndex < f.parent.buckets.length
  childref : ∃ refs, f.parent.children = some refs ∧ refs[f.slotIndex]? = some f.childref ∧
    f.newparent = ⟨f.parent.pivotTable, some (refs.set f.slotIndex f.newchildref),
      f.parent.buckets.set f.slotIndex (flushResult f).top⟩
  boundedKeys : BoundedKeySeq f.child.pivotTable f.parent.buckets[f.slotIndex]!.keys
  newchild : f.newchild = { f.child with buckets := (flushResult f).bots }
  newchildBuckets : WFBucketList f.newchild.buckets f.child.pivotTable
  newparentBucket : WFBucket f.newparent.buckets[f.slotIndex]!
  childWeight : weightBucketList f.newchild.buckets ≤ Bounds.maxTotalBucketWeight
  parentWeight : weightBucket f.newparent.buckets[f.slotIndex]! ≤
    weightBucket f.parent.buckets[f.slotIndex]!

def flushReads (f : NodeFlush) : List (ReadOp Node) :=
  [⟨f.parentref, f.parent⟩, ⟨f.childref, f.child⟩]

def flushOps (f : NodeFlush) : List (Op Node) :=
  [.allocOp f.newchildref f.newchild, .writeOp f.parentref f.newparent]

/-- The root moves down under a new root. -/
structure RootGrowth where
  oldroot : Node
  newchildref : Reference

def ValidGrow (growth : RootGrowth) : Prop :=
  WFNode growth.oldroot ∧ ContainsAllKeys growth.oldroot.pivotTable

def growReads (growth : RootGrowth) : List (ReadOp Node) := [⟨root, growth.oldroot⟩]

def growOps (growth : RootGrowth) : List (Op Node) :=
  [.allocOp growth.newchildref growth.oldroot,
    .writeOp root ⟨initPivotTable, some [growth.newchildref], [emptyBucket]⟩]

/-- One child of a parent against two, for a split or a merge. -/
structure NodeFusion where
  parentref : Reference
  fusedChildref : Reference
  leftChildref : Reference
  rightChildref : Reference
  fusedParent : Node
  splitParent : Node
  fusedChild : Node
  leftChild : Node
  rightChild : Node
  slotIdx : Nat
  numChildrenLeft : Nat
  pivot : Key

/-- The part of a node below a pivot. -/
def cutoffNodeAndKeepLeft (node : Node) (pivot : Key) : Node :=
  let cLeft := cutoffForLeft node.pivotTable pivot
  ⟨splitLeft node.pivotTable pivot, node.children.map (·.take (cLeft + 1)),
    splitBucketListLeft node.buckets cLeft pivot⟩

/-- The part of a node from a pivot on. -/
def cutoffNodeAndKeepRight (node : Node) (pivot : Key) : Node :=
  let cRight := cutoffForRight node.pivotTable pivot
  ⟨splitRight node.pivotTable pivot, node.children.map (·.drop cRight),
    splitBucketListRight node.buckets cRight pivot⟩

/-- The pivots of the two parts lie in the node. -/
structure ValidSplitKey (node : Node) (lpivot : Key) (rpivot : Option Key) : Prop where
  lower : BoundedKey node.pivotTable lpivot
  upper : ∀ pivot, rpivot = some pivot →
    ValidLeftCutOffKey node.pivotTable pivot ∧
      node.pivotTable[0]! < keyToElement pivot ∧ lpivot < pivot
  unbounded : rpivot = none → node.pivotTable[node.pivotTable.length - 1]! = ⊤

/-- The part of a node between two keys. -/
def cutoffNode (node : Node) (lpivot : Key) (rpivot : Option Key) : Node :=
  match rpivot with
  | none => cutoffNodeAndKeepRight node lpivot
  | some rpivot => cutoffNodeAndKeepRight (cutoffNodeAndKeepLeft node rpivot) lpivot

def splitChildLeft (child : Node) (numChildrenLeft : Nat) : Node :=
  ⟨child.pivotTable.take (numChildrenLeft + 1), child.children.map (·.take numChildrenLeft),
    child.buckets.take numChildrenLeft⟩

def splitChildRight (child : Node) (numChildrenLeft : Nat) : Node :=
  ⟨child.pivotTable.drop numChildrenLeft, child.children.map (·.drop numChildrenLeft),
    child.buckets.drop numChildrenLeft⟩

/-- The parent with two slots in place of one. -/
def splitParent (fusedParent : Node) (pivot : Key) (slotIdx : Nat)
    (leftChildref rightChildref : Reference) : Node :=
  ⟨Sequences.insert fusedParent.pivotTable (keyToElement pivot) (slotIdx + 1),
    fusedParent.children.map (Sequences.replace1with2 · leftChildref rightChildref slotIdx),
    splitBucketInList fusedParent.buckets slotIdx pivot⟩

def getlbound (parent : Node) (slot : Nat) : Key := getKey parent.pivotTable slot

def getubound (parent : Node) (slot : Nat) : Option Key :=
  if parent.pivotTable[slot + 1]! ≠ ⊤ then some (getKey parent.pivotTable (slot + 1)) else none

/-- The part of the split child that its slot in the parent covers. -/
def cutFusedChild (f : NodeFusion) : Node :=
  cutoffNode f.fusedChild (getlbound f.fusedParent f.slotIdx) (getubound f.fusedParent f.slotIdx)

/-- The conditions on a split. -/
structure ValidSplit (f : NodeFusion) : Prop where
  parentWF : WFNode f.fusedParent
  childWF : WFNode f.fusedChild
  childref : ∃ refs, f.fusedParent.children = some refs ∧
    refs[f.slotIdx]? = some f.fusedChildref
  slot : f.slotIdx < f.fusedParent.buckets.length
  room : f.fusedParent.buckets.length ≤ Bounds.maxNumChildren - 1
  childKeys : ValidSplitKey f.fusedChild (getlbound f.fusedParent f.slotIdx)
    (getubound f.fusedParent f.slotIdx)
  parentKeys : ValidSplitKey f.fusedParent (getlbound f.fusedParent f.slotIdx)
    (getubound f.fusedParent f.slotIdx)
  positive : 1 ≤ f.numChildrenLeft
  proper : f.numChildrenLeft < (cutFusedChild f).buckets.length
  lower : f.fusedChild.pivotTable[0]! ≤ f.fusedParent.pivotTable[f.slotIdx]!
  upper : f.fusedParent.pivotTable[f.slotIdx + 1]! ≤
    f.fusedChild.pivotTable[f.fusedChild.pivotTable.length - 1]!
  pivot : getKey (cutFusedChild f).pivotTable f.numChildrenLeft = f.pivot
  insertable : PivotInsertable f.fusedParent.pivotTable (f.slotIdx + 1) f.pivot
  sameChild : f.leftChildref = f.rightChildref → f.leftChild = f.rightChild
  newParent : f.splitParent =
    splitParent f.fusedParent f.pivot f.slotIdx f.leftChildref f.rightChildref
  newLeft : f.leftChild = splitChildLeft (cutFusedChild f) f.numChildrenLeft
  newRight : f.rightChild = splitChildRight (cutFusedChild f) f.numChildrenLeft

def splitReads (f : NodeFusion) : List (ReadOp Node) :=
  [⟨f.parentref, f.fusedParent⟩, ⟨f.fusedChildref, f.fusedChild⟩]

def splitOps (f : NodeFusion) : List (Op Node) :=
  [.allocOp f.leftChildref f.leftChild, .allocOp f.rightChildref f.rightChild,
    .writeOp f.parentref f.splitParent]

/-- The part of the left child that its slot in the parent covers. -/
def cutLeftChild (f : NodeFusion) : Node :=
  cutoffNode f.leftChild (getlbound f.splitParent f.slotIdx) (some f.pivot)

/-- The part of the right child that its slot in the parent covers. -/
def cutRightChild (f : NodeFusion) : Node :=
  cutoffNode f.rightChild f.pivot (getubound f.splitParent (f.slotIdx + 1))

/-- The conditions on a merge. -/
structure ValidMerge (f : NodeFusion) : Prop where
  parentWF : WFNode f.splitParent
  leftWF : WFNode f.leftChild
  rightWF : WFNode f.rightChild
  slot : f.slotIdx < f.splitParent.buckets.length - 1
  numLeft : f.numChildrenLeft = f.leftChild.buckets.length
  pivot : getKey f.splitParent.pivotTable (f.slotIdx + 1) = f.pivot
  parentChildren : ∃ refs, f.splitParent.children = some refs ∧
    refs[f.slotIdx]? = some f.leftChildref ∧ refs[f.slotIdx + 1]? = some f.rightChildref ∧
    f.fusedParent = ⟨Sequences.remove f.splitParent.pivotTable (f.slotIdx + 1),
      some (Sequences.replace2with1 refs f.fusedChildref f.slotIdx),
      mergeBucketsInList f.splitParent.buckets f.slotIdx⟩
  weight : weightBucketList f.leftChild.buckets + weightBucketList f.rightChild.buckets ≤
    Bounds.maxTotalBucketWeight
  fanout : f.leftChild.buckets.length + f.rightChild.buckets.length ≤ Bounds.maxNumChildren
  sameChild : f.leftChildref = f.rightChildref → f.leftChild = f.rightChild
  sameKind : f.leftChild.children.isSome = f.rightChild.children.isSome
  leftKeys : ValidSplitKey f.leftChild (getlbound f.splitParent f.slotIdx) (some f.pivot)
  rightKeys : ValidSplitKey f.rightChild f.pivot (getubound f.splitParent (f.slotIdx + 1))
  newChild : f.fusedChild =
    ⟨Sequences.concat3 (cutLeftChild f).pivotTable.dropLast (keyToElement f.pivot)
        (cutRightChild f).pivotTable.tail,
      (cutLeftChild f).children.map (· ++ (cutRightChild f).children.getD []),
      (cutLeftChild f).buckets ++ (cutRightChild f).buckets⟩

def mergeReads (f : NodeFusion) : List (ReadOp Node) :=
  [⟨f.parentref, f.splitParent⟩, ⟨f.leftChildref, f.leftChild⟩,
    ⟨f.rightChildref, f.rightChild⟩]

def mergeOps (f : NodeFusion) : List (Op Node) :=
  [.allocOp f.fusedChildref f.fusedChild, .writeOp f.parentref f.fusedParent]

/-- A leaf with one bucket gets another pivot. -/
structure Repivot where
  ref : Reference
  leaf : Node
  pivots : PivotTable
  pivot : Key

/-- The conditions on a repivot. -/
structure ValidRepivot (r : Repivot) : Prop where
  wf : WFNode r.leaf
  fanout : r.pivots.length ≤ Bounds.maxNumChildren + 1
  bounded : ∀ bucket ∈ r.leaf.buckets, PreWFBucket bucket ∧
    ∀ key ∈ bucket.asMap.support, BoundedKey r.leaf.pivotTable key
  single : r.leaf.buckets.length = 1
  allKeys : ContainsAllKeys r.pivots
  leaf : r.leaf.children = none
  pivots : r.pivots = Sequences.insert initPivotTable (keyToElement r.pivot) 1

def repivotReads (r : Repivot) : List (ReadOp Node) := [⟨r.ref, r.leaf⟩]

/-- The leaf with its bucket split at the pivot. -/
def applyRepivot (r : Repivot) : Node :=
  ⟨r.pivots, none, [splitBucketLeft r.leaf.buckets[0]! r.pivot,
    splitBucketRight r.leaf.buckets[0]! r.pivot]⟩

def repivotOps (r : Repivot) : List (Op Node) := [.writeOp r.ref (applyRepivot r)]

/-- The operations of the tree. -/
inductive BetreeStep where
  | betreeQuery (q : LookupQuery)
  | betreeSuccQuery (sq : SuccQuery)
  | betreeInsert (ins : MessageInsertion)
  | betreeFlush (flush : NodeFlush)
  | betreeGrow (growth : RootGrowth)
  | betreeSplit (fusion : NodeFusion)
  | betreeMerge (fusion : NodeFusion)
  | betreeRepivot (repivot : Repivot)

def ValidBetreeStep : BetreeStep → Prop
  | .betreeQuery q => ValidQuery q
  | .betreeSuccQuery sq => ValidSuccQuery sq
  | .betreeInsert ins => ValidInsertion ins
  | .betreeFlush flush => ValidFlush flush
  | .betreeGrow growth => ValidGrow growth
  | .betreeSplit fusion => ValidSplit fusion
  | .betreeMerge fusion => ValidMerge fusion
  | .betreeRepivot repivot => ValidRepivot repivot

def betreeStepReads : BetreeStep → List (ReadOp Node)
  | .betreeQuery q => queryReads q
  | .betreeSuccQuery sq => succQueryReads sq
  | .betreeInsert ins => insertionReads ins
  | .betreeFlush flush => flushReads flush
  | .betreeGrow growth => growReads growth
  | .betreeSplit fusion => splitReads fusion
  | .betreeMerge fusion => mergeReads fusion
  | .betreeRepivot repivot => repivotReads repivot

def betreeStepOps : BetreeStep → List (Op Node)
  | .betreeQuery q => queryOps q
  | .betreeSuccQuery sq => succQueryOps sq
  | .betreeInsert ins => insertionOps ins
  | .betreeFlush flush => flushOps flush
  | .betreeGrow growth => growOps growth
  | .betreeSplit fusion => splitOps fusion
  | .betreeMerge fusion => mergeOps fusion
  | .betreeRepivot repivot => repivotOps repivot

end VerifiedBetrfs.PivotBetreeSpec
