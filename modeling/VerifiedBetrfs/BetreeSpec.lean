import VerifiedBetrfs.BlockInterface
import VerifiedBetrfs.MapSpec
import VerifiedBetrfs.Message

/-!
# The basic B-epsilon-tree operations

Each operation is a list of blocks read and a list of changes to the block graph.
-/

namespace VerifiedBetrfs

namespace BetreeSpec

open UI BlockGraph

abbrev BufferEntry := Message

abbrev Buffer := IMap Key BufferEntry

/-- A node routes keys to children and holds one message for each key. -/
structure Node where
  children : IMap Key Reference
  buffer : Buffer

instance : Inhabited Node := ⟨⟨IMap.empty, IMap.empty⟩⟩

instance : GraphNode Node where
  successors node := node.children.values

def BufferIsDefining (entry : BufferEntry) : Prop := entry.IsDefine

/-- The messages on a path define the value. -/
def BufferDefinesValue (log : BufferEntry) (value : Value) : Prop :=
  log = .define value

def WFNode (node : Node) : Prop :=
  (∀ key, key ∈ node.buffer.keys) ∧
    ∀ key, key ∉ node.children.keys → BufferIsDefining (node.buffer.at' key)

abbrev Layer := ReadOp Node

abbrev Lookup := List Layer

/-- A lookup of a key, with its value. -/
structure LookupQuery where
  key : Key
  value : Value
  lookup : Lookup

def LookupVisitsWFNodes (lookup : Lookup) : Prop :=
  ∀ layer ∈ lookup, WFNode layer.node

/-- Each layer is the child that the previous layer routes the key to. -/
def LookupFollowsChildRefs (key : Key) (lookup : Lookup) : Prop :=
  lookup.IsChain fun layer next => layer.node.children key = some next.ref

/-- A path from the root along the children of the key. -/
def WFLookupForKey (lookup : Lookup) (key : Key) : Prop :=
  (lookup.head?.map ReadOp.ref) = some root ∧
    LookupFollowsChildRefs key lookup ∧ LookupVisitsWFNodes lookup

/-- The merge of the messages for a key, newest first. -/
def interpretLookup (lookup : Lookup) (key : Key) : Message :=
  lookup.foldl (fun message layer => message.merge (layer.node.buffer.at' key))
    ValueMessage.identityMessage

/-- The path of a lookup defines its value. -/
def ValidQuery (q : LookupQuery) : Prop :=
  WFLookupForKey q.lookup q.key ∧
    BufferDefinesValue (interpretLookup q.lookup q.key) q.value

def queryReads (q : LookupQuery) : List (ReadOp Node) := q.lookup

def queryOps (_ : LookupQuery) : List (Op Node) := []

/-- A query for the keys from a start on. -/
structure SuccQuery where
  start : RangeStart
  results : List SuccResult
  stop : RangeEnd
  lookup : Lookup

def LookupKeyValue (lookup : Lookup) (key : Key) (value : Value) : Prop :=
  WFLookupForKey lookup key ∧ BufferDefinesValue (interpretLookup lookup key) value

/-- The results are the keys with a value in the range. -/
def ValidSuccQuery (q : SuccQuery) : Prop :=
  MapSpec.NonEmptyRange q.start q.stop ∧
  (∀ result ∈ q.results, LookupKeyValue q.lookup result.key result.value) ∧
  (∀ result ∈ q.results, result.value ≠ MapSpec.emptyValue) ∧
  (∀ result ∈ q.results, MapSpec.InRange q.start result.key q.stop) ∧
  q.results.Pairwise (fun first second => first.key < second.key) ∧
  (∀ key, MapSpec.InRange q.start key q.stop →
    (∀ result ∈ q.results, result.key ≠ key) →
      LookupKeyValue q.lookup key MapSpec.emptyValue)

def succQueryReads (q : SuccQuery) : List (ReadOp Node) := q.lookup

def succQueryOps (_ : SuccQuery) : List (Op Node) := []

def addMessageToBuffer (buffer : Buffer) (key : Key) (msg : BufferEntry) : Buffer :=
  buffer.update key (msg.merge (buffer.at' key))

def addMessageToNode (node : Node) (key : Key) (msg : BufferEntry) : Node :=
  ⟨node.children, addMessageToBuffer node.buffer key msg⟩

/-- A message is put into the root. -/
structure MessageInsertion where
  key : Key
  msg : BufferEntry
  oldroot : Node

def ValidInsertion (ins : MessageInsertion) : Prop := WFNode ins.oldroot

def insertionReads (ins : MessageInsertion) : List (ReadOp Node) :=
  [⟨root, ins.oldroot⟩]

/-- The blocks that an insertion writes. -/
def insertionOps (ins : MessageInsertion) : List (Op Node) :=
  [.writeOp root (addMessageToNode ins.oldroot ins.key ins.msg)]

/-- Messages move from a parent to a copy of one of its children. -/
structure NodeFlush where
  parentref : Reference
  parent : Node
  newparent : Node
  childref : Reference
  child : Node
  newchildref : Reference
  newchild : Node
  movedKeys : Set Key
  flushedKeys : Set Key

open Classical in
/-- The conditions on a flush. -/
structure ValidFlush (flush : NodeFlush) : Prop where
  parentWF : WFNode flush.parent
  childWF : WFNode flush.child
  flushedMoved : ∀ key ∈ flush.flushedKeys, key ∈ flush.movedKeys
  movedChild : ∀ key ∈ flush.movedKeys, flush.parent.children key = some flush.childref
  newparentChildren : flush.newparent.children =
    fun key => (flush.parent.children key).map fun child =>
      if key ∈ flush.movedKeys then flush.newchildref else child
  newparentBuffer : flush.newparent.buffer =
    fun key => some (if key ∈ flush.flushedKeys then ValueMessage.identityMessage
      else flush.parent.buffer.at' key)
  newchildChildren : flush.newchild.children = flush.child.children
  newchildBuffer : flush.newchild.buffer =
    fun key => some (if key ∈ flush.flushedKeys then
        (flush.parent.buffer.at' key).merge (flush.child.buffer.at' key)
      else flush.child.buffer.at' key)

def flushReads (flush : NodeFlush) : List (ReadOp Node) :=
  [⟨flush.parentref, flush.parent⟩, ⟨flush.childref, flush.child⟩]

/-- The blocks that a flush writes. -/
def flushOps (flush : NodeFlush) : List (Op Node) :=
  [.allocOp flush.newchildref flush.newchild, .writeOp flush.parentref flush.newparent]

/-- The root moves down under a new root. -/
structure RootGrowth where
  oldroot : Node
  newchildref : Reference

def ValidGrow (_ : RootGrowth) : Prop := True

def growReads (growth : RootGrowth) : List (ReadOp Node) :=
  [⟨root, growth.oldroot⟩]

/-- The blocks that a growth writes. -/
def growOps (growth : RootGrowth) : List (Op Node) :=
  [.allocOp growth.newchildref growth.oldroot,
    .writeOp root
      ⟨IMap.const growth.newchildref, IMap.const (.update ValueMessage.nopDelta)⟩]

/-- A parent is led to new children in place of old ones. -/
structure Redirect where
  parentref : Reference
  oldParent : Node
  oldChildrefs : List Reference
  oldChildren : IMap Reference Node
  newParent : Node
  newChildrefs : List Reference
  newChildren : IMap Reference Node
  keys : Set Key

/-- On the redirected keys the new children agree with the old ones, and have no other
grandchildren. -/
structure ValidRedirect (redirect : Redirect) : Prop where
  oldParentWF : WFNode redirect.oldParent
  oldChildrenWF : ∀ node ∈ redirect.oldChildren.values, WFNode node
  newParentWF : WFNode redirect.newParent
  newChildrenWF : ∀ node ∈ redirect.newChildren.values, WFNode node
  oldChildrefs : ∀ ref,
    ref ∈ (redirect.oldParent.children.restrict redirect.keys).values ↔
      ref ∈ redirect.oldChildrefs
  oldChildrenKeys : redirect.oldChildren.keys =
    (redirect.oldParent.children.restrict redirect.keys).values
  newChildrefs : ∀ ref ∈ (redirect.newParent.children.restrict redirect.keys).values,
    ref ∈ redirect.newChildrefs
  newChildrenKeys : redirect.newChildren.keys = { ref | ref ∈ redirect.newChildrefs }
  sameBuffer : redirect.newParent.buffer = redirect.oldParent.buffer
  keysRouted : ∀ key ∈ redirect.keys, key ∈ redirect.newParent.children.keys
  keysRoutedToNew : ∀ key ∈ redirect.keys,
    redirect.newParent.children.at' key ∈ redirect.newChildrefs
  otherKeys : ∀ key, key ∉ redirect.keys →
    redirect.newParent.children.AgreeOnKey redirect.oldParent.children key
  childBuffers : ∀ key ∈ redirect.keys ∩ redirect.oldParent.children.keys,
    redirect.oldParent.children.at' key ∈ redirect.oldChildren.keys ∧
    redirect.newParent.children.at' key ∈ redirect.newChildren.keys ∧
    (redirect.newChildren.at' (redirect.newParent.children.at' key)).buffer.AgreeOnKey
      (redirect.oldChildren.at' (redirect.oldParent.children.at' key)).buffer key
  childChildren : ∀ key ∈ redirect.keys ∩ redirect.oldParent.children.keys,
    redirect.oldParent.children.at' key ∈ redirect.oldChildren.keys ∧
    redirect.newParent.children.at' key ∈ redirect.newChildren.keys ∧
    (redirect.newChildren.at' (redirect.newParent.children.at' key)).children.AgreeOnKey
      (redirect.oldChildren.at' (redirect.oldParent.children.at' key)).children key
  onlyOldGrandchildren : ∀ childref child ref, redirect.newChildren childref = some child →
    ref ∈ child.children.values →
      ∃ key, redirect.newParent.children key = some childref ∧
        child.children key = some ref ∧ key ∈ redirect.keys ∧
        key ∈ redirect.oldParent.children.keys

def redirectChildReads (childrefs : List Reference) (children : IMap Reference Node) :
    List (ReadOp Node) :=
  childrefs.map fun ref => ⟨ref, children.at' ref⟩

def redirectReads (redirect : Redirect) : List (ReadOp Node) :=
  ⟨redirect.parentref, redirect.oldParent⟩ ::
    redirectChildReads redirect.oldChildrefs redirect.oldChildren

def redirectChildAllocs (childrefs : List Reference) (children : IMap Reference Node) :
    List (Op Node) :=
  childrefs.map fun ref => .allocOp ref (children.at' ref)

/-- The blocks that a redirect writes. -/
def redirectOps (redirect : Redirect) : List (Op Node) :=
  redirectChildAllocs redirect.newChildrefs redirect.newChildren ++
    [.writeOp redirect.parentref redirect.newParent]

/-- The operations of the tree. -/
inductive BetreeStep where
  | betreeQuery (q : LookupQuery)
  | betreeSuccQuery (sq : SuccQuery)
  | betreeInsert (ins : MessageInsertion)
  | betreeFlush (flush : NodeFlush)
  | betreeGrow (growth : RootGrowth)
  | betreeRedirect (redirect : Redirect)

def ValidBetreeStep : BetreeStep → Prop
  | .betreeQuery q => ValidQuery q
  | .betreeSuccQuery sq => ValidSuccQuery sq
  | .betreeInsert ins => ValidInsertion ins
  | .betreeFlush flush => ValidFlush flush
  | .betreeGrow growth => ValidGrow growth
  | .betreeRedirect redirect => ValidRedirect redirect

def betreeStepReads : BetreeStep → List (ReadOp Node)
  | .betreeQuery q => queryReads q
  | .betreeSuccQuery sq => succQueryReads sq
  | .betreeInsert ins => insertionReads ins
  | .betreeFlush flush => flushReads flush
  | .betreeGrow growth => growReads growth
  | .betreeRedirect redirect => redirectReads redirect

def betreeStepOps : BetreeStep → List (Op Node)
  | .betreeQuery q => queryOps q
  | .betreeSuccQuery sq => succQueryOps sq
  | .betreeInsert ins => insertionOps ins
  | .betreeFlush flush => flushOps flush
  | .betreeGrow growth => growOps growth
  | .betreeRedirect redirect => redirectOps redirect

/-- What users see of an operation. -/
def BetreeStepUI : BetreeStep → UI.Op → Prop
  | .betreeQuery q, uiop => uiop = .getOp q.key q.value
  | .betreeSuccQuery sq, uiop => uiop = .succOp sq.start sq.results sq.stop
  | .betreeInsert ins, uiop =>
    ∃ value, ins.msg = .define value ∧ uiop = .putOp ins.key value
  | .betreeFlush _, uiop | .betreeGrow _, uiop | .betreeRedirect _, uiop => uiop = .noOp

end BetreeSpec

namespace Betree

open BetreeSpec

/-- The blocks of the tree. -/
structure Variables where
  bcv : BlockInterface.Variables Node

/-- A node with no children in which every key has the default value. -/
def emptyNode : Node := ⟨IMap.empty, IMap.const ValueMessage.defineDefault⟩

def Init (s : Variables) : Prop :=
  BlockInterface.Init s.bcv ∧ s.bcv.view root = some emptyNode

/-- Blocks that are not reachable are removed. -/
def GC (s s' : Variables) (uiop : UI.Op) (refs : Set Reference) : Prop :=
  uiop = .noOp ∧ BlockInterface.GC s.bcv s'.bcv refs

set_option linter.dupNamespace false in
/-- An operation of the tree on its blocks. -/
def Betree (s s' : Variables) (uiop : UI.Op) (step : BetreeStep) : Prop :=
  ValidBetreeStep step ∧
  BetreeStepUI step uiop ∧
  BlockInterface.Reads s.bcv (betreeStepReads step) ∧
  BlockInterface.OpTransaction s.bcv s'.bcv (betreeStepOps step)

/-- An operation of the tree, or a collection of garbage. -/
inductive Step where
  | betreeStep (step : BetreeStep)
  | gcStep (refs : Set Reference)
  | stutterStep

def NextStep (s s' : Variables) (uiop : UI.Op) : Step → Prop
  | .betreeStep step => Betree s s' uiop step
  | .gcStep refs => GC s s' uiop refs
  | .stutterStep => s = s' ∧ uiop = .noOp

def Next (s s' : Variables) (uiop : UI.Op) : Prop :=
  ∃ step, NextStep s s' uiop step

def machine : StateMachine Variables UI.Op where
  Init := Init
  Next := Next

end Betree

end VerifiedBetrfs
