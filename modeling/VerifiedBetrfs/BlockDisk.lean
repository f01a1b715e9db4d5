import VerifiedBetrfs.DiskLayout

/-!
# The disk of the block system

Every sector holds a whole indirection table or a whole node.  A crash may change what overlaps a
write that has not been acknowledged.
-/

namespace VerifiedBetrfs.BlockDisk

universe u

open DiskLayout SectorType

abbrev ReqId := UInt64

/-- A write of a table. -/
structure ReqWriteIndirectionTable where
  loc : Location
  indirectionTable : SectorType.IndirectionTable

/-- A write of a node. -/
structure ReqWriteNode (Node : Type u) where
  loc : Location
  node : Node

/-- What the cache and the disk exchange in a step. -/
inductive DiskOp (Node : Type u) where
  | reqReadIndirectionTableOp (id : ReqId) (loc : Location)
  | reqReadNodeOp (id : ReqId) (loc : Location)
  | reqWriteIndirectionTableOp (id : ReqId)
      (reqWriteIndirectionTable : ReqWriteIndirectionTable)
  | reqWriteNodeOp (id : ReqId) (reqWriteNode : ReqWriteNode Node)
  | respReadIndirectionTableOp (id : ReqId) (indirectionTable : Option SectorType.IndirectionTable)
  | respReadNodeOp (id : ReqId) (node : Option Node)
  | respWriteIndirectionTableOp (id : ReqId)
  | respWriteNodeOp (id : ReqId)
  | noDiskOp

/-- The requests that have not been answered, and what the disk holds. -/
structure Variables (Node : Type u) where
  reqReadIndirectionTables : FiniteMap ReqId Location
  reqReadNodes : FiniteMap ReqId Location
  reqWriteIndirectionTables : FiniteMap ReqId Location
  reqWriteNodes : FiniteMap ReqId Location
  indirectionTables : IMap Location SectorType.IndirectionTable
  nodes : IMap Location Node

variable {Node : Type u}

def Init (s : Variables Node) : Prop :=
  s.reqReadIndirectionTables = .empty ∧
  s.reqReadNodes = .empty ∧
  s.reqWriteIndirectionTables = .empty ∧
  s.reqWriteNodes = .empty

def RecvReadIndirectionTable (s s' : Variables Node) (id : ReqId) (loc : Location) : Prop :=
  s.reqReadIndirectionTables.lookup id = none ∧
  s' = { s with reqReadIndirectionTables := s.reqReadIndirectionTables.insert id loc }

def RecvReadNode (s s' : Variables Node) (id : ReqId) (loc : Location) : Prop :=
  s.reqReadNodes.lookup id = none ∧
  s' = { s with reqReadNodes := s.reqReadNodes.insert id loc }

/-- The new content is at its location, and what does not overlap it is
kept. -/
def DiskMapUpdate {T : Type u} (disk disk' : IMap Location T) (updateLoc : Location)
    (t : T) : Prop :=
  disk' updateLoc = some t ∧
  ∀ loc content, disk loc = some content → ¬ overlap loc updateLoc →
    disk' loc = some content

section

variable (s s' : Variables Node) (id : ReqId)

def RecvWriteIndirectionTable (req : ReqWriteIndirectionTable) : Prop :=
  s.reqWriteIndirectionTables.lookup id = none ∧
  DiskMapUpdate s.indirectionTables s'.indirectionTables req.loc req.indirectionTable ∧
  s' = { s with
    reqWriteIndirectionTables := s.reqWriteIndirectionTables.insert id req.loc
    indirectionTables := s'.indirectionTables }

def RecvWriteNode (req : ReqWriteNode Node) : Prop :=
  s.reqWriteNodes.lookup id = none ∧
  DiskMapUpdate s.nodes s'.nodes req.loc req.node ∧
  s' = { s with
    reqWriteNodes := s.reqWriteNodes.insert id req.loc
    nodes := s'.nodes }

/-- The answer is what the disk holds, or nothing if it is corrupt. -/
def AckReadIndirectionTable (indirectionTable : Option SectorType.IndirectionTable) : Prop :=
  ∃ loc, s.reqReadIndirectionTables.lookup id = some loc ∧
    (indirectionTable ≠ none → indirectionTable = s.indirectionTables loc) ∧
    s' = { s with reqReadIndirectionTables := s.reqReadIndirectionTables.erase id }

def AckReadNode (node : Option Node) : Prop :=
  ∃ loc, s.reqReadNodes.lookup id = some loc ∧
    (node ≠ none → node = s.nodes loc) ∧
    s' = { s with reqReadNodes := s.reqReadNodes.erase id }

def AckWriteIndirectionTable : Prop :=
  s.reqWriteIndirectionTables.lookup id ≠ none ∧
  s' = { s with reqWriteIndirectionTables := s.reqWriteIndirectionTables.erase id }

def AckWriteNode : Prop :=
  s.reqWriteNodes.lookup id ≠ none ∧
  s' = { s with reqWriteNodes := s.reqWriteNodes.erase id }

end

def Next (s s' : Variables Node) : DiskOp Node → Prop
  | .reqReadIndirectionTableOp id loc => RecvReadIndirectionTable s s' id loc
  | .reqReadNodeOp id loc => RecvReadNode s s' id loc
  | .reqWriteIndirectionTableOp id req => RecvWriteIndirectionTable s s' id req
  | .reqWriteNodeOp id req => RecvWriteNode s s' id req
  | .respReadIndirectionTableOp id table => AckReadIndirectionTable s s' id table
  | .respReadNodeOp id node => AckReadNode s s' id node
  | .respWriteIndirectionTableOp id => AckWriteIndirectionTable s s' id
  | .respWriteNodeOp id => AckWriteNode s s' id
  | .noDiskOp => s' = s

def UntouchedLoc (loc : Location) (reqs : FiniteMap ReqId Location) : Prop :=
  ∀ id written, reqs.lookup id = some written → ¬ overlap loc written

def HavocMap {T : Type u} (m m' : IMap Location T) (reqs : FiniteMap ReqId Location) :
    Prop :=
  ∀ loc content, m loc = some content → UntouchedLoc loc reqs → m' loc = some content

/-- Requests are lost, and locations that were being written may hold anything. -/
def Crash (s s' : Variables Node) : Prop :=
  Init s' ∧
  HavocMap s.indirectionTables s'.indirectionTables s.reqWriteIndirectionTables ∧
  HavocMap s.nodes s'.nodes s.reqWriteNodes

end VerifiedBetrfs.BlockDisk
