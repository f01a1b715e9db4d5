import VerifiedBetrfs.BlockCache

/-!
# The block cache attached to its disk

The graphs that the system stands for are read off the disk and the cache.
-/

namespace VerifiedBetrfs.BlockSystem

universe u

open DiskLayout SectorType ViewOp BlockDisk GraphNode BlockCache

/-- The cache and the disk. -/
structure Variables (Node : Type u) where
  machine : BlockCache.Variables Node
  disk : BlockDisk.Variables Node

section Graphs

variable {Node : Type u}

section

variable (table : SectorType.IndirectionTable) (blocks : IMap Location Node)

def WFIndirectionTableWrtDisk : Prop :=
  ∀ ref loc, table.locs.lookup ref = some loc → loc ∈ blocks.keys

def refMapOfDisk : IMap Reference Node :=
  fun ref => (table.locs.lookup ref).bind blocks

end

def graph (refs : Finset Reference) (refmap : IMap Reference Node) : IMap Reference Node :=
  fun ref => if ref ∈ refs then refmap ref else none

section

variable (table : SectorType.IndirectionTable) (blocks : IMap Location Node)

/-- The nodes of a table, read from the disk. -/
def diskGraph : IMap Reference Node :=
  graph table.graph.support (refMapOfDisk table blocks)

def HasDiskCacheLookup (cache : FiniteMap Reference Node) (ref : Reference) : Prop :=
  WFIndirectionTableWrtDisk table blocks ∧
  (cache.lookup ref = none →
    ∃ loc, table.locs.lookup ref = some loc ∧ loc ∈ blocks.keys)

def diskCacheLookup (cache : FiniteMap Reference Node) (ref : Reference) : Option Node :=
  match table.locs.lookup ref with
  | some loc => blocks loc
  | none => cache.lookup ref

def WFDiskCacheGraph (cache : FiniteMap Reference Node) : Prop :=
  WFIndirectionTableWrtDisk table blocks ∧
  ∀ ref ∈ table.graph.support, HasDiskCacheLookup table blocks cache ref

/-- The nodes of a table, from the cache or else from the disk. -/
def diskCacheGraph (cache : FiniteMap Reference Node) : IMap Reference Node :=
  graph table.graph.support (diskCacheLookup table blocks cache)

end

end Graphs

section System

variable {Node : Type u} [GraphNode Node]

/-- Nodes point to nodes of the graph only. -/
def NoDanglingPointers (g : IMap Reference Node) : Prop :=
  ∀ ref node, g ref = some node → ∀ target ∈ successors node, target ∈ g.keys

/-- A graph has the edges that its table lists. -/
structure SuccessorsAgree (succGraph : FiniteMap Reference (List Reference))
    (g : IMap Reference Node) : Prop where
  sameKeys : ∀ ref, ref ∈ succGraph.support ↔ ref ∈ g.keys
  agrees : ∀ ref succs node, succGraph.lookup ref = some succs → g ref = some node →
    { target | target ∈ succs } = successors node

/-- The table at a location of the disk and everything it refers to are on
disk. -/
structure WFDiskGraphOfLoc (disk : BlockDisk.Variables Node) (loc : Location)
    (table : SectorType.IndirectionTable) : Prop where
  validLoc : ValidIndirectionTableLocation loc
  onDisk : disk.indirectionTables loc = some table
  complete : WFCompleteIndirectionTable table
  nodes : WFIndirectionTableWrtDisk table disk.nodes

/-- A table on disk is complete and lists the edges of its nodes. -/
structure WFSuccs (disk : BlockDisk.Variables Node) (loc : Location)
    (table : SectorType.IndirectionTable) : Prop extends WFDiskGraphOfLoc disk loc table where
  agree : SuccessorsAgree table.graph (diskGraph table disk.nodes)
  noDangling : NoDanglingPointers (diskGraph table disk.nodes)

/-- The graphs that the disk holds, by the location of their indirection
table. -/
noncomputable def diskGraphMap (disk : BlockDisk.Variables Node) :
    IMap Location (IMap Reference Node) := fun loc =>
  open Classical in
  (disk.indirectionTables loc).bind fun table =>
    if WFSuccs disk loc table then some (diskGraph table disk.nodes) else none

def persistentLoc (s : Variables Node) : Option Location :=
  match s.machine with
  | .ready r => some r.persistentIndirectionTableLoc
  | .loadingIndirectionTable loc _ => some loc
  | .unready => none

/-- The location of the frozen table once its write has been acknowledged. -/
def frozenLoc (s : Variables Node) : Option Location :=
  match s.machine with
  | .ready r =>
    if r.outstandingIndirectionTableWrite = none then r.frozenIndirectionTableLoc else none
  | _ => none

/-- The graph at a location is on disk before and after, and it is the same
graph. -/
def GraphKept (s s' : Variables Node) (loc : Location) : Prop :=
  ∃ g, diskGraphMap s.disk loc = some g ∧ diskGraphMap s'.disk loc = some g

/-- The graphs that a crash may need stay on disk. -/
structure DiskChangesPreservesPersistentAndFrozen (s s' : Variables Node) : Prop where
  unknown : persistentLoc s = none → ∀ loc g, diskGraphMap s.disk loc = some g →
    diskGraphMap s'.disk loc = some g
  persistent : ∀ loc, persistentLoc s = some loc → GraphKept s s' loc
  frozen : ∀ loc, frozenLoc s = some loc → GraphKept s s' loc

/-- The graph of the ephemeral table, or while the table is loaded the one on disk. -/
noncomputable def ephemeralGraphOpt (s : Variables Node) : Option (IMap Reference Node) :=
  open Classical in
  match s.machine with
  | .ready r =>
    if WFDiskCacheGraph r.ephemeralIndirectionTable s.disk.nodes r.cache then
      some (diskCacheGraph r.ephemeralIndirectionTable s.disk.nodes r.cache)
    else none
  | .loadingIndirectionTable loc _ => (s.disk.indirectionTables loc).bind fun table =>
    if WFDiskGraphOfLoc s.disk loc table then some (diskGraph table s.disk.nodes) else none
  | .unready => none

/-- A cache that knows nothing, and a disk with a graph. -/
structure Init (s : Variables Node) (loc : Location) : Prop where
  machine : BlockCache.Init s.machine
  disk : BlockDisk.Init s.disk
  graph : ∃ table, WFSuccs s.disk loc table ∧
    (diskGraph table s.disk.nodes).keys = {root} ∧
    ∀ node, diskGraph table s.disk.nodes root = some node → successors node = ∅

/-- A step of the cache with the disk, or a crash. -/
inductive Step (Node : Type u) where
  | machineStep (dop : DiskOp Node) (step : BlockCache.Step Node)
  | crashStep

section

variable (s s' : Variables Node)

/-- The location sent by the journal side is promised to hold a graph. -/
def Machine (dop : DiskOp Node) (vop : VOp) (step : BlockCache.Step Node) : Prop :=
  BlockCache.NextStep s.machine s'.machine dop vop step ∧
  BlockDisk.Next s.disk s'.disk dop ∧
  ∀ loc, vop = .sendPersistentLocOp loc → loc ∈ (diskGraphMap s.disk).keys

def Crash (vop : VOp) : Prop :=
  vop = .crashOp ∧ BlockCache.Init s'.machine ∧ BlockDisk.Crash s.disk s'.disk

def NextStep (vop : VOp) : Step Node → Prop
  | .machineStep dop step => Machine s s' dop vop step
  | .crashStep => Crash s s' vop

def Next (vop : VOp) : Prop := ∃ step, NextStep s s' vop step

end

variable (Node) in
def machine : StateMachine (Variables Node) VOp where
  Init s := ∃ loc, Init s loc
  Next := Next

/-- A cached node with a location is the one on disk. -/
def CleanCacheEntriesAreCorrect (r : Ready Node) (disk : BlockDisk.Variables Node) : Prop :=
  ∀ ref node loc, r.cache.lookup ref = some node →
    r.ephemeralIndirectionTable.locs.lookup ref = some loc → disk.nodes loc = some node

/-- A read the cache waits for is of the node's current location. -/
def CorrectInflightBlockRead (r : Ready Node) (disk : BlockDisk.Variables Node)
    (id : ReqId) (ref : Reference) : Prop :=
  r.cache.lookup ref = none ∧
  ∃ loc, r.ephemeralIndirectionTable.locs.lookup ref = some loc ∧
    loc ∈ disk.nodes.keys ∧
    ∀ requested, disk.reqReadNodes.lookup id = some requested → requested = loc

def CorrectInflightIndirectionTableReads (disk : BlockDisk.Variables Node)
    (indirectionTableLoc : Location) (indirectionTableRead : Option ReqId) : Prop :=
  ∀ id requested, indirectionTableRead = some id →
    disk.reqReadIndirectionTables.lookup id = some requested →
    requested = indirectionTableLoc

/-- No other reference has a location at the address. -/
def AddrUsedOnlyBy (table : SectorType.IndirectionTable) (ref : Reference) (addr : Nat) : Prop :=
  ∀ other used, table.locs.lookup other = some used → used.addr = addr → other = ref

/-- A pending write is to a location that no table uses for another node, nor any table on disk. -/
def CorrectInflightNodeWrite (r : Ready Node) (disk : BlockDisk.Variables Node)
    (id : ReqId) (ref : Reference) (loc : Location) : Prop :=
  ValidNodeLocation loc ∧
  AddrUsedOnlyBy r.ephemeralIndirectionTable ref loc.addr ∧
  (∀ table, r.frozenIndirectionTable = some table →
    AddrUsedOnlyBy table ref loc.addr ∧
    (r.frozenIndirectionTableLoc ≠ none → AddrUnused table loc.addr)) ∧
  AddrUnused r.persistentIndirectionTable loc.addr ∧
  ∀ requested, disk.reqWriteNodes.lookup id = some requested → requested = loc

def CorrectInflightIndirectionTableWrites (r : Ready Node)
    (disk : BlockDisk.Variables Node) : Prop :=
  ∀ id, r.outstandingIndirectionTableWrite = some id →
    ∃ loc, r.frozenIndirectionTableLoc = some loc ∧
      ∀ requested, disk.reqWriteIndirectionTables.lookup id = some requested →
        requested = loc

/-- The tables of a loaded cache are on disk, and its requests on the queue. -/
structure InvReady (r : Ready Node) (disk : BlockDisk.Variables Node) : Prop where
  persistentOnDisk : WFSuccs disk r.persistentIndirectionTableLoc r.persistentIndirectionTable
  frozenNodes : ∀ table, r.frozenIndirectionTable = some table →
    WFIndirectionTableWrtDisk table disk.nodes
  frozenAgree : ∀ table, r.frozenIndirectionTable = some table →
    SuccessorsAgree table.graph (diskCacheGraph table disk.nodes r.cache)
  frozenOnDisk : ∀ loc, r.frozenIndirectionTableLoc = some loc →
    ∃ table, r.frozenIndirectionTable = some table ∧ WFCompleteIndirectionTable table ∧
      disk.indirectionTables loc = some table
  ephemeralNodes : WFIndirectionTableWrtDisk r.ephemeralIndirectionTable disk.nodes
  ephemeralAgree : SuccessorsAgree r.ephemeralIndirectionTable.graph
    (diskCacheGraph r.ephemeralIndirectionTable disk.nodes r.cache)
  noDangling :
    NoDanglingPointers (diskCacheGraph r.ephemeralIndirectionTable disk.nodes r.cache)
  cleanCache : CleanCacheEntriesAreCorrect r disk
  blockReads : ∀ id read, r.outstandingBlockReads.lookup id = some read →
    CorrectInflightBlockRead r disk id read.ref
  nodeWrites : ∀ id write, r.outstandingBlockWrites.lookup id = some write →
    CorrectInflightNodeWrite r disk id write.ref write.loc
  tableWrites : CorrectInflightIndirectionTableWrites r disk

def WriteRequestsDontOverlap (reqWrites : FiniteMap ReqId Location) : Prop :=
  ∀ id id' loc loc', reqWrites.lookup id = some loc → reqWrites.lookup id' = some loc' →
    overlap loc loc' → id = id'

def WriteRequestsAreDistinct (reqWrites : FiniteMap ReqId Location) : Prop :=
  ∀ id id' loc, reqWrites.lookup id = some loc → reqWrites.lookup id' = some loc → id = id'

def ReadWritesDontOverlap (reqReads reqWrites : FiniteMap ReqId Location) : Prop :=
  ∀ id id' loc loc', reqReads.lookup id = some loc → reqWrites.lookup id' = some loc' →
    ¬ overlap loc loc'

def ReadWritesAreDistinct (reqReads reqWrites : FiniteMap ReqId Location) : Prop :=
  ∀ id id' loc loc', reqReads.lookup id = some loc → reqWrites.lookup id' = some loc' →
    loc ≠ loc'

/-- The outstanding requests for one kind of sector are apart from one
another. -/
structure RequestsApart (reqReads reqWrites : FiniteMap ReqId Location) : Prop where
  writesDontOverlap : WriteRequestsDontOverlap reqWrites
  writesDistinct : WriteRequestsAreDistinct reqWrites
  readsDontOverlap : ReadWritesDontOverlap reqReads reqWrites
  readsDistinct : ReadWritesAreDistinct reqReads reqWrites

/-- The requests on the disk's queue are apart, and the cache knows of each of
them. -/
structure RequestsInv (s : Variables Node) : Prop where
  nodes : RequestsApart s.disk.reqReadNodes s.disk.reqWriteNodes
  tables : RequestsApart s.disk.reqReadIndirectionTables s.disk.reqWriteIndirectionTables
  recordedNodeWrites : ∀ id loc, s.disk.reqWriteNodes.lookup id = some loc →
    ∃ r, s.machine = .ready r ∧ r.outstandingBlockWrites.lookup id ≠ none
  recordedNodeReads : ∀ id loc, s.disk.reqReadNodes.lookup id = some loc →
    ∃ r, s.machine = .ready r ∧ r.outstandingBlockReads.lookup id ≠ none
  recordedTableWrites : ∀ id loc, s.disk.reqWriteIndirectionTables.lookup id = some loc →
    ∃ r, s.machine = .ready r ∧ r.outstandingIndirectionTableWrite = some id
  recordedTableReads : ∀ id loc, s.disk.reqReadIndirectionTables.lookup id = some loc →
    ∃ tableLoc, s.machine = .loadingIndirectionTable tableLoc (some id)

/-- While the table is loaded only its read may be pending. -/
structure InvLoading (loc : Location) (read : Option ReqId)
    (disk : BlockDisk.Variables Node) : Prop where
  tableReads : CorrectInflightIndirectionTableReads disk loc read
  onDisk : ∃ table, WFSuccs disk loc table

/-- The invariant of the cache with the disk. -/
structure Inv (s : Variables Node) : Prop where
  cache : BlockCache.Inv s.machine
  ready : ∀ r, s.machine = .ready r → InvReady r s.disk
  loading : ∀ loc read, s.machine = .loadingIndirectionTable loc read →
    InvLoading loc read s.disk
  requests : RequestsInv s

end System

end VerifiedBetrfs.BlockSystem
