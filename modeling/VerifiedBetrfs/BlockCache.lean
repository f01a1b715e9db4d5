import VerifiedBetrfs.BlockDisk
import VerifiedBetrfs.BlockInterface
import VerifiedBetrfs.Views

/-!
# The block cache

The machine that caches nodes.  A node is written back only to a location that none of its three
indirection tables and no outstanding write uses.
-/

namespace VerifiedBetrfs.BlockCache

universe u

open DiskLayout SectorType ViewOp BlockDisk GraphNode BlockGraph
open FiniteMap (lookup_of_erase absent_of_insert lookup_erase lookup_insert lookup_insert_eq_some
  mem_support)

/-- A write of a node that is not acknowledged yet. -/
structure OutstandingWrite where
  ref : Reference
  loc : Location
deriving DecidableEq

/-- A read of a node that is not answered yet. -/
structure OutstandingRead where
  ref : Reference
deriving DecidableEq

/-- The cache once its indirection table is loaded. -/
structure Ready (Node : Type u) where
  persistentIndirectionTable : SectorType.IndirectionTable
  frozenIndirectionTable : Option SectorType.IndirectionTable
  ephemeralIndirectionTable : SectorType.IndirectionTable
  persistentIndirectionTableLoc : Location
  frozenIndirectionTableLoc : Option Location
  outstandingIndirectionTableWrite : Option ReqId
  outstandingBlockWrites : FiniteMap ReqId OutstandingWrite
  outstandingBlockReads : FiniteMap ReqId OutstandingRead
  cache : FiniteMap Reference Node

/-- The cache, which learns the location of the table and loads it first. -/
inductive Variables (Node : Type u) where
  | ready (r : Ready Node)
  | loadingIndirectionTable (indirectionTableLoc : Location)
      (indirectionTableRead : Option ReqId)
  | unready

/-- The steps of the cache. -/
inductive Step (Node : Type u) where
  | writeBackNodeReqStep (ref : Reference)
  | writeBackNodeRespStep
  | writeBackIndirectionTableReqStep
  | writeBackIndirectionTableRespStep
  | unallocStep (ref : Reference)
  | pageInNodeReqStep (ref : Reference)
  | pageInNodeRespStep
  | pageInIndirectionTableReqStep
  | pageInIndirectionTableRespStep
  | receiveLocStep
  | evictStep (ref : Reference)
  | freezeStep
  | cleanUpStep
  | noOpStep
  | transactionStep (ops : List (Op Node))

section Steps

variable {Node : Type u}

def IsAllocated (r : Ready Node) (ref : Reference) : Prop :=
  ref ∈ r.ephemeralIndirectionTable.graph.support

/-- No location of the table starts at the address. -/
def AddrUnused (table : SectorType.IndirectionTable) (addr : Nat) : Prop :=
  ∀ ref loc, table.locs.lookup ref = some loc → loc.addr ≠ addr

/-- No table and no write uses the location. -/
structure ValidAllocation (r : Ready Node) (loc : Location) : Prop where
  persistent : AddrUnused r.persistentIndirectionTable loc.addr
  ephemeral : AddrUnused r.ephemeralIndirectionTable loc.addr
  frozen : ∀ table, r.frozenIndirectionTable = some table → AddrUnused table loc.addr
  writes : ∀ id write, r.outstandingBlockWrites.lookup id = some write →
    write.loc.addr ≠ loc.addr

/-- A node gets a location, if it has none. -/
def assignRefToLocation (table : SectorType.IndirectionTable) (ref : Reference) (loc : Location) :
    SectorType.IndirectionTable where
  locs :=
    if ref ∈ table.graph.support ∧ ref ∉ table.locs.support then table.locs.insert ref loc
    else table.locs
  graph := table.graph

/-- The frozen table can do without the cached node. -/
def FrozenHasLocation (r : Ready Node) (ref : Reference) : Prop :=
  ∀ table, r.frozenIndirectionTable = some table → ref ∈ table.graph.support →
    ref ∈ table.locs.support

def OutstandingBlockReadsDoesNotHaveRef
    (outstandingBlockReads : FiniteMap ReqId OutstandingRead) (ref : Reference) : Prop :=
  ∀ id read, outstandingBlockReads.lookup id = some read → read.ref ≠ ref

section

variable (s s' : Variables Node) (dop : DiskOp Node) (vop : VOp)

/-- A node is sent to a fresh location. -/
def WriteBackNodeReq (ref : Reference) : Prop :=
  ∃ r id req, s = .ready r ∧ dop = .reqWriteNodeOp id req ∧ vop = .statesInternalOp ∧
    r.cache.lookup ref = some req.node ∧
    ValidNodeLocation req.loc ∧
    r.outstandingIndirectionTableWrite = none ∧
    ValidAllocation r req.loc ∧
    s' = .ready { r with
      ephemeralIndirectionTable :=
        assignRefToLocation r.ephemeralIndirectionTable ref req.loc
      frozenIndirectionTable :=
        r.frozenIndirectionTable.map (assignRefToLocation · ref req.loc)
      outstandingBlockWrites := r.outstandingBlockWrites.insert id ⟨ref, req.loc⟩ }

/-- A node has been written. -/
def WriteBackNodeResp : Prop :=
  ∃ r id, s = .ready r ∧ dop = .respWriteNodeOp id ∧ vop = .statesInternalOp ∧
    r.outstandingBlockWrites.lookup id ≠ none ∧
    s' = .ready { r with outstandingBlockWrites := r.outstandingBlockWrites.erase id }

/-- The frozen table is sent to the disk. -/
def WriteBackIndirectionTableReq : Prop :=
  ∃ r id req, s = .ready r ∧ dop = .reqWriteIndirectionTableOp id req ∧
    vop = .statesInternalOp ∧
    r.frozenIndirectionTable = some req.indirectionTable ∧
    ValidIndirectionTableLocation req.loc ∧
    req.indirectionTable.graph.support ⊆ req.indirectionTable.locs.support ∧
    r.outstandingBlockWrites = .empty ∧
    r.frozenIndirectionTableLoc = none ∧
    ¬ overlap req.loc r.persistentIndirectionTableLoc ∧
    s' = .ready { r with
      outstandingIndirectionTableWrite := some id
      frozenIndirectionTableLoc := some req.loc }

/-- The frozen table has been written. -/
def WriteBackIndirectionTableResp : Prop :=
  ∃ r id loc, s = .ready r ∧ dop = .respWriteIndirectionTableOp id ∧
    vop = .sendFrozenLocOp loc ∧
    r.frozenIndirectionTableLoc = some loc ∧
    r.outstandingIndirectionTableWrite = some id ∧
    s' = .ready { r with outstandingIndirectionTableWrite := none }

end

def NoPredecessors (graph : FiniteMap Reference (List Reference)) (ref : Reference) : Prop :=
  ∀ source succs, graph.lookup source = some succs → ref ∉ succs

section

variable (s s' : Variables Node) (dop : DiskOp Node) (vop : VOp)

/-- A node that nothing points to is removed. -/
def Unalloc (ref : Reference) : Prop :=
  ∃ r replay, s = .ready r ∧ dop = .noDiskOp ∧ vop = .advanceOp .noOp replay ∧
    IsAllocated r ref ∧
    ref ≠ root ∧
    NoPredecessors r.ephemeralIndirectionTable.graph ref ∧
    FrozenHasLocation r ref ∧
    OutstandingBlockReadsDoesNotHaveRef r.outstandingBlockReads ref ∧
    s' = .ready { r with
      ephemeralIndirectionTable :=
        ⟨r.ephemeralIndirectionTable.locs.erase ref,
          r.ephemeralIndirectionTable.graph.erase ref⟩
      cache := r.cache.erase ref }

/-- A node is asked for. -/
def PageInNodeReq (ref : Reference) : Prop :=
  ∃ r id loc, s = .ready r ∧ dop = .reqReadNodeOp id loc ∧ vop = .statesInternalOp ∧
    IsAllocated r ref ∧
    r.ephemeralIndirectionTable.locs.lookup ref = some loc ∧
    r.cache.lookup ref = none ∧
    OutstandingBlockReadsDoesNotHaveRef r.outstandingBlockReads ref ∧
    s' = .ready { r with outstandingBlockReads := r.outstandingBlockReads.insert id ⟨ref⟩ }

/-- The table is asked for. -/
def PageInIndirectionTableReq : Prop :=
  ∃ id loc, s = .loadingIndirectionTable loc none ∧ dop = .reqReadIndirectionTableOp id loc ∧
    vop = .statesInternalOp ∧
    s' = .loadingIndirectionTable loc (some id)

/-- The table just read becomes the persistent and the ephemeral one. -/
def PageInIndirectionTableResp : Prop :=
  ∃ id loc table, s = .loadingIndirectionTable loc (some id) ∧
    dop = .respReadIndirectionTableOp id (some table) ∧ vop = .statesInternalOp ∧
    WFCompleteIndirectionTable table ∧
    AllLocationsForDifferentRefsDontOverlap table ∧
    s' = .ready ⟨table, none, table, loc, none, none, .empty, .empty, .empty⟩

/-- The journal side tells the persistent location. -/
def ReceiveLoc : Prop :=
  ∃ loc, s = .unready ∧ dop = .noDiskOp ∧ vop = .sendPersistentLocOp loc ∧
    ValidIndirectionTableLocation loc ∧
    s' = .loadingIndirectionTable loc none

/-- A clean node leaves the cache. -/
def Evict (ref : Reference) : Prop :=
  ∃ r, s = .ready r ∧ dop = .noDiskOp ∧ vop = .statesInternalOp ∧
    r.cache.lookup ref ≠ none ∧
    (ref ∈ r.ephemeralIndirectionTable.graph.support →
      ∃ loc, r.ephemeralIndirectionTable.locs.lookup ref = some loc ∧
        ∀ id, r.outstandingBlockWrites.lookup id ≠ some ⟨ref, loc⟩) ∧
    FrozenHasLocation r ref ∧
    s' = .ready { r with cache := r.cache.erase ref }

/-- The ephemeral table becomes the frozen one. -/
def Freeze : Prop :=
  ∃ r, s = .ready r ∧ dop = .noDiskOp ∧ vop = .freezeOp ∧
    r.outstandingIndirectionTableWrite = none ∧
    s' = .ready { r with
      frozenIndirectionTable := some r.ephemeralIndirectionTable
      frozenIndirectionTableLoc := none }

/-- The frozen table becomes the persistent one. -/
def CleanUp : Prop :=
  ∃ r loc table, s = .ready r ∧ dop = .noDiskOp ∧ vop = .cleanUpOp ∧
    r.outstandingIndirectionTableWrite = none ∧
    r.frozenIndirectionTableLoc = some loc ∧
    r.frozenIndirectionTable = some table ∧
    s' = .ready { r with
      persistentIndirectionTable := table
      persistentIndirectionTableLoc := loc
      frozenIndirectionTable := none
      frozenIndirectionTableLoc := none }

/-- Answers the cache does not wait for, or does not want, change nothing. -/
def NoOp : Prop :=
  (vop = .statesInternalOp ∨ vop = .journalInternalOp ∨ (∃ id, vop = .pushSyncOp id) ∨
    ∃ id, vop = .popSyncOp id) ∧
  (match dop with
    | .noDiskOp | .respReadIndirectionTableOp _ _ | .respReadNodeOp _ _ => True
    | .respWriteIndirectionTableOp id =>
      ∀ r, s = .ready r → r.outstandingIndirectionTableWrite ≠ some id
    | .respWriteNodeOp id =>
      ∀ r, s = .ready r → r.outstandingBlockWrites.lookup id = none
    | _ => False) ∧
  s' = s

end

end Steps

section GraphSteps

variable {Node : Type u} [GraphNode Node]

/-- A node arrives. -/
def PageInNodeResp (s s' : Variables Node) (dop : DiskOp Node) (vop : VOp) : Prop :=
  ∃ r id ref block succs, s = .ready r ∧ dop = .respReadNodeOp id (some block) ∧
    vop = .statesInternalOp ∧
    r.outstandingBlockReads.lookup id = some ⟨ref⟩ ∧
    r.cache.lookup ref = none ∧
    r.ephemeralIndirectionTable.graph.lookup ref = some succs ∧
    { target | target ∈ succs } = successors block ∧
    s' = .ready { r with
      cache := r.cache.insert ref block
      outstandingBlockReads := r.outstandingBlockReads.erase id }

def BlockPointsToValidReferences (block : Node)
    (graph : FiniteMap Reference (List Reference)) : Prop :=
  ∀ ref ∈ successors block, ref ∈ graph.support

/-- A cached node gets a new content and loses its location. -/
def Dirty (s s' : Variables Node) (ref : Reference) (block : Node) : Prop :=
  ∃ r succs, s = .ready r ∧
    r.cache.lookup ref ≠ none ∧
    ref ∈ r.ephemeralIndirectionTable.graph.support ∧
    BlockPointsToValidReferences block r.ephemeralIndirectionTable.graph ∧
    FrozenHasLocation r ref ∧
    { target | target ∈ succs } = successors block ∧
    s' = .ready { r with
      cache := r.cache.insert ref block
      ephemeralIndirectionTable :=
        ⟨r.ephemeralIndirectionTable.locs.erase ref,
          r.ephemeralIndirectionTable.graph.insert ref succs⟩ }

/-- A new node is put into the cache. -/
def Alloc (s s' : Variables Node) (ref : Reference) (block : Node) : Prop :=
  ∃ r succs, s = .ready r ∧
    r.cache.lookup ref = none ∧
    ¬ IsAllocated r ref ∧
    BlockPointsToValidReferences block r.ephemeralIndirectionTable.graph ∧
    { target | target ∈ succs } = successors block ∧
    s' = .ready { r with
      cache := r.cache.insert ref block
      ephemeralIndirectionTable :=
        ⟨r.ephemeralIndirectionTable.locs,
          r.ephemeralIndirectionTable.graph.insert ref succs⟩ }

def OpStep (s s' : Variables Node) : Op Node → Prop
  | .writeOp ref block => Dirty s s' ref block
  | .allocOp ref block => Alloc s s' ref block

/-- The operations of a transaction are performed one after the other. -/
def OpTransaction (s s' : Variables Node) : List (Op Node) → Prop
  | [] => s = s'
  | op :: ops => ∃ middle, OpStep s middle op ∧ OpTransaction middle s' ops

/-- The application changes some nodes. -/
def Transaction (s s' : Variables Node) (dop : DiskOp Node) (vop : VOp)
    (ops : List (Op Node)) : Prop :=
  (∃ r, s = .ready r) ∧ dop = .noDiskOp ∧ (∃ uiop replay, vop = .advanceOp uiop replay) ∧
    OpTransaction s s' ops

def Init (s : Variables Node) : Prop := s = .unready

def NextStep (s s' : Variables Node) (dop : DiskOp Node) (vop : VOp) : Step Node → Prop
  | .writeBackNodeReqStep ref => WriteBackNodeReq s s' dop vop ref
  | .writeBackNodeRespStep => WriteBackNodeResp s s' dop vop
  | .writeBackIndirectionTableReqStep => WriteBackIndirectionTableReq s s' dop vop
  | .writeBackIndirectionTableRespStep => WriteBackIndirectionTableResp s s' dop vop
  | .unallocStep ref => Unalloc s s' dop vop ref
  | .pageInNodeReqStep ref => PageInNodeReq s s' dop vop ref
  | .pageInNodeRespStep => PageInNodeResp s s' dop vop
  | .pageInIndirectionTableReqStep => PageInIndirectionTableReq s s' dop vop
  | .pageInIndirectionTableRespStep => PageInIndirectionTableResp s s' dop vop
  | .receiveLocStep => ReceiveLoc s s' dop vop
  | .evictStep ref => Evict s s' dop vop ref
  | .freezeStep => Freeze s s' dop vop
  | .cleanUpStep => CleanUp s s' dop vop
  | .noOpStep => NoOp s s' dop vop
  | .transactionStep ops => Transaction s s' dop vop ops

end GraphSteps

section Invariant

variable {Node : Type u} [GraphNode Node]

def CacheConsistentWithSuccessors (cache : FiniteMap Reference Node)
    (graph : FiniteMap Reference (List Reference)) : Prop :=
  ∀ ref node succs, cache.lookup ref = some node → graph.lookup ref = some succs →
    { target | target ∈ succs } = successors node

def IndirectionTableCacheConsistent (table : SectorType.IndirectionTable)
    (cache : FiniteMap Reference Node) : Prop :=
  ∀ ref ∈ table.graph.support, cache.lookup ref = none → ref ∈ table.locs.support

def EphemeralTableEntriesInCacheOrNotBeingWritten (r : Ready Node) : Prop :=
  ∀ ref loc, r.cache.lookup ref = none →
    r.ephemeralIndirectionTable.locs.lookup ref = some loc →
    ∀ id write, r.outstandingBlockWrites.lookup id = some write →
      write.ref ≠ ref ∨ write.loc.addr ≠ loc.addr

def OutstandingReadRefsUnique (reads : FiniteMap ReqId OutstandingRead) : Prop :=
  ∀ id id' read, reads.lookup id = some read → reads.lookup id' = some read → id = id'

section

variable (writes : FiniteMap ReqId OutstandingWrite)

/-- An outstanding write and a location of the table are equal if they start together. -/
def OverlappingWritesEqForIndirectionTable (table : SectorType.IndirectionTable) : Prop :=
  ∀ ref loc, table.locs.lookup ref = some loc →
    ∀ id write, writes.lookup id = some write → loc.addr = write.loc.addr → loc = write.loc

def OutstandingWriteValidNodeLocation : Prop :=
  ∀ id write, writes.lookup id = some write → ValidNodeLocation write.loc

def AllOutstandingBlockWritesDontOverlap : Prop :=
  ∀ id id' write write', writes.lookup id = some write → writes.lookup id' = some write' →
    write.loc.addr = write'.loc.addr → id = id'

end

/-- The tables are well formed, and the cache and the requests fit them. -/
structure InvReady (r : Ready Node) : Prop where
  persistentWF : WFCompleteIndirectionTable r.persistentIndirectionTable
  ephemeralWF : WFIndirectionTable r.ephemeralIndirectionTable
  ephemeralCached : IndirectionTableCacheConsistent r.ephemeralIndirectionTable r.cache
  cacheSuccessors :
    CacheConsistentWithSuccessors r.cache r.ephemeralIndirectionTable.graph
  notBeingWritten : EphemeralTableEntriesInCacheOrNotBeingWritten r
  readsUnique : OutstandingReadRefsUnique r.outstandingBlockReads
  ephemeralWrites : OverlappingWritesEqForIndirectionTable r.outstandingBlockWrites
    r.ephemeralIndirectionTable
  persistentWrites : OverlappingWritesEqForIndirectionTable r.outstandingBlockWrites
    r.persistentIndirectionTable
  writesValid : OutstandingWriteValidNodeLocation r.outstandingBlockWrites
  writesDistinct : AllOutstandingBlockWritesDontOverlap r.outstandingBlockWrites
  ephemeralDistinct : AllLocationsForDifferentRefsDontOverlap r.ephemeralIndirectionTable
  frozenWF : ∀ table, r.frozenIndirectionTable = some table → WFIndirectionTable table
  frozenCached : ∀ table, r.frozenIndirectionTable = some table →
    IndirectionTableCacheConsistent table r.cache
  frozenWrites : ∀ table, r.frozenIndirectionTable = some table →
    OverlappingWritesEqForIndirectionTable r.outstandingBlockWrites table
  tableWrite : r.outstandingIndirectionTableWrite ≠ none →
    r.frozenIndirectionTableLoc ≠ none
  frozenComplete : r.frozenIndirectionTableLoc ≠ none →
    ∃ table, r.frozenIndirectionTable = some table ∧ WFCompleteIndirectionTable table
  persistentLocValid : ValidIndirectionTableLocation r.persistentIndirectionTableLoc
  frozenLocValid : ∀ loc, r.frozenIndirectionTableLoc = some loc →
    ValidIndirectionTableLocation loc ∧ ¬ overlap loc r.persistentIndirectionTableLoc

theorem InvReady.frozenComplete_of {r : Ready Node} {table : SectorType.IndirectionTable}
    (inv : InvReady r) (known : r.frozenIndirectionTableLoc ≠ none)
    (isFrozen : r.frozenIndirectionTable = some table) : WFCompleteIndirectionTable table := by
  obtain ⟨_, isFrozen', complete⟩ := inv.frozenComplete known
  rw [isFrozen] at isFrozen'
  cases isFrozen'
  exact complete

def Inv : Variables Node → Prop
  | .ready r => InvReady r
  | .loadingIndirectionTable loc _ => ValidIndirectionTableLocation loc
  | .unready => True

end Invariant

section Assign

variable {table : SectorType.IndirectionTable} {ref other : Reference} {loc loc' : Location}

theorem lookup_assignRefToLocation :
    (assignRefToLocation table ref loc).locs.lookup other =
      if other = ref ∧ ref ∈ table.graph.support ∧ ref ∉ table.locs.support then some loc
      else table.locs.lookup other := by
  by_cases assigned : ref ∈ table.graph.support ∧ ref ∉ table.locs.support
  · simp [assignRefToLocation, assigned]
  · simp only [assignRefToLocation, assigned, if_false, and_false]

theorem assigned_cases (found : (assignRefToLocation table ref loc).locs.lookup other = some loc') :
    table.locs.lookup other = some loc' ∨ other = ref ∧ loc' = loc := by
  rw [lookup_assignRefToLocation] at found
  split_ifs at found with assigned
  · exact Or.inr ⟨assigned.1, (Option.some.inj found).symm⟩
  · exact Or.inl found

theorem WFIndirectionTable.assign (wf : WFIndirectionTable table) (valid : ValidNodeLocation loc) :
    WFIndirectionTable (assignRefToLocation table ref loc) := by
  refine ⟨fun other loc' found => ?_, fun other present => ?_, wf.root, wf.closed⟩
  · rcases assigned_cases found with old | ⟨_, rfl⟩
    · exact wf.validLocs other loc' old
    · exact valid
  · obtain ⟨loc', found⟩ := FiniteMap.exists_lookup present
    rw [lookup_assignRefToLocation] at found
    split_ifs at found with assigned
    · rw [assigned.1]
      exact assigned.2.1
    · apply wf.allocated
      exact FiniteMap.mem_support_of_lookup found

theorem WFCompleteIndirectionTable.assign (wf : WFCompleteIndirectionTable table) :
    assignRefToLocation table ref loc = table := by
  have nothing : ¬ (ref ∈ table.graph.support ∧ ref ∉ table.locs.support) := by
    rw [wf.complete]
    exact fun both => both.2 both.1
  rw [assignRefToLocation, if_neg nothing]

theorem IndirectionTableCacheConsistent.assign {Node : Type u} {cache : FiniteMap Reference Node}
    (cached : IndirectionTableCacheConsistent table cache) :
    IndirectionTableCacheConsistent (assignRefToLocation table ref loc) cache := by
  intro other allocated uncached
  have located := cached other allocated uncached
  rw [mem_support] at located ⊢
  rw [lookup_assignRefToLocation]
  split_ifs with assigned
  · rfl
  · exact located

variable {writes : FiniteMap ReqId OutstandingWrite}

section

variable (separate : OverlappingWritesEqForIndirectionTable writes table) {id : ReqId}

include separate

theorem OverlappingWritesEqForIndirectionTable.insert (unused : AddrUnused table loc.addr) :
    OverlappingWritesEqForIndirectionTable (writes.insert id ⟨ref, loc⟩) table := by
  intro other loc' found id' write outstanding sameAddr
  obtain ⟨-, rfl⟩ | ⟨new, outstanding⟩ := lookup_insert_eq_some.mp outstanding
  · exact absurd sameAddr (unused other loc' found)
  · exact separate other loc' found id' write outstanding sameAddr

theorem OverlappingWritesEqForIndirectionTable.assign (unused : AddrUnused table loc.addr)
    (unwritten : ∀ id write, writes.lookup id = some write → write.loc.addr ≠ loc.addr) :
    OverlappingWritesEqForIndirectionTable (writes.insert id ⟨ref, loc⟩)
      (assignRefToLocation table ref loc) := by
  intro other loc' found id' write outstanding sameAddr
  rcases assigned_cases found with old | ⟨_, rfl⟩
  · exact separate.insert unused other loc' old id' write outstanding sameAddr
  · obtain ⟨-, rfl⟩ | ⟨new, outstanding⟩ := lookup_insert_eq_some.mp outstanding
    · rfl
    · exact absurd sameAddr.symm (unwritten id' write outstanding)

theorem OverlappingWritesEqForIndirectionTable.erase :
    OverlappingWritesEqForIndirectionTable (writes.erase id) table := by
  intro ref loc found id' write outstanding
  exact separate ref loc found id' write (lookup_of_erase outstanding)

end

end Assign

section Preservation

variable {Node : Type u} [GraphNode Node] {r r' : Ready Node} {dop : DiskOp Node} {vop : VOp}
  {ref : Reference} {loc : Location}

theorem InvReady.writeBackNodeReq (inv : InvReady r)
    (next : WriteBackNodeReq (.ready r) (.ready r') dop vop ref) : InvReady r' := by
  obtain ⟨_, id, ⟨loc, node⟩, ⟨⟩, -, -, cached, valid, -, allocation, ⟨⟩⟩ := next
  obtain ⟨persistent, ephemeral, frozen, writes⟩ := allocation
  exact { inv with
    ephemeralWF := inv.ephemeralWF.assign valid
    ephemeralCached := inv.ephemeralCached.assign
    notBeingWritten := by
      intro other loc' uncached found id' write outstanding
      have old : r.ephemeralIndirectionTable.locs.lookup other = some loc' := by
        rcases assigned_cases found with old | ⟨rfl, _⟩
        · exact old
        · simp [cached] at uncached
      obtain ⟨-, rfl⟩ | ⟨new, outstanding⟩ := lookup_insert_eq_some.mp outstanding
      · exact Or.inr (ephemeral other loc' old).symm
      · exact inv.notBeingWritten other loc' uncached old id' write outstanding
    ephemeralWrites := inv.ephemeralWrites.assign ephemeral writes
    persistentWrites := inv.persistentWrites.insert persistent
    writesValid := by
      intro id' write outstanding
      obtain ⟨-, rfl⟩ | ⟨new, outstanding⟩ := lookup_insert_eq_some.mp outstanding
      · exact valid
      · exact inv.writesValid id' write outstanding
    writesDistinct := by
      have distinct := inv.writesDistinct
      intro id1 id2 write1 write2 found1 found2 sameAddr
      simp only [lookup_insert] at found1 found2
      grind [AllOutstandingBlockWritesDontOverlap]
    ephemeralDistinct := by
      have distinct := inv.ephemeralDistinct
      intro ref1 ref2 loc1 loc2 found1 found2 sameAddr
      have cases1 := assigned_cases found1
      have cases2 := assigned_cases found2
      grind [AllLocationsForDifferentRefsDontOverlap, AddrUnused]
    frozenWF := by
      intro table isFrozen
      obtain ⟨old, wasFrozen, rfl⟩ := Option.map_eq_some_iff.1 isFrozen
      exact (inv.frozenWF old wasFrozen).assign valid
    frozenCached := by
      intro table isFrozen
      obtain ⟨old, wasFrozen, rfl⟩ := Option.map_eq_some_iff.1 isFrozen
      exact (inv.frozenCached old wasFrozen).assign
    frozenWrites := by
      intro table isFrozen
      obtain ⟨old, wasFrozen, rfl⟩ := Option.map_eq_some_iff.1 isFrozen
      exact (inv.frozenWrites old wasFrozen).assign (frozen old wasFrozen) writes
    frozenComplete := by
      intro known
      obtain ⟨table, wasFrozen, complete⟩ := inv.frozenComplete known
      refine ⟨table, ?_, complete⟩
      simp [wasFrozen, complete.assign] }

theorem InvReady.writeBackNodeResp (inv : InvReady r)
    (next : WriteBackNodeResp (.ready r) (.ready r') dop vop) : InvReady r' := by
  obtain ⟨_, _, ⟨⟩, -, -, -, ⟨⟩⟩ := next
  exact { inv with
    notBeingWritten ref loc uncached found id' write outstanding :=
      inv.notBeingWritten ref loc uncached found id' write (lookup_of_erase outstanding)
    ephemeralWrites := inv.ephemeralWrites.erase
    persistentWrites := inv.persistentWrites.erase
    writesValid id' write outstanding := inv.writesValid id' write (lookup_of_erase outstanding)
    writesDistinct id1 id2 write1 write2 found1 found2 :=
      inv.writesDistinct id1 id2 write1 write2 (lookup_of_erase found1) (lookup_of_erase found2)
    frozenWrites table isFrozen := (inv.frozenWrites table isFrozen).erase }

variable {table : SectorType.IndirectionTable} {block : Node} {succs : List Reference}

theorem InvReady.writeBackIndirectionTableReq (inv : InvReady r)
    (next : WriteBackIndirectionTableReq (.ready r) (.ready r') dop vop) : InvReady r' := by
  obtain ⟨_, _, ⟨loc, table⟩, ⟨⟩, -, -, frozen, valid, complete, -, -, apart, ⟨⟩⟩ := next
  exact { inv with
    tableWrite := by simp
    frozenComplete := by
      intro _
      have wf := inv.frozenWF table frozen
      have sameSupport := Finset.Subset.antisymm complete wf.allocated
      exact ⟨table, frozen, wf.validLocs, sameSupport, wf.root, wf.closed⟩
    frozenLocValid := by
      rintro _ ⟨⟩
      exact ⟨valid, apart⟩ }

theorem InvReady.writeBackIndirectionTableResp (inv : InvReady r)
    (next : WriteBackIndirectionTableResp (.ready r) (.ready r') dop vop) : InvReady r' := by
  obtain ⟨_, _, _, ⟨⟩, -, -, -, -, ⟨⟩⟩ := next
  exact { inv with
    tableWrite := by simp }

theorem InvReady.unalloc (inv : InvReady r)
    (next : Unalloc (.ready r) (.ready r') dop vop ref) : InvReady r' := by
  obtain ⟨_, _, ⟨⟩, -, -, -, notRoot, unreferenced, frozen, -, ⟨⟩⟩ := next
  exact { inv with
    ephemeralWF := by
      have wf := inv.ephemeralWF
      refine ⟨fun other loc found => ?_, fun other present => ?_, ?_, ?_⟩
      · exact wf.validLocs other loc (lookup_of_erase found)
      · have old := wf.allocated (Finset.mem_of_mem_erase present)
        exact Finset.mem_erase.2 ⟨Finset.ne_of_mem_erase present, old⟩
      · exact Finset.mem_erase.2 ⟨notRoot.symm, wf.root⟩
      · intro source succs found target member
        have old := lookup_of_erase found
        refine Finset.mem_erase.2 ⟨?_, wf.closed source succs old target member⟩
        rintro rfl
        exact unreferenced source succs old member
    ephemeralCached := by
      intro other allocated uncached
      obtain ⟨differ, allocated⟩ := Finset.mem_erase.1 allocated
      simp only [lookup_erase, differ, if_false] at uncached
      exact Finset.mem_erase.2 ⟨differ, inv.ephemeralCached other allocated uncached⟩
    cacheSuccessors other node succs cached found :=
      inv.cacheSuccessors other node succs (lookup_of_erase cached) (lookup_of_erase found)
    notBeingWritten := by
      intro other loc uncached found
      simp only [lookup_erase] at uncached found
      split_ifs at uncached found
      exact inv.notBeingWritten other loc uncached found
    ephemeralWrites other loc found := inv.ephemeralWrites other loc (lookup_of_erase found)
    ephemeralDistinct ref1 ref2 loc1 loc2 found1 found2 :=
      inv.ephemeralDistinct ref1 ref2 loc1 loc2 (lookup_of_erase found1) (lookup_of_erase found2)
    frozenCached := by
      intro table isFrozen other allocated uncached
      simp only [lookup_erase] at uncached
      split_ifs at uncached with gone
      · subst gone
        exact frozen table isFrozen allocated
      · exact inv.frozenCached table isFrozen other allocated uncached }

theorem InvReady.pageInNodeReq (inv : InvReady r)
    (next : PageInNodeReq (.ready r) (.ready r') dop vop ref) : InvReady r' := by
  obtain ⟨_, _, _, ⟨⟩, -, -, -, -, -, notReading, ⟨⟩⟩ := next
  exact { inv with
    readsUnique := by
      have unique := inv.readsUnique
      intro id1 id2 read found1 found2
      simp only [lookup_insert] at found1 found2
      grind [OutstandingReadRefsUnique, OutstandingBlockReadsDoesNotHaveRef] }

theorem InvReady.pageInNodeResp (inv : InvReady r)
    (next : PageInNodeResp (.ready r) (.ready r') dop vop) : InvReady r' := by
  obtain ⟨_, _, _, _, _, ⟨⟩, -, -, -, -, found, agrees, ⟨⟩⟩ := next
  exact { inv with
    ephemeralCached other allocated uncached :=
      inv.ephemeralCached other allocated (absent_of_insert uncached)
    cacheSuccessors := by
      intro other node succs' cached found'
      obtain ⟨rfl, ⟨⟩⟩ | ⟨same, cached⟩ := lookup_insert_eq_some.mp cached
      · rw [found] at found'
        cases found'
        exact agrees
      · exact inv.cacheSuccessors other node succs' cached found'
    notBeingWritten other loc uncached :=
      inv.notBeingWritten other loc (absent_of_insert uncached)
    readsUnique id1 id2 read found1 found2 :=
      inv.readsUnique id1 id2 read (lookup_of_erase found1) (lookup_of_erase found2)
    frozenCached table isFrozen other allocated uncached :=
      inv.frozenCached table isFrozen other allocated (absent_of_insert uncached) }

theorem InvReady.pageInIndirectionTableResp (valid : ValidIndirectionTableLocation loc)
    (complete : WFCompleteIndirectionTable table)
    (distinct : AllLocationsForDifferentRefsDontOverlap table) :
    InvReady (⟨table, none, table, loc, none, none, .empty, .empty, .empty⟩ : Ready Node) where
  persistentWF := complete
  ephemeralWF := { complete with allocated := complete.complete.symm.subset }
  ephemeralCached ref allocated _ := complete.complete ▸ allocated
  cacheSuccessors := by simp [CacheConsistentWithSuccessors]
  notBeingWritten := by simp [EphemeralTableEntriesInCacheOrNotBeingWritten]
  readsUnique := by simp [OutstandingReadRefsUnique]
  ephemeralWrites := by simp [OverlappingWritesEqForIndirectionTable]
  persistentWrites := by simp [OverlappingWritesEqForIndirectionTable]
  writesValid := by simp [OutstandingWriteValidNodeLocation]
  writesDistinct := by simp [AllOutstandingBlockWritesDontOverlap]
  ephemeralDistinct := distinct
  frozenWF := by simp
  frozenCached := by simp
  frozenWrites := by simp
  tableWrite := by simp
  frozenComplete := by simp
  persistentLocValid := valid
  frozenLocValid := by simp

theorem InvReady.evict (inv : InvReady r)
    (next : Evict (.ready r) (.ready r') dop vop ref) : InvReady r' := by
  obtain ⟨_, ⟨⟩, -, -, -, written, frozen, ⟨⟩⟩ := next
  exact { inv with
    ephemeralCached := by
      intro other allocated uncached
      simp only [lookup_erase] at uncached
      split_ifs at uncached with gone
      · subst gone
        obtain ⟨loc, found, _⟩ := written allocated
        exact FiniteMap.mem_support_of_lookup found
      · exact inv.ephemeralCached other allocated uncached
    cacheSuccessors other node succs cached :=
      inv.cacheSuccessors other node succs (lookup_of_erase cached)
    notBeingWritten := by
      intro other loc uncached found id write outstanding
      simp only [lookup_erase] at uncached
      split_ifs at uncached with gone
      · subst gone
        have allocated : other ∈ r.ephemeralIndirectionTable.graph.support := by
          apply inv.ephemeralWF.allocated
          exact FiniteMap.mem_support_of_lookup found
        obtain ⟨_, found', notWriting⟩ := written allocated
        rw [found] at found'
        cases found'
        by_contra both
        push Not at both
        -- The write would be to the very location of the node, which rules it out.
        have same := inv.ephemeralWrites other loc found id write outstanding both.2.symm
        obtain ⟨_, _⟩ := write
        simp only at both same
        rw [both.1, ← same] at outstanding
        exact notWriting id outstanding
      · exact inv.notBeingWritten other loc uncached found id write outstanding
    frozenCached := by
      intro table isFrozen other allocated uncached
      simp only [lookup_erase] at uncached
      split_ifs at uncached with gone
      · subst gone
        exact frozen table isFrozen allocated
      · exact inv.frozenCached table isFrozen other allocated uncached }

theorem InvReady.freeze (inv : InvReady r)
    (next : Freeze (.ready r) (.ready r') dop vop) : InvReady r' := by
  obtain ⟨_, ⟨⟩, -, -, noTableWrite, ⟨⟩⟩ := next
  exact { inv with
    frozenWF := by
      rintro _ ⟨⟩
      exact inv.ephemeralWF
    frozenCached := by
      rintro _ ⟨⟩
      exact inv.ephemeralCached
    frozenWrites := by
      rintro _ ⟨⟩
      exact inv.ephemeralWrites
    tableWrite := by simp [noTableWrite]
    frozenComplete := by simp
    frozenLocValid := by simp }

theorem InvReady.cleanUp (inv : InvReady r)
    (next : CleanUp (.ready r) (.ready r') dop vop) : InvReady r' := by
  obtain ⟨_, loc, table, ⟨⟩, -, -, noTableWrite, known, isFrozen, ⟨⟩⟩ := next
  exact { inv with
    persistentWF := inv.frozenComplete_of (by simp [known]) isFrozen
    persistentWrites := inv.frozenWrites table isFrozen
    frozenWF := by simp
    frozenCached := by simp
    frozenWrites := by simp
    tableWrite := by simp [noTableWrite]
    frozenComplete := by simp
    persistentLocValid := (inv.frozenLocValid loc known).1
    frozenLocValid := by simp }

/-- The node is cached with its new content and has no location. -/
def setNode (r : Ready Node) (ref : Reference) (block : Node) (succs : List Reference) :
    Ready Node :=
  { r with
    cache := r.cache.insert ref block
    ephemeralIndirectionTable :=
      ⟨r.ephemeralIndirectionTable.locs.erase ref,
        r.ephemeralIndirectionTable.graph.insert ref succs⟩ }

/-- Both kinds of operations give a node a content that the frozen version does
not need from the cache. -/
theorem opStep_setNode {s s' : Variables Node} {op : Op Node} (inv : InvReady r)
    (isReady : s = .ready r) (step : OpStep s s' op) :
    ∃ succs, s' = .ready (setNode r op.ref op.node succs) ∧
      { target | target ∈ succs } = successors op.node ∧
      BlockPointsToValidReferences op.node r.ephemeralIndirectionTable.graph ∧
      FrozenHasLocation r op.ref ∧
      (r.cache.lookup op.ref ≠ none ∨
        r.ephemeralIndirectionTable.locs.lookup op.ref = none) := by
  cases op with
  | writeOp ref block =>
    obtain ⟨r', succs, isReady', cached, _, targets, frozen, agrees, rfl⟩ := step
    rw [isReady] at isReady'
    cases isReady'
    exact ⟨succs, rfl, agrees, targets, frozen, Or.inl cached⟩
  | allocOp ref block =>
    obtain ⟨r', succs, isReady', uncached, unallocated, targets, agrees, rfl⟩ := step
    rw [isReady] at isReady'
    cases isReady'
    have noLoc : r.ephemeralIndirectionTable.locs.lookup ref = none := by
      by_contra located
      apply unallocated
      apply inv.ephemeralWF.allocated
      rw [mem_support]
      exact Option.isSome_iff_ne_none.2 located
    have sameLocs : r.ephemeralIndirectionTable.locs.erase ref =
        r.ephemeralIndirectionTable.locs := by
      ext1 other
      rw [lookup_erase]
      split_ifs with same
      · rw [same, noLoc]
      · rfl
    refine ⟨succs, ?_, agrees, targets, ?_, Or.inr noLoc⟩
    · simp only [setNode, Op.ref, Op.node, sameLocs]
    · intro table isFrozen allocated
      exact inv.frozenCached table isFrozen ref allocated uncached

theorem InvReady.setNode (inv : InvReady r)
    (agrees : { target | target ∈ succs } = successors block)
    (targets : BlockPointsToValidReferences block r.ephemeralIndirectionTable.graph) :
    InvReady (setNode r ref block succs) where
  __ := inv
  ephemeralWF := by
    have wf := inv.ephemeralWF
    refine ⟨fun other loc found => ?_, fun other present => ?_, ?_, ?_⟩
    · exact wf.validLocs other loc (lookup_of_erase found)
    · exact Finset.mem_insert_of_mem (wf.allocated (Finset.mem_of_mem_erase present))
    · exact Finset.mem_insert_of_mem wf.root
    · intro source succs' found target member
      apply Finset.mem_insert_of_mem
      simp only [BlockCache.setNode, lookup_insert] at found
      split_ifs at found with same
      · cases found
        have isTarget : target ∈ { target | target ∈ succs } := member
        rw [agrees] at isTarget
        exact targets target isTarget
      · exact wf.closed source succs' found target member
  ephemeralCached := by
    intro other allocated uncached
    simp only [BlockCache.setNode, lookup_insert] at uncached
    split_ifs at uncached with same
    refine Finset.mem_erase.2 ⟨same, inv.ephemeralCached other ?_ uncached⟩
    exact (Finset.mem_insert.1 allocated).resolve_left same
  cacheSuccessors := by
    intro other node succs' cached found
    simp only [BlockCache.setNode, lookup_insert] at cached found
    split_ifs at cached found with same
    · cases cached
      cases found
      exact agrees
    · exact inv.cacheSuccessors other node succs' cached found
  notBeingWritten other loc uncached found :=
    inv.notBeingWritten other loc (absent_of_insert uncached) (lookup_of_erase found)
  ephemeralWrites other loc found := inv.ephemeralWrites other loc (lookup_of_erase found)
  ephemeralDistinct ref1 ref2 loc1 loc2 found1 found2 :=
    inv.ephemeralDistinct ref1 ref2 loc1 loc2 (lookup_of_erase found1) (lookup_of_erase found2)
  frozenCached table isFrozen other allocated uncached :=
    inv.frozenCached table isFrozen other allocated (absent_of_insert uncached)

end Preservation

end VerifiedBetrfs.BlockCache
