import VerifiedBetrfs.BlockSystemInv

/-!
# Crash safety of the block system

With the requests on the disk's queue apart, every step and every crash is safe.
-/

namespace VerifiedBetrfs.BlockSystem

universe u

open DiskLayout SectorType ViewOp BlockDisk GraphNode BlockCache

open FiniteMap (lookup_of_erase lookup_erase lookup_insert)

section Requests

variable {reads writes reads' writes' : FiniteMap ReqId Location} {id : ReqId} {loc : Location}

section

variable (apart : RequestsApart reads writes)

include apart

theorem RequestsApart.mono
    (fewerReads : ∀ id loc, reads'.lookup id = some loc → reads.lookup id = some loc)
    (fewerWrites : ∀ id loc, writes'.lookup id = some loc → writes.lookup id = some loc) :
    RequestsApart reads' writes' where
  writesDontOverlap id id' loc loc' found found' :=
    apart.writesDontOverlap id id' loc loc' (fewerWrites _ _ found) (fewerWrites _ _ found')
  writesDistinct id id' loc found found' :=
    apart.writesDistinct id id' loc (fewerWrites _ _ found) (fewerWrites _ _ found')
  readsDontOverlap id id' loc loc' found found' :=
    apart.readsDontOverlap id id' loc loc' (fewerReads _ _ found) (fewerWrites _ _ found')
  readsDistinct id id' loc loc' found found' :=
    apart.readsDistinct id id' loc loc' (fewerReads _ _ found) (fewerWrites _ _ found')

theorem RequestsApart.eraseRead (id : ReqId) : RequestsApart (reads.erase id) writes :=
  apart.mono (fun _ _ => lookup_of_erase) (fun _ _ found => found)

theorem RequestsApart.eraseWrite (id : ReqId) : RequestsApart reads (writes.erase id) :=
  apart.mono (fun _ _ found => found) (fun _ _ => lookup_of_erase)

theorem RequestsApart.insertRead
    (fresh : ∀ id' loc', writes.lookup id' = some loc' → ¬ overlap loc loc' ∧ loc ≠ loc') :
    RequestsApart (reads.insert id loc) writes where
  __ := apart
  readsDontOverlap := by
    intro id1 id2 loc1 loc2 found1 found2
    rw [lookup_insert] at found1
    split_ifs at found1
    · cases found1
      exact (fresh id2 loc2 found2).1
    · exact apart.readsDontOverlap id1 id2 loc1 loc2 found1 found2
  readsDistinct := by
    intro id1 id2 loc1 loc2 found1 found2
    rw [lookup_insert] at found1
    split_ifs at found1
    · cases found1
      exact (fresh id2 loc2 found2).2
    · exact apart.readsDistinct id1 id2 loc1 loc2 found1 found2

theorem RequestsApart.insertWrite
    (freshReads : ∀ id' loc', reads.lookup id' = some loc' → ¬ overlap loc' loc ∧ loc' ≠ loc)
    (freshWrites : ∀ id' loc', writes.lookup id' = some loc' →
      ¬ overlap loc' loc ∧ loc' ≠ loc) :
    RequestsApart reads (writes.insert id loc) where
  writesDontOverlap := by
    have old := apart.writesDontOverlap
    intro id1 id2 loc1 loc2 found1 found2 overlaps
    rw [lookup_insert] at found1 found2
    grind [WriteRequestsDontOverlap, overlap_comm]
  writesDistinct := by
    have old := apart.writesDistinct
    intro id1 id2 loc1 found1 found2
    rw [lookup_insert] at found1 found2
    grind [WriteRequestsAreDistinct]
  readsDontOverlap := by
    intro id1 id2 loc1 loc2 found1 found2
    rw [lookup_insert] at found2
    split_ifs at found2
    · cases found2
      exact (freshReads id1 loc1 found1).1
    · exact apart.readsDontOverlap id1 id2 loc1 loc2 found1 found2
  readsDistinct := by
    intro id1 id2 loc1 loc2 found1 found2
    rw [lookup_insert] at found2
    split_ifs at found2
    · cases found2
      exact (freshReads id1 loc1 found1).2
    · exact apart.readsDistinct id1 id2 loc1 loc2 found1 found2

end

theorem apart_of_addr_ne {loc loc' : Location} (valid : ValidNodeLocation loc)
    (valid' : ValidNodeLocation loc') (differ : loc.addr ≠ loc'.addr) :
    ¬ overlap loc loc' ∧ loc ≠ loc' :=
  ⟨fun overlaps => differ (overlappingNodesSameAddr valid valid' overlaps),
    fun same => differ (congrArg Location.addr same)⟩

end Requests

section Recorded

variable {Node : Type u} [GraphNode Node] {r r' : Ready Node}
  {disk disk' : BlockDisk.Variables Node} {id : ReqId} {loc : Location}

/-- The queue of the disk while the cache is ready. -/
structure ReadyRequests (r : Ready Node) (disk : BlockDisk.Variables Node) : Prop where
  nodes : RequestsApart disk.reqReadNodes disk.reqWriteNodes
  tables : RequestsApart disk.reqReadIndirectionTables disk.reqWriteIndirectionTables
  nodeWrites : ∀ id loc, disk.reqWriteNodes.lookup id = some loc →
    r.outstandingBlockWrites.lookup id ≠ none
  nodeReads : ∀ id loc, disk.reqReadNodes.lookup id = some loc →
    r.outstandingBlockReads.lookup id ≠ none
  tableWrites : ∀ id loc, disk.reqWriteIndirectionTables.lookup id = some loc →
    r.outstandingIndirectionTableWrite = some id
  tableReads : ∀ id, disk.reqReadIndirectionTables.lookup id = none

omit [GraphNode Node] in
theorem requestsInv_ready : RequestsInv ⟨.ready r, disk⟩ ↔ ReadyRequests r disk := by
  constructor
  · intro requests
    refine ⟨requests.nodes, requests.tables, ?_, ?_, ?_, ?_⟩
    · intro id loc found
      obtain ⟨_, ⟨⟩, recorded⟩ := requests.recordedNodeWrites id loc found
      exact recorded
    · intro id loc found
      obtain ⟨_, ⟨⟩, recorded⟩ := requests.recordedNodeReads id loc found
      exact recorded
    · intro id loc found
      obtain ⟨_, ⟨⟩, recorded⟩ := requests.recordedTableWrites id loc found
      exact recorded
    · intro id
      cases found : disk.reqReadIndirectionTables.lookup id with
      | none => rfl
      | some loc =>
        obtain ⟨_, ⟨⟩⟩ := requests.recordedTableReads id loc found
  · intro requests
    refine ⟨requests.nodes, requests.tables, ?_, ?_, ?_, ?_⟩
    · exact fun id loc found => ⟨r, rfl, requests.nodeWrites id loc found⟩
    · exact fun id loc found => ⟨r, rfl, requests.nodeReads id loc found⟩
    · exact fun id loc found => ⟨r, rfl, requests.tableWrites id loc found⟩
    · intro id loc found
      simp [requests.tableReads id] at found

theorem ReadyRequests.recordedWrite (requests : ReadyRequests r disk) (inv : InvReady r disk)
    (found : disk.reqWriteNodes.lookup id = some loc) :
    ∃ write, r.outstandingBlockWrites.lookup id = some write ∧ write.loc = loc ∧
      CorrectInflightNodeWrite r disk id write.ref loc := by
  obtain ⟨write, outstanding⟩ := Option.ne_none_iff_exists'.1 (requests.nodeWrites id loc found)
  have correct := inv.nodeWrites id write outstanding
  obtain rfl := correct.2.2.2.2 loc found
  exact ⟨write, outstanding, rfl, correct⟩

theorem ReadyRequests.recordedRead (requests : ReadyRequests r disk) (inv : InvReady r disk)
    (found : disk.reqReadNodes.lookup id = some loc) :
    ∃ read, r.outstandingBlockReads.lookup id = some read ∧
      r.cache.lookup read.ref = none ∧
      r.ephemeralIndirectionTable.locs.lookup read.ref = some loc := by
  obtain ⟨read, outstanding⟩ := Option.ne_none_iff_exists'.1 (requests.nodeReads id loc found)
  obtain ⟨uncached, _, located, _, request⟩ := inv.blockReads id read outstanding
  obtain rfl := request loc found
  exact ⟨read, outstanding, uncached, located⟩

end Recorded

section Quiet

variable {Node : Type u} [GraphNode Node] {r r' : Ready Node}
  {disk disk' : BlockDisk.Variables Node} {table : SectorType.IndirectionTable} {loc : Location}

theorem inv_of_ready (cache : BlockCache.InvReady r) (inv : InvReady r disk)
    (requests : ReadyRequests r disk) : Inv ⟨.ready r, disk⟩ where
  cache := cache
  ready := by
    rintro _ ⟨⟩
    exact inv
  loading := by
    rintro _ _ ⟨⟩
  requests := requestsInv_ready.2 requests

theorem Inv.parts (inv : Inv ⟨.ready r, disk⟩) :
    BlockCache.InvReady r ∧ InvReady r disk ∧ ReadyRequests r disk :=
  ⟨inv.cache, inv.ready r rfl, requestsInv_ready.1 inv.requests⟩

theorem keptTable_cases (inv : InvReady r disk) (succs : WFSuccs disk loc table)
    (matters : persistentLoc ⟨.ready r, disk⟩ = none ∨
      persistentLoc ⟨.ready r, disk⟩ = some loc ∨ frozenLoc ⟨.ready r, disk⟩ = some loc) :
    loc = r.persistentIndirectionTableLoc ∧ table = r.persistentIndirectionTable ∨
    r.outstandingIndirectionTableWrite = none ∧ r.frozenIndirectionTableLoc = some loc ∧
      r.frozenIndirectionTable = some table := by
  rcases matters with unknown | persistent | frozen
  · simp [persistentLoc] at unknown
  · simp only [persistentLoc, Option.some.injEq] at persistent
    subst persistent
    have onDisk := inv.persistentOnDisk.onDisk
    rw [succs.onDisk] at onDisk
    exact Or.inl ⟨rfl, Option.some.inj onDisk⟩
  · obtain ⟨noWrite, known⟩ := frozenLoc_eq_some rfl frozen
    obtain ⟨_, isFrozen, _, onDisk⟩ := inv.frozenOnDisk loc known
    rw [succs.onDisk] at onDisk
    rw [← Option.some.inj onDisk] at isFrozen
    exact Or.inr ⟨noWrite, known, isFrozen⟩

/-- The invariant and the graphs on disk are kept, and the application notices nothing. -/
structure Quiet (s s' : Variables Node) : Prop where
  inv : Inv s'
  preserves : DiskChangesPreservesPersistentAndFrozen s s'
  graph : ephemeralGraphOpt s' = ephemeralGraphOpt s

theorem quiet_of_same (inv : Inv ⟨.ready r, disk⟩) (cache' : BlockCache.InvReady r')
    (inv' : InvReady r' disk') (requests' : ReadyRequests r' disk')
    (sameTables : disk'.indirectionTables = disk.indirectionTables)
    (sameNodes : disk'.nodes = disk.nodes)
    (sameGraph : diskCacheGraph r'.ephemeralIndirectionTable disk.nodes r'.cache =
      diskCacheGraph r.ephemeralIndirectionTable disk.nodes r.cache) :
    Quiet ⟨.ready r, disk⟩ ⟨.ready r', disk'⟩ := by
  obtain ⟨cache, ready, _⟩ := inv.parts
  refine ⟨inv_of_ready cache' inv' requests', preserves_of_same inv sameTables sameNodes, ?_⟩
  rw [ephemeralGraphOpt_ready cache ready, ephemeralGraphOpt_ready cache' inv', sameNodes,
    sameGraph]

section

variable {s s' : BlockCache.Variables Node} {ref : Reference} {dop : DiskOp Node} {vop : VOp}
  (inv : Inv ⟨s, disk⟩) (diskNext : BlockDisk.Next disk disk' dop)

include inv diskNext

theorem writeBackNodeReq_quiet (next : WriteBackNodeReq s s' dop vop ref) :
    Quiet ⟨s, disk⟩ ⟨s', disk'⟩ := by
  obtain ⟨r, id, req, rfl, rfl, -, cached, valid, -, allocation, rfl⟩ := id next
  obtain ⟨cache, ready, requests⟩ := inv.parts
  have cache' := cache.writeBackNodeReq next
  have ready' := ready.writeBackNodeReq cache next diskNext
  obtain ⟨-, update, same⟩ : RecvWriteNode disk disk' id req := diskNext
  rw [same] at ready' ⊢
  refine ⟨inv_of_ready cache' ready' { requests with nodes := ?_, nodeWrites := ?_ }, ?_, ?_⟩
  · apply requests.nodes.insertWrite
    · intro id' loc' found
      obtain ⟨_, _, _, located⟩ := requests.recordedRead ready found
      exact apart_of_addr_ne (cache.ephemeralWF.validLocs _ loc' located) valid
        (allocation.ephemeral _ loc' located)
    · intro id' loc' found
      obtain ⟨write, outstanding, rfl, correct⟩ := requests.recordedWrite ready found
      exact apart_of_addr_ne correct.1 valid (allocation.writes id' write outstanding)
  · intro id' loc' found
    simp only [lookup_insert] at found ⊢
    split_ifs at found ⊢
    · simp
    · exact requests.nodeWrites id' loc' found
  · -- The persistent and the frozen table do not use the address of the write.
    apply preserves_of_kept inv
    intro loc' table' succs matters
    refine ⟨succs.onDisk, ?_⟩
    have unused : AddrUnused table' req.loc.addr := by
      rcases keptTable_cases ready succs matters with ⟨_, rfl⟩ | ⟨_, _, isFrozen⟩
      · exact allocation.persistent
      · exact allocation.frozen table' isFrozen
    exact keeps_of_unused succs.complete.validLocs valid unused update
  · have keeps := keeps_of_unused cache.ephemeralWF.validLocs valid allocation.ephemeral update
    rw [ephemeralGraphOpt_ready cache ready, ephemeralGraphOpt_ready cache' ready']
    simp only [diskCacheGraph_assign ready.ephemeralNodes keeps cached update.1]

theorem writeBackNodeResp_quiet (next : WriteBackNodeResp s s' dop vop) :
    Quiet ⟨s, disk⟩ ⟨s', disk'⟩ := by
  obtain ⟨r, id, rfl, rfl, -, -, rfl⟩ := id next
  obtain ⟨cache, ready, requests⟩ := inv.parts
  have ready' := ready.writeBackNodeResp next diskNext
  obtain ⟨-, rfl⟩ : AckWriteNode disk disk' id := diskNext
  refine quiet_of_same inv (cache.writeBackNodeResp next) ready'
    { requests with nodes := requests.nodes.eraseWrite id, nodeWrites := ?_ } rfl rfl rfl
  intro id' loc' found
  simp only [lookup_erase] at found ⊢
  split_ifs at found ⊢
  exact requests.nodeWrites id' loc' found

theorem writeBackIndirectionTableReq_quiet (next : WriteBackIndirectionTableReq s s' dop vop) :
    Quiet ⟨s, disk⟩ ⟨s', disk'⟩ := by
  obtain ⟨r, id, req, rfl, rfl, -, -, -, -, -, noLoc, apart, rfl⟩ := id next
  obtain ⟨cache, ready, requests⟩ := inv.parts
  have cache' := cache.writeBackIndirectionTableReq next
  have ready' := ready.writeBackIndirectionTableReq cache next diskNext
  obtain ⟨-, update, same⟩ : RecvWriteIndirectionTable disk disk' id req := diskNext
  -- No other table is being written, since there was no frozen location.
  have noTableWrites : ∀ id', disk.reqWriteIndirectionTables.lookup id' = none := by
    intro id'
    cases found : disk.reqWriteIndirectionTables.lookup id' with
    | none => rfl
    | some loc' =>
      have outstanding := requests.tableWrites id' loc' found
      exact absurd noLoc (cache.tableWrite (by simp [outstanding]))
  rw [same] at ready' ⊢
  refine ⟨inv_of_ready cache' ready' { requests with tables := ?_, tableWrites := ?_ }, ?_, ?_⟩
  · apply requests.tables.insertWrite
    · simp [requests.tableReads]
    · simp [noTableWrites]
  · intro id' loc' found
    simp only [lookup_insert, noTableWrites] at found
    split_ifs at found with new
    rw [new]
  · apply preserves_of_kept inv
    intro loc' table' succs matters
    refine ⟨?_, .refl _ _⟩
    rcases keptTable_cases ready succs matters with ⟨rfl, _⟩ | ⟨_, known, _⟩
    · apply update.2 _ table' succs.onDisk
      exact fun overlaps => apart (overlap_comm.1 overlaps)
    · simp [noLoc] at known
  · rw [ephemeralGraphOpt_ready cache ready, ephemeralGraphOpt_ready cache' ready']

theorem writeBackIndirectionTableResp_quiet (next : WriteBackIndirectionTableResp s s' dop vop) :
    Quiet ⟨s, disk⟩ ⟨s', disk'⟩ := by
  obtain ⟨r, id, loc, rfl, rfl, -, -, outstanding, rfl⟩ := id next
  obtain ⟨cache, ready, requests⟩ := inv.parts
  have ready' := ready.writeBackIndirectionTableResp next diskNext
  obtain ⟨-, rfl⟩ : AckWriteIndirectionTable disk disk' id := diskNext
  refine quiet_of_same inv (cache.writeBackIndirectionTableResp next) ready'
    { requests with tables := requests.tables.eraseWrite id, tableWrites := ?_ } rfl rfl rfl
  intro id' loc' found
  simp only [lookup_erase] at found
  split_ifs at found with gone
  have sameId := requests.tableWrites id' loc' found
  rw [outstanding] at sameId
  exact absurd (Option.some.inj sameId).symm gone

theorem pageInNodeReq_quiet (next : PageInNodeReq s s' dop vop ref) :
    Quiet ⟨s, disk⟩ ⟨s', disk'⟩ := by
  obtain ⟨r, id, loc, rfl, rfl, -, -, located, uncached, -, rfl⟩ := id next
  obtain ⟨cache, ready, requests⟩ := inv.parts
  have ready' := ready.pageInNodeReq next diskNext
  obtain ⟨-, rfl⟩ : RecvReadNode disk disk' id loc := diskNext
  have valid := cache.ephemeralWF.validLocs ref loc located
  refine quiet_of_same inv (cache.pageInNodeReq next) ready'
    { requests with nodes := ?_, nodeReads := ?_ } rfl rfl rfl
  · apply requests.nodes.insertRead
    intro id' loc' found
    obtain ⟨write, outstanding, rfl, correct⟩ := requests.recordedWrite ready found
    obtain ⟨valid', onlyBy, _⟩ := correct
    apply apart_of_addr_ne valid valid'
    intro sameAddr
    -- The write would be of this very node, which would still be in the cache.
    have sameRef := onlyBy ref loc located sameAddr
    rcases cache.notBeingWritten ref loc uncached located id' write outstanding with
      otherRef | otherAddr
    · exact otherRef sameRef.symm
    · exact otherAddr sameAddr.symm
  · intro id' loc' found
    simp only [lookup_insert] at found ⊢
    split_ifs at found ⊢
    · simp
    · exact requests.nodeReads id' loc' found

theorem pageInNodeResp_quiet (next : PageInNodeResp s s' dop vop) :
    Quiet ⟨s, disk⟩ ⟨s', disk'⟩ := by
  obtain ⟨r, id, ref, block, _, rfl, rfl, -, -, -, -, -, rfl⟩ := id next
  obtain ⟨cache, ready, requests⟩ := inv.parts
  obtain ⟨ready', sameGraph⟩ := ready.pageInNodeResp cache next diskNext
  obtain ⟨_, -, -, rfl⟩ : AckReadNode disk disk' id (some block) := diskNext
  refine quiet_of_same inv (cache.pageInNodeResp next) ready'
    { requests with nodes := requests.nodes.eraseRead id, nodeReads := ?_ } rfl rfl sameGraph
  intro id' loc' found
  simp only [lookup_erase] at found ⊢
  split_ifs at found ⊢
  exact requests.nodeReads id' loc' found

theorem evict_quiet (next : Evict s s' dop vop ref) : Quiet ⟨s, disk⟩ ⟨s', disk'⟩ := by
  obtain ⟨r, rfl, rfl, -, -, -, -, rfl⟩ := id next
  obtain rfl : disk' = disk := diskNext
  obtain ⟨cache, ready, requests⟩ := inv.parts
  obtain ⟨ready', sameGraph⟩ := ready.evict next
  exact quiet_of_same inv (cache.evict next) ready' { requests with } rfl rfl sameGraph

theorem freeze_quiet (next : Freeze s s' dop vop) : Quiet ⟨s, disk⟩ ⟨s', disk'⟩ := by
  obtain ⟨r, rfl, rfl, -, -, rfl⟩ := id next
  obtain rfl : disk' = disk := diskNext
  obtain ⟨cache, ready, requests⟩ := inv.parts
  exact quiet_of_same inv (cache.freeze next) (ready.freeze next) { requests with } rfl rfl rfl

theorem cleanUp_quiet (next : CleanUp s s' dop vop) : Quiet ⟨s, disk⟩ ⟨s', disk'⟩ := by
  obtain ⟨r, loc, table, rfl, rfl, -, -, -, -, rfl⟩ := id next
  obtain rfl : disk' = disk := diskNext
  obtain ⟨cache, ready, requests⟩ := inv.parts
  exact quiet_of_same inv (cache.cleanUp next) (ready.cleanUp cache next) { requests with } rfl rfl
    rfl

end

/-- An answer to a read that the cache ignores only shortens the queue. -/
theorem ignoredRead_quiet {id : ReqId} {node : Option Node} (inv : Inv ⟨.ready r, disk⟩)
    (ack : AckReadNode disk disk' id node) : Quiet ⟨.ready r, disk⟩ ⟨.ready r, disk'⟩ := by
  obtain ⟨cache, ready, requests⟩ := inv.parts
  obtain ⟨_, _, _, rfl⟩ := ack
  have ready' : InvReady r { disk with reqReadNodes := disk.reqReadNodes.erase id } :=
    { ready with
      persistentOnDisk :=
        ready.persistentOnDisk.kept ready.persistentOnDisk.onDisk (.refl _ _)
      blockReads := by
        intro id' read outstanding
        obtain ⟨uncached, used, located, onDisk, request⟩ := ready.blockReads id' read outstanding
        exact ⟨uncached, used, located, onDisk,
          fun requested found => request requested (lookup_of_erase found)⟩ }
  exact quiet_of_same inv cache ready'
    { requests with
      nodes := requests.nodes.eraseRead id
      nodeReads := fun id' loc' found => requests.nodeReads id' loc' (lookup_of_erase found) }
    rfl rfl rfl

end Quiet

section Loading

variable {Node : Type u} [GraphNode Node] {s s' : BlockCache.Variables Node}
  {disk disk' : BlockDisk.Variables Node} {table : SectorType.IndirectionTable} {loc : Location}
  {read read' : Option ReqId} {dop : DiskOp Node} {vop : VOp}

omit [GraphNode Node] in
/-- Only a ready cache has requests for nodes or writes a table. -/
theorem RequestsInv.idle {s : Variables Node} (requests : RequestsInv s)
    (notReady : ∀ r, s.machine ≠ .ready r) :
    s.disk.reqReadNodes = .empty ∧ s.disk.reqWriteNodes = .empty ∧
      s.disk.reqWriteIndirectionTables = .empty := by
  refine ⟨?_, ?_, ?_⟩
  · ext1 id
    cases found : s.disk.reqReadNodes.lookup id with
    | none => rfl
    | some loc =>
      obtain ⟨r, isReady, _⟩ := requests.recordedNodeReads id loc found
      exact absurd isReady (notReady r)
  · ext1 id
    cases found : s.disk.reqWriteNodes.lookup id with
    | none => rfl
    | some loc =>
      obtain ⟨r, isReady, _⟩ := requests.recordedNodeWrites id loc found
      exact absurd isReady (notReady r)
  · ext1 id
    cases found : s.disk.reqWriteIndirectionTables.lookup id with
    | none => rfl
    | some loc =>
      obtain ⟨r, isReady, _⟩ := requests.recordedTableWrites id loc found
      exact absurd isReady (notReady r)

theorem ephemeralGraphOpt_loading (succs : WFSuccs disk loc table) (read : Option ReqId) :
    ephemeralGraphOpt ⟨.loadingIndirectionTable loc read, disk⟩ =
      some (diskGraph table disk.nodes) := by
  simp [ephemeralGraphOpt, succs.onDisk, succs.toWFDiskGraphOfLoc]

theorem quiet_of_loading {reads' : FiniteMap ReqId Location}
    (inv : Inv ⟨.loadingIndirectionTable loc read, disk⟩)
    (correct : ∀ id requested, read' = some id → reads'.lookup id = some requested →
      requested = loc)
    (recorded : ∀ id requested, reads'.lookup id = some requested → read' = some id) :
    Quiet ⟨.loadingIndirectionTable loc read, disk⟩
      ⟨.loadingIndirectionTable loc read',
        { disk with reqReadIndirectionTables := reads' }⟩ := by
  obtain ⟨noReads, noWrites, noTableWrites⟩ := inv.requests.idle (by simp)
  simp only at noReads noWrites noTableWrites
  obtain ⟨_, table, succs⟩ := inv.loading loc read rfl
  have succs' : WFSuccs { disk with reqReadIndirectionTables := reads' } loc table :=
    succs.kept succs.onDisk (.refl _ _)
  refine ⟨⟨inv.cache, by simp, ?_, ?_⟩, preserves_of_same inv rfl rfl, ?_⟩
  · rintro _ _ ⟨⟩
    exact ⟨correct, table, succs'⟩
  · refine ⟨inv.requests.nodes, ?_, ?_, ?_, ?_, ?_⟩
    · constructor
      · simp [WriteRequestsDontOverlap, noTableWrites]
      · simp [WriteRequestsAreDistinct, noTableWrites]
      · simp [ReadWritesDontOverlap, noTableWrites]
      · simp [ReadWritesAreDistinct, noTableWrites]
    · simp [noWrites]
    · simp [noReads]
    · simp [noTableWrites]
    · intro id requested found
      exact ⟨loc, by rw [recorded id requested found]⟩
  · rw [ephemeralGraphOpt_loading succs, ephemeralGraphOpt_loading succs']

theorem pageInIndirectionTableReq_quiet (inv : Inv ⟨s, disk⟩)
    (diskNext : BlockDisk.Next disk disk' dop) (next : PageInIndirectionTableReq s s' dop vop) :
    Quiet ⟨s, disk⟩ ⟨s', disk'⟩ := by
  obtain ⟨id, loc, rfl, rfl, -, rfl⟩ := next
  obtain ⟨-, rfl⟩ : RecvReadIndirectionTable disk disk' id loc := diskNext
  have noReads : ∀ id', disk.reqReadIndirectionTables.lookup id' = none := by
    intro id'
    cases found : disk.reqReadIndirectionTables.lookup id' with
    | none => rfl
    | some requested =>
      obtain ⟨_, recorded⟩ := inv.requests.recordedTableReads id' requested found
      simp at recorded
  apply quiet_of_loading inv
  · intro id' requested _ found
    simp only [lookup_insert, noReads] at found
    split_ifs at found
    exact (Option.some.inj found).symm
  · intro id' requested found
    simp only [lookup_insert, noReads] at found
    split_ifs at found with same
    rw [same]

theorem ignoredTableRead_quiet {id : ReqId} {answer : Option SectorType.IndirectionTable}
    (inv : Inv ⟨.loadingIndirectionTable loc read, disk⟩)
    (ack : AckReadIndirectionTable disk disk' id answer) :
    Quiet ⟨.loadingIndirectionTable loc read, disk⟩ ⟨.loadingIndirectionTable loc read, disk'⟩ := by
  obtain ⟨_, _, _, rfl⟩ := ack
  apply quiet_of_loading inv
  · intro id' requested isRead found
    exact (inv.loading loc read rfl).tableReads id' requested isRead (lookup_of_erase found)
  · intro id' requested found
    obtain ⟨_, recorded⟩ := inv.requests.recordedTableReads id' requested (lookup_of_erase found)
    cases recorded
    rfl

/-- The table that arrives is the one at the persistent location, and its graph
becomes the ephemeral one. -/
theorem pageInIndirectionTableResp_quiet (inv : Inv ⟨s, disk⟩)
    (diskNext : BlockDisk.Next disk disk' dop) (next : PageInIndirectionTableResp s s' dop vop) :
    Quiet ⟨s, disk⟩ ⟨s', disk'⟩ := by
  obtain ⟨id, loc, table, rfl, rfl, -, complete, distinct, rfl⟩ := next
  obtain ⟨noReads, noWrites, noTableWrites⟩ := inv.requests.idle (by simp)
  simp only at noReads noWrites noTableWrites
  obtain ⟨tableReads, table', succs⟩ := inv.loading loc (some id) rfl
  obtain ⟨requested, request, answer, rfl⟩ :
    AckReadIndirectionTable disk disk' id (some table) := diskNext
  obtain rfl : requested = loc := tableReads id requested rfl request
  obtain rfl : table = table' := by
    have read := answer (by simp)
    have onDisk : disk.indirectionTables requested = some table' := succs.onDisk
    rw [onDisk] at read
    exact Option.some.inj read
  have succs' : WFSuccs
      { disk with reqReadIndirectionTables := disk.reqReadIndirectionTables.erase id }
      requested table := succs.kept succs.onDisk (.refl _ _)
  have cache' : BlockCache.InvReady
      (⟨table, none, table, requested, none, none, .empty, .empty, .empty⟩ : Ready Node) :=
    .pageInIndirectionTableResp inv.cache complete distinct
  have ready' := InvReady.pageInIndirectionTableResp _ succs'
  refine ⟨inv_of_ready cache' ready' ⟨inv.requests.nodes, inv.requests.tables.eraseRead id,
    ?_, ?_, ?_, ?_⟩, preserves_of_same inv rfl rfl, ?_⟩
  · simp [noWrites]
  · simp [noReads]
  · simp [noTableWrites]
  · intro id'
    rw [lookup_erase]
    split_ifs with gone
    · rfl
    · cases found : disk.reqReadIndirectionTables.lookup id' with
      | none => rfl
      | some requested' =>
        obtain ⟨_, recorded⟩ := inv.requests.recordedTableReads id' requested' found
        simp only [BlockCache.Variables.loadingIndirectionTable.injEq,
          Option.some.injEq] at recorded
        exact absurd recorded.2.symm gone
  · rw [ephemeralGraphOpt_ready cache' ready', ephemeralGraphOpt_loading succs,
      diskCacheGraph_of_complete complete]

theorem receiveLoc_inv (inv : Inv ⟨.unready, disk⟩) (valid : ValidIndirectionTableLocation loc)
    (promised : loc ∈ (diskGraphMap disk).keys) :
    Inv ⟨.loadingIndirectionTable loc none, disk⟩ := by
  obtain ⟨noReads, noWrites, noTableWrites⟩ := inv.requests.idle (by simp)
  simp only at noReads noWrites noTableWrites
  obtain ⟨_, found⟩ := promised
  obtain ⟨table, succs, _⟩ := succs_of_diskGraphMap found
  refine ⟨valid, by simp, ?_, ⟨inv.requests.nodes, inv.requests.tables, ?_, ?_, ?_, ?_⟩⟩
  · rintro _ _ ⟨⟩
    exact ⟨by simp [CorrectInflightIndirectionTableReads], table, succs⟩
  · simp [noWrites]
  · simp [noReads]
  · simp [noTableWrites]
  · intro id requested isRequested
    obtain ⟨_, ⟨⟩⟩ := inv.requests.recordedTableReads id requested isRequested

end Loading

section Changes

variable {Node : Type u} [GraphNode Node] {disk : BlockDisk.Variables Node}
  {s s' : BlockCache.Variables Node}

/-- What an operation does to a graph. -/
def applyOp (g : IMap Reference Node) (op : BlockGraph.Op Node) : IMap Reference Node :=
  g.update op.ref op.node

theorem opStep_changes {op : BlockGraph.Op Node} (inv : Inv ⟨s, disk⟩) (step : OpStep s s' op) :
    Inv ⟨s', disk⟩ ∧
    ∃ g, ephemeralGraphOpt ⟨s, disk⟩ = some g ∧
      ephemeralGraphOpt ⟨s', disk⟩ = some (applyOp g op) := by
  obtain ⟨r, isReady⟩ : ∃ r, s = .ready r := by
    cases op with
    | writeOp ref block | allocOp ref block => exact ⟨_, step.choose_spec.choose_spec.1⟩
  subst isReady
  obtain ⟨cache, ready, requests⟩ := inv.parts
  obtain ⟨succs, rfl, agrees, targets, frozen, notReading⟩ := opStep_setNode cache rfl step
  have cache' : BlockCache.InvReady (setNode _ op.ref _ succs) := cache.setNode agrees targets
  have ready' := ready.setNode cache agrees targets frozen notReading
  refine ⟨inv_of_ready cache' ready' { requests with }, _, ephemeralGraphOpt_ready cache ready, ?_⟩
  rw [ephemeralGraphOpt_ready cache' ready', diskCacheGraph_setNode]
  rfl

theorem opTransaction_changes {ops : List (BlockGraph.Op Node)} {g : IMap Reference Node}
    (inv : Inv ⟨s, disk⟩) (graph : ephemeralGraphOpt ⟨s, disk⟩ = some g)
    (steps : OpTransaction s s' ops) :
    Inv ⟨s', disk⟩ ∧ ephemeralGraphOpt ⟨s', disk⟩ = some (ops.foldl applyOp g) := by
  induction ops generalizing s g with
  | nil =>
    cases steps
    exact ⟨inv, graph⟩
  | cons op ops ih =>
    obtain ⟨_, step, rest⟩ := steps
    obtain ⟨invMiddle, _, isBefore, after⟩ := opStep_changes inv step
    rw [graph] at isBefore
    cases isBefore
    exact ih invMiddle after rest

theorem unalloc_changes {ref : Reference} {dop : DiskOp Node} {vop : VOp} (inv : Inv ⟨s, disk⟩)
    (next : Unalloc s s' dop vop ref) : Inv ⟨s', disk⟩ ∧
      ∃ g, ephemeralGraphOpt ⟨s, disk⟩ = some g ∧
        ephemeralGraphOpt ⟨s', disk⟩ = some (g.remove1 ref) := by
  obtain ⟨r, _, rfl, -, -, -, -, -, -, -, rfl⟩ := id next
  obtain ⟨cache, ready, requests⟩ := inv.parts
  have cache' := cache.unalloc next
  have ready' := ready.unalloc cache next
  refine ⟨inv_of_ready cache' ready' { requests with }, _, ephemeralGraphOpt_ready cache ready, ?_⟩
  rw [ephemeralGraphOpt_ready cache' ready', diskCacheGraph_unalloc]

end Changes

section Crash

variable {Node : Type u} [GraphNode Node] {s s' : Variables Node} {r : Ready Node}
  {disk : BlockDisk.Variables Node} {table : SectorType.IndirectionTable} {loc : Location}

theorem inv_of_init (machine : BlockCache.Init s.machine) (disk : BlockDisk.Init s.disk) :
    Inv s := by
  obtain ⟨_, _⟩ := s
  cases machine
  obtain ⟨noTableReads, noReads, noTableWrites, noWrites⟩ := disk
  simp only at noTableReads noReads noTableWrites noWrites
  have apart : RequestsApart .empty .empty := by
    constructor
    · simp [WriteRequestsDontOverlap]
    · simp [WriteRequestsAreDistinct]
    · simp [ReadWritesDontOverlap]
    · simp [ReadWritesAreDistinct]
  refine ⟨trivial, by simp, by simp, ⟨?_, ?_, ?_, ?_, ?_, ?_⟩⟩
  · rw [noReads, noWrites]
    exact apart
  · rw [noTableReads, noTableWrites]
    exact apart
  · simp [noWrites]
  · simp [noReads]
  · simp [noTableWrites]
  · simp [noTableReads]

theorem untouched_table (cache : BlockCache.InvReady r) (inv : InvReady r disk)
    (requests : ReadyRequests r disk)
    (kept : loc = r.persistentIndirectionTableLoc ∨ r.outstandingIndirectionTableWrite = none) :
    UntouchedLoc loc disk.reqWriteIndirectionTables := by
  intro id written found overlaps
  have outstanding := requests.tableWrites id written found
  rcases kept with rfl | noWrite
  · obtain ⟨_, known, request⟩ := inv.tableWrites id outstanding
    obtain rfl := request written found
    exact (cache.frozenLocValid _ known).2 (overlap_comm.1 overlaps)
  · simp [noWrite] at outstanding

theorem untouched_node (inv : InvReady r disk) (requests : ReadyRequests r disk)
    (kept : table = r.persistentIndirectionTable ∨
      r.frozenIndirectionTable = some table ∧ r.frozenIndirectionTableLoc ≠ none)
    {ref : Reference} (valid : ValidNodeLocation loc)
    (located : table.locs.lookup ref = some loc) : UntouchedLoc loc disk.reqWriteNodes := by
  intro id written found overlaps
  obtain ⟨_, _, rfl, valid', _, frozen, persistent, _⟩ := requests.recordedWrite inv found
  have sameAddr := overlappingNodesSameAddr valid valid' overlaps
  rcases kept with rfl | ⟨isFrozen, known⟩
  · exact persistent ref loc located sameAddr
  · exact (frozen table isFrozen).2 known ref loc located sameAddr

theorem crash_preserves (inv : Inv s) (crash : BlockDisk.Crash s.disk s'.disk) :
    DiskChangesPreservesPersistentAndFrozen s s' := by
  obtain ⟨_, havocTables, havocNodes⟩ := crash
  apply preserves_of_kept inv
  intro loc table succs matters
  obtain ⟨machine, _⟩ := s
  cases machine with
  | ready r =>
    obtain ⟨cache, ready, requests⟩ := inv.parts
    rcases keptTable_cases ready succs matters with ⟨rfl, rfl⟩ | ⟨noWrite, known, isFrozen⟩
    · refine ⟨havocTables _ _ succs.onDisk (untouched_table cache ready requests (Or.inl rfl)), ?_⟩
      intro ref used node located bound
      exact havocNodes used node bound (untouched_node ready requests (Or.inl rfl)
        (succs.complete.validLocs ref used located) located)
    · refine ⟨havocTables _ _ succs.onDisk
        (untouched_table cache ready requests (Or.inr noWrite)), ?_⟩
      intro ref used node located bound
      exact havocNodes used node bound (untouched_node ready requests
        (Or.inr ⟨isFrozen, by simp [known]⟩)
        (succs.complete.validLocs ref used located) located)
  | _ =>
    obtain ⟨_, noWrites, noTableWrites⟩ := inv.requests.idle (by simp)
    simp only at noWrites noTableWrites
    refine ⟨havocTables _ _ succs.onDisk (by simp [UntouchedLoc, noTableWrites]), ?_⟩
    intro ref used node _ bound
    exact havocNodes used node bound (by simp [UntouchedLoc, noWrites])

end Crash

section Steps

variable {Node : Type u} [GraphNode Node]

variable {s s' : Variables Node} {dop : DiskOp Node} {vop : VOp}

theorem noOp_quiet (inv : Inv s) (noOp : NoOp s.machine s'.machine dop vop)
    (next : BlockDisk.Next s.disk s'.disk dop) : Quiet s s' := by
  obtain ⟨_, disk⟩ := s
  obtain ⟨_, disk'⟩ := s'
  obtain ⟨_, ignored, same⟩ := noOp
  subst same
  cases dop with
  | noDiskOp =>
    obtain rfl : disk' = disk := next
    exact ⟨inv, preserves_of_same inv rfl rfl, rfl⟩
  | respReadIndirectionTableOp id answer =>
    have ack : AckReadIndirectionTable disk disk' id answer := next
    obtain ⟨requested, found, _⟩ := next
    obtain ⟨_, recorded⟩ := inv.requests.recordedTableReads id requested found
    subst recorded
    exact ignoredTableRead_quiet inv ack
  | respReadNodeOp id answer =>
    have ack : AckReadNode disk disk' id answer := next
    obtain ⟨requested, found, _⟩ := next
    obtain ⟨r, recorded, _⟩ := inv.requests.recordedNodeReads id requested found
    subst recorded
    exact ignoredRead_quiet inv ack
  | respWriteIndirectionTableOp id =>
    obtain ⟨requested, found⟩ := Option.ne_none_iff_exists'.1 next.1
    obtain ⟨r, isReady, recorded⟩ := inv.requests.recordedTableWrites id requested found
    exact absurd recorded (ignored r isReady)
  | respWriteNodeOp id =>
    obtain ⟨requested, found⟩ := Option.ne_none_iff_exists'.1 next.1
    obtain ⟨r, isReady, recorded⟩ := inv.requests.recordedNodeWrites id requested found
    exact absurd (ignored r isReady) recorded
  | _ => exact ignored.elim

/-- The steps of the application, and the one that learns the persistent location. -/
def ChangesEphemeralGraph : BlockCache.Step Node → Prop
  | .transactionStep _ | .unallocStep _ | .receiveLocStep => True
  | _ => False

variable {step : BlockCache.Step Node}

theorem machine_quiet (inv : Inv s) (next : Machine s s' dop vop step)
    (unchanging : ¬ ChangesEphemeralGraph step) : Quiet s s' := by
  obtain ⟨_, disk'⟩ := s'
  obtain ⟨cacheNext, diskNext, _⟩ := next
  cases step with
  | writeBackNodeReqStep ref => exact writeBackNodeReq_quiet inv diskNext cacheNext
  | writeBackNodeRespStep => exact writeBackNodeResp_quiet inv diskNext cacheNext
  | writeBackIndirectionTableReqStep =>
    exact writeBackIndirectionTableReq_quiet inv diskNext cacheNext
  | writeBackIndirectionTableRespStep =>
    exact writeBackIndirectionTableResp_quiet inv diskNext cacheNext
  | pageInNodeReqStep ref => exact pageInNodeReq_quiet inv diskNext cacheNext
  | pageInNodeRespStep => exact pageInNodeResp_quiet inv diskNext cacheNext
  | pageInIndirectionTableReqStep => exact pageInIndirectionTableReq_quiet inv diskNext cacheNext
  | pageInIndirectionTableRespStep => exact pageInIndirectionTableResp_quiet inv diskNext cacheNext
  | evictStep ref => exact evict_quiet inv diskNext cacheNext
  | freezeStep => exact freeze_quiet inv diskNext cacheNext
  | cleanUpStep => exact cleanUp_quiet inv diskNext cacheNext
  | noOpStep => exact noOp_quiet inv cacheNext diskNext
  | unallocStep ref | transactionStep ops | receiveLocStep => exact absurd trivial unchanging

/-- A transaction performs its operations, a deallocation removes the node, and no other step of a
cache that has a graph changes it. -/
def EphemeralGraphChange (s s' : Variables Node) : BlockCache.Step Node → Prop
  | .transactionStep ops => ∃ g, ephemeralGraphOpt s = some g ∧
      ephemeralGraphOpt s' = some (ops.foldl applyOp g)
  | .unallocStep ref => ∃ g, ephemeralGraphOpt s = some g ∧
      ephemeralGraphOpt s' = some (g.remove1 ref)
  | .receiveLocStep => ephemeralGraphOpt s = none
  | _ => ephemeralGraphOpt s' = ephemeralGraphOpt s

theorem machine_effect (inv : Inv s) (next : Machine s s' dop vop step) :
    Inv s' ∧ DiskChangesPreservesPersistentAndFrozen s s' ∧ EphemeralGraphChange s s' step := by
  by_cases changing : ChangesEphemeralGraph step
  · obtain ⟨_, disk⟩ := s
    obtain ⟨_, disk'⟩ := s'
    obtain ⟨cacheNext, diskNext, promise⟩ := next
    cases step with
    | transactionStep ops =>
      obtain ⟨⟨r, rfl⟩, rfl, _, steps⟩ := cacheNext
      obtain rfl : disk' = disk := diskNext
      obtain ⟨cache, ready, _⟩ := inv.parts
      have graph := ephemeralGraphOpt_ready cache ready
      obtain ⟨inv', changed⟩ := opTransaction_changes inv graph steps
      exact ⟨inv', preserves_of_same inv rfl rfl, _, graph, changed⟩
    | unallocStep ref =>
      obtain ⟨inv', changed⟩ := unalloc_changes inv cacheNext
      obtain ⟨_, _, -, rfl, -⟩ := cacheNext
      obtain rfl : disk' = disk := diskNext
      exact ⟨inv', preserves_of_same inv rfl rfl, changed⟩
    | receiveLocStep =>
      obtain ⟨loc, rfl, rfl, rfl, valid, rfl⟩ := cacheNext
      obtain rfl : disk' = disk := diskNext
      exact ⟨receiveLoc_inv inv valid (promise loc rfl), preserves_of_same inv rfl rfl, rfl⟩
    | _ => exact changing.elim
  · have quiet := machine_quiet inv next changing
    refine ⟨quiet.inv, quiet.preserves, ?_⟩
    cases step with
    | transactionStep ops | unallocStep ref | receiveLocStep => exact absurd trivial changing
    | _ => exact quiet.graph

theorem next_safe (inv : Inv s) (next : Next s s' vop) :
    Inv s' ∧ DiskChangesPreservesPersistentAndFrozen s s' := by
  obtain ⟨step, next⟩ := next
  cases step with
  | machineStep dop step =>
    obtain ⟨inv', preserves, -⟩ := machine_effect inv next
    exact ⟨inv', preserves⟩
  | crashStep =>
    obtain ⟨_, machine, disk⟩ := next
    exact ⟨inv_of_init machine disk.1, crash_preserves inv disk⟩

/-- Copy-on-write crash safety.  The invariant holds in every reachable state, every step and every
crash keep the graphs behind the persistent and the acknowledged frozen table on disk, and the graph
that the application sees changes only as it asks for. -/
theorem copyOnWrite_crashSafe :
    (machine Node).Inductive Inv ∧
    (∀ (s s' : Variables Node) vop, Inv s → Next s s' vop →
      DiskChangesPreservesPersistentAndFrozen s s') ∧
    (∀ (s s' : Variables Node) dop vop step, Inv s → Machine s s' dop vop step →
      EphemeralGraphChange s s' step) := by
  refine ⟨⟨?_, ?_⟩, ?_, ?_⟩
  · rintro s ⟨_, init⟩
    exact inv_of_init init.machine init.disk
  · intro s s' vop inv next
    exact (next_safe inv next).1
  · intro s s' vop inv next
    exact (next_safe inv next).2
  · intro s s' dop vop step inv next
    exact (machine_effect inv next).2.2

end Steps

end VerifiedBetrfs.BlockSystem
