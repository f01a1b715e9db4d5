import VerifiedBetrfs.BlockSystem

/-!
# Copy-on-write keeps what is on disk

Every step keeps the invariant, and the graphs behind the persistent and the frozen table.
-/

namespace VerifiedBetrfs.BlockSystem

universe u

open DiskLayout SectorType ViewOp BlockDisk GraphNode BlockCache
open FiniteMap (lookup_of_erase lookup_erase lookup_erase_eq_some lookup_insert
  lookup_insert_eq_some mem_support)

section Keeps

variable {Node : Type u} {table : SectorType.IndirectionTable} {nodes nodes' : IMap Location Node}

/-- The nodes of a table stay where they are. -/
def Keeps (table : SectorType.IndirectionTable) (nodes nodes' : IMap Location Node) : Prop :=
  ∀ ref loc node, table.locs.lookup ref = some loc → nodes loc = some node →
    nodes' loc = some node

theorem Keeps.refl (table : SectorType.IndirectionTable) (nodes : IMap Location Node) :
    Keeps table nodes nodes :=
  fun _ _ _ _ bound => bound

theorem Keeps.wrtDisk (keeps : Keeps table nodes nodes')
    (onDisk : WFIndirectionTableWrtDisk table nodes) : WFIndirectionTableWrtDisk table nodes' := by
  intro ref loc found
  obtain ⟨node, bound⟩ := onDisk ref loc found
  exact ⟨node, keeps ref loc node found bound⟩

variable {ref : Reference}

section

variable (keeps : Keeps table nodes nodes')

include keeps

section

variable (onDisk : WFIndirectionTableWrtDisk table nodes)

include onDisk

theorem Keeps.lookup_eq {loc : Location}
    (found : table.locs.lookup ref = some loc) : nodes' loc = nodes loc := by
  obtain ⟨node, bound⟩ := onDisk ref loc found
  rw [bound]
  exact keeps ref loc node found bound

theorem Keeps.diskGraph_eq : diskGraph table nodes' = diskGraph table nodes := by
  funext ref
  simp only [diskGraph, graph, refMapOfDisk]
  cases found : table.locs.lookup ref with
  | none => rfl
  | some loc => simp only [Option.bind_some, keeps.lookup_eq onDisk found]

theorem Keeps.diskCacheGraph_eq (cache : FiniteMap Reference Node) :
    diskCacheGraph table nodes' cache = diskCacheGraph table nodes cache := by
  funext ref
  simp only [diskCacheGraph, graph, diskCacheLookup]
  cases found : table.locs.lookup ref with
  | none => rfl
  | some loc => simp only [keeps.lookup_eq onDisk found]

end

end

theorem diskCacheGraph_of_complete (complete : WFCompleteIndirectionTable table)
    (cache : FiniteMap Reference Node) :
    diskCacheGraph table nodes cache = diskGraph table nodes := by
  funext ref
  simp only [diskCacheGraph, diskGraph, graph]
  split_ifs with allocated
  · rw [complete.complete, mem_support, Option.isSome_iff_exists] at allocated
    obtain ⟨_, found⟩ := allocated
    simp [diskCacheLookup, refMapOfDisk, found]
  · rfl

section

variable (located : ref ∈ table.graph.support → ref ∈ table.locs.support)
  {cache : FiniteMap Reference Node}

include located

/-- A node that the table has a location for may come and go in the cache. -/
theorem diskCacheGraph_of_located {cache' : FiniteMap Reference Node}
    (same : ∀ other, other ≠ ref → cache'.lookup other = cache.lookup other) :
    diskCacheGraph table nodes cache' = diskCacheGraph table nodes cache := by
  funext other
  simp only [diskCacheGraph, graph]
  split_ifs with allocated
  · cases found : table.locs.lookup other with
    | some loc => simp only [diskCacheLookup, found]
    | none =>
      have differ : other ≠ ref := by
        rintro rfl
        simpa [mem_support, found] using located allocated
      simp only [diskCacheLookup, found, same other differ]
  · rfl

theorem diskCacheGraph_insert (block : Node) :
    diskCacheGraph table nodes (cache.insert ref block) = diskCacheGraph table nodes cache :=
  diskCacheGraph_of_located located (fun _ differ => by simp [differ])

theorem diskCacheGraph_erase :
    diskCacheGraph table nodes (cache.erase ref) = diskCacheGraph table nodes cache :=
  diskCacheGraph_of_located located (fun _ differ => by simp [differ])

end

end Keeps

section Graphs

variable {Node : Type u} [GraphNode Node] {s s' : Variables Node}
  {disk disk' : BlockDisk.Variables Node} {table : SectorType.IndirectionTable} {loc : Location}

theorem noDangling_of_agree {succGraph : FiniteMap Reference (List Reference)}
    {g : IMap Reference Node} (closed : GraphClosed succGraph)
    (agree : SuccessorsAgree succGraph g) : NoDanglingPointers g := by
  intro ref node bound target isTarget
  have allocated := (agree.sameKeys ref).2 ⟨node, bound⟩
  obtain ⟨succs, found⟩ := FiniteMap.exists_lookup allocated
  have isSucc : target ∈ { target | target ∈ succs } := by
    rw [agree.agrees ref succs node found bound]
    exact isTarget
  exact (agree.sameKeys target).1 (closed ref succs found target isSucc)

theorem WFSuccs.kept (succs : WFSuccs disk loc table)
    (onDisk : disk'.indirectionTables loc = some table)
    (keeps : Keeps table disk.nodes disk'.nodes) : WFSuccs disk' loc table := by
  have sameGraph := keeps.diskGraph_eq succs.nodes
  refine ⟨⟨succs.validLoc, onDisk, succs.complete, keeps.wrtDisk succs.nodes⟩, ?_, ?_⟩
  · rw [sameGraph]
    exact succs.agree
  · rw [sameGraph]
    exact succs.noDangling

theorem diskGraphMap_of_succs (succs : WFSuccs disk loc table) :
    diskGraphMap disk loc = some (diskGraph table disk.nodes) := by
  simp [diskGraphMap, succs.onDisk, succs]

theorem succs_of_diskGraphMap {g : IMap Reference Node} (found : diskGraphMap disk loc = some g) :
    ∃ table, WFSuccs disk loc table ∧ g = diskGraph table disk.nodes := by
  simp only [diskGraphMap, Option.bind_eq_some_iff, Option.ite_none_right_eq_some,
    Option.some.injEq] at found
  obtain ⟨table, _, succs, rfl⟩ := found
  exact ⟨table, succs, rfl⟩

theorem Inv.persistent_succs (inv : Inv s) (isLoc : persistentLoc s = some loc) :
    ∃ table, WFSuccs s.disk loc table := by
  cases machine : s.machine with
  | ready r =>
    simp only [persistentLoc, machine, Option.some.injEq] at isLoc
    rw [← isLoc]
    exact ⟨_, (inv.ready r machine).persistentOnDisk⟩
  | loadingIndirectionTable tableLoc read =>
    simp only [persistentLoc, machine, Option.some.injEq] at isLoc
    rw [← isLoc]
    exact (inv.loading tableLoc read machine).onDisk
  | unready => simp [persistentLoc, machine] at isLoc

variable {r : Ready Node}

/-- Once it is written, the frozen table stands for a graph on disk. -/
theorem frozen_succs (cache : BlockCache.InvReady r) (inv : InvReady r disk)
    (known : r.frozenIndirectionTableLoc = some loc) :
    ∃ table, r.frozenIndirectionTable = some table ∧ WFSuccs disk loc table := by
  obtain ⟨table, isFrozen, complete, onDisk⟩ := inv.frozenOnDisk loc known
  have agree := inv.frozenAgree table isFrozen
  rw [diskCacheGraph_of_complete complete] at agree
  exact ⟨table, isFrozen, ⟨(cache.frozenLocValid loc known).1, onDisk, complete,
    inv.frozenNodes table isFrozen⟩, agree, noDangling_of_agree complete.closed agree⟩

omit [GraphNode Node] in
theorem frozenLoc_eq_some (machine : s.machine = .ready r) (isLoc : frozenLoc s = some loc) :
    r.outstandingIndirectionTableWrite = none ∧ r.frozenIndirectionTableLoc = some loc := by
  simp only [frozenLoc, machine] at isLoc
  split_ifs at isLoc with noWrite
  exact ⟨noWrite, isLoc⟩

theorem Inv.frozen_succs (inv : Inv s) (isLoc : frozenLoc s = some loc) :
    ∃ table, WFSuccs s.disk loc table := by
  cases machine : s.machine with
  | ready r =>
    obtain ⟨_, known⟩ := frozenLoc_eq_some machine isLoc
    have cache := inv.cache
    rw [machine] at cache
    obtain ⟨table, _, succs⟩ := BlockSystem.frozen_succs cache (inv.ready r machine) known
    exact ⟨table, succs⟩
  | loadingIndirectionTable tableLoc read | unready => simp [frozenLoc, machine] at isLoc

/-- It is enough that a step keeps each table that matters and the nodes of
that table. -/
theorem preserves_of_kept (inv : Inv s)
    (kept : ∀ loc table, WFSuccs s.disk loc table →
      (persistentLoc s = none ∨ persistentLoc s = some loc ∨ frozenLoc s = some loc) →
      s'.disk.indirectionTables loc = some table ∧
        Keeps table s.disk.nodes s'.disk.nodes) :
    DiskChangesPreservesPersistentAndFrozen s s' := by
  have graphKept : ∀ loc table, WFSuccs s.disk loc table →
      (persistentLoc s = none ∨ persistentLoc s = some loc ∨ frozenLoc s = some loc) →
      diskGraphMap s'.disk loc = some (diskGraph table s.disk.nodes) := by
    intro loc table succs matters
    obtain ⟨onDisk, keeps⟩ := kept loc table succs matters
    rw [diskGraphMap_of_succs (succs.kept onDisk keeps), keeps.diskGraph_eq succs.nodes]
  refine ⟨fun unknown loc g found => ?_, fun loc isLoc => ?_, fun loc isLoc => ?_⟩
  · obtain ⟨table, succs, rfl⟩ := succs_of_diskGraphMap found
    exact graphKept loc table succs (Or.inl unknown)
  · obtain ⟨table, succs⟩ := inv.persistent_succs isLoc
    exact ⟨_, diskGraphMap_of_succs succs, graphKept loc table succs (Or.inr (Or.inl isLoc))⟩
  · obtain ⟨table, succs⟩ := inv.frozen_succs isLoc
    exact ⟨_, diskGraphMap_of_succs succs, graphKept loc table succs (Or.inr (Or.inr isLoc))⟩

theorem preserves_of_same (inv : Inv s)
    (sameTables : s'.disk.indirectionTables = s.disk.indirectionTables)
    (sameNodes : s'.disk.nodes = s.disk.nodes) : DiskChangesPreservesPersistentAndFrozen s s' := by
  apply preserves_of_kept inv
  intro loc table succs _
  rw [sameTables, sameNodes]
  exact ⟨succs.onDisk, .refl _ _⟩

theorem wfEphemeral (cache : BlockCache.InvReady r) (inv : InvReady r disk) :
    WFDiskCacheGraph r.ephemeralIndirectionTable disk.nodes r.cache := by
  refine ⟨inv.ephemeralNodes, fun ref allocated => ⟨inv.ephemeralNodes, fun uncached => ?_⟩⟩
  have located := cache.ephemeralCached ref allocated uncached
  obtain ⟨loc, found⟩ := FiniteMap.exists_lookup located
  exact ⟨loc, found, inv.ephemeralNodes ref loc found⟩

theorem ephemeralGraphOpt_ready (cache : BlockCache.InvReady r) (inv : InvReady r disk) :
    ephemeralGraphOpt ⟨.ready r, disk⟩ =
      some (diskCacheGraph r.ephemeralIndirectionTable disk.nodes r.cache) := by
  simp [ephemeralGraphOpt, wfEphemeral cache inv]

end Graphs

section Assign

variable {Node : Type u} {nodes nodes' : IMap Location Node} {table : SectorType.IndirectionTable}
  {loc : Location} {ref : Reference} {node : Node}

theorem keeps_of_unused {other : Location}
    (validLocs : ∀ ref loc, table.locs.lookup ref = some loc → ValidNodeLocation loc)
    (valid : ValidNodeLocation other) (unused : AddrUnused table other.addr)
    (update : DiskMapUpdate nodes nodes' other node) : Keeps table nodes nodes' := by
  intro ref loc content found bound
  apply update.2 loc content bound
  intro overlaps
  exact unused ref loc found (overlappingNodesSameAddr (validLocs ref loc found) valid overlaps)

theorem wrtDisk_assign (onDisk : WFIndirectionTableWrtDisk table nodes)
    (keeps : Keeps table nodes nodes') (written : nodes' loc = some node) :
    WFIndirectionTableWrtDisk (assignRefToLocation table ref loc) nodes' := by
  intro other used found
  rcases assigned_cases found with old | ⟨_, rfl⟩
  · exact keeps.wrtDisk onDisk other used old
  · exact ⟨node, written⟩

theorem usedOnlyBy_assigned (unused : AddrUnused table loc.addr) :
    AddrUsedOnlyBy (assignRefToLocation table ref loc) ref loc.addr := by
  intro other used found sameAddr
  rcases assigned_cases found with old | ⟨same, _⟩
  · exact absurd sameAddr (unused other used old)
  · exact same

theorem AddrUsedOnlyBy.assign {written : Location} {writtenRef : Reference}
    (onlyBy : AddrUsedOnlyBy table writtenRef written.addr) (separate : written.addr ≠ loc.addr) :
    AddrUsedOnlyBy (assignRefToLocation table ref loc) writtenRef written.addr := by
  intro other used found sameAddr
  rcases assigned_cases found with old | ⟨_, rfl⟩
  · exact onlyBy other used old sameAddr
  · exact absurd sameAddr.symm separate

/-- A node reads the same from the location it is written to as from the
cache. -/
theorem diskCacheGraph_assign {cache : FiniteMap Reference Node}
    (onDisk : WFIndirectionTableWrtDisk table nodes) (keeps : Keeps table nodes nodes')
    (cached : cache.lookup ref = some node) (written : nodes' loc = some node) :
    diskCacheGraph (assignRefToLocation table ref loc) nodes' cache =
      diskCacheGraph table nodes cache := by
  rw [← keeps.diskCacheGraph_eq onDisk]
  funext other
  change (if other ∈ table.graph.support then _ else none) =
    (if other ∈ table.graph.support then _ else none)
  congr 1
  simp only [diskCacheLookup, lookup_assignRefToLocation]
  split_ifs with assigned
  · obtain ⟨rfl, _, unlocated⟩ := assigned
    have noLoc : table.locs.lookup other = none := by
      simpa [mem_support] using unlocated
    rw [noLoc]
    exact written.trans cached.symm
  · rfl

end Assign

section WriteBack

variable {Node : Type u} [GraphNode Node] {r r' : Ready Node}
  {disk disk' : BlockDisk.Variables Node} {ref : Reference} {dop : DiskOp Node} {vop : VOp}

theorem InvReady.writeBackNodeReq (cache : BlockCache.InvReady r) (inv : InvReady r disk)
    (next : WriteBackNodeReq (.ready r) (.ready r') dop vop ref)
    (diskNext : BlockDisk.Next disk disk' dop) : InvReady r' disk' := by
  obtain ⟨_, id, ⟨loc, node⟩, ⟨⟩, rfl, -, cached, valid, -, allocation, ⟨⟩⟩ := next
  obtain ⟨-, update, same⟩ : RecvWriteNode disk disk' id ⟨loc, node⟩ := diskNext
  have keepsEphemeral : Keeps r.ephemeralIndirectionTable disk.nodes disk'.nodes :=
    keeps_of_unused cache.ephemeralWF.validLocs valid allocation.ephemeral update
  have keepsPersistent : Keeps r.persistentIndirectionTable disk.nodes disk'.nodes :=
    keeps_of_unused cache.persistentWF.validLocs valid allocation.persistent update
  have keepsFrozen : ∀ table, r.frozenIndirectionTable = some table →
      Keeps table disk.nodes disk'.nodes := fun table isFrozen =>
    keeps_of_unused (cache.frozenWF table isFrozen).validLocs valid
      (allocation.frozen table isFrozen) update
  have sameGraph := diskCacheGraph_assign inv.ephemeralNodes keepsEphemeral cached update.1
  rw [same]
  exact { inv with
    persistentOnDisk :=
      inv.persistentOnDisk.kept inv.persistentOnDisk.onDisk keepsPersistent
    frozenNodes := by
      intro table isFrozen
      obtain ⟨old, wasFrozen, rfl⟩ := Option.map_eq_some_iff.1 isFrozen
      exact wrtDisk_assign (inv.frozenNodes old wasFrozen) (keepsFrozen old wasFrozen) update.1
    frozenAgree := by
      intro table isFrozen
      obtain ⟨old, wasFrozen, rfl⟩ := Option.map_eq_some_iff.1 isFrozen
      have agree := inv.frozenAgree old wasFrozen
      rw [← diskCacheGraph_assign (inv.frozenNodes old wasFrozen)
        (keepsFrozen old wasFrozen) cached update.1] at agree
      exact agree
    frozenOnDisk := by
      intro loc' known
      obtain ⟨table, wasFrozen, complete, onDisk⟩ := inv.frozenOnDisk loc' known
      exact ⟨table, by simp [wasFrozen, complete.assign], complete, onDisk⟩
    ephemeralNodes := wrtDisk_assign inv.ephemeralNodes keepsEphemeral update.1
    ephemeralAgree := by
      have agree := inv.ephemeralAgree
      rw [← sameGraph] at agree
      exact agree
    noDangling := by
      have noDangling := inv.noDangling
      rw [← sameGraph] at noDangling
      exact noDangling
    cleanCache := by
      intro other content used isCached found
      rcases assigned_cases found with old | ⟨rfl, rfl⟩
      · exact keepsEphemeral other used content old (inv.cleanCache other content used isCached old)
      · simp only [cached] at isCached
        cases isCached
        exact update.1
    blockReads := by
      intro id' read outstanding
      obtain ⟨uncached, used, located, ⟨content, onDisk⟩, request⟩ :=
        inv.blockReads id' read outstanding
      have differ : read.ref ≠ ref := by
        intro same
        rw [same, cached] at uncached
        cases uncached
      refine ⟨uncached, used, ?_, ⟨content, keepsEphemeral _ used content located onDisk⟩, request⟩
      simp [lookup_assignRefToLocation, differ, located]
    nodeWrites := by
      intro id' write outstanding
      obtain ⟨rfl, ⟨⟩⟩ | ⟨new, outstanding⟩ := lookup_insert_eq_some.mp outstanding
      · refine ⟨valid, usedOnlyBy_assigned allocation.ephemeral, ?_, allocation.persistent, by simp⟩
        intro table isFrozen
        obtain ⟨old, wasFrozen, rfl⟩ := Option.map_eq_some_iff.1 isFrozen
        have unused := allocation.frozen old wasFrozen
        refine ⟨usedOnlyBy_assigned unused, fun known => ?_⟩
        rw [(cache.frozenComplete_of known wasFrozen).assign]
        exact unused
      · have separate := allocation.writes id' write outstanding
        obtain ⟨valid', ephemeral, frozen, persistent, request⟩ :=
          inv.nodeWrites id' write outstanding
        refine ⟨valid', ephemeral.assign separate, ?_, persistent, by simpa [new] using request⟩
        intro table isFrozen
        obtain ⟨old, wasFrozen, rfl⟩ := Option.map_eq_some_iff.1 isFrozen
        obtain ⟨onlyBy, written⟩ := frozen old wasFrozen
        refine ⟨onlyBy.assign separate, fun known => ?_⟩
        rw [(cache.frozenComplete_of known wasFrozen).assign]
        exact written known }

theorem InvReady.writeBackNodeResp (inv : InvReady r disk)
    (next : WriteBackNodeResp (.ready r) (.ready r') dop vop)
    (diskNext : BlockDisk.Next disk disk' dop) : InvReady r' disk' := by
  obtain ⟨_, id, ⟨⟩, rfl, -, -, ⟨⟩⟩ := next
  obtain ⟨-, rfl⟩ : AckWriteNode disk disk' id := diskNext
  exact { inv with
    persistentOnDisk := inv.persistentOnDisk.kept inv.persistentOnDisk.onDisk (.refl _ _)
    nodeWrites := by
      intro id' write outstanding
      obtain ⟨gone, outstanding⟩ := lookup_erase_eq_some.mp outstanding
      obtain ⟨valid, ephemeral, frozen, persistent, request⟩ := inv.nodeWrites id' write outstanding
      exact ⟨valid, ephemeral, frozen, persistent, by simpa [gone] using request⟩ }

/-- The frozen table goes to a location apart from the persistent one. -/
theorem InvReady.writeBackIndirectionTableReq (cache : BlockCache.InvReady r)
    (inv : InvReady r disk) (next : WriteBackIndirectionTableReq (.ready r) (.ready r') dop vop)
    (diskNext : BlockDisk.Next disk disk' dop) : InvReady r' disk' := by
  obtain ⟨_, id, ⟨loc, table⟩, ⟨⟩, rfl, -, isFrozen, -, complete, noWrites, -, apart, ⟨⟩⟩ := next
  obtain ⟨-, update, same⟩ : RecvWriteIndirectionTable disk disk' id ⟨loc, table⟩ := diskNext
  rw [same]
  exact { inv with
    persistentOnDisk := by
      have kept := update.2 _ _ inv.persistentOnDisk.onDisk
        (fun overlaps => apart (overlap_comm.1 overlaps))
      exact inv.persistentOnDisk.kept kept (.refl _ _)
    frozenOnDisk := by
      rintro _ ⟨⟩
      have wf := cache.frozenWF table isFrozen
      have sameSupport := Finset.Subset.antisymm complete wf.allocated
      exact ⟨table, isFrozen, { wf with complete := sameSupport }, update.1⟩
    nodeWrites := by simp [noWrites]
    tableWrites := by
      rintro _ ⟨⟩
      exact ⟨loc, rfl, by simp⟩ }

theorem InvReady.writeBackIndirectionTableResp (inv : InvReady r disk)
    (next : WriteBackIndirectionTableResp (.ready r) (.ready r') dop vop)
    (diskNext : BlockDisk.Next disk disk' dop) : InvReady r' disk' := by
  obtain ⟨_, id, _, ⟨⟩, rfl, -, -, -, ⟨⟩⟩ := next
  obtain ⟨-, rfl⟩ : AckWriteIndirectionTable disk disk' id := diskNext
  exact { inv with
    persistentOnDisk := inv.persistentOnDisk.kept inv.persistentOnDisk.onDisk (.refl _ _)
    tableWrites := by simp [CorrectInflightIndirectionTableWrites] }

end WriteBack

section PageIn

variable {Node : Type u} [GraphNode Node] {r r' : Ready Node}
  {disk disk' : BlockDisk.Variables Node} {table : SectorType.IndirectionTable} {loc : Location}
  {ref : Reference} {block : Node} {dop : DiskOp Node} {vop : VOp}

theorem InvReady.pageInNodeReq (inv : InvReady r disk)
    (next : PageInNodeReq (.ready r) (.ready r') dop vop ref)
    (diskNext : BlockDisk.Next disk disk' dop) : InvReady r' disk' := by
  obtain ⟨_, id, loc, ⟨⟩, rfl, -, -, located, uncached, -, ⟨⟩⟩ := next
  obtain ⟨-, rfl⟩ : RecvReadNode disk disk' id loc := diskNext
  exact { inv with
    persistentOnDisk := inv.persistentOnDisk.kept inv.persistentOnDisk.onDisk (.refl _ _)
    blockReads := by
      intro id' read outstanding
      obtain ⟨rfl, ⟨⟩⟩ | ⟨new, outstanding⟩ := lookup_insert_eq_some.mp outstanding
      · exact ⟨uncached, loc, located, inv.ephemeralNodes ref loc located, by simp⟩
      · obtain ⟨uncached', loc', located', onDisk, request⟩ := inv.blockReads id' read outstanding
        refine ⟨uncached', loc', located', onDisk, ?_⟩
        simpa [new] using request }

/-- The node that was read is the one on disk, so that the cache does not
change any graph. -/
theorem InvReady.pageInNodeResp (cache : BlockCache.InvReady r) (inv : InvReady r disk)
    (next : PageInNodeResp (.ready r) (.ready r') dop vop)
    (diskNext : BlockDisk.Next disk disk' dop) : InvReady r' disk' ∧
      diskCacheGraph r'.ephemeralIndirectionTable disk.nodes r'.cache =
        diskCacheGraph r.ephemeralIndirectionTable disk.nodes r.cache := by
  obtain ⟨_, id, ref, block, _, ⟨⟩, rfl, -, outstanding, uncached, -, -, ⟨⟩⟩ := next
  obtain ⟨requested, found, answer, rfl⟩ : AckReadNode disk disk' id (some block) := diskNext
  obtain ⟨-, loc, located, -, request⟩ := inv.blockReads id ⟨ref⟩ outstanding
  obtain rfl := request requested found
  have read : disk.nodes requested = some block := (answer (Option.some_ne_none _)).symm
  have hasLoc : ref ∈ r.ephemeralIndirectionTable.locs.support := by
    simp [mem_support, located]
  have sameEphemeral : diskCacheGraph r.ephemeralIndirectionTable disk.nodes
      (r.cache.insert ref block) = _ := diskCacheGraph_insert (fun _ => hasLoc) block
  refine ⟨{ inv with
    persistentOnDisk := inv.persistentOnDisk.kept inv.persistentOnDisk.onDisk (.refl _ _)
    frozenAgree := ?_
    ephemeralAgree := ?_
    noDangling := ?_
    cleanCache := ?_
    blockReads := ?_ }, sameEphemeral⟩
  · intro table isFrozen
    have frozenLoc := cache.frozenCached table isFrozen ref
    simp only [diskCacheGraph_insert (fun allocated => frozenLoc allocated uncached)]
    exact inv.frozenAgree table isFrozen
  · simp only [sameEphemeral]
    exact inv.ephemeralAgree
  · simp only [sameEphemeral]
    exact inv.noDangling
  · intro other node used cached found
    obtain ⟨rfl, ⟨⟩⟩ | ⟨same, cached⟩ := lookup_insert_eq_some.mp cached
    · simp only [located] at found
      cases found
      exact read
    · exact inv.cleanCache other node used cached found
  · intro id' read' outstanding'
    obtain ⟨gone, outstanding'⟩ := lookup_erase_eq_some.mp outstanding'
    obtain ⟨uncached', loc', located', onDisk, request⟩ := inv.blockReads id' read' outstanding'
    have differ : read'.ref ≠ ref := by
      intro same
      have sameRead : read' = ⟨ref⟩ := by
        exact congrArg OutstandingRead.mk same
      rw [sameRead] at outstanding'
      exact gone (cache.readsUnique id' id ⟨ref⟩ outstanding' outstanding)
    refine ⟨?_, loc', located', onDisk, ?_⟩
    · simpa [differ] using uncached'
    · simpa [gone] using request

theorem InvReady.pageInIndirectionTableResp (disk : BlockDisk.Variables Node)
    (succs : WFSuccs disk loc table) :
    InvReady (⟨table, none, table, loc, none, none, .empty, .empty, .empty⟩ : Ready Node)
      disk where
  persistentOnDisk := succs
  frozenNodes := by simp
  frozenAgree := by simp
  frozenOnDisk := by simp
  ephemeralNodes := succs.nodes
  ephemeralAgree := by
    rw [diskCacheGraph_of_complete succs.complete]
    exact succs.agree
  noDangling := by
    rw [diskCacheGraph_of_complete succs.complete]
    exact succs.noDangling
  cleanCache := by simp [CleanCacheEntriesAreCorrect]
  blockReads := by simp
  nodeWrites := by simp
  tableWrites := by simp [CorrectInflightIndirectionTableWrites]

end PageIn

section Memory

variable {Node : Type u} [GraphNode Node] {r r' : Ready Node}
  {disk : BlockDisk.Variables Node} {table : SectorType.IndirectionTable} {ref : Reference}
  {block : Node} {succs : List Reference} {g : IMap Reference Node}
  {succGraph : FiniteMap Reference (List Reference)} {dop : DiskOp Node} {vop : VOp}

/-- A node is evicted only if the tables have locations for it. -/
theorem InvReady.evict (inv : InvReady r disk)
    (next : Evict (.ready r) (.ready r') dop vop ref) : InvReady r' disk ∧
      diskCacheGraph r'.ephemeralIndirectionTable disk.nodes r'.cache =
        diskCacheGraph r.ephemeralIndirectionTable disk.nodes r.cache := by
  obtain ⟨_, ⟨⟩, -, -, -, written, frozen, ⟨⟩⟩ := next
  have located : ref ∈ r.ephemeralIndirectionTable.graph.support →
      ref ∈ r.ephemeralIndirectionTable.locs.support := by
    intro allocated
    obtain ⟨loc, found, _⟩ := written allocated
    exact FiniteMap.mem_support_of_lookup found
  have sameGraph : diskCacheGraph r.ephemeralIndirectionTable disk.nodes (r.cache.erase ref) = _ :=
    diskCacheGraph_erase located
  refine ⟨{ inv with frozenAgree := ?_, ephemeralAgree := ?_, noDangling := ?_, cleanCache := ?_
                     blockReads := ?_ }, sameGraph⟩
  · intro table isFrozen
    simp only [diskCacheGraph_erase (frozen table isFrozen)]
    exact inv.frozenAgree table isFrozen
  · simp only [sameGraph]
    exact inv.ephemeralAgree
  · simp only [sameGraph]
    exact inv.noDangling
  · exact fun other node used cached found =>
      inv.cleanCache other node used (lookup_of_erase cached) found
  · intro id read outstanding
    obtain ⟨uncached, used, located, onDisk, request⟩ := inv.blockReads id read outstanding
    refine ⟨?_, used, located, onDisk, request⟩
    simp [uncached]

theorem InvReady.freeze (inv : InvReady r disk)
    (next : Freeze (.ready r) (.ready r') dop vop) : InvReady r' disk := by
  obtain ⟨_, ⟨⟩, -, -, noTableWrite, ⟨⟩⟩ := next
  exact { inv with
    frozenNodes := by
      rintro _ ⟨⟩
      exact inv.ephemeralNodes
    frozenAgree := by
      rintro _ ⟨⟩
      exact inv.ephemeralAgree
    frozenOnDisk := by simp
    nodeWrites := by
      intro id write outstanding
      obtain ⟨valid, ephemeral, _, persistent, request⟩ := inv.nodeWrites id write outstanding
      refine ⟨valid, ephemeral, ?_, persistent, request⟩
      rintro _ ⟨⟩
      exact ⟨ephemeral, by simp⟩
    tableWrites := by simp [CorrectInflightIndirectionTableWrites, noTableWrite] }

/-- No outstanding write is to a location of the table that becomes
persistent. -/
theorem InvReady.cleanUp (cache : BlockCache.InvReady r) (inv : InvReady r disk)
    (next : CleanUp (.ready r) (.ready r') dop vop) : InvReady r' disk := by
  obtain ⟨_, loc, table, ⟨⟩, -, -, noTableWrite, known, isFrozen, ⟨⟩⟩ := next
  exact { inv with
    persistentOnDisk := by
      obtain ⟨_, isFrozen', succs⟩ := frozen_succs cache inv known
      rw [isFrozen] at isFrozen'
      cases isFrozen'
      exact succs
    frozenNodes := by simp
    frozenAgree := by simp
    frozenOnDisk := by simp
    nodeWrites := by
      intro id write outstanding
      obtain ⟨valid, ephemeral, frozen, _, request⟩ := inv.nodeWrites id write outstanding
      obtain ⟨_, unused⟩ := frozen table isFrozen
      exact ⟨valid, ephemeral, by simp, unused (by simp [known]), request⟩
    tableWrites := by simp [CorrectInflightIndirectionTableWrites, noTableWrite] }

omit [GraphNode Node] in
theorem diskCacheGraph_unalloc (nodes : IMap Location Node) (cache : FiniteMap Reference Node) :
    diskCacheGraph ⟨table.locs.erase ref, table.graph.erase ref⟩ nodes (cache.erase ref) =
      (diskCacheGraph table nodes cache).remove1 ref := by
  funext other
  rw [IMap.remove1_eq_ite]
  by_cases same : other = ref
  · simp [diskCacheGraph, graph, mem_support, same]
  · simp [diskCacheGraph, graph, diskCacheLookup, mem_support, same]

omit [GraphNode Node] in
theorem diskCacheGraph_setNode (r : Ready Node) (nodes : IMap Location Node) :
    diskCacheGraph (setNode r ref block succs).ephemeralIndirectionTable nodes
        (setNode r ref block succs).cache =
      (diskCacheGraph r.ephemeralIndirectionTable nodes r.cache).update ref block := by
  funext other
  rw [IMap.update_eq_ite]
  by_cases same : other = ref
  · simp [diskCacheGraph, graph, diskCacheLookup, setNode, mem_support, same]
  · simp [diskCacheGraph, graph, diskCacheLookup, setNode, mem_support, same]

theorem SuccessorsAgree.erase (agree : SuccessorsAgree succGraph g) (ref : Reference) :
    SuccessorsAgree (succGraph.erase ref) (g.remove1 ref) := by
  constructor
  · intro other
    have sameKeys := agree.sameKeys other
    rw [mem_support] at sameKeys ⊢
    rw [IMap.mem_keys] at sameKeys ⊢
    rw [lookup_erase, IMap.remove1_eq_ite]
    split_ifs with same
    · simp
    · exact sameKeys
  · intro other succs node found bound
    rw [lookup_erase] at found
    rw [IMap.remove1_eq_ite] at bound
    split_ifs at found bound
    exact agree.agrees other succs node found bound

theorem SuccessorsAgree.insert (agree : SuccessorsAgree succGraph g) (ref : Reference)
    (agrees : { target | target ∈ succs } = successors block) :
    SuccessorsAgree (succGraph.insert ref succs) (g.update ref block) := by
  constructor
  · intro other
    have sameKeys := agree.sameKeys other
    rw [mem_support] at sameKeys ⊢
    rw [IMap.mem_keys] at sameKeys ⊢
    rw [lookup_insert, IMap.update_eq_ite]
    split_ifs with same
    · simp
    · exact sameKeys
  · intro other succs' node found bound
    rw [lookup_insert] at found
    rw [IMap.update_eq_ite] at bound
    split_ifs at found bound
    · cases found
      cases bound
      exact agrees
    · exact agree.agrees other succs' node found bound

theorem AddrUsedOnlyBy.erase {writtenRef : Reference} {addr : Nat}
    {graph : FiniteMap Reference (List Reference)} (onlyBy : AddrUsedOnlyBy table writtenRef addr) :
    AddrUsedOnlyBy ⟨table.locs.erase ref, graph⟩ writtenRef addr := by
  intro other used found sameAddr
  exact onlyBy other used (lookup_of_erase found) sameAddr

theorem InvReady.unalloc (cache : BlockCache.InvReady r) (inv : InvReady r disk)
    (next : Unalloc (.ready r) (.ready r') dop vop ref) : InvReady r' disk := by
  have cache' := cache.unalloc next
  obtain ⟨_, _, ⟨⟩, -, -, -, -, -, frozen, notReading, ⟨⟩⟩ := next
  have agree' := inv.ephemeralAgree.erase ref
  rw [← diskCacheGraph_unalloc] at agree'
  exact { inv with
    frozenAgree := by
      intro table isFrozen
      simp only [diskCacheGraph_erase (frozen table isFrozen)]
      exact inv.frozenAgree table isFrozen
    ephemeralNodes other used found := inv.ephemeralNodes other used (lookup_of_erase found)
    ephemeralAgree := agree'
    noDangling := noDangling_of_agree cache'.ephemeralWF.closed agree'
    cleanCache other node used cached found :=
      inv.cleanCache other node used (lookup_of_erase cached) (lookup_of_erase found)
    blockReads := by
      intro id read outstanding
      obtain ⟨uncached, used, located, onDisk, request⟩ := inv.blockReads id read outstanding
      have differ := notReading id read outstanding
      exact ⟨by simp [uncached], used, by simp [differ, located], onDisk, request⟩
    nodeWrites := by
      intro id write outstanding
      obtain ⟨valid, ephemeral, rest⟩ := inv.nodeWrites id write outstanding
      exact ⟨valid, ephemeral.erase, rest⟩ }

theorem InvReady.setNode (cache : BlockCache.InvReady r) (inv : InvReady r disk)
    (agrees : { target | target ∈ succs } = successors block)
    (targets : BlockPointsToValidReferences block r.ephemeralIndirectionTable.graph)
    (frozen : FrozenHasLocation r ref)
    (notReading : r.cache.lookup ref ≠ none ∨ r.ephemeralIndirectionTable.locs.lookup ref = none) :
    InvReady (setNode r ref block succs) disk := by
  have cache' : BlockCache.InvReady (BlockCache.setNode r ref block succs) :=
    cache.setNode agrees targets
  have agree' : SuccessorsAgree
      (BlockCache.setNode r ref block succs).ephemeralIndirectionTable.graph _ :=
    inv.ephemeralAgree.insert ref agrees
  rw [← diskCacheGraph_setNode] at agree'
  exact { inv with
    frozenAgree := by
      intro table isFrozen
      simp only [BlockCache.setNode, diskCacheGraph_insert (frozen table isFrozen)]
      exact inv.frozenAgree table isFrozen
    ephemeralNodes other used found := inv.ephemeralNodes other used (lookup_of_erase found)
    ephemeralAgree := agree'
    noDangling := noDangling_of_agree cache'.ephemeralWF.closed agree'
    cleanCache := by
      intro other node used cached found
      simp only [BlockCache.setNode, lookup_insert, lookup_erase] at cached found
      split_ifs at cached found
      exact inv.cleanCache other node used cached found
    blockReads := by
      intro id read outstanding
      obtain ⟨uncached, used, located, onDisk, request⟩ := inv.blockReads id read outstanding
      have differ : read.ref ≠ ref := by
        rintro rfl
        rcases notReading with cached | unlocated
        · exact cached uncached
        · simp [unlocated] at located
      refine ⟨?_, used, ?_, onDisk, request⟩
      · simp [BlockCache.setNode, differ, uncached]
      · simp [BlockCache.setNode, differ, located]
    nodeWrites := by
      intro id write outstanding
      obtain ⟨valid, ephemeral, rest⟩ := inv.nodeWrites id write outstanding
      exact ⟨valid, ephemeral.erase, rest⟩ }

end Memory

end VerifiedBetrfs.BlockSystem
