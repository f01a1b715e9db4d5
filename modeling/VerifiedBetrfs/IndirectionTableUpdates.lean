import VerifiedBetrfs.IndirectionTableLoad

/-!
# Updates of the indirection table

A change of successors counts the new edges and then takes back the old ones.  A reference is in the
garbage queue while its count is zero.
-/

namespace VerifiedBetrfs.IndirectionTable

open DiskLayout Bounds
open FiniteMap (exists_lookup filterMap_insert_of_eq lookup_erase lookup_erase_eq_some
  lookup_filterMap lookup_insert lookup_insert_eq_some mem_support)
open LinearMutableMap (SimpleIterator WFSimpleIter findSimpleIter findSimpleIter_spec get_eq
  insert_spec outputFor removeAndGet simpleIterOutput updateByIter updateByIter_spec)

section

variable (self : IndirectionTable)

def updateGhost : IndirectionTable :=
  { self with locs := Locs self.t, graph := Graph self.t, predCounts := PredCounts self.t }

def removeLoc (ref : Reference) : Option (IndirectionTable × Option Location) := do
  let it ← findSimpleIter LinearMutableMap.hash64 self.t ref
  match ← simpleIterOutput self.t it with
  | .next _ oldEntry =>
    let t ← updateByIter self.t it { oldEntry with loc := none }
    return (updateGhost { self with t := t, findLoclessIterator := none }, oldEntry.loc)
  | .done => none

def addLocIfPresent (ref : Reference) (loc : Location) : Option (IndirectionTable × Bool) := do
  let it ← findSimpleIter LinearMutableMap.hash64 self.t ref
  match ← simpleIterOutput self.t it with
  | .next _ oldEntry =>
    if oldEntry.loc.isNone then
      let t ← updateByIter self.t it { oldEntry with loc := some loc }
      return (updateGhost { self with t := t }, true)
    else
      return (self, false)
  | .done => return (self, false)

/-- A change of the garbage queue, which must be there. -/
def changeQueue (change : USeq → Option USeq) : Option IndirectionTable := do
  let queue ← self.garbageQueue
  let queue ← change queue
  return { self with garbageQueue := some queue }

/-- A new count for a reference, with a change of the queue if the old count is
the one at the edge. -/
def setPredCount (ref : Reference) (newCount : Nat → Nat) (edge : Nat)
    (change : USeq → Option USeq) : Option IndirectionTable := do
  let oldEntryOpt ← LinearMutableMap.get LinearMutableMap.hash64 self.t ref
  let oldEntry ← oldEntryOpt
  let t ← LinearMutableMap.insert LinearMutableMap.hash64 self.t ref
    { oldEntry with predCount := newCount oldEntry.predCount % 2 ^ 64 }
  let self := { self with t := t }
  if oldEntry.predCount = edge then self.changeQueue change else return self

/-- There is one more edge to the reference. -/
def predInc (ref : Reference) : Option IndirectionTable :=
  self.setPredCount ref (· + 1) 0 (·.remove ref)

/-- There is one edge less to the reference. -/
def predDec (ref : Reference) : Option IndirectionTable :=
  self.setPredCount ref (· + (2 ^ 64 - 1)) 1 (·.add ref)

def updatePredCounts (newSuccs oldSuccs : List Reference) : Option IndirectionTable := do
  let self ← newSuccs.foldlM predInc self
  oldSuccs.foldlM predDec self

/-- A node gets new successors and loses its location. -/
def updateAndRemoveLoc (ref : Reference) (succs : List Reference) :
    Option (IndirectionTable × Option Location) := do
  let oldEntry ← LinearMutableMap.get LinearMutableMap.hash64 self.t ref
  let predCount := (oldEntry.map Entry.predCount).getD 0
  let self ← (if oldEntry.isNone then self.changeQueue (·.add ref) else some self)
  let t ← LinearMutableMap.insert LinearMutableMap.hash64 self.t ref ⟨none, succs, predCount⟩
  let self ← updatePredCounts { self with t := t } succs ((oldEntry.map Entry.succs).getD [])
  let refUpperBound := if self.refUpperBound < ref then ref else self.refUpperBound
  return (updateGhost { self with refUpperBound := refUpperBound, findLoclessIterator := none },
    oldEntry.bind Entry.loc)

/-- A reference without edges to it leaves the table. -/
def removeRef (ref : Reference) : Option (IndirectionTable × Option Location) := do
  let (t, oldEntry) ← removeAndGet LinearMutableMap.hash64 self.t ref
  let entry ← oldEntry
  let self ← changeQueue { self with t := t } (·.remove ref)
  let self ← self.updatePredCounts [] entry.succs
  return (updateGhost { self with findLoclessIterator := none }, entry.loc)

/-- The first reference of the garbage queue. -/
def findDeallocable : Option Reference := self.garbageQueue.bind USeq.firstOpt

end

/-- A node that nothing points to. -/
structure Deallocable (table : IndirectionTable) (ref : Reference) : Prop where
  present : ref ∈ table.graph.support
  notRoot : ref ≠ root
  unused : ∀ src succs, table.graph.lookup src = some succs → ref ∉ succs

section Counts

theorem lookup_locs (t : HashMap) (ref : Reference) :
    (Locs t).lookup ref = (t.contents.lookup ref).bind Entry.loc := rfl

variable {t t' : HashMap} {ref : Reference} {entry : Entry} {n : Nat} {entry' : Entry}
  {self self' : IndirectionTable} {pendingNew pendingOld : List Reference}

section

variable (found : t.contents.lookup ref = some entry)

include found

section

variable (contents : t'.contents = t.contents.insert ref entry')

include contents

theorem support_setEntry : t'.contents.support = t.contents.support := by
  rw [contents]
  exact FiniteMap.support_insert_of_lookup found entry'

theorem graph_setEntry (sameSuccs : entry'.succs = entry.succs) : Graph t' = Graph t := by
  rw [Graph, contents]
  exact filterMap_insert_of_eq found (congrArg some sameSuccs)

theorem locs_setEntry (sameLoc : entry'.loc = entry.loc) : Locs t' = Locs t := by
  rw [Locs, contents]
  exact filterMap_insert_of_eq found sameLoc

end

end

theorem changeQueue_eq {change : USeq → Option USeq} {queue queue' : USeq}
    (isQueue : self.garbageQueue = some queue) (isChange : change queue = some queue') :
    self.changeQueue change = some { self with garbageQueue := some queue' } := by
  rw [changeQueue, isQueue, Option.bind_eq_bind, Option.bind_some, isChange]
  rfl

section

variable {queue queue' : USeq} (garbage : HoldsGarbage t queue)

include garbage

theorem HoldsGarbage.mem_support (member : ref ∈ queue.I) : ref ∈ t.contents.support := by
  obtain ⟨_, found, -⟩ := (garbage.members ref).mp member
  exact FiniteMap.mem_support_of_lookup found

theorem HoldsGarbage.setEntry (contents : t'.contents = t.contents.insert ref entry')
    (inv : queue'.Inv)
    (members : ∀ other, other ∈ queue'.I ↔
      if other = ref then entry'.predCount = 0 else other ∈ queue.I) :
    HoldsGarbage t' queue' := by
  refine ⟨inv, fun other => ?_⟩
  rw [members, contents, lookup_insert]
  by_cases same : other = ref
  · simp [same]
  · rw [if_neg same, if_neg same, garbage.members]

theorem HoldsGarbage.kept (contents : t'.contents = t.contents.insert ref entry')
    (found : t.contents.lookup ref = some entry)
    (same : entry.predCount = 0 ↔ entry'.predCount = 0) : HoldsGarbage t' queue := by
  refine garbage.setEntry contents garbage.inv fun other => ?_
  split_ifs with isRef
  · simp [isRef, garbage.members, found, same]
  · rfl

theorem HoldsGarbage.add (map : MapInv t) (size : t.count ≤ maxSize)
    (contents : t'.contents = t.contents.insert ref entry') (unused : entry'.predCount = 0) :
    ∃ queue', queue.add ref = some queue' ∧ HoldsGarbage t' queue' := by
  obtain ⟨queue', isAdd, inv', isSeq⟩ := garbage.inv.add
    (queue_small map size garbage.inv fun _ => garbage.mem_support) ref
  refine ⟨queue', isAdd, garbage.setEntry contents inv' fun other => ?_⟩
  rw [isSeq, USeq.mem_addNew]
  by_cases same : other = ref <;> simp [same, unused]

end

/-- The counts while some new edges are not counted yet and some old edges still
are. -/
structure Counted (table : IndirectionTable) (pendingNew pendingOld : List Reference) : Prop where
  map : MapInv table.t
  counts : ∀ ref entry, table.t.contents.lookup ref = some entry →
    entry.predCount + pendingNew.count ref =
      (predecessorSet (Graph table.t) ref).card + isRoot ref + pendingOld.count ref
  garbage : ∃ queue, table.garbageQueue = some queue ∧ HoldsGarbage table.t queue
  newPresent : ∀ ref ∈ pendingNew, ref ∈ table.t.contents.support
  oldPresent : ∀ ref ∈ pendingOld, ref ∈ table.t.contents.support
  fanout : ∀ ref succs, (Graph table.t).lookup ref = some succs → succs.length ≤ maxNumChildren
  oldFanout : pendingOld.length ≤ maxNumChildren
  size : table.t.count ≤ maxSize

/-- Two tables that differ in their counts and queues only. -/
structure Recounted (table table' : IndirectionTable) : Prop where
  unchanged : table' = { table with t := table'.t, garbageQueue := table'.garbageQueue }
  graph : Graph table'.t = Graph table.t
  locs : Locs table'.t = Locs table.t

theorem Recounted.refl (self : IndirectionTable) : Recounted self self := ⟨rfl, rfl, rfl⟩

theorem Recounted.trans {self'' : IndirectionTable} (first : Recounted self self')
    (second : Recounted self' self'') : Recounted self self'' where
  unchanged := second.unchanged.trans (by rw [first.unchanged])
  graph := second.graph.trans first.graph
  locs := second.locs.trans first.locs

section

variable (counted : Counted self pendingNew pendingOld)
  (found : self.t.contents.lookup ref = some entry)

include counted found

theorem Counted.predCount_le : entry.predCount ≤ maxSize * maxNumChildren + 1 + maxNumChildren := by
  have isCount := counted.counts ref entry found
  have edges := card_predecessorSet_le counted.fanout ref
  have nodes : (Graph self.t).support.card ≤ maxSize := by
    rw [support_graph, counted.map.card]
    exact counted.size
  have isRootLe : isRoot ref ≤ 1 := by
    rw [isRoot]
    split <;> omega
  have old : pendingOld.count ref ≤ maxNumChildren :=
    le_trans List.count_le_length counted.oldFanout
  have := Nat.mul_le_mul_right maxNumChildren nodes
  omega

end

end Counts

section Loops

variable {self : IndirectionTable} {ref : Reference} {pendingNew pendingOld : List Reference}

section

variable (counted : Counted self pendingNew pendingOld)

include counted

theorem Counted.small : self.t.count < 2 ^ 64 / 8 := by
  have := counted.size
  rw [maxSize] at this
  omega

theorem Counted.predCount_lt {entry : Entry}
    (found : self.t.contents.lookup ref = some entry) : entry.predCount + 1 < 2 ^ 64 := by
  have := counted.predCount_le found
  rw [maxSize, maxNumChildren] at this
  omega

theorem Counted.tracking : self.garbageQueue.isSome := by
  obtain ⟨queue, isQueue, -⟩ := counted.garbage
  rw [isQueue]
  rfl

end

/-- The count of one reference and the edges yet to be counted change together. -/
theorem setPredCount_spec (new old : Nat) (counted : Counted self
      (List.replicate new ref ++ pendingNew) (List.replicate old ref ++ pendingOld)) {entry : Entry}
    (found : self.t.contents.lookup ref = some entry) {newCount : Nat → Nat} {edge n : Nat}
    (isNew : newCount entry.predCount % 2 ^ 64 = n) (countHere : n + old = entry.predCount + new)
    (kept : entry.predCount ≠ edge → (entry.predCount = 0 ↔ n = 0))
    {change : USeq → Option USeq}
    (changed : ∀ t queue, HoldsGarbage self.t queue → entry.predCount = edge →
      t.contents = self.t.contents.insert ref { entry with predCount := n } →
      ∃ queue', change queue = some queue' ∧ HoldsGarbage t queue') :
    ∃ self', self.setPredCount ref newCount edge change = some self' ∧
      Counted self' pendingNew pendingOld ∧ Recounted self self' := by
  obtain ⟨t, isInsert, map, contents⟩ := insert_spec counted.map counted.small ref
    { entry with predCount := newCount entry.predCount % 2 ^ 64 }
  obtain ⟨queue, isQueue, garbage⟩ := counted.garbage
  rw [isNew] at contents
  have graph := graph_setEntry found contents rfl
  have support := support_setEntry found contents
  obtain ⟨queue', isChange, garbage'⟩ : ∃ queue',
      (if entry.predCount = edge then changeQueue { self with t := t } change
        else some { self with t := t }) =
        some { self with t := t, garbageQueue := some queue' } ∧ HoldsGarbage t queue' := by
    split_ifs with atEdge
    · obtain ⟨queue', isChange, garbage'⟩ := changed t queue garbage atEdge contents
      exact ⟨queue', changeQueue_eq isQueue isChange, garbage'⟩
    · exact ⟨queue, by rw [← isQueue], garbage.kept contents found (kept atEdge)⟩
  refine ⟨{ self with t := t, garbageQueue := some queue' }, ?_,
    ⟨map, ?_, ⟨queue', rfl, garbage'⟩, ?_, ?_, ?_, ?_, ?_⟩, rfl, graph,
    locs_setEntry found contents rfl⟩
  · rw [setPredCount, get_eq counted.map, found]
    simp only [Option.bind_eq_bind, Option.bind_some, isInsert]
    exact isChange
  · intro other otherEntry isOther
    rw [contents, lookup_insert_eq_some] at isOther
    rw [graph]
    obtain ⟨rfl, rfl⟩ | ⟨differ, isOther⟩ := isOther
    · have isCount := counted.counts other entry found
      simp only [List.count_append, List.count_replicate_self] at isCount ⊢
      omega
    · have isCount := counted.counts other otherEntry isOther
      simpa [List.count_replicate, Ne.symm differ] using isCount
  · intro other member
    rw [support]
    exact counted.newPresent other (List.mem_append_right _ member)
  · intro other member
    rw [support]
    exact counted.oldPresent other (List.mem_append_right _ member)
  · rw [graph]
    exact counted.fanout
  · exact le_trans (List.sublist_append_right _ _).length_le counted.oldFanout
  · rw [← map.card, support, counted.map.card]
    exact counted.size

theorem predInc_spec (counted : Counted self (ref :: pendingNew) pendingOld) :
    ∃ self', predInc self ref = some self' ∧ Counted self' pendingNew pendingOld ∧
      Recounted self self' := by
  obtain ⟨entry, found⟩ := exists_lookup (counted.newPresent ref List.mem_cons_self)
  have isNext : (entry.predCount + 1) % 2 ^ 64 = entry.predCount + 1 :=
    Nat.mod_eq_of_lt (counted.predCount_lt found)
  unfold predInc
  refine setPredCount_spec 1 0 counted found isNext rfl (by simp) ?_
  intro t queue garbage unused contents
  obtain ⟨queue', isRemove, inv', isSeq⟩ := garbage.inv.remove ref
  refine ⟨queue', isRemove, garbage.setEntry contents inv' fun other => ?_⟩
  rw [isSeq, garbage.inv.noDupes.mem_erase_iff]
  by_cases same : other = ref <;> simp [same, unused]

theorem predDec_spec (counted : Counted self [] (ref :: pendingOld)) :
    ∃ self', predDec self ref = some self' ∧ Counted self' [] pendingOld ∧
      Recounted self self' := by
  obtain ⟨entry, found⟩ := exists_lookup (counted.oldPresent ref List.mem_cons_self)
  have isCount := counted.counts ref entry found
  rw [List.count_nil, List.count_cons_self] at isCount
  have lessThanMax := counted.predCount_lt found
  -- The edge that is taken back is still counted, so the count is not zero.
  have isPred : (entry.predCount + (2 ^ 64 - 1)) % 2 ^ 64 = entry.predCount - 1 := by omega
  unfold predDec
  exact setPredCount_spec 0 1 counted found (by exact isPred) (by omega) (by omega)
    fun t queue garbage last contents =>
      garbage.add counted.map counted.size contents (by simp [last])

theorem foldlM_recounted {change : IndirectionTable → Reference → Option IndirectionTable}
    {Pending : List Reference → IndirectionTable → Prop}
    (spec : ∀ {self ref pending}, Pending (ref :: pending) self → ∃ self',
      change self ref = some self' ∧ Pending pending self' ∧ Recounted self self')
    {pending : List Reference} (holds : Pending pending self) :
    ∃ self', pending.foldlM change self = some self' ∧ Pending [] self' ∧
      Recounted self self' := by
  induction pending generalizing self with
  | nil => exact ⟨self, rfl, holds, .refl self⟩
  | cons ref pending ih =>
    obtain ⟨self', isChange, holds', recounted⟩ := spec holds
    obtain ⟨self'', isFold, holds'', recounted'⟩ := ih holds'
    refine ⟨self'', ?_, holds'', recounted.trans recounted'⟩
    rw [List.foldlM_cons, isChange]
    exact isFold

theorem updatePredCounts_spec (counted : Counted self pendingNew pendingOld) :
    ∃ self', updatePredCounts self pendingNew pendingOld = some self' ∧ Counted self' [] [] ∧
      Recounted self self' := by
  obtain ⟨self', isFold, counted', recounted⟩ :=
    @foldlM_recounted self predInc (fun pending self => Counted self pending pendingOld)
      predInc_spec pendingNew counted
  obtain ⟨self'', isFold', counted'', recounted'⟩ :=
    @foldlM_recounted self' predDec (fun pending self => Counted self [] pending)
      predDec_spec pendingOld counted'
  refine ⟨self'', ?_, counted'', recounted.trans recounted'⟩
  rw [updatePredCounts, isFold]
  exact isFold'

end Loops

section Invariant

variable {self : IndirectionTable}

variable {ref : Reference} {entry : Entry} {t : HashMap} {loc : Option Location}

theorem predCount_of_lookup (inv : Inv self) (found : self.t.contents.lookup ref = some entry) :
    entry.predCount = (predecessorSet (Graph self.t) ref).card + isRoot ref := by
  rw [← inv.graph]
  refine inv.validPredCounts ref entry.predCount ?_
  rw [inv.predCounts, PredCounts, lookup_filterMap, found]
  rfl

theorem inv_updateGhost (counted : Counted self [] [])
    (closed : BlockCache.GraphClosed (Graph self.t)) (rootPresent : root ∈ self.t.contents.support)
    (upper : ∀ ref ∈ self.t.contents.support, ref ≤ self.refUpperBound)
    (locless : self.findLoclessIterator = none) : Inv (updateGhost self) := by
  refine ⟨counted.map, rfl, rfl, rfl, ?_, closed, counted.fanout, ?_, rootPresent, counted.size,
    ?_, ?_⟩
  · intro ref count found
    rw [updateGhost, PredCounts, lookup_filterMap, Option.bind_eq_some_iff] at found
    obtain ⟨entry, isEntry, isCount⟩ := found
    have isCounted := counted.counts ref entry isEntry
    rw [← Option.some.inj isCount]
    exact isCounted
  · intro queue isQueue
    obtain ⟨_, isQueue', garbage⟩ := counted.garbage
    obtain rfl := Option.mem_unique isQueue isQueue'
    exact garbage
  · intro ref present
    exact upper ref (support_graph self.t ▸ present)
  · intro it isIterator
    rw [updateGhost, locless] at isIterator
    cases isIterator

theorem mem_graph_iff (inv : Inv self) :
    ref ∈ self.graph.support ↔ ref ∈ self.t.contents.support := by
  rw [inv.graph, support_graph]

theorem lookup_locs_of_inv (inv : Inv self) (ref : Reference) :
    self.locs.lookup ref = (self.t.contents.lookup ref).bind Entry.loc := by
  rw [inv.locs, lookup_locs]

variable (found : self.t.contents.lookup ref = some entry)
  (contents : t.contents = self.t.contents.insert ref { entry with loc := loc })

include found contents

theorem inv_setLoc (inv : Inv self) {it : Option SimpleIterator} (map : MapInv t)
    (locless : ∀ it', it = some it' → WFSimpleIter t it' ∧ ∀ ref ∈ it'.s, ref ∈ (Locs t).support) :
    Inv (updateGhost { self with t := t, findLoclessIterator := it }) := by
  have graph : Graph t = self.graph := (graph_setEntry found contents rfl).trans inv.graph.symm
  have counts : PredCounts t = self.predCounts := by
    rw [inv.predCounts, PredCounts, contents]
    exact filterMap_insert_of_eq found rfl
  have support := support_setEntry found contents
  refine ⟨map, rfl, rfl, rfl, ?_, ?_, ?_, ?_, ?_, ?_, ?_, locless⟩
  · change ValidPredCounts (PredCounts t) (Graph t)
    rw [graph, counts]
    exact inv.validPredCounts
  · exact graph.symm ▸ inv.closed
  · exact graph.symm ▸ inv.fanout
  · exact fun queue isQueue => (inv.garbage queue isQueue).kept contents found .rfl
  · exact support.symm ▸ inv.root
  · change t.count ≤ maxSize
    rw [← map.card, support, inv.map.card]
    exact inv.size
  · exact graph.symm ▸ inv.refUpperBound

end Invariant

section Specs

variable {self : IndirectionTable}

variable {ref : Reference} {t t' : HashMap}

theorem locs_erase (inv : Inv self)
    (kept : ∀ other, other ≠ ref → t.contents.lookup other = self.t.contents.lookup other)
    (gone : (t.contents.lookup ref).bind Entry.loc = none) : Locs t = self.locs.erase ref := by
  ext1 other
  rw [lookup_erase, lookup_locs_of_inv inv, lookup_locs]
  split_ifs with same
  · rw [same, gone]
  · rw [kept other same]

theorem removeLoc_spec (inv : Inv self) (present : ref ∈ self.graph.support) :
    ∃ self', removeLoc self ref = some (self', self.locs.lookup ref) ∧ Inv self' ∧
      self'.garbageQueue = self.garbageQueue ∧ self'.graph = self.graph ∧
      self'.locs = self.locs.erase ref := by
  rw [mem_graph_iff inv] at present
  obtain ⟨entry, found⟩ := exists_lookup present
  obtain ⟨_, isIterator, -, output⟩ := findSimpleIter_spec inv.map ref
  rw [found, outputFor] at output
  obtain ⟨t, isUpdate, map, contents, -⟩ :=
    updateByIter_spec inv.map output { entry with loc := none }
  refine ⟨updateGhost { self with t := t, findLoclessIterator := none }, ?_,
    inv_setLoc found contents inv map nofun, rfl, ?_, ?_⟩
  · simp only [removeLoc, isIterator, output, isUpdate, Option.bind_eq_bind, Option.bind_some]
    rw [lookup_locs_of_inv inv, found]
    rfl
  · exact (graph_setEntry found contents rfl).trans inv.graph.symm
  · exact locs_erase inv (fun other differ => by rw [contents, lookup_insert, if_neg differ])
      (by rw [contents, lookup_insert, if_pos rfl, Option.bind_some])

theorem addLocIfPresent_spec (inv : Inv self) (ref : Reference) (loc : Location) :
    ∃ self' added, addLocIfPresent self ref loc = some (self', added) ∧ Inv self' ∧
      (added = true ↔ ref ∈ self.graph.support ∧ ref ∉ self.locs.support) ∧
      self'.garbageQueue = self.garbageQueue ∧ self'.graph = self.graph ∧
      self'.locs = if added then self.locs.insert ref loc else self.locs := by
  obtain ⟨_, isIterator, -, output⟩ := findSimpleIter_spec inv.map ref
  rw [mem_graph_iff inv, mem_support, mem_support, lookup_locs_of_inv inv]
  cases found : self.t.contents.lookup ref with
  | none =>
    rw [found, outputFor] at output
    refine ⟨self, false, ?_, inv, by simp, rfl, rfl, rfl⟩
    simp only [addLocIfPresent, isIterator, output, Option.bind_eq_bind, Option.bind_some]
    rfl
  | some entry =>
    rw [found, outputFor] at output
    by_cases located : entry.loc.isSome
    · refine ⟨self, false, ?_, inv, by simp [located], rfl, rfl, rfl⟩
      have notNone : ¬ entry.loc.isNone = true := by
        rw [Option.isNone_iff_eq_none]
        exact Option.isSome_iff_ne_none.mp located
      simp only [addLocIfPresent, isIterator, output, Option.bind_eq_bind, Option.bind_some,
        if_neg notNone]
      rfl
    · obtain ⟨t, isUpdate, map, contents, wf⟩ :=
        updateByIter_spec inv.map output { entry with loc := some loc }
      have isNone : entry.loc.isNone = true := by
        rw [Option.isNone_iff_eq_none]
        exact Option.not_isSome_iff_eq_none.mp located
      have isInsert : Locs t = self.locs.insert ref loc := by
        rw [Locs, contents, inv.locs]
        exact FiniteMap.filterMap_insert_of_some rfl
      refine ⟨updateGhost { self with t := t }, true, ?_,
        inv_setLoc found contents inv map ?_, by simp [located], rfl,
        (graph_setEntry found contents rfl).trans inv.graph.symm, isInsert⟩
      · simp only [addLocIfPresent, isIterator, output, isUpdate, Option.bind_eq_bind,
          Option.bind_some, if_pos isNone]
        rfl
      · intro it' isLocless
        obtain ⟨wf', passed⟩ := inv.locless it' isLocless
        refine ⟨wf it' wf', fun other member => ?_⟩
        rw [isInsert]
        exact Finset.mem_insert_of_mem (passed other member)

theorem graph_insertEntry {entry : Entry} (contents : t'.contents = t.contents.insert ref entry) :
    Graph t' = (Graph t).insert ref entry.succs := by
  rw [Graph, contents]
  exact FiniteMap.filterMap_insert_of_some rfl

theorem graph_eraseEntry (contents : t'.contents = t.contents.erase ref) :
    Graph t' = (Graph t).erase ref := by
  rw [Graph, contents]
  exact FiniteMap.filterMap_erase _ _ _

theorem edgeCount_graph (t : HashMap) (dest src : Reference) : edgeCount (Graph t) dest src =
    (((t.contents.lookup src).map Entry.succs).getD []).count dest := by
  rw [edgeCount, lookup_graph]

section

variable (inv : Inv self)

include inv

theorem oldSuccs_of_inv (ref : Reference) :
    (((self.t.contents.lookup ref).map Entry.succs).getD []).length ≤ maxNumChildren ∧
      ∀ succ ∈ ((self.t.contents.lookup ref).map Entry.succs).getD [],
        succ ∈ self.t.contents.support := by
  have isGraph := lookup_graph self.t ref
  rw [← inv.graph] at isGraph
  cases found : self.t.contents.lookup ref with
  | none => exact ⟨Nat.zero_le _, nofun⟩
  | some entry =>
    rw [found, Option.map_some] at isGraph
    refine ⟨inv.fanout ref entry.succs isGraph, fun succ member => ?_⟩
    exact (mem_graph_iff inv).mp (inv.closed ref entry.succs isGraph succ member)

/-- Nothing leads to a reference that is not in the table. -/
theorem predCount_getD_of_inv (ref : Reference) :
    ((self.t.contents.lookup ref).map Entry.predCount).getD 0 =
      (predecessorSet (Graph self.t) ref).card + isRoot ref := by
  cases found : self.t.contents.lookup ref with
  | some entry => exact predCount_of_lookup inv found
  | none =>
    have absent : ref ∉ self.t.contents.support := by
      rw [mem_support, found]
      simp
    have unused : (predecessorSet (Graph self.t) ref).card = 0 := by
      rw [card_predecessorSet_eq_zero, ← inv.graph]
      exact fun src succs found member =>
        absent ((mem_graph_iff inv).mp (inv.closed src succs found ref member))
    have notRoot : ref ≠ root := fun same => absent (same ▸ inv.root)
    rw [unused, isRoot, if_neg notRoot]
    rfl

section

variable (tracking : self.garbageQueue.isSome) {t : HashMap} {succs : List Reference}

include tracking

section

variable (few : succs.length ≤ maxNumChildren)
  (room : self.graph.support.card < maxSize) (valid : ∀ succ ∈ succs, succ ∈ self.graph.support)

include few room valid

/-- Before the loops the counts are those of the old edges. -/
theorem counted_insert (map : MapInv t) (contents : t.contents = self.t.contents.insert ref
      ⟨none, succs, ((self.t.contents.lookup ref).map Entry.predCount).getD 0⟩) :
    ∃ queue, (if (self.t.contents.lookup ref).isNone then self.changeQueue (·.add ref)
        else some self) = some { self with garbageQueue := some queue } ∧
      Counted { self with t := t, garbageQueue := some queue } succs
        (((self.t.contents.lookup ref).map Entry.succs).getD []) := by
  have graph : Graph t = (Graph self.t).insert ref succs := graph_insertEntry contents
  have support : t.contents.support = insert ref self.t.contents.support := by
    rw [contents]
    rfl
  obtain ⟨oldFew, oldPresent⟩ := oldSuccs_of_inv inv ref
  obtain ⟨queue, isQueue⟩ := Option.isSome_iff_exists.mp tracking
  have garbage := inv.garbage queue isQueue
  obtain ⟨queue', isChange, garbage'⟩ : ∃ queue', (if (self.t.contents.lookup ref).isNone then
      self.changeQueue (·.add ref) else some self) =
        some { self with garbageQueue := some queue' } ∧
        HoldsGarbage t queue' := by
    cases old : self.t.contents.lookup ref with
    | none =>
      rw [old] at contents
      obtain ⟨queue', isAdd, garbage'⟩ := garbage.add inv.map inv.size contents rfl
      exact ⟨queue', changeQueue_eq isQueue isAdd, garbage'⟩
    | some entry =>
      rw [old] at contents
      exact ⟨queue, by rw [← isQueue]; rfl, garbage.kept contents old .rfl⟩
  refine ⟨queue', isChange, map, ?_, ⟨queue', rfl, garbage'⟩, ?_, ?_, ?_, oldFew, ?_⟩
  · intro dest entry found
    have edges := card_predecessorSet_insert (Graph self.t) ref dest succs
    rw [← graph, edgeCount_graph] at edges
    rw [contents, lookup_insert_eq_some] at found
    have isOld : entry.predCount = (predecessorSet (Graph self.t) dest).card + isRoot dest := by
      obtain ⟨rfl, rfl⟩ | ⟨-, found⟩ := found
      · exact predCount_getD_of_inv inv dest
      · exact predCount_of_lookup inv found
    dsimp only
    omega
  · intro succ member
    rw [support]
    exact Finset.mem_insert_of_mem ((mem_graph_iff inv).mp (valid succ member))
  · intro succ member
    rw [support]
    exact Finset.mem_insert_of_mem (oldPresent succ member)
  · intro other otherSuccs found
    rw [graph, ← inv.graph, lookup_insert_eq_some] at found
    obtain ⟨-, rfl⟩ | ⟨-, found⟩ := found
    · exact few
    · exact inv.fanout other otherSuccs found
  · dsimp only
    rw [← map.card, support]
    have bound := Finset.card_insert_le ref self.t.contents.support
    rw [inv.graph, support_graph] at room
    omega

theorem updateAndRemoveLoc_spec (ref : Reference) :
    ∃ self', updateAndRemoveLoc self ref succs = some (self', self.locs.lookup ref) ∧ Inv self' ∧
      self'.garbageQueue.isSome ∧ self'.graph = self.graph.insert ref succs ∧
      self'.locs = self.locs.erase ref := by
  have small : self.t.count < 2 ^ 64 / 8 := by
    have := inv.size
    rw [maxSize] at this
    omega
  obtain ⟨t, isInsert, map, contents⟩ := insert_spec inv.map small ref
    ⟨none, succs, ((self.t.contents.lookup ref).map Entry.predCount).getD 0⟩
  have graph : Graph t = self.graph.insert ref succs := inv.graph ▸ graph_insertEntry contents
  obtain ⟨queue, isChange, counting⟩ := counted_insert inv tracking few room valid map contents
  obtain ⟨self', isCounts, counted, recounted⟩ := updatePredCounts_spec counting
  have graph' : Graph self'.t = self.graph.insert ref succs := recounted.graph.trans graph
  have upper : self'.refUpperBound = self.refUpperBound := by rw [recounted.unchanged]
  refine ⟨updateGhost { self' with
    refUpperBound := if self'.refUpperBound < ref then ref else self'.refUpperBound
    findLoclessIterator := none }, ?_, inv_updateGhost
      { counted with } ?_ ?_ ?_ rfl, counted.tracking, graph', ?_⟩
  · rw [updateAndRemoveLoc, get_eq inv.map, Option.bind_eq_bind, Option.bind_some, isChange]
    simp only [Option.bind_eq_bind, Option.bind_some, isInsert, isCounts]
    rw [lookup_locs_of_inv inv]
    rfl
  · intro src srcSuccs found succ member
    rw [graph', lookup_insert_eq_some] at found
    rw [graph']
    refine Finset.mem_insert_of_mem ?_
    obtain ⟨-, rfl⟩ | ⟨-, found⟩ := found
    · exact valid succ member
    · exact inv.closed src srcSuccs found succ member
  · dsimp only
    rw [← support_graph, graph']
    exact Finset.mem_insert_of_mem ((mem_graph_iff inv).mpr inv.root)
  · intro other present
    rw [← support_graph, graph'] at present
    rw [upper]
    rcases Finset.mem_insert.mp present with rfl | old
    · split
      · exact UInt64.le_refl _
      · exact UInt64.not_lt.mp (by assumption)
    · have bound := inv.refUpperBound other old
      split
      · exact UInt64.le_of_lt (UInt64.lt_of_le_of_lt bound (by assumption))
      · exact bound
  · refine recounted.locs.trans (locs_erase inv ?_ ?_)
    · intro other differ
      rw [contents, lookup_insert, if_neg differ]
    · rw [contents, lookup_insert, if_pos rfl, Option.bind_some]

end

theorem counted_erase (deallocable : Deallocable self ref) {entry : Entry}
    (found : self.t.contents.lookup ref = some entry) (map : MapInv t)
    (contents : t.contents = self.t.contents.erase ref) :
    ∃ queue, changeQueue { self with t := t } (·.remove ref) =
        some { self with t := t, garbageQueue := some queue } ∧
      Counted { self with t := t, garbageQueue := some queue } [] entry.succs := by
  have graph : Graph t = (Graph self.t).erase ref := graph_eraseEntry contents
  have support : t.contents.support = self.t.contents.support.erase ref := by
    rw [contents]
    rfl
  have oldSuccs := oldSuccs_of_inv inv ref
  rw [found, Option.map_some, Option.getD_some] at oldSuccs
  obtain ⟨queue, isQueue⟩ := Option.isSome_iff_exists.mp tracking
  have garbage := inv.garbage queue isQueue
  obtain ⟨queue', isRemove, inv', isSeq⟩ := garbage.inv.remove ref
  have isGraph : self.graph.lookup ref = some entry.succs := by
    rw [inv.graph, lookup_graph, found, Option.map_some]
  refine ⟨queue', changeQueue_eq isQueue isRemove, map, ?_, ⟨queue', rfl, inv', ?_⟩, nofun, ?_, ?_,
    oldSuccs.1, ?_⟩
  · intro dest destEntry isDest
    have edges := card_predecessorSet_erase (Graph self.t) ref dest
    rw [← graph, edgeCount_graph, found, Option.map_some, Option.getD_some] at edges
    rw [contents, lookup_erase_eq_some] at isDest
    have isCount := predCount_of_lookup inv isDest.2
    dsimp only
    rw [List.count_nil]
    omega
  · intro other
    rw [isSeq, garbage.inv.noDupes.mem_erase_iff, garbage.members, contents, lookup_erase]
    by_cases same : other = ref
    · simp [same]
    · rw [if_neg same]
      exact and_iff_right same
  · intro succ member
    rw [support]
    refine Finset.mem_erase.mpr ⟨?_, oldSuccs.2 succ member⟩
    rintro rfl
    exact deallocable.unused succ entry.succs isGraph member
  · intro other otherSuccs isOther
    rw [graph, ← inv.graph, lookup_erase_eq_some] at isOther
    exact inv.fanout other otherSuccs isOther.2
  · dsimp only
    rw [← map.card, support]
    have bound := Finset.card_erase_le (s := self.t.contents.support) (a := ref)
    rw [inv.map.card] at bound
    exact le_trans bound inv.size

theorem removeRef_spec (deallocable : Deallocable self ref) :
    ∃ self', removeRef self ref = some (self', self.locs.lookup ref) ∧ Inv self' ∧
      self'.garbageQueue.isSome ∧ self'.graph = self.graph.erase ref ∧
      self'.locs = self.locs.erase ref := by
  have present := (mem_graph_iff inv).mp deallocable.present
  obtain ⟨_, found⟩ := exists_lookup present
  obtain ⟨t, isRemove, map, contents⟩ := LinearMutableMap.removeAndGet_spec inv.map ref
  have graph : Graph t = self.graph.erase ref := inv.graph ▸ graph_eraseEntry contents
  obtain ⟨queue, isChange, counting⟩ := counted_erase inv tracking deallocable found map contents
  obtain ⟨self', isCounts, counted, recounted⟩ := updatePredCounts_spec counting
  have graph' : Graph self'.t = self.graph.erase ref := recounted.graph.trans graph
  have upper : self'.refUpperBound = self.refUpperBound := by rw [recounted.unchanged]
  refine ⟨updateGhost { self' with findLoclessIterator := none }, ?_, inv_updateGhost
      { counted with } ?_ ?_ ?_ rfl, counted.tracking, graph', ?_⟩
  · simp only [removeRef, isRemove, found, isChange, isCounts, Option.bind_eq_bind,
      Option.bind_some]
    rw [lookup_locs_of_inv inv, found]
    rfl
  · intro src succs isSrc succ member
    rw [graph', lookup_erase_eq_some] at isSrc
    rw [graph']
    refine Finset.mem_erase.mpr ⟨?_, inv.closed src succs isSrc.2 succ member⟩
    rintro rfl
    exact deallocable.unused src succs isSrc.2 member
  · dsimp only
    rw [← support_graph, graph']
    exact Finset.mem_erase.mpr ⟨deallocable.notRoot.symm, (mem_graph_iff inv).mpr inv.root⟩
  · intro other otherPresent
    rw [← support_graph, graph'] at otherPresent
    rw [upper]
    exact inv.refUpperBound other (Finset.mem_of_mem_erase otherPresent)
  · refine recounted.locs.trans (locs_erase inv ?_ ?_)
    · intro other differ
      rw [contents, lookup_erase, if_neg differ]
    · rw [contents, lookup_erase, if_pos rfl, Option.bind_none]

end

theorem mem_garbageQueue_iff {queue : USeq} (isQueue : self.garbageQueue = some queue) :
    ref ∈ queue.I ↔ Deallocable self ref := by
  rw [(inv.garbage queue isQueue).members]
  constructor
  · rintro ⟨entry, found, unused⟩
    rw [predCount_of_lookup inv found, Nat.add_eq_zero_iff, card_predecessorSet_eq_zero,
      ← inv.graph] at unused
    refine ⟨?_, ?_, unused.1⟩
    · rw [mem_graph_iff inv, mem_support, found]
      rfl
    · rintro rfl
      exact absurd unused.2 (by decide)
  · intro deallocable
    have present := (mem_graph_iff inv).mp deallocable.present
    obtain ⟨entry, found⟩ := exists_lookup present
    refine ⟨entry, found, ?_⟩
    rw [predCount_of_lookup inv found, isRoot, if_neg deallocable.notRoot, Nat.add_zero,
      card_predecessorSet_eq_zero, ← inv.graph]
    exact deallocable.unused

theorem findDeallocable_spec (tracking : self.garbageQueue.isSome) :
    (self.findDeallocable = none ↔ ∀ ref, ¬ Deallocable self ref) ∧
      ∀ ref, self.findDeallocable = some ref → Deallocable self ref := by
  obtain ⟨_, isQueue⟩ := Option.isSome_iff_exists.mp tracking
  rw [findDeallocable, isQueue, Option.bind_some, (inv.garbage _ isQueue).inv.firstOpt,
    List.head?_eq_none_iff, List.eq_nil_iff_forall_not_mem]
  constructor
  · exact forall_congr' fun ref => (mem_garbageQueue_iff inv isQueue).not
  · intro ref isFirst
    exact (mem_garbageQueue_iff inv isQueue).mp (List.mem_of_head? isFirst)

end

end Specs

section Runs

/-- The methods that change a table. -/
inductive Call where
  | updateAndRemoveLoc (ref : Reference) (succs : List Reference)
  | removeLoc (ref : Reference)
  | addLocIfPresent (ref : Reference) (loc : Location)
  | removeRef (ref : Reference)

/-- What a method returns. -/
inductive Result where
  | oldLoc (loc : Option Location)
  | added (isAdded : Bool)

namespace Call

/-- What the caller of an operation promises. -/
def Allowed (self : IndirectionTable) : Call → Prop
  | updateAndRemoveLoc _ succs => succs.length ≤ maxNumChildren ∧
      self.graph.support.card < maxSize ∧ ∀ succ ∈ succs, succ ∈ self.graph.support
  | removeLoc ref => ref ∈ self.graph.support
  | addLocIfPresent _ _ => True
  | removeRef ref => Deallocable self ref

def run (self : IndirectionTable) : Call → Option (IndirectionTable × Result)
  | updateAndRemoveLoc ref succs =>
    (self.updateAndRemoveLoc ref succs).map (Prod.map id .oldLoc)
  | removeLoc ref => (self.removeLoc ref).map (Prod.map id .oldLoc)
  | addLocIfPresent ref loc => (self.addLocIfPresent ref loc).map (Prod.map id .added)
  | removeRef ref => (self.removeRef ref).map (Prod.map id .oldLoc)

/-- What an operation does to the graph and the locations, and what it returns. -/
def Contract (self self' : IndirectionTable) (result : Result) : Call → Prop
  | updateAndRemoveLoc ref succs => self'.graph = self.graph.insert ref succs ∧
      self'.locs = self.locs.erase ref ∧ result = .oldLoc (self.locs.lookup ref)
  | removeLoc ref => self'.graph = self.graph ∧ self'.locs = self.locs.erase ref ∧
      result = .oldLoc (self.locs.lookup ref)
  | addLocIfPresent ref loc => self'.graph = self.graph ∧
      if ref ∈ self.graph.support ∧ ref ∉ self.locs.support then
        self'.locs = self.locs.insert ref loc ∧ result = .added true
      else self'.locs = self.locs ∧ result = .added false
  | removeRef ref => self'.graph = self.graph.erase ref ∧ self'.locs = self.locs.erase ref ∧
      result = .oldLoc (self.locs.lookup ref)

theorem run_spec {self : IndirectionTable} (inv : Inv self) (tracking : self.garbageQueue.isSome)
    {call : Call} (allowed : call.Allowed self) :
    ∃ self' result, call.run self = some (self', result) ∧ Inv self' ∧
      self'.garbageQueue.isSome ∧ call.Contract self self' result := by
  cases call with
  | updateAndRemoveLoc ref succs =>
    obtain ⟨few, room, valid⟩ := allowed
    obtain ⟨self', isRun, inv', tracking', graph, locs⟩ :=
      updateAndRemoveLoc_spec inv tracking few room valid ref
    exact ⟨self', _, by rw [run, isRun]; rfl, inv', tracking', graph, locs, rfl⟩
  | removeLoc ref =>
    obtain ⟨self', isRun, inv', queue, graph, locs⟩ := removeLoc_spec inv allowed
    exact ⟨self', _, by rw [run, isRun]; rfl, inv', queue ▸ tracking, graph, locs, rfl⟩
  | addLocIfPresent ref loc =>
    obtain ⟨self', _, isRun, inv', isAdded, queue, graph, locs⟩ := addLocIfPresent_spec inv ref loc
    refine ⟨self', _, by rw [run, isRun]; rfl, inv', queue ▸ tracking, graph, ?_⟩
    split_ifs with fresh
    · obtain rfl := isAdded.mpr fresh
      exact ⟨locs, rfl⟩
    · obtain rfl := Bool.eq_false_iff.mpr (isAdded.not.mpr fresh)
      exact ⟨locs, rfl⟩
  | removeRef ref =>
    obtain ⟨self', isRun, inv', tracking', graph, locs⟩ := removeRef_spec inv tracking allowed
    exact ⟨self', _, by rw [run, isRun]; rfl, inv', tracking', graph, locs, rfl⟩

end Call

/-- The tables that are read and then changed by any number of operations. -/
inductive Reachable : IndirectionTable → Prop
  | read {a : List EntryVal} {self : IndirectionTable}
      (isRead : valToIndirectionTable a = some self) : Reachable self
  | called {self self' : IndirectionTable} {call : Call} {result : Result}
      (reachable : Reachable self) (allowed : call.Allowed self)
      (isRun : call.run self = some (self', result)) : Reachable self'

theorem Reachable.inv {self : IndirectionTable} (reachable : Reachable self) :
    Inv self ∧ self.garbageQueue.isSome := by
  induction reachable with
  | @read a self isRead =>
    rcases valToIndirectionTable_spec a with ⟨_, _, isTable, inv, tracking, _, _⟩ | ⟨_, failed⟩
    · rw [isRead] at isTable
      cases isTable
      exact ⟨inv, tracking⟩
    · rw [isRead] at failed
      cases failed
  | called _ allowed isRun ih =>
    obtain ⟨inv, tracking⟩ := ih
    obtain ⟨_, _, isRun', inv', tracking', _⟩ := Call.run_spec inv tracking allowed
    rw [isRun] at isRun'
    cases isRun'
    exact ⟨inv', tracking'⟩

/-- The counts, the queue and the graph of a table agree. -/
structure Exact (table : IndirectionTable) : Prop where
  graph : table.graph = Graph table.t
  locs : table.locs = Locs table.t
  counts : ∀ ref entry, table.t.contents.lookup ref = some entry →
    entry.predCount = (predecessorSet table.graph ref).card + isRoot ref
  queue : ∃ queue, table.garbageQueue = some queue ∧ queue.Inv ∧ queue.I.Nodup ∧
    ∀ ref, ref ∈ queue.I ↔
      ∃ entry, table.t.contents.lookup ref = some entry ∧ entry.predCount = 0
  closed : BlockCache.GraphClosed table.graph
  root : root ∈ table.graph.support
  findDeallocable : table.findDeallocable = none ↔ ∀ ref ∈ table.graph.support,
    ref ≠ VerifiedBetrfs.root → ∃ src succs, table.graph.lookup src = some succs ∧ ref ∈ succs

theorem exact_of_inv {self : IndirectionTable} (inv : Inv self)
    (tracking : self.garbageQueue.isSome) : Exact self := by
  refine ⟨inv.graph, inv.locs, ?_, ?_, inv.closed, (mem_graph_iff inv).mpr inv.root, ?_⟩
  · intro ref entry found
    rw [inv.graph]
    exact predCount_of_lookup inv found
  · obtain ⟨queue, isQueue⟩ := Option.isSome_iff_exists.mp tracking
    have garbage := inv.garbage queue isQueue
    exact ⟨queue, isQueue, garbage.inv, garbage.inv.noDupes, garbage.members⟩
  · rw [(findDeallocable_spec inv tracking).1]
    constructor
    · intro none ref present notRoot
      by_contra! unused
      exact none ref ⟨present, notRoot, unused⟩
    · intro used ref deallocable
      obtain ⟨src, succs, found, member⟩ := used ref deallocable.present deallocable.notRoot
      exact deallocable.unused src succs found member

/-- The reference counts and the garbage queue are exact from the reading of a table on, and every
operation returns and changes graph and locations as it should. -/
theorem referenceCounts_exact :
    (∀ a table, valToIndirectionTable a = some table → table.graph = graphOf a ∧
      table.locs = locsOf a ∧ BlockCache.GraphClosed (graphOf a) ∧
        root ∈ (graphOf a).support) ∧
    ∀ table, Reachable table → Exact table ∧ ∀ call : Call, call.Allowed table →
      ∃ table' result, call.run table = some (table', result) ∧ Reachable table' ∧
        call.Contract table table' result := by
  constructor
  · intro a table isRead
    rcases valToIndirectionTable_spec a with
      ⟨parsable, table', isTable, _, _, graph, locs⟩ | ⟨_, failed⟩
    · rw [isRead] at isTable
      cases isTable
      exact ⟨graph, locs, parsable.closed, parsable.root⟩
    · rw [isRead] at failed
      cases failed
  · intro table reachable
    obtain ⟨inv, tracking⟩ := reachable.inv
    refine ⟨exact_of_inv inv tracking, fun call allowed => ?_⟩
    obtain ⟨table', result, isRun, _, _, contract⟩ := Call.run_spec inv tracking allowed
    exact ⟨table', result, isRun, .called reachable allowed isRun, contract⟩

/-- The value of a table with the root only. -/
def rootVal : EntryVal where
  ref := 0
  addr := (minNodeBlockIndex * nodeBlockSize).toUInt64
  len := nodeBlockSize.toUInt64
  succs := []

theorem parsable_rootVal : Parsable [rootVal] where
  size := by decide
  distinct := List.nodup_singleton _
  valid := by
    intro tuple member
    rw [List.mem_singleton.mp member]
    decide
  fanout := by
    intro tuple member
    rw [List.mem_singleton.mp member]
    decide
  root := by decide
  closed := by
    intro ref succs found
    have isEntry := FiniteMap.mem_of_lookup_ofEntries found
    rw [List.map_singleton, List.mem_singleton, Prod.mk.injEq] at isEntry
    rw [isEntry.2]
    exact nofun

/-- A new reference to the root is counted. -/
theorem referenceCounts_exact_newParent : ∃ table table' result,
    valToIndirectionTable [rootVal] = some table ∧ Exact table ∧
      (Call.updateAndRemoveLoc 1 [0]).run table = some (table', result) ∧ Exact table' ∧
      table'.graph = (graphOf [rootVal]).insert 1 [0] := by
  rcases valToIndirectionTable_spec [rootVal] with ⟨_, table, isRead, _⟩ | ⟨notParsable, _⟩
  · have reachable := Reachable.read isRead
    obtain ⟨isGraph, -, -, rootPresent⟩ := referenceCounts_exact.1 [rootVal] table isRead
    obtain ⟨exactTable, calls⟩ := referenceCounts_exact.2 table reachable
    have allowed : (Call.updateAndRemoveLoc 1 [0]).Allowed table := by
      refine ⟨by decide, ?_, ?_⟩
      · rw [isGraph]
        decide
      · intro succ member
        rw [isGraph, List.mem_singleton.mp member]
        exact rootPresent
    obtain ⟨table', result, isRun, reachable', contract⟩ := calls _ allowed
    refine ⟨table, table', result, isRead, exactTable, isRun,
      (referenceCounts_exact.2 table' reachable').1, ?_⟩
    rw [contract.1, isGraph]
  · exact absurd parsable_rootVal notParsable

end Runs

end VerifiedBetrfs.IndirectionTable
