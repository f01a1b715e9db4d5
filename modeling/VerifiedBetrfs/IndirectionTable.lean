import VerifiedBetrfs.Bitmap
import VerifiedBetrfs.LinearUSeq
import VerifiedBetrfs.DiskLayout
import Mathlib.Data.Finset.Sigma

/-!
# The indirection table in memory

The bitmap of used blocks is computed by a walk over the entries of the table.
-/

namespace VerifiedBetrfs

open BitmapImpl (Bitmap)
open DiskLayout Bounds
open FiniteMap (lookup_filterMap mem_support ofEntries)
open LinearMutableMap (FilledWithKey Item Iterator mem_storageEntries storageEntries)

namespace IndirectionTable

/-- What the table says about one reference. -/
structure Entry where
  loc : Option Location
  succs : List Reference
  predCount : Nat

abbrev HashMap := LinearMutableMap.LinearHashMap Entry

def Locs (t : HashMap) : FiniteMap Reference Location := t.contents.filterMap Entry.loc

def Graph (t : HashMap) : FiniteMap Reference (List Reference) :=
  t.contents.filterMap fun entry => some entry.succs

def PredCounts (t : HashMap) : FiniteMap Reference Nat :=
  t.contents.filterMap fun entry => some entry.predCount

/-- The source of each edge to a reference, and the position of the reference among its
successors. -/
def predecessorSet (graph : FiniteMap Reference (List Reference)) (dest : Reference) :
    Finset (Σ _ : Reference, Nat) :=
  graph.support.sigma fun src =>
    (Finset.range ((graph.lookup src).getD []).length).filter fun idx =>
      ((graph.lookup src).getD [])[idx]? = some dest

def isRoot (ref : Reference) : Nat := if ref = root then 1 else 0

/-- The count of a reference is the number of edges to it. -/
def ValidPredCounts (predCounts : FiniteMap Reference Nat)
    (graph : FiniteMap Reference (List Reference)) : Prop :=
  ∀ ref count, predCounts.lookup ref = some count →
    count = (predecessorSet graph ref).card + isRoot ref

/-- The queue holds the references that nothing counts. -/
structure HoldsGarbage (t : HashMap) (queue : USeq) : Prop where
  inv : queue.Inv
  members : ∀ ref, ref ∈ queue.I ↔
    ∃ entry, t.contents.lookup ref = some entry ∧ entry.predCount = 0

end IndirectionTable

open IndirectionTable in
/-- The hash map, the garbage queue, and ghost fields for what they mean. -/
structure IndirectionTable where
  t : HashMap
  garbageQueue : Option USeq
  refUpperBound : UInt64
  findLoclessIterator : Option LinearMutableMap.SimpleIterator
  locs : FiniteMap Reference Location
  graph : FiniteMap Reference (List Reference)
  predCounts : FiniteMap Reference Nat

namespace IndirectionTable

def maxSize : Nat := 0x100000000

def I (table : IndirectionTable) : SectorType.IndirectionTable := ⟨table.locs, table.graph⟩

/-- The ghost fields, the counts and the garbage queue are those of the map. -/
structure Inv (table : IndirectionTable) : Prop where
  map : LinearMutableMap.Inv LinearMutableMap.hash64 table.t
  locs : table.locs = Locs table.t
  graph : table.graph = Graph table.t
  predCounts : table.predCounts = PredCounts table.t
  validPredCounts : ValidPredCounts table.predCounts table.graph
  closed : BlockCache.GraphClosed table.graph
  fanout : ∀ ref succs, table.graph.lookup ref = some succs → succs.length ≤ maxNumChildren
  garbage : ∀ queue, table.garbageQueue = some queue → HoldsGarbage table.t queue
  root : root ∈ table.t.contents.support
  size : table.t.count ≤ maxSize
  refUpperBound : ∀ ref ∈ table.graph.support, ref ≤ table.refUpperBound
  locless : ∀ it, table.findLoclessIterator = some it →
    LinearMutableMap.WFSimpleIter table.t it ∧ ∀ ref ∈ it.s, ref ∈ table.locs.support

def IsLocAllocIndirectionTable (table : SectorType.IndirectionTable) (i : Int) : Prop :=
  -- The lower blocks hold no nodes and are always marked.
  (0 ≤ i ∧ i < minNodeBlockIndex) ∨
    ∃ ref loc, table.locs.lookup ref = some loc ∧ (loc.addr : Int) = i * nodeBlockSize

def IsLocAllocBitmap (bm : BitmapModel.BitmapModelT) (i : Int) : Prop :=
  0 ≤ i ∧ i < bm.length ∧ BitmapModel.isSet bm i.toNat

def bitmapInitUpTo (bm : Bitmap) (upTo : Nat) : Bitmap :=
  (List.range upTo).foldl (fun bm i => bm.set i) bm

/-- The block of the location of an entry. -/
def locIndex (entry : Entry) : Nat := (entry.loc.map Location.addr).getD 0 / nodeBlockSize

/-- The loop leaves early at a location out of range or a block that is already marked. -/
def initLocBitmapLoop (t : HashMap) (it : Iterator Entry) (success : Bool)
    (bm : Bitmap) : Bool × Bitmap :=
  match _next : it.next with
  | .done => (success, bm)
  | .next _ entry =>
    if locIndex entry < numBlocks then
      if !bm.getIsSet (locIndex entry) then
        initLocBitmapLoop t (LinearMutableMap.iterInc t it) success (bm.set (locIndex entry))
      else (false, bm)
    else (false, bm)
termination_by it.remainingSlots t
decreasing_by exact LinearMutableMap.remainingSlots_iterInc (by assumption)

/-- The bitmap of the blocks that the table uses. -/
def initLocBitmap (table : IndirectionTable) : Bool × Bitmap :=
  let bm := bitmapInitUpTo (Bitmap.constructor numBlocks) minNodeBlockIndex
  let it := LinearMutableMap.iterStart table.t
  let (_, bm) := initLocBitmapLoop table.t it false bm
  -- The assignment after the loop is reached from both early exits as well.
  (true, bm)

/-- A successful walk has found no shared location and marked exactly the used blocks, and a shared
location makes the walk fail. -/
structure DetectsSharedLocations (table : IndirectionTable) : Prop where
  success : (initLocBitmap table).1 = true →
    BlockCache.AllLocationsForDifferentRefsDontOverlap table.I ∧
      ∀ i : Int, IsLocAllocBitmap (initLocBitmap table).2.I i ↔
        IsLocAllocIndirectionTable table.I i
  shared : (∃ ref ref' loc, ref ≠ ref' ∧ table.I.locs.lookup ref = some loc ∧
    table.I.locs.lookup ref' = some loc) → (initLocBitmap table).1 = false

variable {bm : Bitmap}

theorem bitmapInitUpTo_set {upTo : Nat} (bound : upTo ≤ bm.I.length) :
    (bitmapInitUpTo bm upTo).I.length = bm.I.length ∧
      ∀ c, (bitmapInitUpTo bm upTo).getIsSet c = (decide (c < upTo) || bm.getIsSet c) := by
  induction upTo with
  | zero => simp [bitmapInitUpTo]
  | succ upTo ih =>
    obtain ⟨length, marked⟩ := ih (Nat.le_of_succ_le bound)
    have step : bitmapInitUpTo bm (upTo + 1) = (bitmapInitUpTo bm upTo).set upTo := by
      simp [bitmapInitUpTo, List.range_succ]
    rw [step, Bitmap.length_I_set]
    refine ⟨length, fun c => ?_⟩
    rw [Bitmap.getIsSet_set (by omega), marked, ← Bool.or_assoc]
    congr 1
    rw [← Bool.decide_or]
    congr 1
    exact propext (by omega)

/-- If all blocks are in range, unmarked and different, the loop runs to its end
and marks them. -/
theorem initLocBitmapLoop_completes (success : Bool) {t : HashMap}
    {it : Iterator Entry} {entries : List (Reference × Entry)}
    (remaining : LinearMutableMap.Remaining t it.i it.next entries)
    (length : bm.I.length = numBlocks) (inRange : ∀ entry ∈ entries, locIndex entry.2 < numBlocks)
    (unmarked : ∀ entry ∈ entries, bm.getIsSet (locIndex entry.2) = false)
    (distinct : (entries.map fun entry => locIndex entry.2).Nodup) :
    ∃ bm', initLocBitmapLoop t it success bm = (success, bm') ∧ bm'.I.length = numBlocks ∧
      ∀ c, bm'.getIsSet c ↔ bm.getIsSet c ∨ ∃ entry ∈ entries, locIndex entry.2 = c := by
  induction entries generalizing it bm with
  | nil =>
    have done : it.next = .done := by
      cases next : it.next with
      | done => rfl
      | next key value =>
        rw [next] at remaining
        obtain ⟨_, absurdity, _⟩ := remaining
        cases absurdity
    refine ⟨bm, ?_, length, by simp⟩
    rw [initLocBitmapLoop]
    split
    · rfl
    · simp_all
  | cons entry rest ih =>
    obtain ⟨key, value⟩ := entry
    obtain ⟨next, remaining'⟩ := LinearMutableMap.remaining_iterInc remaining
    rw [List.map_cons, List.nodup_cons] at distinct
    have here : locIndex value < numBlocks := inRange (key, value) List.mem_cons_self
    have fresh : bm.getIsSet (locIndex value) = false := unmarked (key, value) List.mem_cons_self
    have unmarked' : ∀ entry ∈ rest, (bm.set (locIndex value)).getIsSet (locIndex entry.2) =
        false := by
      intro entry member
      rw [Bitmap.getIsSet_set (by omega),
        unmarked entry (List.mem_cons_of_mem _ member), Bool.or_false, decide_eq_false_iff_not]
      intro same
      exact distinct.1 (List.mem_map.mpr ⟨entry, member, same.symm⟩)
    obtain ⟨bm', result, length', marked⟩ := ih remaining'
      (by rw [Bitmap.length_I_set, length])
      (fun entry member => inRange entry (List.mem_cons_of_mem _ member)) unmarked' distinct.2
    refine ⟨bm', ?_, length', fun c => ?_⟩
    · rw [initLocBitmapLoop]
      split
      · simp_all
      · rename_i key' value' next'
        rw [next] at next'
        cases next'
        rw [if_pos here, fresh, Bool.not_false, if_pos rfl, result]
    · rw [marked, Bitmap.getIsSet_set (length.symm ▸ here)]
      simp only [Bool.or_eq_true, decide_eq_true_eq, List.exists_mem_cons_iff]
      tauto

theorem initLocBitmapLoop_length (t : HashMap) (it : Iterator Entry) (success : Bool)
    (bm : Bitmap) : (initLocBitmapLoop t it success bm).2.I.length = bm.I.length := by
  fun_induction initLocBitmapLoop t it success bm with
  | case1 | case3 | case4 => rfl
  | case2 it bm key entry next inRange unmarked ih =>
    rw [ih, Bitmap.length_I_set]

theorem initialBitmap_set :
    (bitmapInitUpTo (.constructor numBlocks) minNodeBlockIndex).I.length = numBlocks ∧
      ∀ c, (bitmapInitUpTo (.constructor numBlocks) minNodeBlockIndex).getIsSet c = true ↔
        c < minNodeBlockIndex := by
  have empty := Bitmap.I_constructor (by decide : numBlocks % 64 = 0)
  have length : (Bitmap.constructor numBlocks).I.length = numBlocks := by
    rw [empty, BitmapModel.emptyBitmap, List.length_replicate]
  have bound : minNodeBlockIndex ≤ (Bitmap.constructor numBlocks).I.length := by
    rw [length]
    decide
  obtain ⟨length', marked⟩ := bitmapInitUpTo_set bound
  refine ⟨length'.trans length, fun c => ?_⟩
  rw [marked, Bitmap.getIsSet_constructor, Bool.or_false, decide_eq_true_eq]

theorem initLocBitmap_success (table : IndirectionTable) : (initLocBitmap table).1 = true := rfl

section Walk

variable {table : IndirectionTable} (inv : Inv table)
  (wf : BlockCache.WFCompleteIndirectionTable table.I)

include inv wf in
theorem loc_of_entry {ref : Reference} {entry : Entry}
    (member : (ref, entry) ∈ storageEntries table.t.underlying.storage) :
    ∃ loc, table.locs.lookup ref = some loc ∧ loc.addr = locIndex entry * nodeBlockSize ∧
      minNodeBlockIndex ≤ locIndex entry := by
  have found := (mem_storageEntries inv.map).mp member
  have inGraph : ref ∈ table.graph.support := by
    rw [inv.graph, mem_support, Graph, lookup_filterMap, found]
    rfl
  have inLocs : ref ∈ table.locs.support := wf.complete ▸ inGraph
  obtain ⟨loc, isLoc⟩ := FiniteMap.exists_lookup inLocs
  have entryLoc : entry.loc = some loc := by
    rw [inv.locs, Locs, lookup_filterMap, found] at isLoc
    exact isLoc
  obtain ⟨block, lower, isAddr⟩ := (wf.validLocs ref loc isLoc).1.exists_index
  have index : locIndex entry = block := by
    rw [locIndex, entryLoc, Option.map_some, Option.getD_some, isAddr,
      Nat.mul_div_cancel _ (by decide)]
  exact ⟨loc, isLoc, by rw [index, isAddr], index.symm ▸ lower⟩

include inv wf in
theorem entry_of_loc {ref : Reference} {loc : Location} (found : table.locs.lookup ref = some loc) :
    ∃ entry, (ref, entry) ∈ storageEntries table.t.underlying.storage ∧
      loc.addr = locIndex entry * nodeBlockSize := by
  have isLoc := found
  rw [inv.locs, Locs, lookup_filterMap] at found
  obtain ⟨entry, inMap, _⟩ := Option.bind_eq_some_iff.mp found
  have member := (mem_storageEntries inv.map).mpr inMap
  obtain ⟨_, isLoc', isAddr, _⟩ := loc_of_entry inv wf member
  obtain rfl := Option.mem_unique isLoc isLoc'
  exact ⟨entry, member, isAddr⟩

include inv wf in
/-- If the locations are different and in range, the walk marks the lower blocks
and the blocks of the locations. -/
theorem initLocBitmap_marks (distinct : BlockCache.AllLocationsForDifferentRefsDontOverlap table.I)
    (inRange : ∀ ref loc, table.locs.lookup ref = some loc → loc.addr < numBlocks * nodeBlockSize)
    (c : Nat) :
    (initLocBitmap table).2.getIsSet c = true ↔ c < minNodeBlockIndex ∨
      ∃ ref loc, table.locs.lookup ref = some loc ∧ loc.addr = c * nodeBlockSize := by
  obtain ⟨length, lowerMarked⟩ := initialBitmap_set
  have blockRange : ∀ entry ∈ storageEntries table.t.underlying.storage,
      locIndex entry.2 < numBlocks := by
    rintro ⟨ref, entry⟩ member
    obtain ⟨loc, isLoc, isAddr, _⟩ := loc_of_entry inv wf member
    have bound := inRange ref loc isLoc
    rw [isAddr] at bound
    exact Nat.lt_of_mul_lt_mul_right bound
  have unmarked : ∀ entry ∈ storageEntries table.t.underlying.storage,
      (bitmapInitUpTo (.constructor numBlocks) minNodeBlockIndex).getIsSet (locIndex entry.2) =
        false := by
    rintro ⟨ref, entry⟩ member
    obtain ⟨_, _, _, lower⟩ := loc_of_entry inv wf member
    rw [Bool.eq_false_iff, Ne, lowerMarked, not_lt]
    exact lower
  have keysNodup := LinearMutableMap.nodup_storageEntries inv.map.underlying.keys.cantEquivocate
  have blocksNodup : ((storageEntries table.t.underlying.storage).map
      fun entry => locIndex entry.2).Nodup := by
    rw [List.nodup_iff_pairwise_ne, List.pairwise_map] at keysNodup ⊢
    refine keysNodup.imp_of_mem ?_
    rintro ⟨ref, entry⟩ ⟨ref', _⟩ member member' differ same
    obtain ⟨loc, isLoc, isAddr, _⟩ := loc_of_entry inv wf member
    obtain ⟨loc', isLoc', isAddr', _⟩ := loc_of_entry inv wf member'
    exact differ (distinct ref ref' loc loc' isLoc isLoc' (by rw [isAddr, isAddr', same]))
  obtain ⟨bm', result, _, marked⟩ := initLocBitmapLoop_completes false
    (LinearMutableMap.remaining_iterStart table.t) length blockRange unmarked blocksNodup
  have isBitmap : (initLocBitmap table).2 = bm' := congrArg Prod.snd result
  rw [isBitmap, marked, lowerMarked]
  refine or_congr_right ⟨?_, ?_⟩
  · rintro ⟨⟨ref, entry⟩, member, rfl⟩
    obtain ⟨loc, isLoc, isAddr, _⟩ := loc_of_entry inv wf member
    exact ⟨ref, loc, isLoc, isAddr⟩
  · rintro ⟨ref, loc, isLoc, isAddr⟩
    obtain ⟨entry, member, isAddr'⟩ := entry_of_loc inv wf isLoc
    refine ⟨(ref, entry), member, Nat.eq_of_mul_eq_mul_right (by decide : 0 < nodeBlockSize) ?_⟩
    rw [← isAddr, isAddr']

end Walk

/-- A bitmap whose bits are the used blocks, as a statement about all integers. -/
theorem isLocAllocBitmap_iff {table : SectorType.IndirectionTable}
    (length : bm.I.length = numBlocks) (marks : ∀ c, bm.getIsSet c = true ↔ c < minNodeBlockIndex ∨
      ∃ ref loc, table.locs.lookup ref = some loc ∧ loc.addr = c * nodeBlockSize)
    (inRange : ∀ ref loc, table.locs.lookup ref = some loc → loc.addr < numBlocks * nodeBlockSize)
    (i : Int) :
    IsLocAllocBitmap bm.I i ↔ IsLocAllocIndirectionTable table i := by
  have lowerFits : minNodeBlockIndex ≤ numBlocks := by decide
  have read : ∀ c < numBlocks, BitmapModel.isSet bm.I c = bm.getIsSet c := fun c bound =>
    (Bitmap.getIsSet_eq (length.symm ▸ bound)).symm
  constructor
  · rintro ⟨nonneg, _, isSet⟩
    obtain ⟨c, rfl⟩ := Int.eq_ofNat_of_zero_le nonneg
    rw [Int.toNat_natCast, read c (by omega), marks] at isSet
    rcases isSet with lower | ⟨ref, loc, found, isAddr⟩
    · exact Or.inl ⟨nonneg, by omega⟩
    · exact Or.inr ⟨ref, loc, found, by rw [isAddr]; rfl⟩
  · rintro (⟨nonneg, lower⟩ | ⟨ref, loc, found, isAddr⟩)
    · obtain ⟨c, rfl⟩ := Int.eq_ofNat_of_zero_le nonneg
      refine ⟨nonneg, by omega, ?_⟩
      rw [Int.toNat_natCast, read c (by omega), marks]
      exact Or.inl (by omega)
    · have bound := inRange ref loc found
      rw [nodeBlockSize] at isAddr bound
      obtain ⟨c, rfl⟩ := Int.eq_ofNat_of_zero_le (by omega : 0 ≤ i)
      refine ⟨by omega, by omega, ?_⟩
      rw [Int.toNat_natCast, read c (by omega), marks]
      refine Or.inr ⟨ref, loc, found, ?_⟩
      rw [nodeBlockSize]
      omega

/-- The walk always succeeds, so it detects shared locations only in the tables that have none and
whose locations all lie in the range of the bitmap. -/
theorem detectsSharedLocations_iff (table : IndirectionTable) (inv : Inv table)
    (wf : BlockCache.WFCompleteIndirectionTable table.I) :
    DetectsSharedLocations table ↔
      BlockCache.AllLocationsForDifferentRefsDontOverlap table.I ∧
        ∀ ref loc, table.I.locs.lookup ref = some loc →
          loc.addr < numBlocks * nodeBlockSize := by
  have length : (initLocBitmap table).2.I.length = numBlocks :=
    (initLocBitmapLoop_length table.t _ _ _).trans initialBitmap_set.1
  constructor
  · intro detects
    obtain ⟨distinct, exact⟩ := detects.success (initLocBitmap_success table)
    refine ⟨distinct, fun ref loc found => ?_⟩
    obtain ⟨block, _, isAddr⟩ := (wf.validLocs ref loc found).1.exists_index
    obtain ⟨_, _, _⟩ := (exact block).mpr (Or.inr ⟨ref, loc, found, by rw [isAddr]; rfl⟩)
    rw [isAddr]
    exact Nat.mul_lt_mul_of_pos_right (by omega) (by decide)
  · rintro ⟨distinct, inRange⟩
    have marks := initLocBitmap_marks inv wf distinct inRange
    refine ⟨fun _ => ⟨distinct, isLocAllocBitmap_iff length marks inRange⟩, ?_⟩
    · rintro ⟨ref, ref', loc, differ, found, found'⟩
      exact absurd (distinct ref ref' loc loc found found' rfl) differ

section TwoNodes

variable (loc loc' : Location)

/-- The root and its child, as they are inserted into an empty map. -/
def twoNodeMap : HashMap :=
  ((LinearMutableMap.insert LinearMutableMap.hash64 (LinearMutableMap.constructor 128) 0
    ⟨some loc, [1], 1⟩).bind fun t =>
      LinearMutableMap.insert LinearMutableMap.hash64 t 1 ⟨some loc', [], 1⟩).getD
    (LinearMutableMap.constructor 128)

def twoNodeTable : IndirectionTable where
  t := twoNodeMap loc loc'
  garbageQueue := none
  refUpperBound := 1
  findLoclessIterator := none
  locs := Locs (twoNodeMap loc loc')
  graph := Graph (twoNodeMap loc loc')
  predCounts := PredCounts (twoNodeMap loc loc')

theorem twoNodeMap_spec :
    LinearMutableMap.Inv LinearMutableMap.hash64 (twoNodeMap loc loc') ∧
      (twoNodeMap loc loc').contents =
        (FiniteMap.empty.insert 0 ⟨some loc, [1], 1⟩).insert 1 ⟨some loc', [], 1⟩ := by
  have empty : LinearMutableMap.Inv LinearMutableMap.hash64 (LinearMutableMap.constructor 128) :=
    LinearMutableMap.inv_constructor (V := Entry) (le_refl 128) (by decide)
  obtain ⟨first, isFirst, inv, contents⟩ :=
    LinearMutableMap.insert_spec empty (by decide) 0 ⟨some loc, [1], 1⟩
  have count : first.count = 1 := by
    rw [← inv.card, contents]
    rfl
  obtain ⟨second, isSecond, inv', contents'⟩ :=
    LinearMutableMap.insert_spec inv (by omega) 1 ⟨some loc', [], 1⟩
  rw [twoNodeMap, isFirst, Option.bind_some, isSecond, Option.getD_some, contents', contents]
  exact ⟨inv', rfl⟩

-- The map is known by its contents, and must not be evaluated.
attribute [local irreducible] twoNodeMap

theorem lookup_twoNodeMap (ref : Reference) : (twoNodeMap loc loc').contents.lookup ref =
    if ref = 1 then some ⟨some loc', [], 1⟩
    else if ref = 0 then some ⟨some loc, [1], 1⟩ else none := by
  simp [(twoNodeMap_spec loc loc').2]

theorem lookup_graph_twoNodeMap (ref : Reference) : (Graph (twoNodeMap loc loc')).lookup ref =
    if ref = 1 then some [] else if ref = 0 then some [1] else none := by
  rw [Graph, lookup_filterMap, lookup_twoNodeMap]
  grind

theorem graph_twoNodeMap : Graph (twoNodeMap loc loc') = ofEntries [(0, [1]), (1, [])] := by
  ext1 ref
  rw [lookup_graph_twoNodeMap]
  simp [ofEntries]

theorem lookup_locs_twoNodeMap (ref : Reference) : (Locs (twoNodeMap loc loc')).lookup ref =
    if ref = 1 then some loc' else if ref = 0 then some loc else none := by
  rw [Locs, lookup_filterMap, lookup_twoNodeMap]
  grind

theorem inv_twoNodeTable : Inv (twoNodeTable loc loc') where
  map := (twoNodeMap_spec loc loc').1
  locs := rfl
  graph := rfl
  predCounts := rfl
  validPredCounts := by
    intro ref count found
    have counts : (PredCounts (twoNodeMap loc loc')).lookup ref =
        if ref = 1 then some 1 else if ref = 0 then some 1 else none := by
      rw [PredCounts, lookup_filterMap, lookup_twoNodeMap]
      grind
    have child : (predecessorSet (ofEntries [(0, [1]), (1, [])]) 1).card = 1 := by
      decide
    have parent : (predecessorSet (ofEntries [(0, [1]), (1, [])]) 0).card = 0 := by
      decide
    rw [twoNodeTable, counts] at found
    rw [twoNodeTable, graph_twoNodeMap, isRoot, root]
    grind
  closed := by
    intro ref succs found succ member
    rw [twoNodeTable, lookup_graph_twoNodeMap] at found
    rw [mem_support, twoNodeTable, lookup_graph_twoNodeMap]
    grind
  fanout := by
    intro ref succs found
    rw [twoNodeTable, lookup_graph_twoNodeMap] at found
    grind [maxNumChildren]
  garbage := by
    intro queue isQueue
    cases isQueue
  root := by
    rw [mem_support, twoNodeTable, lookup_twoNodeMap]
    rfl
  size := by
    rw [twoNodeTable, ← (twoNodeMap_spec loc loc').1.card, (twoNodeMap_spec loc loc').2]
    exact (by decide : 2 ≤ maxSize)
  refUpperBound := by
    intro ref present
    rw [mem_support, twoNodeTable, lookup_graph_twoNodeMap] at present
    have isNode : ref = 0 ∨ ref = 1 := by grind
    rcases isNode with rfl | rfl
    · exact (by decide : (0 : UInt64) ≤ 1)
    · exact (by decide : (1 : UInt64) ≤ 1)
  locless := by
    intro it isIterator
    cases isIterator

theorem wf_twoNodeTable (valid : ValidNodeLocation loc) (valid' : ValidNodeLocation loc') :
    BlockCache.WFCompleteIndirectionTable (twoNodeTable loc loc').I where
  validLocs := by
    intro ref found isLoc
    rw [I, twoNodeTable, lookup_locs_twoNodeMap] at isLoc
    grind
  complete := by
    ext ref
    rw [mem_support, mem_support, I, twoNodeTable, lookup_graph_twoNodeMap, lookup_locs_twoNodeMap]
    grind
  root := by
    rw [mem_support, I, twoNodeTable, lookup_graph_twoNodeMap]
    rfl
  closed := (inv_twoNodeTable loc loc').closed

end TwoNodes

/-- The location of the node block with the given number after the first one. -/
def nodeLocation (block : Nat) : Location :=
  ⟨(minNodeBlockIndex + block) * nodeBlockSize, nodeBlockSize⟩

theorem valid_nodeLocation (block : Nat) : ValidNodeLocation (nodeLocation block) := by
  refine ⟨⟨Nat.mul_mod_left _ _, ?_⟩, le_refl _⟩
  rw [nodeLocation, Nat.mul_comm]
  exact Nat.mul_le_mul_right _ (Nat.le_add_right _ _)

/-- Both nodes of this table are in the same block, and the walk reports
success. -/
theorem not_detectsSharedLocations :
    Inv (twoNodeTable (nodeLocation 0) (nodeLocation 0)) ∧
      BlockCache.WFCompleteIndirectionTable (twoNodeTable (nodeLocation 0) (nodeLocation 0)).I ∧
      ¬ DetectsSharedLocations (twoNodeTable (nodeLocation 0) (nodeLocation 0)) := by
  refine ⟨inv_twoNodeTable _ _, wf_twoNodeTable _ _ (valid_nodeLocation 0) (valid_nodeLocation 0),
    fun detects => ?_⟩
  have failed := detects.shared ⟨0, 1, nodeLocation 0, by decide, ?_, ?_⟩
  · rw [initLocBitmap_success] at failed
    cases failed
  · exact lookup_locs_twoNodeMap _ _ 0
  · exact lookup_locs_twoNodeMap _ _ 1

theorem detectsSharedLocations_twoNodes :
    DetectsSharedLocations (twoNodeTable (nodeLocation 0) (nodeLocation 1)) := by
  refine (detectsSharedLocations_iff _ (inv_twoNodeTable _ _)
    (wf_twoNodeTable _ _ (valid_nodeLocation 0) (valid_nodeLocation 1))).mpr ⟨?_, ?_⟩
  · intro ref ref' loc loc' found found' sameAddr
    rw [I, twoNodeTable, lookup_locs_twoNodeMap] at found found'
    have differ : (nodeLocation 0).addr ≠ (nodeLocation 1).addr := by decide
    grind
  · intro ref loc found
    rw [I, twoNodeTable, lookup_locs_twoNodeMap] at found
    have first : (nodeLocation 0).addr < numBlocks * nodeBlockSize := by decide
    have second : (nodeLocation 1).addr < numBlocks * nodeBlockSize := by decide
    grind

end IndirectionTable

end VerifiedBetrfs
