import VerifiedBetrfs.IndirectionTable
import Mathlib.Algebra.Order.BigOperators.Group.Finset

/-!
# Reading an indirection table

The entries go into a hash map, then every successor is counted, and the references that nobody
counts go into the garbage queue.
-/

namespace VerifiedBetrfs.IndirectionTable

open DiskLayout Bounds
open FiniteMap (lookup_filterMap lookup_insert lookup_ofEntries_map mem_support ofEntries)
open LinearMutableMap (forEntries forEntries_iterStart get_eq insert_spec inv_constructor
  iterStart mem_storageEntries storageEntries)

section Edges

variable (graph : FiniteMap Reference (List Reference))

theorem card_filter_range_getElem? (succs : List Reference) (dest : Reference) :
    ((Finset.range succs.length).filter fun idx => succs[idx]? = some dest).card =
      succs.count dest := by
  induction succs using List.reverseRecOn with
  | nil => rfl
  | append_singleton succs last ih =>
    have earlier : ((Finset.range succs.length).filter fun idx =>
        (succs ++ [last])[idx]? = some dest) =
        (Finset.range succs.length).filter fun idx => succs[idx]? = some dest := by
      refine Finset.filter_congr fun idx inRange => ?_
      rw [List.getElem?_append_left (Finset.mem_range.mp inRange)]
    rw [List.length_append, List.length_singleton, Finset.range_add_one, Finset.filter_insert,
      earlier, List.getElem?_concat_length, List.count_append]
    by_cases same : last = dest
    · rw [if_pos (congrArg some same), Finset.card_insert_of_notMem (by simp), ih, same,
        List.count_singleton_self]
    · rw [if_neg (fun found => same (Option.some.inj found)), ih, List.count_singleton,
        if_neg (by simpa using same), Nat.add_zero]

/-- The edges from one reference to another. -/
def edgeCount (dest src : Reference) : Nat := ((graph.lookup src).getD []).count dest

theorem card_predecessorSet (dest : Reference) :
    (predecessorSet graph dest).card = ∑ src ∈ graph.support, edgeCount graph dest src := by
  rw [predecessorSet, Finset.card_sigma]
  exact Finset.sum_congr rfl fun src _ => card_filter_range_getElem? _ dest

theorem card_predecessorSet_split (dest ref : Reference) :
    (predecessorSet graph dest).card =
      edgeCount graph dest ref + ∑ src ∈ graph.support.erase ref, edgeCount graph dest src := by
  rw [card_predecessorSet]
  by_cases present : ref ∈ graph.support
  · rw [Finset.add_sum_erase _ _ present]
  · have none : graph.lookup ref = none := FiniteMap.notMem_support.mp present
    rw [Finset.erase_eq_of_notMem present, edgeCount, none]
    simp

theorem card_predecessorSet_insert (ref dest : Reference) (succs : List Reference) :
    (predecessorSet (graph.insert ref succs) dest).card + edgeCount graph dest ref =
      (predecessorSet graph dest).card + succs.count dest := by
  have others : ∑ src ∈ (graph.insert ref succs).support.erase ref,
      edgeCount (graph.insert ref succs) dest src =
      ∑ src ∈ graph.support.erase ref, edgeCount graph dest src := by
    rw [FiniteMap.insert, Finset.erase_insert_eq_erase]
    refine Finset.sum_congr rfl fun src member => ?_
    rw [edgeCount, edgeCount, ← FiniteMap.insert, lookup_insert,
      if_neg (Finset.ne_of_mem_erase member)]
  have here : edgeCount (graph.insert ref succs) dest ref = succs.count dest := by
    rw [edgeCount, lookup_insert, if_pos rfl, Option.getD_some]
  rw [card_predecessorSet_split _ dest ref, card_predecessorSet_split graph dest ref, others, here]
  omega

theorem card_predecessorSet_erase (ref dest : Reference) :
    (predecessorSet (graph.erase ref) dest).card + edgeCount graph dest ref =
      (predecessorSet graph dest).card := by
  have others : ∑ src ∈ (graph.erase ref).support, edgeCount (graph.erase ref) dest src =
      ∑ src ∈ graph.support.erase ref, edgeCount graph dest src := by
    rw [FiniteMap.erase]
    refine Finset.sum_congr rfl fun src member => ?_
    rw [edgeCount, edgeCount, ← FiniteMap.erase, FiniteMap.lookup_erase,
      if_neg (Finset.ne_of_mem_erase member)]
  rw [card_predecessorSet, card_predecessorSet_split graph dest ref, others, Nat.add_comm]

variable {graph}

theorem card_predecessorSet_eq_zero {dest : Reference} :
    (predecessorSet graph dest).card = 0 ↔
      ∀ src succs, graph.lookup src = some succs → dest ∉ succs := by
  rw [card_predecessorSet, Finset.sum_eq_zero_iff]
  constructor
  · intro zero src succs found
    have isZero := zero src (by rw [mem_support, found]; rfl)
    rw [edgeCount, found, Option.getD_some] at isZero
    exact List.count_eq_zero.mp isZero
  · intro unused src present
    obtain ⟨succs, found⟩ := FiniteMap.exists_lookup present
    rw [edgeCount, found, Option.getD_some]
    exact List.count_eq_zero.mpr (unused src succs found)

theorem card_predecessorSet_le
    (fanout : ∀ ref succs, graph.lookup ref = some succs → succs.length ≤ maxNumChildren)
    (dest : Reference) :
    (predecessorSet graph dest).card ≤ graph.support.card * maxNumChildren := by
  rw [card_predecessorSet]
  calc ∑ src ∈ graph.support, edgeCount graph dest src
      ≤ ∑ _src ∈ graph.support, maxNumChildren := by
        refine Finset.sum_le_sum fun src present => ?_
        obtain ⟨succs, found⟩ := FiniteMap.exists_lookup present
        rw [edgeCount, found, Option.getD_some]
        exact le_trans List.count_le_length (fanout src succs found)
    _ = graph.support.card * maxNumChildren := Finset.sum_const_nat fun _ _ => rfl

end Edges

/-- A tuple of the value of a table. -/
structure EntryVal where
  ref : Reference
  addr : UInt64
  len : UInt64
  succs : List Reference

namespace EntryVal

def loc (tuple : EntryVal) : Location := ⟨tuple.addr.toNat, tuple.len.toNat⟩

def entry (tuple : EntryVal) : Entry := ⟨some tuple.loc, tuple.succs, 0⟩

def binding (tuple : EntryVal) : Reference × Entry := (tuple.ref, tuple.entry)

end EntryVal

instance (loc : Location) : Decidable (ValidNodeLocation loc) :=
  inferInstanceAs (Decidable ((_ ∧ _) ∧ _))

/-- One round of the loop that reads the tuples. -/
def addTuple (mutMap : HashMap) (tuple : EntryVal) : Option HashMap := do
  let graphRef ← LinearMutableMap.get LinearMutableMap.hash64 mutMap tuple.ref
  if graphRef.isSome ∨ ¬ ValidNodeLocation tuple.loc ∨ maxNumChildren < tuple.succs.length then
    none
  else
    LinearMutableMap.insert LinearMutableMap.hash64 mutMap tuple.ref tuple.entry

def valToHashMap (a : List EntryVal) : Option HashMap :=
  a.foldlM addTuple (LinearMutableMap.constructor 1024)

/-- One round of the loop over the successors of a reference. -/
def countRef (t : HashMap) (ref : Reference) : Option HashMap := do
  let oldEntry ← LinearMutableMap.get LinearMutableMap.hash64 t ref
  let entry ← oldEntry
  LinearMutableMap.insert LinearMutableMap.hash64 t ref
    { entry with predCount := (entry.predCount + 1) % 2 ^ 64 }

/-- The counts of the edges to each reference. -/
def computeRefCounts (tbl : HashMap) : Option HashMap := do
  let oldEntry ← LinearMutableMap.get LinearMutableMap.hash64 tbl root
  let entry ← oldEntry
  let t1 ← LinearMutableMap.insert LinearMutableMap.hash64 tbl root { entry with predCount := 1 }
  forEntries tbl (fun t1 _ entry => entry.succs.foldlM countRef t1)
    (iterStart tbl) t1

/-- The references without a count. -/
def makeGarbageQueue (t : HashMap) : Option USeq :=
  forEntries t (fun q ref entry => if entry.predCount = 0 then q.add ref else some q)
    (iterStart t) USeq.alloc

def computeRefUpperBound (t : HashMap) : UInt64 :=
  Id.run (forEntries t
    (fun refUpperBound ref _ => pure (if refUpperBound < ref then ref else refUpperBound))
    (iterStart t) 0)

/-- The table that a parsed value stands for. -/
def valToIndirectionTable (a : List EntryVal) : Option IndirectionTable := do
  guard (a.length ≤ maxSize)
  let t ← valToHashMap a
  let rootRef ← LinearMutableMap.get LinearMutableMap.hash64 t root
  guard rootRef.isSome
  let t1 ← computeRefCounts t
  let garbageQueue ← makeGarbageQueue t1
  return ⟨t1, some garbageQueue, computeRefUpperBound t1, none,
    Locs t1, Graph t1, PredCounts t1⟩

section Reading

abbrev MapInv (t : HashMap) : Prop := LinearMutableMap.Inv LinearMutableMap.hash64 t

/-- The tuples that can be added to a map. -/
structure Accepted (t : HashMap) (a : List EntryVal) : Prop where
  distinct : (a.map EntryVal.ref).Nodup
  fresh : ∀ tuple ∈ a, tuple.ref ∉ t.contents.support
  valid : ∀ tuple ∈ a, ValidNodeLocation tuple.loc
  fanout : ∀ tuple ∈ a, tuple.succs.length ≤ maxNumChildren

variable {t t' : HashMap}

theorem count_insert_le (inv : MapInv t) (inv' : MapInv t') {ref : Reference} {entry : Entry}
    (contents : t'.contents = t.contents.insert ref entry) : t'.count ≤ t.count + 1 := by
  rw [← inv'.card, ← inv.card, contents]
  exact Finset.card_insert_le ref t.contents.support

theorem accepted_cons {tuple : EntryVal} {a : List EntryVal}
    (contents : t'.contents = t.contents.insert tuple.ref tuple.entry) :
    Accepted t (tuple :: a) ↔ (tuple.ref ∉ t.contents.support ∧ ValidNodeLocation tuple.loc ∧
      tuple.succs.length ≤ maxNumChildren) ∧ Accepted t' a := by
  have support : t'.contents.support = insert tuple.ref t.contents.support := by
    rw [contents]
    rfl
  constructor
  · rintro ⟨distinct, fresh, valid, fanout⟩
    rw [List.map_cons, List.nodup_cons] at distinct
    rw [List.forall_mem_cons] at fresh valid fanout
    refine ⟨⟨fresh.1, valid.1, fanout.1⟩, distinct.2, ?_, valid.2, fanout.2⟩
    intro other member
    rw [support, Finset.mem_insert, not_or]
    exact ⟨fun same => distinct.1 (same ▸ List.mem_map_of_mem member), fresh.2 other member⟩
  · rintro ⟨⟨freshHere, validHere, fanoutHere⟩, distinct, fresh, valid, fanout⟩
    rw [support] at fresh
    refine ⟨?_, ?_, ?_, ?_⟩
    · rw [List.map_cons, List.nodup_cons]
      refine ⟨fun repeated => ?_, distinct⟩
      obtain ⟨other, member, same⟩ := List.mem_map.mp repeated
      exact fresh other member (same ▸ Finset.mem_insert_self _ _)
    · rw [List.forall_mem_cons]
      exact ⟨freshHere, fun other member present =>
        fresh other member (Finset.mem_insert_of_mem present)⟩
    · exact List.forall_mem_cons.mpr ⟨validHere, valid⟩
    · exact List.forall_mem_cons.mpr ⟨fanoutHere, fanout⟩

theorem addTuple_eq (inv : MapInv t) (tuple : EntryVal) : addTuple t tuple =
    if tuple.ref ∈ t.contents.support ∨ ¬ ValidNodeLocation tuple.loc ∨
      maxNumChildren < tuple.succs.length then none
    else LinearMutableMap.insert LinearMutableMap.hash64 t tuple.ref tuple.entry := by
  rw [addTuple, get_eq inv, Option.bind_eq_bind, Option.bind_some]
  simp only [t.contents.mem_support tuple.ref]

/-- The loop adds the entries of acceptable tuples, and fails on others. -/
theorem foldlM_addTuple (a : List EntryVal) (inv : MapInv t)
    (room : t.count + a.length < 2 ^ 64 / 8) :
    (Accepted t a ∧ ∃ t', a.foldlM addTuple t = some t' ∧ MapInv t' ∧
      ∀ ref, t'.contents.lookup ref =
        ((ofEntries (a.map EntryVal.binding)).lookup ref).or (t.contents.lookup ref)) ∨
    (¬ Accepted t a ∧ a.foldlM addTuple t = none) := by
  induction a generalizing t with
  | nil => exact Or.inl ⟨⟨List.nodup_nil, nofun, nofun, nofun⟩, t, rfl, inv, fun ref => rfl⟩
  | cons tuple a ih =>
    rw [List.length_cons] at room
    obtain ⟨t', isInsert, inv', contents⟩ := insert_spec inv (by omega) tuple.ref tuple.entry
    have count := count_insert_le inv inv' contents
    rw [accepted_cons contents, List.foldlM_cons, addTuple_eq inv]
    by_cases refused : tuple.ref ∈ t.contents.support ∨ ¬ ValidNodeLocation tuple.loc ∨
        maxNumChildren < tuple.succs.length
    · refine Or.inr ⟨fun accepted => ?_, ?_⟩
      · obtain ⟨⟨fresh, valid, fanout⟩, _⟩ := accepted
        rcases refused with inMap | invalid | tooMany
        · exact fresh inMap
        · exact invalid valid
        · exact absurd tooMany (not_lt.mpr fanout)
      · rw [if_pos refused]
        rfl
    · rw [if_neg refused, isInsert, Option.bind_eq_bind, Option.bind_some]
      have acceptable : tuple.ref ∉ t.contents.support ∧ ValidNodeLocation tuple.loc ∧
          tuple.succs.length ≤ maxNumChildren := by
        simpa only [not_or, not_not, not_lt] using refused
      rcases ih inv' (by omega) with ⟨accepted, t'', isFold, inv'', lookup⟩ | ⟨failed, isFold⟩
      · refine Or.inl ⟨⟨acceptable, accepted⟩, t'', isFold, inv'', fun ref => ?_⟩
        rw [lookup, contents, lookup_insert, List.map_cons, EntryVal.binding,
          FiniteMap.lookup_ofEntries_cons]
        cases (ofEntries (a.map EntryVal.binding)).lookup ref with
        | some entry => rfl
        | none => by_cases same : ref = tuple.ref <;> simp [same]
      · exact Or.inr ⟨fun accepted => failed accepted.2, isFold⟩

end Reading

section Counting

/-- An entry with more edges counted. -/
def addCount (n : Nat) (entry : Entry) : Entry := { entry with predCount := entry.predCount + n }

theorem foldlM_countRef (refs : List Reference) {t : HashMap} (inv : MapInv t)
    (small : t.count < 2 ^ 64 / 8)
    (bound : ∀ ref entry, t.contents.lookup ref = some entry →
      entry.predCount + refs.length < 2 ^ 64) :
    ((∀ ref ∈ refs, ref ∈ t.contents.support) ∧
      ∃ t', refs.foldlM countRef t = some t' ∧ MapInv t' ∧
        ∀ ref, t'.contents.lookup ref =
          (t.contents.lookup ref).map (addCount (refs.count ref))) ∨
    ((∃ ref ∈ refs, ref ∉ t.contents.support) ∧ refs.foldlM countRef t = none) := by
  induction refs generalizing t with
  | nil =>
    refine Or.inl ⟨nofun, t, rfl, inv, fun ref => ?_⟩
    cases t.contents.lookup ref <;> rfl
  | cons ref refs ih =>
    rw [List.foldlM_cons, countRef, get_eq inv]
    cases found : t.contents.lookup ref with
    | none =>
      refine Or.inr ⟨⟨ref, List.mem_cons_self, ?_⟩, rfl⟩
      rw [mem_support, found]
      simp
    | some entry =>
      have fits := bound ref entry found
      rw [List.length_cons] at fits bound
      have present : ref ∈ t.contents.support := FiniteMap.mem_support_of_lookup found
      obtain ⟨t', isInsert, inv', contents⟩ := insert_spec inv small ref
        { entry with predCount := (entry.predCount + 1) % 2 ^ 64 }
      rw [Nat.mod_eq_of_lt (by omega)] at contents
      have support : t'.contents.support = t.contents.support := by
        rw [contents]
        exact Finset.insert_eq_of_mem present
      have count : t'.count = t.count := by rw [← inv'.card, ← inv.card, support]
      have bound' : ∀ ref' entry', t'.contents.lookup ref' = some entry' →
          entry'.predCount + refs.length < 2 ^ 64 := by
        intro ref' entry' found'
        rw [contents, FiniteMap.lookup_insert_eq_some] at found'
        obtain ⟨-, rfl⟩ | ⟨-, found'⟩ := found'
        · dsimp only
          omega
        · have := bound ref' entry' found'
          omega
      simp only [Option.bind_eq_bind, Option.bind_some, isInsert, List.forall_mem_cons,
        List.exists_mem_cons_iff]
      rcases ih inv' (by omega) bound' with ⟨allPresent, t'', isFold, inv'', lookup⟩ |
        ⟨absent, isFold⟩
      · rw [support] at allPresent
        refine Or.inl ⟨⟨present, allPresent⟩, t'', isFold, inv'', fun ref' => ?_⟩
        rw [lookup, contents, lookup_insert, List.count_cons]
        by_cases same : ref' = ref
        · simp only [same, found, addCount, if_true, BEq.rfl, Option.map_some]
          rw [Nat.add_assoc, Nat.add_comm 1]
        · rw [if_neg same, if_neg (by simpa using Ne.symm same), Nat.add_zero]
      · rw [support] at absent
        exact Or.inr ⟨Or.inr absent, isFold⟩

theorem foldlM_flatMap_countRef (entries : List (Reference × Entry)) (t : HashMap) :
    entries.foldlM (fun t1 entry => entry.2.succs.foldlM countRef t1) t =
      (entries.flatMap fun entry => entry.2.succs).foldlM countRef t := by
  induction entries generalizing t with
  | nil => rfl
  | cons entry entries ih =>
    rw [List.foldlM_cons, List.flatMap_cons, List.foldlM_append]
    exact congrArg (entry.2.succs.foldlM countRef t >>= ·) (funext ih)

variable {tbl : HashMap}

theorem lookup_graph (tbl : HashMap) (ref : Reference) :
    (Graph tbl).lookup ref = (tbl.contents.lookup ref).map Entry.succs := by
  rw [Graph, lookup_filterMap]
  cases tbl.contents.lookup ref <;> rfl

theorem support_graph (tbl : HashMap) : (Graph tbl).support = tbl.contents.support := by
  ext ref
  rw [mem_support, mem_support, lookup_graph, Option.isSome_map]

theorem keys_storageEntries (inv : MapInv tbl) :
    ((storageEntries tbl.underlying.storage).map Prod.fst).toFinset = (Graph tbl).support := by
  ext ref
  rw [support_graph, List.mem_toFinset, List.mem_map, mem_support, Option.isSome_iff_exists]
  constructor
  · rintro ⟨⟨_, entry⟩, member, rfl⟩
    exact ⟨entry, (mem_storageEntries inv).mp member⟩
  · rintro ⟨entry, found⟩
    exact ⟨(ref, entry), (mem_storageEntries inv).mpr found, rfl⟩

/-- The successors of all entries contain a reference as often as there are edges
to it. -/
theorem count_successors (inv : MapInv tbl) (dest : Reference) :
    ((storageEntries tbl.underlying.storage).flatMap
      fun entry => entry.2.succs).count dest = (predecessorSet (Graph tbl) dest).card := by
  have distinct := LinearMutableMap.nodup_storageEntries inv.underlying.keys.cantEquivocate
  rw [card_predecessorSet, ← keys_storageEntries inv, List.sum_toFinset _ distinct, List.map_map,
    List.count_flatMap]
  refine congrArg List.sum (List.map_congr_left ?_)
  rintro ⟨_, entry⟩ member
  have found := (mem_storageEntries inv).mp member
  rw [Function.comp_apply, Function.comp_apply, edgeCount, lookup_graph, found]
  rfl

theorem length_successors_le (inv : MapInv tbl)
    (fanout : ∀ ref entry, tbl.contents.lookup ref = some entry →
      entry.succs.length ≤ maxNumChildren) :
    ((storageEntries tbl.underlying.storage).flatMap
      fun entry => entry.2.succs).length ≤ tbl.count * maxNumChildren := by
  have each : ∀ count ∈ (storageEntries tbl.underlying.storage).map
      (fun entry => entry.2.succs.length), count ≤ maxNumChildren := by
    intro count member
    obtain ⟨⟨ref, entry⟩, isEntry, rfl⟩ := List.mem_map.mp member
    exact fanout ref entry ((mem_storageEntries inv).mp isEntry)
  rw [List.length_flatMap]
  calc _ ≤ _ := List.sum_le_card_nsmul _ _ each
    _ ≤ tbl.count * maxNumChildren := by
      rw [List.length_map, nsmul_eq_mul, Nat.cast_id]
      exact Nat.mul_le_mul_right _ (LinearMutableMap.length_storageEntries_le inv)

theorem graphClosed_iff (inv : MapInv tbl) : BlockCache.GraphClosed (Graph tbl) ↔
    ∀ succ ∈ (storageEntries tbl.underlying.storage).flatMap
      (fun entry => entry.2.succs), succ ∈ tbl.contents.support := by
  simp only [BlockCache.GraphClosed, support_graph, lookup_graph, Option.map_eq_some_iff,
    List.mem_flatMap]
  constructor
  · rintro closed succ ⟨⟨ref, entry⟩, member, isSucc⟩
    have found := (mem_storageEntries inv).mp member
    exact closed ref entry.succs ⟨entry, found, rfl⟩ succ isSucc
  · rintro closed ref _ ⟨entry, found, rfl⟩ succ isSucc
    have member := (mem_storageEntries inv).mpr found
    exact closed succ ⟨(ref, entry), member, isSucc⟩

/-- An entry with the right count. -/
def withCount (graph : FiniteMap Reference (List Reference)) (ref : Reference) (entry : Entry) :
    Entry :=
  { entry with predCount := (predecessorSet graph ref).card + isRoot ref }

theorem computeRefCounts_spec (inv : MapInv tbl) (size : tbl.count ≤ maxSize)
    (uncounted : ∀ ref entry, tbl.contents.lookup ref = some entry → entry.predCount = 0)
    (fanout : ∀ ref entry, tbl.contents.lookup ref = some entry →
      entry.succs.length ≤ maxNumChildren)
    (rootPresent : root ∈ tbl.contents.support) :
    (BlockCache.GraphClosed (Graph tbl) ∧ ∃ t1, computeRefCounts tbl = some t1 ∧ MapInv t1 ∧
      ∀ ref, t1.contents.lookup ref =
        (tbl.contents.lookup ref).map (withCount (Graph tbl) ref)) ∨
    (¬ BlockCache.GraphClosed (Graph tbl) ∧ computeRefCounts tbl = none) := by
  rw [maxSize] at size
  obtain ⟨rootEntry, isRootEntry⟩ := FiniteMap.exists_lookup rootPresent
  obtain ⟨t, isInsert, inv', contents⟩ := insert_spec inv (by omega) root
    { rootEntry with predCount := 1 }
  have support : t.contents.support = tbl.contents.support := by
    rw [contents]
    exact Finset.insert_eq_of_mem rootPresent
  have count : t.count = tbl.count := by rw [← inv'.card, ← inv.card, support]
  have initial : ∀ ref, t.contents.lookup ref = (tbl.contents.lookup ref).map
      fun entry => { entry with predCount := isRoot ref } := by
    intro ref
    rw [contents, lookup_insert]
    by_cases same : ref = root
    · rw [if_pos same, same, isRootEntry, Option.map_some, isRoot, if_pos rfl]
    · rw [if_neg same]
      cases found : tbl.contents.lookup ref with
      | none => rfl
      | some entry => rw [Option.map_some, isRoot, if_neg same, ← uncounted ref entry found]
  have total := length_successors_le inv fanout
  rw [maxNumChildren] at total
  have bound : ∀ ref entry, t.contents.lookup ref = some entry → entry.predCount +
      ((storageEntries tbl.underlying.storage).flatMap
        fun entry => entry.2.succs).length < 2 ^ 64 := by
    intro ref entry found
    rw [initial, Option.map_eq_some_iff] at found
    obtain ⟨_, _, rfl⟩ := found
    have : isRoot ref ≤ 1 := by
      rw [isRoot]
      split <;> omega
    dsimp only
    omega
  have isLoop : computeRefCounts tbl =
      ((storageEntries tbl.underlying.storage).flatMap
        fun entry => entry.2.succs).foldlM countRef t := by
    rw [computeRefCounts, get_eq inv, isRootEntry]
    simp only [Option.bind_eq_bind, Option.bind_some, isInsert]
    rw [forEntries_iterStart, foldlM_flatMap_countRef]
  rw [isLoop, graphClosed_iff inv]
  rcases foldlM_countRef _ inv' (by omega) bound with ⟨closed, t1, isFold, inv1, lookup⟩ |
    ⟨⟨succ, isSucc, absent⟩, isFold⟩
  · rw [support] at closed
    refine Or.inl ⟨closed, t1, isFold, inv1, fun ref => ?_⟩
    rw [lookup, initial, Option.map_map, count_successors inv]
    refine congrArg (fun f => (tbl.contents.lookup ref).map f) (funext fun entry => ?_)
    rw [Function.comp_apply, addCount, withCount, Nat.add_comm]
  · rw [support] at absent
    exact Or.inr ⟨fun closed => absent (closed succ isSucc), isFold⟩

theorem queue_small {queue : USeq} (inv : MapInv tbl) (size : tbl.count ≤ maxSize)
    (queueInv : queue.Inv) (subset : ∀ ref ∈ queue.I, ref ∈ tbl.contents.support) :
    queue.I.length < 2 ^ 64 / 8 := by
  have bound := queueInv.length_le subset
  rw [inv.card] at bound
  rw [maxSize] at size
  omega

theorem foldlM_add (inv : MapInv tbl) (size : tbl.count ≤ maxSize)
    (entries : List (Reference × Entry))
    (present : ∀ entry ∈ entries, entry.1 ∈ tbl.contents.support)
    {q : USeq} (queueInv : q.Inv) (subset : ∀ ref ∈ q.I, ref ∈ tbl.contents.support) :
    ∃ q', entries.foldlM
        (fun q entry => if entry.2.predCount = 0 then q.add entry.1 else some q) q = some q' ∧
      q'.Inv ∧ ∀ ref, ref ∈ q'.I ↔
        ref ∈ q.I ∨ ∃ entry, (ref, entry) ∈ entries ∧ entry.predCount = 0 := by
  induction entries generalizing q with
  | nil => exact ⟨q, rfl, queueInv, fun ref => by simp⟩
  | cons entry entries ih =>
    obtain ⟨key, entry⟩ := entry
    rw [List.forall_mem_cons] at present
    have step : ∃ q₁, (if entry.predCount = 0 then q.add key else some q) = some q₁ ∧ q₁.Inv ∧
        ∀ ref, ref ∈ q₁.I ↔ ref ∈ q.I ∨ ref = key ∧ entry.predCount = 0 := by
      split_ifs with unused
      · obtain ⟨q₁, isAdd, inv₁, isSeq⟩ := queueInv.add (queue_small inv size queueInv subset) key
        exact ⟨q₁, isAdd, inv₁, fun ref => by rw [isSeq, USeq.mem_addNew, and_iff_left unused]⟩
      · exact ⟨q, rfl, queueInv, fun ref => by simp [unused]⟩
    obtain ⟨q₁, isStep, inv₁, members₁⟩ := step
    have subset₁ : ∀ ref ∈ q₁.I, ref ∈ tbl.contents.support := by
      intro ref member
      rcases (members₁ ref).mp member with member | ⟨rfl, -⟩
      · exact subset ref member
      · exact present.1
    obtain ⟨q', isFold, inv', members'⟩ := ih present.2 inv₁ subset₁
    refine ⟨q', by rw [List.foldlM_cons, isStep]; exact isFold, inv', fun ref => ?_⟩
    grind

theorem makeGarbageQueue_spec (inv : MapInv tbl) (size : tbl.count ≤ maxSize) :
    ∃ q, makeGarbageQueue tbl = some q ∧ HoldsGarbage tbl q := by
  obtain ⟨allocInv, isEmpty⟩ := USeq.alloc_spec
  have present : ∀ entry ∈ storageEntries tbl.underlying.storage,
      entry.1 ∈ tbl.contents.support := fun _ member =>
    FiniteMap.mem_support_of_lookup ((mem_storageEntries inv).mp member)
  obtain ⟨q, isFold, queueInv, members⟩ :=
    foldlM_add inv size _ present allocInv (by simp [isEmpty])
  refine ⟨q, by rw [makeGarbageQueue, forEntries_iterStart, isFold], queueInv, fun ref => ?_⟩
  simp only [members, isEmpty, List.not_mem_nil, false_or, mem_storageEntries inv]

theorem le_computeRefUpperBound (inv : MapInv tbl) {ref : Reference}
    (present : ref ∈ tbl.contents.support) : ref ≤ computeRefUpperBound tbl := by
  have loop : ∀ (entries : List (Reference × Entry)) (bound : UInt64),
      bound ≤ entries.foldl (fun bound entry => if bound < entry.1 then entry.1 else bound) bound ∧
      ∀ entry ∈ entries, entry.1 ≤
        entries.foldl (fun bound entry => if bound < entry.1 then entry.1 else bound) bound := by
    intro entries
    induction entries with
    | nil => exact fun bound => ⟨UInt64.le_refl _, nofun⟩
    | cons entry entries ih =>
      intro bound
      obtain ⟨lower, upper⟩ := ih (if bound < entry.1 then entry.1 else bound)
      rw [List.foldl_cons, List.forall_mem_cons]
      refine ⟨UInt64.le_trans ?_ lower, UInt64.le_trans ?_ lower, upper⟩
      · split
        · exact UInt64.le_of_lt (by assumption)
        · exact UInt64.le_refl _
      · split
        · exact UInt64.le_refl _
        · exact UInt64.not_lt.mp (by assumption)
  obtain ⟨entry, found⟩ := FiniteMap.exists_lookup present
  rw [computeRefUpperBound, forEntries_iterStart, List.idRun_foldlM]
  exact (loop _ 0).2 (ref, entry) ((mem_storageEntries inv).mpr found)

end Counting

section Parsing

/-- The graph that the tuples describe. -/
def graphOf (a : List EntryVal) : FiniteMap Reference (List Reference) :=
  FiniteMap.ofEntries (a.map fun tuple => (tuple.ref, tuple.succs))

def locsOf (a : List EntryVal) : FiniteMap Reference Location :=
  FiniteMap.ofEntries (a.map fun tuple => (tuple.ref, tuple.loc))

/-- The values that describe a table. -/
structure Parsable (a : List EntryVal) : Prop where
  size : a.length ≤ maxSize
  distinct : (a.map EntryVal.ref).Nodup
  valid : ∀ tuple ∈ a, ValidNodeLocation tuple.loc
  fanout : ∀ tuple ∈ a, tuple.succs.length ≤ maxNumChildren
  root : root ∈ (graphOf a).support
  closed : BlockCache.GraphClosed (graphOf a)

variable {a : List EntryVal} {t : HashMap} {tbl t1 : HashMap}

section

variable (contents : t.contents = ofEntries (a.map EntryVal.binding))

include contents

theorem graph_of_contents : Graph t = graphOf a := by
  have isMap : (a.map EntryVal.binding).map (fun entry => (entry.1, entry.2.succs)) =
      a.map fun tuple => (tuple.ref, tuple.succs) := List.map_map ..
  ext1 ref
  rw [lookup_graph, contents, ← lookup_ofEntries_map, isMap, graphOf]

theorem locs_of_contents : Locs t = locsOf a := by
  have isMap : (a.map EntryVal.binding).map (fun entry => (entry.1, entry.2.loc)) =
      (a.map fun tuple => (tuple.ref, tuple.loc)).map fun entry => (entry.1, some entry.2) := by
    rw [List.map_map, List.map_map]
    rfl
  ext1 ref
  have mapped := lookup_ofEntries_map Entry.loc (a.map EntryVal.binding) ref
  rw [isMap, lookup_ofEntries_map some] at mapped
  rw [Locs, lookup_filterMap, contents, locsOf]
  cases found : (ofEntries (a.map EntryVal.binding)).lookup ref with
  | none =>
    rw [found, Option.map_none, Option.map_eq_none_iff] at mapped
    rw [mapped]
    rfl
  | some entry =>
    rw [found, Option.map_some, Option.map_eq_some_iff] at mapped
    obtain ⟨_, isLoc, isEntry⟩ := mapped
    rw [isLoc, Option.bind_some, isEntry]

theorem tuple_of_contents {ref : Reference}
    {entry : Entry} (found : t.contents.lookup ref = some entry) :
    ∃ tuple ∈ a, tuple.ref = ref ∧ tuple.entry = entry := by
  rw [contents] at found
  obtain ⟨tuple, member, isBinding⟩ := List.mem_map.mp (FiniteMap.mem_of_lookup_ofEntries found)
  rw [EntryVal.binding, Prod.mk.injEq] at isBinding
  exact ⟨tuple, member, isBinding.1, isBinding.2⟩

end

theorem count_le_of_contents (inv : MapInv t)
    (contents : t.contents = ofEntries (a.map EntryVal.binding)) : t.count ≤ a.length := by
  calc t.count = t.contents.support.card := inv.card.symm
    _ ≤ (a.map EntryVal.ref).toFinset.card := by
        refine Finset.card_le_card fun ref present => ?_
        obtain ⟨_, found⟩ := FiniteMap.exists_lookup present
        obtain ⟨_, member, isRef, -⟩ := tuple_of_contents contents found
        exact List.mem_toFinset.mpr (isRef ▸ List.mem_map_of_mem member)
    _ ≤ (a.map EntryVal.ref).length := List.toFinset_card_le _
    _ = a.length := List.length_map _

section

variable (lookup : ∀ ref, t1.contents.lookup ref =
  (tbl.contents.lookup ref).map (withCount (Graph tbl) ref))

include lookup

theorem graph_withCount : Graph t1 = Graph tbl := by
  ext1 ref
  rw [lookup_graph, lookup_graph, lookup, Option.map_map]
  rfl

theorem locs_withCount : Locs t1 = Locs tbl := by
  ext1 ref
  rw [Locs, Locs, lookup_filterMap, lookup_filterMap, lookup]
  cases tbl.contents.lookup ref <;> rfl

end

/-- A map with the right counts, its garbage queue and its upper bound make a
table. -/
theorem inv_of_withCount (inv : MapInv tbl) (inv1 : MapInv t1)
    (lookup : ∀ ref, t1.contents.lookup ref =
      (tbl.contents.lookup ref).map (withCount (Graph tbl) ref)) (size : tbl.count ≤ maxSize)
    (fanout : ∀ ref entry, tbl.contents.lookup ref = some entry →
      entry.succs.length ≤ maxNumChildren) (closed : BlockCache.GraphClosed (Graph tbl))
    (rootPresent : root ∈ tbl.contents.support) :
    ∃ queue, makeGarbageQueue t1 = some queue ∧ Inv ⟨t1, some queue, computeRefUpperBound t1, none,
      Locs t1, Graph t1, PredCounts t1⟩ := by
  have graph := graph_withCount lookup
  have support : t1.contents.support = tbl.contents.support := by
    rw [← support_graph, graph, support_graph]
  have size1 : t1.count ≤ maxSize := by
    rw [← inv1.card, support, inv.card]
    exact size
  obtain ⟨queue, isQueue, garbage⟩ := makeGarbageQueue_spec inv1 size1
  refine ⟨queue, isQueue, ?_⟩
  refine ⟨inv1, rfl, rfl, rfl, ?_, ?_, ?_, ?_, ?_, ?_, ?_, nofun⟩
  · intro ref count found
    rw [PredCounts, lookup_filterMap, lookup] at found
    obtain ⟨entry, isEntry, isCount⟩ := Option.bind_eq_some_iff.mp found
    obtain ⟨_, _, rfl⟩ := Option.map_eq_some_iff.mp isEntry
    rw [graph]
    exact (Option.some.inj isCount).symm
  · exact graph.symm ▸ closed
  · intro ref succs found
    rw [graph, lookup_graph, Option.map_eq_some_iff] at found
    obtain ⟨entry, isEntry, rfl⟩ := found
    exact fanout ref entry isEntry
  · rintro _ ⟨⟩
    exact garbage
  · exact support.symm ▸ rootPresent
  · exact size1
  · intro ref present
    rw [support_graph] at present
    exact le_computeRefUpperBound inv1 present

/-- Reading succeeds exactly on the values that describe a closed graph with the
root, and gives that graph. -/
theorem valToIndirectionTable_spec (a : List EntryVal) :
    (Parsable a ∧ ∃ table, valToIndirectionTable a = some table ∧ Inv table ∧
      table.garbageQueue.isSome ∧ table.graph = graphOf a ∧ table.locs = locsOf a) ∨
    (¬ Parsable a ∧ valToIndirectionTable a = none) := by
  rw [valToIndirectionTable]
  by_cases size : a.length ≤ maxSize
  swap
  · refine Or.inr ⟨fun parsable => size parsable.size, ?_⟩
    simp [guard, size]
  have initial : MapInv (LinearMutableMap.constructor 1024) := inv_constructor (by omega) (by omega)
  have room : (LinearMutableMap.constructor 1024 : HashMap).count + a.length < 2 ^ 64 / 8 := by
    have : (LinearMutableMap.constructor 1024 : HashMap).count = 0 := rfl
    rw [maxSize] at size
    omega
  simp only [guard, size, if_true, Option.pure_def, Option.bind_eq_bind, Option.bind_some,
    valToHashMap]
  rcases foldlM_addTuple a initial room with ⟨accepted, t, isFold, inv, lookup⟩ | ⟨refused, isFold⟩
  swap
  · refine Or.inr ⟨fun parsable => refused { parsable with fresh := ?_ }, ?_⟩
    · exact fun tuple _ => Finset.notMem_empty tuple.ref
    · rw [isFold, Option.bind_none]
  have contents : t.contents = ofEntries (a.map EntryVal.binding) := by
    ext1 ref
    rw [lookup]
    exact Option.or_none
  have graph := graph_of_contents contents
  rw [isFold, Option.bind_some, get_eq inv, Option.bind_some]
  by_cases rootPresent : root ∈ t.contents.support
  swap
  · refine Or.inr ⟨fun parsable => rootPresent ?_, ?_⟩
    · rw [← support_graph, graph]
      exact parsable.root
    · rw [if_neg ((t.contents.mem_support root).not.mp rootPresent)]
      rfl
  rw [if_pos ((t.contents.mem_support root).mp rootPresent), Option.bind_some]
  have count := le_trans (count_le_of_contents inv contents) size
  have uncounted : ∀ ref entry, t.contents.lookup ref = some entry → entry.predCount = 0 := by
    intro ref entry found
    obtain ⟨tuple, _, -, rfl⟩ := tuple_of_contents contents found
    rfl
  have fanout : ∀ ref entry, t.contents.lookup ref = some entry →
      entry.succs.length ≤ maxNumChildren := by
    intro ref entry found
    obtain ⟨tuple, member, -, rfl⟩ := tuple_of_contents contents found
    exact accepted.fanout tuple member
  rcases computeRefCounts_spec inv count uncounted fanout rootPresent with
    ⟨closed, _, isCounts, inv1, counted⟩ | ⟨notClosed, isCounts⟩
  · obtain ⟨_, isQueue, inv'⟩ := inv_of_withCount inv inv1 counted count fanout closed rootPresent
    refine Or.inl ⟨{ accepted with size := size, root := ?_, closed := graph ▸ closed },
      _, by rw [isCounts, Option.bind_some, isQueue, Option.bind_some], inv', rfl,
      (graph_withCount counted).trans graph,
      (locs_withCount counted).trans (locs_of_contents contents)⟩
    rw [← graph, support_graph]
    exact rootPresent
  · refine Or.inr ⟨fun parsable => notClosed (graph.symm ▸ parsable.closed), ?_⟩
    rw [isCounts, Option.bind_none]

end Parsing

end VerifiedBetrfs.IndirectionTable
