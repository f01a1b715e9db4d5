import Mathlib.Data.Finset.Max
import Mathlib.Data.Set.Insert

/-!
# Partial and finite maps

A finite map is a partial map together with the finite set of keys on which it is defined.
-/

namespace VerifiedBetrfs

universe u v w

/-- A partial map from keys to values. -/
abbrev IMap (K : Type u) (V : Type v) := K → Option V

namespace IMap

variable {K : Type u} {V : Type v}

/-- The domain of a partial map. -/
def keys (m : IMap K V) : Set K := { key | ∃ value, m key = some value }

/-- The range of a partial map. -/
def values (m : IMap K V) : Set V := { value | ∃ key, m key = some value }

/-- The map with no keys. -/
def empty : IMap K V := fun _ => none

/-- The map defined on every key. -/
def const (value : V) : IMap K V := fun _ => some value

/-- Read a key that is known to be present. -/
def at' [Inhabited V] (m : IMap K V) (key : K) : V := (m key).getD default

/-- Bind one key to a value. -/
def update [DecidableEq K] (m : IMap K V) (key : K) (value : V) : IMap K V :=
  Function.update m key (some value)

/-- Remove one key. -/
def remove1 [DecidableEq K] (m : IMap K V) (key : K) : IMap K V :=
  Function.update m key none

/-- Remove every key of a set. -/
noncomputable def remove (m : IMap K V) (removed : Set K) : IMap K V :=
  fun key => open Classical in if key ∈ removed then none else m key

/-- Keep only the keys of a set. -/
noncomputable def restrict (m : IMap K V) (kept : Set K) : IMap K V :=
  fun key => open Classical in if key ∈ kept then m key else none

/-- Two maps either both miss a key or bind it to the same value. -/
def AgreeOnKey (m m' : IMap K V) (key : K) : Prop := m key = m' key

variable {m : IMap K V} {key : K} {value : V}

theorem mem_keys : key ∈ m.keys ↔ ∃ value, m key = some value :=
  Iff.rfl

theorem mem_values : value ∈ m.values ↔ ∃ key, m key = some value :=
  Iff.rfl

theorem notMem_keys : key ∉ m.keys ↔ m key = none := by
  simp [keys, Option.eq_none_iff_forall_ne_some]

@[simp]
theorem keys_empty : (empty : IMap K V).keys = ∅ := by
  simp [keys, empty]

@[simp]
theorem at'_of_eq_some [Inhabited V] (bound : m key = some value) : m.at' key = value := by
  simp [at', bound]

@[simp]
theorem update_same [DecidableEq K] (m : IMap K V) (key : K) (value : V) :
    m.update key value key = some value := by
  simp [update]

theorem update_of_ne [DecidableEq K] (m : IMap K V) {other : K} (value : V)
    (distinct : other ≠ key) : m.update key value other = m other := by
  simp [update, distinct]

theorem update_eq_ite [DecidableEq K] (m : IMap K V) (key other : K)
    (value : V) :
    m.update key value other = if other = key then some value else m other := by
  simp [update, Function.update_apply]

theorem remove1_eq_ite [DecidableEq K] (m : IMap K V) (key other : K) :
    m.remove1 key other = if other = key then none else m other := by
  simp [remove1, Function.update_apply]

theorem keys_update [DecidableEq K] (m : IMap K V) (key : K) (value : V) :
    (m.update key value).keys = insert key m.keys := by
  ext other
  by_cases same : other = key
  · subst same
    simp [mem_keys]
  · simp [mem_keys, update_of_ne m value same, same]

theorem restrict_eq_some {kept : Set K} :
    m.restrict kept key = some value ↔ key ∈ kept ∧ m key = some value := by
  by_cases inside : key ∈ kept <;> simp [restrict, inside]

end IMap

/-- A partial map with the finite set of its keys. -/
structure FiniteMap (K : Type u) (V : Type v) where
  lookup : IMap K V
  support : Finset K
  mem_support : ∀ key, key ∈ support ↔ (lookup key).isSome

namespace FiniteMap

variable {K : Type u} {V : Type v} {m : FiniteMap K V} {key : K}

@[ext]
theorem ext {m' : FiniteMap K V} (same : ∀ key, m.lookup key = m'.lookup key) : m = m' := by
  obtain ⟨lookup, support, inSupport⟩ := m
  obtain ⟨lookup', support', inSupport'⟩ := m'
  obtain rfl : lookup = lookup' := funext same
  obtain rfl : support = support' := by
    ext key
    rw [inSupport, inSupport']
  rfl

theorem mem_support_of_lookup {value : V} (found : m.lookup key = some value) :
    key ∈ m.support := by
  rw [mem_support, found]
  rfl

theorem exists_lookup (present : key ∈ m.support) : ∃ value, m.lookup key = some value :=
  Option.isSome_iff_exists.mp ((m.mem_support key).mp present)

theorem notMem_support : key ∉ m.support ↔ m.lookup key = none := by
  rw [mem_support, Option.not_isSome_iff_eq_none]

/-- The map with no keys. -/
def empty : FiniteMap K V := ⟨fun _ => none, ∅, by simp⟩

@[simp]
theorem lookup_empty (key : K) : (empty : FiniteMap K V).lookup key = none := rfl

@[simp]
theorem support_empty : (empty : FiniteMap K V).support = ∅ := rfl

section Operations

variable [DecidableEq K]

/-- The map that a rule gives on a finite set of keys. -/
def ofFinset (domain : Finset K) (rule : K → Option V) : FiniteMap K V where
  lookup key := if key ∈ domain then rule key else none
  support := domain.filter fun key => (rule key).isSome
  mem_support key := by
    by_cases inside : key ∈ domain <;> simp [inside]

def insert (m : FiniteMap K V) (key : K) (value : V) : FiniteMap K V where
  lookup := m.lookup.update key value
  support := Insert.insert key m.support
  mem_support other := by
    by_cases same : other = key <;>
      simp [IMap.update_eq_ite, same, m.mem_support other]

def erase (m : FiniteMap K V) (key : K) : FiniteMap K V where
  lookup := Function.update m.lookup key none
  support := m.support.erase key
  mem_support other := by
    by_cases same : other = key
    · simp [same]
    · simp [same, m.mem_support other]

/-- The map with a partial function applied to its values. -/
def filterMap {W : Type w} (f : V → Option W) (m : FiniteMap K V) : FiniteMap K W where
  lookup key := (m.lookup key).bind f
  support := m.support.filter fun key => ((m.lookup key).bind f).isSome
  mem_support key := by
    cases found : m.lookup key <;> simp [m.mem_support, found]

variable {W : Type w}

omit [DecidableEq K] in
@[simp]
theorem lookup_filterMap (f : V → Option W) (m : FiniteMap K V) (key : K) :
    (m.filterMap f).lookup key = (m.lookup key).bind f := rfl

@[simp]
theorem lookup_ofFinset (domain : Finset K) (rule : K → Option V) (key : K) :
    (ofFinset domain rule).lookup key = if key ∈ domain then rule key else none := rfl

@[simp]
theorem lookup_insert (m : FiniteMap K V) (key other : K) (value : V) :
    (m.insert key value).lookup other =
      if other = key then some value else m.lookup other :=
  IMap.update_eq_ite m.lookup key other value

@[simp]
theorem lookup_erase (m : FiniteMap K V) (key other : K) :
    (m.erase key).lookup other = if other = key then none else m.lookup other :=
  Function.update_apply m.lookup key none other

variable {key : K}

theorem lookup_insert_of_ne (m : FiniteMap K V) (value : V) (other : K) (isOther : other ≠ key) :
    (m.insert key value).lookup other = m.lookup other := by
  rw [lookup_insert, if_neg isOther]

variable {m : FiniteMap K V} {other : K} {value' : V} {f : V → Option W}

theorem lookup_insert_eq_some {key : K} {value : V} :
    (m.insert key value).lookup other = some value' ↔
      (other = key ∧ value = value') ∨ (other ≠ key ∧ m.lookup other = some value') := by
  by_cases isKey : other = key <;> simp [isKey]

variable {value : V}

theorem lookup_erase_eq_some {key : K} :
    (m.erase key).lookup other = some value ↔ other ≠ key ∧ m.lookup other = some value := by
  by_cases isKey : other = key <;> simp [isKey]

theorem lookup_of_erase {key : K} (found : (m.erase key).lookup other = some value) :
    m.lookup other = some value :=
  (lookup_erase_eq_some.mp found).2

theorem absent_of_insert {key : K} (absent : (m.insert key value).lookup other = none) :
    m.lookup other = none := by
  rw [lookup_insert] at absent
  split_ifs at absent
  exact absent

theorem support_insert_of_lookup (found : m.lookup key = some value) (value' : V) :
    (m.insert key value').support = m.support :=
  Finset.insert_eq_of_mem (mem_support_of_lookup found)

/-- A new value that a partial function does not tell from the old one. -/
theorem filterMap_insert_of_eq {value : V} (found : m.lookup key = some value)
    (same : f value' = f value) : (m.insert key value').filterMap f = m.filterMap f := by
  ext1 other
  by_cases isKey : other = key
  · simp [isKey, found, same]
  · simp [isKey]

theorem filterMap_insert_of_some {image : W} (imageEq : f value = some image) :
    (m.insert key value).filterMap f = (m.filterMap f).insert key image := by
  ext1 other
  by_cases isKey : other = key <;> simp [isKey, imageEq]

theorem filterMap_erase (f : V → Option W) (m : FiniteMap K V) (key : K) :
    (m.erase key).filterMap f = (m.filterMap f).erase key := by
  ext1 other
  by_cases isKey : other = key <;> simp [isKey]

/-- The first map, in which the entries of the second replace its own. -/
def mapUpdate (m m' : FiniteMap K V) : FiniteMap K V :=
  ofFinset (m.support ∪ m'.support) fun key => (m'.lookup key).or (m.lookup key)

/-- The map without the keys of a list. -/
def mapFilter (m : FiniteMap K V) (keys : List K) : FiniteMap K V :=
  ofFinset m.support fun key => if key ∈ keys then none else m.lookup key

/-- The map without the keys of a finite set. -/
def mapRemove (m : FiniteMap K V) (keys : Finset K) : FiniteMap K V :=
  ofFinset m.support fun key => if key ∈ keys then none else m.lookup key

@[simp]
theorem lookup_mapUpdate (m m' : FiniteMap K V) (key : K) :
    (m.mapUpdate m').lookup key = (m'.lookup key).or (m.lookup key) := by
  rw [mapUpdate, lookup_ofFinset, ite_eq_left_iff]
  intro outside
  rw [Finset.mem_union, not_or, notMem_support, notMem_support] at outside
  rw [outside.1, outside.2]
  rfl

@[simp]
theorem lookup_mapFilter (m : FiniteMap K V) (keys : List K) (key : K) :
    (m.mapFilter keys).lookup key = if key ∈ keys then none else m.lookup key := by
  rw [mapFilter, lookup_ofFinset, ite_eq_left_iff]
  intro outside
  simp [notMem_support.mp outside]

@[simp]
theorem lookup_mapRemove (m : FiniteMap K V) (keys : Finset K) (key : K) :
    (m.mapRemove keys).lookup key = if key ∈ keys then none else m.lookup key := by
  rw [mapRemove, lookup_ofFinset, ite_eq_left_iff]
  intro outside
  simp [notMem_support.mp outside]

/-- The map of a list of entries, in which a later entry replaces an earlier
one. -/
def ofEntries (entries : List (K × V)) : FiniteMap K V :=
  entries.foldl (fun m entry => m.insert entry.1 entry.2) empty

@[simp]
theorem ofEntries_nil : ofEntries ([] : List (K × V)) = empty := rfl

theorem ofEntries_concat (entries : List (K × V)) (key : K) (value : V) :
    ofEntries (entries ++ [(key, value)]) = (ofEntries entries).insert key value := by
  simp [ofEntries]

theorem lookup_ofEntries_cons (key other : K) (value : V) (entries : List (K × V)) :
    (ofEntries ((key, value) :: entries)).lookup other =
      ((ofEntries entries).lookup other).or (if other = key then some value else none) := by
  induction entries using List.reverseRecOn with
  | nil => exact lookup_insert empty key other value
  | append_singleton entries entry ih =>
    obtain ⟨last, _⟩ := entry
    rw [← List.cons_append, ofEntries_concat, ofEntries_concat, lookup_insert, lookup_insert, ih]
    by_cases same : other = last <;> simp [same]

variable {entries : List (K × V)}

theorem mem_of_lookup_ofEntries (found : (ofEntries entries).lookup key = some value) :
    (key, value) ∈ entries := by
  induction entries using List.reverseRecOn with
  | nil => simp at found
  | append_singleton entries entry ih =>
    rw [ofEntries_concat, lookup_insert_eq_some] at found
    obtain ⟨rfl, rfl⟩ | ⟨-, found⟩ := found
    · simp
    · exact List.mem_append_left _ (ih found)

theorem lookup_ofEntries_eq_some (distinct : (entries.map Prod.fst).Nodup) :
    (ofEntries entries).lookup key = some value ↔ (key, value) ∈ entries := by
  refine ⟨mem_of_lookup_ofEntries, fun member => ?_⟩
  induction entries using List.reverseRecOn with
  | nil => simp at member
  | append_singleton entries entry ih =>
    obtain ⟨last, lastValue⟩ := entry
    rw [List.map_append, List.nodup_append] at distinct
    rw [ofEntries_concat, lookup_insert]
    rcases List.mem_append.mp member with earlier | latest
    · have keyEarlier : key ∈ entries.map Prod.fst := List.mem_map_of_mem earlier
      rw [if_neg (distinct.2.2 key keyEarlier last (by simp)), ih distinct.1 earlier]
    · obtain ⟨rfl, rfl⟩ : key = last ∧ value = lastValue := by simpa using latest
      exact if_pos rfl

theorem lookup_ofEntries_eq_none :
    (ofEntries entries).lookup key = none ↔ key ∉ entries.map Prod.fst := by
  induction entries using List.reverseRecOn with
  | nil => simp
  | append_singleton entries entry ih =>
    obtain ⟨last, _⟩ := entry
    rw [ofEntries_concat, lookup_insert]
    by_cases same : key = last
    · simp [same]
    · rw [if_neg same, ih]
      simp [same]

theorem lookup_ofEntries_map (f : V → W) (entries : List (K × V)) (key : K) :
    (ofEntries (entries.map fun entry => (entry.1, f entry.2))).lookup key =
      ((ofEntries entries).lookup key).map f := by
  induction entries using List.reverseRecOn with
  | nil => rfl
  | append_singleton entries entry ih =>
    rw [List.map_append, List.map_singleton, ofEntries_concat, ofEntries_concat, lookup_insert,
      lookup_insert, ih]
    split_ifs with same
    · rw [Option.map_some]
    · rfl

end Operations

section Listing

variable [LinearOrder K]

/-- The entries of a map in increasing order of keys. -/
def sortedEntries (m : FiniteMap K V) : List (K × V) :=
  if nonempty : m.support.Nonempty then
    let key := m.support.max' nonempty
    sortedEntries (m.erase key) ++
      [(key, (m.lookup key).get ((m.mem_support key).mp (m.support.max'_mem nonempty)))]
  else
    []
termination_by m.support.card
decreasing_by exact Finset.card_erase_lt_of_mem (m.support.max'_mem nonempty)

theorem mem_sortedEntries {m : FiniteMap K V} {key : K} {value : V} :
    (key, value) ∈ sortedEntries m ↔ m.lookup key = some value := by
  induction m using sortedEntries.induct with
  | case1 m nonempty maximum ih =>
    rw [sortedEntries, dif_pos nonempty, List.mem_append, ih, lookup_erase,
      List.mem_singleton, Prod.mk.injEq]
    by_cases same : key = maximum
    · subst same
      simp only [maximum, if_pos, reduceCtorEq, false_or, true_and]
      rw [← Option.some.injEq, Option.some_get, eq_comm]
    · rw [if_neg same]
      exact or_iff_left fun here => same here.1
  | case2 m isEmpty =>
    rw [sortedEntries, dif_neg isEmpty]
    simp only [List.not_mem_nil, false_iff]
    intro found
    exact isEmpty ⟨key, mem_support_of_lookup found⟩

theorem sortedEntries_sorted (m : FiniteMap K V) :
    (sortedEntries m).Pairwise fun first second => first.1 < second.1 := by
  induction m using sortedEntries.induct with
  | case1 m nonempty maximum ih =>
    rw [sortedEntries, dif_pos nonempty, List.pairwise_append]
    refine ⟨ih, List.pairwise_singleton _ _, ?_⟩
    rintro ⟨key, _⟩ listed last rfl_last
    rw [mem_sortedEntries, lookup_erase_eq_some] at listed
    rw [List.mem_singleton.mp rfl_last]
    have present := mem_support_of_lookup listed.2
    exact lt_of_le_of_ne (m.support.le_max' key present) listed.1
  | case2 m isEmpty =>
    rw [sortedEntries, dif_neg isEmpty]
    exact List.Pairwise.nil

theorem ofEntries_sortedEntries (m : FiniteMap K V) : ofEntries (sortedEntries m) = m := by
  have distinct : ((sortedEntries m).map Prod.fst).Nodup := by
    rw [List.Nodup, List.pairwise_map]
    exact (sortedEntries_sorted m).imp fun less => ne_of_lt less
  ext key value
  rw [lookup_ofEntries_eq_some distinct, mem_sortedEntries]

end Listing

end FiniteMap

end VerifiedBetrfs
