import VerifiedBetrfs.FiniteMap
import VerifiedBetrfs.KeyType
import Mathlib.Data.UInt

/-!
# The open-addressing hash map and its iterators

Slots hold entries, tombstones of removed keys, or nothing.
-/

namespace VerifiedBetrfs.LinearMutableMap

universe u

/-- The hash function of the map. -/
def hash64 (k : UInt64) : UInt64 :=
  let k0 : UInt64 := (k ^^^ (0xffffffffffffffff : UInt64)) + (k <<< 21)
  let k1 := k0 ^^^ (k0 >>> 24)
  let k2 := k1 + (k1 <<< 3) + (k1 <<< 8)
  let k3 := k2 ^^^ (k2 >>> 14)
  let k4 := k3 + (k3 <<< 2) + (k3 <<< 4)
  let k5 := k4 ^^^ (k4 >>> 28)
  k5 + (k5 <<< 31)

/-- What a slot of the table holds. -/
inductive Item (V : Type u) where
  | empty
  | entry (key : UInt64) (value : V)
  | tombstone (key : UInt64)

variable {V : Type u}

namespace Item

/-- The key of an entry or of a tombstone. -/
def key? : Item V → Option UInt64
  | empty => none
  | entry key _ | tombstone key => some key

def binding? : Item V → Option (UInt64 × V)
  | empty => none
  | entry key value => some (key, value)
  | tombstone _ => none

end Item

/-- A hash table of a fixed size. -/
structure FixedSizeLinearHashMap (V : Type u) where
  storage : List (Item V)
  count : Nat
  contents : FiniteMap UInt64 (Option V)

/-- A hash map that moves to a larger table when it fills up. -/
structure LinearHashMap (V : Type u) where
  underlying : FixedSizeLinearHashMap V
  count : Nat
  contents : FiniteMap UInt64 V

section Slots

variable (hash : UInt64 → UInt64)

/-- The slot at which the probe for a key starts. -/
def slotForKey (elementsLength : Nat) (key : UInt64) : Nat :=
  (hash key).toNat % elementsLength

def slotSuccessor (elementsLength slot : Nat) : Nat :=
  if slot = elementsLength - 1 then 0 else slot + 1

def kthSlotSuccessor (elementsLength slot : Nat) : Nat → Nat
  | 0 => slot
  | k + 1 => slotSuccessor elementsLength (kthSlotSuccessor elementsLength slot k)

section

variable (elements : List (Item V))

def FilledWithKey (slot : Nat) (key : UInt64) : Prop := elements[slot]?.bind Item.key? = some key

def FilledWithOtherKey (slot : Nat) (excludingKey : UInt64) : Prop :=
  ∃ key, FilledWithKey elements slot key ∧ key ≠ excludingKey

/-- Probing from the slot of the key passes other keys and then finds it. -/
def SlotExplainsKey (skips : Nat) (key : UInt64) : Prop :=
  (∀ offset < skips, FilledWithOtherKey elements
    (kthSlotSuccessor elements.length (slotForKey hash elements.length key) offset) key) ∧
  FilledWithKey elements
    (kthSlotSuccessor elements.length (slotForKey hash elements.length key) skips) key

/-- No key is in two slots. -/
def CantEquivocateStorageKey : Prop :=
  ∀ slot slot' key, FilledWithKey elements slot key → FilledWithKey elements slot' key →
    slot = slot'

end

/-- The table has one slot for every key, and no other. -/
structure SeqMatchesContentKeys (elements : List (Item V))
    (contents : FiniteMap UInt64 (Option V)) : Prop where
  explained : ∀ key ∈ contents.support, ∃ skips, SlotExplainsKey hash elements skips key
  present : ∀ slot key, FilledWithKey elements slot key → key ∈ contents.support
  cantEquivocate : CantEquivocateStorageKey elements

section

variable (elements : List (Item V)) (contents : FiniteMap UInt64 (Option V))

def EntriesMatchContentValue : Prop :=
  ∀ (slot : Nat) key value, elements[slot]? = some (Item.entry key value) →
    contents.lookup key = some (some value)

def TombstonesMatchContentValue : Prop :=
  ∀ (slot : Nat) key, elements[slot]? = some (Item.tombstone key) → contents.lookup key = some none

end

/-- The slots of a table are what its contents say. -/
structure FixedSizeInv (table : FixedSizeLinearHashMap V) : Prop where
  minLength : 128 ≤ table.storage.length
  maxLength : table.storage.length < 2 ^ 64
  countBound : table.count < 2 ^ 64
  countLength : table.count < table.storage.length
  card : table.contents.support.card = table.count
  keys : SeqMatchesContentKeys hash table.storage table.contents
  entries : EntriesMatchContentValue table.storage table.contents
  tombstones : TombstonesMatchContentValue table.storage table.contents

/-- The entries of the slots, in the order of the slots. -/
def storageEntries (elements : List (Item V)) : List (UInt64 × V) :=
  elements.filterMap Item.binding?

def mapFromStorage (elements : List (Item V)) : FiniteMap UInt64 V :=
  FiniteMap.ofEntries (storageEntries elements)

/-- The contents are those of the table without its tombstones. -/
structure UnderlyingContentsMatchesContents (underlying : FixedSizeLinearHashMap V)
    (contents : FiniteMap UInt64 V) : Prop where
  present : ∀ key value, contents.lookup key = some value →
    underlying.contents.lookup key = some (some value)
  absent : ∀ key, contents.lookup key = none →
    underlying.contents.lookup key = none ∨ underlying.contents.lookup key = some none

/-- The map has the contents and the count of its table. -/
structure Inv (table : LinearHashMap V) : Prop where
  card : table.contents.support.card = table.count
  contents : UnderlyingContentsMatchesContents table.underlying table.contents
  underlying : FixedSizeInv hash table.underlying
  storage : mapFromStorage table.underlying.storage = table.contents
  count : table.count ≤ 2 ^ 64 / 8

variable {hash}

theorem nodup_storageEntries {elements : List (Item V)}
    (cantEquivocate : CantEquivocateStorageKey elements) :
    ((storageEntries elements).map Prod.fst).Nodup := by
  have distinct : elements.Pairwise fun item item' =>
      ∀ entry ∈ item.binding?, ∀ entry' ∈ item'.binding?, entry.1 ≠ entry'.1 := by
    rw [List.pairwise_iff_getElem]
    intro slot slot' inRange inRange' less entry isEntry entry' isEntry' same
    have filled : ∀ {i : Nat} {e : UInt64 × V} (bound : i < elements.length),
        e ∈ elements[i].binding? → FilledWithKey elements i e.1 := by
      intro i e bound isEntry
      rw [FilledWithKey, List.getElem?_eq_getElem bound, Option.bind_some]
      cases item : elements[i] with
      | empty | tombstone key => simp [item, Item.binding?] at isEntry
      | entry key value =>
        simp only [item, Item.binding?, Option.mem_some_iff] at isEntry
        rw [Item.key?, ← isEntry]
    have := cantEquivocate slot slot' entry.1 (filled inRange isEntry)
      (same ▸ filled inRange' isEntry')
    omega
  rw [List.nodup_iff_pairwise_ne, List.pairwise_map, storageEntries, List.pairwise_filterMap]
  exact distinct.imp fun apart entry isEntry entry' isEntry' =>
    apart entry isEntry entry' isEntry'

theorem mem_storageEntries {self : LinearHashMap V} (inv : Inv hash self) {key : UInt64}
    {value : V} : (key, value) ∈ storageEntries self.underlying.storage ↔
      self.contents.lookup key = some value := by
  rw [← inv.storage, mapFromStorage, FiniteMap.lookup_ofEntries_eq_some]
  exact nodup_storageEntries inv.underlying.keys.cantEquivocate

end Slots

/-- The next entry of an iteration, or its end. -/
inductive IteratorOutput (V : Type u) where
  | next (key : UInt64) (value : V)
  | done

/-- An iterator at a slot, with the keys it has returned so far. -/
structure Iterator (V : Type u) where
  i : Nat
  s : Finset UInt64
  next : IteratorOutput V

/-- An iterator whose output is read from the map. -/
structure SimpleIterator where
  i : Nat
  s : Finset UInt64

/-- The iterator stands in the table, and has returned the keys before it. -/
structure WFSimpleIter (table : LinearHashMap V) (it : SimpleIterator) : Prop where
  bound : it.i ≤ table.underlying.storage.length
  maxLength : table.underlying.storage.length < 2 ^ 64
  nonempty : 0 < table.underlying.storage.length
  finished : it.i = table.underlying.storage.length → it.s = table.contents.support
  atEntry : it.i < table.underlying.storage.length → ∃ key value,
    table.underlying.storage[it.i]? = some (.entry key value) ∧
      table.contents.lookup key = some value ∧ key ∉ it.s
  passed : ∀ key, key ∈ it.s ↔ ∃ j < it.i, ∃ value,
    table.underlying.storage[j]? = some (.entry key value)
  returned : it.s ⊆ table.contents.support

/-- The first entry at or after a slot. -/
def iterToNext (self : LinearHashMap V) (i : Nat) : Nat × IteratorOutput V :=
  if inRange : i < self.underlying.storage.length then
    match self.underlying.storage[i] with
    | .entry key value => (i, .next key value)
    | .empty => iterToNext self (i + 1)
    | .tombstone _ => iterToNext self (i + 1)
  else (i, .done)
termination_by self.underlying.storage.length - i

def iterStart (self : LinearHashMap V) : Iterator V :=
  let (i, next) := iterToNext self 0
  ⟨i, ∅, next⟩

def iterInc (self : LinearHashMap V) (it : Iterator V) : Iterator V :=
  let (i, next) := iterToNext self (it.i + 1)
  match it.next with
  | .next key _ => ⟨i, insert key it.s, next⟩
  | .done => ⟨i, it.s, next⟩

/-- The entries that an iterator has yet to return. -/
def Remaining (self : LinearHashMap V) (i : Nat) (next : IteratorOutput V)
    (entries : List (UInt64 × V)) : Prop :=
  match next with
  | .done => entries = []
  | .next key value => ∃ rest, entries = (key, value) :: rest ∧
      rest = storageEntries (self.underlying.storage.drop (i + 1))

theorem remaining_iterToNext (self : LinearHashMap V) (i : Nat) :
    Remaining self (iterToNext self i).1 (iterToNext self i).2
      (storageEntries (self.underlying.storage.drop i)) := by
  fun_induction iterToNext self i with
  | case1 i inRange key value isEntry =>
    refine ⟨_, ?_, rfl⟩
    rw [List.drop_eq_getElem_cons inRange, isEntry]
    rfl
  | case2 i inRange isEmpty ih =>
    rw [List.drop_eq_getElem_cons inRange, isEmpty]
    exact ih
  | case3 i inRange key isTombstone ih =>
    rw [List.drop_eq_getElem_cons inRange, isTombstone]
    exact ih
  | case4 i outOfRange =>
    rw [List.drop_of_length_le (not_lt.mp outOfRange)]
    rfl

theorem remaining_iterStart (self : LinearHashMap V) :
    Remaining self (iterStart self).i (iterStart self).next
      (storageEntries self.underlying.storage) :=
  remaining_iterToNext self 0

variable {self : LinearHashMap V} {it : Iterator V} {key : UInt64} {value : V}

theorem remaining_iterInc {rest : List (UInt64 × V)}
    (remaining : Remaining self it.i it.next ((key, value) :: rest)) :
    it.next = .next key value ∧ Remaining self (iterInc self it).i (iterInc self it).next rest := by
  cases isNext : it.next with
  | done =>
    rw [isNext] at remaining
    cases remaining
  | next key' value' =>
    rw [isNext] at remaining
    obtain ⟨_, same, rfl⟩ := remaining
    cases same
    refine ⟨rfl, ?_⟩
    rw [iterInc, isNext]
    exact remaining_iterToNext self (it.i + 1)

/-- How far an iterator is from the end. -/
def Iterator.remainingSlots (self : LinearHashMap V) (it : Iterator V) : Nat :=
  match it.next with
  | .done => 0
  | .next _ _ => self.underlying.storage.length - it.i + 1

theorem le_iterToNext (self : LinearHashMap V) (i : Nat) : i ≤ (iterToNext self i).1 := by
  fun_induction iterToNext self i with
  | case1 | case4 => exact le_refl _
  | case2 i _ _ ih | case3 i _ _ _ ih => exact le_trans (Nat.le_succ i) ih

theorem lt_of_iterToNext {i : Nat} (next : (iterToNext self i).2 = .next key value) :
    (iterToNext self i).1 < self.underlying.storage.length := by
  fun_induction iterToNext self i with
  | case1 i inRange => exact inRange
  | case2 i _ _ ih | case3 i _ _ _ ih => exact ih next
  | case4 => cases next

theorem remainingSlots_iterInc (next : it.next = .next key value) :
    (iterInc self it).remainingSlots self < it.remainingSlots self := by
  have moved := le_iterToNext self (it.i + 1)
  simp only [Iterator.remainingSlots, iterInc, next]
  cases output : (iterToNext self (it.i + 1)).2 with
  | done => simp
  | next key' value' =>
    have inRange := lt_of_iterToNext output
    simp only
    omega

end VerifiedBetrfs.LinearMutableMap
