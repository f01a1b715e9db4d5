import VerifiedBetrfs.LinearMutableMap

/-!
# The operations of the open-addressing hash map

A probe goes from slot to slot until it finds the key or an empty slot.
-/

namespace VerifiedBetrfs.LinearMutableMap

open FiniteMap (lookup_erase lookup_insert mem_support mem_support_of_lookup ofEntries)

variable {V : Type}

section FixedSize

variable (hash : UInt64 → UInt64)

/-- The slot has the key or is empty. -/
def probeEnds (elements : List (Item V)) (slotIdx : Nat) (key : UInt64) : Bool :=
  match elements[slotIdx]? with
  | some .empty => true
  | some (.tombstone found) | some (.entry found _) => found == key
  | none => false

/-- The loop of a probe, or nothing if it has not ended after the given number of
slots. -/
def probeLoop (elements : List (Item V)) (key : UInt64) : Nat → Nat → Option Nat
  | 0, _ => none
  | slots + 1, slotIdx =>
    if probeEnds elements slotIdx key then some slotIdx
    else probeLoop elements key slots (slotSuccessor elements.length slotIdx)

/-- The slot of a key, or one that is free for it. -/
def probe (self : FixedSizeLinearHashMap V) (key : UInt64) : Option Nat :=
  probeLoop self.storage key self.storage.length (slotForKey hash self.storage.length key)

def constructorFromSize (size : Nat) : FixedSizeLinearHashMap V :=
  ⟨List.replicate size .empty, 0, FiniteMap.empty⟩

section

variable (self : FixedSizeLinearHashMap V)

def fixedSizeInsert (key : UInt64) (value : V) : Option (FixedSizeLinearHashMap V × Option V) := do
  let slotIdx ← probe hash self key
  let replacedItem ← self.storage[slotIdx]?
  let storage := self.storage.set slotIdx (.entry key value)
  let contents := self.contents.insert key (some value)
  match replacedItem with
  | .empty => return (⟨storage, self.count + 1, contents⟩, none)
  | .entry _ replaced => return (⟨storage, self.count, contents⟩, some replaced)
  | .tombstone _ => return (⟨storage, self.count, contents⟩, none)

def fixedSizeUpdateBySlot (slotIdx : Nat) (value : V) : Option (FixedSizeLinearHashMap V) :=
  match self.storage[slotIdx]? with
  | some (.entry key _) => some
      { self with
        storage := self.storage.set slotIdx (.entry key value)
        contents := self.contents.insert key (some value) }
  | _ => none

def fixedSizeGet (key : UInt64) : Option (Option V) := do
  let slotIdx ← probe hash self key
  match ← self.storage[slotIdx]? with
  | .entry _ value => return some value
  | _ => return none

def fixedSizeRemove (key : UInt64) : Option (FixedSizeLinearHashMap V × Option V) := do
  let slotIdx ← probe hash self key
  match ← self.storage[slotIdx]? with
  | .entry _ removed =>
    return ({ self with
      storage := self.storage.set slotIdx (.tombstone key)
      contents := self.contents.insert key none }, some removed)
  | _ => return (self, none)

end

end FixedSize

section Growing

variable (hash : UInt64 → UInt64)

def constructor (size : Nat) : LinearHashMap V := ⟨constructorFromSize size, 0, FiniteMap.empty⟩

/-- Copy the entry of a slot into another map. -/
def transfer (new : FixedSizeLinearHashMap V) : Item V → Option (FixedSizeLinearHashMap V)
  | .entry key value => (fixedSizeInsert hash new key value).map Prod.fst
  | .empty | .tombstone _ => some new

section

variable (self : LinearHashMap V)

/-- All entries are copied to a larger table. -/
def realloc : Option (LinearHashMap V) := do
  let newUnderlying ← self.underlying.storage.foldlM (transfer hash)
    (constructorFromSize ((128 + self.count) * 4))
  return { self with underlying := newUnderlying }

/-- Insert, after a growth of the table if it is half full. -/
def insertAndGetOld (key : UInt64) (value : V) : Option (LinearHashMap V × Option V) := do
  let self ← (if self.underlying.storage.length / 2 ≤ self.underlying.count then realloc hash self
    else some self : Option (LinearHashMap V))
  let (underlying, replaced) ← fixedSizeInsert hash self.underlying key value
  let count := if replaced.isNone then self.count + 1 else self.count
  return (⟨underlying, count, self.contents.insert key value⟩, replaced)

def insert (key : UInt64) (value : V) : Option (LinearHashMap V) :=
  (insertAndGetOld hash self key value).map Prod.fst

/-- A tombstone takes the place of the entry. -/
def removeAndGet (key : UInt64) : Option (LinearHashMap V × Option V) := do
  let (underlying, removed) ← fixedSizeRemove hash self.underlying key
  let count := if removed.isSome then self.count - 1 else self.count
  return (⟨underlying, count, self.contents.erase key⟩, removed)

def get (key : UInt64) : Option (Option V) := fixedSizeGet hash self.underlying key

def indexOutput (i : Nat) : Option (IteratorOutput V) :=
  if i = self.underlying.storage.length then some .done
  else match self.underlying.storage[i]? with
    | some (.entry key value) => some (.next key value)
    | _ => none

def simpleIterOutput (it : SimpleIterator) : Option (IteratorOutput V) := indexOutput self it.i

/-- The keys of the entries before a slot. -/
def setUpTo (i : Nat) : Finset UInt64 :=
  ((storageEntries (self.underlying.storage.take i)).map Prod.fst).toFinset

def findSimpleIter (key : UInt64) : Option SimpleIterator := do
  let idx ← probe hash self.underlying key
  let i := match self.underlying.storage[idx]? with
    | some (.entry _ _) => idx
    | _ => self.underlying.storage.length
  return ⟨i, setUpTo self i⟩

def updateByIter (it : SimpleIterator) (value : V) : Option (LinearHashMap V) := do
  match ← simpleIterOutput self it with
  | .next key _ =>
    let underlying ← fixedSizeUpdateBySlot self.underlying it.i value
    return { self with underlying := underlying, contents := self.contents.insert key value }
  | .done => none

end

end Growing

section Probes

variable {hash : UInt64 → UInt64} {elementsLength slot : Nat} {elements : List (Item V)}

theorem kthSlotSuccessor_eq (inRange : slot < elementsLength) (k : Nat) :
    kthSlotSuccessor elementsLength slot k = (slot + k) % elementsLength := by
  induction k with
  | zero => exact (Nat.mod_eq_of_lt inRange).symm
  | succ k ih =>
    have bound := Nat.mod_lt (slot + k) (Nat.zero_lt_of_lt inRange)
    rw [kthSlotSuccessor, ih, slotSuccessor, ← Nat.add_assoc, ← Nat.mod_add_mod (slot + k)]
    split_ifs with last
    · rw [last, Nat.sub_add_cancel (Nat.one_le_of_lt inRange), Nat.mod_self]
    · rw [Nat.mod_eq_of_lt (by omega : (slot + k) % elementsLength + 1 < elementsLength)]

theorem exists_kthSlotSuccessor_eq {start : Nat} (startInRange : start < elementsLength)
    (inRange : slot < elementsLength) :
    ∃ k < elementsLength, kthSlotSuccessor elementsLength start k = slot := by
  by_cases wraps : slot < start
  · refine ⟨slot + elementsLength - start, by omega, ?_⟩
    rw [kthSlotSuccessor_eq startInRange, Nat.add_sub_of_le (by omega), Nat.add_mod_right,
      Nat.mod_eq_of_lt inRange]
  · refine ⟨slot - start, by omega, ?_⟩
    rw [kthSlotSuccessor_eq startInRange, Nat.add_sub_of_le (by omega), Nat.mod_eq_of_lt inRange]

variable {key : UInt64}

theorem probeEnds_iff :
    probeEnds elements slot key = true ↔
      elements[slot]? = some .empty ∨ FilledWithKey elements slot key := by
  rw [FilledWithKey, probeEnds]
  cases elements[slot]? with
  | none => simp
  | some item => cases item <;> simp [Item.key?]

theorem filledWithOtherKey_of_passed (inRange : slot < elements.length)
    (passed : ¬ probeEnds elements slot key = true) : FilledWithOtherKey elements slot key := by
  rw [probeEnds, List.getElem?_eq_getElem inRange] at passed
  rw [FilledWithOtherKey]
  simp only [FilledWithKey, List.getElem?_eq_getElem inRange, Option.bind_some]
  cases item : elements[slot] with
  | empty => simp [item] at passed
  | entry found value | tombstone found => exact ⟨found, rfl, by simpa [item] using passed⟩

/-- A probe either ends at the first slot where it can end, or passes all the
slots it looks at. -/
theorem probeLoop_cases (elements : List (Item V)) (key : UInt64) (start slots offset : Nat) :
    (∃ skips, probeLoop elements key slots (kthSlotSuccessor elements.length start offset) =
        some (kthSlotSuccessor elements.length start skips) ∧
      probeEnds elements (kthSlotSuccessor elements.length start skips) key = true ∧
      ∀ k, offset ≤ k → k < skips →
        ¬ probeEnds elements (kthSlotSuccessor elements.length start k) key = true) ∨
    ∀ k, offset ≤ k → k < offset + slots →
      ¬ probeEnds elements (kthSlotSuccessor elements.length start k) key = true := by
  induction slots generalizing offset with
  | zero => exact Or.inr fun k lower upper => absurd upper (by omega)
  | succ slots ih =>
    by_cases here : probeEnds elements (kthSlotSuccessor elements.length start offset) key = true
    · refine Or.inl ⟨offset, ?_, here, fun k lower upper => absurd upper (by omega)⟩
      rw [probeLoop, if_pos here]
    · have earlier : ∀ k, offset ≤ k → k < offset + 1 →
          ¬ probeEnds elements (kthSlotSuccessor elements.length start k) key = true := by
        intro k lower upper
        obtain rfl : k = offset := by omega
        exact here
      rcases ih (offset + 1) with ⟨skips, found, ends, passed⟩ | passed
      · refine Or.inl ⟨skips, ?_, ends, fun k lower upper => ?_⟩
        · rw [probeLoop, if_neg here]
          exact found
        · by_cases first : k < offset + 1
          · exact earlier k lower first
          · exact passed k (by omega) upper
      · refine Or.inr fun k lower upper => ?_
        by_cases first : k < offset + 1
        · exact earlier k lower first
        · exact passed k (by omega) (by omega)

/-- The item of the slot of a key, given what the map holds for the key. -/
def itemFor (key : UInt64) : Option (Option V) → Item V
  | none => .empty
  | some none => .tombstone key
  | some (some value) => .entry key value

/-- A slot that a probe for a key finds. -/
structure Probed (hash : UInt64 → UInt64) (table : FixedSizeLinearHashMap V) (key : UInt64)
    (slotIdx : Nat) : Prop where
  reached : ∃ skips, kthSlotSuccessor table.storage.length
      (slotForKey hash table.storage.length key) skips = slotIdx ∧
    ∀ offset < skips, FilledWithOtherKey table.storage (kthSlotSuccessor table.storage.length
      (slotForKey hash table.storage.length key) offset) key
  item : table.storage[slotIdx]? = some (itemFor key (table.contents.lookup key))

theorem Probed.inRange {self : FixedSizeLinearHashMap V} {slotIdx : Nat}
    (probed : Probed hash self key slotIdx) : slotIdx < self.storage.length :=
  (List.getElem?_eq_some_iff.mp probed.item).1

variable {self : FixedSizeLinearHashMap V}

section

variable (inv : FixedSizeInv hash self)

include inv

theorem slotForKey_lt (key : UInt64) :
    slotForKey hash self.storage.length key < self.storage.length :=
  Nat.mod_lt _ (by have := inv.minLength; omega)

theorem exists_not_filled :
    ∃ slot < self.storage.length, ∀ key, ¬ FilledWithKey self.storage slot key := by
  by_contra! allFilled
  choose! keyOf filled using allFilled
  have into : ∀ slot ∈ Finset.range self.storage.length, keyOf slot ∈ self.contents.support := by
    intro slot inRange
    exact inv.keys.present slot (keyOf slot) (filled slot (Finset.mem_range.mp inRange))
  have injective : Set.InjOn keyOf (Finset.range self.storage.length) := by
    intro slot inRange slot' inRange' same
    have filledHere := filled slot (Finset.mem_range.mp inRange)
    have filledThere := filled slot' (Finset.mem_range.mp inRange')
    exact inv.keys.cantEquivocate slot slot' (keyOf slot) filledHere (same ▸ filledThere)
  have room := Finset.card_le_card_of_injOn keyOf into injective
  rw [Finset.card_range, inv.card] at room
  exact absurd inv.countLength (not_lt.mpr room)

theorem item_of_probeEnds {skips : Nat}
    (ends : probeEnds self.storage (kthSlotSuccessor self.storage.length
      (slotForKey hash self.storage.length key) skips) key = true)
    (passed : ∀ offset < skips, FilledWithOtherKey self.storage (kthSlotSuccessor
      self.storage.length (slotForKey hash self.storage.length key) offset) key) :
    self.storage[kthSlotSuccessor self.storage.length
      (slotForKey hash self.storage.length key) skips]? =
        some (itemFor key (self.contents.lookup key)) := by
  generalize isSlot : kthSlotSuccessor self.storage.length
    (slotForKey hash self.storage.length key) skips = slot at ends ⊢
  rw [probeEnds_iff] at ends
  have filled_of_present : key ∈ self.contents.support → FilledWithKey self.storage slot key := by
    intro present
    obtain ⟨skips', others, filled⟩ := inv.keys.explained key present
    rcases lt_trichotomy skips skips' with before | same | after
    · obtain ⟨found, filledHere, differ⟩ := others skips before
      rw [isSlot] at filledHere
      rcases ends with isEmpty | filledKey
      · rw [FilledWithKey, isEmpty] at filledHere
        cases filledHere
      · exact filledKey
    · rw [← isSlot, same]
      exact filled
    · obtain ⟨found, filledThere, differ⟩ := passed skips' after
      exact absurd (Option.mem_unique filledThere filled) differ
  cases found : self.contents.lookup key with
  | none =>
    have absent : key ∉ self.contents.support := by
      rw [mem_support, found]
      simp
    rcases ends with isEmpty | filled
    · exact isEmpty
    · exact absurd (inv.keys.present slot key filled) absent
  | some content =>
    have present : key ∈ self.contents.support := mem_support_of_lookup found
    have filled := filled_of_present present
    rw [FilledWithKey, Option.bind_eq_some_iff] at filled
    obtain ⟨item, isItem, isKey⟩ := filled
    cases item with
    | empty => cases isKey
    | entry key' value =>
      cases isKey
      rw [inv.entries slot key value isItem] at found
      cases found
      exact isItem
    | tombstone key' =>
      cases isKey
      rw [inv.tombstones slot key isItem] at found
      cases found
      exact isItem

/-- Every probe ends, and finds the slot of the key. -/
theorem exists_probe_eq (key : UInt64) :
    ∃ slotIdx, probe hash self key = some slotIdx ∧ Probed hash self key slotIdx := by
  have passed_of : ∀ k, ¬ probeEnds self.storage (kthSlotSuccessor self.storage.length
      (slotForKey hash self.storage.length key) k) key = true →
      FilledWithOtherKey self.storage (kthSlotSuccessor self.storage.length
        (slotForKey hash self.storage.length key) k) key := by
    intro k passed
    refine filledWithOtherKey_of_passed ?_ passed
    rw [kthSlotSuccessor_eq (slotForKey_lt inv key)]
    exact Nat.mod_lt _ (by have := inv.minLength; omega)
  rcases probeLoop_cases self.storage key (slotForKey hash self.storage.length key)
    self.storage.length 0 with ⟨skips, found, ends, passed⟩ | passed
  · have others := fun k (less : k < skips) => passed_of k (passed k (Nat.zero_le k) less)
    exact ⟨_, found, ⟨skips, rfl, others⟩, item_of_probeEnds inv ends others⟩
  · obtain ⟨_, inRange, notFilled⟩ := exists_not_filled inv
    obtain ⟨k, less, rfl⟩ := exists_kthSlotSuccessor_eq (slotForKey_lt inv key) inRange
    obtain ⟨found, filled, _⟩ := passed_of k (passed k (Nat.zero_le k) (by omega))
    exact absurd filled (notFilled found)

end

end Probes

section Writes

variable {hash : UInt64 → UInt64} {self : FixedSizeLinearHashMap V} {key : UInt64}
  {slotIdx : Nat}

@[simp]
theorem key?_itemFor_some (key : UInt64) (content : Option V) :
    (itemFor key (some content)).key? = some key := by
  cases content <;> rfl

theorem eq_of_key?_itemFor {found : Option (Option V)} {key' : UInt64}
    (isKey : (itemFor key found).key? = some key') : key' = key := by
  cases found with
  | none => cases isKey
  | some content =>
    rw [key?_itemFor_some] at isKey
    exact (Option.some.inj isKey).symm

/-- The map after the item for a key has been written into a slot. -/
def written (self : FixedSizeLinearHashMap V) (key : UInt64) (slotIdx : Nat)
    (content : Option V) : FixedSizeLinearHashMap V where
  storage := self.storage.set slotIdx (itemFor key (some content))
  count := if key ∈ self.contents.support then self.count else self.count + 1
  contents := self.contents.insert key content

@[simp]
theorem length_written (self : FixedSizeLinearHashMap V) (key : UInt64) (slotIdx : Nat)
    (content : Option V) : (written self key slotIdx content).storage.length =
      self.storage.length :=
  List.length_set

theorem storage_written (probed : Probed hash self key slotIdx) (content : Option V)
    (slot : Nat) : (written self key slotIdx content).storage[slot]? =
      if slot = slotIdx then some (itemFor key (some content)) else self.storage[slot]? := by
  by_cases same : slot = slotIdx
  · rw [written, same, List.getElem?_set_self probed.inRange, if_pos rfl]
  · rw [written, List.getElem?_set_ne (Ne.symm same), if_neg same]

theorem filledWithKey_written (probed : Probed hash self key slotIdx) (content : Option V)
    (slot : Nat) (key' : UInt64) :
    FilledWithKey (written self key slotIdx content).storage slot key' ↔
      FilledWithKey self.storage slot key' ∨ (slot = slotIdx ∧ key' = key) := by
  rw [FilledWithKey, FilledWithKey, storage_written probed]
  by_cases same : slot = slotIdx
  · subst same
    rw [if_pos rfl, Option.bind_some, key?_itemFor_some, probed.item, Option.bind_some,
      Option.some.injEq]
    constructor
    · rintro rfl
      exact Or.inr ⟨rfl, rfl⟩
    · rintro (isKey | ⟨-, isKey⟩)
      · exact (eq_of_key?_itemFor isKey).symm
      · exact isKey.symm
  · simp [same]

section

variable (inv : FixedSizeInv hash self)

include inv

section

variable (probed : Probed hash self key slotIdx) {slot : Nat} {key' : UInt64}

include probed

theorem slot_of_filledWithKey (filled : FilledWithKey self.storage slot key) : slot = slotIdx := by
  have present := inv.keys.present slot key filled
  obtain ⟨_, found⟩ := FiniteMap.exists_lookup present
  have filledHere : FilledWithKey self.storage slotIdx key := by
    rw [FilledWithKey, probed.item, found, Option.bind_some, key?_itemFor_some]
  exact inv.keys.cantEquivocate slot slotIdx key filled filledHere

theorem explained_written (content : Option V)
    (present : key' ∈ (written self key slotIdx content).contents.support) :
    ∃ skips, SlotExplainsKey hash (written self key slotIdx content).storage skips key' := by
  have stillOther : ∀ slot, FilledWithOtherKey self.storage slot key' →
      FilledWithOtherKey (written self key slotIdx content).storage slot key' := by
    rintro slot ⟨found, filled, differ⟩
    exact ⟨found, (filledWithKey_written probed content slot found).mpr (Or.inl filled), differ⟩
  simp only [SlotExplainsKey, length_written, filledWithKey_written probed]
  by_cases same : key' = key
  · subst same
    obtain ⟨skips, isSlot, others⟩ := probed.reached
    exact ⟨skips, fun offset less => stillOther _ (others offset less), Or.inr ⟨isSlot, rfl⟩⟩
  · have presentBefore : key' ∈ self.contents.support := by
      rw [mem_support, written, lookup_insert, if_neg same] at present
      exact (self.contents.mem_support key').mpr present
    obtain ⟨skips, others, filled⟩ := inv.keys.explained key' presentBefore
    exact ⟨skips, fun offset less => stillOther _ (others offset less), Or.inl filled⟩

theorem keys_written
    (content : Option V) : SeqMatchesContentKeys hash (written self key slotIdx content).storage
      (written self key slotIdx content).contents where
  explained := fun key' present => explained_written inv probed content present
  present := by
    intro slot key' filled
    rcases (filledWithKey_written probed content slot key').mp filled with before | ⟨-, rfl⟩
    · exact Finset.mem_insert_of_mem (inv.keys.present slot key' before)
    · exact Finset.mem_insert_self _ _
  cantEquivocate := by
    intro slot slot' key' filled filled'
    rw [filledWithKey_written probed] at filled filled'
    rcases filled with before | ⟨rfl, rfl⟩
    · rcases filled' with before' | ⟨rfl, rfl⟩
      · exact inv.keys.cantEquivocate slot slot' key' before before'
      · exact slot_of_filledWithKey inv probed before
    · rcases filled' with before' | ⟨same, -⟩
      · exact (slot_of_filledWithKey inv probed before').symm
      · exact same.symm

theorem ne_of_ne_slot (differ : slot ≠ slotIdx) {item : Item V}
    (isItem : self.storage[slot]? = some item) (isKey : item.key? = some key') : key' ≠ key := by
  rintro rfl
  refine differ (slot_of_filledWithKey inv probed ?_)
  rw [FilledWithKey, isItem, Option.bind_some, isKey]

theorem fixedSizeInv_written (content : Option V)
    (room : key ∉ self.contents.support → self.count + 1 < self.storage.length) :
    FixedSizeInv hash (written self key slotIdx content) where
  minLength := by
    rw [length_written]
    exact inv.minLength
  maxLength := by
    rw [length_written]
    exact inv.maxLength
  countBound := by
    have := inv.maxLength
    have := inv.countBound
    rw [written]
    dsimp only
    split
    · assumption
    · have := room (by assumption)
      omega
  countLength := by
    rw [length_written, written]
    split
    · exact inv.countLength
    · exact room (by assumption)
  card := by
    rw [written, FiniteMap.insert]
    dsimp only
    split_ifs with present
    · rw [Finset.insert_eq_of_mem present, inv.card]
    · rw [Finset.card_insert_of_notMem present, inv.card]
  keys := keys_written inv probed content
  entries := by
    intro slot key' value isEntry
    rw [storage_written probed] at isEntry
    rw [written, lookup_insert]
    split_ifs at isEntry with same
    · rw [Option.some.injEq] at isEntry
      cases content with
      | none => cases isEntry
      | some value' =>
        cases isEntry
        rw [if_pos rfl]
    · rw [if_neg (ne_of_ne_slot inv probed same isEntry rfl)]
      exact inv.entries slot key' value isEntry
  tombstones := by
    intro slot key' isTombstone
    rw [storage_written probed] at isTombstone
    rw [written, lookup_insert]
    split_ifs at isTombstone with same
    · rw [Option.some.injEq] at isTombstone
      cases content with
      | none =>
        cases isTombstone
        rw [if_pos rfl]
      | some value' => cases isTombstone
    · rw [if_neg (ne_of_ne_slot inv probed same isTombstone rfl)]
      exact inv.tombstones slot key' isTombstone

end

end

end Writes

section FixedSizeSpecs

variable {hash : UInt64 → UInt64} {self : FixedSizeLinearHashMap V}

section

variable (inv : FixedSizeInv hash self) {slot : Nat} {key : UInt64} {value : V}

include inv

theorem fixedSizeInsert_eq (key : UInt64) (value : V) :
    ∃ slotIdx, Probed hash self key slotIdx ∧ fixedSizeInsert hash self key value =
      some (written self key slotIdx (some value), (self.contents.lookup key).join) := by
  obtain ⟨slotIdx, isProbe, probed⟩ := exists_probe_eq inv key
  refine ⟨slotIdx, probed, ?_⟩
  have present := self.contents.mem_support key
  simp only [fixedSizeInsert, isProbe, probed.item, Option.bind_eq_bind, Option.bind_some, written,
    present]
  rcases self.contents.lookup key with _ | _ | _ <;> rfl

theorem fixedSizeGet_eq (key : UInt64) :
    fixedSizeGet hash self key = some (self.contents.lookup key).join := by
  obtain ⟨_, isProbe, probed⟩ := exists_probe_eq inv key
  simp only [fixedSizeGet, isProbe, probed.item, Option.bind_eq_bind, Option.bind_some]
  rcases self.contents.lookup key with _ | _ | _ <;> rfl

theorem fixedSizeRemove_eq (key : UInt64) :
    ∃ slotIdx, Probed hash self key slotIdx ∧ fixedSizeRemove hash self key =
      some (if (self.contents.lookup key).join.isSome then written self key slotIdx none else self,
        (self.contents.lookup key).join) := by
  obtain ⟨slotIdx, isProbe, probed⟩ := exists_probe_eq inv key
  refine ⟨slotIdx, probed, ?_⟩
  have present := self.contents.mem_support key
  simp only [fixedSizeRemove, isProbe, probed.item, Option.bind_eq_bind, Option.bind_some, written,
    present]
  rcases self.contents.lookup key with _ | _ | _ <;> rfl

theorem probed_of_entry (isEntry : self.storage[slot]? = some (.entry key value)) :
    Probed hash self key slot := by
  have found := inv.entries slot key value isEntry
  have present : key ∈ self.contents.support := mem_support_of_lookup found
  have filled : FilledWithKey self.storage slot key := by
    rw [FilledWithKey, isEntry]
    rfl
  obtain ⟨skips, others, filled'⟩ := inv.keys.explained key present
  refine ⟨⟨skips, ?_, others⟩, ?_⟩
  · exact inv.keys.cantEquivocate _ slot key filled' filled
  · rw [isEntry, found]
    rfl

theorem fixedSizeUpdateBySlot_eq (isEntry : self.storage[slot]? = some (.entry key value))
    (value' : V) :
    fixedSizeUpdateBySlot self slot value' = some (written self key slot (some value')) := by
  have present : key ∈ self.contents.support :=
    mem_support_of_lookup (inv.entries slot key value isEntry)
  simp only [fixedSizeUpdateBySlot, isEntry, written, present, if_true, itemFor]

end

theorem fixedSizeInv_constructorFromSize {size : Nat} (large : 128 ≤ size) (small : size < 2 ^ 64) :
    FixedSizeInv hash (constructorFromSize size : FixedSizeLinearHashMap V) := by
  have notFilled : ∀ slot key, ¬ FilledWithKey (constructorFromSize size :
      FixedSizeLinearHashMap V).storage slot key := by
    intro slot key filled
    rw [FilledWithKey, constructorFromSize, List.getElem?_replicate] at filled
    split_ifs at filled with inRange
    · cases filled
    · cases filled
  have notItem : ∀ (slot : Nat) item key, (constructorFromSize size :
      FixedSizeLinearHashMap V).storage[slot]? = some item → ¬ item.key? = some key := by
    intro slot item key isItem isKey
    exact notFilled slot key (by rw [FilledWithKey, isItem, Option.bind_some, isKey])
  refine ⟨?_, ?_, by simp [constructorFromSize], ?_, rfl, ⟨?_, ?_, ?_⟩, ?_, ?_⟩
  · rw [constructorFromSize, List.length_replicate]
    exact large
  · rw [constructorFromSize, List.length_replicate]
    exact small
  · rw [constructorFromSize, List.length_replicate]
    exact Nat.lt_of_lt_of_le (by omega : 0 < 128) large
  · intro key present
    exact absurd present (Finset.notMem_empty key)
  · intro slot key filled
    exact absurd filled (notFilled slot key)
  · intro slot slot' key filled
    exact absurd filled (notFilled slot key)
  · intro slot key value isEntry
    exact absurd rfl (notItem slot _ key isEntry)
  · intro slot key isTombstone
    exact absurd rfl (notItem slot _ key isTombstone)

end FixedSizeSpecs

section Specs

variable {hash : UInt64 → UInt64}

variable {underlying : FixedSizeLinearHashMap V} {contents : FiniteMap UInt64 V}

theorem underlyingContentsMatchesContents_iff :
    UnderlyingContentsMatchesContents underlying contents ↔
      ∀ key, contents.lookup key = (underlying.contents.lookup key).join := by
  constructor
  · intro isMatch key
    cases found : contents.lookup key with
    | some value => rw [isMatch.present key value found, Option.join_some]
    | none =>
      rcases isMatch.absent key found with absent | removed
      · rw [absent, Option.join_none]
      · rw [removed, Option.join_some]
  · intro same
    constructor
    · intro key value found
      rw [same key] at found
      exact Option.join_eq_some_iff.mp found
    · intro key absent
      rw [same key, Option.join_eq_none_iff] at absent
      exact absent

theorem mem_storageEntries_iff {elements : List (Item V)} {key : UInt64} {value : V} :
    (key, value) ∈ storageEntries elements ↔
      ∃ slot : Nat, elements[slot]? = some (.entry key value) := by
  have binding : ∀ item : Item V, item.binding? = some (key, value) ↔ item = .entry key value := by
    intro item
    cases item <;> simp [Item.binding?]
  rw [storageEntries, List.mem_filterMap]
  constructor
  · rintro ⟨item, member, isBinding⟩
    rw [binding] at isBinding
    rw [isBinding] at member
    exact List.mem_iff_getElem?.mp member
  · intro found
    exact ⟨_, List.mem_iff_getElem?.mpr found, rfl⟩

section

variable (inv : FixedSizeInv hash underlying)
  (same : ∀ key, contents.lookup key = (underlying.contents.lookup key).join)

include inv same

theorem mapFromStorage_eq : mapFromStorage underlying.storage = contents := by
  have distinct := nodup_storageEntries inv.keys.cantEquivocate
  ext key value
  rw [mapFromStorage, FiniteMap.lookup_ofEntries_eq_some distinct, mem_storageEntries_iff, same key,
    Option.join_eq_some_iff]
  constructor
  · rintro ⟨slot, isEntry⟩
    exact inv.entries slot key value isEntry
  · intro found
    obtain ⟨slotIdx, -, probed⟩ := exists_probe_eq inv key
    refine ⟨slotIdx, ?_⟩
    rw [probed.item, found]
    rfl

theorem inv_mk {count : Nat} (card : contents.support.card = count) (small : count ≤ 2 ^ 64 / 8) :
    Inv hash ⟨underlying, count, contents⟩ where
  card := card
  contents := underlyingContentsMatchesContents_iff.mpr same
  underlying := inv
  storage := mapFromStorage_eq inv same
  count := small

end

theorem inv_constructor {size : Nat} (large : 128 ≤ size) (small : size < 2 ^ 64) :
    Inv hash (constructor size : LinearHashMap V) :=
  inv_mk (fixedSizeInv_constructorFromSize large small) (fun _ => rfl) rfl (by omega)

variable {self : LinearHashMap V}

section

variable (inv : Inv hash self)

include inv

theorem lookup_eq_join (key : UInt64) :
    self.contents.lookup key = (self.underlying.contents.lookup key).join :=
  underlyingContentsMatchesContents_iff.mp inv.contents key

theorem get_eq (key : UInt64) : get hash self key = some (self.contents.lookup key) := by
  rw [get, fixedSizeGet_eq inv.underlying, lookup_eq_join inv]

theorem length_storageEntries_le :
    (storageEntries self.underlying.storage).length ≤ self.count := by
  have distinct := nodup_storageEntries inv.underlying.keys.cantEquivocate
  have isCard := List.toFinset_card_of_nodup distinct
  rw [List.length_map] at isCard
  rw [← isCard, ← inv.card]
  refine Finset.card_le_card fun key present => ?_
  obtain ⟨⟨_, _⟩, member, rfl⟩ := List.mem_map.mp (List.mem_toFinset.mp present)
  exact mem_support_of_lookup ((mem_storageEntries inv).mp member)

omit inv in
theorem foldlM_transfer (items : List (Item V)) {new : FixedSizeLinearHashMap V}
    (inv : FixedSizeInv hash new)
    (room : new.count + (storageEntries items).length < new.storage.length) :
    ∃ new', items.foldlM (transfer hash) new = some new' ∧ FixedSizeInv hash new' ∧
      new'.storage.length = new.storage.length ∧
      new'.count ≤ new.count + (storageEntries items).length ∧
      ∀ key, new'.contents.lookup key =
        (((ofEntries (storageEntries items)).lookup key).map some).or
          (new.contents.lookup key) := by
  induction items generalizing new with
  | nil => exact ⟨new, rfl, inv, rfl, le_refl _, fun key => rfl⟩
  | cons item items ih =>
    rw [List.foldlM_cons]
    cases item with
    | empty | tombstone key => exact ih inv room
    | entry key value =>
      obtain ⟨slotIdx, probed, isInsert⟩ := fixedSizeInsert_eq inv key value
      have entries : storageEntries (.entry key value :: items) =
          (key, value) :: storageEntries items := rfl
      rw [entries, List.length_cons] at room ⊢
      have countWritten : (written new key slotIdx (some value)).count ≤ new.count + 1 := by
        rw [written]
        dsimp only
        split <;> omega
      have inv' : FixedSizeInv hash (written new key slotIdx (some value)) :=
        fixedSizeInv_written inv probed (some value) fun _ => by omega
      obtain ⟨new', isFold, invNew, length, _, lookup⟩ := ih inv' (by
        rw [length_written]
        omega)
      refine ⟨new', ?_, invNew, length.trans (length_written _ _ _ _), by omega, ?_⟩
      · rw [transfer, isInsert]
        exact isFold
      · intro key'
        rw [lookup, FiniteMap.lookup_ofEntries_cons, written, lookup_insert]
        cases (ofEntries (storageEntries items)).lookup key' with
        | some value' => rfl
        | none => by_cases same : key' = key <;> simp [same]

theorem realloc_spec (small : self.count < 2 ^ 64 / 8) :
    ∃ self', realloc hash self = some self' ∧ Inv hash self' ∧ self'.contents = self.contents ∧
      self'.count = self.count ∧
      self'.underlying.count + 2 < self'.underlying.storage.length := by
  have entries := length_storageEntries_le inv
  have length : (constructorFromSize ((128 + self.count) * 4) :
      FixedSizeLinearHashMap V).storage.length = (128 + self.count) * 4 := List.length_replicate
  have isEmpty : (constructorFromSize ((128 + self.count) * 4) :
      FixedSizeLinearHashMap V).count = 0 := rfl
  have initial : FixedSizeInv hash (constructorFromSize ((128 + self.count) * 4) :
      FixedSizeLinearHashMap V) := fixedSizeInv_constructorFromSize (by omega) (by omega)
  obtain ⟨new, isFold, inv', _, _, lookup⟩ :=
    foldlM_transfer self.underlying.storage initial (by omega)
  refine ⟨{ self with underlying := new }, ?_, inv_mk inv' ?_ inv.card inv.count, rfl, rfl, ?_⟩
  · rw [realloc, isFold]
    rfl
  · intro key
    have transferred := lookup key
    rw [← mapFromStorage, inv.storage] at transferred
    rw [transferred]
    cases self.contents.lookup key <;> rfl
  · dsimp only
    omega

theorem insertAndGetOld_spec (small : self.count < 2 ^ 64 / 8) (key : UInt64)
    (value : V) : ∃ self', insertAndGetOld hash self key value =
        some (self', self.contents.lookup key) ∧ Inv hash self' ∧
      self'.contents = self.contents.insert key value := by
  have grown : ∃ grown, (if self.underlying.storage.length / 2 ≤ self.underlying.count then
        realloc hash self else some self) = some grown ∧ Inv hash grown ∧
      grown.contents = self.contents ∧ grown.count = self.count ∧
      grown.underlying.count + 1 < grown.underlying.storage.length := by
    split
    · obtain ⟨grown, isRealloc, inv', contents, count, room⟩ := realloc_spec inv small
      exact ⟨grown, isRealloc, inv', contents, count, by omega⟩
    · have := inv.underlying.minLength
      exact ⟨self, rfl, inv, rfl, rfl, by omega⟩
  obtain ⟨grown, isGrown, inv', contents, count, room⟩ := grown
  obtain ⟨slotIdx, probed, isInsert⟩ := fixedSizeInsert_eq inv'.underlying key value
  have old := lookup_eq_join inv' key
  refine ⟨⟨written grown.underlying key slotIdx (some value),
    if (self.contents.lookup key).isNone then self.count + 1 else self.count,
    self.contents.insert key value⟩, ?_, inv_mk ?_ ?_ ?_ ?_, rfl⟩
  · simp only [insertAndGetOld, isGrown, Option.bind_eq_bind, Option.bind_some, isInsert, ← old,
      count, contents]
    rfl
  · exact fixedSizeInv_written inv'.underlying probed (some value) fun _ => room
  · intro key'
    rw [written, lookup_insert, lookup_insert]
    split_ifs with same
    · rw [Option.join_some]
    · rw [← lookup_eq_join inv', contents]
  · rw [FiniteMap.insert]
    dsimp only
    have present := self.contents.mem_support key
    by_cases isSome : (self.contents.lookup key).isSome
    · rw [Finset.insert_eq_of_mem (present.mpr isSome), inv.card, if_neg]
      rw [Option.isNone_iff_eq_none]
      exact Option.isSome_iff_ne_none.mp isSome
    · rw [Finset.card_insert_of_notMem (present.not.mpr isSome), inv.card, if_pos]
      rw [Option.isNone_iff_eq_none]
      exact Option.not_isSome_iff_eq_none.mp isSome
  · have := inv.count
    split <;> omega

theorem insert_spec (small : self.count < 2 ^ 64 / 8) (key : UInt64)
    (value : V) : ∃ self', insert hash self key value = some self' ∧ Inv hash self' ∧
      self'.contents = self.contents.insert key value := by
  obtain ⟨self', isInsert, inv', contents⟩ := insertAndGetOld_spec inv small key value
  refine ⟨self', ?_, inv', contents⟩
  rw [insert, isInsert]
  rfl

theorem removeAndGet_spec (key : UInt64) :
    ∃ self', removeAndGet hash self key = some (self', self.contents.lookup key) ∧
      Inv hash self' ∧ self'.contents = self.contents.erase key := by
  obtain ⟨slotIdx, probed, isRemove⟩ := fixedSizeRemove_eq inv.underlying key
  have old := lookup_eq_join inv key
  rw [← old] at isRemove
  have present := self.contents.mem_support key
  split_ifs at isRemove with isSome
  · have underlyingPresent : key ∈ self.underlying.contents.support := by
      rw [mem_support]
      cases found : self.underlying.contents.lookup key with
      | none => simp [old, found] at isSome
      | some content => rfl
    refine ⟨⟨written self.underlying key slotIdx none, self.count - 1, self.contents.erase key⟩,
      ?_, inv_mk ?_ ?_ ?_ ?_, rfl⟩
    · simp only [removeAndGet, isRemove, Option.bind_eq_bind, Option.bind_some, isSome, if_true]
      rfl
    · exact fixedSizeInv_written inv.underlying probed none
        fun absent => absurd underlyingPresent absent
    · intro key'
      rw [written, lookup_insert, lookup_erase]
      split_ifs with same
      · rw [Option.join_some]
      · rw [← lookup_eq_join inv]
    · rw [FiniteMap.erase]
      rw [Finset.card_erase_of_mem (present.mpr isSome), inv.card]
    · have := inv.count
      omega
  · refine ⟨⟨self.underlying, self.count, self.contents.erase key⟩, ?_,
      inv_mk inv.underlying ?_ ?_ inv.count, rfl⟩
    · simp only [removeAndGet, isRemove, Option.bind_eq_bind, Option.bind_some, isSome]
      rfl
    · intro key'
      rw [lookup_erase, ← lookup_eq_join inv]
      split_ifs with same
      · rw [same, Option.not_isSome_iff_eq_none.mp isSome]
      · rfl
    · rw [FiniteMap.erase]
      dsimp only
      rw [Finset.erase_eq_of_notMem (present.not.mpr isSome), inv.card]

end

end Specs

section SimpleIterators

variable {hash : UInt64 → UInt64} {self : LinearHashMap V}

variable {key : UInt64} {i slot : Nat} {value : V}

theorem mem_setUpTo : key ∈ setUpTo self i ↔
    ∃ j < i, ∃ value, self.underlying.storage[j]? = some (.entry key value) := by
  rw [setUpTo, List.mem_toFinset, List.mem_map]
  constructor
  · rintro ⟨⟨_, value⟩, member, rfl⟩
    obtain ⟨j, isEntry⟩ := mem_storageEntries_iff.mp member
    rw [List.getElem?_take] at isEntry
    by_cases before : j < i
    · rw [if_pos before] at isEntry
      exact ⟨j, before, value, isEntry⟩
    · rw [if_neg before] at isEntry
      cases isEntry
  · rintro ⟨j, before, value, isEntry⟩
    refine ⟨(key, value), mem_storageEntries_iff.mpr ⟨j, ?_⟩, rfl⟩
    rw [List.getElem?_take, if_pos before, isEntry]

section

variable (inv : Inv hash self) (isEntry : self.underlying.storage[slot]? = some (.entry key value))

include inv isEntry

theorem lookup_of_entry : self.contents.lookup key = some value :=
  (mem_storageEntries inv).mp (mem_storageEntries_iff.mpr ⟨slot, isEntry⟩)

theorem slot_eq_of_entry {slot' : Nat} {value' : V}
    (isEntry' : self.underlying.storage[slot']? = some (.entry key value')) : slot = slot' := by
  refine inv.underlying.keys.cantEquivocate slot slot' key ?_ ?_
  · rw [FilledWithKey, isEntry]
    rfl
  · rw [FilledWithKey, isEntry']
    rfl

end

theorem wfSimpleIter_setUpTo (inv : Inv hash self) (position : i = self.underlying.storage.length ∨
      ∃ key value, self.underlying.storage[i]? = some (.entry key value)) :
    WFSimpleIter self ⟨i, setUpTo self i⟩ where
  bound := by
    rcases position with atEnd | ⟨key, value, isEntry⟩
    · exact atEnd.le
    · exact (List.getElem?_eq_some_iff.mp isEntry).1.le
  maxLength := inv.underlying.maxLength
  nonempty := by
    have := inv.underlying.minLength
    omega
  finished := by
    rintro rfl
    ext key
    rw [mem_setUpTo, mem_support, Option.isSome_iff_exists]
    constructor
    · rintro ⟨j, _, value, isEntry⟩
      exact ⟨value, lookup_of_entry inv isEntry⟩
    · rintro ⟨value, found⟩
      obtain ⟨slot, isEntry⟩ := mem_storageEntries_iff.mp ((mem_storageEntries inv).mpr found)
      exact ⟨slot, (List.getElem?_eq_some_iff.mp isEntry).1, value, isEntry⟩
  atEntry := by
    intro inRange
    rcases position with atEnd | ⟨key, value, isEntry⟩
    · exact absurd atEnd inRange.ne
    · refine ⟨key, value, isEntry, lookup_of_entry inv isEntry, fun returned => ?_⟩
      obtain ⟨j, before, _, isEntry'⟩ := mem_setUpTo.mp returned
      exact before.ne (slot_eq_of_entry inv isEntry' isEntry)
  passed := fun key => mem_setUpTo
  returned := by
    intro key returned
    obtain ⟨j, _, value, isEntry⟩ := mem_setUpTo.mp returned
    exact mem_support_of_lookup (lookup_of_entry inv isEntry)

/-- What an iterator at a key returns. -/
def outputFor (key : UInt64) : Option V → IteratorOutput V
  | some value => .next key value
  | none => .done

theorem findSimpleIter_spec (inv : Inv hash self) (key : UInt64) :
    ∃ it, findSimpleIter hash self key = some it ∧ WFSimpleIter self it ∧
      simpleIterOutput self it = some (outputFor key (self.contents.lookup key)) := by
  obtain ⟨slotIdx, isProbe, probed⟩ := exists_probe_eq inv.underlying key
  have old := lookup_eq_join inv key
  have item := probed.item
  rw [findSimpleIter, isProbe]
  simp only [Option.bind_eq_bind, Option.bind_some, item]
  rcases found : self.underlying.contents.lookup key with _ | _ | value
  · rw [found, Option.join_none] at old
    rw [old]
    exact ⟨_, rfl, wfSimpleIter_setUpTo inv (Or.inl rfl), if_pos rfl⟩
  · rw [found, Option.join_some] at old
    rw [old]
    exact ⟨_, rfl, wfSimpleIter_setUpTo inv (Or.inl rfl), if_pos rfl⟩
  · rw [found, Option.join_some] at old
    rw [found] at item
    rw [old]
    refine ⟨⟨slotIdx, setUpTo self slotIdx⟩, rfl,
      wfSimpleIter_setUpTo inv (Or.inr ⟨key, value, item⟩), ?_⟩
    rw [simpleIterOutput, indexOutput, if_neg probed.inRange.ne, item]
    rfl

variable {it : SimpleIterator}

theorem entry_of_simpleIterOutput (output : simpleIterOutput self it = some (.next key value)) :
    self.underlying.storage[it.i]? = some (.entry key value) := by
  rw [simpleIterOutput, indexOutput] at output
  split at output
  · cases output
  · split at output
    · cases output
      assumption
    · cases output

theorem wfSimpleIter_written (inv : Inv hash self)
    (isEntry : self.underlying.storage[slot]? = some (.entry key value)) (value' : V)
    (wf : WFSimpleIter self it) :
    WFSimpleIter ⟨written self.underlying key slot (some value'), self.count,
      self.contents.insert key value'⟩ it := by
  have probed := probed_of_entry inv.underlying isEntry
  have storage := storage_written probed (some value')
  have sameKeys : ∀ (j : Nat) key', (∃ value, (written self.underlying key slot
      (some value')).storage[j]? = some (.entry key' value)) ↔
      ∃ value, self.underlying.storage[j]? = some (.entry key' value) := by
    intro j key'
    rw [storage]
    by_cases same : j = slot
    · subst same
      simp [isEntry, itemFor]
    · rw [if_neg same]
  have found := lookup_of_entry inv isEntry
  have support : (self.contents.insert key value').support = self.contents.support := by
    refine Finset.insert_eq_of_mem ?_
    exact mem_support_of_lookup found
  refine ⟨?_, ?_, ?_, ?_, ?_, ?_, ?_⟩
  · rw [length_written]
    exact wf.bound
  · rw [length_written]
    exact wf.maxLength
  · rw [length_written]
    exact wf.nonempty
  · rw [length_written, support]
    exact wf.finished
  · rw [length_written]
    intro inRange
    obtain ⟨key', value'', isEntry', found', fresh⟩ := wf.atEntry inRange
    rw [storage]
    by_cases same : it.i = slot
    · rw [same, isEntry] at isEntry'
      cases isEntry'
      refine ⟨key, value', if_pos same, ?_, fresh⟩
      rw [lookup_insert, if_pos rfl]
    · refine ⟨key', value'', ?_, ?_, fresh⟩
      · rw [if_neg same]
        exact isEntry'
      · rw [lookup_insert, if_neg, found']
        rintro rfl
        exact same (slot_eq_of_entry inv isEntry' isEntry)
  · intro key'
    rw [wf.passed]
    simp only [sameKeys]
  · rw [support]
    exact wf.returned

theorem updateByIter_spec (inv : Inv hash self)
    (output : simpleIterOutput self it = some (.next key value)) (value' : V) :
    ∃ self', updateByIter self it value' = some self' ∧ Inv hash self' ∧
      self'.contents = self.contents.insert key value' ∧
      ∀ it', WFSimpleIter self it' → WFSimpleIter self' it' := by
  have isEntry := entry_of_simpleIterOutput output
  have probed := probed_of_entry inv.underlying isEntry
  have present : key ∈ self.underlying.contents.support :=
    mem_support_of_lookup (inv.underlying.entries _ key value isEntry)
  refine ⟨⟨written self.underlying key it.i (some value'), self.count,
    self.contents.insert key value'⟩, ?_, inv_mk ?_ ?_ ?_ inv.count, rfl, ?_⟩
  · simp only [updateByIter, output, fixedSizeUpdateBySlot_eq inv.underlying isEntry value',
      Option.bind_eq_bind, Option.bind_some]
    rfl
  · exact fixedSizeInv_written inv.underlying probed (some value')
      fun absent => absurd present absent
  · intro key'
    rw [written, lookup_insert, lookup_insert]
    split_ifs with same
    · rw [Option.join_some]
    · rw [← lookup_eq_join inv]
  · have found := lookup_of_entry inv isEntry
    rw [FiniteMap.insert]
    dsimp only
    rw [Finset.insert_eq_of_mem, inv.card]
    exact mem_support_of_lookup found
  · exact fun it' wf => wfSimpleIter_written inv isEntry value' wf

end SimpleIterators

section Loops

variable {S : Type} {m : Type → Type} [Monad m]

/-- A loop from an iterator to the end of the map. -/
def forEntries (self : LinearHashMap V) (step : S → UInt64 → V → m S) (it : Iterator V)
    (state : S) : m S :=
  match _next : it.next with
  | .done => pure state
  | .next key value => step state key value >>= forEntries self step (iterInc self it)
termination_by it.remainingSlots self
decreasing_by exact remainingSlots_iterInc (by assumption)

theorem forEntries_eq_foldlM {self : LinearHashMap V} {step : S → UInt64 → V → m S}
    {it : Iterator V} {entries : List (UInt64 × V)} (state : S)
    (remaining : Remaining self it.i it.next entries) :
    forEntries self step it state =
      entries.foldlM (fun state entry => step state entry.1 entry.2) state := by
  induction entries generalizing it state with
  | nil =>
    rw [forEntries]
    split
    · rfl
    · rename_i key value next
      rw [next] at remaining
      obtain ⟨rest, absurdity, _⟩ := remaining
      cases absurdity
  | cons entry rest ih =>
    obtain ⟨key, value⟩ := entry
    obtain ⟨next, remaining'⟩ := remaining_iterInc remaining
    rw [forEntries, List.foldlM_cons]
    split
    · rename_i done
      rw [next] at done
      cases done
    · rename_i key' value' next'
      rw [next] at next'
      cases next'
      exact congrArg (step state key value >>= ·) (funext fun state' => ih state' remaining')

/-- A loop over the whole map is a fold over the entries of its slots. -/
theorem forEntries_iterStart (self : LinearHashMap V) (step : S → UInt64 → V → m S)
    (state : S) : forEntries self step (iterStart self) state =
      (storageEntries self.underlying.storage).foldlM
        (fun state entry => step state entry.1 entry.2) state :=
  forEntries_eq_foldlM state (remaining_iterStart self)

end Loops

end VerifiedBetrfs.LinearMutableMap
