import VerifiedBetrfs.HashMapOperations

/-!
# The hash map after any history

The value of a key is the one that was put last and not removed since.
-/

namespace VerifiedBetrfs.LinearMutableMap

variable {V : Type}

def remove (hash : UInt64 → UInt64) (self : LinearHashMap V) (key : UInt64) :
    Option (LinearHashMap V) :=
  (removeAndGet hash self key).map Prod.fst

/-- The loop of a simple iterator stops at the same slots as that of an iterator. -/
def simpleIterToNext (self : LinearHashMap V) (i : Nat) : Nat := (iterToNext self i).1

def simpleIterStart (self : LinearHashMap V) : SimpleIterator := ⟨simpleIterToNext self 0, ∅⟩

def simpleIterInc (self : LinearHashMap V) (it : SimpleIterator) : Option SimpleIterator := do
  match ← simpleIterOutput self it with
  | .next key _ => some ⟨simpleIterToNext self (it.i + 1), it.s ∪ {key}⟩
  | .done => none

section SimpleIteration

variable {hash : UInt64 → UInt64} {self : LinearHashMap V} {i : Nat}

theorem simpleIterToNext_position (self : LinearHashMap V)
    (inRange : i ≤ self.underlying.storage.length) :
    simpleIterToNext self i = self.underlying.storage.length ∨
      ∃ key value,
        self.underlying.storage[simpleIterToNext self i]? = some (.entry key value) := by
  rw [simpleIterToNext]
  fun_induction iterToNext self i with
  | case1 i within key value isEntry =>
    right
    exact ⟨key, value, by rw [List.getElem?_eq_getElem within, isEntry]⟩
  | case2 i within _ ih | case3 i within _ _ ih => exact ih within
  | case4 i outOfRange => exact Or.inl (by dsimp only; omega)

theorem no_entry_before_simpleIterToNext {j : Nat} (start : i ≤ j)
    (before : j < simpleIterToNext self i) (key : UInt64) (value : V) :
    self.underlying.storage[j]? ≠ some (.entry key value) := by
  rw [simpleIterToNext] at before
  fun_induction iterToNext self i with
  | case1 i within key' value' isEntry => exact absurd start (not_le.mpr before)
  | case2 i within isEmpty ih =>
    rcases Nat.eq_or_lt_of_le start with rfl | later
    · rw [List.getElem?_eq_getElem within, isEmpty]
      simp
    · exact ih later before
  | case3 i within key' isTombstone ih =>
    rcases Nat.eq_or_lt_of_le start with rfl | later
    · rw [List.getElem?_eq_getElem within, isTombstone]
      simp
    · exact ih later before
  | case4 i outOfRange => exact absurd start (not_le.mpr before)

theorem simpleIterStart_eq (self : LinearHashMap V) :
    simpleIterStart self = ⟨simpleIterToNext self 0, setUpTo self (simpleIterToNext self 0)⟩ := by
  have nothing : setUpTo self (simpleIterToNext self 0) = ∅ := by
    rw [Finset.eq_empty_iff_forall_notMem]
    intro key passed
    obtain ⟨j, before, value, isEntry⟩ := mem_setUpTo.mp passed
    exact no_entry_before_simpleIterToNext (Nat.zero_le j) before key value isEntry
  rw [simpleIterStart, nothing]

theorem simpleIterInc_eq {it : SimpleIterator} {key : UInt64} {value : V}
    (output : simpleIterOutput self it = some (.next key value)) :
    simpleIterInc self it = some ⟨simpleIterToNext self (it.i + 1), it.s ∪ {key}⟩ := by
  rw [simpleIterInc, output]
  rfl

theorem wfSimpleIter_simpleIterInc (inv : Inv hash self) {it it' : SimpleIterator}
    (wf : WFSimpleIter self it) (next : simpleIterInc self it = some it') :
    WFSimpleIter self it' := by
  cases output : simpleIterOutput self it with
  | none => simp [simpleIterInc, output] at next
  | some out =>
    cases out with
    | done => simp [simpleIterInc, output] at next
    | next key value =>
      rw [simpleIterInc_eq output] at next
      cases next
      have isEntry := entry_of_simpleIterOutput output
      have within := (List.getElem?_eq_some_iff.mp isEntry).1
      have moved : it.i + 1 ≤ simpleIterToNext self (it.i + 1) := le_iterToNext self _
      have passed : it.s ∪ {key} = setUpTo self (simpleIterToNext self (it.i + 1)) := by
        ext key'
        rw [Finset.mem_union, Finset.mem_singleton, wf.passed, mem_setUpTo]
        constructor
        · rintro (⟨j, before, value', isEntry'⟩ | rfl)
          · exact ⟨j, by omega, value', isEntry'⟩
          · exact ⟨it.i, by omega, value, isEntry⟩
        · rintro ⟨j, before, value', isEntry'⟩
          rcases Nat.lt_trichotomy j it.i with earlier | rfl | later
          · exact Or.inl ⟨j, earlier, value', isEntry'⟩
          · rw [isEntry] at isEntry'
            cases isEntry'
            exact Or.inr rfl
          · exact absurd isEntry' (no_entry_before_simpleIterToNext later before key' value')
      rw [passed]
      exact wfSimpleIter_setUpTo inv (simpleIterToNext_position self within)

/-- The output is an entry that was not returned yet, or the end with all keys returned. -/
theorem simpleIterOutput_cases {it : SimpleIterator} (wf : WFSimpleIter self it) :
    (∃ key value, simpleIterOutput self it = some (.next key value) ∧
        self.contents.lookup key = some value ∧ key ∉ it.s) ∨
      simpleIterOutput self it = some .done ∧ it.s = self.contents.support := by
  rcases Nat.eq_or_lt_of_le wf.bound with atEnd | within
  · right
    exact ⟨if_pos atEnd, wf.finished atEnd⟩
  · left
    obtain ⟨key, value, isEntry, found, fresh⟩ := wf.atEntry within
    refine ⟨key, value, ?_, found, fresh⟩
    rw [simpleIterOutput, indexOutput, if_neg within.ne, isEntry]

end SimpleIteration

/-- What an operation did to a key. -/
inductive Event (V : Type) where
  | put (key : UInt64) (value : V)
  | removed (key : UInt64)

/-- The value that was put last and not removed since; the last event comes first. -/
def lastValue : List (Event V) → UInt64 → Option V
  | [], _ => none
  | .put key value :: earlier, other => if other = key then some value else lastValue earlier other
  | .removed key :: earlier, other => if other = key then none else lastValue earlier other

/-- The maps that the operations reach from a constructor of the given size. -/
inductive Reached (hash : UInt64 → UInt64) (size : Nat) :
    LinearHashMap V → List (Event V) → Prop
  | constructor : Reached hash size (constructor size) []
  | insertAndGetOld {self self' : LinearHashMap V} {history : List (Event V)} {key : UInt64}
      {value : V} {old : Option V} (reached : Reached hash size self history)
      (small : self.count < 2 ^ 61)
      (result : insertAndGetOld hash self key value = some (self', old)) :
      Reached hash size self' (.put key value :: history)
  | insert {self self' : LinearHashMap V} {history : List (Event V)} {key : UInt64} {value : V}
      (reached : Reached hash size self history) (small : self.count < 2 ^ 61)
      (result : insert hash self key value = some self') :
      Reached hash size self' (.put key value :: history)
  | removeAndGet {self self' : LinearHashMap V} {history : List (Event V)} {key : UInt64}
      {old : Option V} (reached : Reached hash size self history)
      (result : removeAndGet hash self key = some (self', old)) :
      Reached hash size self' (.removed key :: history)
  | remove {self self' : LinearHashMap V} {history : List (Event V)} {key : UInt64}
      (reached : Reached hash size self history) (result : remove hash self key = some self') :
      Reached hash size self' (.removed key :: history)
  | updateByIter {self self' : LinearHashMap V} {history : List (Event V)} {it : SimpleIterator}
      {key : UInt64} {value value' : V} (reached : Reached hash size self history)
      (wf : WFSimpleIter self it) (output : simpleIterOutput self it = some (.next key value))
      (result : updateByIter self it value' = some self') :
      Reached hash size self' (.put key value' :: history)
  | realloc {self self' : LinearHashMap V} {history : List (Event V)}
      (reached : Reached hash size self history) (small : self.count < 2 ^ 61)
      (result : realloc hash self = some self') : Reached hash size self' history

/-- The map holds what the history says. -/
def Holds (self : LinearHashMap V) (history : List (Event V)) : Prop :=
  ∀ key, self.contents.lookup key = lastValue history key

section Reach

variable {hash : UInt64 → UInt64} {size : Nat} {self self' : LinearHashMap V}
  {history : List (Event V)} {key : UInt64} {value : V}

theorem Holds.put (holds : Holds self history)
    (contents : self'.contents = self.contents.insert key value) :
    Holds self' (.put key value :: history) := by
  intro other
  rw [contents, FiniteMap.lookup_insert, lastValue, holds other]

theorem Holds.removed (holds : Holds self history)
    (contents : self'.contents = self.contents.erase key) :
    Holds self' (.removed key :: history) := by
  intro other
  rw [contents, FiniteMap.lookup_erase, lastValue, holds other]

theorem Reached.inv (large : 128 ≤ size) (fits : size < 2 ^ 64)
    (reached : Reached hash size self history) : Inv hash self ∧ Holds self history := by
  induction reached with
  | constructor => exact ⟨inv_constructor large fits, fun _ => rfl⟩
  | insertAndGetOld _ small result ih =>
    obtain ⟨after, isInsert, inv, contents⟩ := insertAndGetOld_spec ih.1 small _ _
    cases Option.mem_unique isInsert result
    exact ⟨inv, ih.2.put contents⟩
  | insert _ small result ih =>
    obtain ⟨after, isInsert, inv, contents⟩ := insert_spec ih.1 small _ _
    cases Option.mem_unique isInsert result
    exact ⟨inv, ih.2.put contents⟩
  | removeAndGet _ result ih =>
    obtain ⟨after, isRemove, inv, contents⟩ := removeAndGet_spec ih.1 _
    cases Option.mem_unique isRemove result
    exact ⟨inv, ih.2.removed contents⟩
  | @remove _ _ _ key _ result ih =>
    obtain ⟨after, isRemove, inv, contents⟩ := removeAndGet_spec ih.1 key
    rw [LinearMutableMap.remove, isRemove] at result
    cases result
    exact ⟨inv, ih.2.removed contents⟩
  | updateByIter _ _ output result ih =>
    obtain ⟨after, isUpdate, inv, contents, -⟩ := updateByIter_spec ih.1 output _
    cases Option.mem_unique isUpdate result
    exact ⟨inv, ih.2.put contents⟩
  | realloc _ small result ih =>
    obtain ⟨after, isRealloc, inv, contents, -⟩ := realloc_spec ih.1 small
    cases Option.mem_unique isRealloc result
    exact ⟨inv, fun key => by rw [contents, ih.2 key]⟩

end Reach

/-- The entries that an iterator returns before it is done. -/
def Yields (self : LinearHashMap V) (it : Iterator V) : List (UInt64 × V) → Prop
  | [] => it.next = .done
  | (key, value) :: rest => it.next = .next key value ∧ Yields self (iterInc self it) rest

/-- The states of an iteration: the map, its history, the iterator and the keys that it has
returned.  Between increments the map may be updated through iterators. -/
inductive Iterating (self : LinearHashMap V) (history : List (Event V)) :
    LinearHashMap V → List (Event V) → SimpleIterator → List UInt64 → Prop
  | start : Iterating self history self history (simpleIterStart self) []
  | increment {now : LinearHashMap V} {events : List (Event V)} {it it' : SimpleIterator}
      {yielded : List UInt64} {key : UInt64} {value : V}
      (iterating : Iterating self history now events it yielded)
      (output : simpleIterOutput now it = some (.next key value))
      (next : simpleIterInc now it = some it') :
      Iterating self history now events it' (yielded ++ [key])
  | update {now now' : LinearHashMap V} {events : List (Event V)} {it other : SimpleIterator}
      {yielded : List UInt64} {key : UInt64} {value value' : V}
      (iterating : Iterating self history now events it yielded) (wf : WFSimpleIter now other)
      (output : simpleIterOutput now other = some (.next key value))
      (result : updateByIter now other value' = some now') :
      Iterating self history now' (.put key value' :: events) it yielded

section Iteration

variable {hash : UInt64 → UInt64} {size : Nat} {self now : LinearHashMap V}
  {history events : List (Event V)} {it : SimpleIterator} {yielded : List UInt64}

theorem yields_of_remaining {it : Iterator V} {entries : List (UInt64 × V)}
    (remaining : Remaining self it.i it.next entries) : Yields self it entries := by
  induction entries generalizing it with
  | nil =>
    cases next : it.next with
    | done => exact next
    | next key value =>
      rw [next] at remaining
      obtain ⟨rest, absurdity, -⟩ := remaining
      cases absurdity
  | cons entry rest ih =>
    obtain ⟨next, remaining'⟩ := remaining_iterInc remaining
    exact ⟨next, ih remaining'⟩

theorem Iterating.reached (reached : Reached hash size self history)
    (iterating : Iterating self history now events it yielded) : Reached hash size now events := by
  induction iterating with
  | start => exact reached
  | increment _ _ _ ih => exact ih
  | update _ wf output result ih => exact ih.updateByIter wf output result

/-- The iterator stays well formed, and its set is that of the keys it has returned. -/
theorem Iterating.inv (large : 128 ≤ size) (fits : size < 2 ^ 64)
    (reached : Reached hash size self history)
    (iterating : Iterating self history now events it yielded) :
    WFSimpleIter now it ∧ yielded.Nodup ∧ yielded.toFinset = it.s := by
  induction iterating with
  | start =>
    refine ⟨?_, List.nodup_nil, rfl⟩
    rw [simpleIterStart_eq]
    exact wfSimpleIter_setUpTo (reached.inv large fits).1
      (simpleIterToNext_position self (Nat.zero_le _))
  | @increment now events it it' yielded key value before output next ih =>
    obtain ⟨wf, distinct, returned⟩ := ih
    have inv := ((before.reached reached).inv large fits).1
    have fresh : key ∉ it.s := by
      rcases simpleIterOutput_cases wf with ⟨_, value', output', -, fresh⟩ | ⟨done, -⟩
      · cases Option.mem_unique output' output
        exact fresh
      · simp [done] at output
    have notYet : key ∉ yielded := by rwa [← List.mem_toFinset, returned]
    have next' := next
    rw [simpleIterInc_eq output] at next'
    cases next'
    refine ⟨wfSimpleIter_simpleIterInc inv wf next, ?_, ?_⟩
    · rw [List.nodup_append]
      refine ⟨distinct, List.nodup_singleton key, fun other earlier last isLast => ?_⟩
      rw [List.mem_singleton.mp isLast]
      rintro rfl
      exact notYet earlier
    · rw [List.toFinset_append, returned]
      rfl
  | @update now now' events it other yielded key value value' before wfOther output result ih =>
    obtain ⟨wf, distinct, returned⟩ := ih
    have inv := ((before.reached reached).inv large fits).1
    obtain ⟨_, isUpdate, -, -, preserved⟩ := updateByIter_spec inv output value'
    cases Option.mem_unique isUpdate result
    exact ⟨preserved it wf, distinct, returned⟩

end Iteration

/-- One iteration yields each key once, with the value it has when it is returned. -/
structure IteratesOnce (self : LinearHashMap V) (history : List (Event V)) (it : SimpleIterator)
    (yielded : List UInt64) : Prop where
  distinct : yielded.Nodup
  present : ∀ key ∈ yielded, (lastValue history key).isSome
  length_le : yielded.length ≤ self.count
  output : (∃ key value, simpleIterOutput self it = some (.next key value) ∧
      key ∉ yielded ∧ lastValue history key = some value ∧ (simpleIterInc self it).isSome) ∨
    simpleIterOutput self it = some .done ∧
      ∀ key, (lastValue history key).isSome → key ∈ yielded

theorem Iterating.iteratesOnce {hash : UInt64 → UInt64} {size : Nat} {self now : LinearHashMap V}
    {history events : List (Event V)} {it : SimpleIterator} {yielded : List UInt64}
    (large : 128 ≤ size) (fits : size < 2 ^ 64) (reached : Reached hash size self history)
    (iterating : Iterating self history now events it yielded) :
    IteratesOnce now events it yielded := by
  obtain ⟨wf, distinct, returned⟩ := iterating.inv large fits reached
  obtain ⟨inv, holds⟩ := (iterating.reached reached).inv large fits
  have present : ∀ key, (lastValue events key).isSome ↔ key ∈ now.contents.support := by
    intro key
    rw [FiniteMap.mem_support, holds key]
  constructor
  case distinct => exact distinct
  case present =>
    intro key member
    rw [present]
    apply wf.returned
    rwa [← returned, List.mem_toFinset]
  case length_le =>
    rw [← List.toFinset_card_of_nodup distinct, returned, ← inv.card]
    exact Finset.card_le_card wf.returned
  case output =>
    rcases simpleIterOutput_cases wf with ⟨key, value, output, found, _⟩ | ⟨done, all⟩
    · left
      refine ⟨key, value, output, ?_, ?_, ?_⟩
      · rwa [← List.mem_toFinset, returned]
      · rw [← holds key, found]
      · rw [simpleIterInc_eq output]
        rfl
    · right
      refine ⟨done, fun key isSome => ?_⟩
      rw [← List.mem_toFinset, returned, all]
      exact (present key).mp isSome

/-- For every hash function and history, lookups, insertions and removals return the last value, the
count is the number of keys, every probe ends, and an iteration returns every key once with its
value. -/
theorem hashMap_follows_history (hash : UInt64 → UInt64) {size : Nat} (large : 128 ≤ size)
    (fits : size < 2 ^ 64) {self : LinearHashMap V} {history : List (Event V)}
    (reached : Reached hash size self history) :
    (∀ key, get hash self key = some (lastValue history key)) ∧
    (∀ key, (probe hash self.underlying key).isSome) ∧
    (self.count < 2 ^ 61 → ∀ key value,
      (∃ self', insertAndGetOld hash self key value = some (self', lastValue history key)) ∧
      (insert hash self key value).isSome) ∧
    (∀ key, (∃ self', removeAndGet hash self key = some (self', lastValue history key)) ∧
      (remove hash self key).isSome) ∧
    (∀ it key value value', simpleIterOutput self it = some (.next key value) →
      (updateByIter self it value').isSome) ∧
    (self.count < 2 ^ 61 → (realloc hash self).isSome) ∧
    (∃ keys : Finset UInt64, (∀ key, key ∈ keys ↔ (lastValue history key).isSome) ∧
      self.count = keys.card) ∧
    (∃ entries, Yields self (iterStart self) entries ∧ (entries.map Prod.fst).Nodup ∧
      ∀ key value, (key, value) ∈ entries ↔ lastValue history key = some value) ∧
    (∀ now events it yielded, Iterating self history now events it yielded →
      IteratesOnce now events it yielded) := by
  obtain ⟨inv, holds⟩ := reached.inv large fits
  refine ⟨?_, ?_, ?_, ?_, ?_, ?_, ?_, ?_, ?_⟩
  · intro key
    rw [get_eq inv, holds key]
  · intro key
    obtain ⟨_, isProbe, -⟩ := exists_probe_eq inv.underlying key
    rw [isProbe]
    rfl
  · intro small key value
    obtain ⟨self', isInsert, -⟩ := insertAndGetOld_spec inv small key value
    rw [holds key] at isInsert
    exact ⟨⟨self', isInsert⟩, by simp [insert, isInsert]⟩
  · intro key
    obtain ⟨self', isRemove, -⟩ := removeAndGet_spec inv key
    rw [holds key] at isRemove
    exact ⟨⟨self', isRemove⟩, by simp [remove, isRemove]⟩
  · intro it key value value' output
    obtain ⟨self', isUpdate, -⟩ := updateByIter_spec inv output value'
    rw [isUpdate]
    rfl
  · intro small
    obtain ⟨self', isRealloc, -⟩ := realloc_spec inv small
    rw [isRealloc]
    rfl
  · refine ⟨self.contents.support, fun key => ?_, inv.card.symm⟩
    rw [FiniteMap.mem_support, holds key]
  · refine ⟨storageEntries self.underlying.storage, yields_of_remaining (remaining_iterStart self),
      nodup_storageEntries inv.underlying.keys.cantEquivocate, fun key value => ?_⟩
    rw [mem_storageEntries inv, holds key]
  · intro now events it yielded iterating
    exact iterating.iteratesOnce large fits reached

/-- Two keys with the same hash, of which the first is removed again. -/
theorem hashMap_follows_history_collision :
    ∃ self : LinearHashMap Nat,
      Reached (fun _ => 0) 128 self [.removed 1, .put 2 20, .put 1 10] ∧
      get (fun _ => 0) self 2 = some (some 20) ∧ get (fun _ => 0) self 1 = some none := by
  have created : Reached (fun _ => 0) 128 (constructor 128 : LinearHashMap Nat) [] := .constructor
  obtain ⟨one, isOne, invOne, contentsOne⟩ := insertAndGetOld_spec
    (created.inv (by decide) (by decide)).1 (by decide) 1 10
  have reachedOne := created.insertAndGetOld (by decide) isOne
  have countOne : one.count < 2 ^ 61 := by
    rw [← invOne.card, contentsOne]
    decide
  obtain ⟨_, isTwo, invTwo, -⟩ := insertAndGetOld_spec invOne countOne 2 20
  have reachedTwo := reachedOne.insertAndGetOld countOne isTwo
  obtain ⟨three, isThree, -⟩ := removeAndGet_spec invTwo 1
  have reachedThree := reachedTwo.removeAndGet isThree
  have gets := (hashMap_follows_history (fun _ => 0) (by decide) (by decide) reachedThree).1
  exact ⟨three, reachedThree, gets 2, gets 1⟩

end VerifiedBetrfs.LinearMutableMap
