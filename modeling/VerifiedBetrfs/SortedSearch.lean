import Mathlib.Order.Lattice
import Mathlib.Data.List.Basic

/-!
# Searching a sorted list

Scans, the slots between the elements of a sorted list, and binary search.
-/

namespace VerifiedBetrfs.SortedSearch

universe u

variable {α : Type u}

/-- The index of the last element of the leading run that passes the test, or `-1`. -/
def lastWhile (test : α → Bool) : List α → Int
  | [] => -1
  | first :: rest => if test first then 1 + lastWhile test rest else -1

/-- The test changes from true to false right after an index. -/
def ChangesAfter (test : α → Bool) (run : List α) (idx : Nat) : Prop :=
  ∃ low high, run[idx]? = some low ∧ run[idx + 1]? = some high ∧
    test low = true ∧ test high = false

variable {run : List α} {idx : Nat} {test : α → Bool} {first last key : α} {count : Nat}

theorem lastWhile_eq (downward : run.Pairwise fun a b => test b = true → test a = true)
    (changes : ChangesAfter test run idx) : lastWhile test run = idx := by
  induction run generalizing idx with
  | nil =>
    obtain ⟨low, high, atLow, _⟩ := changes
    simp at atLow
  | cons first rest ih =>
    obtain ⟨low, high, atLow, atHigh, lowPasses, highFails⟩ := changes
    cases idx with
    | zero =>
      cases rest with
      | nil => simp at atHigh
      | cons second rest =>
        simp only [List.getElem?_cons_zero, Option.some.injEq] at atLow
        simp only [Nat.zero_add, List.getElem?_cons_succ, List.getElem?_cons_zero,
          Option.some.injEq] at atHigh
        subst atLow atHigh
        simp [lastWhile, lowPasses, highFails]
    | succ idx =>
      have firstPasses : test first = true :=
        List.rel_of_pairwise_cons downward (List.mem_of_getElem? atLow) lowPasses
      have restEnd := ih downward.of_cons ⟨low, high, atLow, atHigh, lowPasses, highFails⟩
      rw [lastWhile, if_pos firstPasses, restEnd]
      omega

theorem exists_changesAfter (atFirst : run.head? = some first) (atLast : run.getLast? = some last)
    (firstPasses : test first = true) (lastFails : test last = false) :
    ∃ idx, ChangesAfter test run idx := by
  induction run generalizing first with
  | nil => simp at atFirst
  | cons head rest ih =>
    simp only [List.head?_cons, Option.some.injEq] at atFirst
    subst atFirst
    cases rest with
    | nil =>
      simp only [List.getLast?_singleton, Option.some.injEq] at atLast
      subst atLast
      simp [firstPasses] at lastFails
    | cons second rest =>
      cases secondTest : test second with
      | false => exact ⟨0, head, second, rfl, rfl, firstPasses, secondTest⟩
      | true =>
        obtain ⟨idx, low, high, atLow, atHigh, tests⟩ := ih rfl atLast secondTest
        exact ⟨idx + 1, low, high, by simpa using atLow, by simpa using atHigh, tests⟩

variable [LinearOrder α]

/-- The index of the last element that is at most the needle. -/
def largestLte (run : List α) (needle : α) : Int :=
  lastWhile (fun element => !decide (needle < element)) run

/-- The index of the last element that is below the needle. -/
def largestLt (run : List α) (needle : α) : Int :=
  lastWhile (fun element => !decide (needle ≤ element)) run

/-- The needle is at or after one element and before the next one. -/
def InSlot (run : List α) (idx : Nat) (needle : α) : Prop :=
  ∃ low high, run[idx]? = some low ∧ run[idx + 1]? = some high ∧
    low ≤ needle ∧ needle < high

theorem inSlot_iff_changesAfter {needle : α} :
    InSlot run idx needle ↔ ChangesAfter (fun element => !decide (needle < element)) run idx := by
  simp [InSlot, ChangesAfter]

theorem largestLte_eq {needle : α} (sorted : run.Pairwise (· < ·)) (slot : InSlot run idx needle) :
    largestLte run needle = idx := by
  refine lastWhile_eq ?_ (inSlot_iff_changesAfter.mp slot)
  refine sorted.imp fun {first second} less passes => ?_
  simp only [Bool.not_eq_true', decide_eq_false_iff_not, not_lt] at passes ⊢
  exact le_of_lt (lt_of_lt_of_le less passes)

theorem exists_inSlot {needle : α} (atFirst : run.head? = some first)
    (atLast : run.getLast? = some last) (lower : first ≤ needle) (upper : needle < last) :
    ∃ idx, InSlot run idx needle := by
  have crossing : ∃ idx, ChangesAfter (fun element => !decide (needle < element)) run idx :=
    exists_changesAfter atFirst atLast (by simpa) (by simpa)
  exact crossing.imp fun _ changes => inSlot_iff_changesAfter.mpr changes

section

variable (sorted : run.Pairwise (· < ·))

include sorted

theorem largestLt_eq {needle low high : α} (atLow : run[idx]? = some low)
    (atHigh : run[idx + 1]? = some high) (lower : low < needle) (upper : needle ≤ high) :
    largestLt run needle = idx := by
  refine lastWhile_eq ?_ ⟨low, high, atLow, atHigh, by simpa, by simpa⟩
  refine sorted.imp fun {first second} less passes => ?_
  simp only [Bool.not_eq_true', decide_eq_false_iff_not, not_le] at passes ⊢
  exact lt_trans less passes

theorem exists_largestLt {needle first last : α} (atFirst : run.head? = some first)
    (atLast : run.getLast? = some last) (lower : first < needle) (upper : needle ≤ last) :
    ∃ (idx : Nat) (low high : α), run[idx]? = some low ∧ run[idx + 1]? = some high ∧
      low < needle ∧ needle ≤ high ∧ largestLt run needle = idx := by
  have crossing : ∃ idx, ChangesAfter (fun element => !decide (needle ≤ element)) run idx :=
    exists_changesAfter atFirst atLast (by simpa) (by simpa)
  obtain ⟨idx, low, high, atLow, atHigh, lowTest, highTest⟩ := crossing
  have below : low < needle := by simpa using lowTest
  have above : needle ≤ high := by simpa using highTest
  exact ⟨idx, low, high, atLow, atHigh, below, above, largestLt_eq sorted atLow atHigh below above⟩

theorem getElem?_lt {idx other : Nat} {low high : α} (atLow : run[idx]? = some low)
    (atHigh : run[other]? = some high) (less : idx < other) : low < high := by
  obtain ⟨inRange, rfl⟩ := List.getElem?_eq_some_iff.mp atLow
  obtain ⟨inRange', rfl⟩ := List.getElem?_eq_some_iff.mp atHigh
  exact List.pairwise_iff_getElem.mp sorted idx other inRange inRange' less

theorem getElem?_le {idx other : Nat} {low high : α} (atLow : run[idx]? = some low)
    (atHigh : run[other]? = some high) (le : idx ≤ other) : low ≤ high := by
  rcases Nat.lt_or_eq_of_le le with less | rfl
  · exact le_of_lt (getElem?_lt sorted atLow atHigh less)
  · exact le_of_eq (Option.mem_unique atLow atHigh)

end

theorem inSlot_cons_succ {rest : List α} {needle : α} :
    InSlot (first :: rest) (idx + 1) needle ↔ InSlot rest idx needle :=
  Iff.rfl

theorem inSlot_take {idx : Nat} {needle : α} :
    InSlot (run.take (count + 1)) idx needle ↔ idx < count ∧ InSlot run idx needle := by
  constructor
  · rintro ⟨low, high, atLow, atHigh, bounds⟩
    rw [List.getElem?_take] at atLow atHigh
    have inRange : idx < count := by
      by_contra beyond
      rw [if_neg (by omega)] at atHigh
      cases atHigh
    rw [if_pos (by omega)] at atLow atHigh
    exact ⟨inRange, low, high, atLow, atHigh, bounds⟩
  · rintro ⟨inRange, low, high, atLow, atHigh, bounds⟩
    refine ⟨low, high, ?_, ?_, bounds⟩
    · rw [List.getElem?_take, if_pos (by omega), atLow]
    · rw [List.getElem?_take, if_pos (by omega), atHigh]

theorem inSlot_drop {idx : Nat} {needle : α} :
    InSlot (run.drop count) idx needle ↔ InSlot run (count + idx) needle := by
  simp only [InSlot, List.getElem?_drop, Nat.add_assoc]

variable {pivot low high needle : α}

section

variable (sorted : run.Pairwise (· < ·))

include sorted

/-- Cutting a list before a needle keeps the part of each slot below the
needle. -/
theorem inSlot_cutLeft {cut idx : Nat} (atLow : run[cut]? = some low)
    (atHigh : run[cut + 1]? = some high) (lower : low < pivot) (upper : pivot ≤ high) :
    InSlot (run.take (cut + 1) ++ [pivot]) idx needle ↔ InSlot run idx needle ∧ needle < pivot := by
  have length : (run.take (cut + 1)).length = cut + 1 := by
    have := (List.getElem?_eq_some_iff.mp atLow).1
    rw [List.length_take]
    omega
  rcases Nat.lt_trichotomy idx cut with before | rfl | after
  · constructor
    · rintro ⟨a, b, atA, atB, bounds⟩
      rw [List.getElem?_append_left (by omega), List.getElem?_take, if_pos (by omega)] at atA atB
      exact ⟨⟨a, b, atA, atB, bounds⟩, lt_trans (lt_of_lt_of_le bounds.2
        (getElem?_le sorted atB atLow (by omega))) lower⟩
    · rintro ⟨⟨a, b, atA, atB, bounds⟩, _⟩
      refine ⟨a, b, ?_, ?_, bounds⟩
      · rw [List.getElem?_append_left (by omega), List.getElem?_take, if_pos (by omega), atA]
      · rw [List.getElem?_append_left (by omega), List.getElem?_take, if_pos (by omega), atB]
  · have atPivot : (run.take (idx + 1) ++ [pivot])[idx + 1]? = some pivot := by
      rw [List.getElem?_append_right (by omega), length]
      simp
    have atLow' : (run.take (idx + 1) ++ [pivot])[idx]? = some low := by
      rw [List.getElem?_append_left (by omega), List.getElem?_take, if_pos (by omega), atLow]
    constructor
    · rintro ⟨a, b, atA, atB, aLe, ltB⟩
      obtain rfl : low = a := Option.mem_unique atLow' atA
      obtain rfl : pivot = b := Option.mem_unique atPivot atB
      exact ⟨⟨low, high, atLow, atHigh, aLe, lt_of_lt_of_le ltB upper⟩, ltB⟩
    · rintro ⟨⟨a, b, atA, atB, aLe, ltB⟩, below⟩
      obtain rfl : low = a := Option.mem_unique atLow atA
      exact ⟨low, pivot, atLow', atPivot, aLe, below⟩
  · constructor
    · rintro ⟨a, b, atA, atB, bounds⟩
      have inRange := (List.getElem?_eq_some_iff.mp atB).1
      simp only [List.length_append, length, List.length_singleton] at inRange
      omega
    · rintro ⟨⟨a, b, atA, atB, aLe, ltB⟩, below⟩
      have := getElem?_le sorted atHigh atA (by omega)
      exact absurd (lt_of_lt_of_le below (le_trans upper this)) (not_lt.mpr aLe)

/-- Cutting a list after a needle keeps the part of each slot from the needle
on. -/
theorem inSlot_cutRight {cut idx : Nat} (slot : InSlot run cut pivot) :
    InSlot (pivot :: run.drop (cut + 1)) idx needle ↔
      InSlot run (cut + idx) needle ∧ pivot ≤ needle := by
  obtain ⟨low, high, atLow, atHigh, lower, upper⟩ := slot
  cases idx with
  | zero =>
    have atHigh' : (pivot :: run.drop (cut + 1))[0 + 1]? = some high := by
      simpa [List.getElem?_drop] using atHigh
    constructor
    · rintro ⟨a, b, atA, atB, aLe, ltB⟩
      obtain rfl : pivot = a := by simpa using atA
      obtain rfl : high = b := Option.mem_unique atHigh' atB
      exact ⟨⟨low, high, atLow, atHigh, le_trans lower aLe, ltB⟩, aLe⟩
    · rintro ⟨⟨a, b, atA, atB, aLe, ltB⟩, above⟩
      obtain rfl : high = b := Option.mem_unique atHigh atB
      exact ⟨pivot, high, rfl, atHigh', above, ltB⟩
  | succ idx =>
    have shift : InSlot (pivot :: run.drop (cut + 1)) (idx + 1) needle ↔
        InSlot run (cut + (idx + 1)) needle := by
      have rearranged : cut + (idx + 1) = cut + 1 + idx := by omega
      rw [inSlot_cons_succ, inSlot_drop, rearranged]
    rw [shift]
    refine (and_iff_left_of_imp ?_).symm
    rintro ⟨a, b, atA, atB, aLe, ltB⟩
    exact le_of_lt (lt_of_lt_of_le upper (le_trans (getElem?_le sorted atHigh atA (by omega)) aLe))

section

variable {slot idx : Nat} (atLow : run[slot]? = some low) (atHigh : run[slot + 1]? = some high)
  (lower : low < pivot) (upper : pivot < high)

include atLow atHigh lower upper

/-- Inserting a pivot into a slot splits the slot: the slots up to it keep what
lies below the pivot. -/
theorem inSlot_insert_left (here : idx ≤ slot) :
    InSlot (run.take (slot + 1) ++ [pivot] ++ run.drop (slot + 1)) idx needle ↔
      InSlot run idx needle ∧ needle < pivot := by
  have length : (run.take (slot + 1) ++ [pivot]).length = slot + 1 + 1 := by
    have := (List.getElem?_eq_some_iff.mp atLow).1
    simp only [List.length_append, List.length_take, List.length_singleton]
    omega
  have leftPart : (run.take (slot + 1) ++ [pivot] ++ run.drop (slot + 1)).take (slot + 1 + 1) =
      run.take (slot + 1) ++ [pivot] := List.take_left' length
  rw [← inSlot_cutLeft sorted atLow atHigh lower (le_of_lt upper)]
  refine ((leftPart ▸ inSlot_take).trans (and_iff_right ?_)).symm
  omega

theorem inSlot_insert_right (here : slot ≤ idx) :
    InSlot (run.take (slot + 1) ++ [pivot] ++ run.drop (slot + 1)) (idx + 1) needle ↔
      InSlot run idx needle ∧ pivot ≤ needle := by
  have length : (run.take (slot + 1)).length = slot + 1 := by
    have := (List.getElem?_eq_some_iff.mp atLow).1
    rw [List.length_take]
    omega
  have inSlot : InSlot run slot pivot := ⟨low, high, atLow, atHigh, le_of_lt lower, upper⟩
  have rightPart : (run.take (slot + 1) ++ [pivot] ++ run.drop (slot + 1)).drop (slot + 1) =
      pivot :: run.drop (slot + 1) := by
    rw [List.append_assoc]
    exact List.drop_left' length
  obtain ⟨offset, rfl⟩ := Nat.exists_eq_add_of_le here
  have position : slot + offset + 1 = slot + 1 + offset := by omega
  rw [← inSlot_cutRight sorted inSlot, ← rightPart, inSlot_drop, position]

end

end

/-- Every element before the index is below the key and no later element is. -/
structure IsFirstGte (s : List α) (key : α) (idx : Nat) : Prop where
  bound : idx ≤ s.length
  before : ∀ element ∈ s.take idx, element < key
  after : ∀ element ∈ s.drop idx, key ≤ element

def binarySearchIndexOfFirstKeyGteIter (s : List α) (key : α) (lo hi : Nat) : Nat :=
  if lo + 1 < hi then
    let mid := (lo + hi) / 2
    if s[mid - 1]?.any (· < key) then
      binarySearchIndexOfFirstKeyGteIter s key mid hi
    else
      binarySearchIndexOfFirstKeyGteIter s key lo mid
  else
    lo
termination_by hi - lo

/-- The index of the first element of a sorted list that is at least the key. -/
def binarySearchIndexOfFirstKeyGte (s : List α) (key : α) : Nat :=
  binarySearchIndexOfFirstKeyGteIter s key 0 (s.length + 1)

variable {s : List α}

theorem lt_of_mem_take {pivot : α} (sorted : s.Pairwise (· < ·)) (atIdx : s[idx]? = some pivot)
    (less : pivot < key) : ∀ element ∈ s.take (idx + 1), element < key := by
  intro element member
  obtain ⟨other, _, rfl⟩ := List.mem_take_iff_getElem.mp member
  obtain ⟨inRange, rfl⟩ := List.getElem?_eq_some_iff.mp atIdx
  rcases Nat.lt_or_eq_of_le (show other ≤ idx by omega) with earlier | rfl
  · exact lt_trans (List.pairwise_iff_getElem.mp sorted other idx _ inRange earlier) less
  · exact less

theorem le_of_mem_drop {pivot : α} (sorted : s.Pairwise (· < ·)) (atIdx : s[idx]? = some pivot)
    (le : key ≤ pivot) : ∀ element ∈ s.drop idx, key ≤ element := by
  intro element member
  obtain ⟨inRange, rfl⟩ := List.getElem?_eq_some_iff.mp atIdx
  obtain ⟨offset, _, rfl⟩ := List.mem_drop_iff_getElem.mp member
  rcases Nat.eq_zero_or_pos offset with rfl | positive
  · exact le
  · exact le_trans le (le_of_lt
      (List.pairwise_iff_getElem.mp sorted idx (idx + offset) inRange _ (by omega)))

/-- The binary search for the end of the elements that pass a test, which are the first ones. -/
def partitionSearch (test : α → Bool) (s : List α) (lo hi : Nat) : Nat :=
  if lo + 1 < hi then
    let mid := (lo + hi) / 2
    if s[mid - 1]?.any test then
      partitionSearch test s mid hi
    else
      partitionSearch test s lo mid
  else
    lo
termination_by hi - lo

omit [LinearOrder α] in
theorem partitionSearch_spec {lo hi : Nat}
    (split : s.Pairwise fun first second => test second → test first) (order : lo < hi)
    (bound : hi ≤ s.length + 1) (before : ∀ element ∈ s.take lo, test element)
    (after : ∀ element ∈ s.drop (hi - 1), ¬test element) :
    partitionSearch test s lo hi ≤ s.length ∧
      (∀ element ∈ s.take (partitionSearch test s lo hi), test element) ∧
      ∀ element ∈ s.drop (partitionSearch test s lo hi), ¬test element := by
  induction lo, hi using partitionSearch.induct test s with
  | case1 lo hi apart mid passes ih =>
    rw [partitionSearch, if_pos apart, if_pos passes]
    obtain ⟨_, atMid, passes⟩ := (Option.any_eq_true _ _).mp passes
    obtain ⟨inRange, rfl⟩ := List.getElem?_eq_some_iff.mp atMid
    refine ih (by omega) bound (fun element member => ?_) after
    obtain ⟨other, _, rfl⟩ := List.mem_take_iff_getElem.mp member
    rcases Nat.lt_or_eq_of_le (show other ≤ mid - 1 by omega) with earlier | same
    · exact List.pairwise_iff_getElem.mp split other (mid - 1) _ inRange earlier passes
    · simpa only [same] using passes
  | case2 lo hi apart mid fails ih =>
    rw [partitionSearch, if_pos apart, if_neg fails]
    have inRange : mid - 1 < s.length := by omega
    have notPasses : ¬test s[mid - 1] := by
      rw [List.getElem?_eq_getElem inRange] at fails
      simpa using fails
    refine ih (by omega) (by omega) before (fun element member passes => ?_)
    obtain ⟨offset, _, rfl⟩ := List.mem_drop_iff_getElem.mp member
    rcases Nat.eq_zero_or_pos offset with rfl | positive
    · exact notPasses passes
    · exact notPasses (List.pairwise_iff_getElem.mp split (mid - 1) (mid - 1 + offset) inRange _
        (by omega) passes)
  | case3 lo hi together =>
    rw [partitionSearch, if_neg together]
    have same : hi - 1 = lo := by omega
    rw [same] at after
    exact ⟨by omega, before, after⟩

omit [LinearOrder α] in
theorem partitionSearch_whole (split : s.Pairwise fun first second => test second → test first) :
    partitionSearch test s 0 (s.length + 1) ≤ s.length ∧
      (∀ element ∈ s.take (partitionSearch test s 0 (s.length + 1)), test element) ∧
      ∀ element ∈ s.drop (partitionSearch test s 0 (s.length + 1)), ¬test element := by
  refine partitionSearch_spec split (by omega) (Nat.le_refl _) ?_ ?_
  · simp
  · simp

theorem binarySearchIndexOfFirstKeyGteIter_eq (s : List α) (key : α) (lo hi : Nat) :
    binarySearchIndexOfFirstKeyGteIter s key lo hi =
      partitionSearch (fun element => element < key) s lo hi := by
  induction lo, hi using partitionSearch.induct (fun element => element < key) s with
  | case1 lo hi apart mid passes ih =>
    rw [binarySearchIndexOfFirstKeyGteIter, partitionSearch, if_pos apart, if_pos apart,
      if_pos passes, if_pos passes]
    exact ih
  | case2 lo hi apart mid fails ih =>
    rw [binarySearchIndexOfFirstKeyGteIter, partitionSearch, if_pos apart, if_pos apart,
      if_neg fails, if_neg fails]
    exact ih
  | case3 lo hi together =>
    rw [binarySearchIndexOfFirstKeyGteIter, partitionSearch, if_neg together, if_neg together]

/-- Every element before the index is at most the key and every later element is above it. -/
structure IsFirstGt (s : List α) (key : α) (idx : Nat) : Prop where
  bound : idx ≤ s.length
  before : ∀ element ∈ s.take idx, element ≤ key
  after : ∀ element ∈ s.drop idx, key < element

def binarySearchIndexOfFirstKeyGtIter (s : List α) (key : α) (lo hi : Nat) : Nat :=
  partitionSearch (fun element => element ≤ key) s lo hi

/-- The index of the first element of a sorted list that is above the key. -/
def binarySearchIndexOfFirstKeyGt (s : List α) (key : α) : Nat :=
  binarySearchIndexOfFirstKeyGtIter s key 0 (s.length + 1)

theorem isFirstGt_binarySearch (sorted : s.Pairwise (· < ·)) (key : α) :
    IsFirstGt s key (binarySearchIndexOfFirstKeyGt s key) := by
  have split : s.Pairwise fun first second => decide (second ≤ key) → decide (first ≤ key) := by
    apply sorted.imp
    intro first second less le
    rw [decide_eq_true_eq] at le ⊢
    exact le_trans (le_of_lt less) le
  obtain ⟨bound, before, after⟩ := partitionSearch_whole split
  refine ⟨bound, fun element member => ?_, fun element member => ?_⟩
  · simpa using before element member
  · simpa using after element member

theorem isFirstGte_binarySearch (sorted : s.Pairwise (· < ·)) (key : α) :
    IsFirstGte s key (binarySearchIndexOfFirstKeyGte s key) := by
  have split : s.Pairwise fun first second => decide (second < key) → decide (first < key) := by
    apply sorted.imp
    intro first second less below
    rw [decide_eq_true_eq] at below ⊢
    exact lt_trans less below
  rw [binarySearchIndexOfFirstKeyGte, binarySearchIndexOfFirstKeyGteIter_eq]
  obtain ⟨bound, before, after⟩ := partitionSearch_whole split
  refine ⟨bound, fun element member => ?_, fun element member => ?_⟩
  · simpa using before element member
  · simpa using after element member

theorem IsFirstGte.mono {key' : α} {idx idx' : Nat} (first : IsFirstGte s key idx)
    (first' : IsFirstGte s key' idx') (le : key ≤ key') : idx ≤ idx' := by
  by_contra less
  have inRange : idx' < s.length := by
    have := first.bound
    omega
  have below : s[idx'] < key := first.before _ (List.mem_take_iff_getElem.mpr ⟨idx', by omega, rfl⟩)
  have above : key' ≤ s[idx'] := first'.after _ (List.mem_drop_iff_getElem.mpr ⟨0, by omega, rfl⟩)
  exact absurd (lt_of_lt_of_le below le) (not_lt.mpr above)

end VerifiedBetrfs.SortedSearch
