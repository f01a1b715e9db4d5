import VerifiedBetrfs.KeyType
import VerifiedBetrfs.SortedSearch
import Mathlib.Order.WithBot
import Mathlib.Data.Set.Basic

/-!
# Pivot tables

Two consecutive pivots of an increasing list bound one bucket.  The operations on tables are
described by what they do to the slots.
-/

namespace VerifiedBetrfs

universe u

namespace Sequences

variable {α : Type u}

def remove (s : List α) (pos : Nat) : List α := s.take pos ++ s.drop (pos + 1)

def insert (s : List α) (a : α) (pos : Nat) : List α := s.take pos ++ [a] ++ s.drop pos

def replace1with2 (s : List α) (a b : α) (pos : Nat) : List α :=
  s.take pos ++ [a, b] ++ s.drop (pos + 1)

def replace2with1 (s : List α) (a : α) (pos : Nat) : List α :=
  s.take pos ++ [a] ++ s.drop (pos + 2)

def concat3 (a : List α) (b : α) (c : List α) : List α := a ++ [b] ++ c

end Sequences

namespace BoundedPivotsLib

open SortedSearch

/-- A key, or the element above all keys. -/
abbrev Element := WithTop Key

abbrev PivotTable := List Element

abbrev keyToElement (key : Key) : Element := key

def keysToElements (keys : List Key) : List Element := keys.map keyToElement

def numBuckets (pt : PivotTable) : Nat := pt.length - 1

/-- At least two pivots in order, all of them keys but the last. -/
structure WFPivots (pt : PivotTable) : Prop where
  sorted : pt.Pairwise (· < ·)
  areKeys : ∀ pivot ∈ pt.dropLast, pivot ≠ ⊤
  length : 2 ≤ pt.length

def ContainsAllKeys (pt : PivotTable) : Prop :=
  WFPivots pt ∧ pt[0]! = keyToElement emptyKey ∧ pt[pt.length - 1]! = ⊤

/-- The key lies between the first and the last pivot. -/
def BoundedKey (pt : PivotTable) (key : Key) : Prop :=
  pt[0]! ≤ keyToElement key ∧ keyToElement key < pt[pt.length - 1]!

instance (pt : PivotTable) (key : Key) : Decidable (BoundedKey pt key) :=
  inferInstanceAs (Decidable (_ ∧ _))

/-- A key at which a table may be cut on the right. -/
def ValidLeftCutOffKey (pt : PivotTable) (key : Key) : Prop :=
  pt[0]! < keyToElement key ∧ keyToElement key ≤ pt[pt.length - 1]!

def BoundedKeySeq (pt : PivotTable) (keys : List Key) : Prop :=
  ∀ key ∈ keys, BoundedKey pt key

/-- The bucket that a key belongs to. -/
def route (pt : PivotTable) (key : Key) : Nat := (largestLte pt (keyToElement key)).toNat

def initPivotTable : PivotTable := [keyToElement emptyKey, ⊤]

section

variable (pt : PivotTable)

def getKey (idx : Nat) : Key := pt[idx]!.untopD emptyKey

/-- The key fits before the pivot `idx`. -/
def PivotInsertable (idx : Nat) (key : Key) : Prop :=
  idx ≤ pt.length ∧
  (idx = 0 → keyToElement key < pt[0]!) ∧
  (idx = pt.length → pt[pt.length - 1]! < keyToElement key) ∧
  (0 < idx ∧ idx < pt.length →
    pt[idx - 1]! < keyToElement key ∧ keyToElement key < pt[idx]!) ∧
  (BoundedKey pt key → route pt key + 1 = idx)

def cutoffForLeft (pivot : Key) : Nat := (largestLt pt (keyToElement pivot)).toNat

/-- The part of the table before a pivot. -/
def splitLeft (pivot : Key) : PivotTable :=
  pt.take (cutoffForLeft pt pivot + 1) ++ [keyToElement pivot]

def cutoffForRight (pivot : Key) : Nat := route pt pivot

/-- The part of the table from a pivot on. -/
def splitRight (pivot : Key) : PivotTable :=
  keyToElement pivot :: pt.drop (cutoffForRight pt pivot + 1)

def pivotTableBucketKeySet (i : Nat) : Set Key := { key | BoundedKey pt key ∧ route pt key = i }

end

variable {pt : PivotTable}

theorem WFPivots.head? (wf : WFPivots pt) : pt.head? = some pt[0]! := by
  have := wf.length
  cases pt with
  | nil => simp at this
  | cons first rest => rfl

theorem WFPivots.getLast? (wf : WFPivots pt) : pt.getLast? = some pt[pt.length - 1]! := by
  have inRange : pt.length - 1 < pt.length := by
    have := wf.length
    omega
  rw [List.getLast?_eq_getElem?, getElem!_pos pt _ inRange, List.getElem?_eq_getElem inRange]

variable {idx : Nat} {element : Element} {key : Key} {count : Nat}

theorem exists_pivots (inRange : idx < numBuckets pt) :
    ∃ low high, pt[idx]? = some low ∧ pt[idx + 1]? = some high := by
  rw [numBuckets] at inRange
  exact ⟨pt[idx], pt[idx + 1], List.getElem?_eq_getElem _, List.getElem?_eq_getElem (by omega)⟩

theorem inSlot_lt_numBuckets (slot : InSlot pt idx element) : idx < numBuckets pt := by
  obtain ⟨_, _, _, atHigh, _⟩ := slot
  have := (List.getElem?_eq_some_iff.mp atHigh).1
  rw [numBuckets]
  omega

section

variable (wf : WFPivots pt)

include wf

theorem boundedKey_iff : BoundedKey pt key ↔ ∃ idx, InSlot pt idx (keyToElement key) := by
  constructor
  · rintro ⟨lower, upper⟩
    exact exists_inSlot wf.head? wf.getLast? lower upper
  · rintro ⟨idx, _, _, atLow, atHigh, lower, upper⟩
    have first : pt[0]? = some pt[0]! := List.head?_eq_getElem? ▸ wf.head?
    have last : pt[pt.length - 1]? = some pt[pt.length - 1]! :=
      List.getLast?_eq_getElem? ▸ wf.getLast?
    have inRange := (List.getElem?_eq_some_iff.mp atHigh).1
    exact ⟨le_trans (getElem?_le wf.sorted first atLow (by omega)) lower,
      lt_of_lt_of_le upper (getElem?_le wf.sorted atHigh last (by omega))⟩

theorem routed_iff : BoundedKey pt key ∧ route pt key = idx ↔ InSlot pt idx (keyToElement key) := by
  constructor
  · rintro ⟨bounded, rfl⟩
    obtain ⟨idx, slot⟩ := (boundedKey_iff wf).mp bounded
    have position := largestLte_eq wf.sorted slot
    rw [route, position]
    exact slot
  · intro slot
    refine ⟨(boundedKey_iff wf).mpr ⟨idx, slot⟩, ?_⟩
    rw [route, largestLte_eq wf.sorted slot]
    exact Int.toNat_natCast idx

theorem mem_pivotTableBucketKeySet :
    key ∈ pivotTableBucketKeySet pt idx ↔ InSlot pt idx (keyToElement key) :=
  routed_iff wf

omit wf in
/-- Only the last element of a sorted table can be the one above all keys. -/
theorem wfPivots_of_sorted (sorted : pt.Pairwise (· < ·)) (length : 2 ≤ pt.length) :
    WFPivots pt := by
  refine ⟨sorted, fun pivot member => ?_, length⟩
  have nonempty : pt ≠ [] := by
    rintro rfl
    simp at length
  rw [← List.dropLast_concat_getLast nonempty, List.pairwise_append] at sorted
  exact ne_top_of_lt (sorted.2.2 pivot member (pt.getLast nonempty) (by simp))

omit wf in
theorem wf_initPivotTable : WFPivots initPivotTable := by
  refine wfPivots_of_sorted ?_ (by simp [initPivotTable])
  simp [initPivotTable]

theorem WFPivots.take (positive : 0 < count) (bound : count < pt.length) :
    WFPivots (pt.take (count + 1)) := by
  refine wfPivots_of_sorted (wf.sorted.sublist (List.take_sublist _ _)) ?_
  rw [List.length_take]
  omega

theorem WFPivots.drop (bound : count < numBuckets pt) : WFPivots (pt.drop count) := by
  refine wfPivots_of_sorted (wf.sorted.sublist (List.drop_sublist _ _)) ?_
  rw [numBuckets] at bound
  rw [List.length_drop]
  omega

theorem WFPivots.remove (idx : Nat) (more : 2 < pt.length) :
    WFPivots (Sequences.remove pt idx) := by
  have sublist : (Sequences.remove pt idx).Sublist pt := by
    conv_rhs => rw [← List.take_append_drop idx pt]
    exact (List.Sublist.refl _).append (List.drop_sublist_drop_left _ (by omega))
  refine wfPivots_of_sorted (wf.sorted.sublist sublist) ?_
  rw [Sequences.remove, List.length_append, List.length_take, List.length_drop]
  omega

end

variable {pivot : Key}

theorem WFPivots.insert (wf : WFPivots pt) {slot : Nat} {low high : Element}
    (atLow : pt[slot]? = some low) (atHigh : pt[slot + 1]? = some high)
    (lower : low < keyToElement pivot) (upper : keyToElement pivot < high) :
    WFPivots (Sequences.insert pt (keyToElement pivot) (slot + 1)) := by
  have below := lt_of_mem_take wf.sorted atLow lower
  have above : ∀ element ∈ pt.drop (slot + 1), keyToElement pivot < element :=
    fun element member => lt_of_lt_of_le upper
      (le_of_mem_drop wf.sorted atHigh le_rfl element member)
  refine wfPivots_of_sorted ?_ ?_
  · rw [Sequences.insert, List.append_assoc, List.pairwise_append, List.singleton_append,
      List.pairwise_cons]
    refine ⟨wf.sorted.sublist (List.take_sublist _ _),
      ⟨above, wf.sorted.sublist (List.drop_sublist _ _)⟩, fun first inFirst second inSecond => ?_⟩
    rcases List.mem_cons.mp inSecond with rfl | inRest
    · exact below first inFirst
    · exact lt_trans (below first inFirst) (above second inRest)
  · have := wf.length
    simp only [Sequences.insert, List.length_append, List.length_take, List.length_drop,
      List.length_singleton]
    omega

theorem WFPivots.concat {left right : PivotTable} (wfLeft : WFPivots left)
    (wfRight : WFPivots right) {pivot : Element} (atLast : left.getLast? = some pivot)
    (atFirst : right.head? = some pivot) :
    WFPivots (Sequences.concat3 left.dropLast pivot right.tail) := by
  have leftParts : left.dropLast ++ [pivot] = left := List.dropLast_append_getLast? pivot atLast
  have rightParts : pivot :: right.tail = right := List.cons_head?_tail atFirst
  have leftSorted := wfLeft.sorted
  have rightSorted := wfRight.sorted
  rw [← leftParts, List.pairwise_append] at leftSorted
  rw [← rightParts] at rightSorted
  refine wfPivots_of_sorted ?_ ?_
  · rw [Sequences.concat3, List.append_assoc, List.singleton_append, List.pairwise_append]
    refine ⟨leftSorted.1, rightSorted, fun first inFirst second inSecond => ?_⟩
    have below : first < pivot := leftSorted.2.2 first inFirst pivot (by simp)
    rcases List.mem_cons.mp inSecond with rfl | inRest
    · exact below
    · exact lt_trans below (List.rel_of_pairwise_cons rightSorted inRest)
  · have := wfLeft.length
    rw [Sequences.concat3, leftParts, List.length_append]
    omega

section

variable (wf : WFPivots pt)

include wf

section

variable (valid : ValidLeftCutOffKey pt pivot)

include valid

theorem exists_cutoffForLeft : ∃ low high, pt[cutoffForLeft pt pivot]? = some low ∧
      pt[cutoffForLeft pt pivot + 1]? = some high ∧
      low < keyToElement pivot ∧ keyToElement pivot ≤ high := by
  obtain ⟨idx, low, high, atLow, atHigh, lower, upper, position⟩ :=
    exists_largestLt wf.sorted wf.head? wf.getLast? valid.1 valid.2
  have cutoff : cutoffForLeft pt pivot = idx := by
    rw [cutoffForLeft, position]
    exact Int.toNat_natCast idx
  rw [cutoff]
  exact ⟨low, high, atLow, atHigh, lower, upper⟩

theorem inSlot_splitLeft : InSlot (splitLeft pt pivot) idx element ↔
      InSlot pt idx element ∧ element < keyToElement pivot := by
  obtain ⟨_, _, atLow, atHigh, lower, upper⟩ := exists_cutoffForLeft wf valid
  exact inSlot_cutLeft wf.sorted atLow atHigh lower upper

theorem WFPivots.splitLeft : WFPivots (splitLeft pt pivot) := by
  obtain ⟨_, _, atLow, _, lower, _⟩ := exists_cutoffForLeft wf valid
  refine wfPivots_of_sorted ?_ ?_
  · rw [BoundedPivotsLib.splitLeft, List.pairwise_append]
    refine ⟨wf.sorted.sublist (List.take_sublist _ _), List.pairwise_singleton _ _, ?_⟩
    intro first inFirst second inSecond
    rw [List.mem_singleton.mp inSecond]
    exact lt_of_mem_take wf.sorted atLow lower first inFirst
  · have := (List.getElem?_eq_some_iff.mp atLow).1
    simp only [BoundedPivotsLib.splitLeft, List.length_append, List.length_take,
      List.length_singleton]
    omega

end

theorem inSlot_cutoffForRight (bounded : BoundedKey pt pivot) :
    InSlot pt (cutoffForRight pt pivot) (keyToElement pivot) :=
  (routed_iff wf).mp ⟨bounded, rfl⟩

theorem inSlot_splitRight (bounded : BoundedKey pt pivot) :
    InSlot (splitRight pt pivot) idx element ↔
      InSlot pt (cutoffForRight pt pivot + idx) element ∧ keyToElement pivot ≤ element :=
  inSlot_cutRight wf.sorted (inSlot_cutoffForRight wf bounded)

theorem WFPivots.splitRight (bounded : BoundedKey pt pivot) : WFPivots (splitRight pt pivot) := by
  obtain ⟨_, _, _, atHigh, _, upper⟩ := inSlot_cutoffForRight wf bounded
  refine wfPivots_of_sorted ?_ ?_
  · rw [BoundedPivotsLib.splitRight, List.pairwise_cons]
    refine ⟨fun element member => ?_, wf.sorted.sublist (List.drop_sublist _ _)⟩
    exact lt_of_lt_of_le upper (le_of_mem_drop wf.sorted atHigh le_rfl element member)
  · have := (List.getElem?_eq_some_iff.mp atHigh).1
    simp only [BoundedPivotsLib.splitRight, List.length_cons, List.length_drop]
    omega

end

end BoundedPivotsLib

end VerifiedBetrfs
