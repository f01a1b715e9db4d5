import Mathlib.Data.List.Basic

/-!
# Cyclic ranges of a list

A range starts at a cell, goes on to the end of the list and may come back to its beginning once.
-/

namespace VerifiedBetrfs.Cyclic

universe u

/-- The cell that is `span` cells after `start`. -/
def posAdd (size start span : Nat) : Nat :=
  if size ≤ start + span then start + span - size else start + span

/-- The range of `len` cells from `start` on contains the cell. -/
def Contains (size start len cell : Nat) : Prop :=
  (start ≤ cell ∧ cell < start + len) ∨ (start ≤ cell + size ∧ cell + size < start + len)

section Positions

variable {size start : Nat}

theorem posAdd_zero (startLt : start < size) : posAdd size start 0 = start := by
  rw [posAdd, if_neg (by omega), Nat.add_zero]

theorem posAdd_lt {span : Nat} (startLt : start < size) (spanLe : span ≤ size) :
    posAdd size start span < size := by
  rw [posAdd]
  split <;> omega

theorem posAdd_posAdd {first second : Nat} (startLt : start < size)
    (spanLe : first + second ≤ size) :
    posAdd size (posAdd size start first) second = posAdd size start (first + second) := by
  simp only [posAdd]
  split <;> split <;> split <;> omega

theorem posAdd_inj {i j : Nat} (iLt : i < size) (jLt : j < size)
    (same : posAdd size start i = posAdd size start j) : i = j := by
  simp only [posAdd] at same
  split at same <;> split at same <;> omega

theorem contains_iff_exists {len cell : Nat} (startLt : start < size) (cellLt : cell < size) :
    Contains size start len cell ↔ ∃ i < len, posAdd size start i = cell := by
  constructor
  · rintro (⟨lower, upper⟩ | ⟨lower, upper⟩)
    · refine ⟨cell - start, by omega, ?_⟩
      rw [posAdd, if_neg (by omega)]
      omega
    · refine ⟨cell + size - start, by omega, ?_⟩
      rw [posAdd, if_pos (by omega)]
      omega
  · rintro ⟨i, _, rfl⟩
    simp only [Contains, posAdd]
    split <;> omega

end Positions

section Slices

variable {α : Type u}

def slice (cells : List α) (start len : Nat) : List α :=
  if start + len ≤ cells.length then (cells.drop start).take len
  else cells.drop start ++ cells.take (start + len - cells.length)

variable {cells cells' : List α} {start len : Nat}

section

variable (startLt : start < cells.length)

include startLt

theorem length_slice (lenLe : len ≤ cells.length) : (slice cells start len).length = len := by
  rw [slice]
  split
  · rw [List.length_take, List.length_drop]
    omega
  · rw [List.length_append, List.length_take, List.length_drop]
    omega

theorem getElem?_slice {i : Nat} (iLt : i < len) :
    (slice cells start len)[i]? = cells[posAdd cells.length start i]? := by
  rw [slice, posAdd]
  split
  · rw [if_neg (by omega), List.getElem?_take_of_lt iLt, List.getElem?_drop]
  · split
    · rw [List.getElem?_append_right (by rw [List.length_drop]; omega), List.length_drop,
        List.getElem?_take_of_lt (by omega)]
      congr 1
      omega
    · rw [List.getElem?_append_left (by rw [List.length_drop]; omega), List.getElem?_drop]

theorem slice_eq {values : List α} (valuesLe : values.length ≤ cells.length)
    (same : ∀ i < values.length, cells[posAdd cells.length start i]? = values[i]?) :
    slice cells start values.length = values := by
  have length := length_slice startLt valuesLe
  refine List.ext_getElem? fun i => ?_
  by_cases iLt : i < values.length
  · rw [getElem?_slice startLt iLt, same i iLt]
  · rw [List.getElem?_eq_none (by omega), List.getElem?_eq_none (by omega)]

@[simp]
theorem slice_zero : slice cells start 0 = [] :=
  List.eq_nil_of_length_eq_zero (length_slice startLt (Nat.zero_le _))

theorem slice_length : slice cells start cells.length = cells.drop start ++ cells.take start := by
  rw [slice]
  split_ifs with fits
  · obtain rfl : start = 0 := by omega
    simp
  · rw [Nat.add_sub_cancel]

theorem slice_congr (lenLe : len ≤ cells.length) (length : cells'.length = cells.length)
    (same : ∀ i < len, cells'[posAdd cells.length start i]? = cells[posAdd cells.length start i]?) :
    slice cells' start len = slice cells start len := by
  have sliceLength := length_slice startLt lenLe
  have sameCells : slice cells' start (slice cells start len).length = slice cells start len := by
    refine slice_eq (by omega) (by omega) fun i iLt => ?_
    rw [sliceLength] at iLt
    rw [length, same i iLt, getElem?_slice startLt iLt]
  rwa [sliceLength] at sameCells

theorem slice_append {first second : Nat} (lenLe : first + second ≤ cells.length) :
    slice cells start (first + second) =
      slice cells start first ++ slice cells (posAdd cells.length start first) second := by
  have midLt : posAdd cells.length start first < cells.length := posAdd_lt startLt (by omega)
  have firstLength := length_slice startLt (Nat.le_of_add_right_le lenLe)
  have secondLength :
      (slice cells (posAdd cells.length start first) second).length = second :=
    length_slice midLt (by omega)
  have length : (slice cells start first ++
      slice cells (posAdd cells.length start first) second).length = first + second := by
    rw [List.length_append, firstLength, secondLength]
  rw [← length]
  refine slice_eq startLt (by omega) fun i iLt => ?_
  by_cases inFirst : i < first
  · rw [List.getElem?_append_left (by omega), getElem?_slice startLt inFirst]
  · rw [List.getElem?_append_right (by omega), firstLength,
      getElem?_slice midLt (by omega), posAdd_posAdd startLt (by omega)]
    congr 2
    omega

end

/-- The second list is the first one with the values written from `start` on. -/
structure Spliced (cells cells' : List α) (start : Nat) (values : List α) : Prop where
  length : cells'.length = cells.length
  written : ∀ i < values.length, cells'[posAdd cells.length start i]? = values[i]?
  kept : ∀ cell < cells.length, ¬ Contains cells.length start values.length cell →
    cells'[cell]? = cells[cell]?

variable {values : List α}

theorem spliced_set {cell : Nat} (cellLt : cell < cells.length) (value : α) :
    Spliced cells (cells.set cell value) cell [value] where
  length := List.length_set
  written i iLt := by
    obtain rfl : i = 0 := by simpa using iLt
    rw [posAdd_zero cellLt, List.getElem?_set_self cellLt, List.getElem?_cons_zero]
  kept other otherLt outside := by
    refine List.getElem?_set_ne fun same => outside (.inl ?_)
    simp [same]

theorem Spliced.slice_kept {other : Nat} (spliced : Spliced cells cells' start values)
    (startLt : start < cells.length) (otherLt : other < cells.length) (lenLe : len ≤ cells.length)
    (apart : ∀ i < len, ∀ j < values.length,
      posAdd cells.length start j ≠ posAdd cells.length other i) :
    slice cells' other len = slice cells other len := by
  refine slice_congr otherLt lenLe spliced.length fun i iLt => ?_
  have cellLt := posAdd_lt otherLt (Nat.le_of_lt (Nat.lt_of_lt_of_le iLt lenLe))
  refine spliced.kept _ cellLt fun inside => ?_
  obtain ⟨j, jLt, same⟩ := (contains_iff_exists startLt cellLt).mp inside
  exact apart i iLt j jLt same

/-- Values written right after a range extend its slice. -/
theorem Spliced.slice_append {first : Nat}
    (spliced : Spliced cells cells' (posAdd cells.length first len) values)
    (firstLt : first < cells.length) (lenLe : len + values.length ≤ cells.length) :
    slice cells' first (len + values.length) = slice cells first len ++ values := by
  have endLt : posAdd cells.length first len < cells.length := posAdd_lt firstLt (by omega)
  have kept : slice cells' first len = slice cells first len := by
    refine spliced.slice_kept endLt firstLt (by omega) fun i iLt j jLt same => ?_
    rw [posAdd_posAdd firstLt (by omega)] at same
    have := posAdd_inj (by omega) (by omega) same
    omega
  have written : slice cells' (posAdd cells.length first len) values.length = values := by
    refine slice_eq (by rw [spliced.length]; exact endLt) (by rw [spliced.length]; omega) ?_
    rw [spliced.length]
    exact spliced.written
  rw [Cyclic.slice_append (by rw [spliced.length]; exact firstLt)
    (by rw [spliced.length]; exact lenLe), spliced.length, kept, written]

end Slices

end VerifiedBetrfs.Cyclic
