import Mathlib.Data.List.Basic

/-!
# Splicing

A list is overwritten from a position on by the elements of another one.
-/

namespace VerifiedBetrfs.Splicing

universe u

variable {α : Type u}

/-- The list with `ins` in place of the elements from `start` on. -/
def splice (cells : List α) (start : Nat) (ins : List α) : List α :=
  cells.take start ++ ins ++ cells.drop (start + ins.length)

variable {cells ins : List α} {start : Nat}

@[simp]
theorem splice_nil : splice cells start [] = cells := by
  simp [splice]

section

variable (fits : start + ins.length ≤ cells.length)

include fits

theorem length_splice : (splice cells start ins).length = cells.length := by
  simp only [splice, List.length_append, List.length_take, List.length_drop]
  omega

theorem getElem?_splice (i : Nat) : (splice cells start ins)[i]? =
      if start ≤ i ∧ i < start + ins.length then ins[i - start]? else cells[i]? := by
  have takeLength : (cells.take start).length = start := by
    rw [List.length_take]
    omega
  rw [splice, List.append_assoc]
  rcases Nat.lt_or_ge i start with before | after
  · rw [List.getElem?_append_left (by omega), List.getElem?_take_of_lt before, if_neg (by omega)]
  rw [List.getElem?_append_right (by omega), takeLength]
  rcases Nat.lt_or_ge i (start + ins.length) with inside | beyond
  · rw [List.getElem?_append_left (by omega), if_pos ⟨after, inside⟩]
  · rw [List.getElem?_append_right (by omega), List.getElem?_drop, if_neg (by omega)]
    congr 1
    omega

omit fits in
/-- Pieces that are written one after another are written together. -/
theorem splice_append {next : List α} (fits : start + ins.length + next.length ≤ cells.length) :
    splice (splice cells start ins) (start + ins.length) next =
      splice cells start (ins ++ next) := by
  have firstFits : start + ins.length ≤ cells.length := by omega
  apply List.ext_getElem?
  intro i
  rw [getElem?_splice (by rw [length_splice firstFits]; exact fits), getElem?_splice firstFits,
    getElem?_splice (by rw [List.length_append]; omega), List.length_append]
  by_cases inNext : start + ins.length ≤ i ∧ i < start + ins.length + next.length
  · rw [if_pos inNext, if_pos (by omega), List.getElem?_append_right (by omega)]
    congr 1
    omega
  by_cases inFirst : start ≤ i ∧ i < start + ins.length
  · rw [if_neg inNext, if_pos inFirst, if_pos (by omega), List.getElem?_append_left (by omega)]
  · rw [if_neg inNext, if_neg inFirst, if_neg (by omega)]

theorem take_splice (rest : Nat) : (splice cells start ins).take (start + ins.length + rest) =
      cells.take start ++ ins ++ (cells.drop (start + ins.length)).take rest := by
  have length : (cells.take start ++ ins).length = start + ins.length := by
    rw [List.length_append, List.length_take]
    omega
  rw [splice, List.take_append, length, List.take_of_length_le (by omega), Nat.add_sub_cancel_left]

theorem drop_splice_after (rest : Nat) : (splice cells start ins).drop (start + ins.length + rest) =
      cells.drop (start + ins.length + rest) := by
  have length : (cells.take start ++ ins).length = start + ins.length := by
    rw [List.length_append, List.length_take]
    omega
  rw [splice, List.drop_append, length, List.drop_of_length_le (by omega), List.nil_append,
    Nat.add_sub_cancel_left, List.drop_drop]

end

end VerifiedBetrfs.Splicing
