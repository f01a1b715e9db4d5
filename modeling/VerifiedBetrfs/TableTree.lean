import Mathlib.Data.List.Induction

/-!
# Trees of tables in a memory

A path of indices is followed from a root.  As long as no two paths meet, a new table can be hung
into an empty slot without any other path noticing.
-/

namespace VerifiedBetrfs.TableTree

variable {Loc Idx : Type}

/-- The table that a path leads to. -/
def walk (child : Loc → Idx → Option Loc) : Loc → List Idx → Option Loc
  | table, [] => some table
  | table, index :: path => (child table index).bind fun next => walk child next path

variable {child child' : Loc → Idx → Option Loc} {root table new : Loc} {depth : Nat}

@[simp]
theorem walk_nil : walk child table [] = some table := rfl

theorem walk_concat (path : List Idx) (index : Idx) :
    walk child root (path ++ [index]) =
      (walk child root path).bind fun table => child table index := by
  induction path generalizing root with
  | nil => cases slot : child root index <;> simp [walk, slot]
  | cons first path ih =>
    cases slot : child root first with
    | none => simp [walk, slot]
    | some next => simp [walk, slot, ih]

/-- No two paths of the tree lead to the same table. -/
def Separate (child : Loc → Idx → Option Loc) (root : Loc) (depth : Nat) : Prop :=
  ∀ path path' table, path.length ≤ depth → path'.length ≤ depth →
    walk child root path = some table → walk child root path' = some table → path = path'

/-- Slots below the depth may change: they are not followed. -/
theorem walk_congr
    (agree : ∀ path table, path.length < depth → walk child root path = some table →
      child' table = child table)
    {path : List Idx} (short : path.length ≤ depth) :
    walk child' root path = walk child root path := by
  induction path using List.reverseRecOn with
  | nil => rfl
  | append_singleton path index ih =>
    rw [List.length_append, List.length_singleton] at short
    rw [walk_concat, walk_concat, ih (by omega)]
    cases reached : walk child root path with
    | none => rfl
    | some table => simp [agree path table (by omega) reached]

theorem Separate.congr (separate : Separate child root depth)
    (same : ∀ path : List Idx, path.length ≤ depth → walk child' root path = walk child root path) :
    Separate child' root depth := by
  intro path path' table short short' reached reached'
  rw [same path short] at reached
  rw [same path' short'] at reached'
  exact separate path path' table short short' reached reached'

/-- The empty table `new` is hung into the empty slot `index` at the end of `path`. -/
structure Grown (child child' : Loc → Idx → Option Loc) (root : Loc) (depth : Nat)
    (path : List Idx) (index : Idx) (new : Loc) : Prop where
  short : path.length < depth
  parent : ∃ table, walk child root path = some table ∧ child table index = none ∧
    child' table index = some new
  fresh : ∀ path : List Idx, path.length ≤ depth → walk child root path ≠ some new
  empty : ∀ slot, child' new slot = none
  frame : ∀ other table slot, other.length < depth → walk child root other = some table →
    (other ≠ path ∨ slot ≠ index) → child' table slot = child table slot

section Growth

variable [DecidableEq Idx] {path : List Idx} {index : Idx}
  (grown : Grown child child' root depth path index new)

include grown

theorem walk_grown {other : List Idx} (shallow : other.length ≤ depth) :
    walk child' root other =
      if other = path ++ [index] then some new else walk child root other := by
  obtain ⟨_, parent, vacant, linked⟩ := grown.parent
  induction other using List.reverseRecOn with
  | nil => simp
  | append_singleton other slot ih =>
    rw [List.length_append, List.length_singleton] at shallow
    rw [walk_concat, ih (by omega)]
    by_cases below : other = path ++ [index]
    · have longer : other ++ [slot] ≠ path ++ [index] := by
        intro same
        have := congrArg List.length same
        simp [below] at this
      rw [if_pos below, if_neg longer, walk_concat, below, walk_concat, parent]
      simp [grown.empty, vacant]
    rw [if_neg below, walk_concat]
    by_cases here : other = path ∧ slot = index
    · obtain ⟨rfl, rfl⟩ := here
      simp [parent, linked]
    have elsewhere : other ++ [slot] ≠ path ++ [index] := by
      intro same
      obtain ⟨otherEq, slotEq⟩ := List.append_inj' same rfl
      exact here ⟨otherEq, by simpa using slotEq⟩
    rw [if_neg elsewhere]
    cases reached : walk child root other with
    | none => rfl
    | some reachedTable =>
      exact grown.frame other reachedTable slot (by omega) reached (not_and_or.mp here)

theorem separate_grown (separate : Separate child root depth) : Separate child' root depth := by
  intro one two reachedTable shallow shallow' reached reached'
  rw [walk_grown grown shallow] at reached
  rw [walk_grown grown shallow'] at reached'
  split at reached <;> split at reached'
  · next same same' => rw [same, same']
  · cases reached
    exact absurd reached' (grown.fresh two shallow')
  · cases reached'
    exact absurd reached (grown.fresh one shallow)
  · exact separate one two reachedTable shallow shallow' reached reached'

end Growth

end VerifiedBetrfs.TableTree
