import Mathlib.Data.List.Chain

/-!
# Acyclicity of a directed graph under a local edit

An edit that adds fresh vertices keeps a relation acyclic if every detour through one could be made
before.
-/

namespace VerifiedBetrfs.Digraph

open Relation

universe u

variable {α : Type u}

/-- No vertex reaches itself. -/
def Acyclic (edge : α → α → Prop) : Prop := ∀ vertex, ¬ TransGen edge vertex vertex

variable {edge edge' : α → α → Prop}

theorem Acyclic.mono (acyclic : Acyclic edge) (weaker : ∀ {a b}, edge' a b → edge a b) :
    Acyclic edge' :=
  fun vertex cycle =>
    acyclic vertex (TransGen.mono (fun _ _ step => weaker step) vertex vertex cycle)

/-- The edges of `edge'` within `old`, and its two-step detours through a vertex outside, are walks
of `edge`; a vertex outside `old` only points into `old`. -/
structure LocalEdit (edge edge' : α → α → Prop) (old : Set α) : Prop where
  oldEdge : ∀ {a b}, a ∈ old → b ∈ old → edge' a b → TransGen edge a b
  newTarget : ∀ {b c}, b ∉ old → edge' b c → c ∈ old
  detour : ∀ {a b c}, a ∈ old → b ∉ old → edge' a b → edge' b c →
    TransGen edge a c

/-- A walk of the edited relation ends at an old vertex that was reachable before, or has just left
such a vertex for a fresh one. -/
theorem LocalEdit.walk {old : Set α} (edit : LocalEdit edge edge' old) {first last : α}
    (firstOld : first ∈ old) (walk : TransGen edge' first last) :
    (last ∈ old ∧ TransGen edge first last) ∨
      (last ∉ old ∧ ∃ exit ∈ old, ReflTransGen edge first exit ∧ edge' exit last) := by
  induction walk with
  | @single last step =>
    by_cases lastOld : last ∈ old
    · exact Or.inl ⟨lastOld, edit.oldEdge firstOld lastOld step⟩
    · exact Or.inr ⟨lastOld, first, firstOld, ReflTransGen.refl, step⟩
  | @tail middle last _ step ih =>
    rcases ih with ⟨middleOld, reached⟩ | ⟨middleNew, exit, exitOld, reached, left⟩
    · by_cases lastOld : last ∈ old
      · exact Or.inl ⟨lastOld, reached.trans (edit.oldEdge middleOld lastOld step)⟩
      · exact Or.inr ⟨lastOld, middle, middleOld, reached.to_reflTransGen, step⟩
    · exact Or.inl ⟨edit.newTarget middleNew step,
        TransGen.trans_right reached (edit.detour exitOld middleNew left step)⟩

theorem LocalEdit.acyclic {old : Set α} (edit : LocalEdit edge edge' old) (acyclic : Acyclic edge) :
    Acyclic edge' := by
  have oldVertex : ∀ vertex ∈ old, ¬ TransGen edge' vertex vertex := by
    intro vertex vertexOld cycle
    rcases edit.walk vertexOld cycle with ⟨_, before⟩ | ⟨vertexNew, _⟩
    · exact acyclic vertex before
    · exact vertexNew vertexOld
  intro vertex cycle
  by_cases vertexOld : vertex ∈ old
  · exact oldVertex vertex vertexOld cycle
  · -- A fresh vertex on a cycle has an old successor on the same cycle.
    obtain ⟨successor, step, back⟩ := TransGen.head'_iff.mp cycle
    exact oldVertex successor (edit.newTarget vertexOld step)
      (TransGen.trans_right back (TransGen.single step))

theorem reflTransGen_of_isChain {first : α} {rest : List α} (chain : (first :: rest).IsChain edge) :
    ReflTransGen edge first ((first :: rest).getLast (by simp)) := by
  induction rest generalizing first with
  | nil => exact ReflTransGen.refl
  | cons second rest ih =>
    rw [List.isChain_cons_cons] at chain
    simpa using ReflTransGen.head chain.1 (ih chain.2)

theorem Acyclic.pairwise_ne (acyclic : Acyclic edge) {path : List α} (chain : path.IsChain edge) :
    path.Pairwise (· ≠ ·) := by
  have reach : path.Pairwise (TransGen edge) :=
    List.isChain_iff_pairwise.mp (chain.imp fun _ _ step => TransGen.single step)
  apply reach.imp
  intro first second walk same
  subst same
  exact acyclic first walk

end VerifiedBetrfs.Digraph
