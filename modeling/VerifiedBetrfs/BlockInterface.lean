import VerifiedBetrfs.KeyType
import VerifiedBetrfs.FiniteMap
import VerifiedBetrfs.LocalEdit
import Mathlib.Data.Set.Lattice
import Mathlib.Order.CompletePartialOrder

/-!
# Reference graphs and the block interface

Atomic sequences of allocations and writes over a graph, generic in the type of nodes.
-/

namespace VerifiedBetrfs

universe u

/-- The references a node points to. -/
class GraphNode (Node : Type u) where
  successors : Node → Set Reference

namespace BlockGraph

variable {Node : Type u}

/-- A change to the graph. -/
inductive Op (Node : Type u) where
  | allocOp (ref : Reference) (node : Node)
  | writeOp (ref : Reference) (node : Node)

def Op.ref : Op Node → Reference
  | .allocOp ref _ | .writeOp ref _ => ref

def Op.node : Op Node → Node
  | .allocOp _ node | .writeOp _ node => node

/-- A block that an operation reads. -/
structure ReadOp (Node : Type u) where
  ref : Reference
  node : Node

variable [GraphNode Node]

open GraphNode

section

variable (g : IMap Reference Node)

/-- One reference points to another. -/
def Edge (source target : Reference) : Prop :=
  ∃ node, g source = some node ∧ target ∈ successors node

/-- Blocks point to allocated references only. -/
def IsClosed : Prop := ∀ ref node, g ref = some node → successors node ⊆ g.keys

def IsPath (path : List Reference) : Prop := path.IsChain (Edge g)

def IsCycle (path : List Reference) : Prop :=
  IsPath g path ∧
    ∃ nonempty : path ≠ [], Edge g (path.getLast nonempty) (path.head nonempty)

/-- No path leads back to its start. -/
def IsAcyclic : Prop := ∀ path, IsPath g path → ¬ IsCycle g path

end

theorem isAcyclic_iff {g : IMap Reference Node} : IsAcyclic g ↔ Digraph.Acyclic (Edge g) := by
  constructor
  · intro acyclic vertex cycle
    obtain ⟨_, walk, edge⟩ := Relation.TransGen.tail'_iff.mp cycle
    obtain ⟨path, chain, atLast⟩ := List.exists_isChain_cons_of_relationReflTransGen walk
    refine acyclic (vertex :: path) chain ⟨chain, by simp, ?_⟩
    simpa [atLast] using edge
  · rintro acyclic path _ ⟨chain, nonempty, edge⟩
    cases path with
    | nil => exact nonempty rfl
    | cons first rest =>
      exact acyclic first (Relation.TransGen.tail' (Digraph.reflTransGen_of_isChain chain) edge)

end BlockGraph

namespace BlockInterface

open GraphNode BlockGraph

/-- The graph of blocks. -/
structure Variables (Node : Type u) where
  view : IMap Reference Node

variable {Node : Type u} [GraphNode Node]

section

variable (s : Variables Node)

def LookupIsValid (lookup : List Reference) : Prop :=
  lookup.head? = some root ∧ (∀ ref ∈ lookup, ref ∈ s.view.keys) ∧
    lookup.IsChain (Edge s.view)

def ReachableReference (ref : Reference) : Prop :=
  ∃ lookup, LookupIsValid s lookup ∧ lookup.getLast? = some ref

def liveReferences : Set Reference := { ref | ReachableReference s ref }

def LiveDataAvailable : Prop := liveReferences s ⊆ s.view.keys

def Init : Prop := s.view.keys = {root} ∧ ∀ node, s.view root = some node → successors node = ∅

end

/-- A new reference is bound to a block. -/
def Alloc (s s' : Variables Node) (block : Node) (ref : Reference) : Prop :=
  successors block ⊆ s.view.keys ∧ ref ∉ s.view.keys ∧
    s'.view = s.view.update ref block

/-- The block of a reference is replaced. -/
def Write (s s' : Variables Node) (ref : Reference) (block : Node) : Prop :=
  successors block ⊆ s.view.keys ∧ ref ∈ s.view.keys ∧
    s'.view = s.view.update ref block

def ReadStep (s : Variables Node) (op : ReadOp Node) : Prop :=
  s.view op.ref = some op.node

def OpStep (s s' : Variables Node) : Op Node → Prop
  | .allocOp ref block => Alloc s s' block ref
  | .writeOp ref block => Write s s' ref block

def Reads (s : Variables Node) (ops : List (ReadOp Node)) : Prop :=
  ∀ op ∈ ops, ReadStep s op

/-- The operations of a transaction are performed one after the other. -/
def OpTransaction (s s' : Variables Node) : List (Op Node) → Prop
  | [] => s = s'
  | op :: ops => ∃ middle, OpStep s middle op ∧ OpTransaction middle s' ops

def predecessors (view : IMap Reference Node) (ref : Reference) : Set Reference :=
  { source | Edge view source ref }

def ClosedUnderPredecessor (view : IMap Reference Node) (refs : Set Reference) : Prop :=
  ∀ ref ∈ refs, predecessors view ref ⊆ refs

def RootHasNoPredecessor (view : IMap Reference Node) : Prop :=
  ∀ ref node, view ref = some node → root ∉ successors node

/-- Blocks that are not live, with all that points to them. -/
def CanGCRefs (s : Variables Node) (refs : Set Reference) : Prop :=
  Disjoint refs (liveReferences s) ∧ refs ⊆ s.view.keys ∧
    ClosedUnderPredecessor s.view refs

def GC (s s' : Variables Node) (refs : Set Reference) : Prop :=
  CanGCRefs s refs ∧ s'.view = s.view.remove refs

/-- The graph is closed and has a root. -/
def Inv (s : Variables Node) : Prop :=
  root ∈ s.view.keys ∧ IsClosed s.view ∧ LiveDataAvailable s

theorem liveDataAvailable (s : Variables Node) : LiveDataAvailable s := by
  rintro ref ⟨_, ⟨_, present, _⟩, last⟩
  exact present ref (List.mem_of_getLast? last)

variable {s s' : Variables Node}

theorem inv_update {ref : Reference} {block : Node} (inv : Inv s)
    (targets : successors block ⊆ s.view.keys) (view : s'.view = s.view.update ref block) :
    Inv s' := by
  obtain ⟨hasRoot, closed, _⟩ := inv
  have grows : s.view.keys ⊆ s'.view.keys := by
    rw [view, IMap.keys_update]
    exact Set.subset_insert ref s.view.keys
  refine ⟨grows hasRoot, ?_, liveDataAvailable s'⟩
  intro other node bound
  rw [view] at bound
  by_cases same : other = ref
  · subst same
    rw [IMap.update_same] at bound
    cases bound
    exact targets.trans grows
  · rw [IMap.update_of_ne _ _ same] at bound
    exact (closed other node bound).trans grows

theorem opStep_inv {op : Op Node} (inv : Inv s) (step : OpStep s s' op) : Inv s' := by
  cases op with
  | allocOp ref block | writeOp ref block => exact inv_update inv step.1 step.2.2

theorem opTransaction_inv {ops : List (Op Node)} (inv : Inv s)
    (transaction : OpTransaction s s' ops) : Inv s' := by
  induction ops generalizing s with
  | nil =>
    cases transaction
    exact inv
  | cons op ops ih =>
    obtain ⟨_, step, rest⟩ := transaction
    exact ih (opStep_inv inv step) rest

variable {refs : Set Reference}

theorem gc_view (gc : GC s s' refs) {ref : Reference} {node : Node} :
    s'.view ref = some node ↔ ref ∉ refs ∧ s.view ref = some node := by
  rw [gc.2]
  by_cases gone : ref ∈ refs <;> simp [IMap.remove, gone]

theorem root_notMem_of_canGCRefs (inv : Inv s) (can : CanGCRefs s refs) : root ∉ refs := by
  intro member
  have live : root ∈ liveReferences s := ⟨[root], ⟨rfl, by simpa using inv.1, by simp⟩, rfl⟩
  exact Set.disjoint_left.mp can.1 member live

/-- What a kept block points to is kept, since removed sets contain their
predecessors. -/
theorem gc_target_kept (gc : GC s s' refs) {source target : Reference} (kept : source ∉ refs)
    (edge : Edge s.view source target) : target ∉ refs :=
  fun removed => kept (gc.1.2.2 target removed edge)

theorem gc_inv (inv : Inv s) (gc : GC s s' refs) : Inv s' := by
  refine ⟨?_, ?_, liveDataAvailable s'⟩
  · obtain ⟨node, bound⟩ := inv.1
    exact ⟨node, (gc_view gc).mpr ⟨root_notMem_of_canGCRefs inv gc.1, bound⟩⟩
  · intro ref node bound target isTarget
    obtain ⟨kept, bound⟩ := (gc_view gc).mp bound
    obtain ⟨targetNode, targetBound⟩ := inv.2.1 ref node bound isTarget
    have targetKept := gc_target_kept gc kept ⟨node, bound, isTarget⟩
    exact ⟨targetNode, (gc_view gc).mpr ⟨targetKept, targetBound⟩⟩

end BlockInterface

end VerifiedBetrfs
