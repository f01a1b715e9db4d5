import VerifiedBetrfs.BetreeSpec

/-!
# Lookups of a tree and the tree invariant

The messages that lookups can collect are also given as an inductive relation, since every step of
the tree changes lookups locally.
-/

namespace VerifiedBetrfs.BetreeInv

open BetreeSpec BlockGraph Betree

section

variable (view : IMap Reference Node)

def LookupRespectsView (lookup : Lookup) : Prop :=
  ∀ layer ∈ lookup, view layer.ref = some layer.node

def IsPathLookup (key : Key) (lookup : Lookup) : Prop :=
  lookup ≠ [] ∧ LookupRespectsView view lookup ∧ LookupFollowsChildRefs key lookup

/-- A path that collects a message which defines the value. -/
def IsSatisfyingLookup (key : Key) (value : Value) (lookup : Lookup) : Prop :=
  IsPathLookup view key lookup ∧ LookupVisitsWFNodes lookup ∧
    BufferDefinesValue (interpretLookup lookup key) value

def IsSatisfyingLookupFrom (key : Key) (value : Value)
    (lookup : Lookup) (start : Reference) : Prop :=
  IsSatisfyingLookup view key value lookup ∧
    lookup.head?.map ReadOp.ref = some start

def KeyHasSatisfyingLookup (key : Key) (start : Reference) : Prop :=
  ∃ lookup value, IsSatisfyingLookupFrom view key value lookup start

end

def LookupIsAcyclic (lookup : Lookup) : Prop :=
  lookup.Pairwise fun layer later => layer.ref ≠ later.ref

/-- No lookup visits a reference twice. -/
def Acyclic (s : Variables) : Prop :=
  ∀ key lookup, IsPathLookup s.bcv.view key lookup → LookupIsAcyclic lookup

/-- The graph is closed, acyclic, and has a lookup for every key. -/
def Inv (s : Variables) : Prop :=
  BlockInterface.Inv s.bcv ∧
  IsAcyclic s.bcv.view ∧
  Acyclic s ∧
  (∀ key, KeyHasSatisfyingLookup s.bcv.view key root) ∧
  BlockInterface.RootHasNoPredecessor s.bcv.view

variable {view : IMap Reference Node} {key : Key}

theorem edge_of_child {ref child : Reference} {node : Node} (bound : view ref = some node)
    (routed : node.children key = some child) : Edge view ref child :=
  ⟨node, bound, key, routed⟩

theorem acyclic_of_isAcyclic {s : Variables} (acyclic : IsAcyclic s.bcv.view) : Acyclic s := by
  rintro key lookup ⟨_, respects, follows⟩
  have chain : (lookup.map ReadOp.ref).IsChain (Edge s.bcv.view) := by
    rw [List.isChain_map]
    induction lookup with
    | nil => simp
    | cons layer rest ih =>
      cases rest with
      | nil => simp
      | cons next rest =>
        rw [LookupFollowsChildRefs, List.isChain_cons_cons] at follows
        rw [List.isChain_cons_cons]
        refine ⟨edge_of_child (respects layer (by simp)) follows.1, ?_⟩
        exact ih (by simp) (fun later member => respects later (by simp [member])) follows.2
  exact List.pairwise_map.mp ((isAcyclic_iff.mp acyclic).pairwise_ne chain)

theorem interpretLookup_eq_prod (lookup : Lookup) (key : Key) :
    interpretLookup lookup key = (lookup.map fun layer => layer.node.buffer.at' key).prod := by
  have general : ∀ message : Message,
      lookup.foldl (fun message layer => message.merge (layer.node.buffer.at' key))
          message =
        message * (lookup.map fun layer => layer.node.buffer.at' key).prod := by
    induction lookup with
    | nil => simp
    | cons layer rest ih =>
      intro message
      rw [List.foldl_cons, ih, List.map_cons, List.prod_cons, ← mul_assoc]
      rfl
  rw [interpretLookup, general, ← ValueMessage.one_def, one_mul]

/-- The messages that a lookup for `key` can collect from a reference down. -/
inductive PathMessage (view : IMap Reference Node) (key : Key) :
    Reference → Message → Prop where
  | stop {ref : Reference} {node : Node} (bound : view ref = some node)
      (wf : WFNode node) : PathMessage view key ref (node.buffer.at' key)
  | descend {ref child : Reference} {node : Node} {message : Message}
      (bound : view ref = some node) (wf : WFNode node)
      (routed : node.children key = some child)
      (rest : PathMessage view key child message) :
      PathMessage view key ref (node.buffer.at' key * message)

variable {start : Reference}

theorem pathMessage_of_lookup {lookup : Lookup} (starts : lookup.head?.map ReadOp.ref = some start)
    (respects : LookupRespectsView view lookup) (follows : LookupFollowsChildRefs key lookup)
    (visits : LookupVisitsWFNodes lookup) :
    PathMessage view key start (interpretLookup lookup key) := by
  rw [interpretLookup_eq_prod]
  induction lookup generalizing start with
  | nil => simp at starts
  | cons layer rest ih =>
    have startEq : layer.ref = start := by simpa using starts
    subst startEq
    have bound := respects layer (by simp)
    have wf := visits layer (by simp)
    cases rest with
    | nil => simpa using PathMessage.stop bound wf
    | cons next rest =>
      rw [LookupFollowsChildRefs, List.isChain_cons_cons] at follows
      apply PathMessage.descend bound wf follows.1
      exact ih rfl (fun later member => respects later (by simp [member]))
        follows.2 (fun later member => visits later (by simp [member]))

theorem lookup_of_pathMessage {message : Message} (path : PathMessage view key start message) :
    ∃ lookup : Lookup, lookup.head?.map ReadOp.ref = some start ∧
      LookupRespectsView view lookup ∧ LookupFollowsChildRefs key lookup ∧
      LookupVisitsWFNodes lookup ∧ interpretLookup lookup key = message := by
  induction path with
  | @stop ref node bound wf =>
    refine ⟨[⟨ref, node⟩], rfl, ?_, by simp [LookupFollowsChildRefs], ?_, ?_⟩
    · simpa [LookupRespectsView] using bound
    · simpa [LookupVisitsWFNodes] using wf
    · simp [interpretLookup_eq_prod]
  | @descend ref child node message bound wf routed _ ih =>
    obtain ⟨lookup, starts, respects, follows, visits, collected⟩ := ih
    cases lookup with
    | nil => simp at starts
    | cons layer rest =>
      have startEq : layer.ref = child := by simpa using starts
      refine ⟨⟨ref, node⟩ :: layer :: rest, rfl, ?_, ?_, ?_, ?_⟩
      · intro later member
        rcases List.mem_cons.mp member with rfl | member
        · exact bound
        · exact respects later member
      · rw [LookupFollowsChildRefs, List.isChain_cons_cons]
        exact ⟨by rw [startEq]; exact routed, follows⟩
      · intro later member
        rcases List.mem_cons.mp member with rfl | member
        · exact wf
        · exact visits later member
      · rw [interpretLookup_eq_prod] at collected ⊢
        rw [List.map_cons, List.prod_cons, collected]

/-- A satisfying lookup exists exactly when some path collects the defining
message. -/
theorem exists_satisfyingLookup_iff {value : Value} :
    (∃ lookup, IsSatisfyingLookupFrom view key value lookup start) ↔
      PathMessage view key start (.define value) := by
  constructor
  · rintro ⟨lookup, ⟨⟨_, respects, follows⟩, visits, defines⟩, starts⟩
    have path := pathMessage_of_lookup starts respects follows visits
    rw [show interpretLookup lookup key = .define value from defines] at path
    exact path
  · intro path
    obtain ⟨lookup, starts, respects, follows, visits, collected⟩ := lookup_of_pathMessage path
    have nonempty : lookup ≠ [] := by
      rintro rfl
      simp at starts
    exact ⟨lookup, ⟨⟨nonempty, respects, follows⟩, visits, collected⟩, starts⟩

theorem keyHasSatisfyingLookup_iff :
    KeyHasSatisfyingLookup view key start ↔
      ∃ value, PathMessage view key start (.define value) := by
  rw [KeyHasSatisfyingLookup, exists_comm]
  simp only [exists_satisfyingLookup_iff]

theorem PathMessage.comparable {first second : Message}
    (firstPath : PathMessage view key start first)
    (secondPath : PathMessage view key start second) : first ∣ second ∨ second ∣ first := by
  induction firstPath generalizing second with
  | stop bound _ =>
    cases secondPath with
    | stop bound' _ =>
      cases bound.symm.trans bound'
      exact Or.inl dvd_rfl
    | descend bound' _ _ _ =>
      cases bound.symm.trans bound'
      exact Or.inl (dvd_mul_right _ _)
  | descend bound _ routed _ ih =>
    cases secondPath with
    | stop bound' _ =>
      cases bound.symm.trans bound'
      exact Or.inr (dvd_mul_right _ _)
    | descend bound' _ routed' rest' =>
      cases bound.symm.trans bound'
      cases routed.symm.trans routed'
      exact (ih rest').imp (mul_dvd_mul_left _) (mul_dvd_mul_left _)

/-- Lookups cannot equivocate: the value found for a key is unique. -/
theorem PathMessage.define_unique {first second : Value}
    (firstPath : PathMessage view key start (.define first))
    (secondPath : PathMessage view key start (.define second)) : first = second := by
  rcases firstPath.comparable secondPath with extends' | extends'
  · have same := MessageOf.eq_define_of_dvd extends'
    cases same
    rfl
  · have same := MessageOf.eq_define_of_dvd extends'
    cases same
    rfl

/-- Every path is still there, possibly longer, in another view. -/
def PreservesPaths (view view' : IMap Reference Node) (key : Key)
    (start : Reference) : Prop :=
  ∀ message, PathMessage view key start message →
    ∃ message', PathMessage view' key start message' ∧ message ∣ message'

theorem PreservesPaths.define {view view' : IMap Reference Node} {value : Value}
    (preserves : PreservesPaths view view' key start)
    (path : PathMessage view key start (.define value)) :
    PathMessage view' key start (.define value) := by
  obtain ⟨_, path', extends'⟩ := preserves _ path
  rwa [MessageOf.eq_define_of_dvd extends'] at path'

theorem PathMessage.avoids_root {view view' : IMap Reference Node} {message : Message}
    (noPredecessor : BlockInterface.RootHasNoPredecessor view)
    (unchanged : ∀ ref node, ref ≠ root → view ref = some node → view' ref = some node)
    (startNe : start ≠ root) (path : PathMessage view key start message) :
    PathMessage view' key start message := by
  induction path with
  | stop bound wf => exact PathMessage.stop (unchanged _ _ startNe bound) wf
  | @descend ref child node message bound wf routed _ ih =>
    have childNe : child ≠ root := by
      rintro rfl
      exact noPredecessor ref node bound ⟨key, routed⟩
    exact PathMessage.descend (unchanged _ _ startNe bound) wf routed (ih childNe)

end VerifiedBetrfs.BetreeInv
