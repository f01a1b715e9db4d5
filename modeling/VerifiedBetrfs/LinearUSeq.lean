import VerifiedBetrfs.HashMapOperations
import VerifiedBetrfs.LinearDList

/-!
# Sequences without duplicates

Distinct values in a linked list, with a hash map from each value to its slot in that list.
-/

namespace VerifiedBetrfs

open LinkedRing

namespace PointerList

open LinearMutableMap (Inv LinearHashMap removeAndGet removeAndGet_spec insert insert_spec)

/-- The slots `f` hold the values `q` in order, and the map leads from each value to its slot. -/
structure Represents (hash : UInt64 → UInt64) (dlist : DList UInt64)
    (ptrMap : LinearHashMap Nat) (f : List Nat) (q : List UInt64) : Prop where
  inv : Inv hash ptrMap
  linked : dlist.Linked f
  values : f.map dlist.data = q.map some
  pointers : ∀ x p, ptrMap.contents.lookup x = some p ↔ dlist.data p = some x

variable {hash : UInt64 → UInt64} {dlist : DList UInt64} {ptrMap : LinearHashMap Nat}
  {f : List Nat} {q : List UInt64} {x : UInt64} {p : Nat}

theorem represents_alloc (hash : UInt64 → UInt64) :
    Represents hash (DList.alloc (128 + 1)) (LinearMutableMap.constructor 128) [] [] where
  inv := LinearMutableMap.inv_constructor (by decide) (by decide)
  linked := DList.linked_alloc (by decide)
  values := rfl
  pointers := by
    intro x p
    rw [DList.data_alloc]
    exact iff_of_false nofun nofun

theorem map_update_of_notMem {data : Nat → Option UInt64} {value : Option UInt64}
    (absent : p ∉ f) : f.map (Function.update data p value) = f.map data := by
  apply List.map_congr_left
  intro r member
  apply Function.update_of_ne
  rintro rfl
  exact absent member

namespace Represents

variable (represents : Represents hash dlist ptrMap f q)

include represents

theorem mem_iff : x ∈ q ↔ ∃ p, dlist.data p = some x := by
  have listed : x ∈ q ↔ some x ∈ f.map dlist.data := by
    rw [represents.values]
    simp
  rw [listed, List.mem_map]
  constructor
  · rintro ⟨p, -, holds⟩
    exact ⟨p, holds⟩
  · rintro ⟨p, holds⟩
    refine ⟨p, (represents.linked.members p).mpr ?_, holds⟩
    rw [DList.ValidPtr, holds]
    rfl

theorem lookup_eq_none_iff : ptrMap.contents.lookup x = none ↔ x ∉ q := by
  rw [represents.mem_iff, Option.eq_none_iff_forall_ne_some]
  simp only [← represents.pointers, ne_eq, not_exists]

variable (nodup : q.Nodup)

include nodup

theorem count_eq : ptrMap.count = q.length := by
  have isSupport : ptrMap.contents.support = q.toFinset := by
    ext x
    rw [FiniteMap.mem_support, List.mem_toFinset, represents.mem_iff, Option.isSome_iff_exists]
    simp only [represents.pointers]
  rw [← represents.inv.card, isSupport, List.toFinset_card_of_nodup nodup]

theorem remove (x : UInt64) :
    ∃ ptrMap' removed, removeAndGet hash ptrMap x = some (ptrMap', removed) ∧
      match removed with
      | none => Represents hash dlist ptrMap' f (q.erase x)
      | some p => ∃ dlist' f', dlist.remove p = some dlist' ∧
        Represents hash dlist' ptrMap' f' (q.erase x) := by
  obtain ⟨ptrMap', removed, inv', contents⟩ := removeAndGet_spec represents.inv x
  refine ⟨ptrMap', _, removed, ?_⟩
  cases found : ptrMap.contents.lookup x with
  | none =>
    have absent := represents.lookup_eq_none_iff.mp found
    rw [List.erase_of_not_mem absent]
    refine ⟨inv', represents.linked, represents.values, fun y r => ?_⟩
    rw [contents, FiniteMap.lookup_erase_eq_some, represents.pointers, and_iff_right_iff_imp]
    rintro holds rfl
    exact absent (represents.mem_iff.mpr ⟨r, holds⟩)
  | some p =>
    have holds := (represents.pointers x p).mp found
    have valid : dlist.ValidPtr p := by
      rw [DList.ValidPtr, holds]
      rfl
    have linked := represents.linked
    have values := represents.values
    have distinct := linked.ring.nodup.of_cons
    obtain ⟨before, after, rfl⟩ := List.append_of_mem ((linked.members p).mpr valid)
    have absent := (List.nodup_cons.mp (List.nodup_middle.mp distinct)).1
    obtain ⟨dlist', succeeds, linked', relinked, -⟩ := linked.remove
    refine ⟨dlist', before ++ after, succeeds, ?_⟩
    rw [List.map_append, List.map_cons, holds, eq_comm, List.map_eq_append_iff] at values
    obtain ⟨qBefore, _, rfl, isBefore, values⟩ := values
    rw [List.map_eq_cons_iff] at values
    obtain ⟨y, qAfter, rfl, isValue, isAfter⟩ := values
    obtain rfl : y = x := Option.some.inj isValue
    have isErased : (qBefore ++ y :: qAfter).erase y = qBefore ++ qAfter := by
      have absent := (List.nodup_cons.mp (List.nodup_middle.mp nodup)).1
      rw [List.erase_append_right _ fun member => absent (List.mem_append_left _ member),
        List.erase_cons_head]
    rw [isErased]
    refine ⟨inv', linked', ?_, fun z r => ?_⟩
    · rw [relinked.data, map_update_of_notMem absent, List.map_append, List.map_append,
        isBefore, isAfter]
    · rw [contents, FiniteMap.lookup_erase_eq_some, represents.pointers, relinked.data,
        Function.update_apply]
      split_ifs with same
      · rw [same, holds]
        simp [eq_comm]
      · rw [and_iff_right_iff_imp]
        rintro holds' rfl
        rw [← represents.pointers, found] at holds'
        exact same (Option.some.inj holds').symm

theorem append (absent : x ∉ q) (small : q.length < 2 ^ 64 / 8) :
    ∃ dlist' p ptrMap', dlist.insertBefore 0 x = some (dlist', p) ∧
      insert hash ptrMap x p = some ptrMap' ∧
      Represents hash dlist' ptrMap' (f ++ [p]) (q ++ [x]) := by
  rw [represents.mem_iff, not_exists] at absent
  rw [← represents.count_eq nodup] at small
  have linked := represents.linked
  rw [← List.append_nil f] at linked
  obtain ⟨dlist', p, inserted, isInserted⟩ := linked.insertBefore x
  obtain ⟨ptrMap', isInsert, inv', contents⟩ := insert_spec represents.inv small x p
  have fresh : p ∉ f := by
    rw [represents.linked.members]
    exact isInserted.fresh
  have empty : dlist.data p = none := by
    rw [← Option.not_isSome_iff_eq_none]
    exact isInserted.fresh
  refine ⟨dlist', p, ptrMap', inserted, isInsert, inv', isInserted.linked, ?_, fun y r => ?_⟩
  · rw [isInserted.data, List.map_append, map_update_of_notMem fresh, represents.values,
      List.map_singleton, Function.update_self, List.map_append, List.map_singleton]
  · rw [contents, FiniteMap.lookup_insert_eq_some, represents.pointers, isInserted.data,
      Function.update_apply]
    by_cases same : r = p
    · subst same
      simp [empty, eq_comm]
    · simp only [if_neg same]
      constructor
      · rintro (⟨-, rfl⟩ | ⟨-, holds⟩)
        · exact absurd rfl same
        · exact holds
      · intro holds
        refine .inr ⟨?_, holds⟩
        rintro rfl
        exact absent r holds

end Represents

end PointerList

/-- The list holds the values, and the map leads from each value to its slot. -/
structure USeq where
  dlist : DList UInt64
  ptrMap : LinearMutableMap.LinearHashMap Nat

namespace USeq

open PointerList (Represents represents_alloc)

variable (self : USeq) (x : UInt64)

def I : List UInt64 := self.dlist.seq

def alloc : USeq := ⟨DList.alloc (128 + 1), LinearMutableMap.constructor 128⟩

/-- A new value becomes the last one. -/
def add : Option USeq := do
  let found ← LinearMutableMap.get LinearMutableMap.hash64 self.ptrMap x
  if found.isSome then return self
  let (dlist, p) ← self.dlist.insertBefore 0 x
  let ptrMap ← LinearMutableMap.insert LinearMutableMap.hash64 self.ptrMap x p
  return ⟨dlist, ptrMap⟩

/-- The value is taken out, if it is there. -/
def remove : Option USeq := do
  let (ptrMap, removed) ← LinearMutableMap.removeAndGet LinearMutableMap.hash64 self.ptrMap x
  match removed with
  | some p => do
    let dlist ← self.dlist.remove p
    return ⟨dlist, ptrMap⟩
  | none => return ⟨self.dlist, ptrMap⟩

def firstOpt : Option UInt64 :=
  let p := self.dlist.next 0
  if p = 0 then none else self.dlist.get p

/-- The values are distinct, and the map has the slot of each of them. -/
structure Inv (useq : USeq) : Prop where
  noDupes : useq.I.Nodup
  represents : ∃ f, Represents LinearMutableMap.hash64 useq.dlist useq.ptrMap f useq.I

variable {self} {x} {f : List Nat} {q : List UInt64}

theorem inv_of_represents
    (represents : Represents LinearMutableMap.hash64 self.dlist self.ptrMap f q)
    (nodup : q.Nodup) : self.Inv ∧ self.I = q := by
  obtain rfl : self.I = q := represents.linked.seq_eq represents.values
  exact ⟨⟨nodup, f, represents⟩, rfl⟩

theorem alloc_spec : alloc.Inv ∧ alloc.I = [] :=
  inv_of_represents (represents_alloc LinearMutableMap.hash64) .nil

theorem mem_addNew {y : UInt64} : (y ∈ if x ∈ q then q else q ++ [x]) ↔ y ∈ q ∨ y = x := by
  split_ifs with present
  · rw [iff_self_or]
    rintro rfl
    exact present
  · simp

section

variable (inv : self.Inv)

include inv

theorem Inv.length_le {s : Finset UInt64} (subset : ∀ x ∈ self.I, x ∈ s) :
    self.I.length ≤ s.card := by
  rw [← List.toFinset_card_of_nodup inv.noDupes]
  exact Finset.card_le_card fun x member => subset x (List.mem_toFinset.mp member)

theorem Inv.add (small : self.I.length < 2 ^ 64 / 8) (x : UInt64) :
    ∃ self', self.add x = some self' ∧ self'.Inv ∧
      self'.I = if x ∈ self.I then self.I else self.I ++ [x] := by
  obtain ⟨f, represents⟩ := inv.represents
  rw [USeq.add, LinearMutableMap.get_eq represents.inv, Option.bind_eq_bind, Option.bind_some]
  by_cases member : x ∈ self.I
  · have found : (self.ptrMap.contents.lookup x).isSome := by
      rw [Option.isSome_iff_ne_none, ne_eq, represents.lookup_eq_none_iff, not_not]
      exact member
    rw [if_pos found, if_pos member]
    exact ⟨self, rfl, inv, rfl⟩
  · obtain ⟨dlist', p, ptrMap', inserted, isInsert, represents'⟩ :=
      represents.append inv.noDupes member small
    rw [represents.lookup_eq_none_iff.mpr member, if_neg member]
    refine ⟨⟨dlist', ptrMap'⟩, by simp [inserted, isInsert], inv_of_represents represents' ?_⟩
    rw [← List.concat_eq_append]
    exact inv.noDupes.concat member

theorem Inv.remove (x : UInt64) :
    ∃ self', self.remove x = some self' ∧ self'.Inv ∧ self'.I = self.I.erase x := by
  obtain ⟨f, represents⟩ := inv.represents
  have nodup := inv.noDupes.erase x
  obtain ⟨ptrMap', removed, isRemove, spec⟩ := represents.remove inv.noDupes x
  rw [USeq.remove, isRemove]
  cases removed with
  | none => exact ⟨⟨self.dlist, ptrMap'⟩, rfl, inv_of_represents spec nodup⟩
  | some p =>
    obtain ⟨dlist', f', succeeds, represents'⟩ := spec
    exact ⟨⟨dlist', ptrMap'⟩, by simp [succeeds], inv_of_represents represents' nodup⟩

theorem Inv.firstOpt : self.firstOpt = self.I.head? := by
  obtain ⟨f, represents⟩ := inv.represents
  have noData := represents.linked.data_zero
  obtain ⟨fuel, isLength⟩ := Nat.exists_eq_add_one.mpr (Nat.zero_lt_of_lt represents.linked.free)
  rw [USeq.firstOpt, I, DList.seq, isLength, DList.seqFrom]
  split_ifs with isEmpty
  · rw [isEmpty, noData]
    rfl
  · rw [DList.get]
    cases self.dlist.data (self.dlist.next 0) <;> rfl

end

end USeq

end VerifiedBetrfs
