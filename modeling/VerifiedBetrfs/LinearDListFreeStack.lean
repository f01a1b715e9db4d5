import VerifiedBetrfs.LinearDList

/-!
# The free slots of the linked list

The insertions take the slot at the top of the stack of free slots but do not move `freeStack` on,
so an insertion that follows another one grows the array.
-/

namespace VerifiedBetrfs.DList

open LinkedRing

variable {A : Type}

/-- Following `next` from `p` visits the slots of the list and then reaches slot zero. -/
def LeadsToZero (next : Nat → Nat) : Nat → List Nat → Prop
  | p, [] => p = 0
  | p, q :: visited => p = q ∧ p ≠ 0 ∧ LeadsToZero next (next p) visited

/-- Following `next` from `freeStack` visits each empty slot except the sentinel once, and no
other slot. -/
def FreeStackComplete (self : DList A) : Prop :=
  ∃ visited, LeadsToZero self.next self.freeStack visited ∧ visited.Nodup ∧
    ∀ p, p ∈ visited ↔ 0 < p ∧ p < self.nodes.length ∧ self.data p = none

/-- Every slot except the sentinel holds an element. -/
def Full (self : DList A) : Prop :=
  ∀ p, 0 < p → p < self.nodes.length → self.ValidPtr p

section Stack

variable {self self' : DList A} {next next' : Nat → Nat} {p : Nat} {visited f : List Nat}

theorem LeadsToZero.congr (same : ∀ q ∈ visited, next' q = next q)
    (leads : LeadsToZero next p visited) : LeadsToZero next' p visited := by
  induction visited generalizing p with
  | nil => exact leads
  | cons q visited ih =>
    obtain ⟨rfl, nonzero, rest⟩ := leads
    refine ⟨rfl, nonzero, ?_⟩
    rw [same p (.head _)]
    exact ih (fun q member => same q (.tail _ member)) rest

theorem LeadsToZero.ne_zero_of_mem (leads : LeadsToZero next p visited) {q : Nat}
    (member : q ∈ visited) : q ≠ 0 := by
  induction visited generalizing p with
  | nil => cases member
  | cons r visited ih =>
    obtain ⟨rfl, nonzero, rest⟩ := leads
    cases member with
    | head => exact nonzero
    | tail _ member => exact ih rest member

theorem leadsToZero_alloc {initialLen : Nat} (within : p < initialLen) :
    LeadsToZero (alloc initialLen : DList A).next p (List.range' 1 p).reverse := by
  induction p with
  | zero => rfl
  | succ p ih =>
    rw [List.range'_concat, List.reverse_append, List.reverse_singleton]
    refine ⟨by omega, Nat.succ_ne_zero p, ?_⟩
    rw [next_alloc within]
    exact ih (by omega)

theorem freeStackComplete_alloc (initialLen : Nat) (positive : 0 < initialLen) :
    FreeStackComplete (alloc initialLen : DList A) := by
  have isTop : (alloc initialLen : DList A).freeStack = initialLen - 1 := rfl
  refine ⟨(List.range' 1 (initialLen - 1)).reverse, ?_, ?_, ?_⟩
  · rw [isTop]
    exact leadsToZero_alloc (by omega)
  · exact List.nodup_reverse.mpr List.nodup_range'
  · intro p
    simp only [List.mem_reverse, List.mem_range'_1, length_alloc, data_alloc, and_true]
    omega

/-- No way along empty slots leads from `freeStack` to slot zero. -/
def Stuck (self : DList A) : Prop :=
  ∀ visited, LeadsToZero self.next self.freeStack visited → visited.Nodup →
    ∃ p ∈ visited, self.ValidPtr p

theorem Stuck.not_complete (stuck : Stuck self) : ¬FreeStackComplete self := by
  rintro ⟨visited, leads, nodup, empty⟩
  obtain ⟨p, member, valid⟩ := stuck visited leads nodup
  rw [ValidPtr, ((empty p).mp member).2.2] at valid
  simp at valid

theorem stuck_of_grows (nonzero : self.freeStack ≠ 0) (valid : self.ValidPtr self.freeStack) :
    Stuck self := by
  intro visited leads _
  cases visited with
  | nil => exact absurd leads nonzero
  | cons q visited =>
    obtain ⟨rfl, -⟩ := leads
    exact ⟨_, .head _, valid⟩

/-- A removal pushes its slot on a stack that still leads nowhere. -/
theorem Stuck.unlink (linked : Linked self f) (member : p ∈ f) (stuck : Stuck self)
    (relinked : Relinked self self' (self.prev p) (self.next p) (self.next p) (self.prev p) p
      ⟨none, self.freeStack, 0⟩)
    (isFree : self'.freeStack = p) (others : ∀ q ∈ f, q ≠ p → self'.ValidPtr q)
    (isPrev : self.prev p = 0 ∨ self.prev p ∈ f ∧ self.prev p ≠ p) : Stuck self' := by
  intro visited leads nodup
  cases visited with
  | nil => exact absurd (isFree.symm.trans leads) (linked.ne_zero_of_mem member)
  | cons q visited =>
    obtain ⟨isTop, -, rest⟩ := leads
    obtain rfl : p = q := isFree.symm.trans isTop
    obtain ⟨absent, nodup⟩ := List.nodup_cons.mp nodup
    have isNext : self'.next self'.freeStack = self.freeStack := by
      rw [relinked.next, isFree, Function.update_self]
    rw [isNext] at rest
    by_cases meetsPrev : self.prev p ∈ visited
    · -- the neighbour of the removed slot holds an element
      rcases isPrev with isZero | ⟨prevMember, prevOther⟩
      · exact absurd isZero (rest.ne_zero_of_mem meetsPrev)
      · exact ⟨_, .tail _ meetsPrev, others _ prevMember prevOther⟩
    · have same : ∀ q ∈ visited, self.next q = self'.next q := by
        intro q qMember
        have notTop : q ≠ p := by
          rintro rfl
          exact absent qMember
        have notPrev : q ≠ self.prev p := by
          rintro rfl
          exact meetsPrev qMember
        rw [relinked.next, Function.update_of_ne notTop, Function.update_of_ne notPrev]
      obtain ⟨q, qMember, valid⟩ := stuck visited (rest.congr same) nodup
      have notTop : q ≠ p := by
        rintro rfl
        exact absent qMember
      exact ⟨q, .tail _ qMember, others q ((linked.members q).mpr valid) notTop⟩

end Stack

/-- What is done to a list. -/
inductive Operation (A : Type) where
  | insertAfter (p : Nat) (a : A)
  | insertBefore (p : Nat) (a : A)
  | remove (p : Nat)

/-- The states after a sequence of operations, the last one first. -/
inductive Reached (initialLen : Nat) : DList A → List (Operation A) → Prop
  | alloc : Reached initialLen (alloc initialLen) []
  | insertAfter {self self' : DList A} {operations : List (Operation A)} {p p' : Nat} {a : A}
      (reached : Reached initialLen self operations) (pointer : self.MaybePtr p)
      (result : self.insertAfter p a = some (self', p')) :
      Reached initialLen self' (.insertAfter p a :: operations)
  | insertBefore {self self' : DList A} {operations : List (Operation A)} {p p' : Nat} {a : A}
      (reached : Reached initialLen self operations) (pointer : self.MaybePtr p)
      (result : self.insertBefore p a = some (self', p')) :
      Reached initialLen self' (.insertBefore p a :: operations)
  | remove {self self' : DList A} {operations : List (Operation A)} {p : Nat}
      (reached : Reached initialLen self operations) (pointer : self.ValidPtr p)
      (result : self.remove p = some self') :
      Reached initialLen self' (.remove p :: operations)

/-- `self'` is the list after an insertion in `self`. -/
def Inserts (self self' : DList A) : Prop :=
  ∃ p a p', self.MaybePtr p ∧
    (self.insertAfter p a = some (self', p') ∨ self.insertBefore p a = some (self', p'))

/-- The element of the last operation, if that was an insertion. -/
def lastInserted : List (Operation A) → Option A
  | .insertAfter _ a :: _ | .insertBefore _ a :: _ => some a
  | _ => none

/-- Some insertion directly follows another one. -/
def Consecutive : List (Operation A) → Prop
  | [] => False
  | operation :: operations => Consecutive operations ∨
      (lastInserted (operation :: operations)).isSome ∧ (lastInserted operations).isSome

/-- A slot is empty that is not the next one to be taken. -/
def Spare (self : DList A) : Prop :=
  ∃ p, 0 < p ∧ p < self.nodes.length ∧ self.data p = none ∧ p ≠ self.freeStack

section Run

variable {self self' : DList A} {p p' : Nat} {a : A} {f : List Nat}
  {operations : List (Operation A)} {initialLen : Nat}

theorem Linked.insertAfter_pointer (linked : Linked self f) (pointer : self.MaybePtr p) (a : A) :
    ∃ before after self' p', self.insertAfter p a = some (self', p') ∧
      Inserted self self' before after p' a := by
  rcases pointer with rfl | valid
  · rw [← List.nil_append f] at linked
    exact ⟨[], f, linked.insertAfter a⟩
  · obtain ⟨before, after, rfl⟩ := List.append_of_mem ((linked.members p).mpr valid)
    rw [List.append_cons] at linked
    have inserted := linked.insertAfter a
    rw [last_concat] at inserted
    exact ⟨before ++ [p], after, inserted⟩

theorem Linked.insertBefore_pointer (linked : Linked self f) (pointer : self.MaybePtr p) (a : A) :
    ∃ before after self' p', self.insertBefore p a = some (self', p') ∧
      Inserted self self' before after p' a := by
  rcases pointer with rfl | valid
  · rw [← List.append_nil f] at linked
    exact ⟨f, [], linked.insertBefore a⟩
  · obtain ⟨before, after, rfl⟩ := List.append_of_mem ((linked.members p).mpr valid)
    have inserted := linked.insertBefore a
    rw [List.reverse_cons, last_concat] at inserted
    exact ⟨before, p :: after, inserted⟩

/-- Either nothing has been done, or the free stack is stuck and the last operation tells whether
the next insertion grows the array. -/
structure Kept (initialLen : Nat) (list : DList A) (operations : List (Operation A))
    (f : List Nat) : Prop where
  linked : Linked list f
  untouched : operations = [] → list = alloc initialLen
  stuck : operations ≠ [] → Stuck list
  grows : operations ≠ [] → (list.Grows ↔ (lastInserted operations).isSome)
  top : operations ≠ [] → list.freeStack ≠ 0
  tight : initialLen ≤ 2 → ¬Consecutive operations → list.nodes.length ≤ 2
  spare : 2 < initialLen ∨ Consecutive operations → Spare list

theorem Inserted.spare {before after : List Nat} (inserted : Inserted self self' before after p a)
    (spare : Spare self) : Spare self' := by
  obtain ⟨q, positive, within, empty, other⟩ := spare
  have bounds : q < self'.nodes.length ∧ q ≠ p := by
    by_cases grows : self.Grows
    · have longer := length_expand (Nat.zero_lt_of_lt within)
      have isTop := freeStack_expand self
      obtain ⟨isLength, isSlot⟩ := inserted.expanded grows
      omega
    · obtain ⟨isLength, isSlot⟩ := inserted.unchanged grows
      omega
  refine ⟨q, positive, bounds.1, ?_, inserted.freeStack ▸ bounds.2⟩
  rw [inserted.data, Function.update_of_ne bounds.2, empty]

/-- An insertion into an array of two slots that must grow leaves two of four slots empty. -/
theorem Inserted.spare_of_grows {before after : List Nat}
    (inserted : Inserted self self' before after p a) (grows : self.Grows)
    (isTwo : self.nodes.length = 2) : Spare self' := by
  have longer := length_expand_of_lt (isTwo ▸ by decide : self.nodes.length < 0x7fffffffffffffff)
  have isTop := freeStack_expand self
  obtain ⟨isLength, isSlot⟩ := inserted.expanded grows
  have outside : self.data 2 = none := by
    rw [DList.data, List.getElem?_eq_none isTwo.le, Option.bind_none]
  refine ⟨2, by omega, by omega, ?_, inserted.freeStack ▸ by omega⟩
  rw [inserted.data, Function.update_of_ne (by omega), outside]

theorem Kept.insert {before after : List Nat} {operation : Operation A}
    (kept : Kept initialLen self operations f)
    (inserted : Inserted self self' before after p a)
    (isLast : lastInserted (operation :: operations) = some a) :
    Kept initialLen self' (operation :: operations) (before ++ p :: after) := by
  have valid : self'.ValidPtr self'.freeStack := by
    rw [inserted.freeStack]
    exact (inserted.linked.members p).mp (by simp)
  have nonzero : self'.freeStack ≠ 0 := by
    rw [inserted.freeStack]
    exact inserted.linked.ne_zero_of_mem (by simp)
  constructor
  case linked => exact inserted.linked
  case untouched => exact nofun
  case stuck => exact fun _ => stuck_of_grows nonzero valid
  case grows => exact fun _ => iff_of_true (.inr valid) (by rw [isLast]; rfl)
  case top => exact fun _ => nonzero
  case tight =>
    intro small apart
    rw [Consecutive, isLast, not_or, not_and] at apart
    have short := kept.tight small apart.1
    by_cases grows : self.Grows
    · -- only the array of one slot grows, before the first operation
      have untouched : operations = [] := by
        by_contra touched
        exact apart.2 rfl ((kept.grows touched).mp grows)
      have isAlloc := kept.untouched untouched
      rw [isAlloc, Grows, ValidPtr, data_alloc] at grows
      have isOne : (alloc initialLen : DList A).freeStack = 0 := by simpa using grows
      have isTop : (alloc initialLen : DList A).freeStack = initialLen - 1 := rfl
      have isLength : self.nodes.length = initialLen := by rw [isAlloc, length_alloc]
      rw [(inserted.expanded (isAlloc ▸ .inl isOne)).1, length_expand_of_lt (by omega)]
      omega
    · rw [(inserted.unchanged grows).1]
      exact short
  case spare =>
    intro wide
    by_cases wideBefore : 2 < initialLen ∨ Consecutive operations
    · exact inserted.spare (kept.spare wideBefore)
    · obtain ⟨small, apart⟩ := not_or.mp wideBefore
      have again := ((wide.resolve_left small).resolve_left apart).2
      have touched : operations ≠ [] := by
        rintro rfl
        cases again
      have short := kept.tight (not_lt.mp small) apart
      have free := kept.linked.free
      have nonzero := kept.top touched
      exact inserted.spare_of_grows ((kept.grows touched).mpr again) (by omega)

theorem Kept.remove (kept : Kept initialLen self operations f) (pointer : self.ValidPtr p)
    (result : self.remove p = some self') :
    ∃ f', Kept initialLen self' (.remove p :: operations) f' := by
  have member := (kept.linked.members p).mpr pointer
  have touched : operations ≠ [] := by
    intro none
    rw [kept.untouched none, ValidPtr, data_alloc] at pointer
    simp at pointer
  obtain ⟨before, after, rfl⟩ := List.append_of_mem member
  obtain ⟨self₁, succeeds, linked, relinked, isFree⟩ := kept.linked.remove
  obtain rfl : self' = self₁ := Option.mem_unique result succeeds
  have nonzero := kept.linked.ne_zero_of_mem member
  have isPrev : self.prev p = 0 ∨ self.prev p ∈ before ++ p :: after ∧ self.prev p ≠ p := by
    have nodup := kept.linked.ring.nodup
    have prevMember := last_mem 0 before
    rw [← kept.linked.ring.prev_member] at prevMember
    grind
  refine ⟨before ++ after, ⟨linked, by simp, fun _ => ?_,
    fun _ => iff_of_false ?_ Bool.false_ne_true, fun _ => isFree ▸ nonzero, ?_, ?_⟩⟩
  · apply (kept.stuck touched).unlink kept.linked member relinked isFree _ isPrev
    intro q qMember other
    exact (validPtr_erase relinked.data).mpr ⟨other, (kept.linked.members q).mp qMember⟩
  · rw [Grows, isFree, validPtr_erase relinked.data]
    simp [nonzero]
  · intro small apart
    rw [relinked.length]
    exact kept.tight small fun earlier => apart (.inl earlier)
  · intro wide
    obtain ⟨q, positive, within, empty, -⟩ := kept.spare (wide.imp_right fun earlier =>
      earlier.resolve_right fun both => Bool.false_ne_true both.1)
    have other : q ≠ p := by
      rintro rfl
      rw [ValidPtr, empty] at pointer
      cases pointer
    refine ⟨q, positive, relinked.length.symm ▸ within, ?_, isFree ▸ other⟩
    rw [relinked.data, Function.update_of_ne other, empty]

theorem Reached.kept (positive : 0 < initialLen) (reached : Reached initialLen self operations) :
    ∃ f, Kept initialLen self operations f := by
  induction reached with
  | alloc =>
    refine ⟨[], linked_alloc positive, fun _ => rfl, fun some => absurd rfl some,
      fun some => absurd rfl some, fun some => absurd rfl some, fun small _ => ?_, fun wide => ?_⟩
    · rw [length_alloc]
      exact small
    · have isTop : (DList.alloc initialLen : DList A).freeStack = initialLen - 1 := rfl
      have large := wide.resolve_right id
      exact ⟨1, Nat.one_pos, by rw [length_alloc]; omega, by rw [data_alloc], by omega⟩
  | insertAfter reached pointer result ih =>
    obtain ⟨f, kept⟩ := ih
    obtain ⟨before, after, self', p', succeeds, inserted⟩ :=
      kept.linked.insertAfter_pointer pointer _
    obtain ⟨rfl, rfl⟩ := Prod.mk.inj (Option.mem_unique result succeeds)
    exact ⟨_, kept.insert inserted rfl⟩
  | insertBefore reached pointer result ih =>
    obtain ⟨f, kept⟩ := ih
    obtain ⟨before, after, self', p', succeeds, inserted⟩ :=
      kept.linked.insertBefore_pointer pointer _
    obtain ⟨rfl, rfl⟩ := Prod.mk.inj (Option.mem_unique result succeeds)
    exact ⟨_, kept.insert inserted rfl⟩
  | remove reached pointer result ih =>
    obtain ⟨f, kept⟩ := ih
    exact kept.remove pointer result

end Run

section Reuse

variable {self self' : DList A} {f : List Nat} {operations : List (Operation A)} {initialLen : Nat}

theorem Inserted.grown {before after : List Nat} {p : Nat} {a : A}
    (inserted : Inserted self self' before after p a) (linked : Linked self f) :
    self.nodes.length < self'.nodes.length ↔ self.Grows := by
  by_cases grows : self.Grows
  · rw [(inserted.expanded grows).1]
    exact iff_of_true (length_expand (Nat.zero_lt_of_lt linked.free)) grows
  · rw [(inserted.unchanged grows).1]
    exact iff_of_false (lt_irrefl _) grows

theorem Linked.length_lt_iff (linked : Linked self f) (inserts : Inserts self self') :
    self.nodes.length < self'.nodes.length ↔ self.Grows := by
  obtain ⟨_, a, _, pointer, result | result⟩ := inserts
  · obtain ⟨before, after, self₁, p₁, succeeds, inserted⟩ := linked.insertAfter_pointer pointer a
    obtain ⟨rfl, rfl⟩ := Prod.mk.inj (Option.mem_unique result succeeds)
    exact inserted.grown linked
  · obtain ⟨before, after, self₁, p₁, succeeds, inserted⟩ := linked.insertBefore_pointer pointer a
    obtain ⟨rfl, rfl⟩ := Prod.mk.inj (Option.mem_unique result succeeds)
    exact inserted.grown linked

theorem Linked.exists_inserts (linked : Linked self f) (a : A) : ∃ self', Inserts self self' := by
  obtain ⟨_, _, self', p', succeeds, -⟩ := linked.insertAfter_pointer (p := 0) (.inl rfl) a
  exact ⟨self', 0, a, p', .inl rfl, .inl succeeds⟩

theorem full_of_grows_alloc (grows : (alloc initialLen : DList A).Grows) :
    Full (alloc initialLen : DList A) := by
  intro p positive within
  rw [length_alloc] at within
  rw [Grows, ValidPtr, data_alloc, alloc] at grows
  simp only [Option.isSome_none, Bool.false_eq_true, or_false] at grows
  omega

/-- An insertion grows the array of a full list only, or it follows another insertion. -/
theorem Kept.grows_iff (kept : Kept initialLen self operations f) :
    (∀ self', Inserts self self' → self.nodes.length < self'.nodes.length → Full self) ↔
      ((lastInserted operations).isSome → Full self) := by
  constructor
  · intro onlyFull inserted
    obtain ⟨a, isLast⟩ := Option.isSome_iff_exists.mp inserted
    have touched : operations ≠ [] := by
      rintro rfl
      cases isLast
    obtain ⟨self', inserts⟩ := kept.linked.exists_inserts a
    apply onlyFull self' inserts
    rw [kept.linked.length_lt_iff inserts, kept.grows touched]
    exact inserted
  · intro onlyFull self' inserts longer
    rw [kept.linked.length_lt_iff inserts] at longer
    by_cases touched : operations = []
    · rw [kept.untouched touched] at longer ⊢
      exact full_of_grows_alloc longer
    · exact onlyFull ((kept.grows touched).mp longer)

theorem Kept.full_iff (kept : Kept initialLen self operations f)
    (inserted : (lastInserted operations).isSome) :
    Full self ↔ initialLen ≤ 2 ∧ ¬Consecutive operations := by
  have touched : operations ≠ [] := by
    rintro rfl
    cases inserted
  constructor
  · intro full
    by_contra wide
    rw [← not_lt, ← not_or, not_not] at wide
    obtain ⟨p, positive, within, empty, -⟩ := kept.spare wide
    have valid := full p positive within
    rw [ValidPtr, empty] at valid
    cases valid
  · rintro ⟨small, apart⟩ p positive within
    have short := kept.tight small apart
    have free := kept.linked.free
    have nonzero := kept.top touched
    obtain rfl : p = self.freeStack := by omega
    exact ((kept.grows touched).mpr inserted).resolve_left nonzero

theorem Kept.complete_iff (kept : Kept initialLen self operations f) (positive : 0 < initialLen) :
    FreeStackComplete self ↔ operations = [] := by
  constructor
  · intro complete
    by_contra touched
    exact (kept.stuck touched).not_complete complete
  · intro untouched
    rw [kept.untouched untouched]
    exact freeStackComplete_alloc initialLen positive

/-- The operations of a run succeed.  The free stack is complete in the first state only, and an
insertion grows the array of a full list only, exactly if it does not follow another one or the
array was made with at most two slots and no insertion followed another one before. -/
theorem free_slots_reused_iff (positive : 0 < initialLen)
    (reached : Reached initialLen self operations) :
    (∀ p a, self.MaybePtr p → (self.insertAfter p a).isSome ∧ (self.insertBefore p a).isSome) ∧
      (∀ p, self.ValidPtr p → (self.remove p).isSome) ∧
      (FreeStackComplete self ↔ operations = []) ∧
      ((∀ self', Inserts self self' → self.nodes.length < self'.nodes.length → Full self) ↔
        lastInserted operations = none ∨ initialLen ≤ 2 ∧ ¬Consecutive operations) := by
  obtain ⟨_, kept⟩ := reached.kept positive
  refine ⟨?_, ?_, kept.complete_iff positive, ?_⟩
  · intro p a pointer
    obtain ⟨_, _, _, _, after, -⟩ := kept.linked.insertAfter_pointer pointer a
    obtain ⟨_, _, _, _, before, -⟩ := kept.linked.insertBefore_pointer pointer a
    rw [after, before]
    exact ⟨rfl, rfl⟩
  · intro p valid
    obtain ⟨before, after, rfl⟩ := List.append_of_mem ((kept.linked.members p).mpr valid)
    obtain ⟨self', succeeds, -⟩ := kept.linked.remove
    rw [succeeds]
    rfl
  · rw [kept.grows_iff]
    cases isLast : lastInserted operations with
    | none => simp
    | some a => simp [kept.full_iff (isLast ▸ rfl)]

/-- The list of three slots after the first insertion. -/
def oneElement : DList Nat := ⟨[⟨none, 2, 2⟩, ⟨none, 0, 0⟩, ⟨some 7, 0, 0⟩], 2⟩

theorem alloc_three : (alloc 3 : DList Nat) = ⟨[⟨none, 0, 0⟩, ⟨none, 0, 0⟩, ⟨none, 1, 0⟩], 2⟩ := by
  simp [alloc, buildFreeStack]

theorem reached_oneElement : Reached 3 oneElement [.insertAfter 0 7] := by
  have result : (alloc 3).insertAfter 0 7 = some (oneElement, 2) := by
    rw [alloc_three]
    rfl
  exact Reached.alloc.insertAfter (.inl rfl) result

theorem reached_emptied : ∃ self, Reached 3 self [.remove 2, .insertAfter 0 7] ∧
    oneElement.remove 2 = some self :=
  ⟨_, reached_oneElement.remove rfl rfl, rfl⟩

/-- Before the first operation and after a removal an insertion does not grow an array with an empty
slot, after an insertion it does. -/
theorem free_slots_reused_iff_emptied :
    (∀ self', Inserts (alloc 3 : DList Nat) self' →
      (alloc 3 : DList Nat).nodes.length < self'.nodes.length → Full (alloc 3 : DList Nat)) ∧
    (¬∀ self', Inserts oneElement self' →
      oneElement.nodes.length < self'.nodes.length → Full oneElement) ∧
    ∃ self, Reached 3 self [.remove 2, .insertAfter 0 7] ∧ ¬FreeStackComplete self ∧
      ∀ self', Inserts self self' → self.nodes.length < self'.nodes.length → Full self := by
  obtain ⟨self, reached, -⟩ := reached_emptied
  refine ⟨(free_slots_reused_iff (by decide) .alloc).2.2.2.mpr (.inl rfl), fun reused => ?_,
    self, reached, ?_, (free_slots_reused_iff (by decide) reached).2.2.2.mpr (.inl rfl)⟩
  · have := (free_slots_reused_iff (by decide) reached_oneElement).2.2.2.mp reused
    simp [lastInserted] at this
  · rw [(free_slots_reused_iff (by decide) reached).2.2.1]
    exact List.cons_ne_nil _ _

/-- The free stack starts at the slot with the element, so the next insertion doubles the array
although slot one is empty. -/
theorem empty_slot_not_reused :
    Reached 3 oneElement [.insertAfter 0 7] ∧ ¬FreeStackComplete oneElement ∧
      ∃ self', Inserts oneElement self' ∧ oneElement.nodes.length = 3 ∧
        self'.nodes.length = 6 ∧ oneElement.data 1 = none := by
  have valid : oneElement.ValidPtr oneElement.freeStack := rfl
  have grown : oneElement.expand = ⟨[⟨none, 2, 2⟩, ⟨none, 0, 0⟩, ⟨some 7, 0, 0⟩, ⟨none, 2, 0⟩,
      ⟨none, 3, 0⟩, ⟨none, 4, 0⟩], 5⟩ := by
    simp [expand, oneElement, buildFreeStack, List.replicate]
  refine ⟨reached_oneElement, (stuck_of_grows (by decide) valid).not_complete, ?_⟩
  refine ⟨⟨[⟨none, 5, 2⟩, ⟨none, 0, 0⟩, ⟨some 7, 0, 5⟩, ⟨none, 2, 0⟩, ⟨none, 3, 0⟩,
    ⟨some 8, 2, 0⟩], 5⟩, ⟨0, 8, 5, .inl rfl, .inl ?_⟩, rfl, rfl, rfl⟩
  rw [insertAfter, makeRoom_of_grows (by decide) (.inr valid), grown]
  rfl

end Reuse

end VerifiedBetrfs.DList
