import VerifiedBetrfs.LinkedRing
import Mathlib.Data.List.Perm.Subperm

/-!
# The doubly linked list in an array

The nodes are slots of an array, with a sentinel in slot zero.  Slot numbers are natural numbers,
and an access outside the array is `none`.
-/

namespace VerifiedBetrfs

open Function (update_apply update_eq_self update_of_ne)

/-- A slot of the array; in an empty one `next` is the next free slot. -/
structure DList.Node (A : Type) where
  data : Option A
  next : Nat
  prev : Nat
  deriving DecidableEq, Repr

/-- A doubly linked list in an array. -/
structure DList (A : Type) where
  nodes : List (DList.Node A)
  freeStack : Nat
  deriving DecidableEq, Repr

namespace DList

open LinkedRing

variable {A : Type}

/-- The loop from slot `n` on: each slot points to the one before it. -/
def buildFreeStack (a : List (Node A)) (n : Nat) : List (Node A) :=
  if n < a.length then buildFreeStack (a.set n ⟨none, n - 1, 0⟩) (n + 1) else a
termination_by a.length - n
decreasing_by simp; omega

def alloc (initialLen : Nat) : DList A :=
  ⟨buildFreeStack (List.replicate initialLen ⟨none, 0, 0⟩) 1, initialLen - 1⟩

section

variable (self : DList A)

/-- The array is doubled, and its new slots are put on the free stack. -/
def expand : DList A :=
  let len := self.nodes.length
  let len' := if len < 0x7fffffffffffffff then len + len else len + 1
  let nodes := self.nodes ++ List.replicate (len' - len) ⟨none, self.freeStack, 0⟩
  ⟨buildFreeStack nodes (len + 1), len' - 1⟩

/-- The slot is taken out and put on the free stack. -/
def remove (p : Nat) : Option (DList A) := do
  let node ← self.nodes[p]?
  let nodePrev ← self.nodes[node.prev]?
  let nodes := self.nodes.set node.prev { nodePrev with next := node.next }
  let nodeNext ← nodes[node.next]?
  let nodes := nodes.set node.next { nodeNext with prev := node.prev }
  return ⟨nodes.set p ⟨none, self.freeStack, 0⟩, p⟩

/-- The array grows if the slot at `freeStack` is the sentinel or holds an element. -/
def makeRoom : Option (DList A) := do
  let freeNode ← self.nodes[self.freeStack]?
  if self.freeStack = 0 ∨ freeNode.data.isSome then return self.expand
  return self

/-- The slot is taken from `freeStack`, which is left as it is. -/
def insertAfter (p : Nat) (a : A) : Option (DList A × Nat) := do
  let self ← self.makeRoom
  let p' := self.freeStack
  let node ← self.nodes[p]?
  let nodes := self.nodes.set p { node with next := p' }
  let nodeNext ← nodes[node.next]?
  let nodes := nodes.set node.next { nodeNext with prev := p' }
  return ({ self with nodes := nodes.set p' ⟨some a, node.next, p⟩ }, p')

def insertBefore (p : Nat) (a : A) : Option (DList A × Nat) := do
  let self ← self.makeRoom
  let p' := self.freeStack
  let node ← self.nodes[p]?
  let nodes := self.nodes.set p { node with prev := p' }
  let nodePrev ← nodes[node.prev]?
  let nodes := nodes.set node.prev { nodePrev with next := p' }
  return ({ self with nodes := nodes.set p' ⟨some a, p, node.prev⟩ }, p')

end

section

variable (self : DList A) (p : Nat)

def data : Option A := self.nodes[p]?.bind Node.data

def next : Nat := (self.nodes[p]?.map Node.next).getD 0

def prev : Nat := (self.nodes[p]?.map Node.prev).getD 0

def get : Option A := self.data p

/-- The elements from slot `p` on, at most `fuel` of them. -/
def seqFrom : Nat → Nat → List A
  | 0, _ => []
  | fuel + 1, p =>
    match self.data p with
    | some a => a :: seqFrom fuel (self.next p)
    | none => []

/-- The elements in the order of the links: the sentinel, which has none, ends the list. -/
def seq : List A := self.seqFrom self.nodes.length (self.next 0)

/-- The slots that hold an element are the valid pointers. -/
def ValidPtr : Prop := (self.data p).isSome

def MaybePtr : Prop := p = 0 ∨ self.ValidPtr p

end

section Slots

variable {self : DList A} {p q : Nat}

theorem getElem?_eq (self : DList A) (within : p < self.nodes.length) :
    self.nodes[p]? = some ⟨self.data p, self.next p, self.prev p⟩ := by
  simp [data, next, prev, List.getElem?_eq_getElem within]

theorem lt_of_validPtr (valid : self.ValidPtr p) : p < self.nodes.length := by
  by_contra outside
  rw [ValidPtr, data, List.getElem?_eq_none (not_lt.mp outside)] at valid
  simp at valid

end Slots

theorem length_buildFreeStack (a : List (Node A)) (n : Nat) :
    (buildFreeStack a n).length = a.length := by
  fun_induction buildFreeStack a n with
  | case1 a n within ih => rw [ih, List.length_set]
  | case2 => rfl

theorem getElem?_buildFreeStack (a : List (Node A)) (n p : Nat) :
    (buildFreeStack a n)[p]? =
      if n ≤ p ∧ p < a.length then some ⟨none, p - 1, 0⟩ else a[p]? := by
  fun_induction buildFreeStack a n with
  | case1 a n within ih =>
    rw [ih, List.length_set]
    by_cases same : p = n
    · subst same
      rw [if_neg (by omega), if_pos ⟨le_rfl, within⟩, List.getElem?_set_self within]
    · rw [List.getElem?_set_ne (Ne.symm same)]
      congr 1
      simp only [eq_iff_iff]
      omega
  | case2 a n outside => rw [if_neg (by omega)]

section Effects

variable {self : DList A} {p q : Nat}

/-- The list with another node in one slot. -/
def update (self : DList A) (p : Nat) (node : Node A) : DList A :=
  { self with nodes := self.nodes.set p node }

@[simp]
theorem length_update (self : DList A) (p : Nat) (node : Node A) :
    (self.update p node).nodes.length = self.nodes.length := List.length_set

section

variable (within : p < self.nodes.length)

include within

theorem getElem?_update (node : Node A) (q : Nat) :
    (self.update p node).nodes[q]? = if q = p then some node else self.nodes[q]? := by
  rw [update]
  by_cases same : q = p
  · subst same
    rw [if_pos rfl, List.getElem?_set_self within]
  · rw [if_neg same, List.getElem?_set_ne (Ne.symm same)]

theorem data_update (node : Node A) :
    (self.update p node).data = Function.update self.data p node.data := by
  funext q
  rw [data, getElem?_update within, update_apply]
  split <;> rfl

theorem next_update (node : Node A) :
    (self.update p node).next = Function.update self.next p node.next := by
  funext q
  rw [next, getElem?_update within, update_apply]
  split <;> rfl

theorem prev_update (node : Node A) :
    (self.update p node).prev = Function.update self.prev p node.prev := by
  funext q
  rw [prev, getElem?_update within, update_apply]
  split <;> rfl

end

def setNext (self : DList A) (p q : Nat) : DList A :=
  self.update p ⟨self.data p, q, self.prev p⟩

def setPrev (self : DList A) (p q : Nat) : DList A :=
  self.update p ⟨self.data p, self.next p, q⟩

@[simp]
theorem length_setNext (self : DList A) (p q : Nat) :
    (self.setNext p q).nodes.length = self.nodes.length := length_update _ _ _

@[simp]
theorem length_setPrev (self : DList A) (p q : Nat) :
    (self.setPrev p q).nodes.length = self.nodes.length := length_update _ _ _

section

variable (within : p < self.nodes.length)

include within

theorem data_setNext : (self.setNext p q).data = self.data := by
  rw [setNext, data_update within, update_eq_self]

theorem next_setNext : (self.setNext p q).next = Function.update self.next p q := by
  rw [setNext, next_update within]

theorem prev_setNext : (self.setNext p q).prev = self.prev := by
  rw [setNext, prev_update within, update_eq_self]

theorem data_setPrev : (self.setPrev p q).data = self.data := by
  rw [setPrev, data_update within, update_eq_self]

theorem next_setPrev : (self.setPrev p q).next = self.next := by
  rw [setPrev, next_update within, update_eq_self]

theorem prev_setPrev : (self.setPrev p q).prev = Function.update self.prev p q := by
  rw [setPrev, prev_update within]

end

end Effects

section Links

variable {self self' : DList A} {p q a b x y c : Nat} {node : Node A}

/-- Slot `a` leads to `x`, slot `b` back to `y`, and then slot `c` is overwritten. -/
structure Relinked (list list' : DList A) (a x b y c : Nat) (node : Node A) : Prop where
  length : list'.nodes.length = list.nodes.length
  data : list'.data = Function.update list.data c node.data
  next : list'.next = Function.update (Function.update list.next a x) c node.next
  prev : list'.prev = Function.update (Function.update list.prev b y) c node.prev

section

variable (aWithin : a < self.nodes.length) (bWithin : b < self.nodes.length)
  (cWithin : c < self.nodes.length) (freeStack : Nat)

include aWithin bWithin cWithin freeStack

theorem relinked_setPrev_setNext :
    Relinked self ⟨(((self.setNext a x).setPrev b y).update c node).nodes, freeStack⟩
      a x b y c node where
  length := by simp
  data := by
    change (((self.setNext a x).setPrev b y).update c node).data = _
    rw [data_update (by simpa), data_setPrev (by simpa), data_setNext aWithin]
  next := by
    change (((self.setNext a x).setPrev b y).update c node).next = _
    rw [next_update (by simpa), next_setPrev (by simpa), next_setNext aWithin]
  prev := by
    change (((self.setNext a x).setPrev b y).update c node).prev = _
    rw [prev_update (by simpa), prev_setPrev (by simpa), prev_setNext aWithin]

theorem relinked_setNext_setPrev :
    Relinked self ⟨(((self.setPrev b y).setNext a x).update c node).nodes, freeStack⟩
      a x b y c node where
  length := by simp
  data := by
    change (((self.setPrev b y).setNext a x).update c node).data = _
    rw [data_update (by simpa), data_setNext (by simpa), data_setPrev bWithin]
  next := by
    change (((self.setPrev b y).setNext a x).update c node).next = _
    rw [next_update (by simpa), next_setNext (by simpa), next_setPrev bWithin]
  prev := by
    change (((self.setPrev b y).setNext a x).update c node).prev = _
    rw [prev_update (by simpa), prev_setNext (by simpa), prev_setPrev bWithin]

end

theorem exists_remove (within : p < self.nodes.length)
    (prevWithin : self.prev p < self.nodes.length) (nextWithin : self.next p < self.nodes.length) :
    ∃ self', self.remove p = some self' ∧
      Relinked self self' (self.prev p) (self.next p) (self.next p) (self.prev p) p
        ⟨none, self.freeStack, 0⟩ ∧
      self'.freeStack = p := by
  have nextNode := getElem?_eq (self.setNext (self.prev p) (self.next p)) (p := self.next p)
    (by simpa)
  refine ⟨_, ?_, relinked_setPrev_setNext prevWithin nextWithin within p, rfl⟩
  rw [setNext, update] at nextNode
  rw [remove, getElem?_eq self within]
  simp only [Option.bind_eq_bind, Option.bind_some]
  rw [getElem?_eq self prevWithin]
  simp only [Option.bind_some]
  rw [nextNode]
  rfl

theorem exists_insertAfter (roomy : self.makeRoom = some self) (within : p < self.nodes.length)
    (nextWithin : self.next p < self.nodes.length) (freeWithin : self.freeStack < self.nodes.length)
    (d : A) :
    ∃ self', self.insertAfter p d = some (self', self.freeStack) ∧
      Relinked self self' p self.freeStack (self.next p) self.freeStack self.freeStack
        ⟨some d, self.next p, p⟩ ∧
      self'.freeStack = self.freeStack := by
  have nextNode := getElem?_eq (self.setNext p self.freeStack) (p := self.next p) (by simpa)
  refine ⟨_, ?_, relinked_setPrev_setNext within nextWithin freeWithin self.freeStack, rfl⟩
  rw [setNext, update] at nextNode
  rw [insertAfter, roomy]
  simp only [Option.bind_eq_bind, Option.bind_some]
  rw [getElem?_eq self within]
  simp only [Option.bind_some]
  rw [nextNode]
  rfl

theorem exists_insertBefore (roomy : self.makeRoom = some self) (within : p < self.nodes.length)
    (prevWithin : self.prev p < self.nodes.length) (freeWithin : self.freeStack < self.nodes.length)
    (d : A) :
    ∃ self', self.insertBefore p d = some (self', self.freeStack) ∧
      Relinked self self' (self.prev p) self.freeStack p self.freeStack self.freeStack
        ⟨some d, p, self.prev p⟩ ∧
      self'.freeStack = self.freeStack := by
  have prevNode := getElem?_eq (self.setPrev p self.freeStack) (p := self.prev p) (by simpa)
  refine ⟨_, ?_, relinked_setNext_setPrev prevWithin within freeWithin self.freeStack, rfl⟩
  rw [setPrev, update] at prevNode
  rw [insertBefore, roomy]
  simp only [Option.bind_eq_bind, Option.bind_some]
  rw [getElem?_eq self within]
  simp only [Option.bind_some]
  rw [prevNode]
  rfl

end Links

section Growing

variable {self room : DList A} {p : Nat} {f : List Nat}

/-- The test that both insertions make before they take a slot. -/
def Grows (self : DList A) : Prop := self.freeStack = 0 ∨ self.ValidPtr self.freeStack

theorem length_expand (occupied : 0 < self.nodes.length) :
    self.nodes.length < self.expand.nodes.length := by
  simp only [expand, length_buildFreeStack, List.length_append, List.length_replicate]
  split <;> omega

theorem length_expand_of_lt (small : self.nodes.length < 0x7fffffffffffffff) :
    self.expand.nodes.length = 2 * self.nodes.length := by
  simp only [expand, length_buildFreeStack, List.length_append, List.length_replicate, if_pos small]
  omega

theorem freeStack_expand (self : DList A) :
    self.expand.freeStack = self.expand.nodes.length - 1 := by
  simp only [expand, length_buildFreeStack, List.length_append, List.length_replicate]
  split <;> omega

theorem getElem?_expand (within : p < self.nodes.length) :
    self.expand.nodes[p]? = self.nodes[p]? := by
  rw [expand, getElem?_buildFreeStack, if_neg (by omega), List.getElem?_append_left within]

theorem data_expand (self : DList A) : self.expand.data = self.data := by
  funext p
  by_cases within : p < self.nodes.length
  · rw [data, getElem?_expand within, data]
  · rw [data, data, List.getElem?_eq_none (not_lt.mp within), expand, getElem?_buildFreeStack]
    generalize (if self.nodes.length < 0x7fffffffffffffff then self.nodes.length +
      self.nodes.length else self.nodes.length + 1) = len'
    split
    · rfl
    · rw [List.getElem?_append_right (not_lt.mp within), List.getElem?_replicate]
      split <;> rfl

theorem next_expand (within : p < self.nodes.length) : self.expand.next p = self.next p := by
  rw [next, getElem?_expand within, next]

theorem prev_expand (within : p < self.nodes.length) : self.expand.prev p = self.prev p := by
  rw [prev, getElem?_expand within, prev]

theorem makeRoom_of_grows (within : self.freeStack < self.nodes.length) (grows : self.Grows) :
    self.makeRoom = some self.expand := by
  rw [makeRoom, getElem?_eq self within]
  exact if_pos grows

theorem makeRoom_of_not_grows (within : self.freeStack < self.nodes.length)
    (stays : ¬self.Grows) : self.makeRoom = some self := by
  rw [makeRoom, getElem?_eq self within]
  exact if_neg stays

end Growing

/-- The slots with an element are linked in the order of `f`, from the sentinel back to it. -/
structure Linked (list : DList A) (f : List Nat) : Prop where
  ring : Ring list.next list.prev 0 f
  members : ∀ p, p ∈ f ↔ list.ValidPtr p
  free : list.freeStack < list.nodes.length

section Linked

variable {self self' : DList A} {p q : Nat} {f before after : List Nat} {initialLen : Nat} {d : A}

theorem Linked.lt_of_mem (linked : Linked self f) (member : p ∈ 0 :: f) :
    p < self.nodes.length := by
  rcases List.mem_cons.mp member with rfl | member
  · exact Nat.zero_lt_of_lt linked.free
  · exact lt_of_validPtr ((linked.members p).mp member)

theorem Linked.ne_zero_of_mem (linked : Linked self f) (member : p ∈ f) : p ≠ 0 := by
  rintro rfl
  exact (List.nodup_cons.mp linked.ring.nodup).1 member

theorem Linked.length_lt (linked : Linked self f) : f.length < self.nodes.length := by
  have within : 0 :: f ⊆ List.range self.nodes.length := fun p member =>
    List.mem_range.mpr (linked.lt_of_mem member)
  have bound := (linked.ring.nodup.subperm within).length_le
  rwa [List.length_range] at bound

theorem Linked.data_zero (linked : Linked self f) : self.data 0 = none := by
  rw [← Option.not_isSome_iff_eq_none]
  exact fun valid => linked.ne_zero_of_mem ((linked.members 0).mpr valid) rfl

theorem seqFrom_of_chain {fuel : Nat} {s : List A} (noData : self.data 0 = none)
    (enough : f.length < fuel) (chain : (p :: f ++ [0]).IsChain fun x y => self.next x = y)
    (values : f.map self.data = s.map some) : self.seqFrom fuel (self.next p) = s := by
  induction fuel generalizing p f s with
  | zero => omega
  | succ fuel ih =>
    rw [List.cons_append, List.isChain_cons] at chain
    cases f with
    | nil =>
      obtain rfl : s = [] := by simpa using values
      rw [chain.1 0 rfl, seqFrom, noData]
    | cons q f =>
      obtain ⟨a, s, rfl, holds, values⟩ := List.map_eq_cons_iff.mp values.symm
      rw [chain.1 q rfl, seqFrom, ← holds]
      exact congrArg (a :: ·) (ih (Nat.lt_of_succ_lt_succ enough) chain.2 values.symm)

theorem Linked.seq_eq {s : List A} (linked : Linked self f)
    (values : f.map self.data = s.map some) : self.seq = s :=
  seqFrom_of_chain linked.data_zero linked.length_lt linked.ring.forward values

theorem data_alloc (initialLen : Nat) : (alloc initialLen : DList A).data = fun _ => none := by
  funext p
  rw [data, alloc, getElem?_buildFreeStack]
  split
  · rfl
  · rw [List.getElem?_replicate]
    split <;> rfl

theorem next_alloc (within : p < initialLen) : (alloc initialLen : DList A).next p = p - 1 := by
  rw [next, alloc, getElem?_buildFreeStack, List.length_replicate]
  by_cases isZero : p = 0
  · subst isZero
    rw [if_neg (by omega), List.getElem?_replicate, if_pos within]
    rfl
  · rw [if_pos ⟨by omega, within⟩]
    rfl

theorem prev_alloc (initialLen : Nat) : (alloc initialLen : DList A).prev 0 = 0 := by
  rw [prev, alloc, getElem?_buildFreeStack, if_neg (by omega), List.getElem?_replicate]
  split <;> rfl

theorem length_alloc (initialLen : Nat) :
    (alloc initialLen : DList A).nodes.length = initialLen := by
  rw [alloc, length_buildFreeStack, List.length_replicate]

theorem linked_alloc (positive : 0 < initialLen) : Linked (alloc initialLen : DList A) [] where
  ring :=
    { nodup := List.nodup_singleton 0
      forward := follows_nil (next_alloc positive)
      backward := follows_nil (prev_alloc initialLen) }
  members := by
    intro p
    simp [ValidPtr, data_alloc]
  free := by
    rw [length_alloc]
    exact Nat.sub_one_lt_of_lt positive

theorem Linked.expand (linked : Linked self f) : Linked self.expand f where
  ring := linked.ring.congr (fun _ member => next_expand (linked.lt_of_mem member))
    fun _ member => prev_expand (linked.lt_of_mem member)
  members := by
    intro p
    rw [linked.members p, ValidPtr, ValidPtr, data_expand]
  free := by
    have := length_expand (Nat.zero_lt_of_lt linked.free)
    rw [freeStack_expand]
    omega

/-- What `makeRoom` leaves for the insertion. -/
structure Room (list room : DList A) (f : List Nat) : Prop where
  made : list.makeRoom = some room
  stays : room.makeRoom = some room
  linked : Linked room f
  data : room.data = list.data
  nonzero : room.freeStack ≠ 0
  empty : ¬room.ValidPtr room.freeStack
  expanded : list.Grows → room = list.expand
  unchanged : ¬list.Grows → room = list

theorem Linked.exists_room (linked : Linked self f) : ∃ room, Room self room f := by
  by_cases grows : self.Grows
  · have longer := length_expand (Nat.zero_lt_of_lt linked.free)
    have isTop := freeStack_expand self
    have nonzero : self.expand.freeStack ≠ 0 := by
      have := linked.free
      omega
    have empty : ¬self.expand.ValidPtr self.expand.freeStack := by
      intro valid
      rw [ValidPtr, data_expand] at valid
      have := lt_of_validPtr valid
      omega
    exact ⟨self.expand,
      { made := makeRoom_of_grows linked.free grows
        stays := makeRoom_of_not_grows linked.expand.free (not_or.mpr ⟨nonzero, empty⟩)
        linked := linked.expand
        data := data_expand self
        nonzero := nonzero
        empty := empty
        expanded := fun _ => rfl
        unchanged := fun stays => absurd grows stays }⟩
  · have stays := makeRoom_of_not_grows linked.free grows
    exact ⟨self,
      { made := stays
        stays := stays
        linked := linked
        data := rfl
        nonzero := fun isZero => grows (.inl isZero)
        empty := fun valid => grows (.inr valid)
        expanded := fun grow => absurd grow grows
        unchanged := fun _ => rfl }⟩

theorem validPtr_update (changed : self'.data = Function.update self.data p (some d)) :
    self'.ValidPtr q ↔ q = p ∨ self.ValidPtr q := by
  rw [ValidPtr, changed, update_apply, ValidPtr]
  split <;> simp [*]

theorem validPtr_erase (changed : self'.data = Function.update self.data p none) :
    self'.ValidPtr q ↔ q ≠ p ∧ self.ValidPtr q := by
  rw [ValidPtr, changed, update_apply, ValidPtr]
  split <;> simp [*]

theorem Linked.link (linked : Linked self (before ++ after)) (nonzero : p ≠ 0)
    (empty : ¬self.ValidPtr p)
    (relinked : Relinked self self' (last 0 before) p (self.next (last 0 before)) p p
      ⟨some d, self.next (last 0 before), last 0 before⟩)
    (within : self'.freeStack < self.nodes.length) : Linked self' (before ++ p :: after) := by
  have fresh : p ∉ 0 :: (before ++ after) := by
    rw [List.mem_cons, not_or, linked.members]
    exact ⟨nonzero, empty⟩
  constructor
  case ring =>
    rw [relinked.next, relinked.prev]
    exact linked.ring.link fresh
  case members =>
    intro q
    rw [validPtr_update relinked.data, ← linked.members]
    simp only [List.mem_append, List.mem_cons]
    tauto
  case free => rwa [relinked.length]

theorem Linked.unlink (linked : Linked self (before ++ p :: after))
    (relinked : Relinked self self' (self.prev p) (self.next p) (self.next p) (self.prev p) p
      ⟨none, self.freeStack, 0⟩)
    (within : self'.freeStack < self.nodes.length) :
    Linked self' (before ++ after) := by
  have absent : p ∉ 0 :: (before ++ after) := by
    have := linked.ring.nodup
    grind
  have other : ∀ q ∈ 0 :: (before ++ after), q ≠ p := by
    rintro q member rfl
    exact absent member
  constructor
  case ring =>
    rw [relinked.next, relinked.prev]
    exact linked.ring.unlink.congr
      (fun q member => update_of_ne (other q member) _ _)
      fun q member => update_of_ne (other q member) _ _
  case members =>
    intro q
    rw [validPtr_erase relinked.data, ← linked.members]
    have := other q
    simp only [List.mem_append, List.mem_cons] at this ⊢
    tauto
  case free => rwa [relinked.length]

/-- An insertion behind `before` took the slot `p`. -/
structure Inserted (list list' : DList A) (before after : List Nat) (p : Nat) (d : A) : Prop where
  linked : Linked list' (before ++ p :: after)
  fresh : ¬list.ValidPtr p
  data : list'.data = Function.update list.data p (some d)
  freeStack : list'.freeStack = p
  expanded : list.Grows → list'.nodes.length = list.expand.nodes.length ∧ p = list.expand.freeStack
  unchanged : ¬list.Grows → list'.nodes.length = list.nodes.length ∧ p = list.freeStack

theorem Room.inserted {room : DList A} (isRoom : Room self room (before ++ after))
    (relinked : Relinked room self' (last 0 before) room.freeStack (room.next (last 0 before))
      room.freeStack room.freeStack ⟨some d, room.next (last 0 before), last 0 before⟩)
    (same : self'.freeStack = room.freeStack) :
    Inserted self self' before after room.freeStack d where
  linked := isRoom.linked.link isRoom.nonzero isRoom.empty relinked
    (same.symm ▸ isRoom.linked.free)
  fresh := by
    have empty := isRoom.empty
    rwa [ValidPtr, isRoom.data] at empty
  data := by rw [relinked.data, isRoom.data]
  freeStack := same
  expanded grows := by
    rw [relinked.length, isRoom.expanded grows]
    exact ⟨rfl, rfl⟩
  unchanged stays := by
    rw [relinked.length, isRoom.unchanged stays]
    exact ⟨rfl, rfl⟩

theorem Linked.insertAfter (linked : Linked self (before ++ after)) (d : A) :
    ∃ self' p, self.insertAfter (last 0 before) d = some (self', p) ∧
      Inserted self self' before after p d := by
  obtain ⟨room, isRoom⟩ := linked.exists_room
  have within := isRoom.linked.lt_of_mem (last_mem_append 0 before after)
  have nextWithin := isRoom.linked.lt_of_mem (last_reverse_mem_append 0 before after)
  rw [← isRoom.linked.ring.next_last] at nextWithin
  obtain ⟨self', result, relinked, same⟩ :=
    exists_insertAfter isRoom.stays within nextWithin isRoom.linked.free d
  refine ⟨self', room.freeStack, ?_, isRoom.inserted relinked same⟩
  rw [← result, DList.insertAfter, isRoom.made, DList.insertAfter, isRoom.stays]

theorem Linked.insertBefore (linked : Linked self (before ++ after)) (d : A) :
    ∃ self' p, self.insertBefore (last 0 after.reverse) d = some (self', p) ∧
      Inserted self self' before after p d := by
  obtain ⟨room, isRoom⟩ := linked.exists_room
  have within := isRoom.linked.lt_of_mem (last_reverse_mem_append 0 before after)
  have prevWithin := isRoom.linked.lt_of_mem (last_mem_append 0 before after)
  rw [← isRoom.linked.ring.prev_last] at prevWithin
  obtain ⟨self', result, relinked, same⟩ :=
    exists_insertBefore isRoom.stays within prevWithin isRoom.linked.free d
  rw [isRoom.linked.ring.prev_last, ← isRoom.linked.ring.next_last] at relinked
  refine ⟨self', room.freeStack, ?_, isRoom.inserted relinked same⟩
  rw [← result, DList.insertBefore, isRoom.made, DList.insertBefore, isRoom.stays]

theorem Linked.remove (linked : Linked self (before ++ p :: after)) :
    ∃ self', self.remove p = some self' ∧ Linked self' (before ++ after) ∧
      Relinked self self' (self.prev p) (self.next p) (self.next p) (self.prev p) p
        ⟨none, self.freeStack, 0⟩ ∧ self'.freeStack = p := by
  have within : p < self.nodes.length := linked.lt_of_mem (by simp)
  have prevWithin := linked.lt_of_mem (last_mem_append 0 before (p :: after))
  have nextWithin : last 0 after.reverse < self.nodes.length := by
    apply linked.lt_of_mem
    simpa using last_reverse_mem_append 0 (before ++ [p]) after
  rw [← linked.ring.prev_member] at prevWithin
  rw [← linked.ring.forward.next_member] at nextWithin
  obtain ⟨self', result, relinked, isFree⟩ := exists_remove within prevWithin nextWithin
  exact ⟨self', result, linked.unlink relinked (isFree.symm ▸ within), relinked, isFree⟩

end Linked

end DList
end VerifiedBetrfs
