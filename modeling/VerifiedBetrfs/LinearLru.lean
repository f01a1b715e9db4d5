import VerifiedBetrfs.LinearUSeq

/-!
# The eviction queue of the cache

A queue of distinct values, the least recently used one first.
-/

namespace VerifiedBetrfs

open LinkedRing

namespace LruModel

/-- The values of the queue other than `x`. -/
def remove (q : List UInt64) (x : UInt64) : List UInt64 := q.filter (· ≠ x)

def use (q : List UInt64) (x : UInt64) : List UInt64 := remove q x ++ [x]

/-- The least recently used member. -/
def nextOpt (q : List UInt64) : Option UInt64 := q.head?

/-- The calls that change the queue. -/
inductive Operation where
  | use (x : UInt64)
  | remove (x : UInt64)

/-- The number of operations before the last use of `x`, if it was not removed since.  The last
operation comes first. -/
def lastUse : List Operation → UInt64 → Option Nat
  | [], _ => none
  | .use x :: history, y => if y = x then some history.length else lastUse history y
  | .remove x :: history, y => if y = x then none else lastUse history y

def queue : List Operation → List UInt64
  | [] => []
  | .use x :: history => use (queue history) x
  | .remove x :: history => remove (queue history) x

/-- The last use of `x` is earlier than that of `y`. -/
def Earlier (history : List Operation) (x y : UInt64) : Prop :=
  ∃ time later, lastUse history x = some time ∧ lastUse history y = some later ∧ time < later

section Queue

variable {history : List Operation} {q : List UInt64} {x y : UInt64}

theorem mem_remove : y ∈ remove q x ↔ y ∈ q ∧ y ≠ x := by
  simp [remove]

theorem mem_queue_iff (history : List Operation) (x : UInt64) :
    x ∈ queue history ↔ (lastUse history x).isSome := by
  induction history with
  | nil => simp [queue, lastUse]
  | cons operation history ih =>
    cases operation with
    | use y =>
      rw [queue, use, List.mem_append, mem_remove, List.mem_singleton, ih, lastUse]
      by_cases same : x = y <;> simp [same]
    | remove y =>
      rw [queue, mem_remove, ih, lastUse]
      by_cases same : x = y <;> simp [same]

theorem lastUse_lt {time : Nat} (used : lastUse history x = some time) : time < history.length := by
  induction history with
  | nil => cases used
  | cons operation history ih =>
    rw [List.length_cons]
    cases operation with
    | use y =>
      rw [lastUse] at used
      split at used
      · cases used
        omega
      · have := ih used
        omega
    | remove y =>
      rw [lastUse] at used
      split at used
      · cases used
      · have := ih used
        omega

theorem pairwise_remove {history' : List Operation}
    (same : ∀ y, y ≠ x → lastUse history' y = lastUse history y)
    (sorted : q.Pairwise (Earlier history)) : (remove q x).Pairwise (Earlier history') := by
  apply (sorted.sublist List.filter_sublist).imp_of_mem
  intro y z yMember zMember earlier
  rw [Earlier, same y (mem_remove.mp yMember).2, same z (mem_remove.mp zMember).2]
  exact earlier

theorem queue_sorted (history : List Operation) : (queue history).Pairwise (Earlier history) := by
  induction history with
  | nil => exact .nil
  | cons operation history ih =>
    cases operation with
    | use x =>
      have same : ∀ y, y ≠ x → lastUse (.use x :: history) y = lastUse history y := by
        intro y other
        rw [lastUse, if_neg other]
      rw [queue, use, List.pairwise_append]
      refine ⟨pairwise_remove same ih, List.pairwise_singleton _ _, ?_⟩
      intro y member z isLast
      obtain ⟨member, other⟩ := mem_remove.mp member
      rw [List.mem_singleton.mp isLast]
      obtain ⟨time, used⟩ := Option.isSome_iff_exists.mp ((mem_queue_iff history y).mp member)
      exact ⟨time, history.length, (same y other).trans used, by rw [lastUse, if_pos rfl],
        lastUse_lt used⟩
    | remove x =>
      exact pairwise_remove (fun y other => by rw [lastUse, if_neg other]) ih

theorem Earlier.ne (earlier : Earlier history x y) : x ≠ y := by
  rintro rfl
  obtain ⟨_, _, used, used', before⟩ := earlier
  cases used.symm.trans used'
  exact lt_irrefl _ before

theorem queue_nodup (history : List Operation) : (queue history).Nodup :=
  (queue_sorted history).imp Earlier.ne

theorem nextOpt_queue_iff : nextOpt (queue history) = some x ↔
    (lastUse history x).isSome ∧
      ∀ y, (lastUse history y).isSome → y ≠ x → Earlier history x y := by
  have sorted := queue_sorted history
  have members := mem_queue_iff history
  simp only [← members]
  generalize queue history = q at sorted
  cases q with
  | nil => simp [nextOpt]
  | cons first rest =>
    obtain ⟨head, -⟩ := List.pairwise_cons.mp sorted
    rw [nextOpt, List.head?_cons, Option.some_inj]
    constructor
    · rintro rfl
      refine ⟨.head _, fun y member other => head y ?_⟩
      exact (List.mem_cons.mp member).resolve_left other
    · rintro ⟨member, earliest⟩
      rcases List.mem_cons.mp member with same | member
      · exact same.symm
      · by_contra other
        obtain ⟨_, _, used, used', _⟩ := head x member
        obtain ⟨_, _, used₁, used₁', _⟩ := earliest first (.head _) other
        cases used.symm.trans used₁'
        cases used'.symm.trans used₁
        omega

theorem nextOpt_queue_eq_none_iff :
    nextOpt (queue history) = none ↔ ∀ x, lastUse history x = none := by
  rw [nextOpt, List.head?_eq_none_iff, List.eq_nil_iff_forall_not_mem]
  simp only [mem_queue_iff, Option.not_isSome_iff_eq_none]

end Queue

end LruModel

open LruModel (lastUse queue Operation Earlier)

/-- The list of the members and a pointer to each of them. -/
structure LinearLru where
  dlist : DList UInt64
  ptrMap : LinearMutableMap.LinearHashMap Nat

namespace LinearLru

open PointerList (Represents represents_alloc)

def alloc : LinearLru := ⟨DList.alloc (128 + 1), LinearMutableMap.constructor 128⟩

def remove (hash : UInt64 → UInt64) (self : LinearLru) (x : UInt64) : Option LinearLru := do
  let (ptrMap, removed) ← LinearMutableMap.removeAndGet hash self.ptrMap x
  match removed with
  | some p => do
    let dlist ← self.dlist.remove p
    return ⟨dlist, ptrMap⟩
  | none => return ⟨self.dlist, ptrMap⟩

def use (hash : UInt64 → UInt64) (self : LinearLru) (x : UInt64) : Option LinearLru := do
  let self ← self.remove hash x
  let (dlist, p) ← self.dlist.insertBefore 0 x
  let ptrMap ← LinearMutableMap.insert hash self.ptrMap x p
  return ⟨dlist, ptrMap⟩

/-- The result is in a second `Option`: `none` is an access outside the array. -/
def nextOpt (self : LinearLru) : Option (Option UInt64) := do
  let sentinel ← self.dlist.nodes[0]?
  if sentinel.next = 0 then return none
  let first ← self.dlist.nodes[sentinel.next]?
  let x ← first.data
  return some x

section Represents

variable {hash : UInt64 → UInt64} {lru : LinearLru} {f : List Nat} {q : List UInt64}
  (represents : Represents hash lru.dlist lru.ptrMap f q)

include represents

theorem remove_spec (nodup : q.Nodup) (x : UInt64) : ∃ lru' f', lru.remove hash x = some lru' ∧
    Represents hash lru'.dlist lru'.ptrMap f' (LruModel.remove q x) := by
  have isErase : q.erase x = LruModel.remove q x := by
    rw [nodup.erase_eq_filter, LruModel.remove]
    exact List.filter_congr fun y _ => by simp [bne, beq_eq_decide]
  rw [← isErase]
  obtain ⟨ptrMap', removed, isRemove, spec⟩ := represents.remove nodup x
  rw [LinearLru.remove, isRemove]
  cases removed with
  | none => exact ⟨⟨lru.dlist, ptrMap'⟩, f, rfl, spec⟩
  | some p =>
    obtain ⟨dlist', f', succeeds, represents'⟩ := spec
    exact ⟨⟨dlist', ptrMap'⟩, f', by simp [succeeds], represents'⟩

theorem use_spec (nodup : q.Nodup) (small : q.length < 2 ^ 64 / 8) (x : UInt64) :
    ∃ lru' f', lru.use hash x = some lru' ∧
      Represents hash lru'.dlist lru'.ptrMap f' (LruModel.use q x) := by
  obtain ⟨lru₁, f₁, removed, represents₁⟩ := remove_spec represents nodup x
  have absent : x ∉ LruModel.remove q x := fun member => (LruModel.mem_remove.mp member).2 rfl
  obtain ⟨dlist', p, ptrMap', inserted, isInsert, represents'⟩ :=
    represents₁.append (nodup.filter _) absent ((List.length_filter_le _ _).trans_lt small)
  exact ⟨⟨dlist', ptrMap'⟩, f₁ ++ [p], by simp [LinearLru.use, removed, inserted, isInsert],
    represents'⟩

theorem nextOpt_spec : lru.nextOpt = some (LruModel.nextOpt q) := by
  have linked := represents.linked
  have values := represents.values
  have isNext : lru.dlist.next 0 = last 0 f.reverse := by
    rw [← List.nil_append f] at linked
    exact linked.ring.next_last
  have within : 0 < lru.dlist.nodes.length := Nat.zero_lt_of_lt linked.free
  rw [LinearLru.nextOpt, DList.getElem?_eq _ within]
  cases f with
  | nil =>
    obtain rfl : q = [] := by simpa using values
    simp [isNext, LruModel.nextOpt]
  | cons first rest =>
    have member : first ∈ first :: rest := .head _
    have nonzero := linked.ne_zero_of_mem member
    cases q with
    | nil => simp at values
    | cons x q =>
      have holds := (List.cons_eq_cons.mp values).1
      simp [isNext, nonzero, DList.getElem?_eq _ (linked.lt_of_mem (.tail _ member)), holds,
        LruModel.nextOpt]

end Represents

/-- The states after a history of uses and removals.  A use asks for fewer than `2 ^ 61`
members. -/
inductive Reached (hash : UInt64 → UInt64) : LinearLru → List Operation → Prop
  | alloc : Reached hash alloc []
  | use {lru lru' : LinearLru} {history : List Operation} {x : UInt64}
      (reached : Reached hash lru history) (small : (queue history).length < 2 ^ 64 / 8)
      (result : lru.use hash x = some lru') : Reached hash lru' (.use x :: history)
  | remove {lru lru' : LinearLru} {history : List Operation} {x : UInt64}
      (reached : Reached hash lru history) (result : lru.remove hash x = some lru') :
      Reached hash lru' (.remove x :: history)

section Histories

variable {hash : UInt64 → UInt64} {lru lru' : LinearLru} {history : List Operation} {x : UInt64}

theorem Reached.represents (reached : Reached hash lru history) :
    ∃ f, Represents hash lru.dlist lru.ptrMap f (queue history) := by
  induction reached with
  | alloc => exact ⟨[], represents_alloc hash⟩
  | @use lru lru' history x reached small result ih =>
    obtain ⟨f, represents⟩ := ih
    obtain ⟨lru₁, f', succeeds, represents'⟩ :=
      use_spec represents (LruModel.queue_nodup history) small x
    obtain rfl : lru' = lru₁ := Option.mem_unique result succeeds
    exact ⟨f', represents'⟩
  | @remove lru lru' history x reached result ih =>
    obtain ⟨f, represents⟩ := ih
    obtain ⟨lru₁, f', succeeds, represents'⟩ :=
      remove_spec represents (LruModel.queue_nodup history) x
    obtain rfl : lru' = lru₁ := Option.mem_unique result succeeds
    exact ⟨f', represents'⟩

theorem Reached.exists_use (reached : Reached hash lru history)
    (small : (queue history).length < 2 ^ 64 / 8) (x : UInt64) :
    ∃ lru', lru.use hash x = some lru' ∧ Reached hash lru' (.use x :: history) := by
  obtain ⟨_, represents⟩ := reached.represents
  obtain ⟨lru', -, succeeds, -⟩ := use_spec represents (LruModel.queue_nodup history) small x
  exact ⟨lru', succeeds, reached.use small succeeds⟩

/-- The list holds the members by the time of their last use, and the map leads from each to its
slot. -/
structure Ordered (hash : UInt64 → UInt64) (lru : LinearLru) (history : List Operation)
    (slots : List Nat) (members : List UInt64) : Prop where
  follows : Follows lru.dlist.next 0 slots
  values : slots.map lru.dlist.data = members.map some
  isMember : ∀ x, x ∈ members ↔ (lastUse history x).isSome
  sorted : members.Pairwise (Earlier history)
  pointer : ∀ x p, LinearMutableMap.get hash lru.ptrMap x = some (some p) ↔
    p ∈ slots ∧ lru.dlist.data p = some x
  noPointer : ∀ x, LinearMutableMap.get hash lru.ptrMap x = some none ↔ x ∉ members

theorem ordered_of_represents {f : List Nat}
    (represents : Represents hash lru.dlist lru.ptrMap f (queue history)) :
    Ordered hash lru history f (queue history) where
  follows := represents.linked.ring.forward
  values := represents.values
  isMember := LruModel.mem_queue_iff history
  sorted := LruModel.queue_sorted history
  pointer := by
    intro x p
    rw [LinearMutableMap.get_eq represents.inv, Option.some_inj, represents.pointers,
      represents.linked.members, eq_comm, iff_and_self]
    intro holds
    rw [DList.ValidPtr, ← holds]
    rfl
  noPointer := by
    intro x
    rw [LinearMutableMap.get_eq represents.inv, Option.some_inj,
      represents.lookup_eq_none_iff]

/-- Uses and removals succeed, `NextOpt` gives the member whose last use is the earliest, and the
list and the map agree with the history. -/
theorem evicts_least_recently_used (reached : Reached hash lru history) :
    (∀ x, (lru.remove hash x).isSome) ∧
      (∀ x, (queue history).length < 2 ^ 64 / 8 → (lru.use hash x).isSome) ∧
      (lru.nextOpt = some none ↔ ∀ x, lastUse history x = none) ∧
      (∀ x, lru.nextOpt = some (some x) ↔ (lastUse history x).isSome ∧
        ∀ y, (lastUse history y).isSome → y ≠ x → Earlier history x y) ∧
      lru.nextOpt.isSome ∧
      ∃ slots members, Ordered hash lru history slots members := by
  obtain ⟨f, represents⟩ := reached.represents
  have nodup := LruModel.queue_nodup history
  rw [nextOpt_spec represents]
  refine ⟨fun x => ?_, fun x small => ?_, ?_, fun x => ?_, rfl, f, _,
    ordered_of_represents represents⟩
  · obtain ⟨lru', -, succeeds, -⟩ := remove_spec represents nodup x
    rw [succeeds]
    rfl
  · obtain ⟨lru', -, succeeds, -⟩ := use_spec represents nodup small x
    rw [succeeds]
    rfl
  · rw [Option.some_inj, LruModel.nextOpt_queue_eq_none_iff]
  · rw [Option.some_inj, LruModel.nextOpt_queue_iff]

theorem evicts_least_recently_used_again :
    ∃ lru, Reached id lru [.use 1, .use 2, .use 1] ∧ lru.nextOpt = some (some 2) := by
  obtain ⟨_, -, reached₁⟩ := (Reached.alloc : Reached id alloc []).exists_use (by decide) 1
  obtain ⟨_, -, reached₂⟩ := reached₁.exists_use (by decide) 2
  obtain ⟨lru₃, -, reached₃⟩ := reached₂.exists_use (by decide) 1
  refine ⟨lru₃, reached₃, ((evicts_least_recently_used reached₃).2.2.2.1 2).mpr ⟨rfl, ?_⟩⟩
  intro y used other
  by_cases isOne : y = 1
  · subst isOne
    exact ⟨1, 2, rfl, rfl, by decide⟩
  · simp [lastUse, isOne, other] at used

end Histories

end LinearLru

end VerifiedBetrfs
