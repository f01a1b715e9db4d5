import Mathlib.Data.List.Chain
import Mathlib.Data.List.Nodup
import Mathlib.Tactic.Tauto

/-!
# Doubly linked rings

The backward links of a list are the forward links of the reversed list, so each fact is proved
once.
-/

namespace VerifiedBetrfs

open Function (update update_of_ne update_self)

namespace LinkedRing

variable {α : Type} {next next' prev prev' : α → α} {root p : α} {f before after : List α}

/-- Following `next` from the root passes the members of the list and comes back. -/
def Follows (next : α → α) (root : α) (f : List α) : Prop :=
  (root :: f ++ [root]).IsChain fun x y => next x = y

/-- The two pointers lead through `f` in both directions, from and to the root. -/
structure Ring (next prev : α → α) (root : α) (f : List α) : Prop where
  nodup : (root :: f).Nodup
  forward : Follows next root f
  backward : Follows prev root f.reverse

theorem isChain_congr {l : List α} {z : α} (same : ∀ x ∈ l, next' x = next x)
    (chain : (l ++ [z]).IsChain fun x y => next x = y) :
    (l ++ [z]).IsChain fun x y => next' x = y := by
  induction l with
  | nil => exact .singleton z
  | cons x l ih =>
    rw [List.cons_append, List.isChain_cons] at chain ⊢
    obtain ⟨head, tail⟩ := chain
    refine ⟨fun y isHead => ?_, ih (fun x member => same x (.tail _ member)) tail⟩
    rw [same x (.head _)]
    exact head y isHead

theorem Follows.congr (same : ∀ x ∈ root :: f, next' x = next x) (follows : Follows next root f) :
    Follows next' root f :=
  isChain_congr same follows

theorem Ring.congr (sameNext : ∀ x ∈ root :: f, next' x = next x)
    (samePrev : ∀ x ∈ root :: f, prev' x = prev x) (ring : Ring next prev root f) :
    Ring next' prev' root f where
  nodup := ring.nodup
  forward := ring.forward.congr sameNext
  backward := ring.backward.congr fun x member => samePrev x (by simpa using member)

theorem Ring.symm (ring : Ring next prev root f) : Ring prev next root f.reverse where
  nodup := by simpa [List.nodup_reverse] using ring.nodup
  forward := ring.backward
  backward := by simpa using ring.forward

theorem reverse_split (before : List α) (p : α) (after : List α) :
    (before ++ p :: after).reverse = after.reverse ++ p :: before.reverse := by
  simp

theorem follows_nil (self : next root = root) : Follows next root [] :=
  List.isChain_pair.mpr self

/-- The member before the place behind `before`. -/
def last (root : α) (before : List α) : α := (root :: before).getLast (List.cons_ne_nil _ _)

@[simp]
theorem last_nil (root : α) : last root [] = root := rfl

@[simp]
theorem last_concat (root : α) (before : List α) (a : α) : last root (before ++ [a]) = a := by
  simp [last]

theorem last_mem (root : α) (before : List α) : last root before ∈ root :: before :=
  List.getLast_mem _

theorem last_mem_append (root : α) (before after : List α) :
    last root before ∈ root :: (before ++ after) :=
  List.mem_append_left after (last_mem root before)

theorem last_reverse_mem_append (root : α) (before after : List α) :
    last root after.reverse ∈ root :: (before ++ after) := by
  have := last_mem root after.reverse
  simp only [List.mem_cons, List.mem_append, List.mem_reverse] at this ⊢
  tauto

theorem exists_front (root : α) (before : List α) :
    ∃ front, root :: before = front ++ [last root before] :=
  ⟨_, (List.dropLast_concat_getLast (List.cons_ne_nil root before)).symm⟩

theorem Follows.next_last (follows : Follows next root (before ++ p :: after)) :
    next (last root before) = p := by
  obtain ⟨_, isFront⟩ := exists_front root before
  rw [Follows, ← List.cons_append, isFront] at follows
  simp only [List.append_assoc, List.cons_append, List.nil_append] at follows
  exact (List.isChain_append_cons_cons.mp follows).2.1

theorem Follows.next_last_nil (follows : Follows next root before) :
    next (last root before) = root := by
  obtain ⟨_, isFront⟩ := exists_front root before
  rw [Follows, isFront, List.append_assoc] at follows
  exact (List.isChain_append_cons_cons.mp follows).2.1

theorem Follows.next_member (follows : Follows next root (before ++ p :: after)) :
    next p = last root after.reverse := by
  have isLast : last root after.reverse = (after ++ [root]).head (by simp) := by
    cases after with
    | nil => rfl
    | cons q after => simp
  rw [isLast, Follows, ← List.cons_append, List.append_assoc] at *
  have chain := (List.isChain_append.mp follows).2.1
  rw [List.cons_append, List.isChain_cons] at chain
  exact chain.1 _ (List.head_mem_head? _)

theorem Ring.next_last (ring : Ring next prev root (before ++ after)) :
    next (last root before) = last root after.reverse := by
  cases after with
  | nil =>
    have follows := ring.forward
    rw [List.append_nil] at follows
    exact follows.next_last_nil
  | cons q after =>
    rw [ring.forward.next_last]
    simp

theorem Ring.prev_last (ring : Ring next prev root (before ++ after)) :
    prev (last root after.reverse) = last root before := by
  have back := ring.symm
  rw [List.reverse_append] at back
  rw [back.next_last, List.reverse_reverse]

theorem Ring.prev_member (ring : Ring next prev root (before ++ p :: after)) :
    prev p = last root before := by
  have follows := ring.backward
  rw [reverse_split] at follows
  have := follows.next_member
  rwa [List.reverse_reverse] at this

section Changes

variable [DecidableEq α]

theorem Follows.unlink (nodup : (root :: (before ++ p :: after)).Nodup)
    (follows : Follows next root (before ++ p :: after)) :
    Follows (update next (last root before) (next p)) root (before ++ after) := by
  obtain ⟨front, isFront⟩ := exists_front root before
  rw [← List.cons_append, isFront] at nodup
  rw [Follows, ← List.cons_append, isFront] at follows ⊢
  generalize last root before = a at *
  simp only [List.append_assoc, List.cons_append, List.nil_append] at follows nodup ⊢
  obtain ⟨frontChain, -, backChain⟩ := List.isChain_append_cons_cons.mp follows
  rw [List.isChain_cons] at backChain
  have frontOther : ∀ x ∈ front, x ≠ a := by
    intro x member
    exact (List.nodup_append.mp nodup).2.2 x member a (.head _)
  have backOther : ∀ x ∈ after, x ≠ a := by
    rintro x member rfl
    have tail := (List.nodup_append.mp nodup).2.1
    exact (List.nodup_cons.mp tail).1 (.tail _ member)
  rw [List.isChain_split]
  refine ⟨isChain_congr (fun x member => update_of_ne (frontOther x member) _ _) frontChain, ?_⟩
  rw [List.isChain_cons]
  refine ⟨fun y isHead => ?_, isChain_congr (fun x member =>
    update_of_ne (backOther x member) _ _) backChain.2⟩
  rw [update_self]
  exact backChain.1 y isHead

theorem Follows.link (nodup : (root :: (before ++ after)).Nodup)
    (fresh : p ∉ root :: (before ++ after)) (follows : Follows next root (before ++ after)) :
    Follows (update (update next (last root before) p) p
      (next (last root before))) root (before ++ p :: after) := by
  obtain ⟨front, isFront⟩ := exists_front root before
  rw [← List.cons_append, isFront] at nodup fresh
  rw [Follows, ← List.cons_append, isFront] at follows ⊢
  generalize last root before = a at *
  simp only [List.append_assoc, List.cons_append, List.nil_append] at follows nodup fresh ⊢
  obtain ⟨frontChain, backChain⟩ := List.isChain_split.mp follows
  rw [List.isChain_cons] at backChain
  have pOther : p ≠ a := by
    rintro rfl
    exact fresh (by simp)
  have frontOther : ∀ x ∈ front, x ≠ p ∧ x ≠ a := by
    intro x member
    refine ⟨?_, (List.nodup_append.mp nodup).2.2 x member a (.head _)⟩
    rintro rfl
    exact fresh (by simp [member])
  have backOther : ∀ x ∈ after, x ≠ p ∧ x ≠ a := by
    intro x member
    constructor
    · rintro rfl
      exact fresh (by simp [member])
    · rintro rfl
      have tail := (List.nodup_append.mp nodup).2.1
      exact (List.nodup_cons.mp tail).1 member
  have same : ∀ x, x ≠ p ∧ x ≠ a →
      update (update next a p) p (next a) x = next x := by
    intro x other
    rw [update_of_ne other.1, update_of_ne other.2]
  rw [List.isChain_append_cons_cons]
  refine ⟨isChain_congr (fun x member => same x (frontOther x member)) frontChain, ?_, ?_⟩
  · rw [update_of_ne pOther.symm, update_self]
  · rw [List.isChain_cons]
    refine ⟨fun y isHead => ?_,
      isChain_congr (fun x member => same x (backOther x member)) backChain.2⟩
    rw [update_self]
    exact backChain.1 y isHead

theorem Ring.unlink (ring : Ring next prev root (before ++ p :: after)) :
    Ring (update next (prev p) (next p)) (update prev (next p) (prev p)) root
      (before ++ after) where
  nodup := ring.nodup.sublist (by simp)
  forward := by
    rw [ring.prev_member]
    exact ring.forward.unlink ring.nodup
  backward := by
    have follows := ring.backward
    have nodup := ring.symm.nodup
    rw [reverse_split] at follows nodup
    rw [ring.forward.next_member, List.reverse_append]
    exact follows.unlink nodup

theorem Ring.link (fresh : p ∉ root :: (before ++ after))
    (ring : Ring next prev root (before ++ after)) :
    Ring (update (update next (last root before) p) p (next (last root before)))
      (update (update prev (next (last root before)) p) p (last root before))
      root (before ++ p :: after) where
  nodup := by
    have := ring.nodup
    grind
  forward := ring.forward.link ring.nodup fresh
  backward := by
    have follows := ring.backward
    have nodup := ring.symm.nodup
    rw [List.reverse_append] at follows nodup
    rw [ring.next_last, reverse_split]
    have linked := follows.link (p := p) nodup (by simpa [or_comm, or_left_comm] using fresh)
    rwa [ring.prev_last] at linked

end Changes

end LinkedRing
end VerifiedBetrfs
