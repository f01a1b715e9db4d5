import Mathlib.Order.Lattice

/-!
# Keys, values, references and the byte order on keys

Keys are compared as `memcmp` compares them.
-/

namespace VerifiedBetrfs

/-- A byte string of bounded length. -/
def ByteString (maxLen : Nat) : Type := { bytes : List UInt8 // bytes.length ≤ maxLen }

instance (maxLen : Nat) : DecidableEq (ByteString maxLen) :=
  inferInstanceAs (DecidableEq { bytes : List UInt8 // bytes.length ≤ maxLen })

abbrev Key : Type := ByteString 1024

abbrev Value : Type := ByteString 1024

/-- The string of one byte. -/
def byteString (byte : UInt8) : ByteString 1024 := ⟨[byte], (by decide : 1 ≤ 1024)⟩

namespace ValueType

/-- The value of a key that was never written. -/
def defaultValue : Value := ⟨[], by simp⟩

instance : Inhabited Value := ⟨defaultValue⟩

end ValueType

/-- The name of a block. -/
abbrev Reference : Type := UInt64

/-- The block every lookup starts from. -/
def root : Reference := 0

namespace SeqComparison

/-- Lexicographic comparison of byte sequences. -/
def lte : List UInt8 → List UInt8 → Bool
  | [], _ => true
  | _ :: _, [] => false
  | a :: as, b :: bs =>
    if a < b then true
    else if b < a then false
    else lte as bs

def lt (a b : List UInt8) : Bool := lte a b && a != b

private theorem byte_trichotomy (a b : UInt8) : a < b ∨ a = b ∨ b < a := by
  by_cases same : a = b
  · exact Or.inr (Or.inl same)
  · exact (UInt8.lt_or_lt_of_ne same).imp id Or.inr

theorem lte_cons_cons (a b : UInt8) (as bs : List UInt8) :
    lte (a :: as) (b :: bs) = true ↔ a < b ∨ (a = b ∧ lte as bs = true) := by
  rw [lte]
  rcases byte_trichotomy a b with less | rfl | more
  · simp [less]
  · simp
  · have distinct : a ≠ b := by
      rintro rfl
      exact UInt8.lt_irrefl a more
    simp [more, UInt8.lt_asymm more, distinct]

theorem lte_refl (a : List UInt8) : lte a a = true := by
  induction a with
  | nil => rfl
  | cons head tail ih => simp [lte_cons_cons, ih]

theorem lte_total (a b : List UInt8) : lte a b = true ∨ lte b a = true := by
  induction a generalizing b with
  | nil => exact Or.inl rfl
  | cons head tail ih =>
    cases b with
    | nil => exact Or.inr rfl
    | cons head' tail' =>
      rw [lte_cons_cons, lte_cons_cons]
      rcases byte_trichotomy head head' with less | rfl | more
      · exact Or.inl (Or.inl less)
      · exact (ih tail').imp (fun le => Or.inr ⟨rfl, le⟩) fun le => Or.inr ⟨rfl, le⟩
      · exact Or.inr (Or.inl more)

theorem lte_antisymm {a b : List UInt8} (ab : lte a b = true) (ba : lte b a = true) : a = b := by
  induction a generalizing b with
  | nil =>
    cases b with
    | nil => rfl
    | cons head tail => simp [lte] at ba
  | cons head tail ih =>
    cases b with
    | nil => simp [lte] at ab
    | cons head' tail' =>
      rw [lte_cons_cons] at ab ba
      rcases ab with less | ⟨rfl, tails⟩
      · rcases ba with more | ⟨rfl, _⟩
        · exact absurd less (UInt8.lt_asymm more)
        · exact absurd less (UInt8.lt_irrefl _)
      · rcases ba with more | ⟨_, tails'⟩
        · exact absurd more (UInt8.lt_irrefl _)
        · rw [ih tails tails']

theorem lte_trans {a b c : List UInt8} (ab : lte a b = true) (bc : lte b c = true) :
    lte a c = true := by
  induction a generalizing b c with
  | nil => rfl
  | cons head tail ih =>
    cases b with
    | nil => simp [lte] at ab
    | cons head' tail' =>
      cases c with
      | nil => simp [lte] at bc
      | cons head'' tail'' =>
        rw [lte_cons_cons] at ab bc ⊢
        rcases ab with less | ⟨rfl, tails⟩
        · rcases bc with less' | ⟨rfl, _⟩
          · exact Or.inl (UInt8.lt_trans less less')
          · exact Or.inl less
        · rcases bc with less' | ⟨rfl, tails'⟩
          · exact Or.inl less'
          · exact Or.inr ⟨rfl, ih tails tails'⟩

end SeqComparison

/-- Keys are ordered by their bytes. -/
instance : LinearOrder Key where
  le a b := SeqComparison.lte a.1 b.1 = true
  lt a b := SeqComparison.lt a.1 b.1 = true
  le_refl a := SeqComparison.lte_refl a.1
  le_trans _ _ _ := SeqComparison.lte_trans
  le_antisymm _ _ ab ba := Subtype.ext (SeqComparison.lte_antisymm ab ba)
  le_total a b := SeqComparison.lte_total a.1 b.1
  lt_iff_le_not_ge a b := by
    simp only [SeqComparison.lt, Bool.and_eq_true, bne_iff_ne]
    constructor
    · rintro ⟨le, ne⟩
      exact ⟨le, fun ge => ne (SeqComparison.lte_antisymm le ge)⟩
    · rintro ⟨le, notGe⟩
      refine ⟨le, fun same => notGe ?_⟩
      rw [same]
      exact SeqComparison.lte_refl _
  toDecidableLE a b := inferInstanceAs (Decidable (SeqComparison.lte a.1 b.1 = true))
  toDecidableEq := inferInstanceAs (DecidableEq (ByteString 1024))

/-- The empty key. -/
def emptyKey : Key := ⟨[], by simp⟩

theorem emptyKey_le (key : Key) : emptyKey ≤ key := rfl

end VerifiedBetrfs
