import Mathlib.Data.BitVec
import Mathlib.Order.Bounds.Basic

/-!
# Bitmaps

A sequence of booleans, packed into words of 64 bits.
-/

namespace VerifiedBetrfs

namespace BitsetLemmas

def bit (i : Nat) : BitVec 64 := 1#64 <<< i

def inSet (i : Nat) (a : BitVec 64) : Bool := a &&& bit i != 0

def setBitTo1 (a : BitVec 64) (i : Nat) : BitVec 64 := a ||| bit i

def bitComp (a : BitVec 64) : BitVec 64 := 0xffffffffffffffff#64 ^^^ a

def setBitTo0 (a : BitVec 64) (i : Nat) : BitVec 64 := a &&& bitComp (bit i)

theorem getLsbD_bit {i : Nat} (inRange : i < 64) (j : Nat) :
    (bit i).getLsbD j = decide (i = j) := by
  rw [bit, ← BitVec.twoPow_eq, BitVec.getLsbD_twoPow]
  simp [inRange]

theorem inSet_eq_getLsbD {i : Nat} (inRange : i < 64) (a : BitVec 64) :
    inSet i a = a.getLsbD i := by
  have notZero : bit i ≠ 0#64 := by
    intro isZero
    have := getLsbD_bit inRange i
    rw [isZero] at this
    simp at this
  rw [inSet, bit, ← BitVec.twoPow_eq, BitVec.and_twoPow]
  cases a.getLsbD i with
  | false => rfl
  | true =>
    exact bne_iff_ne.mpr notZero

theorem inSet_zero {i : Nat} (inRange : i < 64) : inSet i 0 = false := by
  rw [inSet_eq_getLsbD inRange]
  simp

theorem inSet_setBitTo1 {i j : Nat} (iRange : i < 64) (jRange : j < 64) (a : BitVec 64) :
    inSet j (setBitTo1 a i) = (decide (i = j) || inSet j a) := by
  rw [inSet_eq_getLsbD jRange, inSet_eq_getLsbD jRange, setBitTo1, BitVec.getLsbD_or,
    getLsbD_bit iRange, Bool.or_comm]

theorem inSet_ones {j : Nat} (jRange : j < 64) : inSet j 0xffffffffffffffff#64 = true := by
  rw [inSet_eq_getLsbD jRange, show 0xffffffffffffffff#64 = BitVec.allOnes 64 from rfl,
    BitVec.getLsbD_allOnes]
  exact decide_eq_true jRange

theorem inSet_setBitTo0 {i j : Nat} (iRange : i < 64) (jRange : j < 64) (a : BitVec 64) :
    inSet j (setBitTo0 a i) = (decide (i ≠ j) && inSet j a) := by
  rw [inSet_eq_getLsbD jRange, inSet_eq_getLsbD jRange, setBitTo0, BitVec.getLsbD_and, bitComp,
    BitVec.getLsbD_xor, ← inSet_eq_getLsbD jRange 0xffffffffffffffff#64, inSet_ones jRange,
    getLsbD_bit iRange, Bool.and_comm]
  simp

theorem exists_notInSet {a : BitVec 64} (notOnes : a ≠ 0xffffffffffffffff#64) :
    ∃ j < 64, inSet j a = false := by
  by_contra! isSet
  refine notOnes (BitVec.eq_of_getLsbD_eq fun j jRange => ?_)
  rw [← inSet_eq_getLsbD jRange, ← inSet_eq_getLsbD jRange, inSet_ones jRange]
  exact Bool.eq_true_of_not_eq_false (isSet j jRange)

end BitsetLemmas

namespace BitmapModel

abbrev BitmapModelT := List Bool

def bitSet (bm : BitmapModelT) (i : Nat) : BitmapModelT := bm.set i true

def bitUnset (bm : BitmapModelT) (i : Nat) : BitmapModelT := bm.set i false

def isSet (bm : BitmapModelT) (i : Nat) : Bool := bm[i]!

def emptyBitmap (n : Nat) : BitmapModelT := List.replicate n false

def bitAllocIter (bm : BitmapModelT) (i : Nat) : Option Nat :=
  if i < bm.length then
    if !bm[i]! then some i else bitAllocIter bm (i + 1)
  else none
termination_by bm.length - i

/-- The first bit that is not set. -/
def bitAlloc (bm : BitmapModelT) : Option Nat := bitAllocIter bm 0

def bitUnion (a b : BitmapModelT) : BitmapModelT := List.zipWith or a b

theorem isSet_eq_getD (bm : BitmapModelT) (i : Nat) : isSet bm i = bm[i]?.getD false :=
  List.getElem!_eq_getElem?_getD

variable {i : Nat} {bm : BitmapModelT}

theorem isSet_bitSet (inRange : i < bm.length) (j : Nat) :
    isSet (bitSet bm i) j = (decide (i = j) || isSet bm j) := by
  rw [isSet_eq_getD, isSet_eq_getD, bitSet]
  by_cases same : i = j
  · subst same
    simp [List.getElem?_set_self inRange]
  · simp [List.getElem?_set_ne same, same]

theorem isSet_bitUnset (bm : BitmapModelT) (i j : Nat) :
    isSet (bitUnset bm i) j = (decide (i ≠ j) && isSet bm j) := by
  rw [isSet_eq_getD, isSet_eq_getD, bitUnset, List.getElem?_set]
  by_cases same : i = j
  · simp only [same, if_true]
    split <;> simp
  · simp [same]

theorem isSet_bitUnion {a b : BitmapModelT} (sameLength : a.length = b.length) (i : Nat) :
    isSet (bitUnion a b) i = (isSet a i || isSet b i) := by
  rw [isSet_eq_getD, isSet_eq_getD, isSet_eq_getD, bitUnion, List.getElem?_zipWith]
  by_cases inside : i < a.length
  · have inside' : i < b.length := by omega
    simp [inside, inside']
  · have outside : b.length ≤ i := by omega
    simp [Nat.not_lt.mp inside, outside]

theorem bitAllocIter_eq_some {j : Nat} (found : bitAllocIter bm i = some j) :
    j < bm.length ∧ isSet bm j = false ∧ ∀ k, i ≤ k → k < j → isSet bm k = true := by
  induction i using bitAllocIter.induct bm with
  | case1 i inside isFree =>
    rw [bitAllocIter, if_pos inside, if_pos isFree] at found
    obtain rfl : i = j := Option.some.inj found
    refine ⟨inside, by simpa [isSet_eq_getD] using isFree, ?_⟩
    intro k ge lt
    omega
  | case2 i inside isUsed ih =>
    rw [bitAllocIter, if_pos inside, if_neg isUsed] at found
    obtain ⟨inside', isFree, below⟩ := ih found
    refine ⟨inside', isFree, ?_⟩
    intro k ge lt
    by_cases isFirst : k = i
    · rw [isFirst]
      simpa [isSet_eq_getD] using isUsed
    · exact below k (by omega) lt
  | case3 i outside =>
    rw [bitAllocIter, if_neg outside] at found
    cases found

theorem bitAllocIter_eq_none (none : bitAllocIter bm i = none) :
    ∀ k, i ≤ k → k < bm.length → isSet bm k = true := by
  induction i using bitAllocIter.induct bm with
  | case1 i inside isFree =>
    rw [bitAllocIter, if_pos inside, if_pos isFree] at none
    cases none
  | case2 i inside isUsed ih =>
    rw [bitAllocIter, if_pos inside, if_neg isUsed] at none
    intro k ge lt
    by_cases isFirst : k = i
    · rw [isFirst]
      simpa [isSet_eq_getD] using isUsed
    · exact ih none k (by omega) lt
  | case3 i outside =>
    intro k ge lt
    omega

theorem isSet_emptyBitmap (n i : Nat) : isSet (emptyBitmap n) i = false := by
  rw [isSet_eq_getD, emptyBitmap, List.getElem?_replicate]
  split <;> rfl

end BitmapModel

namespace BitmapImpl

open BitsetLemmas BitmapModel

/-- A bitmap in words of 64 bits. -/
structure Bitmap where
  bits : List UInt64

namespace Bitmap

def constructor (len : Nat) : Bitmap := ⟨List.replicate (len / 64) 0⟩

def getIsSet (bm : Bitmap) (c : Nat) : Bool := inSet (c % 64) bm.bits[c / 64]!.toBitVec

def set (bm : Bitmap) (c : Nat) : Bitmap :=
  ⟨bm.bits.set (c / 64) ⟨setBitTo1 bm.bits[c / 64]!.toBitVec (c % 64)⟩⟩

def unset (bm : Bitmap) (c : Nat) : Bitmap :=
  ⟨bm.bits.set (c / 64) ⟨setBitTo0 bm.bits[c / 64]!.toBitVec (c % 64)⟩⟩

/-- The loop over the bits of a word. -/
def allocBit (word : BitVec 64) (j : Nat) : Option Nat :=
  if j < 64 then
    if !inSet j word then some j else allocBit word (j + 1)
  else none
termination_by 64 - j

/-- The loop over the words.  In a word with a clear bit the other loop always finds one. -/
def allocWord (bm : Bitmap) (i : Nat) : Option Nat :=
  if i < bm.bits.length then
    if bm.bits[i]! ≠ 0xffffffffffffffff then
      match allocBit bm.bits[i]!.toBitVec 0 with
      | some j => some (64 * i + j)
      | none => allocWord bm (i + 1)
    else allocWord bm (i + 1)
  else none
termination_by bm.bits.length - i

/-- The search for a clear bit. -/
def alloc (bm : Bitmap) : Option Nat := allocWord bm 0

/-- The union, word by word. -/
def unionConstructor (a b : Bitmap) : Bitmap :=
  ⟨List.zipWith (fun first second => ⟨first.toBitVec ||| second.toBitVec⟩) a.bits b.bits⟩

def cloneConstructor (a : Bitmap) : Bitmap := ⟨a.bits⟩

/-- The sequence of booleans that a packed bitmap stands for. -/
def I (bm : Bitmap) : BitmapModel.BitmapModelT :=
  (List.range (64 * bm.bits.length)).map bm.getIsSet

theorem length_I (bm : Bitmap) : bm.I.length = 64 * bm.bits.length := by
  simp [I]

variable {bm : Bitmap} {c c' : Nat}

theorem getElem?_I (inRange : c < bm.I.length) : bm.I[c]? = some (bm.getIsSet c) := by
  rw [length_I] at inRange
  simp [I, List.getElem?_range inRange]

theorem getIsSet_eq (inRange : c < bm.I.length) : bm.getIsSet c = BitmapModel.isSet bm.I c := by
  rw [BitmapModel.isSet_eq_getD, getElem?_I inRange, Option.getD_some]

theorem getIsSet_constructor (len c : Nat) : (constructor len).getIsSet c = false := by
  have word : (constructor len).bits[c / 64]! = 0 := by
    rw [constructor, List.getElem!_eq_getElem?_getD, List.getElem?_replicate]
    split <;> rfl
  rw [getIsSet, word]
  exact inSet_zero (Nat.mod_lt c (by decide))

theorem I_constructor {len : Nat} (whole : len % 64 = 0) :
    (constructor len).I = BitmapModel.emptyBitmap len := by
  have length : 64 * (constructor len).bits.length = len := by
    rw [constructor, List.length_replicate]
    omega
  rw [I, length, List.map_congr_left fun c _ => getIsSet_constructor len c,
    BitmapModel.emptyBitmap, List.map_const', List.length_range]

/-- Only the bits of a word change with it. -/
theorem getIsSet_replace (inRange : c < 64 * bm.bits.length) (word : BitVec 64) :
    (⟨bm.bits.set (c / 64) ⟨word⟩⟩ : Bitmap).getIsSet c' =
      if c / 64 = c' / 64 then inSet (c' % 64) word else bm.getIsSet c' := by
  rw [getIsSet, getIsSet, List.getElem!_eq_getElem?_getD, List.getElem!_eq_getElem?_getD]
  split_ifs with sameWord
  · rw [← sameWord, List.getElem?_set_self (by omega), Option.getD_some]
  · rw [List.getElem?_set_ne sameWord]

theorem getIsSet_set (inRange : c < bm.I.length) :
    (bm.set c).getIsSet c' = (decide (c = c') || bm.getIsSet c') := by
  rw [length_I] at inRange
  rw [set, getIsSet_replace inRange, getIsSet]
  split_ifs with sameWord
  · have sameBit : c % 64 = c' % 64 ↔ c = c' := by omega
    rw [inSet_setBitTo1 (Nat.mod_lt c (by decide)) (Nat.mod_lt c' (by decide)), sameWord]
    simp only [sameBit]
  · have different : c ≠ c' := fun same => sameWord (same ▸ rfl)
    simp [different]

theorem length_I_set (bm : Bitmap) (c : Nat) : (bm.set c).I.length = bm.I.length := by
  rw [length_I, length_I, set, List.length_set]

theorem getIsSet_unset (inRange : c < 64 * bm.bits.length) :
    (bm.unset c).getIsSet c' = (decide (c ≠ c') && bm.getIsSet c') := by
  rw [unset, getIsSet_replace inRange, getIsSet]
  split_ifs with sameWord
  · have sameBit : c % 64 = c' % 64 ↔ c = c' := by omega
    rw [inSet_setBitTo0 (Nat.mod_lt c (by decide)) (Nat.mod_lt c' (by decide)), sameWord]
    simp only [ne_eq, sameBit]
  · have different : c ≠ c' := fun same => sameWord (same ▸ rfl)
    simp [different]

theorem getIsSet_union {a b : Bitmap} (sameLength : a.bits.length = b.bits.length)
    (inRange : c < 64 * a.bits.length) :
    (unionConstructor a b).getIsSet c = (a.getIsSet c || b.getIsSet c) := by
  have bitRange : c % 64 < 64 := Nat.mod_lt c (by decide)
  have inside : c / 64 < a.bits.length := by omega
  have inside' : c / 64 < b.bits.length := by omega
  simp [getIsSet, unionConstructor, inside, inside', inSet_eq_getLsbD bitRange]

/-- What a search for a clear bit returns. -/
def FirstClear (isSet : Nat → Bool) (start bound : Nat) : Option Nat → Prop
  | some j => IsLeast {k | start ≤ k ∧ k < bound ∧ isSet k = false} j
  | none => ∀ k, start ≤ k → k < bound → isSet k = true

section

variable {isSet isSet' : Nat → Bool} {start start' bound : Nat} {found : Option Nat}

theorem FirstClear.congr (first : FirstClear isSet start bound found)
    (same : ∀ k < bound, isSet k = isSet' k) : FirstClear isSet' start bound found := by
  cases found with
  | some j =>
    obtain ⟨⟨ge, inRange, isClear⟩, least⟩ := first
    refine ⟨⟨ge, inRange, same j inRange ▸ isClear⟩, ?_⟩
    rintro k ⟨ge', inRange', isClear'⟩
    exact least ⟨ge', inRange', (same k inRange').trans isClear'⟩
  | none => exact fun k ge inRange => same k inRange ▸ first k ge inRange

theorem FirstClear.extend (first : FirstClear isSet start' bound found) (before : start ≤ start')
    (allSet : ∀ k, start ≤ k → k < start' → isSet k = true) :
    FirstClear isSet start bound found := by
  cases found with
  | some j =>
    obtain ⟨⟨ge, inRange, isClear⟩, least⟩ := first
    refine ⟨⟨before.trans ge, inRange, isClear⟩, ?_⟩
    rintro k ⟨ge', inRange', isClear'⟩
    by_contra less
    have less : k < start' := by
      by_contra ge''
      exact less (least ⟨not_lt.mp ge'', inRange', isClear'⟩)
    rw [allSet k ge' less] at isClear'
    cases isClear'
  | none =>
    intro k ge inRange
    rcases Nat.lt_or_ge k start' with less | ge'
    · exact allSet k ge less
    · exact first k ge' inRange

end

theorem firstClear_allocBit (word : BitVec 64) (j : Nat) :
    FirstClear (fun k => inSet k word) j 64 (allocBit word j) := by
  fun_induction allocBit word j with
  | case1 j inRange isClear =>
    exact ⟨⟨le_refl j, inRange, by simpa using isClear⟩, fun k member => member.1⟩
  | case2 j inRange isSet ih =>
    refine ih.extend (Nat.le_succ j) fun k ge lt => ?_
    obtain rfl : k = j := by omega
    simpa using isSet
  | case3 j outOfRange => exact fun k ge lt => absurd (ge.trans_lt lt) outOfRange

theorem firstClear_allocWord (bm : Bitmap) (i : Nat) :
    FirstClear bm.getIsSet (64 * i) (64 * bm.bits.length) (allocWord bm i) := by
  have bitAt : ∀ {k i}, 64 * i ≤ k → k < 64 * (i + 1) →
      bm.getIsSet k = inSet (k - 64 * i) bm.bits[i]!.toBitVec := by
    intro k i ge lt
    rw [getIsSet, show k / 64 = i by omega, show k % 64 = k - 64 * i by omega]
  fun_induction allocWord bm i with
  | case1 i inRange notOnes j isFound =>
    have first := firstClear_allocBit bm.bits[i]!.toBitVec 0
    rw [isFound] at first
    obtain ⟨⟨-, jRange, isClear⟩, least⟩ := first
    refine ⟨⟨Nat.le_add_right _ j, by omega, ?_⟩, ?_⟩
    · rw [bitAt (Nat.le_add_right _ j) (by omega), Nat.add_sub_cancel_left]
      exact isClear
    · rintro k ⟨ge, -, isClear'⟩
      by_contra less
      rw [bitAt ge (by omega)] at isClear'
      have := least ⟨Nat.zero_le _, by omega, isClear'⟩
      omega
  | case2 i inRange notOnes notFound ih =>
    have first := firstClear_allocBit bm.bits[i]!.toBitVec 0
    rw [notFound] at first
    obtain ⟨j, jRange, isClear⟩ := exists_notInSet fun ones => notOnes (UInt64.toBitVec_inj.mp ones)
    exact absurd (first j (Nat.zero_le j) jRange) (Bool.not_eq_true _ ▸ isClear)
  | case3 i inRange ones ih =>
    refine ih.extend (by omega) fun k ge lt => ?_
    rw [bitAt ge lt, not_not.mp ones]
    exact inSet_ones (by omega)
  | case4 i outOfRange =>
    intro k ge lt
    omega

/-- A packed bitmap and a sequence of booleans that the same operations have built. -/
inductive Built : Bitmap → BitmapModelT → Prop where
  | constructor (len : Nat) : len < 2 ^ 64 / 2 → len % 64 = 0 →
    Built (constructor len) (emptyBitmap len)
  | clone {bm : Bitmap} {model : BitmapModelT} : Built bm model → Built bm.cloneConstructor model
  | set {bm : Bitmap} {model : BitmapModelT} {c : Nat} : Built bm model → c < model.length →
    Built (bm.set c) (bitSet model c)
  | unset {bm : Bitmap} {model : BitmapModelT} {c : Nat} : Built bm model → c < model.length →
    Built (bm.unset c) (bitUnset model c)
  | union {a b : Bitmap} {model model' : BitmapModelT} : Built a model → Built b model' →
    model.length = model'.length → Built (unionConstructor a b) (bitUnion model model')

theorem Built.reads {model : BitmapModelT} (built : Built bm model) :
    model.length = 64 * bm.bits.length ∧ ∀ c < model.length, bm.getIsSet c = isSet model c := by
  induction built with
  | constructor len _ whole =>
    refine ⟨?_, fun c _ => by rw [getIsSet_constructor, isSet_emptyBitmap]⟩
    rw [emptyBitmap, List.length_replicate, Bitmap.constructor, List.length_replicate]
    omega
  | clone _ ih => exact ih
  | set _ inRange ih =>
    obtain ⟨length, reads⟩ := ih
    refine ⟨by rw [bitSet, List.length_set, Bitmap.set, List.length_set, length], ?_⟩
    intro c' inRange'
    rw [bitSet, List.length_set] at inRange'
    rw [getIsSet_set (by rw [length_I, ← length]; exact inRange), isSet_bitSet inRange,
      reads c' inRange']
  | unset _ inRange ih =>
    obtain ⟨length, reads⟩ := ih
    refine ⟨by rw [bitUnset, List.length_set, Bitmap.unset, List.length_set, length], ?_⟩
    intro c' inRange'
    rw [bitUnset, List.length_set] at inRange'
    rw [getIsSet_unset (length ▸ inRange), isSet_bitUnset, reads c' inRange']
  | union _ _ sameLength ih ih' =>
    obtain ⟨length, reads⟩ := ih
    obtain ⟨length', reads'⟩ := ih'
    refine ⟨?_, ?_⟩
    · simp only [bitUnion, unionConstructor, List.length_zipWith]
      omega
    · intro c inRange
      rw [bitUnion, List.length_zipWith] at inRange
      rw [getIsSet_union (by omega) (by omega), isSet_bitUnion sameLength,
        reads c (by omega), reads' c (by omega)]

/-- A bitmap reads as the sequence of booleans that the same operations have built, its search
returns the first clear bit, and a union is the pointwise or. -/
theorem bitmap_reads_as_model {bm : Bitmap} {model : BitmapModelT} (built : Built bm model) :
    (∀ i < model.length, bm.getIsSet i = isSet model i) ∧
    FirstClear (isSet model) 0 model.length bm.alloc ∧
    ∀ b model', Built b model' → model.length = model'.length → ∀ i < model.length,
      (unionConstructor bm b).getIsSet i = (isSet model i || isSet model' i) := by
  obtain ⟨length, reads⟩ := built.reads
  refine ⟨reads, ?_, ?_⟩
  · have first := firstClear_allocWord bm 0
    rw [← length] at first
    exact first.congr reads
  · intro b model' built' sameLength i inRange
    have inUnion : i < (bitUnion model model').length := by
      rw [bitUnion, List.length_zipWith]
      omega
    rw [(built.union built' sameLength).reads.2 i inUnion, isSet_bitUnion sameLength]

theorem bitmap_reads_as_model_secondWord :
    FirstClear (isSet (bitSet (emptyBitmap 128) 64)) 0 (bitSet (emptyBitmap 128) 64).length
      ((constructor 128).set 64).alloc :=
  (bitmap_reads_as_model
    ((Built.constructor 128 (by decide) rfl).set (by simp [emptyBitmap]))).2.1

end Bitmap

end BitmapImpl

end VerifiedBetrfs
