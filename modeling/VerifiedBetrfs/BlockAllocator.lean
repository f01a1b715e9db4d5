import VerifiedBetrfs.Bitmap
import VerifiedBetrfs.DiskLayout

/-!
# The block allocator

A block is in use as long as one of four views needs it; one more bitmap is the union of theirs.
-/

namespace VerifiedBetrfs

open BitmapModel Bounds

/-- The blocks that each view needs, and their union. -/
structure BlockAllocatorModel where
  ephemeral : BitmapModelT
  frozen : Option BitmapModelT
  persistent : BitmapModelT
  outstanding : BitmapModelT
  full : BitmapModelT

namespace BlockAllocatorModel

/-- The first block that no view needs. -/
def alloc (bam : BlockAllocatorModel) : Option Nat := bitAlloc bam.full

def initBlockAllocator (bm : BitmapModelT) : BlockAllocatorModel :=
  ⟨bm, none, bm, emptyBitmap numBlocks, bm⟩

section

variable (bam : BlockAllocatorModel)

def markUsedEphemeral (i : Nat) : BlockAllocatorModel :=
  { bam with
    ephemeral := bitSet bam.ephemeral i
    full := bitSet bam.full i }

/-- Only if there is a frozen view. -/
def markUsedFrozen (i : Nat) : Option BlockAllocatorModel := do
  let frozen ← bam.frozen
  return { bam with
    frozen := some (bitSet frozen i)
    full := bitSet bam.full i }

def markUsedOutstanding (i : Nat) : BlockAllocatorModel :=
  { bam with
    outstanding := bitSet bam.outstanding i
    full := bitSet bam.full i }

def isSetFrozen (i : Nat) : Bool :=
  match bam.frozen with
  | none => false
  | some frozen => isSet frozen i

def markFreeOutstanding (i : Nat) : BlockAllocatorModel :=
  { bam with
    outstanding := bitUnset bam.outstanding i
    full := if !isSet bam.ephemeral i && !isSet bam.persistent i && !bam.isSetFrozen i then
      bitUnset bam.full i else bam.full }

/-- The ephemeral view no longer needs the block. -/
def markFreeEphemeral (i : Nat) : BlockAllocatorModel :=
  { bam with
    ephemeral := bitUnset bam.ephemeral i
    full := if !isSet bam.outstanding i && !isSet bam.persistent i && !bam.isSetFrozen i then
      bitUnset bam.full i else bam.full }

/-- Only if there is a frozen view. -/
def moveFrozenToPersistent : Option BlockAllocatorModel := do
  let frozen ← bam.frozen
  return ⟨bam.ephemeral, none, frozen, bam.outstanding,
    bitUnion bam.ephemeral (bitUnion frozen bam.outstanding)⟩

/-- The ephemeral view is frozen. -/
def copyEphemeralToFrozen : BlockAllocatorModel :=
  ⟨bam.ephemeral, some bam.ephemeral, bam.persistent, bam.outstanding, bam.full⟩

end

/-- One of the four views needs the block. -/
def isLive (bam : BlockAllocatorModel) (i : Nat) : Bool :=
  isSet bam.ephemeral i || bam.isSetFrozen i || isSet bam.persistent i || isSet bam.outstanding i

/-- The bitmaps have their length, and `full` is the union. -/
structure Inv (bam : BlockAllocatorModel) : Prop where
  lenEphemeral : bam.ephemeral.length = numBlocks
  lenFrozen : ∀ frozen, bam.frozen = some frozen → frozen.length = numBlocks
  lenPersistent : bam.persistent.length = numBlocks
  lenOutstanding : bam.outstanding.length = numBlocks
  lenFull : bam.full.length = numBlocks
  isSetFull : ∀ i, i < numBlocks → isSet bam.full i = bam.isLive i

variable {bam bam' : BlockAllocatorModel} {i : Nat}

theorem inv_initBlockAllocator {bm : BitmapModelT} (length : bm.length = numBlocks) :
    Inv (initBlockAllocator bm) := by
  have lenEmpty : (emptyBitmap numBlocks).length = numBlocks := List.length_replicate
  refine ⟨length, ?_, length, lenEmpty, length, ?_⟩
  · rintro frozen ⟨⟩
  · intro j _
    simp [initBlockAllocator, isLive, isSetFrozen, isSet_emptyBitmap]

theorem length_bitSet (bm : BitmapModelT) (j : Nat) : (bitSet bm j).length = bm.length :=
  List.length_set

theorem length_bitUnset (bm : BitmapModelT) (j : Nat) : (bitUnset bm j).length = bm.length :=
  List.length_set

section

variable (inv : Inv bam)

include inv

theorem Inv.markUsedEphemeral (inRange : i < numBlocks) : Inv (bam.markUsedEphemeral i) := by
  have inEphemeral : i < bam.ephemeral.length := by rwa [inv.lenEphemeral]
  have inFull : i < bam.full.length := by rwa [inv.lenFull]
  refine ⟨(length_bitSet _ _).trans inv.lenEphemeral, inv.lenFrozen, inv.lenPersistent,
    inv.lenOutstanding, (length_bitSet _ _).trans inv.lenFull, ?_⟩
  intro j jRange
  have live := inv.isSetFull j jRange
  simp only [BlockAllocatorModel.markUsedEphemeral, isLive, isSetFrozen] at live ⊢
  rw [isSet_bitSet inEphemeral, isSet_bitSet inFull, live]
  simp only [Bool.or_assoc]

theorem Inv.markUsedFrozen (inRange : i < numBlocks)
    (marked : bam.markUsedFrozen i = some bam') : Inv bam' := by
  simp only [BlockAllocatorModel.markUsedFrozen, Option.bind_eq_bind, Option.bind_eq_some_iff,
    Option.pure_def, Option.some.injEq] at marked
  obtain ⟨frozen, isFrozen, rfl⟩ := marked
  have lenFrozen := inv.lenFrozen frozen isFrozen
  have inFrozen : i < frozen.length := by rwa [lenFrozen]
  have inFull : i < bam.full.length := by rwa [inv.lenFull]
  refine ⟨inv.lenEphemeral, ?_, inv.lenPersistent, inv.lenOutstanding,
    (length_bitSet _ _).trans inv.lenFull, ?_⟩
  · rintro _ ⟨⟩
    exact (length_bitSet _ _).trans lenFrozen
  · intro j jRange
    have live := inv.isSetFull j jRange
    simp only [isLive, isSetFrozen, isFrozen] at live ⊢
    rw [isSet_bitSet inFrozen, isSet_bitSet inFull, live]
    simp only [Bool.or_assoc, Bool.or_left_comm]

theorem Inv.markUsedOutstanding (inRange : i < numBlocks) : Inv (bam.markUsedOutstanding i) := by
  have inOutstanding : i < bam.outstanding.length := by rwa [inv.lenOutstanding]
  have inFull : i < bam.full.length := by rwa [inv.lenFull]
  refine ⟨inv.lenEphemeral, inv.lenFrozen, inv.lenPersistent,
    (length_bitSet _ _).trans inv.lenOutstanding, (length_bitSet _ _).trans inv.lenFull, ?_⟩
  intro j jRange
  have live := inv.isSetFull j jRange
  simp only [BlockAllocatorModel.markUsedOutstanding, isLive, isSetFrozen] at live ⊢
  rw [isSet_bitSet inOutstanding, isSet_bitSet inFull, live]
  simp only [Bool.or_assoc, Bool.or_left_comm]

omit inv in
/-- A bit that is taken from one view is taken from the union if no other view has it. -/
theorem isSet_ite_bitUnset {full : BitmapModelT} {view others : Nat → Bool} (j : Nat)
    (live : isSet full j = (view j || others j)) :
    isSet (if !others i then bitUnset full i else full) j =
      ((decide (i ≠ j) && view j) || others j) := by
  by_cases same : i = j
  · subst same
    cases isOther : others i with
    | false => simp [isSet_bitUnset]
    | true => simp [live, isOther]
  · cases others i with
    | false => simp [isSet_bitUnset, same, live]
    | true => simp [same, live]

theorem Inv.markFreeOutstanding : Inv (bam.markFreeOutstanding i) := by
  refine ⟨inv.lenEphemeral, inv.lenFrozen, inv.lenPersistent,
    (length_bitUnset _ _).trans inv.lenOutstanding, ?_, ?_⟩
  · simp only [BlockAllocatorModel.markFreeOutstanding]
    split
    · exact (length_bitUnset _ _).trans inv.lenFull
    · exact inv.lenFull
  · intro j jRange
    let others (k : Nat) := isSet bam.ephemeral k || isSet bam.persistent k || bam.isSetFrozen k
    have live : isSet bam.full j = (isSet bam.outstanding j || others j) := by
      rw [inv.isSetFull j jRange, isLive]
      simp only [others]
      ac_rfl
    have freed := isSet_ite_bitUnset (i := i) j live
    simp only [others, Bool.not_or] at freed
    simp only [BlockAllocatorModel.markFreeOutstanding, isLive, isSetFrozen] at freed ⊢
    rw [freed, isSet_bitUnset]
    ac_rfl

theorem Inv.markFreeEphemeral : Inv (bam.markFreeEphemeral i) := by
  refine ⟨(length_bitUnset _ _).trans inv.lenEphemeral, inv.lenFrozen, inv.lenPersistent,
    inv.lenOutstanding, ?_, ?_⟩
  · simp only [BlockAllocatorModel.markFreeEphemeral]
    split
    · exact (length_bitUnset _ _).trans inv.lenFull
    · exact inv.lenFull
  · intro j jRange
    let others (k : Nat) := isSet bam.outstanding k || isSet bam.persistent k || bam.isSetFrozen k
    have live : isSet bam.full j = (isSet bam.ephemeral j || others j) := by
      rw [inv.isSetFull j jRange, isLive]
      simp only [others]
      ac_rfl
    have freed := isSet_ite_bitUnset (i := i) j live
    simp only [others, Bool.not_or] at freed
    simp only [BlockAllocatorModel.markFreeEphemeral, isLive, isSetFrozen] at freed ⊢
    rw [freed, isSet_bitUnset]
    ac_rfl

/-- The blocks that only the old persistent view had become free. -/
theorem Inv.moveFrozenToPersistent (moved : bam.moveFrozenToPersistent = some bam') : Inv bam' := by
  simp only [BlockAllocatorModel.moveFrozenToPersistent, Option.bind_eq_bind,
    Option.bind_eq_some_iff, Option.pure_def, Option.some.injEq] at moved
  obtain ⟨frozen, isFrozen, rfl⟩ := moved
  have lenFrozen := inv.lenFrozen frozen isFrozen
  have sameLength : frozen.length = bam.outstanding.length := by
    rw [lenFrozen, inv.lenOutstanding]
  have lenUnion : (bitUnion frozen bam.outstanding).length = numBlocks := by
    simp [bitUnion, lenFrozen, inv.lenOutstanding]
  refine ⟨inv.lenEphemeral, by simp, lenFrozen, inv.lenOutstanding, ?_, ?_⟩
  · simp [bitUnion, lenFrozen, inv.lenOutstanding, inv.lenEphemeral]
  · intro j _
    rw [isSet_bitUnion (by rw [lenUnion, inv.lenEphemeral]), isSet_bitUnion sameLength]
    simp [isLive, isSetFrozen, Bool.or_assoc]

theorem Inv.copyEphemeralToFrozen (notFrozen : bam.frozen = none) :
    Inv bam.copyEphemeralToFrozen := by
  refine { inv with lenFrozen := ?_, isSetFull := ?_ }
  · rintro _ ⟨⟩
    exact inv.lenEphemeral
  · intro j jRange
    have live := inv.isSetFull j jRange
    simp only [BlockAllocatorModel.copyEphemeralToFrozen, isLive, isSetFrozen, notFrozen] at live ⊢
    rw [live]
    simp

end

/-- The calls of the allocator. -/
inductive Op where
  | markUsedEphemeral (i : Nat)
  | markUsedFrozen (i : Nat)
  | markUsedOutstanding (i : Nat)
  | markFreeOutstanding (i : Nat)
  | markFreeEphemeral (i : Nat)
  | moveFrozenToPersistent
  | copyEphemeralToFrozen

/-- An operation that is called as its contract asks for.  A view is frozen only if none is
frozen. -/
def Next (bam bam' : BlockAllocatorModel) : Op → Prop
  | .markUsedEphemeral i => i < numBlocks ∧ bam' = bam.markUsedEphemeral i
  | .markUsedFrozen i => i < numBlocks ∧ bam.markUsedFrozen i = some bam'
  | .markUsedOutstanding i => i < numBlocks ∧ bam' = bam.markUsedOutstanding i
  | .markFreeOutstanding i => i < numBlocks ∧ bam' = bam.markFreeOutstanding i
  | .markFreeEphemeral i => i < numBlocks ∧ bam' = bam.markFreeEphemeral i
  | .moveFrozenToPersistent => bam.moveFrozenToPersistent = some bam'
  | .copyEphemeralToFrozen => bam.frozen = none ∧ bam' = bam.copyEphemeralToFrozen

theorem Inv.next {op : Op} (inv : Inv bam) (next : Next bam bam' op) : Inv bam' := by
  cases op with
  | markUsedEphemeral i =>
    obtain ⟨inRange, rfl⟩ := next
    exact inv.markUsedEphemeral inRange
  | markUsedFrozen i => exact inv.markUsedFrozen next.1 next.2
  | markUsedOutstanding i =>
    obtain ⟨inRange, rfl⟩ := next
    exact inv.markUsedOutstanding inRange
  | markFreeOutstanding i =>
    obtain ⟨-, rfl⟩ := next
    exact inv.markFreeOutstanding
  | markFreeEphemeral i =>
    obtain ⟨-, rfl⟩ := next
    exact inv.markFreeEphemeral
  | moveFrozenToPersistent => exact inv.moveFrozenToPersistent next
  | copyEphemeralToFrozen =>
    obtain ⟨notFrozen, rfl⟩ := next
    exact inv.copyEphemeralToFrozen notFrozen

/-- The states after a sequence of operations. -/
inductive Run (bm : BitmapModelT) : List Op → BlockAllocatorModel → Prop where
  | init : Run bm [] (initBlockAllocator bm)
  | next {ops : List Op} {bam bam' : BlockAllocatorModel} {op : Op} :
      Run bm ops bam → Next bam bam' op → Run bm (ops ++ [op]) bam'

theorem Run.inv {bm : BitmapModelT} {ops : List Op} (run : Run bm ops bam)
    (length : bm.length = numBlocks) : Inv bam := by
  induction run with
  | init => exact inv_initBlockAllocator length
  | next previous step ih => exact ih.next step

theorem Inv.alloc_eq_some {j : Nat} (inv : Inv bam) (allocated : bam.alloc = some j) :
    IsLeast {k | k < numBlocks ∧ bam.isLive k = false} j := by
  obtain ⟨inside, isFree, below⟩ := bitAllocIter_eq_some allocated
  rw [inv.lenFull] at inside
  refine ⟨⟨inside, (inv.isSetFull j inside).symm.trans isFree⟩, ?_⟩
  rintro k ⟨kRange, notLive⟩
  by_contra isBelow
  have isUsed := below k (Nat.zero_le k) (Nat.lt_of_not_le isBelow)
  rw [inv.isSetFull k kRange, notLive] at isUsed
  cases isUsed

theorem Inv.alloc_eq_none (inv : Inv bam) (full : bam.alloc = none) :
    ∀ j, j < numBlocks → bam.isLive j = true := by
  intro j jRange
  rw [← inv.isSetFull j jRange]
  exact bitAllocIter_eq_none full j (Nat.zero_le j) (by rwa [inv.lenFull])

/-- The cached bitmap stays the union of the four views.  So the allocator gives the first block
that no view needs, and none only if there is no such block. -/
theorem alloc_not_live {bm : BitmapModelT} {ops : List Op} (length : bm.length = numBlocks)
    (run : Run bm ops bam) :
    (∀ j, j < numBlocks → (isSet bam.full j = true ↔
      isSet bam.ephemeral j = true ∨ (∃ frozen, bam.frozen = some frozen ∧
        isSet frozen j = true) ∨ isSet bam.persistent j = true ∨
          isSet bam.outstanding j = true)) ∧
    (∀ j, bam.alloc = some j → IsLeast {k | k < numBlocks ∧ bam.isLive k = false} j) ∧
    (bam.alloc = none → ∀ j, j < numBlocks → bam.isLive j = true) := by
  have inv := run.inv length
  refine ⟨?_, fun j => inv.alloc_eq_some, inv.alloc_eq_none⟩
  intro j jRange
  rw [inv.isSetFull j jRange, isLive, isSetFrozen]
  cases bam.frozen <;> simp [or_assoc]

theorem exists_run (bm : BitmapModelT) : ∃ bam, Run bm
    [.markUsedOutstanding 3, .copyEphemeralToFrozen, .markFreeEphemeral 5,
      .moveFrozenToPersistent] bam := by
  have marked : Run bm [.markUsedOutstanding 3] ((initBlockAllocator bm).markUsedOutstanding 3) :=
    .next .init ⟨by decide, rfl⟩
  have frozen : Run bm [.markUsedOutstanding 3, .copyEphemeralToFrozen]
      ((initBlockAllocator bm).markUsedOutstanding 3).copyEphemeralToFrozen :=
    .next marked ⟨rfl, rfl⟩
  have freed : Run bm [.markUsedOutstanding 3, .copyEphemeralToFrozen, .markFreeEphemeral 5]
      (((initBlockAllocator bm).markUsedOutstanding 3).copyEphemeralToFrozen.markFreeEphemeral 5) :=
    .next frozen ⟨by decide, rfl⟩
  exact ⟨_, .next freed rfl⟩

/-- A run in which a block is freed while a view is frozen, and the frozen view is moved. -/
theorem alloc_not_live_moved : ∃ bam, Run (emptyBitmap numBlocks)
      [.markUsedOutstanding 3, .copyEphemeralToFrozen, .markFreeEphemeral 5,
        .moveFrozenToPersistent] bam ∧
    ∀ j, bam.alloc = some j → IsLeast {k | k < numBlocks ∧ bam.isLive k = false} j := by
  obtain ⟨bam, run⟩ := exists_run (emptyBitmap numBlocks)
  exact ⟨bam, run, (alloc_not_live List.length_replicate run).2.1⟩

end BlockAllocatorModel

end VerifiedBetrfs
