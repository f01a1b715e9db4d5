import VerifiedBetrfs.PivotNode

/-!
# Splitting a slot of a parent

Split and merge are described by one relation between the parent with the fused slot and the parent
with the slot split in two.
-/

namespace VerifiedBetrfs.PivotBetreeSpecRefinement

open BoundedPivotsLib SortedSearch BucketMaps BucketsLib BucketWeights Sequences

open PivotBetreeSpec (WFNode InvNode BoundedNode)

section Replace

variable {α : Type} {s : List α} {a b : α} {pos : Nat}

theorem getElem?_replace1with2 (bound : pos < s.length) (i : Nat) :
    (replace1with2 s a b pos)[i]? =
      if i < pos then s[i]? else if i = pos then some a
      else if i = pos + 1 then some b else s[i - 1]? := by
  have length := List.length_take_of_le bound.le
  rw [replace1with2, List.append_assoc]
  rcases Nat.lt_trichotomy i pos with before | rfl | after
  · rw [if_pos before, List.getElem?_append_left (by omega), List.getElem?_take, if_pos before]
  · rw [if_neg (lt_irrefl i), if_pos rfl, List.getElem?_append_right (by omega), length,
      Nat.sub_self]
    rfl
  · rw [if_neg (by omega), if_neg (by omega), List.getElem?_append_right (by omega), length]
    obtain ⟨offset, rfl⟩ := Nat.exists_eq_add_of_le after
    cases offset with
    | zero =>
      rw [if_pos rfl]
      have one : pos + 1 + 0 - pos = 1 := by omega
      rw [one]
      rfl
    | succ offset =>
      have two : pos + 1 + (offset + 1) - pos = offset + 1 + 1 := by omega
      have back : pos + 1 + (offset + 1) - 1 = pos + 1 + offset := by omega
      rw [two, back]
      simp [List.getElem?_drop]

theorem length_replace1with2 (bound : pos < s.length) :
    (replace1with2 s a b pos).length = s.length + 1 := by
  simp only [replace1with2, List.length_append, List.length_take, List.length_drop,
    List.length_cons, List.length_nil]
  omega

theorem replace1with2_replace2with1 (c : α) (atFirst : s[pos]? = some a)
    (atSecond : s[pos + 1]? = some b) : replace1with2 (replace2with1 s c pos) a b pos = s := by
  obtain ⟨bound, rfl⟩ := List.getElem?_eq_some_iff.mp atFirst
  obtain ⟨bound', rfl⟩ := List.getElem?_eq_some_iff.mp atSecond
  have length := List.length_take_of_le bound.le
  have first : (replace2with1 s c pos).take pos = s.take pos := by
    rw [replace2with1, List.append_assoc]
    exact List.take_left' length
  have second : (replace2with1 s c pos).drop (pos + 1) = s.drop (pos + 2) :=
    List.drop_left' (by simp [length])
  rw [replace1with2, first, second]
  conv_rhs => rw [← List.take_append_drop pos s, List.drop_eq_getElem_cons bound,
    List.drop_eq_getElem_cons bound']
  simp

theorem getElem?_replace2with1 (bound : pos < s.length) :
    (replace2with1 s a pos)[pos]? = some a := by
  have length := List.length_take_of_le bound.le
  rw [replace2with1, List.append_assoc, List.getElem?_append_right (by omega), length, Nat.sub_self]
  rfl

theorem getElem?_remove (i : Nat) :
    (remove s pos)[i]? = if i < pos then s[i]? else s[i + 1]? := by
  rw [remove, ← List.eraseIdx_eq_take_drop_succ, List.getElem?_eraseIdx]

theorem insert_remove (atPos : s[pos]? = some a) : insert (remove s pos) a pos = s := by
  obtain ⟨bound, rfl⟩ := List.getElem?_eq_some_iff.mp atPos
  have length := List.length_take_of_le bound.le
  have first : (remove s pos).take pos = s.take pos := List.take_left' length
  have second : (remove s pos).drop pos = s.drop (pos + 1) := List.drop_left' length
  rw [Sequences.insert, first, second]
  conv_rhs => rw [← List.take_append_drop pos s, List.drop_eq_getElem_cons bound]
  simp

end Replace

/-- The parent `fused` with a slot, and the parent `split` with a pivot inserted
into that slot. -/
structure SplitsSlot (fused split : PNode) (slot : Nat) (pivot : Key)
    (fusedRef leftRef rightRef : Reference) (left right : Bucket) : Prop where
  table : split.pivotTable = insert fused.pivotTable (keyToElement pivot) (slot + 1)
  below : ∃ low, fused.pivotTable[slot]? = some low ∧ low < keyToElement pivot
  above : ∃ high, fused.pivotTable[slot + 1]? = some high ∧ keyToElement pivot < high
  children : ∃ refs, fused.children = some refs ∧ refs[slot]? = some fusedRef ∧
    split.children = some (replace1with2 refs leftRef rightRef slot)
  fusedBucket : fused.buckets[slot]? = some (mergeBuckets left right)
  buckets : split.buckets = replace1with2 fused.buckets left right slot

namespace SplitsSlot

variable {fused split : PNode} {slot : Nat} {pivot : Key}
  {fusedRef leftRef rightRef : Reference} {left right : Bucket}
  (splits : SplitsSlot fused split slot pivot fusedRef leftRef rightRef left right)

include splits

variable {i : Nat}

theorem slots_left (pivots : WFPivots fused.pivotTable) (here : i ≤ slot) (key : Key) :
    InSlot split.pivotTable i (keyToElement key) ↔
      InSlot fused.pivotTable i (keyToElement key) ∧ key < pivot := by
  obtain ⟨_, atLow, lower⟩ := splits.below
  obtain ⟨_, atHigh, upper⟩ := splits.above
  rw [splits.table, Sequences.insert,
    inSlot_insert_left pivots.sorted atLow atHigh lower upper here, WithTop.coe_lt_coe]

theorem slots_right (pivots : WFPivots fused.pivotTable) (here : slot ≤ i) (key : Key) :
    InSlot split.pivotTable (i + 1) (keyToElement key) ↔
      InSlot fused.pivotTable i (keyToElement key) ∧ pivot ≤ key := by
  obtain ⟨_, atLow, lower⟩ := splits.below
  obtain ⟨_, atHigh, upper⟩ := splits.above
  rw [splits.table, Sequences.insert,
    inSlot_insert_right pivots.sorted atLow atHigh lower upper here, WithTop.coe_le_coe]

variable {key : Key}

theorem slot_before (pivots : WFPivots fused.pivotTable) (before : i < slot)
    (inSlot : InSlot fused.pivotTable i (keyToElement key)) : key < pivot := by
  obtain ⟨_, atLow, lower⟩ := splits.below
  obtain ⟨_, _, _, atNext, _, less⟩ := inSlot
  exact WithTop.coe_lt_coe.mp
    (lt_trans (lt_of_lt_of_le less (getElem?_le pivots.sorted atNext atLow before)) lower)

theorem slot_after (pivots : WFPivots fused.pivotTable) (after : slot < i)
    (inSlot : InSlot fused.pivotTable i (keyToElement key)) : pivot ≤ key := by
  obtain ⟨_, atHigh, upper⟩ := splits.above
  obtain ⟨_, _, atFirst, _, le, _⟩ := inSlot
  exact WithTop.coe_le_coe.mp
    (le_of_lt (lt_of_lt_of_le upper (le_trans (getElem?_le pivots.sorted atHigh atFirst after) le)))

theorem slot_lt : slot < fused.buckets.length :=
  (List.getElem?_eq_some_iff.mp splits.fusedBucket).1

theorem weight_eq : weightBucketList split.buckets = weightBucketList fused.buckets := by
  rw [weightBucketList_parts splits.fusedBucket, splits.buckets, replace1with2]
  simp only [weightBucketList_append, weightBucketList_cons, weightBucketList_nil,
    weightBucket_mergeBuckets]
  omega

theorem bucket_cases {bucket : Bucket} (atI : split.buckets[i]? = some bucket) :
    (i < slot ∧ fused.buckets[i]? = some bucket) ∨ (i = slot ∧ bucket = left) ∨
      (i = slot + 1 ∧ bucket = right) ∨
      ∃ j, slot < j ∧ i = j + 1 ∧ fused.buckets[j]? = some bucket := by
  rw [splits.buckets, getElem?_replace1with2 splits.slot_lt] at atI
  split at atI
  · rename_i before
    exact Or.inl ⟨before, atI⟩
  · split at atI
    · rename_i same
      exact Or.inr (Or.inl ⟨same, (Option.some.inj atI).symm⟩)
    · split at atI
      · rename_i same
        exact Or.inr (Or.inr (Or.inl ⟨same, (Option.some.inj atI).symm⟩))
      · exact Or.inr (Or.inr (Or.inr ⟨i - 1, by omega, by omega, atI⟩))

theorem getElem?_before (before : i < slot) : split.buckets[i]? = fused.buckets[i]? := by
  rw [splits.buckets, getElem?_replace1with2 splits.slot_lt, if_pos before]

theorem getElem?_left : split.buckets[slot]? = some left := by
  rw [splits.buckets, getElem?_replace1with2 splits.slot_lt, if_neg (lt_irrefl slot), if_pos rfl]

theorem getElem?_right : split.buckets[slot + 1]? = some right := by
  rw [splits.buckets, getElem?_replace1with2 splits.slot_lt, if_neg (by omega),
    if_neg (by omega), if_pos rfl]

theorem getElem?_after (after : slot < i) : split.buckets[i + 1]? = fused.buckets[i]? := by
  rw [splits.buckets, getElem?_replace1with2 splits.slot_lt, if_neg (by omega),
    if_neg (by omega), if_neg (by omega), Nat.add_sub_cancel]

theorem numBuckets_split : split.buckets.length = fused.buckets.length + 1 := by
  rw [splits.buckets, length_replace1with2 splits.slot_lt]

theorem length_table (pivots : WFPivots fused.pivotTable) :
    numBuckets split.pivotTable = numBuckets fused.pivotTable + 1 := by
  have := pivots.length
  rw [splits.table, Sequences.insert, numBuckets, numBuckets]
  simp only [List.length_append, List.length_take, List.length_drop, List.length_singleton]
  omega

theorem inv_split (inv : InvNode fused) (wfLeft : WFBucket left) (wfRight : WFBucket right)
    (leftSorted : BucketWellMarshalled left) (rightSorted : BucketWellMarshalled right)
    (leftBelow : ∀ key ∈ left.keys, key < pivot) (rightAbove : ∀ key ∈ right.keys, pivot ≤ key)
    (fanout : fused.buckets.length ≤ Bounds.maxNumChildren - 1) : InvNode split := by
  obtain ⟨_, atLow, lower⟩ := splits.below
  obtain ⟨_, atHigh, upper⟩ := splits.above
  have pivots : WFPivots split.pivotTable := by
    rw [splits.table]
    exact inv.wf.pivots.insert atLow atHigh lower upper
  have merged := goodBucket inv splits.fusedBucket
  refine invNode_of_good pivots ?_ ?_ ?_ ⟨?_, ?_⟩
  · rw [splits.numBuckets_split, splits.length_table inv.wf.pivots, inv.wf.numBuckets]
  · intro refs children
    obtain ⟨refs', fusedChildren, atSlot, splitChildren⟩ := splits.children
    obtain rfl := Option.mem_unique splitChildren children
    rw [splits.numBuckets_split, length_replace1with2 (List.getElem?_eq_some_iff.mp atSlot).1,
      inv.wf.numChildren refs' fusedChildren]
  · intro i bucket atI
    rcases splits.bucket_cases atI with ⟨before, atFused⟩ | ⟨rfl, rfl⟩ | ⟨rfl, rfl⟩ |
      ⟨_, after, rfl, atFused⟩
    · exact goodBucket_moved inv pivots atFused fun key _ inSlot =>
        (splits.slots_left inv.wf.pivots (le_of_lt before) key).mpr
          ⟨inSlot, splits.slot_before inv.wf.pivots before inSlot⟩
    · refine goodBucketAt_of_inSlot pivots wfLeft leftSorted fun key member => ?_
      refine (splits.slots_left inv.wf.pivots (le_refl _) key).mpr ⟨?_, leftBelow key member⟩
      exact merged.inSlot inv.wf.pivots (List.mem_append_left _ member)
    · refine goodBucketAt_of_inSlot pivots wfRight rightSorted fun key member => ?_
      refine (splits.slots_right inv.wf.pivots (le_refl _) key).mpr ⟨?_, rightAbove key member⟩
      exact merged.inSlot inv.wf.pivots (List.mem_append_right _ member)
    · exact goodBucket_moved inv pivots atFused fun key _ inSlot =>
        (splits.slots_right inv.wf.pivots (le_of_lt after) key).mpr
          ⟨inSlot, splits.slot_after inv.wf.pivots after inSlot⟩
  · have : 1 ≤ Bounds.maxNumChildren := by decide
    rw [splits.numBuckets_split]
    omega
  · rw [splits.weight_eq]
    exact inv.wf.bounded.2

theorem inv_fused (inv : InvNode split) (pivots : WFPivots fused.pivotTable) : InvNode fused := by
  have goodLeft := goodBucket inv splits.getElem?_left
  have goodRight := goodBucket inv splits.getElem?_right
  have leftSlot := fun key => splits.slots_left pivots (le_refl slot) key
  have rightSlot := fun key => splits.slots_right pivots (le_refl slot) key
  have splitLength := inv.wf.numBuckets
  rw [splits.numBuckets_split, splits.length_table pivots] at splitLength
  refine invNode_of_good pivots (by omega) ?_ ?_ ⟨?_, ?_⟩
  · intro refs children
    obtain ⟨_, fusedChildren, atSlot, splitChildren⟩ := splits.children
    obtain rfl := Option.mem_unique fusedChildren children
    have := inv.wf.numChildren _ splitChildren
    rw [splits.numBuckets_split, length_replace1with2 (List.getElem?_eq_some_iff.mp atSlot).1]
      at this
    omega
  · intro i bucket atI
    rcases Nat.lt_trichotomy i slot with before | rfl | after
    · rw [← splits.getElem?_before before] at atI
      exact goodBucket_moved inv pivots atI fun key _ inSlot =>
        ((splits.slots_left pivots (le_of_lt before) key).mp inSlot).1
    · obtain rfl := Option.mem_unique splits.fusedBucket atI
      have below : ∀ key ∈ left.keys, key < pivot := fun key member =>
        ((leftSlot key).mp (goodLeft.inSlot inv.wf.pivots member)).2
      have above : ∀ key ∈ right.keys, pivot ≤ key := fun key member =>
        ((rightSlot key).mp (goodRight.inSlot inv.wf.pivots member)).2
      refine goodBucketAt_of_inSlot pivots (wf_mergeBuckets goodLeft.wf goodRight.wf)
        (wellMarshalled_mergeBuckets goodLeft.sorted goodRight.sorted below above)
        fun key member => ?_
      rcases List.mem_append.mp member with inLeft | inRight
      · exact ((leftSlot key).mp (goodLeft.inSlot inv.wf.pivots inLeft)).1
      · exact ((rightSlot key).mp (goodRight.inSlot inv.wf.pivots inRight)).1
    · rw [← splits.getElem?_after after] at atI
      exact goodBucket_moved inv pivots atI fun key _ inSlot =>
        ((splits.slots_right pivots (le_of_lt after) key).mp inSlot).1
  · have := inv.wf.bounded.1
    rw [splits.numBuckets_split] at this
    omega
  · rw [← splits.weight_eq]
    exact inv.wf.bounded.2

theorem split_inSlot (pivots : WFPivots fused.pivotTable)
    (inSlot : InSlot fused.pivotTable i (keyToElement key)) :
    InSlot split.pivotTable (if key < pivot then i else i + 1) (keyToElement key) := by
  split
  · rename_i less
    refine (splits.slots_left pivots ?_ key).mpr ⟨inSlot, less⟩
    by_contra after
    exact absurd less (not_lt.mpr (splits.slot_after pivots (by omega) inSlot))
  · rename_i notLess
    refine (splits.slots_right pivots ?_ key).mpr ⟨inSlot, not_lt.mp notLess⟩
    by_contra before
    exact notLess (splits.slot_before pivots (by omega) inSlot)

section

variable (invFused : InvNode fused)

include invFused

theorem boundedKey_split (invSplit : InvNode split) (key : Key) :
    BoundedKey split.pivotTable key ↔ BoundedKey fused.pivotTable key := by
  rw [boundedKey_iff invSplit.wf.pivots, boundedKey_iff invFused.wf.pivots]
  constructor
  · rintro ⟨i, inSlot⟩
    rcases Nat.lt_or_ge slot i with after | here
    · obtain ⟨j, rfl⟩ := Nat.exists_eq_add_of_lt after
      have inFused :=
        (splits.slots_right invFused.wf.pivots (Nat.le_add_right slot j) key).mp inSlot
      exact ⟨_, inFused.1⟩
    · exact ⟨i, ((splits.slots_left invFused.wf.pivots here key).mp inSlot).1⟩
  · rintro ⟨i, inSlot⟩
    exact ⟨_, splits.split_inSlot invFused.wf.pivots inSlot⟩

theorem fused_child (inSlot : InSlot fused.pivotTable slot (keyToElement key)) :
    (iNode fused).children key = some fusedRef := by
  obtain ⟨_, fusedChildren, atSlot, _⟩ := splits.children
  rw [iChildren_at invFused.wf inSlot, fusedChildren, Option.bind_some, atSlot]

section

variable (invSplit : InvNode split)

include invSplit

theorem split_child (inSlot : InSlot fused.pivotTable slot (keyToElement key)) :
    (iNode split).children key = some (if key < pivot then leftRef else rightRef) := by
  obtain ⟨_, _, atSlot, splitChildren⟩ := splits.children
  have bound := (List.getElem?_eq_some_iff.mp atSlot).1
  rw [iChildren_at invSplit.wf (splits.split_inSlot invFused.wf.pivots inSlot), splitChildren,
    Option.bind_some, getElem?_replace1with2 bound]
  split
  · rw [if_neg (lt_irrefl slot), if_pos rfl]
  · rw [if_neg (by omega), if_neg (by omega), if_pos rfl]

theorem other_child (outside : ¬ InSlot fused.pivotTable slot (keyToElement key)) :
    (iNode split).children key = (iNode fused).children key := by
  obtain ⟨_, fusedChildren, atSlot, splitChildren⟩ := splits.children
  have bound := (List.getElem?_eq_some_iff.mp atSlot).1
  by_cases bounded : BoundedKey fused.pivotTable key
  · obtain ⟨i, inSlot⟩ := (boundedKey_iff invFused.wf.pivots).mp bounded
    have distinct : i ≠ slot := by
      rintro rfl
      exact outside inSlot
    rw [iChildren_at invSplit.wf (splits.split_inSlot invFused.wf.pivots inSlot),
      iChildren_at invFused.wf inSlot, splitChildren, fusedChildren, Option.bind_some,
      Option.bind_some, getElem?_replace1with2 bound]
    split
    · rename_i less
      have before : i < slot := by
        by_contra notBefore
        exact absurd less (not_lt.mpr (splits.slot_after invFused.wf.pivots (by omega) inSlot))
      rw [if_pos before]
    · rename_i notLess
      have after : slot < i := by
        by_contra notAfter
        exact notLess (splits.slot_before invFused.wf.pivots (by omega) inSlot)
      rw [if_neg (by omega), if_neg (by omega), if_neg (by omega), Nat.add_sub_cancel]
  · rw [iNode_children, iNode_children, if_neg bounded,
      if_neg (mt (splits.boundedKey_split invFused invSplit key).mp bounded)]

theorem bucketGet_split
    (inSlot : InSlot fused.pivotTable i (keyToElement key)) {bucket bucket' : Bucket}
    (atFused : fused.buckets[i]? = some bucket)
    (atSplit : split.buckets[if key < pivot then i else i + 1]? = some bucket') :
    bucketGet bucket'.asMap key = bucketGet bucket.asMap key := by
  have goodLeft := goodBucket invSplit splits.getElem?_left
  have goodRight := goodBucket invSplit splits.getElem?_right
  have sorted := (goodBucket invFused splits.fusedBucket).sorted
  rcases Nat.lt_trichotomy i slot with before | rfl | after
  · rw [if_pos (splits.slot_before invFused.wf.pivots before inSlot),
      splits.getElem?_before before, atFused] at atSplit
    rw [Option.some.inj atSplit]
  · obtain rfl := Option.mem_unique splits.fusedBucket atFused
    split at atSplit
    · rename_i less
      obtain rfl := Option.mem_unique splits.getElem?_left atSplit
      refine (bucketGet_mergeBuckets_left goodLeft.wf goodRight.wf goodLeft.sorted sorted
        (fun other member => ?_) less).symm
      exact ((splits.slots_right invFused.wf.pivots (le_refl _) other).mp
        (goodRight.inSlot invSplit.wf.pivots member)).2
    · rename_i notLess
      obtain rfl := Option.mem_unique splits.getElem?_right atSplit
      refine (bucketGet_mergeBuckets_right goodLeft.wf goodRight.wf goodRight.sorted sorted
        (fun other member => ?_) (not_lt.mp notLess)).symm
      exact ((splits.slots_left invFused.wf.pivots (le_refl _) other).mp
        (goodLeft.inSlot invSplit.wf.pivots member)).2
  · rw [if_neg (not_lt.mpr (splits.slot_after invFused.wf.pivots after inSlot)),
      splits.getElem?_after after, atFused] at atSplit
    rw [Option.some.inj atSplit]

theorem buffer_eq : (iNode split).buffer = (iNode fused).buffer := by
  obtain ⟨_, fusedChildren, _, splitChildren⟩ := splits.children
  funext key
  by_cases bounded : BoundedKey fused.pivotTable key
  · obtain ⟨_, inSlot⟩ := (boundedKey_iff invFused.wf.pivots).mp bounded
    have inSplit := splits.split_inSlot invFused.wf.pivots inSlot
    obtain ⟨_, atFused⟩ := exists_bucket invFused.wf inSlot
    obtain ⟨_, atSplit⟩ := exists_bucket invSplit.wf inSplit
    rw [iBuffer_at invFused.wf inSlot atFused, iBuffer_at invSplit.wf inSplit atSplit,
      splits.bucketGet_split invFused invSplit inSlot atFused atSplit, leafMessage, leafMessage,
      fusedChildren, splitChildren, Option.isSome_some, Option.isSome_some]
  · rw [iNode_buffer, iNode_buffer, if_neg bounded,
      if_neg (mt (splits.boundedKey_split invFused invSplit key).mp bounded)]

end

end

end SplitsSlot

end VerifiedBetrfs.PivotBetreeSpecRefinement
