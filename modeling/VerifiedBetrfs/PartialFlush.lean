import VerifiedBetrfs.PivotBetreeRefinement

/-!
# What a flush moves

Stated for the maps that the buckets stand for.
-/

namespace VerifiedBetrfs

open FiniteMap (lookup_ofFinset notMem_support ofFinset)
open BoundedPivotsLib SortedSearch BucketMaps BucketsLib BucketWeights

namespace BucketMaps

/-- The bucket of a child, with the messages of the parent for its slot merged into it. -/
def bucketListItemFlush (parent child : BucketMap) (pivots : PivotTable) (i : Nat) : BucketMap :=
  ofFinset (child.support ∪ parent.support) fun key =>
    let msg := (bucketGet parent key).merge (bucketGet child key)
    if BoundedKey pivots key ∧ route pivots key = i ∧ msg ≠ ValueMessage.identityMessage then
      some msg
    else none

/-- The messages of some keys. -/
def bucketIntersect (bucket : BucketMap) (keys : Finset Key) : BucketMap :=
  ofFinset bucket.support fun key => if key ∈ keys then bucket.lookup key else none

/-- The messages of the other keys. -/
def bucketComplement (bucket : BucketMap) (keys : Finset Key) : BucketMap :=
  ofFinset bucket.support fun key => if key ∉ keys then bucket.lookup key else none

end BucketMaps

namespace BucketFlushModel

open PivotBetreeSpecRefinement

/-- A bucket without identity messages has a key exactly if it has a message for it. -/
theorem lookup_asMap_of_wf {bucket : Bucket} (wf : WFBucket bucket)
    (sorted : BucketWellMarshalled bucket) (key : Key) :
    bucket.asMap.lookup key =
      if bucketGet bucket.asMap key = 1 then none else some (bucketGet bucket.asMap key) := by
  by_cases present : key ∈ bucket.keys
  · have proper := (mem_keys_iff_bucketGet_ne wf sorted).mp present
    obtain ⟨_, member⟩ := (mem_keys_iff wf.1).mp present
    rw [if_neg proper, bucketGet_of_mem wf.1 sorted member]
    exact (lookup_asMap wf.1 sorted).mpr member
  · rw [if_pos (bucketGet_of_notMem wf.1 present)]
    exact (lookup_asMap_eq_none wf.1).mpr present

section

variable (bucket : BucketMap) (keys : Finset Key) (key : Key)

include bucket keys key

theorem lookup_bucketIntersect : (bucketIntersect bucket keys).lookup key =
      if key ∈ keys then bucket.lookup key else none := by
  rw [bucketIntersect, lookup_ofFinset, ite_eq_left_iff]
  intro outside
  rw [notMem_support.mp outside, ite_self]

theorem lookup_bucketComplement : (bucketComplement bucket keys).lookup key =
      if key ∈ keys then none else bucket.lookup key := by
  rw [bucketComplement, lookup_ofFinset]
  by_cases inside : key ∈ bucket.support
  · rw [if_pos inside]
    exact ite_not _ _ _
  · rw [if_neg inside]
    rw [notMem_support.mp inside, ite_self]

theorem bucketGet_bucketIntersect : bucketGet (bucketIntersect bucket keys) key =
      if key ∈ keys then bucketGet bucket key else 1 := by
  rw [bucketGet, lookup_bucketIntersect]
  split <;> rfl

end

/-- The support of the two maps is not needed: elsewhere there is no message. -/
theorem lookup_bucketListItemFlush (parent child : BucketMap) (pivots : PivotTable) (i : Nat)
    (key : Key) :
    (bucketListItemFlush parent child pivots i).lookup key =
      if (BoundedKey pivots key ∧ route pivots key = i) ∧
          bucketGet parent key * bucketGet child key ≠ 1 then
        some (bucketGet parent key * bucketGet child key)
      else none := by
  rw [bucketListItemFlush, lookup_ofFinset]
  by_cases inside : key ∈ child.support ∪ parent.support
  · rw [if_pos inside]
    exact if_congr and_assoc.symm rfl rfl
  · have absent : bucketGet parent key * bucketGet child key = 1 := by
      rw [Finset.mem_union, not_or, child.mem_support, parent.mem_support,
        Option.not_isSome_iff_eq_none, Option.not_isSome_iff_eq_none] at inside
      rw [bucketGet, bucketGet, inside.1, inside.2]
      rfl
    rw [if_neg inside, if_neg fun moved => moved.2 absent]

section Flush

variable {top : Bucket} {pivots : PivotTable} (wf : WFBucket top)
  (sorted : BucketWellMarshalled top)

theorem wellMarshalled_drop (sorted : BucketWellMarshalled top) (count : Nat) :
    BucketWellMarshalled ⟨top.keys.drop count, top.msgs.drop count⟩ :=
  sorted.sublist (List.drop_sublist count top.keys)

include wf sorted in
theorem asMap_drop (count : Nat) :
    (⟨top.keys.drop count, top.msgs.drop count⟩ : Bucket).asMap =
      bucketComplement top.asMap (top.keys.take count).toFinset := by
  apply FiniteMap.ext
  intro key
  rw [lookup_bucketComplement,
    lookup_asMap_of_wf (wf_drop wf count) (wellMarshalled_drop sorted count),
    lookup_asMap_of_wf wf sorted, bucketGet_drop wf sorted]
  simp only [List.mem_toFinset]
  by_cases taken : key ∈ top.keys.take count
  · rw [if_pos taken, if_pos taken, if_pos rfl]
  · rw [if_neg taken, if_neg taken]

include wf sorted in
theorem SlotMerged.asMap_eq {count i : Nat} {bot bot' : Bucket}
    (slot : SlotMerged pivots (top.entries.take count) i bot bot')
    (good' : GoodBucketAt pivots i bot') :
    bot'.asMap = bucketListItemFlush
      (bucketIntersect top.asMap (top.keys.take count).toFinset) bot.asMap pivots i := by
  apply FiniteMap.ext
  intro key
  rw [lookup_bucketListItemFlush, bucketGet_bucketIntersect,
    lookup_asMap_of_wf good'.wf good'.sorted]
  simp only [List.mem_toFinset]
  by_cases inSlot : BoundedKey pivots key ∧ route pivots key = i
  · have message : bucketGet bot'.asMap key =
        (if key ∈ top.keys.take count then bucketGet top.asMap key else 1) *
          bucketGet bot.asMap key := by
      rw [← messageAt_slotEntries wf sorted count inSlot.2]
      exact slot.merged.message key
    rw [message]
    generalize (if key ∈ top.keys.take count then bucketGet top.asMap key else 1) *
      bucketGet bot.asMap key = merged
    by_cases identity : merged = 1
    · rw [if_pos identity, if_neg fun moved => moved.2 identity]
    · rw [if_neg identity, if_pos ⟨inSlot, identity⟩]
  · have absent : key ∉ bot'.keys := by
      intro present
      exact inSlot ⟨good'.wfAt.2.1 key present, good'.wfAt.2.2 key present⟩
    rw [if_pos (bucketGet_of_notMem good'.wf.1 absent), if_neg fun moved => inSlot moved.1]

theorem weightBucket_drop_le (wf : WFBucket top) (count : Nat) :
    weightBucket ⟨top.keys.drop count, top.msgs.drop count⟩ ≤ weightBucket top := by
  rw [weightBucket_eq_entries (wf_drop wf count).1, weightBucket_eq_entries wf.1, entries_drop]
  conv_rhs => rw [← List.take_append_drop count top.entries, weightEntries_append]
  exact Nat.le_add_left _ _

end Flush

/-- A flush takes a set of keys out of the bucket of the parent and merges their messages into those
of the child.  The results are well formed and in order, the child keeps its bound, and the parent's
bucket does not grow. -/
theorem partialFlush_moves {top : Bucket} {pivots : PivotTable} {bots : List Bucket}
    (wf : WFBucket top) (sorted : BucketWellMarshalled top) (wfPivots : WFPivots pivots)
    (bounded : ∀ key ∈ top.keys, BoundedKey pivots key)
    (proper : WFBucketListProper bots pivots) (sortedBots : BucketListWellMarshalled bots)
    (room : weightBucketList bots ≤ Bounds.maxTotalBucketWeight) :
    (∃ moved : Finset Key, (∀ key ∈ moved, key ∈ top.keys) ∧
      (partialFlush top pivots bots).top.asMap = bucketComplement top.asMap moved ∧
      (partialFlush top pivots bots).bots.length = bots.length ∧
      ∀ i bot, bots[i]? = some bot → ∃ bot', (partialFlush top pivots bots).bots[i]? = some bot' ∧
        bot'.asMap = bucketListItemFlush (bucketIntersect top.asMap moved) bot.asMap pivots i) ∧
    WFBucket (partialFlush top pivots bots).top ∧
    BucketWellMarshalled (partialFlush top pivots bots).top ∧
    WFBucketListProper (partialFlush top pivots bots).bots pivots ∧
    BucketListWellMarshalled (partialFlush top pivots bots).bots ∧
    weightBucketList (partialFlush top pivots bots).bots ≤ Bounds.maxTotalBucketWeight ∧
    weightBucket (partialFlush top pivots bots).top ≤ weightBucket top := by
  have good : ∀ i bot, bots[i]? = some bot → GoodBucketAt pivots i bot := by
    intro i bot atI
    exact ⟨proper.2 i bot atI, sortedBots bot (List.mem_of_getElem? atI)⟩
  obtain ⟨count, isTop, length, slots⟩ :=
    partialFlush_merged wf sorted wfPivots bounded proper.1.2.1 good
  have goodBots : ∀ i bot', (partialFlush top pivots bots).bots[i]? = some bot' →
      GoodBucketAt pivots i bot' := by
    intro i bot' atI
    have inRange : i < bots.length := by
      rw [← length]
      exact (List.getElem?_eq_some_iff.mp atI).1
    obtain ⟨other, atOther, slot⟩ := slots i _ (List.getElem?_eq_getElem inRange)
    obtain rfl : bot' = other := Option.mem_unique atI atOther
    exact slot.good wf wfPivots bounded (good i _ (List.getElem?_eq_getElem inRange))
  have pre : ∀ bot ∈ bots, PreWFBucket bot := fun bot member => (proper.1.2.2 bot member).1
  refine ⟨⟨(top.keys.take count).toFinset, ?_, ?_, length, ?_⟩, ?_, ?_, ⟨⟨wfPivots, ?_, ?_⟩, ?_⟩,
    ?_, partialFlush_weight top pivots pre room, ?_⟩
  · intro key member
    exact List.mem_of_mem_take (List.mem_toFinset.mp member)
  · rw [isTop, asMap_drop wf sorted]
  · intro i bot atI
    obtain ⟨bot', atI', slot⟩ := slots i bot atI
    exact ⟨bot', atI', slot.asMap_eq wf sorted (goodBots i bot' atI')⟩
  · rw [isTop]
    exact wf_drop wf count
  · rw [isTop]
    exact wellMarshalled_drop sorted count
  · rw [length, proper.1.2.1]
  · intro bot' member
    obtain ⟨i, atI⟩ := List.mem_iff_getElem?.mp member
    exact (goodBots i bot' atI).wf
  · exact fun i bot' atI => (goodBots i bot' atI).wfAt
  · intro bot' member
    obtain ⟨i, atI⟩ := List.mem_iff_getElem?.mp member
    exact (goodBots i bot' atI).sorted
  · rw [isTop]
    exact weightBucket_drop_le wf count

theorem mem_moved_of_lost {top : BucketMap} {moved : Finset Key} {key : Key}
    (present : (top.lookup key).isSome) (lost : (bucketComplement top moved).lookup key = none) :
    key ∈ moved := by
  by_contra kept
  rw [lookup_bucketComplement, if_neg kept] at lost
  rw [lost] at present
  cases present

/-- Two keys are moved to two slots, one with a message to merge with. -/
theorem partialFlush_moves_twoKeys :
    (partialFlush twoMessages twoSlots twoBuckets).top = emptyBucket ∧
    (partialFlush twoMessages twoSlots twoBuckets).bots = twoSlotFlush.newchild.buckets ∧
    ∃ moved : Finset Key, byteString 2 ∈ moved ∧ byteString 7 ∈ moved ∧
      ∀ i bot, twoBuckets[i]? = some bot → ∃ bot',
        (partialFlush twoMessages twoSlots twoBuckets).bots[i]? = some bot' ∧
        bot'.asMap =
          bucketListItemFlush (bucketIntersect twoMessages.asMap moved) bot.asMap twoSlots i := by
  have bounded : ∀ key ∈ twoMessages.keys, BoundedKey twoSlots key := by decide +kernel
  have isEmpty : (partialFlush twoMessages twoSlots twoBuckets).top = emptyBucket := by
    decide +kernel
  obtain ⟨⟨moved, -, isTop, -, slots⟩, -⟩ := partialFlush_moves wf_twoMessages sorted_twoMessages
    wf_twoSlots bounded inv_twoBuckets.proper inv_twoBuckets.wellMarshalled
    inv_twoBuckets.wf.bounded.2
  have lost : ∀ key, (bucketComplement twoMessages.asMap moved).lookup key = none := by
    intro key
    rw [← isTop, isEmpty]
    rfl
  exact ⟨isEmpty, by decide +kernel, moved, mem_moved_of_lost (by decide) (lost _),
    mem_moved_of_lost (by decide) (lost _), slots⟩

end BucketFlushModel

end VerifiedBetrfs
