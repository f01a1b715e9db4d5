import VerifiedBetrfs.FiniteMap
import VerifiedBetrfs.BoundedPivots
import VerifiedBetrfs.MapSpec
import VerifiedBetrfs.Message
import Mathlib.Algebra.GroupWithZero.Nat
import Mathlib.Algebra.Order.BigOperators.Group.Finset

/-!
# Buckets

A bucket is a list of keys and a list of messages, and stands for the map between them.
-/

namespace VerifiedBetrfs

open UI BoundedPivotsLib SortedSearch

namespace BucketMaps

/-- What a bucket stands for. -/
abbrev BucketMap := FiniteMap Key Message

/-- The message of a key, or the identity. -/
def bucketGet (m : BucketMap) (key : Key) : Message :=
  (m.lookup key).getD ValueMessage.identityMessage

/-- The messages of the keys in a range. -/
def clampRange (bucket : BucketMap) (start : RangeStart) (stop : RangeEnd) : BucketMap :=
  FiniteMap.ofFinset bucket.support fun key =>
    if MapSpec.InRange start key stop then bucket.lookup key else none

/-- The messages of `top` over those of `bot`. -/
def compose (top bot : BucketMap) : BucketMap :=
  FiniteMap.ofFinset (top.support ∪ bot.support) fun key =>
    some ((bucketGet top key).merge (bucketGet bot key))

def composeSeq (buckets : List BucketMap) : BucketMap :=
  buckets.foldl compose FiniteMap.empty

/-- The value that a message gives to a key that was never written. -/
def valueOfMessage (msg : Message) : Value :=
  match msg.merge ValueMessage.defineDefault with
  | .define value => value
  | .update _ => ValueType.defaultValue

def keyValueMapOfBucket (bucket : BucketMap) : FiniteMap Key Value :=
  FiniteMap.ofFinset bucket.support fun key =>
    (bucket.lookup key).bind fun msg =>
      if valueOfMessage msg ≠ ValueType.defaultValue then some (valueOfMessage msg) else none

def sortedSeqOfKeyValueMap (m : FiniteMap Key Value) : List SuccResult :=
  m.sortedEntries.map fun entry => ⟨entry.1, entry.2⟩

end BucketMaps

namespace BucketsLib

open BucketMaps

/-- Keys with their messages. -/
structure Bucket where
  keys : List Key
  msgs : List Message
deriving DecidableEq

namespace Bucket

/-- The keys of a bucket, each with its message. -/
def entries (bucket : Bucket) : List (Key × Message) := bucket.keys.zip bucket.msgs

def ofEntries (entries : List (Key × Message)) : Bucket :=
  ⟨entries.map Prod.fst, entries.map Prod.snd⟩

def asMap (bucket : Bucket) : BucketMap := FiniteMap.ofEntries bucket.entries

end Bucket

abbrev BucketList := List Bucket

def WFMessageSeq (messages : List Message) : Prop :=
  ∀ msg ∈ messages, msg ≠ ValueMessage.identityMessage

def PreWFBucket (bucket : Bucket) : Prop := bucket.keys.length = bucket.msgs.length

/-- As many keys as messages, none of them the identity. -/
def WFBucket (bucket : Bucket) : Prop := PreWFBucket bucket ∧ WFMessageSeq bucket.msgs

/-- The keys are in order. -/
def BucketWellMarshalled (bucket : Bucket) : Prop := bucket.keys.Pairwise (· < ·)

def BucketListWellMarshalled (blist : BucketList) : Prop :=
  ∀ bucket ∈ blist, BucketWellMarshalled bucket

def emptyBucket : Bucket := ⟨[], []⟩

instance : Inhabited Bucket := ⟨emptyBucket⟩

def WFBucketAt (bucket : Bucket) (pivots : PivotTable) (i : Nat) : Prop :=
  WFBucket bucket ∧ (∀ key ∈ bucket.keys, BoundedKey pivots key) ∧
    ∀ key ∈ bucket.keys, route pivots key = i

def WFBucketList (blist : BucketList) (pivots : PivotTable) : Prop :=
  WFPivots pivots ∧ blist.length = numBuckets pivots ∧ ∀ bucket ∈ blist, WFBucket bucket

def WFBucketListProper (blist : BucketList) (pivots : PivotTable) : Prop :=
  WFBucketList blist pivots ∧
    ∀ i bucket, blist[i]? = some bucket → WFBucketAt bucket pivots i

/-- The bucket that lists the entries of a map in order. -/
def bucketOfMap (m : BucketMap) : Bucket := Bucket.ofEntries m.sortedEntries

/-- A message is merged into the one of its key. -/
def bucketInsert (bucket : Bucket) (key : Key) (msg : Message) : Bucket :=
  let mergedMsg := msg.merge (bucketGet bucket.asMap key)
  if mergedMsg = ValueMessage.identityMessage then
    bucketOfMap (bucket.asMap.erase key)
  else
    bucketOfMap (bucket.asMap.insert key mergedMsg)

def bucketListInsert (blist : BucketList) (pivots : PivotTable) (key : Key) (msg : Message) :
    BucketList :=
  let i := route pivots key
  blist.set i (bucketInsert blist[i]! key msg)

def bucketListGet (blist : BucketList) (pivots : PivotTable) (key : Key) : Message :=
  bucketGet blist[route pivots key]!.asMap key

def splitBucketLeft (bucket : Bucket) (pivot : Key) : Bucket :=
  let i := binarySearchIndexOfFirstKeyGte bucket.keys pivot
  ⟨bucket.keys.take i, bucket.msgs.take i⟩

def splitBucketRight (bucket : Bucket) (pivot : Key) : Bucket :=
  let i := binarySearchIndexOfFirstKeyGte bucket.keys pivot
  ⟨bucket.keys.drop i, bucket.msgs.drop i⟩

def splitBucketListLeft (blist : BucketList) (cLeft : Nat) (key : Key) : BucketList :=
  blist.take cLeft ++ [splitBucketLeft blist[cLeft]! key]

def splitBucketListRight (blist : BucketList) (cRight : Nat) (key : Key) : BucketList :=
  splitBucketRight blist[cRight]! key :: blist.drop (cRight + 1)

def splitBucketInList (blist : BucketList) (slot : Nat) (pivot : Key) : BucketList :=
  Sequences.replace1with2 blist (splitBucketLeft blist[slot]! pivot)
    (splitBucketRight blist[slot]! pivot) slot

/-- The entries of two buckets, one after the other. -/
def mergeBuckets (left right : Bucket) : Bucket :=
  ⟨left.keys ++ right.keys, left.msgs ++ right.msgs⟩

def mergeBucketsInList (blist : BucketList) (slot : Nat) : BucketList :=
  Sequences.replace2with1 blist (mergeBuckets blist[slot]! blist[slot + 1]!) slot

end BucketsLib

namespace BucketWeights

open BucketsLib

def weightKey (key : Key) : Nat := 4 + key.1.length

def weightMessage : Message → Nat
  | .define value => 4 + value.1.length
  | .update _ => 0

def weightKeyMultiset (keys : Multiset Key) : Nat := (keys.map weightKey).sum

def weightMessageMultiset (msgs : Multiset Message) : Nat := (msgs.map weightMessage).sum

/-- The bytes that a bucket takes. -/
def weightBucket (bucket : Bucket) : Nat :=
  weightKeyMultiset bucket.keys + weightMessageMultiset bucket.msgs

def weightBucketList (buckets : BucketList) : Nat := (buckets.map weightBucket).sum

def weightBucketMap (m : BucketMaps.BucketMap) : Nat :=
  ∑ key ∈ m.support, (weightKey key + weightMessage (BucketMaps.bucketGet m key))

end BucketWeights

namespace BucketsLib

open BucketMaps

namespace Bucket

@[simp]
theorem entries_ofEntries (entries : List (Key × Message)) :
    (ofEntries entries).entries = entries := by
  induction entries with
  | nil => rfl
  | cons entry rest ih => simpa [Bucket.entries, ofEntries] using ih

theorem preWF_ofEntries (entries : List (Key × Message)) : PreWFBucket (ofEntries entries) := by
  simp [PreWFBucket, ofEntries]

end Bucket

variable {bucket : Bucket}

theorem map_fst_entries (pre : PreWFBucket bucket) : bucket.entries.map Prod.fst = bucket.keys :=
  List.map_fst_zip (le_of_eq pre)

theorem map_snd_entries (pre : PreWFBucket bucket) : bucket.entries.map Prod.snd = bucket.msgs :=
  List.map_snd_zip (ge_of_eq pre)

variable {key : Key} {msg : Message} {left right : Bucket} {pivot : Key}

section

variable (pre : PreWFBucket bucket)

include pre

theorem lookup_asMap (sorted : BucketWellMarshalled bucket) :
    bucket.asMap.lookup key = some msg ↔ (key, msg) ∈ bucket.entries := by
  apply FiniteMap.lookup_ofEntries_eq_some
  rw [map_fst_entries pre]
  exact sorted.imp fun less => ne_of_lt less

theorem lookup_asMap_eq_none : bucket.asMap.lookup key = none ↔ key ∉ bucket.keys := by
  rw [← map_fst_entries pre]
  exact FiniteMap.lookup_ofEntries_eq_none

theorem bucketGet_of_mem (sorted : BucketWellMarshalled bucket)
    (member : (key, msg) ∈ bucket.entries) : bucketGet bucket.asMap key = msg := by
  rw [bucketGet, (lookup_asMap pre sorted).mpr member, Option.getD_some]

theorem bucketGet_of_notMem (absent : key ∉ bucket.keys) : bucketGet bucket.asMap key = 1 := by
  rw [bucketGet, (lookup_asMap_eq_none pre).mpr absent]
  rfl

end

theorem bucketGet_congr {bucket bucket' : Bucket} (pre : PreWFBucket bucket)
    (sorted : BucketWellMarshalled bucket) (pre' : PreWFBucket bucket')
    (sorted' : BucketWellMarshalled bucket')
    (same : ∀ msg, (key, msg) ∈ bucket.entries ↔ (key, msg) ∈ bucket'.entries) :
    bucketGet bucket.asMap key = bucketGet bucket'.asMap key := by
  have lookups : bucket.asMap.lookup key = bucket'.asMap.lookup key := by
    ext msg
    rw [lookup_asMap pre sorted, lookup_asMap pre' sorted', same]
  rw [bucketGet, bucketGet, lookups]

theorem mem_keys_iff (pre : PreWFBucket bucket) :
    key ∈ bucket.keys ↔ ∃ msg, (key, msg) ∈ bucket.entries := by
  rw [← map_fst_entries pre]
  simp

theorem wfBucket_iff :
    WFBucket bucket ↔ PreWFBucket bucket ∧ ∀ entry ∈ bucket.entries, entry.2 ≠ 1 := by
  refine and_congr_right fun pre => ?_
  rw [WFMessageSeq, ← map_snd_entries pre, List.forall_mem_map]
  rfl

theorem mem_keys_iff_bucketGet_ne (wf : WFBucket bucket) (sorted : BucketWellMarshalled bucket) :
    key ∈ bucket.keys ↔ bucketGet bucket.asMap key ≠ 1 := by
  constructor
  · intro present
    obtain ⟨_, member⟩ := (mem_keys_iff wf.1).mp present
    rw [bucketGet_of_mem wf.1 sorted member]
    exact (wfBucket_iff.mp wf).2 _ member
  · intro proper
    by_contra absent
    exact proper (bucketGet_of_notMem wf.1 absent)

theorem wf_emptyBucket : WFBucket emptyBucket := by
  simp [WFBucket, PreWFBucket, WFMessageSeq, emptyBucket]

theorem wellMarshalled_emptyBucket : BucketWellMarshalled emptyBucket := by
  simp [BucketWellMarshalled, emptyBucket]

/-- A bucket that is well formed, in order and routed to its own slot. -/
structure GoodBucketAt (pivots : PivotTable) (i : Nat) (bucket : Bucket) : Prop where
  wfAt : WFBucketAt bucket pivots i
  sorted : BucketWellMarshalled bucket

section Good

variable {pivots : PivotTable} {i : Nat} {bucket : Bucket}

theorem goodBucketAt_of_inSlot (wfPivots : WFPivots pivots) (wf : WFBucket bucket)
    (sorted : BucketWellMarshalled bucket)
    (routed : ∀ key ∈ bucket.keys, InSlot pivots i (keyToElement key)) :
    GoodBucketAt pivots i bucket :=
  ⟨⟨wf, fun key member => ((routed_iff wfPivots).mpr (routed key member)).1,
    fun key member => ((routed_iff wfPivots).mpr (routed key member)).2⟩, sorted⟩

theorem GoodBucketAt.wf (good : GoodBucketAt pivots i bucket) : WFBucket bucket := good.wfAt.1

theorem GoodBucketAt.inSlot (good : GoodBucketAt pivots i bucket) (wfPivots : WFPivots pivots)
    (member : key ∈ bucket.keys) : InSlot pivots i (keyToElement key) :=
  (routed_iff wfPivots).mp ⟨good.wfAt.2.1 key member, good.wfAt.2.2 key member⟩

end Good

theorem wf_splitBucketLeft (wf : WFBucket bucket) (pivot : Key) :
    WFBucket (splitBucketLeft bucket pivot) :=
  ⟨by simp [PreWFBucket, splitBucketLeft, wf.1.symm],
    fun msg member => wf.2 msg (List.mem_of_mem_take member)⟩

theorem wf_splitBucketRight (wf : WFBucket bucket) (pivot : Key) :
    WFBucket (splitBucketRight bucket pivot) :=
  ⟨by simp [PreWFBucket, splitBucketRight, wf.1.symm],
    fun msg member => wf.2 msg (List.mem_of_mem_drop member)⟩

section

variable (sorted : BucketWellMarshalled bucket)

include sorted

theorem wellMarshalled_splitBucketLeft (pivot : Key) :
    BucketWellMarshalled (splitBucketLeft bucket pivot) :=
  sorted.sublist (List.take_sublist _ _)

theorem wellMarshalled_splitBucketRight (pivot : Key) :
    BucketWellMarshalled (splitBucketRight bucket pivot) :=
  sorted.sublist (List.drop_sublist _ _)

theorem mem_keys_splitBucketLeft {pivot key : Key}
    (member : key ∈ (splitBucketLeft bucket pivot).keys) : key ∈ bucket.keys ∧ key < pivot :=
  ⟨List.mem_of_mem_take member, (isFirstGte_binarySearch sorted pivot).before key member⟩

theorem mem_keys_splitBucketRight {pivot key : Key}
    (member : key ∈ (splitBucketRight bucket pivot).keys) : key ∈ bucket.keys ∧ pivot ≤ key :=
  ⟨List.mem_of_mem_drop member, (isFirstGte_binarySearch sorted pivot).after key member⟩

end

theorem mergeBuckets_split (bucket : Bucket) (pivot : Key) :
    mergeBuckets (splitBucketLeft bucket pivot) (splitBucketRight bucket pivot) = bucket := by
  simp [mergeBuckets, splitBucketLeft, splitBucketRight]

theorem entries_mergeBuckets (pre : PreWFBucket left) :
    (mergeBuckets left right).entries = left.entries ++ right.entries :=
  List.zip_append pre

theorem wf_mergeBuckets (wfLeft : WFBucket left) (wfRight : WFBucket right) :
    WFBucket (mergeBuckets left right) := by
  refine ⟨?_, fun msg member => ?_⟩
  · have leftLength : left.keys.length = left.msgs.length := wfLeft.1
    have rightLength : right.keys.length = right.msgs.length := wfRight.1
    simp only [PreWFBucket, mergeBuckets, List.length_append]
    omega
  · exact (List.mem_append.mp member).elim (wfLeft.2 msg) (wfRight.2 msg)

section Halves

variable {left right : Bucket} {pivot : Key}

theorem wellMarshalled_mergeBuckets (leftSorted : BucketWellMarshalled left)
    (rightSorted : BucketWellMarshalled right) (below : ∀ key ∈ left.keys, key < pivot)
    (above : ∀ key ∈ right.keys, pivot ≤ key) : BucketWellMarshalled (mergeBuckets left right) := by
  rw [BucketWellMarshalled, mergeBuckets, List.pairwise_append]
  exact ⟨leftSorted, rightSorted, fun first inLeft second inRight =>
    lt_of_lt_of_le (below first inLeft) (above second inRight)⟩

theorem bucketGet_mergeBuckets_left (wfLeft : WFBucket left) (wfRight : WFBucket right)
    (leftSorted : BucketWellMarshalled left)
    (sorted : BucketWellMarshalled (mergeBuckets left right))
    (above : ∀ key ∈ right.keys, pivot ≤ key) (less : key < pivot) :
    bucketGet (mergeBuckets left right).asMap key = bucketGet left.asMap key := by
  refine bucketGet_congr (wf_mergeBuckets wfLeft wfRight).1 sorted wfLeft.1 leftSorted fun msg => ?_
  rw [entries_mergeBuckets wfLeft.1, List.mem_append]
  refine or_iff_left fun inRight => ?_
  exact absurd less (not_lt.mpr (above key ((mem_keys_iff wfRight.1).mpr ⟨msg, inRight⟩)))

theorem bucketGet_mergeBuckets_right (wfLeft : WFBucket left) (wfRight : WFBucket right)
    (rightSorted : BucketWellMarshalled right)
    (sorted : BucketWellMarshalled (mergeBuckets left right))
    (below : ∀ key ∈ left.keys, key < pivot) (le : pivot ≤ key) :
    bucketGet (mergeBuckets left right).asMap key = bucketGet right.asMap key := by
  refine bucketGet_congr (wf_mergeBuckets wfLeft wfRight).1 sorted wfRight.1 rightSorted
    fun msg => ?_
  rw [entries_mergeBuckets wfLeft.1, List.mem_append]
  refine or_iff_right fun inLeft => ?_
  exact absurd (below key ((mem_keys_iff wfLeft.1).mpr ⟨msg, inLeft⟩)) (not_lt.mpr le)

end Halves

theorem bucketGet_splitBucketLeft (wf : WFBucket bucket) (sorted : BucketWellMarshalled bucket)
    {key : Key} (less : key < pivot) :
    bucketGet (splitBucketLeft bucket pivot).asMap key = bucketGet bucket.asMap key := by
  have merged := bucketGet_mergeBuckets_left (wf_splitBucketLeft wf pivot)
    (wf_splitBucketRight wf pivot) (wellMarshalled_splitBucketLeft sorted pivot)
    (by rwa [mergeBuckets_split])
    (fun _ member => (mem_keys_splitBucketRight sorted member).2) less
  rw [← merged, mergeBuckets_split]

theorem bucketGet_splitBucketRight (wf : WFBucket bucket) (sorted : BucketWellMarshalled bucket)
    {key : Key} (le : pivot ≤ key) :
    bucketGet (splitBucketRight bucket pivot).asMap key = bucketGet bucket.asMap key := by
  have merged := bucketGet_mergeBuckets_right (wf_splitBucketLeft wf pivot)
    (wf_splitBucketRight wf pivot) (wellMarshalled_splitBucketRight sorted pivot)
    (by rwa [mergeBuckets_split])
    (fun _ member => (mem_keys_splitBucketLeft sorted member).2) le
  rw [← merged, mergeBuckets_split]

theorem keys_bucketOfMap (m : BucketMap) :
    (bucketOfMap m).keys = m.sortedEntries.map Prod.fst := rfl

theorem wellMarshalled_bucketOfMap (m : BucketMap) : BucketWellMarshalled (bucketOfMap m) := by
  rw [BucketWellMarshalled, keys_bucketOfMap, List.pairwise_map]
  exact m.sortedEntries_sorted

theorem asMap_bucketOfMap (m : BucketMap) : (bucketOfMap m).asMap = m := by
  rw [Bucket.asMap, bucketOfMap, Bucket.entries_ofEntries, FiniteMap.ofEntries_sortedEntries]

theorem bucketInsert_eq (bucket : Bucket) (key : Key) (msg : Message) :
    bucketInsert bucket key msg =
      if msg * bucketGet bucket.asMap key = 1 then bucketOfMap (bucket.asMap.erase key)
      else bucketOfMap (bucket.asMap.insert key (msg * bucketGet bucket.asMap key)) := rfl

theorem lookup_bucketInsert (bucket : Bucket) (key other : Key) (msg : Message) :
    (bucketInsert bucket key msg).asMap.lookup other =
      if other = key then
        if msg * bucketGet bucket.asMap key = 1 then none
        else some (msg * bucketGet bucket.asMap key)
      else bucket.asMap.lookup other := by
  rw [bucketInsert_eq]
  by_cases identity : msg * bucketGet bucket.asMap key = 1
  · rw [if_pos identity, if_pos identity, asMap_bucketOfMap, FiniteMap.lookup_erase]
  · rw [if_neg identity, if_neg identity, asMap_bucketOfMap, FiniteMap.lookup_insert]

theorem wellMarshalled_bucketInsert (bucket : Bucket) (key : Key) (msg : Message) :
    BucketWellMarshalled (bucketInsert bucket key msg) := by
  rw [bucketInsert]
  split <;> exact wellMarshalled_bucketOfMap _

theorem preWF_bucketInsert (bucket : Bucket) (key : Key) (msg : Message) :
    PreWFBucket (bucketInsert bucket key msg) := by
  rw [bucketInsert]
  split <;> exact Bucket.preWF_ofEntries _

theorem bucketGet_bucketInsert (bucket : Bucket) (key other : Key) (msg : Message) :
    bucketGet (bucketInsert bucket key msg).asMap other =
      if other = key then msg * bucketGet bucket.asMap key else bucketGet bucket.asMap other := by
  rw [bucketGet, lookup_bucketInsert]
  by_cases same : other = key
  · rw [if_pos same, if_pos same]
    split_ifs with identity
    · rw [identity]
      rfl
    · rw [Option.getD_some]
  · rw [if_neg same, if_neg same, bucketGet]

theorem mem_keys_bucketInsert (pre : PreWFBucket bucket) {key other : Key}
    (member : other ∈ (bucketInsert bucket key msg).keys) : other = key ∨ other ∈ bucket.keys := by
  by_cases same : other = key
  · exact Or.inl same
  · right
    by_contra absent
    have found := lookup_bucketInsert bucket key other msg
    rw [if_neg same, (lookup_asMap_eq_none pre).mpr absent] at found
    exact (lookup_asMap_eq_none (preWF_bucketInsert bucket key msg)).mp found member

theorem wf_bucketInsert (wf : WFBucket bucket) (key : Key) (msg : Message) :
    WFBucket (bucketInsert bucket key msg) := by
  refine wfBucket_iff.mpr ⟨preWF_bucketInsert bucket key msg, ?_⟩
  rintro ⟨other, _⟩ member
  have found := (lookup_asMap (preWF_bucketInsert bucket key msg)
    (wellMarshalled_bucketInsert bucket key msg)).mpr member
  rw [lookup_bucketInsert] at found
  by_cases same : other = key
  · rw [if_pos same] at found
    split at found
    · cases found
    · rename_i proper
      rw [← Option.some.inj found]
      exact proper
  · rw [if_neg same] at found
    exact (wfBucket_iff.mp wf).2 _ (FiniteMap.mem_of_lookup_ofEntries found)

end BucketsLib

namespace BucketWeights

open BucketMaps BucketsLib

theorem weightBucket_eq (bucket : Bucket) :
    weightBucket bucket =
      (bucket.keys.map weightKey).sum + (bucket.msgs.map weightMessage).sum := by
  simp [weightBucket, weightKeyMultiset, weightMessageMultiset]

def weightEntries (entries : List (Key × Message)) : Nat :=
  (entries.map fun entry => weightKey entry.1 + weightMessage entry.2).sum

variable {bucket : Bucket}

theorem weightBucket_eq_entries (pre : PreWFBucket bucket) :
    weightBucket bucket = weightEntries bucket.entries := by
  rw [weightBucket_eq, ← map_fst_entries pre, ← map_snd_entries pre, weightEntries,
    List.sum_map_add, List.map_map, List.map_map]
  rfl

@[simp]
theorem weightEntries_nil : weightEntries [] = 0 := rfl

@[simp]
theorem weightEntries_cons (key : Key) (msg : Message) (entries : List (Key × Message)) :
    weightEntries ((key, msg) :: entries) =
      weightKey key + weightMessage msg + weightEntries entries := by
  simp [weightEntries]

@[simp]
theorem weightEntries_append (first second : List (Key × Message)) :
    weightEntries (first ++ second) = weightEntries first + weightEntries second := by
  simp [weightEntries]

theorem weightBucket_mergeBuckets (left right : Bucket) :
    weightBucket (mergeBuckets left right) = weightBucket left + weightBucket right := by
  simp only [weightBucket_eq, mergeBuckets, List.map_append, List.sum_append]
  omega

theorem weightBucket_split (bucket : Bucket) (pivot : Key) :
    weightBucket (splitBucketLeft bucket pivot) + weightBucket (splitBucketRight bucket pivot) =
      weightBucket bucket := by
  rw [← weightBucket_mergeBuckets, mergeBuckets_split]

@[simp]
theorem weightBucketList_nil : weightBucketList [] = 0 := rfl

@[simp]
theorem weightBucketList_cons (bucket : Bucket) (buckets : BucketList) :
    weightBucketList (bucket :: buckets) = weightBucket bucket + weightBucketList buckets := by
  simp [weightBucketList]

@[simp]
theorem weightBucketList_append (first second : BucketList) :
    weightBucketList (first ++ second) = weightBucketList first + weightBucketList second := by
  simp [weightBucketList]

theorem weightMessage_mul_le (newer older : Message) :
    weightMessage (newer * older) ≤ weightMessage newer + weightMessage older := by
  cases newer with
  | define value => exact Nat.le_add_right _ _
  | update delta =>
    cases older with
    | define value => exact Nat.le_add_left _ _
    | update delta' => exact Nat.le_refl _

theorem weightBucketMap_asMap (pre : PreWFBucket bucket) (sorted : BucketWellMarshalled bucket) :
    weightBucketMap bucket.asMap = weightBucket bucket := by
  have distinct : bucket.keys.Nodup := sorted.imp fun less => ne_of_lt less
  have support : bucket.asMap.support = bucket.keys.toFinset := by
    ext key
    rw [FiniteMap.mem_support, List.mem_toFinset, ← not_iff_not, ← lookup_asMap_eq_none pre,
      Option.not_isSome_iff_eq_none]
  rw [weightBucketMap, support, List.sum_toFinset _ distinct, weightBucket_eq_entries pre,
    weightEntries, ← map_fst_entries pre, List.map_map]
  refine congrArg List.sum (List.map_congr_left ?_)
  rintro ⟨key, _⟩ member
  simp only [Function.comp_apply, bucketGet_of_mem pre sorted member]

theorem weightBucket_bucketOfMap (m : BucketMap) :
    weightBucket (bucketOfMap m) = weightBucketMap m := by
  have pre : PreWFBucket (bucketOfMap m) := Bucket.preWF_ofEntries _
  rw [← weightBucketMap_asMap pre (wellMarshalled_bucketOfMap m), asMap_bucketOfMap]

theorem weightBucketMap_erase_le (m : BucketMap) (key : Key) :
    weightMessage (bucketGet m key) + weightBucketMap (m.erase key) ≤ weightBucketMap m := by
  have others : weightBucketMap (m.erase key) =
      ∑ other ∈ m.support.erase key, (weightKey other + weightMessage (bucketGet m other)) := by
    refine Finset.sum_congr rfl fun other member => ?_
    rw [bucketGet, FiniteMap.lookup_erase, if_neg (Finset.ne_of_mem_erase member), bucketGet]
  rw [others]
  by_cases present : key ∈ m.support
  · rw [weightBucketMap, ← Finset.add_sum_erase _ _ present]
    omega
  · have absent : m.lookup key = none := by
      simpa using mt (m.mem_support key).mpr present
    rw [Finset.erase_eq_of_notMem present, bucketGet, absent]
    exact le_of_eq (Nat.zero_add _)

theorem weightBucketMap_insert (m : BucketMap) (key : Key) (msg : Message) :
    weightBucketMap (m.insert key msg) =
      weightKey key + weightMessage msg + weightBucketMap (m.erase key) := by
  have support : (m.insert key msg).support = insert key (m.support.erase key) := by
    rw [FiniteMap.insert]
    ext other
    by_cases same : other = key <;> simp [same]
  rw [weightBucketMap, support, Finset.sum_insert (Finset.notMem_erase _ _)]
  congr 1
  · simp [bucketGet]
  · refine Finset.sum_congr rfl fun other member => ?_
    have distinct := Finset.ne_of_mem_erase member
    simp [bucketGet, distinct]

theorem weight_bucketInsert_le (wf : WFBucket bucket) (sorted : BucketWellMarshalled bucket)
    (key : Key) (msg : Message) :
    weightBucket (bucketInsert bucket key msg) ≤
      weightBucket bucket + weightKey key + weightMessage msg := by
  have rest := weightBucketMap_erase_le bucket.asMap key
  have merged := weightMessage_mul_le msg (bucketGet bucket.asMap key)
  rw [weightBucketMap_asMap wf.1 sorted] at rest
  rw [bucketInsert_eq]
  split
  · rw [weightBucket_bucketOfMap]
    omega
  · rw [weightBucket_bucketOfMap, weightBucketMap_insert]
    omega

end BucketWeights

end VerifiedBetrfs
