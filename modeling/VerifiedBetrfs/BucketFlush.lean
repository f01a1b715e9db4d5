import VerifiedBetrfs.DiskLayout
import VerifiedBetrfs.Buckets

/-!
# Flushing a bucket into the buckets of a child

A flush merges the entries of the parent's bucket into those of the child until the room in the
child is used up.
-/

namespace VerifiedBetrfs.BucketFlushModel

open BoundedPivotsLib SortedSearch BucketMaps BucketsLib BucketWeights

/-- A merge into one bucket ends because every entry was merged, or at an entry that did not fit. -/
inductive SingleMergeResult where
  | mergeCompleted (entries : List (Key × Message)) (slack : Nat)
  | slackExhausted (entries : List (Key × Message)) (stop : Nat) (slack : Nat)

namespace SingleMergeResult

def entries : SingleMergeResult → List (Key × Message)
  | mergeCompleted entries _ | slackExhausted entries _ _ => entries

def slack : SingleMergeResult → Nat
  | mergeCompleted _ slack | slackExhausted _ _ slack => slack

attribute [simp] entries slack

end SingleMergeResult

/-- Merge the entries `top`, from the index `start` of the parent's bucket on, with the entries
`bot` of a child's bucket. -/
def mergeToOneChild (start : Nat) (top bot acc : List (Key × Message)) (slack : Nat) :
    SingleMergeResult :=
  match top, bot with
  | [], bot => .mergeCompleted (acc ++ bot) slack
  | (key, topmsg) :: top', (botkey, botmsg) :: bot' =>
    if key = botkey then
      let msg := topmsg.merge botmsg
      if msg = ValueMessage.identityMessage then
        mergeToOneChild (start + 1) top' bot' acc
          (slack + weightKey key + weightMessage botmsg)
      -- the growth of the message is compared with the slack
      else if slack + weightMessage botmsg < weightMessage msg then
        .slackExhausted (acc ++ (botkey, botmsg) :: bot') start slack
      else
        mergeToOneChild (start + 1) top' bot' (acc ++ [(key, msg)])
          (slack + weightMessage botmsg - weightMessage msg)
    else if key < botkey then
      if slack < weightKey key + weightMessage topmsg then
        .slackExhausted (acc ++ (botkey, botmsg) :: bot') start slack
      else
        mergeToOneChild (start + 1) top' ((botkey, botmsg) :: bot') (acc ++ [(key, topmsg)])
          (slack - (weightKey key + weightMessage topmsg))
    else
      mergeToOneChild start ((key, topmsg) :: top') bot' (acc ++ [(botkey, botmsg)]) slack
  | (key, topmsg) :: top', [] =>
    if slack < weightKey key + weightMessage topmsg then
      .slackExhausted acc start slack
    else
      mergeToOneChild (start + 1) top' [] (acc ++ [(key, topmsg)])
        (slack - (weightKey key + weightMessage topmsg))
termination_by top.length + bot.length

def pivotIndexes (topKeys : List Key) (pivots : PivotTable) : List Nat :=
  pivots.map fun pivot => binarySearchIndexOfFirstKeyGte (keysToElements topKeys) pivot

/-- The buckets after a merge and the slack that is left. -/
structure MergeResult where
  top : Bucket
  bots : List Bucket
  slack : Nat

/-- The loop over the buckets of the child. -/
def mergeToChildrenIter (top : Bucket) (idxs : List Nat) :
    List Bucket → Nat → SingleMergeResult → List Bucket → MergeResult
  | [], _, .slackExhausted _ stop slack, results =>
    ⟨⟨top.keys.drop stop, top.msgs.drop stop⟩, results, slack⟩
  | [], _, .mergeCompleted _ slack, results => ⟨emptyBucket, results, slack⟩
  | bot :: bots, i, .mergeCompleted _ slack, results =>
    let start := idxs[i]!
    let stop := if idxs[i + 1]! < start then start else idxs[i + 1]!
    let tmp :=
      mergeToOneChild start ((top.entries.take stop).drop start) bot.entries [] slack
    mergeToChildrenIter top idxs bots (i + 1) tmp (results ++ [Bucket.ofEntries tmp.entries])
  | bot :: bots, i, .slackExhausted entries stop slack, results =>
    mergeToChildrenIter top idxs bots (i + 1) (.slackExhausted entries stop slack)
      (results ++ [bot])

def mergeToChildren (top : Bucket) (pivots : PivotTable) (bots : List Bucket) (slack : Nat) :
    MergeResult :=
  mergeToChildrenIter top (pivotIndexes top.keys pivots) bots 0 (.mergeCompleted [] slack) []

/-- The buckets after a flush. -/
structure PartialFlushResult where
  top : Bucket
  bots : List Bucket

/-- Flush as much as the weight of the child allows. -/
def partialFlush (top : Bucket) (pivots : PivotTable) (bots : List Bucket) :
    PartialFlushResult :=
  let res := mergeToChildren top pivots bots
    (Bounds.maxTotalBucketWeight - weightBucketList bots)
  ⟨res.top, res.bots⟩

/-- The message that a list of entries gives to a key. -/
def messageAt (entries : List (Key × Message)) (key : Key) : Message :=
  bucketGet (FiniteMap.ofEntries entries) key

/-- Put an entry in front, unless its message is the identity. -/
def prepend (key : Key) (msg : Message) (entries : List (Key × Message)) :
    List (Key × Message) :=
  if msg = 1 then entries else (key, msg) :: entries

def SortedEntries (entries : List (Key × Message)) : Prop :=
  entries.Pairwise fun first second => first.1 < second.1

/-- Entries in increasing order of keys and without identity messages. -/
structure WFEntries (entries : List (Key × Message)) : Prop where
  sorted : SortedEntries entries
  proper : ∀ entry ∈ entries, entry.2 ≠ 1

/-- `rest` is the merge of `flushed` over `bot`. -/
structure Merged (flushed bot rest : List (Key × Message)) : Prop where
  wf : WFEntries rest
  keys : ∀ entry ∈ rest, entry.1 ∈ flushed.map Prod.fst ∨ entry.1 ∈ bot.map Prod.fst
  message : ∀ key, messageAt rest key = messageAt flushed key * messageAt bot key

@[simp]
theorem messageAt_nil (key : Key) : messageAt [] key = 1 := rfl

variable {entries bot : List (Key × Message)} {key : Key} {msg : Message} {bots : List Bucket}

theorem messageAt_of_notMem (absent : key ∉ entries.map Prod.fst) : messageAt entries key = 1 := by
  rw [messageAt, bucketGet, FiniteMap.lookup_ofEntries_eq_none.mpr absent]
  rfl

section Below

variable {key : Key} {entries : List (Key × Message)} (below : ∀ entry ∈ entries, key < entry.1)

include below

theorem notMem_of_below : key ∉ entries.map Prod.fst := by
  intro present
  obtain ⟨entry, member, same⟩ := List.mem_map.mp present
  exact ne_of_gt (below entry member) same

theorem messageAt_of_below : messageAt entries key = 1 :=
  messageAt_of_notMem (notMem_of_below below)

theorem messageAt_cons (msg : Message) (other : Key) : messageAt ((key, msg) :: entries) other =
    if other = key then msg else messageAt entries other := by
  rw [messageAt, messageAt, bucketGet, bucketGet, FiniteMap.lookup_ofEntries_cons]
  split
  · rename_i same
    rw [same, FiniteMap.lookup_ofEntries_eq_none.mpr (notMem_of_below below)]
    rfl
  · rw [Option.or_none]

end Below

theorem messageAt_prepend (below : ∀ entry ∈ entries, key < entry.1) (msg : Message) (other : Key) :
    messageAt (prepend key msg entries) other =
      if other = key then msg else messageAt entries other := by
  rw [prepend]
  split
  · rename_i identity
    split
    · rename_i same
      rw [same, messageAt_of_below below, identity]
    · rfl
  · exact messageAt_cons below msg other

theorem prepend_of_ne (proper : msg ≠ 1) (key : Key) (entries : List (Key × Message)) :
    prepend key msg entries = (key, msg) :: entries :=
  if_neg proper

@[simp]
theorem prepend_one (key : Key) (entries : List (Key × Message)) :
    prepend key 1 entries = entries :=
  if_pos rfl

theorem mem_prepend {entry : Key × Message} :
    entry ∈ prepend key msg entries ↔ (msg ≠ 1 ∧ entry = (key, msg)) ∨ entry ∈ entries := by
  rw [prepend]
  split <;> simp_all

section Heads

variable {key : Key} {msg : Message} {entries : List (Key × Message)}

section

variable (wf : WFEntries ((key, msg) :: entries))

include wf

theorem WFEntries.tail : WFEntries entries :=
  ⟨wf.sorted.of_cons, fun entry member => wf.proper entry (List.mem_cons_of_mem _ member)⟩

theorem WFEntries.below : ∀ entry ∈ entries, key < entry.1 :=
  fun _ member => List.rel_of_pairwise_cons wf.sorted member

theorem WFEntries.head_ne : msg ≠ 1 :=
  wf.proper _ List.mem_cons_self

end

theorem SortedEntries.below_of_lt (sorted : SortedEntries ((key, msg) :: entries)) {other : Key}
    (less : other < key) : ∀ entry ∈ (key, msg) :: entries, other < entry.1 := by
  intro entry member
  rcases List.mem_cons.mp member with rfl | inRest
  · exact less
  · exact lt_trans less (List.rel_of_pairwise_cons sorted inRest)

end Heads

theorem Merged.refl (wf : WFEntries entries) : Merged [] entries entries where
  wf := wf
  keys _ member := Or.inr (List.mem_map_of_mem member)
  message key := by rw [messageAt_nil, one_mul]

/-- Extend a merge at the front with the messages that both sides have for one smaller key. -/
theorem Merged.prepend {flushed rest : List (Key × Message)} (merged : Merged flushed bot rest)
    (belowFlushed : ∀ entry ∈ flushed, key < entry.1) (belowBot : ∀ entry ∈ bot, key < entry.1)
    (topmsg botmsg : Message) :
    Merged (prepend key topmsg flushed) (prepend key botmsg bot)
      (prepend key (topmsg * botmsg) rest) := by
  have below : ∀ entry ∈ rest, key < entry.1 := by
    intro entry member
    rcases merged.keys entry member with inFlushed | inBot
    · obtain ⟨other, otherMember, same⟩ := List.mem_map.mp inFlushed
      exact same ▸ belowFlushed other otherMember
    · obtain ⟨other, otherMember, same⟩ := List.mem_map.mp inBot
      exact same ▸ belowBot other otherMember
  refine ⟨⟨?_, fun entry member => ?_⟩, fun entry member => ?_, fun other => ?_⟩
  · rw [BucketFlushModel.prepend]
    split
    · exact merged.wf.sorted
    · exact List.pairwise_cons.mpr ⟨below, merged.wf.sorted⟩
  · rcases mem_prepend.mp member with ⟨proper, rfl⟩ | inRest
    · exact proper
    · exact merged.wf.proper entry inRest
  · rcases mem_prepend.mp member with ⟨proper, rfl⟩ | inRest
    · by_cases absent : topmsg = 1
      · right
        rw [absent, one_mul] at proper
        rw [prepend_of_ne proper]
        simp
      · left
        rw [prepend_of_ne absent]
        simp
    · refine (merged.keys entry inRest).imp (fun inside => ?_) fun inside => ?_
      all_goals
        obtain ⟨other, otherMember, same⟩ := List.mem_map.mp inside
        exact List.mem_map.mpr ⟨other, mem_prepend.mpr (Or.inr otherMember), same⟩
  · rw [messageAt_prepend below, messageAt_prepend belowFlushed, messageAt_prepend belowBot,
      merged.message]
    split <;> rfl

/-- How many entries of the parent's bucket a merge used up. -/
def SingleMergeResult.Consumed (start total count : Nat) : SingleMergeResult → Prop
  | mergeCompleted _ _ => count = total
  | slackExhausted _ stop _ => stop = start + count ∧ count ≤ total

theorem SingleMergeResult.Consumed.succ {result : SingleMergeResult} {start total count : Nat}
    (consumed : result.Consumed (start + 1) total count) :
    result.Consumed start (total + 1) (count + 1) := by
  cases result with
  | mergeCompleted entries slack => exact congrArg (· + 1) consumed
  | slackExhausted entries stop slack =>
    obtain ⟨_, _⟩ := consumed
    exact ⟨by omega, by omega⟩

/-- The accumulator grows by the merge of a prefix of the parent's entries over those of the
bucket. -/
theorem mergeToOneChild_merged (start : Nat) {top : List (Key × Message)}
    (acc : List (Key × Message)) (slack : Nat) (topWF : WFEntries top) (botWF : WFEntries bot) :
    ∃ count rest, (mergeToOneChild start top bot acc slack).Consumed start top.length count ∧
      (mergeToOneChild start top bot acc slack).entries = acc ++ rest ∧
      Merged (top.take count) bot rest := by
  induction start, top, bot, acc, slack using mergeToOneChild.induct with
  | case1 start acc slack bot =>
    rw [mergeToOneChild]
    exact ⟨0, bot, rfl, rfl, Merged.refl botWF⟩
  | case2 start acc slack topmsg top key botmsg bot msg identity ih =>
    obtain ⟨count, rest, consumed, entries, merged⟩ := ih topWF.tail botWF.tail
    rw [mergeToOneChild, if_pos rfl, if_pos identity]
    refine ⟨count + 1, rest, consumed.succ, entries, ?_⟩
    have both := merged.prepend (fun entry member =>
      topWF.below entry (List.mem_of_mem_take member)) botWF.below topmsg botmsg
    have vanishes : topmsg * botmsg = 1 := identity
    rwa [prepend_of_ne topWF.head_ne, prepend_of_ne botWF.head_ne, vanishes, prepend_one] at both
  | case3 start acc slack topmsg top key botmsg bot msg proper full =>
    rw [mergeToOneChild, if_pos rfl, if_neg proper, if_pos full]
    exact ⟨0, _, ⟨rfl, Nat.zero_le _⟩, rfl, Merged.refl botWF⟩
  | case4 start acc slack topmsg top key botmsg bot msg proper fits ih =>
    obtain ⟨count, rest, consumed, entries, merged⟩ := ih topWF.tail botWF.tail
    rw [mergeToOneChild, if_pos rfl, if_neg proper, if_neg fits]
    refine ⟨count + 1, (key, msg) :: rest, consumed.succ, ?_, ?_⟩
    · rw [entries, List.append_assoc, List.singleton_append]
    · have both := merged.prepend (fun entry member =>
        topWF.below entry (List.mem_of_mem_take member)) botWF.below topmsg botmsg
      have stays : topmsg * botmsg ≠ 1 := proper
      rwa [prepend_of_ne topWF.head_ne, prepend_of_ne botWF.head_ne, prepend_of_ne stays] at both
  | case5 start acc slack key topmsg top botkey botmsg bot distinct less full =>
    rw [mergeToOneChild, if_neg distinct, if_pos less, if_pos full]
    exact ⟨0, _, ⟨rfl, Nat.zero_le _⟩, rfl, Merged.refl botWF⟩
  | case6 start acc slack key topmsg top botkey botmsg bot distinct less fits ih =>
    obtain ⟨count, rest, consumed, entries, merged⟩ := ih topWF.tail botWF
    rw [mergeToOneChild, if_neg distinct, if_pos less, if_neg fits]
    refine ⟨count + 1, (key, topmsg) :: rest, consumed.succ, ?_, ?_⟩
    · rw [entries, List.append_assoc, List.singleton_append]
    · have topOnly := merged.prepend (fun entry member =>
        topWF.below entry (List.mem_of_mem_take member)) (botWF.sorted.below_of_lt less) topmsg 1
      rwa [mul_one, prepend_one, prepend_of_ne topWF.head_ne, prepend_of_ne topWF.head_ne]
        at topOnly
  | case7 start acc slack key topmsg top botkey botmsg bot distinct notLess ih =>
    obtain ⟨count, rest, consumed, entries, merged⟩ := ih topWF botWF.tail
    rw [mergeToOneChild, if_neg distinct, if_neg notLess]
    refine ⟨count, (botkey, botmsg) :: rest, consumed, ?_, ?_⟩
    · rw [entries, List.append_assoc, List.singleton_append]
    · have less : botkey < key := lt_of_le_of_ne (not_lt.mp notLess) (Ne.symm distinct)
      have botOnly := merged.prepend (fun entry member =>
        topWF.sorted.below_of_lt less entry (List.mem_of_mem_take member)) botWF.below 1 botmsg
      rwa [one_mul, prepend_one, prepend_of_ne botWF.head_ne, prepend_of_ne botWF.head_ne]
        at botOnly
  | case8 start acc slack key topmsg top full =>
    rw [mergeToOneChild, if_pos full]
    exact ⟨0, [], ⟨rfl, Nat.zero_le _⟩, (List.append_nil _).symm, Merged.refl botWF⟩
  | case9 start acc slack key topmsg top fits ih =>
    obtain ⟨count, rest, consumed, entries, merged⟩ := ih topWF.tail botWF
    rw [mergeToOneChild, if_neg fits]
    refine ⟨count + 1, (key, topmsg) :: rest, consumed.succ, ?_, ?_⟩
    · rw [entries, List.append_assoc, List.singleton_append]
    · have topOnly := merged.prepend (fun entry member =>
        topWF.below entry (List.mem_of_mem_take member)) (by simp) topmsg 1
      rwa [mul_one, prepend_one, prepend_of_ne topWF.head_ne, prepend_of_ne topWF.head_ne]
        at topOnly

/-- The room taken from the slack is the growth of the bucket. -/
theorem mergeToOneChild_weight (start : Nat) (top bot acc : List (Key × Message)) (slack : Nat) :
    weightEntries (mergeToOneChild start top bot acc slack).entries +
        (mergeToOneChild start top bot acc slack).slack =
      weightEntries acc + weightEntries bot + slack := by
  induction start, top, bot, acc, slack using mergeToOneChild.induct with
  | case1 start acc slack bot =>
    rw [mergeToOneChild]
    simp
  | case2 start acc slack topmsg top key botmsg bot msg identity ih =>
    rw [mergeToOneChild, if_pos rfl, if_pos identity, ih, weightEntries_cons]
    omega
  | case3 start acc slack topmsg top key botmsg bot msg proper full =>
    rw [mergeToOneChild, if_pos rfl, if_neg proper, if_pos full]
    simp
  | case4 start acc slack topmsg top key botmsg bot msg proper fits ih =>
    rw [mergeToOneChild, if_pos rfl, if_neg proper, if_neg fits, ih]
    simp only [weightEntries_append, weightEntries_cons, weightEntries_nil]
    omega
  | case5 start acc slack key topmsg top botkey botmsg bot distinct less full =>
    rw [mergeToOneChild, if_neg distinct, if_pos less, if_pos full]
    simp
  | case6 start acc slack key topmsg top botkey botmsg bot distinct less fits ih =>
    rw [mergeToOneChild, if_neg distinct, if_pos less, if_neg fits, ih]
    simp only [weightEntries_append, weightEntries_cons, weightEntries_nil]
    omega
  | case7 start acc slack key topmsg top botkey botmsg bot distinct notLess ih =>
    rw [mergeToOneChild, if_neg distinct, if_neg notLess, ih]
    simp only [weightEntries_append, weightEntries_cons, weightEntries_nil]
    omega
  | case8 start acc slack key topmsg top full =>
    rw [mergeToOneChild, if_pos full]
    simp
  | case9 start acc slack key topmsg top fits ih =>
    rw [mergeToOneChild, if_neg fits, ih]
    simp only [weightEntries_append, weightEntries_cons, weightEntries_nil]
    omega

/-- The entries that are routed to one bucket. -/
def slotEntries (pivots : PivotTable) (i : Nat) (entries : List (Key × Message)) :
    List (Key × Message) :=
  entries.filter fun entry => route pivots entry.1 = i

/-- A bucket of the child after the entries of its slot were flushed. -/
structure SlotMerged (pivots : PivotTable) (flushed : List (Key × Message)) (i : Nat)
    (bot bot' : Bucket) : Prop where
  pre : PreWFBucket bot'
  merged : Merged (slotEntries pivots i flushed) bot.entries bot'.entries

theorem wfEntries_entries {bucket : Bucket} (wf : WFBucket bucket)
    (sorted : BucketWellMarshalled bucket) : WFEntries bucket.entries := by
  refine ⟨?_, (wfBucket_iff.mp wf).2⟩
  rw [SortedEntries, ← List.pairwise_map (f := Prod.fst), map_fst_entries wf.1]
  exact sorted

theorem WFEntries.sublist {part : List (Key × Message)} (wf : WFEntries entries)
    (sublist : part.Sublist entries) : WFEntries part :=
  ⟨wf.sorted.sublist sublist, fun entry member => wf.proper entry (sublist.subset member)⟩

section Children

variable {top : Bucket} {pivots : PivotTable} (wf : WFBucket top)
  (sorted : BucketWellMarshalled top) (wfPivots : WFPivots pivots)
  (bounded : BoundedKeySeq pivots top.keys) {pivot low high : Element} {i idx count : Nat}
  {bot : Bucket}

include sorted in
theorem pivotIndex_isFirstGte (atPivot : pivots[i]? = some pivot) :
    IsFirstGte (keysToElements top.keys) pivot (pivotIndexes top.keys pivots)[i]! := by
  have elementsSorted : (keysToElements top.keys).Pairwise (· < ·) := by
    rw [keysToElements, List.pairwise_map]
    exact sorted.imp fun less => WithTop.coe_lt_coe.mpr less
  have index : (pivotIndexes top.keys pivots)[i]! =
      binarySearchIndexOfFirstKeyGte (keysToElements top.keys) pivot := by
    simp [pivotIndexes, atPivot]
  rw [index]
  exact isFirstGte_binarySearch elementsSorted pivot

include wf in
theorem keysToElements_eq :
    keysToElements top.keys = top.entries.map fun entry => keyToElement entry.1 := by
  rw [← map_fst_entries wf.1, keysToElements, List.map_map]
  rfl

include wf in
theorem key_lt_of_mem_take (first : IsFirstGte (keysToElements top.keys) pivot idx) :
    ∀ entry ∈ top.entries.take idx, keyToElement entry.1 < pivot := by
  intro entry member
  refine first.before _ ?_
  rw [keysToElements_eq wf, ← List.map_take]
  exact List.mem_map_of_mem member

include wf in
theorem le_key_of_mem_drop (first : IsFirstGte (keysToElements top.keys) pivot idx) :
    ∀ entry ∈ top.entries.drop idx, pivot ≤ keyToElement entry.1 := by
  intro entry member
  refine first.after _ ?_
  rw [keysToElements_eq wf, ← List.map_drop]
  exact List.mem_map_of_mem member

include wf wfPivots bounded in
theorem inSlot_route {entry : Key × Message} (member : entry ∈ top.entries) :
    InSlot pivots (route pivots entry.1) (keyToElement entry.1) := by
  refine (routed_iff wfPivots).mp ⟨bounded entry.1 ?_, rfl⟩
  exact (mem_keys_iff wf.1).mpr ⟨entry.2, member⟩

include wf wfPivots bounded in
theorem slotEntries_before {j : Nat} (atPivot : pivots[i]? = some pivot)
    (first : IsFirstGte (keysToElements top.keys) pivot idx) (bound : count ≤ idx) (later : i ≤ j) :
    slotEntries pivots j (top.entries.take count) = [] := by
  refine List.filter_eq_nil_iff.mpr fun entry member => ?_
  rw [decide_eq_true_eq]
  rintro rfl
  obtain ⟨_, _, atLow, _, lower, _⟩ :=
    inSlot_route wf wfPivots bounded (List.mem_of_mem_take member)
  have below := key_lt_of_mem_take wf first entry
    ((List.take_sublist_take_left bound).subset member)
  exact absurd (lt_of_lt_of_le below
    (le_trans (getElem?_le wfPivots.sorted atPivot atLow later) lower)) (lt_irrefl _)

include wf wfPivots bounded in
/-- The flushed entries of a slot are the ones between the indices of its two
pivots. -/
theorem slotEntries_take {idx' : Nat} (atLow : pivots[i]? = some low)
    (atHigh : pivots[i + 1]? = some high) (first : IsFirstGte (keysToElements top.keys) low idx)
    (first' : IsFirstGte (keysToElements top.keys) high idx') (enough : idx ≤ count)
    (order : idx ≤ idx') :
    slotEntries pivots i (top.entries.take count) =
      (top.entries.take (min count idx')).drop idx := by
  have parts : top.entries.take count = top.entries.take idx ++
      ((top.entries.take (min count idx')).drop idx ++ (top.entries.take count).drop idx') := by
    conv_lhs => rw [← List.take_append_drop idx' (top.entries.take count), List.take_take,
      Nat.min_comm idx' count,
      ← List.take_append_drop idx (top.entries.take (min count idx')), List.take_take,
      Nat.min_eq_left (show idx ≤ min count idx' by omega), List.append_assoc]
  rw [parts, slotEntries, List.filter_append, List.filter_append]
  have before := slotEntries_before wf wfPivots bounded atLow first (le_refl idx) (le_refl i)
  rw [slotEntries] at before
  have inside : ((top.entries.take (min count idx')).drop idx).filter
      (fun entry => route pivots entry.1 = i) = (top.entries.take (min count idx')).drop idx := by
    refine List.filter_eq_self.mpr fun entry member => ?_
    rw [decide_eq_true_eq]
    have upper : keyToElement entry.1 < high :=
      key_lt_of_mem_take wf first' entry
        ((List.take_sublist_take_left (Nat.min_le_right _ _)).subset (List.mem_of_mem_drop member))
    have lower : low ≤ keyToElement entry.1 := by
      refine le_key_of_mem_drop wf first entry ?_
      rw [List.drop_take] at member
      exact List.mem_of_mem_take member
    exact ((routed_iff wfPivots).mpr ⟨low, high, atLow, atHigh, lower, upper⟩).2
  have after : ((top.entries.take count).drop idx').filter
      (fun entry => route pivots entry.1 = i) = [] := by
    refine List.filter_eq_nil_iff.mpr fun entry member => ?_
    rw [decide_eq_true_eq]
    intro routed
    rw [List.drop_take] at member
    have above := le_key_of_mem_drop wf first' entry (List.mem_of_mem_take member)
    have slot := inSlot_route wf wfPivots bounded
      (List.mem_of_mem_drop (List.mem_of_mem_take member))
    rw [routed] at slot
    obtain ⟨_, other, _, atOther, _, upper⟩ := slot
    obtain rfl : high = other := Option.mem_unique atHigh atOther
    exact absurd (lt_of_lt_of_le upper above) (lt_irrefl _)
  rw [before, inside, after, List.nil_append, List.append_nil]

include wf sorted wfPivots bounded in
/-- Merging the entries of one slot either flushes all of them, whatever is
flushed later, or stops inside the slot. -/
theorem mergeToOneChild_slot {start stop : Nat} (slack : Nat) (atLow : pivots[i]? = some low)
    (atHigh : pivots[i + 1]? = some high) (first : IsFirstGte (keysToElements top.keys) low start)
    (first' : IsFirstGte (keysToElements top.keys) high stop) (order : start ≤ stop)
    (inRange : stop ≤ top.entries.length) (good : GoodBucketAt pivots i bot) :
    (∃ entries slack', mergeToOneChild start ((top.entries.take stop).drop start) bot.entries
        [] slack = .mergeCompleted entries slack' ∧
      ∀ flushed, stop ≤ flushed →
        SlotMerged pivots (top.entries.take flushed) i bot (Bucket.ofEntries entries)) ∨
    ∃ entries flushed slack', mergeToOneChild start ((top.entries.take stop).drop start)
        bot.entries [] slack = .slackExhausted entries flushed slack' ∧
      start ≤ flushed ∧ flushed ≤ stop ∧
      SlotMerged pivots (top.entries.take flushed) i bot (Bucket.ofEntries entries) := by
  have sliceWF : WFEntries ((top.entries.take stop).drop start) :=
    (wfEntries_entries wf sorted).sublist
      ((List.drop_sublist _ _).trans (List.take_sublist _ _))
  have sliceLength : ((top.entries.take stop).drop start).length = stop - start := by
    rw [List.length_drop, List.length_take, Nat.min_eq_left inRange]
  obtain ⟨used, rest, consumed, out, merged⟩ :=
    mergeToOneChild_merged start [] slack sliceWF (wfEntries_entries good.wfAt.1 good.sorted)
  cases result : mergeToOneChild start ((top.entries.take stop).drop start) bot.entries []
    slack with
  | mergeCompleted entries slack' =>
    rw [result] at consumed out
    refine Or.inl ⟨entries, slack', rfl, fun flushed enough => ⟨Bucket.preWF_ofEntries _, ?_⟩⟩
    obtain rfl : entries = rest := out
    obtain rfl : used = _ := consumed
    rw [Bucket.entries_ofEntries, slotEntries_take wf wfPivots bounded atLow atHigh first
      first' (le_trans order enough) order, Nat.min_eq_right enough]
    rwa [List.take_length] at merged
  | slackExhausted entries flushed slack' =>
    rw [result] at consumed out
    obtain ⟨rfl, usedLe⟩ := consumed
    refine Or.inr ⟨entries, start + used, slack', rfl, Nat.le_add_right _ _, by omega,
      Bucket.preWF_ofEntries _, ?_⟩
    obtain rfl : entries = rest := out
    rw [Bucket.entries_ofEntries, slotEntries_take wf wfPivots bounded atLow atHigh first
      first' (Nat.le_add_right _ _) order]
    have slice : ((top.entries.take stop).drop start).take used =
        (top.entries.take (min (start + used) stop)).drop start := by
      rw [List.drop_take, List.drop_take, List.take_take]
      congr 1
      omega
    rwa [slice] at merged

theorem mergeToChildrenIter_exhausted (top : Bucket) (idxs : List Nat) (bots : List Bucket)
    (i : Nat) (entries : List (Key × Message)) (stop slack : Nat) (results : List Bucket) :
    mergeToChildrenIter top idxs bots i (.slackExhausted entries stop slack) results =
      ⟨⟨top.keys.drop stop, top.msgs.drop stop⟩, results ++ bots, slack⟩ := by
  induction bots generalizing i results with
  | nil => rw [mergeToChildrenIter, List.append_nil]
  | cons bot bots ih => rw [mergeToChildrenIter, ih, List.append_assoc, List.singleton_append]

include wf sorted wfPivots bounded in
/-- The loop over the buckets of the child flushes a prefix of the parent's
entries. -/
theorem mergeToChildrenIter_merged {bots : List Bucket}
    (count : i + bots.length = numBuckets pivots)
    (good : ∀ j bot, bots[j]? = some bot → GoodBucketAt pivots (i + j) bot)
    (entries : List (Key × Message)) (slack : Nat) (results : List Bucket) :
    ∃ flushed rest, (pivotIndexes top.keys pivots)[i]! ≤ flushed ∧
      flushed ≤ top.entries.length ∧
      (mergeToChildrenIter top (pivotIndexes top.keys pivots) bots i
        (.mergeCompleted entries slack) results).top =
          ⟨top.keys.drop flushed, top.msgs.drop flushed⟩ ∧
      (mergeToChildrenIter top (pivotIndexes top.keys pivots) bots i
        (.mergeCompleted entries slack) results).bots = results ++ rest ∧
      rest.length = bots.length ∧
      ∀ j bot, bots[j]? = some bot → ∃ bot', rest[j]? = some bot' ∧
        SlotMerged pivots (top.entries.take flushed) (i + j) bot bot' := by
  have entriesLength : top.entries.length = top.keys.length := by
    rw [← map_fst_entries wf.1, List.length_map]
  induction bots generalizing i entries slack results with
  | nil =>
    have inRange : i < pivots.length := by
      have := wfPivots.length
      simp only [List.length_nil, numBuckets] at count
      omega
    have first := pivotIndex_isFirstGte sorted (List.getElem?_eq_getElem inRange)
    have bound := first.bound
    rw [keysToElements, List.length_map, ← entriesLength] at bound
    refine ⟨top.entries.length, [], bound, le_refl _, ?_, ?_, rfl, by simp⟩
    · have msgsLength : top.entries.length = top.msgs.length := entriesLength.trans wf.1
      rw [mergeToChildrenIter, List.drop_of_length_le (le_of_eq entriesLength.symm),
        List.drop_of_length_le (le_of_eq msgsLength.symm), emptyBucket]
    · rw [mergeToChildrenIter, List.append_nil]
  | cons bot bots ih =>
    rw [List.length_cons] at count
    obtain ⟨_, _, atLow, atHigh⟩ := exists_pivots (show i < numBuckets pivots by omega)
    have first := pivotIndex_isFirstGte sorted atLow
    have first' := pivotIndex_isFirstGte sorted atHigh
    have order := first.mono first'
      (le_of_lt (getElem?_lt wfPivots.sorted atLow atHigh (Nat.lt_succ_self i)))
    have bound' := first'.bound
    rw [keysToElements, List.length_map, ← entriesLength] at bound'
    rw [mergeToChildrenIter]
    simp only [if_neg (not_lt.mpr order)]
    have shift : ∀ j, i + 1 + j = i + (j + 1) := fun j => by omega
    have goodBots : ∀ j bot, bots[j]? = some bot → GoodBucketAt pivots (i + 1 + j) bot := by
      intro j other atJ
      rw [shift]
      exact good (j + 1) other atJ
    rcases mergeToOneChild_slot wf sorted wfPivots bounded slack atLow atHigh first
      first' order bound' (good 0 bot rfl) with
      ⟨entries', slack', result, slot⟩ | ⟨entries', flushed, slack', result, lower, upper, slot⟩
    · rw [result]
      obtain ⟨flushed, rest, enough, inRange, outTop, outBots, length, slots⟩ :=
        ih (by omega) goodBots entries' slack' (results ++ [Bucket.ofEntries entries'])
      refine ⟨flushed, Bucket.ofEntries entries' :: rest, le_trans order enough, inRange,
        outTop, ?_, congrArg (· + 1) length, ?_⟩
      · rw [SingleMergeResult.entries, outBots, List.append_assoc, List.singleton_append]
      · intro j other atJ
        cases j with
        | zero =>
          obtain rfl : bot = other := by simpa using atJ
          exact ⟨_, rfl, slot flushed enough⟩
        | succ j =>
          obtain ⟨bot', atBot', merged⟩ := slots j other atJ
          rw [shift] at merged
          exact ⟨bot', atBot', merged⟩
    · rw [result, mergeToChildrenIter_exhausted]
      refine ⟨flushed, Bucket.ofEntries entries' :: bots, lower, le_trans upper bound', rfl, ?_,
        rfl, ?_⟩
      · rw [SingleMergeResult.entries, List.append_assoc, List.singleton_append]
      · intro j other atJ
        cases j with
        | zero =>
          obtain rfl : bot = other := by simpa using atJ
          exact ⟨_, rfl, slot⟩
        | succ j =>
          have good' := good (j + 1) other atJ
          refine ⟨other, atJ, good'.wfAt.1.1, ?_⟩
          rw [slotEntries_before wf wfPivots bounded atHigh first' upper (by omega)]
          exact Merged.refl (wfEntries_entries good'.wfAt.1 good'.sorted)

include wfPivots bounded wf in
theorem SlotMerged.good {flushed : Nat} {bot' : Bucket}
    (slot : SlotMerged pivots (top.entries.take flushed) i bot bot')
    (good : GoodBucketAt pivots i bot) : GoodBucketAt pivots i bot' := by
  have wf' : WFBucket bot' := wfBucket_iff.mpr ⟨slot.pre, slot.merged.wf.proper⟩
  have sorted' : BucketWellMarshalled bot' := by
    rw [BucketWellMarshalled, ← map_fst_entries slot.pre, List.pairwise_map]
    exact slot.merged.wf.sorted
  refine goodBucketAt_of_inSlot wfPivots wf' sorted' fun key present => ?_
  obtain ⟨_, member⟩ := (mem_keys_iff slot.pre).mp present
  rcases slot.merged.keys _ member with inTop | inBot
  · obtain ⟨_, entryMember, rfl⟩ := List.mem_map.mp inTop
    obtain ⟨taken, routed⟩ := List.mem_filter.mp entryMember
    rw [← of_decide_eq_true routed]
    exact inSlot_route wf wfPivots bounded (List.mem_of_mem_take taken)
  · rw [map_fst_entries good.wf.1] at inBot
    exact good.inSlot wfPivots inBot

end Children

theorem mergeToChildrenIter_weight (top : Bucket) (idxs : List Nat)
    (pre : ∀ bot ∈ bots, PreWFBucket bot) (i : Nat) (tmp : SingleMergeResult)
    (results : List Bucket) :
    weightBucketList (mergeToChildrenIter top idxs bots i tmp results).bots +
        (mergeToChildrenIter top idxs bots i tmp results).slack =
      weightBucketList results + weightBucketList bots + tmp.slack := by
  induction bots generalizing i tmp results with
  | nil => cases tmp <;> simp [mergeToChildrenIter]
  | cons bot bots ih =>
    have preBots : ∀ bot ∈ bots, PreWFBucket bot :=
      fun other member => pre other (List.mem_cons_of_mem _ member)
    cases tmp with
    | mergeCompleted entries slack =>
      rw [mergeToChildrenIter]
      simp only [ih preBots, weightBucketList_append, weightBucketList_cons, weightBucketList_nil]
      generalize stopEq : (if idxs[i + 1]! < idxs[i]! then idxs[i]! else idxs[i + 1]!) = stop
      have single := mergeToOneChild_weight idxs[i]!
        ((top.entries.take stop).drop idxs[i]!) bot.entries [] slack
      rw [weightBucket_eq_entries (Bucket.preWF_ofEntries _), Bucket.entries_ofEntries,
        weightBucket_eq_entries (pre bot List.mem_cons_self), SingleMergeResult.slack]
      rw [weightEntries_nil] at single
      omega
    | slackExhausted entries stop slack =>
      rw [mergeToChildrenIter, ih preBots]
      simp only [weightBucketList_append, weightBucketList_cons, weightBucketList_nil]
      omega

/-- A flush leaves a suffix of the parent's bucket and merges the rest of it
into the buckets of the child. -/
theorem partialFlush_merged {top : Bucket} {pivots : PivotTable} (wf : WFBucket top)
    (sorted : BucketWellMarshalled top) (wfPivots : WFPivots pivots)
    (bounded : BoundedKeySeq pivots top.keys) (count : bots.length = numBuckets pivots)
    (good : ∀ j bot, bots[j]? = some bot → GoodBucketAt pivots j bot) :
    ∃ flushed, (partialFlush top pivots bots).top =
        ⟨top.keys.drop flushed, top.msgs.drop flushed⟩ ∧
      (partialFlush top pivots bots).bots.length = bots.length ∧
      ∀ j bot, bots[j]? = some bot → ∃ bot', (partialFlush top pivots bots).bots[j]? = some bot' ∧
        SlotMerged pivots (top.entries.take flushed) j bot bot' := by
  obtain ⟨flushed, _, _, _, outTop, outBots, length, slots⟩ :=
    mergeToChildrenIter_merged wf sorted wfPivots bounded (i := 0) (by simpa using count)
      (by simpa using good) [] (Bounds.maxTotalBucketWeight - weightBucketList bots) []
  rw [List.nil_append] at outBots
  refine ⟨flushed, outTop, ?_, fun j bot atJ => ?_⟩
  · rw [partialFlush, mergeToChildren, outBots, length]
  · rw [partialFlush, mergeToChildren, outBots]
    simpa using slots j bot atJ

theorem partialFlush_weight (top : Bucket) (pivots : PivotTable)
    (pre : ∀ bot ∈ bots, PreWFBucket bot)
    (room : weightBucketList bots ≤ Bounds.maxTotalBucketWeight) :
    weightBucketList (partialFlush top pivots bots).bots ≤ Bounds.maxTotalBucketWeight := by
  have balance := mergeToChildrenIter_weight top (pivotIndexes top.keys pivots) pre 0
    (.mergeCompleted [] (Bounds.maxTotalBucketWeight - weightBucketList bots)) []
  rw [weightBucketList_nil, SingleMergeResult.slack] at balance
  simp only [partialFlush, mergeToChildren]
  omega

end VerifiedBetrfs.BucketFlushModel
