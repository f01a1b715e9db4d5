import VerifiedBetrfs.PivotQueries

/-!
# Range queries over a stack of buckets

The buckets on the way to a leaf are merged by a tree of generators, from which a loop pops entries.
-/

namespace VerifiedBetrfs

open ValueType (defaultValue)
open UI BucketMaps BucketsLib SortedSearch BucketFlushModel

namespace BucketIteratorModel

/-- The next entry of an iteration, or its end. -/
inductive IteratorOutput where
  | next (key : Key) (msg : Message)
  | done

/-- A position in a bucket and the entry there. -/
structure Iterator where
  next : IteratorOutput
  idx : Nat

section

variable (bucket : Bucket)

def iterForIndex (idx : Nat) : Iterator :=
  ⟨match bucket.entries[idx]? with
    | some (key, msg) => .next key msg
    | none => .done,
    idx⟩

def iterStart : Iterator := iterForIndex bucket 0

def iterFindFirstGte (key : Key) : Iterator :=
  iterForIndex bucket (binarySearchIndexOfFirstKeyGte bucket.keys key)

def iterFindFirstGt (key : Key) : Iterator :=
  iterForIndex bucket (binarySearchIndexOfFirstKeyGt bucket.keys key)

def iterInc (it : Iterator) : Iterator := iterForIndex bucket (it.idx + 1)

end

end BucketIteratorModel

open BucketIteratorModel

namespace BucketGeneratorModel

open PivotBetreeSpecRefinement (composeSeq_concat bucketGet_compose)

/-- A bucket that is read in order, or two generators merged. -/
inductive Generator where
  | basicGenerator (bucket : Bucket) (it : Iterator)
  | composeGenerator (top bot : Generator) (next : IteratorOutput)

def genLeft : Generator → IteratorOutput
  | .basicGenerator _ it => it.next
  | .composeGenerator _ _ next => next

/-- The least key is taken from two generators; those after that are given. -/
def composeNext (top bot topPopped botPopped : Generator) : Generator :=
  match genLeft top, genLeft bot with
  | .next key msg, .next botKey botMsg =>
    if key = botKey then .composeGenerator topPopped botPopped (.next key (msg.merge botMsg))
    else if key < botKey then .composeGenerator topPopped bot (.next key msg)
    else .composeGenerator top botPopped (.next botKey botMsg)
  | .next key msg, .done => .composeGenerator topPopped bot (.next key msg)
  | .done, .next key msg => .composeGenerator top botPopped (.next key msg)
  | .done, .done => .composeGenerator top bot .done

/-- The generator after its next entry. -/
def genPop : Generator → Generator
  | .basicGenerator bucket it => .basicGenerator bucket (iterInc bucket it)
  | .composeGenerator top bot _ => composeNext top bot (genPop top) (genPop bot)

/-- The generator over two others. -/
def genCompose (top bot : Generator) : Generator := composeNext top bot (genPop top) (genPop bot)

def genFromBucketWithLowerBound (bucket : Bucket) (start : RangeStart) : Generator :=
  .basicGenerator bucket (match start with
    | .exclusive key => iterFindFirstGt bucket key
    | .inclusive key => iterFindFirstGte bucket key
    | .negativeInf => iterStart bucket)

def genFromBucketStackWithLowerBound (start : RangeStart) : List Bucket → Option Generator
  | [] => none
  | first :: rest => some (rest.foldl
      (fun g bucket => genCompose g (genFromBucketWithLowerBound bucket start))
      (genFromBucketWithLowerBound first start))

/-- The entries of two lists in order of keys. -/
def mergeEntries : List (Key × Message) → List (Key × Message) → List (Key × Message)
  | [], bot => bot
  | top, [] => top
  | (key, msg) :: top, (botKey, botMsg) :: bot =>
    if key = botKey then (key, msg.merge botMsg) :: mergeEntries top bot
    else if key < botKey then (key, msg) :: mergeEntries top ((botKey, botMsg) :: bot)
    else (botKey, botMsg) :: mergeEntries ((key, msg) :: top) bot
termination_by top bot => top.length + bot.length

def IteratorOutput.cons : IteratorOutput → List (Key × Message) → List (Key × Message)
  | .next key msg, entries => (key, msg) :: entries
  | .done, _ => []

/-- The entries that a generator has yet to return. -/
def remaining : Generator → List (Key × Message)
  | .basicGenerator bucket it => IteratorOutput.cons it.next (bucket.entries.drop (it.idx + 1))
  | .composeGenerator top bot next =>
    IteratorOutput.cons next (mergeEntries (remaining top) (remaining bot))

theorem remaining_iterForIndex (bucket : Bucket) (idx : Nat) :
    remaining (.basicGenerator bucket (iterForIndex bucket idx)) = bucket.entries.drop idx := by
  rw [remaining, iterForIndex]
  cases found : bucket.entries[idx]? with
  | none => exact (List.drop_eq_nil_of_le (List.getElem?_eq_none_iff.mp found)).symm
  | some entry =>
    obtain ⟨inRange, rfl⟩ := List.getElem?_eq_some_iff.mp found
    exact List.getElem_cons_drop inRange

variable {g top bot topPopped botPopped : Generator} {key : Key} {msg : Message}

theorem remaining_of_next (left : genLeft g = .next key msg) :
    remaining g = (key, msg) :: (remaining g).tail := by
  cases g with
  | basicGenerator bucket it => rw [remaining, show it.next = _ from left, IteratorOutput.cons,
      List.tail_cons]
  | composeGenerator top bot next => rw [remaining, show next = _ from left, IteratorOutput.cons,
      List.tail_cons]

theorem remaining_of_done (left : genLeft g = .done) : remaining g = [] := by
  cases g with
  | basicGenerator bucket it => rw [remaining, show it.next = _ from left, IteratorOutput.cons]
  | composeGenerator top bot next => rw [remaining, show next = _ from left, IteratorOutput.cons]

@[simp]
theorem mergeEntries_nil (top : List (Key × Message)) : mergeEntries top [] = top := by
  cases top <;> rw [mergeEntries]
  exact nofun

theorem remaining_composeNext
    (isTop : genLeft top ≠ .done → remaining topPopped = (remaining top).tail)
    (isBot : genLeft bot ≠ .done → remaining botPopped = (remaining bot).tail) :
    remaining (composeNext top bot topPopped botPopped) =
      mergeEntries (remaining top) (remaining bot) := by
  rw [composeNext]
  cases topLeft : genLeft top with
  | done =>
    rw [remaining_of_done topLeft, mergeEntries]
    cases botLeft : genLeft bot with
    | done => rw [remaining_of_done botLeft, remaining, IteratorOutput.cons]
    | next key msg =>
      rw [remaining, isBot (by simp [botLeft]), remaining_of_done topLeft, mergeEntries]
      exact (remaining_of_next botLeft).symm
  | next key msg =>
    have isTop := isTop (by simp [topLeft])
    rw [remaining_of_next topLeft]
    cases botLeft : genLeft bot with
    | done =>
      rw [remaining, isTop, remaining_of_done botLeft, mergeEntries_nil, mergeEntries_nil]
      rfl
    | next botKey botMsg =>
      have isBot := isBot (by simp [botLeft])
      rw [remaining_of_next botLeft, mergeEntries]
      dsimp only
      split_ifs with same less
      · rw [remaining, isTop, isBot]
        rfl
      · rw [remaining, isTop, remaining_of_next botLeft]
        rfl
      · rw [remaining, isBot, remaining_of_next topLeft]
        rfl

theorem remaining_genPop (g : Generator) (isNext : genLeft g ≠ .done) :
    remaining (genPop g) = (remaining g).tail := by
  induction g with
  | basicGenerator bucket it =>
    rw [genPop, iterInc, remaining_iterForIndex, remaining]
    cases left : it.next with
    | next key msg => rfl
    | done => exact absurd left isNext
  | composeGenerator top bot next topIH botIH =>
    rw [genPop, remaining_composeNext topIH botIH, remaining]
    cases left : next with
    | next key msg => rfl
    | done => exact absurd left isNext

theorem remaining_genCompose (top bot : Generator) :
    remaining (genCompose top bot) = mergeEntries (remaining top) (remaining bot) :=
  remaining_composeNext (remaining_genPop top) (remaining_genPop bot)

section Merge

variable {top bot : List (Key × Message)}

theorem below_mergeEntries (belowTop : ∀ entry ∈ top, key < entry.1)
    (belowBot : ∀ entry ∈ bot, key < entry.1) : ∀ entry ∈ mergeEntries top bot, key < entry.1 := by
  induction top, bot using mergeEntries.induct with
  | case1 bot => rwa [mergeEntries]
  | case2 top => rwa [mergeEntries_nil]
  | case3 topKey msg top botMsg bot ih =>
    rw [mergeEntries, if_pos rfl]
    rw [List.forall_mem_cons] at belowTop belowBot ⊢
    exact ⟨belowTop.1, ih belowTop.2 belowBot.2⟩
  | case4 topKey msg top botKey botMsg bot differ less ih =>
    rw [mergeEntries, if_neg differ, if_pos less]
    rw [List.forall_mem_cons] at belowTop ⊢
    exact ⟨belowTop.1, ih belowTop.2 belowBot⟩
  | case5 topKey msg top botKey botMsg bot differ less ih =>
    rw [mergeEntries, if_neg differ, if_neg less]
    rw [List.forall_mem_cons] at belowBot ⊢
    exact ⟨belowBot.1, ih belowTop belowBot.2⟩

theorem mergeEntries_spec (sortedTop : SortedEntries top) (sortedBot : SortedEntries bot) :
    SortedEntries (mergeEntries top bot) ∧
      ∀ key, messageAt (mergeEntries top bot) key = messageAt top key * messageAt bot key := by
  induction top, bot using mergeEntries.induct with
  | case1 bot =>
    rw [mergeEntries]
    exact ⟨sortedBot, fun key => (one_mul _).symm⟩
  | case2 top =>
    rw [mergeEntries_nil]
    exact ⟨sortedTop, fun key => (mul_one _).symm⟩
  | case3 key msg top botMsg bot ih =>
    rw [mergeEntries, if_pos rfl]
    obtain ⟨belowTop, sortedTop⟩ := List.pairwise_cons.mp sortedTop
    obtain ⟨belowBot, sortedBot⟩ := List.pairwise_cons.mp sortedBot
    obtain ⟨sorted, message⟩ := ih sortedTop sortedBot
    have below := below_mergeEntries belowTop belowBot
    refine ⟨List.pairwise_cons.mpr ⟨below, sorted⟩, fun other => ?_⟩
    rw [messageAt_cons below, messageAt_cons belowTop, messageAt_cons belowBot, message]
    split_ifs
    · rfl
    · rfl
  | case4 key msg top botKey botMsg bot differ less ih =>
    rw [mergeEntries, if_neg differ, if_pos less]
    obtain ⟨belowTop, sortedTop⟩ := List.pairwise_cons.mp sortedTop
    have belowBot : ∀ entry ∈ (botKey, botMsg) :: bot, key < entry.1 := sortedBot.below_of_lt less
    obtain ⟨sorted, message⟩ := ih sortedTop sortedBot
    have below := below_mergeEntries belowTop belowBot
    refine ⟨List.pairwise_cons.mpr ⟨below, sorted⟩, fun other => ?_⟩
    rw [messageAt_cons below, messageAt_cons belowTop, message]
    split_ifs with same
    · rw [same, messageAt_of_below belowBot, mul_one]
    · rfl
  | case5 key msg top botKey botMsg bot differ less ih =>
    rw [mergeEntries, if_neg differ, if_neg less]
    obtain ⟨belowBot, sortedBot⟩ := List.pairwise_cons.mp sortedBot
    have belowTop : ∀ entry ∈ (key, msg) :: top, botKey < entry.1 :=
      sortedTop.below_of_lt (lt_of_le_of_ne (not_lt.mp less) (Ne.symm differ))
    obtain ⟨sorted, message⟩ := ih sortedTop sortedBot
    have below := below_mergeEntries belowTop belowBot
    refine ⟨List.pairwise_cons.mpr ⟨below, sorted⟩, fun other => ?_⟩
    rw [messageAt_cons below, messageAt_cons belowBot, message]
    split_ifs with same
    · rw [same, messageAt_of_below belowTop, one_mul]
    · rfl

end Merge

theorem messageAt_filter {entries : List (Key × Message)} (sorted : SortedEntries entries)
    (test : Key → Bool) (key : Key) :
    messageAt (entries.filter fun entry => test entry.1) key =
      if test key then messageAt entries key else 1 := by
  induction entries with
  | nil => exact (ite_self _).symm
  | cons entry entries ih =>
    obtain ⟨below, sorted⟩ := List.pairwise_cons.mp sorted
    have belowFilter : ∀ other ∈ entries.filter fun entry => test entry.1, entry.1 < other.1 :=
      fun other member => below other (List.mem_of_mem_filter member)
    rw [List.filter_cons, messageAt_cons below]
    by_cases same : key = entry.1
    · subst same
      cases test entry.1 with
      | false => exact messageAt_of_below belowFilter
      | true =>
        rw [if_pos rfl, if_pos rfl, if_pos rfl]
        exact (messageAt_cons belowFilter entry.2 entry.1).trans (if_pos rfl)
    · rw [if_neg same, ← ih sorted]
      split_ifs
      · rw [messageAt_cons belowFilter, if_neg same]
      · rfl

theorem remaining_genFromBucketWithLowerBound {bucket : Bucket} (pre : PreWFBucket bucket)
    (sorted : BucketWellMarshalled bucket) (start : RangeStart) :
    remaining (genFromBucketWithLowerBound bucket start) =
      bucket.entries.filter fun entry => decide (MapSpec.LowerBound start entry.1) := by
  have splits : ∀ idx, (∀ key ∈ bucket.keys.take idx, ¬ MapSpec.LowerBound start key) →
      (∀ key ∈ bucket.keys.drop idx, MapSpec.LowerBound start key) →
      bucket.entries.drop idx =
        bucket.entries.filter fun entry => decide (MapSpec.LowerBound start entry.1) := by
    intro idx before after
    rw [← map_fst_entries pre, ← List.map_take, List.forall_mem_map] at before
    rw [← map_fst_entries pre, ← List.map_drop, List.forall_mem_map] at after
    conv_rhs => rw [← List.take_append_drop idx bucket.entries]
    rw [List.filter_append, List.filter_eq_nil_iff.mpr fun entry member => by
        simpa using before entry member, List.filter_eq_self.mpr fun entry member => by
        simpa using after entry member, List.nil_append]
  cases start with
  | inclusive key =>
    have first := isFirstGte_binarySearch sorted key
    rw [genFromBucketWithLowerBound, iterFindFirstGte, remaining_iterForIndex]
    exact splits _ (fun other member => not_le.mpr (first.before other member)) first.after
  | exclusive key =>
    have first := isFirstGt_binarySearch sorted key
    rw [genFromBucketWithLowerBound, iterFindFirstGt, remaining_iterForIndex]
    exact splits _ (fun other member => not_lt.mpr (first.before other member)) first.after
  | negativeInf =>
    rw [genFromBucketWithLowerBound, iterStart, remaining_iterForIndex]
    exact splits 0 (by simp) (fun _ _ => trivial)

/-- A generator gives the composition of some buckets from the start of a range on. -/
structure StandsFor (g : Generator) (start : RangeStart) (maps : List BucketMap) : Prop where
  sorted : SortedEntries (remaining g)
  message : ∀ key, messageAt (remaining g) key =
    if MapSpec.LowerBound start key then bucketGet (composeSeq maps) key else 1

variable {start : RangeStart} {maps : List BucketMap} {bucket : Bucket} {buckets : List Bucket}

theorem fromBucket_spec (wf : WFBucket bucket) (sorted : BucketWellMarshalled bucket) :
    SortedEntries (remaining (genFromBucketWithLowerBound bucket start)) ∧
      ∀ key, messageAt (remaining (genFromBucketWithLowerBound bucket start)) key =
        if MapSpec.LowerBound start key then bucketGet bucket.asMap key else 1 := by
  have sortedEntries := (wfEntries_entries wf sorted).sorted
  rw [remaining_genFromBucketWithLowerBound wf.1 sorted]
  refine ⟨List.Pairwise.filter _ sortedEntries, fun key => ?_⟩
  rw [messageAt_filter sortedEntries fun key => decide (MapSpec.LowerBound start key)]
  simp only [decide_eq_true_eq]
  rfl

theorem StandsFor.compose (stands : StandsFor g start maps) (wf : WFBucket bucket)
    (sorted : BucketWellMarshalled bucket) :
    StandsFor (genCompose g (genFromBucketWithLowerBound bucket start)) start
      (maps ++ [bucket.asMap]) := by
  obtain ⟨sortedBucket, messageBucket⟩ := fromBucket_spec wf sorted
  obtain ⟨sortedMerged, messageMerged⟩ := mergeEntries_spec stands.sorted sortedBucket
  rw [← remaining_genCompose] at sortedMerged messageMerged
  refine ⟨sortedMerged, fun key => ?_⟩
  rw [messageMerged, stands.message, messageBucket, composeSeq_concat, bucketGet_compose]
  split_ifs
  · rfl
  · exact mul_one 1

theorem StandsFor.foldl (stands : StandsFor g start maps) (wf : ∀ bucket ∈ buckets, WFBucket bucket)
    (sorted : ∀ bucket ∈ buckets, BucketWellMarshalled bucket) :
    StandsFor (buckets.foldl
      (fun g bucket => genCompose g (genFromBucketWithLowerBound bucket start)) g) start
      (maps ++ buckets.map Bucket.asMap) := by
  induction buckets generalizing g maps with
  | nil => simpa using stands
  | cons bucket buckets ih =>
    rw [List.forall_mem_cons] at wf sorted
    rw [List.foldl_cons, List.map_cons, List.append_cons]
    exact ih (stands.compose wf.1 sorted.1) wf.2 sorted.2

theorem exists_standsFor (nonempty : buckets ≠ []) (wf : ∀ bucket ∈ buckets, WFBucket bucket)
    (sorted : ∀ bucket ∈ buckets, BucketWellMarshalled bucket) (start : RangeStart) :
    ∃ g, genFromBucketStackWithLowerBound start buckets = some g ∧
      StandsFor g start (buckets.map Bucket.asMap) := by
  cases buckets with
  | nil => exact absurd rfl nonempty
  | cons first rest =>
    rw [List.forall_mem_cons] at wf sorted
    obtain ⟨sortedFirst, messageFirst⟩ := fromBucket_spec wf.1 sorted.1
    refine ⟨_, rfl, @StandsFor.foldl _ _ [first.asMap] _ ⟨sortedFirst, fun key => ?_⟩ wf.2 sorted.2⟩
    rw [messageFirst, ← List.nil_append [first.asMap], composeSeq_concat, bucketGet_compose]
    exact if_congr Iff.rfl (one_mul _).symm rfl

end BucketGeneratorModel

namespace BucketSuccessorLoopModel

open BucketGeneratorModel MapSpec

/-- The answer to a successor query. -/
structure SuccResultList where
  results : List SuccResult
  stop : RangeEnd
deriving DecidableEq

/-- The end of a query that has looked at all keys below its bound. -/
def rangeEnd : Option Key → RangeEnd
  | some upTo => .exclusive upTo
  | none => .positiveInf

/-- The loop that collects values until a bound is met. -/
def processGenerator (g : Generator) (maxToFind : Nat) (upTo : Option Key)
    (results : List SuccResult) : SuccResultList :=
  match left : genLeft g with
  | .next key msg =>
    if ∀ bound ∈ upTo, key < bound then
      let v := valueOfMessage msg
      if v ≠ defaultValue then
        let results' := results ++ [⟨key, v⟩]
        if results'.length < maxToFind then
          processGenerator (genPop g) maxToFind upTo results'
        else
          ⟨results', .inclusive key⟩
      else
        processGenerator (genPop g) maxToFind upTo results
    else
      ⟨results, rangeEnd upTo⟩
  | .done => ⟨results, rangeEnd upTo⟩
termination_by (remaining g).length
decreasing_by
  all_goals
    rw [remaining_genPop g (by simp [left]), remaining_of_next left]
    exact Nat.lt_succ_self _

/-- The successor query over a stack of buckets. -/
def getSuccessorInBucketStack (buckets : List Bucket) (maxToFind : Nat) (start : RangeStart)
    (upTo : Option Key) : Option SuccResultList := do
  let g ← genFromBucketStackWithLowerBound start buckets
  return processGenerator g maxToFind upTo []

/-- The answer of a loop that may find `count` more values among some entries. -/
structure Answer (entries : List (Key × Message)) (count : Nat) (upTo : Option Key)
    (found : List SuccResult) (stop : RangeEnd) : Prop where
  sorted : found.Pairwise fun first second => first.key < second.key
  listed : ∀ key value, ⟨key, value⟩ ∈ found ↔ UpperBound key stop ∧
    value = valueOfMessage (messageAt entries key) ∧ value ≠ defaultValue
  atMost : found.length ≤ count
  bounded : ∀ key, UpperBound key stop → ∀ bound ∈ upTo, key < bound
  exhausted : found.length < count → stop = rangeEnd upTo
  filled : found.length = count → ∃ last, found.getLast? = some last ∧ stop = .inclusive last.key

variable {entries : List (Key × Message)} {count : Nat} {upTo : Option Key}
  {found : List SuccResult} {stop : RangeEnd} {key : Key} {msg : Message}

theorem valueOfMessage_one : valueOfMessage 1 = defaultValue := rfl

theorem upperBound_rangeEnd : UpperBound key (rangeEnd upTo) ↔ ∀ bound ∈ upTo, key < bound := by
  cases upTo <;> simp [rangeEnd, UpperBound]

theorem Answer.nothing (positive : 0 < count)
    (noMessage : ∀ key, (∀ bound ∈ upTo, key < bound) → messageAt entries key = 1) :
    Answer entries count upTo [] (rangeEnd upTo) where
  sorted := .nil
  listed key value := by
    rw [upperBound_rangeEnd]
    refine iff_of_false (List.not_mem_nil) ?_
    rintro ⟨below, rfl, notDefault⟩
    exact notDefault (congrArg valueOfMessage (noMessage key below))
  atMost := Nat.zero_le _
  bounded _ := upperBound_rangeEnd.mp
  exhausted _ := rfl
  filled isZero := absurd isZero (Nat.ne_of_lt positive)

section First

variable (below : ∀ entry ∈ entries, key < entry.1)

include below

section

variable (answer : Answer entries count upTo found stop)

include answer

theorem Answer.key_lt {result : SuccResult} (member : result ∈ found) : key < result.key := by
  obtain ⟨-, isValue, notDefault⟩ := (answer.listed result.key result.value).mp member
  by_contra notAbove
  refine notDefault (isValue.trans ?_)
  rw [messageAt_of_below fun entry inside =>
    lt_of_le_of_lt (not_lt.mp notAbove) (below entry inside), valueOfMessage_one]

theorem Answer.skip (isDefault : valueOfMessage msg = defaultValue) :
    Answer ((key, msg) :: entries) count upTo found stop where
  __ := answer
  listed other value := by
    rw [answer.listed, messageAt_cons below]
    split_ifs with same
    · rw [same, messageAt_of_below below, isDefault, valueOfMessage_one]
    · rfl

omit answer in
theorem Answer.last (notDefault : valueOfMessage msg ≠ defaultValue)
    (isBelow : ∀ bound ∈ upTo, key < bound) :
    Answer ((key, msg) :: entries) 1 upTo [⟨key, valueOfMessage msg⟩] (.inclusive key) where
  sorted := List.pairwise_singleton _ _
  listed other value := by
    rw [List.mem_singleton, SuccResult.mk.injEq, messageAt_cons below]
    constructor
    · rintro ⟨rfl, rfl⟩
      exact ⟨le_refl other, by rw [if_pos rfl], notDefault⟩
    · rintro ⟨isLe, isValue, notDefault⟩
      rcases eq_or_lt_of_le isLe with rfl | less
      · exact ⟨rfl, by rwa [if_pos rfl] at isValue⟩
      · rw [if_neg (ne_of_lt less),
          messageAt_of_below fun entry inside => lt_trans less (below entry inside)] at isValue
        exact absurd isValue notDefault
  atMost := le_refl 1
  bounded _ isLe bound isBound := lt_of_le_of_lt isLe (isBelow bound isBound)
  exhausted less := absurd less (Nat.lt_irrefl 1)
  filled _ := ⟨_, rfl, rfl⟩

theorem Answer.take (notDefault : valueOfMessage msg ≠ defaultValue)
    (isBelow : ∀ bound ∈ upTo, key < bound) :
    Answer ((key, msg) :: entries) (count + 1) upTo (⟨key, valueOfMessage msg⟩ :: found) stop where
  sorted := List.pairwise_cons.mpr ⟨fun result member => answer.key_lt below member, answer.sorted⟩
  listed other value := by
    have inside : UpperBound key stop := by
      rcases Nat.lt_or_eq_of_le answer.atMost with less | isFull
      · rw [answer.exhausted less]
        exact upperBound_rangeEnd.mpr isBelow
      · obtain ⟨last, isLast, isStop⟩ := answer.filled isFull
        rw [isStop]
        exact le_of_lt (answer.key_lt below (List.mem_of_getLast? isLast))
    rw [List.mem_cons, SuccResult.mk.injEq, answer.listed, messageAt_cons below]
    split_ifs with same
    · subst same
      rw [messageAt_of_below below, valueOfMessage_one]
      constructor
      · rintro (⟨-, rfl⟩ | ⟨-, rfl, isDefault⟩)
        · exact ⟨inside, rfl, notDefault⟩
        · exact absurd rfl isDefault
      · rintro ⟨-, isValue, -⟩
        exact .inl ⟨rfl, isValue⟩
    · simp [same]
  atMost := Nat.succ_le_succ answer.atMost
  bounded := answer.bounded
  exhausted less := answer.exhausted (Nat.lt_of_succ_lt_succ less)
  filled isFull := by
    obtain ⟨last, isLast, isStop⟩ := answer.filled (Nat.succ.inj isFull)
    refine ⟨last, ?_, isStop⟩
    rw [List.getLast?_cons, isLast]
    rfl

end

end First

theorem processGenerator_spec (g : Generator) (maxToFind : Nat) (upTo : Option Key)
    (results : List SuccResult) (sorted : SortedEntries (remaining g))
    (room : results.length < maxToFind) :
    ∃ found stop, processGenerator g maxToFind upTo results = ⟨results ++ found, stop⟩ ∧
      Answer (remaining g) (maxToFind - results.length) upTo found stop := by
  have popped : ∀ {g : Generator} {key msg}, SortedEntries (remaining g) →
      genLeft g = .next key msg → remaining g = (key, msg) :: remaining (genPop g) ∧
        (∀ entry ∈ remaining (genPop g), key < entry.1) ∧ SortedEntries (remaining (genPop g)) := by
    intro g key msg sorted left
    have isNext := remaining_of_next left
    rw [← remaining_genPop g (by simp [left])] at isNext
    rw [isNext] at sorted
    exact ⟨isNext, List.pairwise_cons.mp sorted⟩
  fun_induction processGenerator g maxToFind upTo results with
  | case1 g results key msg left isBelow v notDefault results' more ih =>
    obtain ⟨isNext, below, sorted⟩ := popped sorted left
    obtain ⟨found, stop, isResult, answer⟩ := ih sorted more
    rw [List.length_append, List.length_singleton] at more answer
    refine ⟨⟨key, v⟩ :: found, stop, by simp [isResult, results'], ?_⟩
    rw [isNext, show maxToFind - results.length = maxToFind - (results.length + 1) + 1 by omega]
    exact answer.take below notDefault isBelow
  | case2 g results key msg left isBelow v notDefault results' full =>
    obtain ⟨isNext, below, -⟩ := popped sorted left
    rw [List.length_append, List.length_singleton] at full
    refine ⟨[⟨key, v⟩], .inclusive key, rfl, ?_⟩
    rw [isNext, show maxToFind - results.length = 1 by omega]
    exact .last below notDefault isBelow
  | case3 g results key msg left isBelow v isDefault ih =>
    obtain ⟨isNext, below, sorted⟩ := popped sorted left
    obtain ⟨found, stop, isResult, answer⟩ := ih sorted room
    refine ⟨found, stop, isResult, ?_⟩
    rw [isNext]
    exact answer.skip below (not_not.mp isDefault)
  | case4 g results key msg left notBelow =>
    obtain ⟨isNext, below, -⟩ := popped sorted left
    refine ⟨[], _, by rw [List.append_nil], .nothing (by omega) fun other isBelow => ?_⟩
    obtain ⟨bound, isBound, beyond⟩ : ∃ bound ∈ upTo, bound ≤ key := by simpa using notBelow
    rw [isNext] at sorted ⊢
    exact messageAt_of_below (sorted.below_of_lt (lt_of_lt_of_le (isBelow bound isBound) beyond))
  | case5 g results left =>
    refine ⟨[], _, by rw [List.append_nil], .nothing (by omega) fun _ _ => ?_⟩
    rw [remaining_of_done left, messageAt_nil]

/-- A query finds the keys that the composition of the buckets gives a value, in order and up to the
end that it reports. -/
theorem getSuccessorInBucketStack_exact {buckets : List Bucket} {maxToFind : Nat}
    {start : RangeStart} {upTo : Option Key} (nonempty : 1 ≤ buckets.length)
    (positive : 1 ≤ maxToFind) (wf : ∀ bucket ∈ buckets, WFBucket bucket)
    (sorted : ∀ bucket ∈ buckets, BucketWellMarshalled bucket)
    (above : ∀ key, start = .inclusive key ∨ start = .exclusive key → ∀ bound ∈ upTo, key < bound) :
    ∃ results stop,
      getSuccessorInBucketStack buckets maxToFind start upTo = some ⟨results, stop⟩ ∧
      results.Pairwise (fun first second => first.key < second.key) ∧
      (∀ key value, ⟨key, value⟩ ∈ results ↔ InRange start key stop ∧
        value = valueOfMessage (bucketGet (composeSeq (buckets.map Bucket.asMap)) key) ∧
        value ≠ defaultValue) ∧
      results.length ≤ maxToFind ∧
      (∀ key, UpperBound key stop → ∀ bound ∈ upTo, key < bound) ∧
      (results.length < maxToFind → stop = rangeEnd upTo) ∧
      (results.length = maxToFind →
        ∃ last, results.getLast? = some last ∧ stop = .inclusive last.key) ∧
      NonEmptyRange start stop := by
  obtain ⟨g, isGenerator, stands⟩ :=
    exists_standsFor (List.ne_nil_of_length_pos nonempty) wf sorted start
  obtain ⟨results, stop, isResult, answer⟩ :=
    processGenerator_spec g maxToFind upTo [] stands.sorted positive
  have listed : ∀ key value, ⟨key, value⟩ ∈ results ↔ InRange start key stop ∧
      value = valueOfMessage (bucketGet (composeSeq (buckets.map Bucket.asMap)) key) ∧
      value ≠ defaultValue := by
    intro key value
    rw [answer.listed, stands.message, InRange]
    split_ifs with isAbove
    · simp [isAbove]
    · refine iff_of_false ?_ fun inside => isAbove inside.1.1
      rintro ⟨-, rfl, notDefault⟩
      exact notDefault valueOfMessage_one
  refine ⟨results, stop, by simp [getSuccessorInBucketStack, isGenerator, isResult], answer.sorted,
    listed, answer.atMost, answer.bounded, answer.exhausted, answer.filled, ?_⟩
  rcases Nat.lt_or_eq_of_le answer.atMost with less | isFull
  · rw [answer.exhausted less]
    cases upTo with
    | none => cases start <;> trivial
    | some bound =>
      cases start with
      | inclusive key => exact above key (.inl rfl) bound rfl
      | exclusive key => exact above key (.inr rfl) bound rfl
      | negativeInf => trivial
  · obtain ⟨last, isLast, rfl⟩ := answer.filled isFull
    obtain ⟨⟨isAbove, -⟩, -⟩ := (listed last.key last.value).mp (List.mem_of_getLast? isLast)
    cases start with
    | inclusive key | exclusive key => exact isAbove
    | negativeInf => trivial

/-- The top bucket deletes the key that the bucket below it defines. -/
def deletingStack : List Bucket :=
  [⟨[⟨[7], by decide⟩], [ValueMessage.defineDefault]⟩,
    ⟨[⟨[7], by decide⟩, ⟨[9], by decide⟩],
      [.define ⟨[1], by decide⟩, .define ⟨[2], by decide⟩]⟩]

theorem getSuccessorInBucketStack_exact_deleting :
    ∃ results stop,
      getSuccessorInBucketStack deletingStack 1 (.inclusive ⟨[5], by decide⟩) none =
        some ⟨results, stop⟩ ∧
      (∀ value, ⟨⟨[7], by decide⟩, value⟩ ∉ results) ∧
      NonEmptyRange (.inclusive ⟨[5], by decide⟩) stop := by
  have wf : ∀ bucket ∈ deletingStack, WFBucket bucket := by
    simp only [WFBucket, PreWFBucket, WFMessageSeq, deletingStack]
    decide
  have sorted : ∀ bucket ∈ deletingStack, BucketWellMarshalled bucket := by
    simp only [BucketWellMarshalled, deletingStack]
    decide
  obtain ⟨results, stop, isResult, -, listed, -, -, -, -, nonempty⟩ :=
    @getSuccessorInBucketStack_exact deletingStack 1 (.inclusive ⟨[5], by decide⟩) none (by decide)
      (le_refl 1) wf sorted (by simp)
  refine ⟨results, stop, isResult, fun value member => ?_, nonempty⟩
  obtain ⟨-, isValue, notDefault⟩ := (listed _ value).mp member
  exact notDefault isValue

end BucketSuccessorLoopModel

end VerifiedBetrfs
