import VerifiedBetrfs.BetreeInv
import VerifiedBetrfs.PivotNode

/-!
# Queries of the pivot tree

Every key of a range query falls into the slots of its first key.
-/

namespace VerifiedBetrfs.PivotBetreeSpecRefinement

open BlockGraph BoundedPivotsLib SortedSearch BucketMaps BucketsLib

open PivotBetreeSpec (InvNode Layer Lookup LookupQuery SuccQuery ValidQuery ValidSuccQuery
  WFLookupForKey WFNode interpretLookup interpretLookupAccountingForLeaf lookupUpperBound
  lookupUpperBoundAtLayer nodeLookup optionKeyMin startKey)

def iReadOp (readOp : Layer) : ReadOp BetreeSpec.Node := ⟨readOp.ref, iNode readOp.node⟩

def iReadOps (readOps : List Layer) : List (ReadOp BetreeSpec.Node) := readOps.map iReadOp

def iQuery (q : LookupQuery) : BetreeSpec.LookupQuery :=
  ⟨q.key, q.value, iReadOps q.lookup⟩

def iSuccQuery (q : SuccQuery) : BetreeSpec.SuccQuery :=
  ⟨q.start, q.results, q.stop, iReadOps q.lookup⟩

variable {key : Key} {lookup : Lookup}

theorem wfLookup_iReadOps (wf : WFLookupForKey lookup key) :
    BetreeSpec.WFLookupForKey (iReadOps lookup) key := by
  refine ⟨?_, ?_, fun layer member => ?_⟩
  · rw [iReadOps, List.head?_map, Option.map_map]
    exact wf.startsAtRoot
  · rw [BetreeSpec.LookupFollowsChildRefs, iReadOps, List.isChain_map]
    refine wf.followsChildRefs.imp_of_mem_imp fun layer next member _ follows => ?_
    obtain ⟨_, children, atRoute⟩ := follows
    rw [iReadOp, iNode_children, if_pos (wf.boundedKey layer member), children]
    exact atRoute
  · obtain ⟨layer', member', rfl⟩ := List.mem_map.mp member
    exact wf_iNode (wf.visitsWFNodes layer' member')

variable {layer : Layer}

theorem buffer_at_layer (bounded : BoundedKey layer.node.pivotTable key) :
    (iReadOp layer).node.buffer.at' key = nodeLookup layer.node key * leafMessage layer.node := by
  have buffer := iNode_buffer layer.node key
  rw [if_pos bounded] at buffer
  exact IMap.at'_of_eq_some buffer

theorem interpretLookup_concat (lookup : Lookup) (layer : Layer) (key : Key) :
    interpretLookup (lookup ++ [layer]) key =
      interpretLookup lookup key * nodeLookup layer.node key := by
  rw [interpretLookup, List.foldl_append]
  rfl

theorem interpretLookup_iReadOps_concat (lookup : Lookup) (layer : Layer) (key : Key) :
    BetreeSpec.interpretLookup (iReadOps (lookup ++ [layer])) key =
      BetreeSpec.interpretLookup (iReadOps lookup) key * (iReadOp layer).node.buffer.at' key := by
  rw [BetreeSpec.interpretLookup, iReadOps, List.map_append, List.foldl_append]
  rfl

theorem interpretLookup_internal (bounded : PivotBetreeSpec.LookupBoundedKey key lookup)
    (internal : ∀ layer ∈ lookup, layer.node.children.isSome) :
    BetreeSpec.interpretLookup (iReadOps lookup) key = interpretLookup lookup key := by
  induction lookup using List.reverseRecOn with
  | nil => rfl
  | append_singleton lookup layer ih =>
    have last : layer ∈ lookup ++ [layer] := by simp
    rw [interpretLookup_iReadOps_concat, interpretLookup_concat,
      buffer_at_layer (bounded layer last), leafMessage, if_pos (internal layer last), mul_one,
      ih (fun other member => bounded other (List.mem_append_left _ member))
        (fun other member => internal other (List.mem_append_left _ member))]

theorem internal_of_follows
    (follows : PivotBetreeSpec.LookupFollowsChildRefs key (lookup ++ [layer])) :
    ∀ other ∈ lookup, other.node.children.isSome := by
  induction lookup with
  | nil => simp
  | cons head rest ih =>
    intro other member
    rcases List.mem_cons.mp member with rfl | inRest
    · cases rest with
      | nil | cons second rest =>
        obtain ⟨refs, children, _⟩ := (List.isChain_cons_cons.mp follows).1
        rw [children, Option.isSome_some]
    · exact ih (List.IsChain.of_cons follows) other inRest

theorem interpretLookup_refines (wf : WFLookupForKey lookup key) :
    BetreeSpec.interpretLookup (iReadOps lookup) key =
      interpretLookupAccountingForLeaf lookup key := by
  cases lookup using List.reverseRecOn with
  | nil =>
    have start := wf.startsAtRoot
    simp at start
  | append_singleton lookup layer =>
    have bounded := wf.boundedKey
    have initial := interpretLookup_internal
      (fun other member => bounded other (List.mem_append_left _ member))
      (internal_of_follows wf.followsChildRefs)
    have atLast : (lookup ++ [layer]).getLast? = some layer := by simp
    rw [interpretLookup_iReadOps_concat, initial, buffer_at_layer (bounded layer (by simp)),
      interpretLookupAccountingForLeaf, atLast, Option.bind_some,
      interpretLookup_concat, leafMessage]
    split
    · rw [mul_one]
    · rw [← mul_assoc, MessageOf.mul_eq_merge _ ValueMessage.defineDefault]

theorem query_refines {q : LookupQuery} (valid : ValidQuery q)
    (inv : ∀ layer ∈ q.lookup, InvNode layer.node) : BetreeSpec.ValidQuery (iQuery q) := by
  obtain ⟨wf, answer⟩ := valid
  refine ⟨wfLookup_iReadOps wf, ?_⟩
  rw [iQuery, interpretLookup_refines wf]
  refine answer fun layer member => ?_
  obtain ⟨_, slot⟩ := (boundedKey_iff (inv layer member).wf.pivots).mp (wf.boundedKey layer member)
  obtain ⟨_, atBucket⟩ := exists_bucket (inv layer member).wf slot
  obtain ⟨_, rfl⟩ := (routed_iff (inv layer member).wf.pivots).mpr slot
  rw [List.getElem!_eq_getElem?_getD, atBucket, Option.getD_some]
  exact (goodBucket (inv layer member) atBucket).sorted

theorem bucketGet_compose (top bot : BucketMap) (key : Key) :
    bucketGet (compose top bot) key = bucketGet top key * bucketGet bot key := by
  rw [bucketGet, compose, FiniteMap.lookup_ofFinset]
  split_ifs with absent
  · rfl
  · rw [Finset.mem_union, not_or, FiniteMap.mem_support, FiniteMap.mem_support,
      Option.not_isSome_iff_eq_none, Option.not_isSome_iff_eq_none] at absent
    rw [bucketGet, bucketGet, absent.1, absent.2]
    rfl

theorem composeSeq_concat (maps : List BucketMap) (m : BucketMap) :
    composeSeq (maps ++ [m]) = compose (composeSeq maps) m := by
  rw [composeSeq, List.foldl_append]
  rfl

/-- The buckets on the way of a lookup compose to its message. -/
theorem interpretLookup_eq_composeSeq (lookup : Lookup) (key : Key) :
    interpretLookup lookup key = bucketGet (composeSeq (lookup.map fun layer =>
      layer.node.buckets[route layer.node.pivotTable key]!.asMap)) key := by
  induction lookup using List.reverseRecOn with
  | nil => rfl
  | append_singleton lookup layer ih =>
    rw [interpretLookup_concat, List.map_append, List.map_singleton, composeSeq_concat,
      bucketGet_compose, ih]
    rfl

theorem mul_defineDefault (msg : Message) :
    msg * ValueMessage.defineDefault = .define (valueOfMessage msg) := by
  cases msg <;> rfl

theorem mem_sortedSeqOfKeyValueMap {m : FiniteMap Key Value} {value : Value} :
    (⟨key, value⟩ : UI.SuccResult) ∈ sortedSeqOfKeyValueMap m ↔ m.lookup key = some value := by
  rw [sortedSeqOfKeyValueMap, List.mem_map, ← FiniteMap.mem_sortedEntries]
  constructor
  · rintro ⟨⟨_, _⟩, member, same⟩
    obtain ⟨rfl, rfl⟩ := UI.SuccResult.mk.inj same
    exact member
  · intro member
    exact ⟨_, member, rfl⟩

theorem lookup_keyValueMap (m : BucketMap) (start : UI.RangeStart) (stop : UI.RangeEnd)
    (key : Key) (value : Value) :
    (keyValueMapOfBucket (clampRange m start stop)).lookup key = some value ↔
      MapSpec.InRange start key stop ∧ value ≠ ValueType.defaultValue ∧
        value = valueOfMessage (bucketGet m key) := by
  have defaultOfAbsent : valueOfMessage ValueMessage.identityMessage = ValueType.defaultValue := rfl
  have clamped : (keyValueMapOfBucket (clampRange m start stop)).lookup key =
      ((clampRange m start stop).lookup key).bind fun msg =>
        if valueOfMessage msg ≠ ValueType.defaultValue then some (valueOfMessage msg)
        else none := by
    rw [keyValueMapOfBucket, FiniteMap.lookup_ofFinset]
    split_ifs with absent
    · rfl
    · rw [FiniteMap.notMem_support.mp absent, Option.bind_none]
  have inside : (clampRange m start stop).lookup key =
      if MapSpec.InRange start key stop then m.lookup key else none := by
    rw [clampRange, FiniteMap.lookup_ofFinset]
    split
    · rfl
    · rename_i absent
      rw [FiniteMap.notMem_support.mp absent, ite_self]
  rw [clamped, inside, bucketGet]
  by_cases inRange : MapSpec.InRange start key stop
  · rw [if_pos inRange]
    cases m.lookup key with
    | none => simp [defaultOfAbsent]
    | some msg =>
      simp only [Option.bind_some, Option.getD_some]
      split <;> simp_all [eq_comm]
  · simp [inRange]

theorem optionKeyMin_some (first second : Option Key)
    (bounds : first = some key ∨ second = some key) :
    ∃ bound, optionKeyMin first second = some bound ∧ bound ≤ key := by
  cases first with
  | none =>
    obtain rfl : second = some key := by simpa using bounds
    exact ⟨key, rfl, le_refl key⟩
  | some key1 =>
    cases second with
    | none =>
      obtain rfl : key1 = key := by simpa using bounds
      exact ⟨key1, rfl, le_refl key1⟩
    | some key2 =>
      rw [Option.some.injEq, Option.some.injEq] at bounds
      rw [optionKeyMin]
      rcases lt_or_ge key1 key2 with less | notLess
      · rw [if_pos less]
        refine ⟨key1, rfl, ?_⟩
        rcases bounds with rfl | rfl
        · exact le_refl key1
        · exact le_of_lt less
      · rw [if_neg (not_lt.mpr notLess)]
        refine ⟨key2, rfl, ?_⟩
        rcases bounds with rfl | rfl
        · exact notLess
        · exact le_refl key2

theorem lookupUpperBound_le {key bound : Key} (member : layer ∈ lookup)
    (atLayer : lookupUpperBoundAtLayer layer key = some bound) :
    ∃ bound', lookupUpperBound lookup key = some bound' ∧ bound' ≤ bound := by
  induction lookup using List.reverseRecOn with
  | nil => simp at member
  | append_singleton lookup last ih =>
    rw [lookupUpperBound, List.foldl_append]
    rcases List.mem_append.mp member with earlier | here
    · obtain ⟨bound', found, le⟩ := ih earlier
      obtain ⟨bound'', found', le'⟩ := optionKeyMin_some
        (lookupUpperBound lookup key)
        (lookupUpperBoundAtLayer last key) (Or.inl found)
      exact ⟨bound'', found', le_trans le' le⟩
    · rw [List.mem_singleton.mp here] at atLayer
      exact optionKeyMin_some _ _ (Or.inr atLayer)

theorem lt_of_not_upperBound {key bound : Key} {stop : UI.RangeEnd}
    (inside : MapSpec.UpperBound key stop) (outside : ¬ MapSpec.UpperBound bound stop) :
    key < bound := by
  cases stop with
  | inclusive last => exact lt_of_le_of_lt inside (not_le.mp outside)
  | exclusive last => exact lt_of_lt_of_le inside (not_lt.mp outside)
  | positiveInf => exact absurd trivial outside

theorem startKey_le {start : UI.RangeStart} (inside : MapSpec.LowerBound start key) :
    startKey start ≤ key := by
  cases start with
  | inclusive first => exact inside
  | exclusive first => exact le_of_lt inside
  | negativeInf => exact emptyKey_le key

/-- A key between the start key and the upper bound of a layer falls into the
slot of the start key. -/
theorem inSlot_of_bounds (pivots : WFPivots layer.node.pivotTable) {start key : Key}
    (bounded : BoundedKey layer.node.pivotTable start) (le : start ≤ key)
    (less : ∀ bound, lookupUpperBoundAtLayer layer start = some bound → key < bound) :
    InSlot layer.node.pivotTable (route layer.node.pivotTable start) (keyToElement key) := by
  obtain ⟨low, high, atLow, atHigh, lower, _⟩ := (routed_iff pivots).mp ⟨bounded, rfl⟩
  refine ⟨low, high, atLow, atHigh, le_trans lower (WithTop.coe_le_coe.mpr le), ?_⟩
  have highEq : layer.node.pivotTable[route layer.node.pivotTable start + 1]! = high := by
    rw [List.getElem!_eq_getElem?_getD, atHigh, Option.getD_some]
  cases high using WithTop.recTopCoe with
  | top => exact WithTop.coe_lt_top key
  | coe high =>
    refine WithTop.coe_lt_coe.mpr (less high ?_)
    simp only [lookupUpperBoundAtLayer, getKey, highEq]
    rw [if_pos (WithTop.coe_ne_top), WithTop.untopD_coe]

section Range

variable {sq : SuccQuery} (valid : ValidSuccQuery sq)
  (inv : ∀ layer ∈ sq.lookup, InvNode layer.node)

include valid inv

theorem succQuery_buckets_wellMarshalled : BucketListWellMarshalled sq.buckets := by
  rw [valid.buckets]
  intro bucket member
  obtain ⟨layer, layerMember, rfl⟩ := List.mem_map.mp member
  have wf := (inv layer layerMember).wf
  have slot := (routed_iff wf.pivots).mp ⟨valid.wfLookup.boundedKey layer layerMember, rfl⟩
  obtain ⟨bucket, atBucket⟩ := exists_bucket wf slot
  rw [List.getElem!_eq_getElem?_getD, atBucket, Option.getD_some]
  exact (goodBucket (inv layer layerMember) atBucket).sorted

section

variable (inRange : MapSpec.InRange sq.start key sq.stop)

include inRange

theorem route_of_inRange (member : layer ∈ sq.lookup) :
    BoundedKey layer.node.pivotTable key ∧
      route layer.node.pivotTable key =
        route layer.node.pivotTable (startKey sq.start) := by
  have wf := (inv layer member).wf
  refine (routed_iff wf.pivots).mpr (inSlot_of_bounds wf.pivots
    (valid.wfLookup.boundedKey layer member) (startKey_le inRange.1) fun bound atLayer => ?_)
  obtain ⟨bound', found, le⟩ := lookupUpperBound_le member atLayer
  have outside := (valid.answer (succQuery_buckets_wellMarshalled valid inv)).2.1 bound' found
  exact lt_of_lt_of_le (lt_of_not_upperBound inRange.2 outside) le

theorem wfLookup_of_inRange :
    WFLookupForKey sq.lookup key where
  startsAtRoot := valid.wfLookup.startsAtRoot
  visitsWFNodes := valid.wfLookup.visitsWFNodes
  boundedKey _ member := (route_of_inRange valid inv inRange member).1
  followsChildRefs := by
    refine valid.wfLookup.followsChildRefs.imp_of_mem_imp fun layer next member _ follows => ?_
    rwa [(route_of_inRange valid inv inRange member).2]

/-- The composed buckets give every key of the range its value. -/
theorem lookupKeyValue_of_inRange :
    BetreeSpec.LookupKeyValue (iReadOps sq.lookup) key
      (valueOfMessage (bucketGet (composeSeq (sq.buckets.map Bucket.asMap)) key)) := by
  have wf := wfLookup_of_inRange valid inv inRange
  have leaf : ((sq.lookup.getLast?.bind fun layer => layer.node.children).isSome) = false := by
    cases last : sq.lookup.getLast? with
    | none => rfl
    | some layer => simp [valid.endsAtLeaf layer last]
  have buckets : sq.buckets.map Bucket.asMap = sq.lookup.map fun layer =>
      layer.node.buckets[route layer.node.pivotTable key]!.asMap := by
    rw [valid.buckets, List.map_map]
    refine List.map_congr_left fun layer member => ?_
    rw [Function.comp_apply, (route_of_inRange valid inv inRange member).2]
  refine ⟨wfLookup_iReadOps wf, ?_⟩
  rw [BetreeSpec.BufferDefinesValue, interpretLookup_refines wf,
    interpretLookupAccountingForLeaf, leaf, buckets,
    ← interpretLookup_eq_composeSeq, ← mul_defineDefault]
  rfl

end

theorem succQuery_refines : BetreeSpec.ValidSuccQuery (iSuccQuery sq) := by
  obtain ⟨nonEmpty, _, results⟩ := valid.answer (succQuery_buckets_wellMarshalled valid inv)
  have listed : ∀ result : UI.SuccResult, result ∈ sq.results ↔
      MapSpec.InRange sq.start result.key sq.stop ∧ result.value ≠ ValueType.defaultValue ∧
        result.value = valueOfMessage
          (bucketGet (composeSeq (sq.buckets.map Bucket.asMap)) result.key) := by
    rintro ⟨key, value⟩
    rw [results, mem_sortedSeqOfKeyValueMap, lookup_keyValueMap]
  refine ⟨nonEmpty, fun result member => ?_, fun result member => ?_, fun result member => ?_,
    ?_, fun key inRange absent => ?_⟩
  · obtain ⟨inRange, _, value⟩ := (listed result).mp member
    rw [value]
    exact lookupKeyValue_of_inRange valid inv inRange
  · exact ((listed result).mp member).2.1
  · exact ((listed result).mp member).1
  · rw [iSuccQuery, results, sortedSeqOfKeyValueMap, List.pairwise_map]
    exact FiniteMap.sortedEntries_sorted _
  · have found := lookupKeyValue_of_inRange valid inv inRange
    by_cases isDefault :
        valueOfMessage (bucketGet (composeSeq (sq.buckets.map Bucket.asMap)) key) =
          ValueType.defaultValue
    · rwa [isDefault] at found
    · exact absurd rfl (absent ⟨key, _⟩ ((listed ⟨key, _⟩).mpr ⟨inRange, isDefault, rfl⟩))

end Range

end VerifiedBetrfs.PivotBetreeSpecRefinement
