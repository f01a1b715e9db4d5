import VerifiedBetrfs.InfiniteLogInv

/-!
# The steps of the unbounded log keep its invariant

One lemma for each kind of change; each step is an instance of it.
-/

namespace VerifiedBetrfs.InfiniteLog

variable {nrifc : NRIfc} {s s' : Shard nrifc} {nodeId ctail gtail : Nat}

theorem getLocalTail_eq_some {stored : Nat} {state : CombinerState}
    (storedEq : s.localTails.lookup nodeId = some stored)
    (found : s.combiner.lookup nodeId = some state) :
    getLocalTail s nodeId = some (state.logicalTail stored) := by
  simp [getLocalTail, storedEq, found]

namespace ShardInv

variable {s : Shard nrifc} {ctail gtail nodeId : Nat} (inv : ShardInv s ctail gtail)
  {state : CombinerState} {stored : Nat} {replica : nrifc.NRState}
  {localUpdates : FiniteMap RequestId (UpdateState nrifc)}

include inv

theorem exists_stored (found : s.combiner.lookup nodeId = some state) :
    ∃ stored, s.localTails.lookup nodeId = some stored := by
  rw [← Option.isSome_iff_exists, ← s.localTails.mem_support, inv.localTails_keys,
    ← inv.combiner_keys, s.combiner.mem_support, found]
  rfl

theorem exists_combiner (found : s.localTails.lookup nodeId = some stored) :
    ∃ state, s.combiner.lookup nodeId = some state := by
  rw [← Option.isSome_iff_exists, ← s.combiner.mem_support, inv.combiner_keys,
    ← inv.localTails_keys, s.localTails.mem_support, found]
  rfl

theorem replica_of_combiner (replicaEq : s.replicas.lookup nodeId = some replica)
    (storedEq : s.localTails.lookup nodeId = some stored)
    (found : s.combiner.lookup nodeId = some state) :
    stateAtVersion s.log (state.logicalTail stored) = some replica := by
  obtain ⟨_, tailEq, replicaAt⟩ := inv.replicas replicaEq
  rw [getLocalTail_eq_some storedEq found, Option.some.injEq] at tailEq
  rw [tailEq, replicaAt]

theorem of_localReads (rid : RequestId) {localReads : FiniteMap RequestId (ReadonlyState nrifc)}
    (same : ∀ other, other ≠ rid → localReads.lookup other = s.localReads.lookup other)
    (new : ∀ req, localReads.lookup rid = some req → ReadInv s.log ctail (getLocalTail s) req) :
    ShardInv { s with localReads } ctail gtail := by
  refine { inv with reads := ?_ }
  intro other req found
  by_cases isRid : other = rid
  · exact new req (isRid ▸ found)
  · exact inv.reads (same other isRid ▸ found)

variable {rid : RequestId}

theorem insert_localReads {req : ReadonlyState nrifc}
    (new : ReadInv s.log ctail (getLocalTail s) req) :
    ShardInv { s with localReads := s.localReads.insert rid req } ctail gtail := by
  refine inv.of_localReads rid (fun other isOther => by simp [isOther]) ?_
  intro req' found
  obtain rfl : req = req' := by simpa using found
  exact new

variable {s' : Shard nrifc}

theorem readCtail (step : TransitionReadonlyReadCtail s s' rid) : ShardInv s' ctail gtail := by
  obtain ⟨_, _, -, tail, rfl⟩ := step
  obtain rfl := Option.mem_unique tail inv.ctail_eq
  exact inv.insert_localReads le_rfl

theorem readyToRead (step : TransitionReadonlyReadyToRead s s' nodeId rid) :
    ShardInv s' ctail gtail := by
  obtain ⟨_, _, stored, found, storedEq, advanced, rfl⟩ := step
  obtain ⟨state, stateEq⟩ := inv.exists_combiner storedEq
  have storedLe : stored ≤ state.logicalTail stored := by
    have combiner := inv.combiners storedEq stateEq
    cases state with
    | combinerReady | combinerPlaced => exact le_rfl
    | combinerLtail => exact combiner.1.ge
    | combiner => exact combiner.2.1
    | combinerUpdatedCtail => exact combiner.2.2.1
  exact inv.insert_localReads
    ⟨inv.reads found, _, getLocalTail_eq_some storedEq stateEq, advanced.trans storedLe⟩

theorem readDone (step : TransitionReadonlyDone s s' rid) : ShardInv s' ctail gtail := by
  obtain ⟨_, _, _, replica, found, replicaEq, ready, rfl⟩ := step
  obtain ⟨stored, storedEq⟩ := inv.exists_stored ready
  obtain ⟨seenLe, tail, tailEq, seenLeTail⟩ := inv.reads found
  obtain rfl : stored = tail := by
    simpa [getLocalTail_eq_some storedEq ready, CombinerState.logicalTail] using tailEq
  exact inv.insert_localReads ⟨⟨seenLe, stored, tailEq, seenLeTail⟩, stored, replica, seenLeTail,
    inv.stored_le storedEq, inv.replica_of_combiner replicaEq storedEq ready, rfl⟩

theorem insert_combiner {state' : CombinerState}
    (storedEq : s.localTails.lookup nodeId = some stored)
    (found : s.combiner.lookup nodeId = some state)
    (sameTail : state'.logicalTail stored = state.logicalTail stored)
    (subset : ∀ rid ∈ state'.queuedOps, rid ∈ state.queuedOps)
    (new : CombinerInv s.log s.localUpdates ctail gtail nodeId stored state') :
    ShardInv { s with combiner := s.combiner.insert nodeId state' } ctail gtail := by
  have sameTails : getLocalTail { s with combiner := s.combiner.insert nodeId state' } =
      getLocalTail s := by
    funext other
    by_cases isNode : other = nodeId
    · simp [isNode, getLocalTail, storedEq, found, sameTail]
    · simp [isNode, getLocalTail]
  have queuedBefore : ∀ {other state₁},
      (s.combiner.insert nodeId state').lookup other = some state₁ →
      ∃ state₀, s.combiner.lookup other = some state₀ ∧
        ∀ rid ∈ state₁.queuedOps, rid ∈ state₀.queuedOps := by
    intro other state₁ foundAfter
    by_cases isNode : other = nodeId
    · obtain rfl : state' = state₁ := by simpa [isNode] using foundAfter
      exact ⟨state, isNode ▸ found, subset⟩
    · exact ⟨state₁, by simpa [isNode] using foundAfter, fun _ inside => inside⟩
  refine { inv with
    combiner_keys := ?_
    reads := ?_
    combiners := ?_
    ridsDistinct := ?_
    replicas := ?_ }
  · rw [FiniteMap.support_insert_of_lookup found]
    exact inv.combiner_keys
  · rw [sameTails]
    exact inv.reads
  · intro other stored' state₁ storedEq' foundAfter
    by_cases isNode : other = nodeId
    · subst isNode
      obtain rfl := Option.mem_unique storedEq storedEq'
      obtain rfl : state' = state₁ := by simpa using foundAfter
      exact new
    · exact inv.combiners storedEq' (by simpa [isNode] using foundAfter)
  · intro node node' state₁ state₂ rid distinct found₁ found₂ inside
    obtain ⟨_, foundBefore₁, subset₁⟩ := queuedBefore found₁
    obtain ⟨_, foundBefore₂, subset₂⟩ := queuedBefore found₂
    exact fun inside' => inv.ridsDistinct distinct foundBefore₁ foundBefore₂
      (subset₁ rid inside) (subset₂ rid inside')
  · rw [sameTails]
    exact inv.replicas

theorem trivialStart (step : TrivialStart s s' nodeId) : ShardInv s' ctail gtail := by
  obtain ⟨found, rfl⟩ := step
  obtain ⟨stored, storedEq⟩ := inv.exists_stored found
  obtain ⟨storedLe, foreign⟩ := inv.combiners storedEq found
  have range : LogRangeMatchesQueue [] s.log nodeId s.localUpdates gtail 0 stored :=
    .of_noNodeId storedLe foreign .done
  exact inv.insert_combiner storedEq found rfl (by simp [CombinerState.queuedOps])
    ⟨storedLe, range, by simp [QueueRidsUpdatePlaced], List.nodup_nil⟩

theorem execLoadLtail (step : ExecLoadLtail s s' nodeId) : ShardInv s' ctail gtail := by
  obtain ⟨_, _, found, storedEq, rfl⟩ := step
  obtain ⟨storedLe, range, placed, nodup⟩ := inv.combiners storedEq found
  exact inv.insert_combiner storedEq found rfl (fun _ inside => inside)
    ⟨rfl, inv.stored_le storedEq, storedLe, range, placed, nodup⟩

theorem execLoadGlobalTail (step : ExecLoadGlobalTail s s' nodeId) : ShardInv s' ctail gtail := by
  obtain ⟨_, _, _, found, tail, rfl⟩ := step
  obtain rfl := Option.mem_unique inv.gtail_eq tail
  obtain ⟨_, storedEq⟩ := inv.exists_stored found
  obtain ⟨rfl, -, leGtail, range, placed, nodup⟩ := inv.combiners storedEq found
  exact inv.insert_combiner storedEq found rfl (fun _ inside => inside)
    ⟨le_rfl, le_rfl, leGtail, Nat.zero_le _, range, fun idx atLeast below => by omega, placed,
      fun _ _ below => absurd below (Nat.not_lt_zero _), nodup⟩

theorem updateCompletedNoChange (step : UpdateCompletedNoChange s s' nodeId) :
    ShardInv s' ctail gtail := by
  obtain ⟨_, _, found, tail, rfl⟩ := step
  obtain rfl := Option.mem_unique inv.gtail_eq tail
  obtain ⟨_, storedEq⟩ := inv.exists_stored found
  obtain ⟨rfl, -⟩ := inv.combiners storedEq found
  exact inv.insert_combiner storedEq found rfl (by simp [CombinerState.queuedOps])
    ⟨le_rfl, fun idx atLeast below => by omega⟩

theorem raise_ctail {ctail' : Nat} (atLeast : ctail ≤ ctail') (atMost : ctail' ≤ gtail) :
    ShardInv { s with ctail := some ctail' } ctail' gtail := by
  refine { inv with
    ctail_eq := rfl
    ctail_le := atMost
    stored_le := fun found => (inv.stored_le found).trans atLeast
    reads := ?_
    combiners := ?_
    updates := ?_ }
  · intro rid req found
    exact (inv.reads found).mono atLeast (fun _ _ => rfl) fun node tail tailEq =>
      ⟨tail, tailEq, le_rfl⟩
  · intro node stored state storedEq found
    exact (inv.combiners storedEq found).frame atLeast le_rfl (fun _ _ => rfl)
      (fun idx atLeast below => by omega) (fun _ _ _ _ placed => placed)
      (fun _ _ _ kept => Or.inr kept)
  · intro rid update found
    exact (inv.updates found).mono atLeast le_rfl fun _ _ => rfl

theorem updateCompletedTail (step : UpdateCompletedTail s s' nodeId) :
    ∃ ctail', ctail ≤ ctail' ∧ ShardInv s' ctail' gtail := by
  obtain ⟨_, _, localTail, _, _, found, rfl, tail, rfl⟩ := step
  obtain rfl := Option.mem_unique inv.ctail_eq tail
  obtain ⟨_, storedEq⟩ := inv.exists_stored found
  obtain ⟨leGtail, storedLe, -, -, range, foreign, -, _, nodup⟩ := inv.combiners storedEq found
  have ctailLe := inv.ctail_le
  set ctail' := if ctail < localTail then localTail else ctail with ctail'Eq
  have bounds : ctail ≤ ctail' ∧ localTail ≤ ctail' ∧ ctail' ≤ gtail := by
    rw [ctail'Eq]
    split <;> omega
  refine ⟨ctail', bounds.1, (inv.raise_ctail bounds.1 bounds.2.2).insert_combiner storedEq found rfl
    (fun _ inside => inside) ⟨leGtail, bounds.2.1, storedLe, foreign, ?_, nodup⟩⟩
  rwa [← range.eq_length]

theorem goToCombinerReady (step : GoToCombinerReady s s' nodeId) : ShardInv s' ctail gtail := by
  obtain ⟨_, tail, stored, found, storedEq, rfl⟩ := step
  obtain ⟨leGtail, leCtail, _, foreign, done, nodup⟩ := inv.combiners storedEq found
  -- First the local tail is stored, and then the combiner is ready.
  have sameTails : getLocalTail { s with localTails := s.localTails.insert nodeId tail } =
      getLocalTail s := by
    funext other
    by_cases isNode : other = nodeId
    · simp [isNode, getLocalTail, storedEq, found, CombinerState.logicalTail]
    · simp [isNode, getLocalTail]
  have storedInv :
      ShardInv { s with localTails := s.localTails.insert nodeId tail } ctail gtail := by
    refine { inv with
      localTails_keys := ?_
      stored_le := ?_
      reads := ?_
      combiners := ?_
      replicas := ?_ }
    · rw [FiniteMap.support_insert_of_lookup storedEq]
      exact inv.localTails_keys
    · intro other stored' storedEq'
      by_cases isNode : other = nodeId
      · obtain rfl : tail = stored' := by simpa [isNode] using storedEq'
        exact leCtail
      · exact inv.stored_le (by simpa [isNode] using storedEq')
    · rw [sameTails]
      exact inv.reads
    · intro other stored' state storedEq' foundState
      by_cases isNode : other = nodeId
      · subst isNode
        obtain rfl : tail = stored' := by simpa using storedEq'
        obtain rfl := Option.mem_unique found foundState
        exact ⟨leGtail, leCtail, le_rfl, foreign, done, nodup⟩
      · exact inv.combiners (by simpa [isNode] using storedEq') foundState
    · rw [sameTails]
      exact inv.replicas
  have tailEq : (s.localTails.insert nodeId tail).lookup nodeId = some tail := by simp
  exact storedInv.insert_combiner tailEq found rfl (by simp [CombinerState.queuedOps])
    ⟨leGtail, foreign⟩

theorem of_localUpdates (rid : RequestId)
    (same : ∀ other, other ≠ rid → localUpdates.lookup other = s.localUpdates.lookup other)
    (queued : ∀ {node state}, s.combiner.lookup node = some state → rid ∈ state.queuedOps →
      (∀ placedNode idx, s.localUpdates.lookup rid ≠ some (.updatePlaced placedNode idx)) ∧
        ∀ update, localUpdates.lookup rid = some update → update.result?.isSome)
    (new : ∀ update, localUpdates.lookup rid = some update → UpdateInv s.log ctail gtail update) :
    ShardInv { s with localUpdates } ctail gtail := by
  refine { inv with combiners := ?_, updates := ?_ }
  · intro node stored state storedEq found
    refine (inv.combiners storedEq found).frame le_rfl le_rfl (fun _ _ => rfl)
      (fun idx atLeast below => by omega) ?_ ?_
    · intro other inside placedNode idx placed
      by_cases isRid : other = rid
      · subst isRid
        exact absurd placed ((queued found inside).1 placedNode idx)
      · rwa [same other isRid]
    · intro other inside update foundUpdate
      by_cases isRid : other = rid
      · subst isRid
        exact Or.inl ((queued found inside).2 update foundUpdate)
      · exact Or.inr (same other isRid ▸ foundUpdate)
  · intro other update found
    by_cases isRid : other = rid
    · exact new update (isRid ▸ found)
    · exact inv.updates (same other isRid ▸ found)

theorem updateRequestDone {requestId : RequestId} (step : UpdateRequestDone s s' requestId) :
    ShardInv s' ctail gtail := by
  obtain ⟨ret, idx, _, found, tail, complete, rfl⟩ := step
  obtain rfl := Option.mem_unique inv.ctail_eq tail
  refine inv.of_localUpdates requestId (fun other isOther => by simp [isOther]) ?_ ?_
  · intro node state _ _
    simp [found, UpdateState.result?]
  · intro update foundUpdate
    obtain rfl : .updateDone ret idx = update := by simpa using foundUpdate
    obtain ⟨idxLt, result⟩ := inv.updates found
    exact ⟨idxLt, complete, result⟩

/-- The combiner of a node applies the entry at its local tail to the replica. -/
theorem dispatch {queuedOps : List RequestId} {queueIndex queueIndex' localTail globalTail : Nat}
    {entry : LogEntry nrifc}
    (found : s.combiner.lookup nodeId = some (.combiner queuedOps queueIndex localTail globalTail))
    (replicaEq : s.replicas.lookup nodeId = some replica)
    (logged : s.log.lookup localTail = some entry)
    (own : ∀ {stored}, s.localTails.lookup nodeId = some stored →
      CombinerInv s.log localUpdates ctail gtail nodeId stored
        (.combiner queuedOps queueIndex' (localTail + 1) globalTail))
    (others : ∀ {other stored state}, other ≠ nodeId → s.localTails.lookup other = some stored →
      s.combiner.lookup other = some state →
        CombinerInv s.log localUpdates ctail gtail other stored state)
    (updates : ∀ {rid update}, localUpdates.lookup rid = some update →
      UpdateInv s.log ctail gtail update) :
    ShardInv { s with
      combiner := s.combiner.insert nodeId
        (.combiner queuedOps queueIndex' (localTail + 1) globalTail)
      replicas := s.replicas.insert nodeId (nrifc.update replica entry.op).newState
      localUpdates } ctail gtail := by
  obtain ⟨stored, storedEq⟩ := inv.exists_stored found
  have newTail : ∀ other, getLocalTail { s with
      combiner := s.combiner.insert nodeId
        (.combiner queuedOps queueIndex' (localTail + 1) globalTail)
      replicas := s.replicas.insert nodeId (nrifc.update replica entry.op).newState
      localUpdates } other =
        if other = nodeId then some (localTail + 1) else getLocalTail s other := by
    intro other
    by_cases isNode : other = nodeId
    · simp [isNode, getLocalTail, storedEq, CombinerState.logicalTail]
    · simp [isNode, getLocalTail]
  have oldTail : getLocalTail s nodeId = some localTail := getLocalTail_eq_some storedEq found
  refine { inv with
    localTails_keys := ?_
    combiner_keys := ?_
    replicas_nonempty := ?_
    reads := ?_
    combiners := ?_
    updates := updates
    ridsDistinct := ?_
    replicas := ?_ }
  · rw [FiniteMap.support_insert_of_lookup replicaEq]
    exact inv.localTails_keys
  · rw [FiniteMap.support_insert_of_lookup replicaEq, FiniteMap.support_insert_of_lookup found]
    exact inv.combiner_keys
  · rw [FiniteMap.support_insert_of_lookup replicaEq]
    exact inv.replicas_nonempty
  · intro rid req foundReq
    refine (inv.reads foundReq).mono le_rfl (fun _ _ => rfl) fun node tail tailEq => ?_
    rw [newTail]
    by_cases isNode : node = nodeId
    · rw [isNode, oldTail, Option.some.injEq] at tailEq
      exact ⟨localTail + 1, if_pos isNode, by omega⟩
    · exact ⟨tail, by rw [if_neg isNode, tailEq], le_rfl⟩
  · intro other stored' state storedEq' foundState
    by_cases isNode : other = nodeId
    · subst isNode
      obtain rfl : .combiner queuedOps queueIndex' (localTail + 1) globalTail = state := by
        simpa using foundState
      exact own storedEq'
    · exact others isNode storedEq' (by simpa [isNode] using foundState)
  · intro node node' state state' rid distinct foundState foundState'
    have before : ∀ {node state}, (s.combiner.insert nodeId
        (.combiner queuedOps queueIndex' (localTail + 1) globalTail)).lookup node = some state →
          ∃ state₀, s.combiner.lookup node = some state₀ ∧ state₀.queuedOps = state.queuedOps := by
      intro node state foundState
      by_cases isNode : node = nodeId
      · obtain rfl : .combiner queuedOps queueIndex' (localTail + 1) globalTail = state := by
          simpa [isNode] using foundState
        exact ⟨.combiner queuedOps queueIndex localTail globalTail, isNode ▸ found, rfl⟩
      · exact ⟨state, by simpa [isNode] using foundState, rfl⟩
    obtain ⟨state₀, found₀, same₀⟩ := before foundState
    obtain ⟨_, found₁, same₁⟩ := before foundState'
    rw [← same₀, ← same₁]
    exact inv.ridsDistinct distinct found₀ found₁
  · intro node replica' foundReplica
    rw [newTail]
    by_cases isNode : node = nodeId
    · obtain rfl : (nrifc.update replica entry.op).newState = replica' := by
        simpa [isNode] using foundReplica
      exact ⟨localTail + 1, if_pos isNode,
        stateAtVersion_succ (inv.replica_of_combiner replicaEq storedEq found) logged⟩
    · rw [if_neg isNode]
      exact inv.replicas (by simpa [isNode] using foundReplica)

theorem execDispatchRemote (step : ExecDispatchRemote s s' nodeId) : ShardInv s' ctail gtail := by
  obtain ⟨_, _, _, _, _, _, found, below, replicaEq, logged, isRemote, rfl⟩ := step
  refine inv.dispatch found replicaEq logged ?_ ?_ inv.updates
  · intro stored storedEq
    obtain ⟨leGtail, _, -, indexLe, range, foreign, placed, done, nodup⟩ :=
      inv.combiners storedEq found
    exact ⟨leGtail, by omega, below, indexLe, range.next_foreign below logged isRemote, foreign,
      placed, done, nodup⟩
  · intro other stored state _ storedEq foundState
    exact inv.combiners storedEq foundState

theorem execDispatchLocal (step : ExecDispatchLocal s s' nodeId) : ShardInv s' ctail gtail := by
  obtain ⟨queuedOps, queueIndex, localTail, _, replica, entry, rid, _, _, found, below, replicaEq,
    logged, isLocal, queued, _, rfl⟩ := step
  obtain ⟨_, storedEq⟩ := inv.exists_stored found
  obtain ⟨leGtail, _, -, _, range, foreign, placed, done, nodup⟩ := inv.combiners storedEq found
  obtain ⟨rid', _, queued', placedAt, rest⟩ := range.next_own below logged isLocal
  obtain rfl := Option.mem_unique queued' queued
  have indexLt : queueIndex < queuedOps.length := (List.getElem?_eq_some_iff.mp queued).1
  have onlyAt : ∀ index, queuedOps[index]? = some rid' → index = queueIndex := by
    intro index atIndex
    exact (List.getElem?_inj (List.getElem?_eq_some_iff.mp atIndex).1 nodup).mp
      (atIndex.trans queued.symm)
  refine inv.dispatch found replicaEq logged ?_ ?_ ?_
  · intro stored' storedEq'
    obtain rfl := Option.mem_unique storedEq storedEq'
    refine ⟨leGtail, by omega, below, indexLt, rest.mono (fun _ _ => rfl) ?_,
      foreign, ?_, ?_, nodup⟩
    · intro other _ otherNode idx atLeast otherPlaced
      have isOther : other ≠ rid' := by
        rintro rfl
        rw [placedAt, Option.some.injEq, UpdateState.updatePlaced.injEq] at otherPlaced
        omega
      simpa [isOther] using otherPlaced
    · intro index other atLeast atIndex
      have isOther : other ≠ rid' := by
        rintro rfl
        have := onlyAt index atIndex
        omega
      simpa [isOther] using placed index other (by omega) atIndex
    · intro index other indexBelow atIndex update foundUpdate
      by_cases isRid : other = rid'
      · obtain rfl : .updateApplied _ localTail = update := by simpa [isRid] using foundUpdate
        rfl
      · have notAt : index ≠ queueIndex := by
          rintro rfl
          exact isRid (Option.mem_unique atIndex queued)
        exact done index other (by omega) atIndex update (by simpa [isRid] using foundUpdate)
  · intro other stored' state isOtherNode storedEq' foundState
    have notQueued : ∀ rid ∈ state.queuedOps, rid ≠ rid' := by
      rintro rid inside rfl
      exact inv.ridsDistinct isOtherNode foundState found inside (List.mem_of_getElem? queued)
    refine (inv.combiners storedEq' foundState).frame le_rfl le_rfl (fun _ _ => rfl)
      (fun idx atLeast below => by omega) ?_ ?_
    · intro rid inside otherNode idx otherPlaced
      simpa [notQueued rid inside] using otherPlaced
    · intro rid inside update foundUpdate
      exact Or.inr (by simpa [notQueued rid inside] using foundUpdate)
  · intro rid update foundUpdate
    by_cases isRid : rid = rid'
    · obtain rfl : .updateApplied _ localTail = update := by simpa [isRid] using foundUpdate
      exact ⟨by omega, replica, entry, inv.replica_of_combiner replicaEq storedEq found,
        logged, rfl⟩
    · exact inv.updates (by simpa [isRid] using foundUpdate)

end ShardInv

/-- What a batch of requests adds to the log and does to the updates. -/
structure Appended (s s' : Shard nrifc) (gtail nodeId : Nat) (requestIds : List RequestId) :
    Prop where
  sameLog : ∀ idx < gtail, s'.log.lookup idx = s.log.lookup idx
  entry : ∀ index rid, requestIds[index]? = some rid → ∃ entry,
    s'.log.lookup (gtail + index) = some entry ∧ entry.nodeId = nodeId ∧
      s.localUpdates.lookup rid = some (.updateInit entry.op)
  pastEnd : ∀ idx, gtail + requestIds.length ≤ idx → s'.log.lookup idx = none
  placed : ∀ index rid, requestIds[index]? = some rid →
    s'.localUpdates.lookup rid = some (.updatePlaced nodeId (gtail + index))
  kept : ∀ rid, rid ∉ requestIds → s'.localUpdates.lookup rid = s.localUpdates.lookup rid

variable {requestIds : List RequestId}

theorem advanceTail_appended (inv : ShardInv s ctail gtail)
    (step : AdvanceTail s s' nodeId requestIds) : Appended s s' gtail nodeId requestIds := by
  obtain ⟨_, _, tail, wanted, nodup, rfl⟩ := step
  obtain rfl := Option.mem_unique inv.gtail_eq tail
  have pastEnd : ∀ idx, gtail ≤ idx → s.log.lookup idx = none := by
    intro idx atLeast
    rw [← Option.not_isSome_iff_eq_none, inv.log_isSome]
    omega
  have noEntry : ∀ idx, idx < gtail ∨ gtail + requestIds.length ≤ idx →
      (constructNewLogEntries requestIds nodeId gtail s.localUpdates).lookup idx = none := by
    intro idx outside
    refine Option.eq_none_iff_forall_ne_some.mpr fun entry logged => ?_
    obtain ⟨index, rid, rfl, atIndex, -⟩ := lookup_constructNewLogEntries.mp logged
    have := (List.getElem?_eq_some_iff.mp atIndex).1
    omega
  refine ⟨fun idx below => ?_, fun index rid atIndex => ?_, fun idx atLeast => ?_,
    fun index rid atIndex => ?_, fun rid outside => ?_⟩
  · rw [FiniteMap.lookup_mapUpdate, noEntry idx (Or.inl below), Option.none_or]
  · obtain ⟨op, opEq⟩ := wanted rid (List.mem_of_getElem? atIndex)
    have logged : (constructNewLogEntries requestIds nodeId gtail s.localUpdates).lookup
        (gtail + index) = some ⟨op, nodeId⟩ :=
      lookup_constructNewLogEntries.mpr ⟨index, rid, rfl, atIndex, opEq, rfl⟩
    exact ⟨⟨op, nodeId⟩, by rw [FiniteMap.lookup_mapUpdate, logged, Option.some_or], rfl, opEq⟩
  · rw [FiniteMap.lookup_mapUpdate, noEntry idx (Or.inr atLeast), Option.none_or]
    exact pastEnd idx (by omega)
  · have indexOf : requestIds.idxOf rid = index := by
      obtain ⟨below, atEq⟩ := List.getElem?_eq_some_iff.mp atIndex
      rw [← atEq]
      exact nodup.idxOf_getElem index below
    rw [FiniteMap.lookup_mapUpdate, lookup_constructLocalUpdateMap,
      if_pos (List.mem_of_getElem? atIndex), indexOf, Option.some_or]
  · rw [FiniteMap.lookup_mapUpdate, lookup_constructLocalUpdateMap, if_neg outside, Option.none_or]

theorem Appended.range (appended : Appended s s' gtail nodeId requestIds) {index : Nat}
    (atMost : index ≤ requestIds.length) :
    LogRangeMatchesQueue requestIds s'.log nodeId s'.localUpdates (gtail + requestIds.length)
      index (gtail + index) := by
  induction atMost using Nat.decreasingInduction with
  | self => exact .done
  | of_succ index below ih =>
    have atIndex : requestIds[index]? = some requestIds[index] := List.getElem?_eq_getElem below
    obtain ⟨_, logged, isOwn, -⟩ := appended.entry index _ atIndex
    exact .own (by omega) logged isOwn atIndex (appended.placed index _ atIndex) ih

theorem Appended.foreign {other : Nat} (appended : Appended s s' gtail nodeId requestIds)
    (isOther : other ≠ nodeId) :
    LogRangeNoNodeId s'.log gtail (gtail + requestIds.length) other := by
  intro idx atLeast below
  have atIndex : requestIds[idx - gtail]? = some (requestIds.get ⟨idx - gtail, by omega⟩) :=
    List.getElem?_eq_getElem (by omega)
  obtain ⟨entry, logged, isNode, -⟩ := appended.entry _ _ atIndex
  rw [Nat.add_sub_cancel' atLeast] at logged
  exact ⟨entry, logged, by rw [isNode]; exact isOther.symm⟩

theorem ShardInv.advanceTail (inv : ShardInv s ctail gtail)
    (step : AdvanceTail s s' nodeId requestIds) :
    ShardInv s' ctail (gtail + requestIds.length) := by
  have appended := advanceTail_appended inv step
  obtain ⟨_, found, tail, wanted, nodup, eq⟩ := step
  obtain rfl := Option.mem_unique inv.gtail_eq tail
  obtain ⟨_, storedEq⟩ := inv.exists_stored found
  obtain ⟨storedLe, foreign⟩ := inv.combiners storedEq found
  have ctailLe := inv.ctail_le
  have combinerEq : s'.combiner = s.combiner.insert nodeId (.combinerPlaced requestIds) := by
    rw [eq]
  have readsEq : s'.localReads = s.localReads := by rw [eq]
  have tailsEq : s'.localTails = s.localTails := by rw [eq]
  have replicasEq : s'.replicas = s.replicas := by rw [eq]
  have notQueued : ∀ {node state}, s.combiner.lookup node = some state →
      ∀ rid ∈ state.queuedOps, rid ∉ requestIds := by
    intro node state foundState rid inside inBatch
    obtain ⟨_, isInit⟩ := wanted rid inBatch
    obtain ⟨stored', storedEq'⟩ := inv.exists_stored foundState
    exact (inv.combiners storedEq' foundState).not_init inside isInit
  have sameTails : getLocalTail s' = getLocalTail s := by
    funext other
    by_cases isNode : other = nodeId
    · simp [isNode, getLocalTail, tailsEq, combinerEq, storedEq, found, CombinerState.logicalTail]
    · simp [isNode, getLocalTail, tailsEq, combinerEq]
  have foundBefore : ∀ {node state}, s'.combiner.lookup node = some state →
      (node = nodeId ∧ state = .combinerPlaced requestIds) ∨
        (node ≠ nodeId ∧ s.combiner.lookup node = some state) := by
    intro node state foundState
    rwa [combinerEq, FiniteMap.lookup_insert_eq_some, eq_comm (b := state)] at foundState
  refine ⟨?_, ?_, ?_, ?_, ?_, by omega, ?_, ?_, ?_, ?_, ?_, ?_, ?_⟩
  · rw [eq]
    exact inv.ctail_eq
  · rw [eq]
  · rw [tailsEq, replicasEq]
    exact inv.localTails_keys
  · rw [combinerEq, replicasEq, FiniteMap.support_insert_of_lookup found]
    exact inv.combiner_keys
  · rw [replicasEq]
    exact inv.replicas_nonempty
  · rw [tailsEq]
    exact inv.stored_le
  · intro rid req foundReq
    rw [readsEq] at foundReq
    rw [sameTails]
    exact (inv.reads foundReq).mono le_rfl (fun idx below => appended.sameLog idx (by omega))
      fun node tail tailEq => ⟨tail, tailEq, le_rfl⟩
  · intro node stored' state storedEq' foundState
    rw [tailsEq] at storedEq'
    obtain ⟨rfl, rfl⟩ | ⟨isOther, foundState⟩ := foundBefore foundState
    · obtain rfl := Option.mem_unique storedEq storedEq'
      refine ⟨by omega, .of_noNodeId storedLe (foreign.mono appended.sameLog)
        (appended.range (Nat.zero_le _)), ?_, nodup⟩
      intro index rid _ atIndex
      exact ⟨_, _, appended.placed index rid atIndex⟩
    · refine (inv.combiners storedEq' foundState).frame le_rfl (by omega) appended.sameLog
        (appended.foreign isOther) ?_ ?_
      · intro rid inside placedNode idx placed
        rwa [appended.kept rid (notQueued foundState rid inside)]
      · intro rid inside update foundUpdate
        rw [appended.kept rid (notQueued foundState rid inside)] at foundUpdate
        exact Or.inr foundUpdate
  · intro idx
    obtain below | atLeast := lt_or_ge idx gtail
    · rw [appended.sameLog idx below, inv.log_isSome]
      omega
    · by_cases inside : idx < gtail + requestIds.length
      · have atIndex : requestIds[idx - gtail]? = some (requestIds.get ⟨idx - gtail, by omega⟩) :=
          List.getElem?_eq_getElem (by omega)
        obtain ⟨_, logged, -⟩ := appended.entry _ _ atIndex
        rw [Nat.add_sub_cancel' atLeast] at logged
        simp [logged, inside]
      · simp [appended.pastEnd idx (by omega), inside]
  · intro rid update foundUpdate
    by_cases inBatch : rid ∈ requestIds
    · obtain ⟨index, atIndex⟩ := List.mem_iff_getElem?.mp inBatch
      have indexLt := (List.getElem?_eq_some_iff.mp atIndex).1
      obtain rfl := Option.mem_unique (appended.placed index rid atIndex) foundUpdate
      exact Nat.add_lt_add_left indexLt gtail
    · rw [appended.kept rid inBatch] at foundUpdate
      exact (inv.updates foundUpdate).mono le_rfl (by omega) appended.sameLog
  · intro node node' state state' rid distinct foundState foundState' inside
    obtain ⟨rfl, rfl⟩ | ⟨-, foundState⟩ := foundBefore foundState
    · obtain ⟨rfl, -⟩ | ⟨-, foundState'⟩ := foundBefore foundState'
      · exact absurd rfl distinct
      · exact fun inside' => notQueued foundState' rid inside' inside
    · obtain ⟨rfl, rfl⟩ | ⟨-, foundState'⟩ := foundBefore foundState'
      · exact notQueued foundState rid inside
      · exact inv.ridsDistinct distinct foundState foundState' inside
  · intro node replica foundReplica
    rw [replicasEq] at foundReplica
    obtain ⟨tail, tailEq, replicaAt⟩ := inv.replicas foundReplica
    rw [sameTails]
    refine ⟨tail, tailEq, ?_⟩
    have tailLe : tail ≤ gtail := by
      simp only [getLocalTail, Option.bind_eq_bind, Option.bind_eq_some_iff, Option.pure_def,
        Option.some.injEq] at tailEq
      obtain ⟨stored', storedEq', state, foundState, rfl⟩ := tailEq
      exact (inv.combiners storedEq' foundState).logicalTail_le
    rw [stateAtVersion_congr fun idx below => appended.sameLog idx (by omega), replicaAt]

end VerifiedBetrfs.InfiniteLog
