import VerifiedBetrfs.InfiniteLogSteps
import VerifiedBetrfs.NRLinearize

/-!
# The unbounded log refines the simple one

Every step of any shard, in any context, is a step of the machine with one log.
-/

namespace VerifiedBetrfs.InfiniteLog

variable {nrifc : NRIfc}

def iReadRequest : ReadonlyState nrifc → NRSimple.ReadReq nrifc
  | .readonlyInit op => .readInit op
  | .readonlyCtail op ctail => .readReq ctail op
  | .readonlyReadyToRead op _ ctail => .readReq ctail op
  | .readonlyDone op _ _ ctail => .readReq ctail op

def iUpdateResponse? : UpdateState nrifc → Option NRSimple.UpdateResp
  | .updateInit _ => none
  | .updatePlaced _ idx | .updateApplied _ idx | .updateDone _ idx => some ⟨idx⟩

def iLog (gtail : Nat) (log : FiniteMap Nat (LogEntry nrifc)) : List nrifc.UpdateOp :=
  (List.range gtail).filterMap fun idx => (log.lookup idx).map LogEntry.op

/-- The invariant says that both tails are there. -/
def interpShard (s : Shard nrifc) : NRSimple.Variables nrifc where
  log := iLog (s.globalTail.getD 0) s.log
  ctail := s.ctail.getD 0
  readonlyReqs := s.localReads.filterMap fun req => some (iReadRequest req)
  updateReqs := s.localUpdates.filterMap UpdateState.initOp?
  updateResps := s.localUpdates.filterMap iUpdateResponse?

/-- The state of the machine with one log. -/
def interp : M nrifc → NRSimple.Variables nrifc
  | some s => interpShard s
  | none => interpShard Shard.unit

theorem getElem?_iLog {gtail : Nat} {log : FiniteMap Nat (LogEntry nrifc)}
    (present : ∀ idx < gtail, (log.lookup idx).isSome) :
    (iLog gtail log).length = gtail ∧
      ∀ idx < gtail, (iLog gtail log)[idx]? = (log.lookup idx).map LogEntry.op := by
  induction gtail with
  | zero => simp [iLog]
  | succ gtail ih =>
    obtain ⟨lengthEq, getEq⟩ := ih fun idx below => present idx (by omega)
    obtain ⟨entry, logged⟩ := Option.isSome_iff_exists.mp (present gtail (by omega))
    have eq : iLog (gtail + 1) log = iLog gtail log ++ [entry.op] := by
      simp [iLog, List.range_succ, logged]
    refine ⟨by simp [eq, lengthEq], fun idx below => ?_⟩
    obtain inside | rfl := Nat.lt_succ_iff_lt_or_eq.mp below
    · rw [eq, List.getElem?_append_left (by omega), getEq idx inside]
    · rw [eq, List.getElem?_append_right (by omega), lengthEq, logged]
      simp

namespace ShardInv

variable {s : Shard nrifc} {ctail gtail : Nat} (inv : ShardInv s ctail gtail)

include inv

theorem interp_ctail : (interpShard s).ctail = ctail := by
  simp [interpShard, inv.ctail_eq]

theorem length_interp_log : (interpShard s).log.length = gtail := by
  simp only [interpShard, inv.gtail_eq, Option.getD_some]
  exact (getElem?_iLog fun idx below => (inv.log_isSome idx).mpr below).1

theorem getElem?_interp_log (idx : Nat) :
    (interpShard s).log[idx]? = (s.log.lookup idx).map LogEntry.op := by
  obtain below | atLeast := lt_or_ge idx gtail
  · simp only [interpShard, inv.gtail_eq, Option.getD_some]
    exact (getElem?_iLog fun idx below => (inv.log_isSome idx).mpr below).2 idx below
  · have absent : s.log.lookup idx = none := by
      rw [← Option.not_isSome_iff_eq_none, inv.log_isSome]
      omega
    rw [List.getElem?_eq_none (inv.length_interp_log ▸ atLeast), absent]
    rfl

theorem stateAtVersion_interp (version : Nat) :
    NRSimple.stateAtVersion (interpShard s).log version = stateAtVersion s.log version :=
  NRIfc.stateAtVersion_congr fun idx _ => inv.getElem?_interp_log idx

end ShardInv

section Steps

variable {s s' : Shard nrifc} {ctail gtail nodeId : Nat} (inv : ShardInv s ctail gtail)

include inv

variable {rid : RequestId}

theorem interp_readCtail (step : TransitionReadonlyReadCtail s s' rid) :
    NRSimple.ReadCtail (interpShard s) (interpShard s') rid := by
  obtain ⟨op, _, found, tail, rfl⟩ := step
  obtain rfl := Option.mem_unique inv.ctail_eq tail
  refine ⟨op, by simp [interpShard, found, iReadRequest], ?_⟩
  have readsEq : (s.localReads.insert rid (.readonlyCtail op ctail)).filterMap
      (fun req => some (iReadRequest req)) =
      (s.localReads.filterMap fun req => some (iReadRequest req)).insert rid (.readReq ctail op) :=
    FiniteMap.filterMap_insert_of_some rfl
  simp only [interpShard, readsEq, inv.ctail_eq, Option.getD_some]

omit inv in
theorem interp_insert_localReads {req req' : ReadonlyState nrifc}
    (found : s.localReads.lookup rid = some req) (same : iReadRequest req' = iReadRequest req) :
    interpShard { s with localReads := s.localReads.insert rid req' } = interpShard s := by
  have readsEq : (s.localReads.insert rid req').filterMap (fun req => some (iReadRequest req)) =
      s.localReads.filterMap fun req => some (iReadRequest req) :=
    FiniteMap.filterMap_insert_of_eq found (by rw [same])
  simp only [interpShard, readsEq]

omit inv in
theorem interp_insert_localUpdates {update update' : UpdateState nrifc}
    (found : s.localUpdates.lookup rid = some update) (sameOp : update'.initOp? = update.initOp?)
    (sameResponse : iUpdateResponse? update' = iUpdateResponse? update) :
    interpShard { s with localUpdates := s.localUpdates.insert rid update' } = interpShard s := by
  simp only [interpShard]
  rw [FiniteMap.filterMap_insert_of_eq found sameOp,
    FiniteMap.filterMap_insert_of_eq found sameResponse]

theorem interp_execDispatchLocal (step : ExecDispatchLocal s s' nodeId) :
    interpShard s' = interpShard s := by
  obtain ⟨_, _, _, _, _, _, _, _, _, found, below, _, logged, isLocal, queued, _, rfl⟩ := step
  obtain ⟨_, storedEq⟩ := inv.exists_stored found
  obtain ⟨-, -, -, -, range, -⟩ := inv.combiners storedEq found
  obtain ⟨_, _, queued', placedAt, -⟩ := range.next_own below logged isLocal
  obtain rfl := Option.mem_unique queued' queued
  exact interp_insert_localUpdates placedAt rfl rfl

theorem interp_updateCompletedTail (step : UpdateCompletedTail s s' nodeId) :
    ∃ newCtail, NRSimple.IncreaseCtail (interpShard s) (interpShard s') newCtail := by
  obtain ⟨ctail', _, inv'⟩ := inv.updateCompletedTail step
  obtain ⟨_, _, _, _, _, _, rfl, _, rfl⟩ := step
  refine ⟨ctail', ?_, ?_, ?_⟩
  · rwa [inv.interp_ctail]
  · rw [inv.length_interp_log]
    exact inv'.ctail_le
  · rw [← inv'.interp_ctail]
    rfl

theorem interp_advanceTail {requestIds : List RequestId}
    (step : AdvanceTail s s' nodeId requestIds) :
    NRSimple.AddUpdateToLog (interpShard s) (interpShard s') requestIds := by
  have inv' := inv.advanceTail step
  have appended := advanceTail_appended inv step
  obtain ⟨_, _, tail, wanted, nodup, eq⟩ := step
  obtain ⟨entries, constructed⟩ :=
      NRSimple.exists_constructNewLogEntries fun rid (inside : rid ∈ requestIds) =>
        show ∃ op, (interpShard s).updateReqs.lookup rid = some op by
          obtain ⟨op, isInit⟩ := wanted rid inside
          exact ⟨op, by simp [interpShard, isInit, UpdateState.initOp?]⟩
  obtain ⟨_, getEntry⟩ := NRSimple.getElem?_constructNewLogEntries constructed
  have logEq : (interpShard s').log = (interpShard s).log ++ entries := by
    refine List.ext_getElem? fun idx => ?_
    rw [inv'.getElem?_interp_log]
    obtain below | atLeast := lt_or_ge idx gtail
    · rw [List.getElem?_append_left (inv.length_interp_log ▸ below), inv.getElem?_interp_log,
        appended.sameLog idx below]
    · obtain ⟨index, rfl⟩ := Nat.exists_eq_add_of_le atLeast
      rw [List.getElem?_append_right (inv.length_interp_log ▸ atLeast), inv.length_interp_log,
        Nat.add_sub_cancel_left, getEntry]
      cases atIndex : requestIds[index]? with
      | none =>
        rw [appended.pastEnd _ (by have := List.getElem?_eq_none_iff.mp atIndex; omega)]
        rfl
      | some rid =>
        obtain ⟨_, logged, -, isInit⟩ := appended.entry index rid atIndex
        simp [logged, interpShard, isInit, UpdateState.initOp?]
  have reqsEq : (interpShard s').updateReqs = (interpShard s).updateReqs.mapFilter requestIds := by
    ext1 rid
    by_cases inBatch : rid ∈ requestIds
    · obtain ⟨index, atIndex⟩ := List.mem_iff_getElem?.mp inBatch
      simp [interpShard, inBatch, appended.placed index rid atIndex, UpdateState.initOp?]
    · simp [interpShard, inBatch, appended.kept rid inBatch]
  have respsEq : (interpShard s').updateResps = (interpShard s).updateResps.mapUpdate
      (NRSimple.constructUpdateResponses requestIds (interpShard s).log.length) := by
    ext1 rid
    rw [FiniteMap.lookup_mapUpdate, inv.length_interp_log]
    by_cases inBatch : rid ∈ requestIds
    · obtain ⟨index, atIndex⟩ := List.mem_iff_getElem?.mp inBatch
      rw [(NRSimple.lookup_constructUpdateResponses nodup gtail rid ⟨gtail + index⟩).mpr
        ⟨index, atIndex, rfl⟩]
      simp [interpShard, appended.placed index rid atIndex, iUpdateResponse?]
    · rw [(NRSimple.lookup_constructUpdateResponses_eq_none nodup gtail).mpr inBatch]
      simp [interpShard, appended.kept rid inBatch]
  refine ⟨nodup, entries, constructed, ?_⟩
  rw [← logEq, ← reqsEq, ← respsEq, eq]
  rfl

end Steps

variable {ctail gtail : Nat}

theorem nextStep_refines {s s' : Shard nrifc} (inv : ShardInv s ctail gtail) {step : Step}
    (next : NextStep s s' step) :
    (∃ ctail' gtail', ShardInv s' ctail' gtail') ∧
      NRSimple.Next (interpShard s) (interpShard s') .internalOp := by
  cases step with
  | goToCombinerReady nodeId =>
    refine ⟨⟨_, _, inv.goToCombinerReady next⟩, .stutter, rfl, ?_⟩
    obtain ⟨_, _, _, _, _, rfl⟩ := next
    rfl
  | execLoadLtail nodeId =>
    refine ⟨⟨_, _, inv.execLoadLtail next⟩, .stutter, rfl, ?_⟩
    obtain ⟨_, _, _, _, rfl⟩ := next
    rfl
  | execLoadGlobalTail nodeId =>
    refine ⟨⟨_, _, inv.execLoadGlobalTail next⟩, .stutter, rfl, ?_⟩
    obtain ⟨_, _, _, _, _, rfl⟩ := next
    rfl
  | execDispatchLocal nodeId =>
    exact ⟨⟨_, _, inv.execDispatchLocal next⟩, .stutter, rfl, interp_execDispatchLocal inv next⟩
  | execDispatchRemote nodeId =>
    refine ⟨⟨_, _, inv.execDispatchRemote next⟩, .stutter, rfl, ?_⟩
    obtain ⟨_, _, _, _, _, _, _, _, _, _, _, rfl⟩ := next
    rfl
  | transitionReadonlyReadCtail rid =>
    exact ⟨⟨_, _, inv.readCtail next⟩, .readCtail rid, rfl, interp_readCtail inv next⟩
  | transitionReadonlyReadyToRead nodeId rid =>
    refine ⟨⟨_, _, inv.readyToRead next⟩, .stutter, rfl, ?_⟩
    obtain ⟨_, _, _, found, -, -, rfl⟩ := next
    exact interp_insert_localReads found rfl
  | transitionReadonlyDone rid =>
    refine ⟨⟨_, _, inv.readDone next⟩, .stutter, rfl, ?_⟩
    obtain ⟨_, _, _, _, found, -, -, rfl⟩ := next
    exact interp_insert_localReads found rfl
  | updateCompletedTail nodeId =>
    obtain ⟨ctail', -, inv'⟩ := inv.updateCompletedTail next
    obtain ⟨newCtail, increased⟩ := interp_updateCompletedTail inv next
    exact ⟨⟨_, _, inv'⟩, .increaseCtail newCtail, rfl, increased⟩
  | trivialStart nodeId =>
    refine ⟨⟨_, _, inv.trivialStart next⟩, .stutter, rfl, ?_⟩
    obtain ⟨_, rfl⟩ := next
    rfl
  | advanceTail nodeId requestIds =>
    exact ⟨⟨_, _, inv.advanceTail next⟩, .addUpdateToLog requestIds, rfl,
      interp_advanceTail inv next⟩
  | updateRequestDone requestId =>
    refine ⟨⟨_, _, inv.updateRequestDone next⟩, .stutter, rfl, ?_⟩
    obtain ⟨_, _, _, found, -, -, rfl⟩ := next
    exact interp_insert_localUpdates found rfl rfl
  | updateCompletedNoChange nodeId =>
    refine ⟨⟨_, _, inv.updateCompletedNoChange next⟩, .stutter, rfl, ?_⟩
    obtain ⟨_, _, _, _, rfl⟩ := next
    rfl

theorem internal_refines {shard shard' rest : M nrifc} (inv : Inv (dot shard rest))
    (internal : Internal shard shard') :
    Inv (dot shard' rest) ∧
      NRSimple.Next (interp (dot shard rest)) (interp (dot shard' rest)) .internalOp := by
  obtain ⟨s, _, _, whole, inv⟩ := inv
  obtain ⟨m, m', _, rfl, rfl, next⟩ := internal
  obtain ⟨p, rfl, fits⟩ : ∃ p, rest = some p ∧ m.dot p = some s := by
    simpa [dot, Option.bind_eq_some_iff] using whole
  have pastEnd : ∀ tail, s.globalTail = some tail → ∀ idx, tail ≤ idx →
      s.log.lookup idx = none := by
    intro tail tailEq idx atLeast
    obtain rfl := Option.mem_unique inv.gtail_eq tailEq
    rw [← Option.not_isSome_iff_eq_none, inv.log_isSome]
    omega
  obtain ⟨s', next', joined'⟩ := nextStep_whole (dot_eq_some_iff.mp fits) next pastEnd
  have fits' : dot (some m') (some p) = some s' := dot_eq_some_iff.mpr joined'
  obtain ⟨⟨ctail', gtail', inv'⟩, refined⟩ := nextStep_refines inv next'
  rw [whole, fits']
  exact ⟨⟨s', ctail', gtail', rfl, inv'⟩, refined⟩

variable {s : Shard nrifc} {rid : RequestId}

theorem not_mem_requestIdsInUse (unused : rid ∉ requestIdsInUse (some s)) :
    s.localReads.lookup rid = none ∧
      s.localUpdates.lookup rid = none ∧
      ∀ {nodeId state}, s.combiner.lookup nodeId = some state → rid ∉ state.queuedOps := by
  simp only [requestIdsInUse, Finset.mem_union, not_or, FiniteMap.mem_support,
    Option.not_isSome_iff_eq_none] at unused
  obtain ⟨⟨noRead, noUpdate⟩, notQueued⟩ := unused
  refine ⟨noRead, noUpdate, fun {nodeId state} found inside => notQueued ?_⟩
  rw [combinerRequestIds, Finset.mem_biUnion]
  exact ⟨nodeId, (s.combiner.mem_support nodeId).mpr (by simp [found]), by simp [found, inside]⟩

theorem newTicket_refines (inv : ShardInv s ctail gtail) (unused : rid ∉ requestIdsInUse (some s))
    (input : nrifc.Input) :
    ∃ s', dot (some s) (ticket rid input) = some s' ∧ ShardInv s' ctail gtail ∧
      NRSimple.Next (interpShard s) (interpShard s') (.start rid input) := by
  obtain ⟨noRead, noUpdate, notQueued⟩ := not_mem_requestIdsInUse unused
  have fresh : NRSimple.Fresh (interpShard s) rid := by
    constructor <;> simp [interpShard, noRead, noUpdate]
  cases input with
  | rOp op =>
    refine ⟨{ s with localReads := s.localReads.insert rid (.readonlyInit op) },
      dot_eq_some_iff.mpr (joined_readOp_iff.mpr ⟨noRead, rfl⟩), inv.insert_localReads trivial,
      .startReadonly rid op, rfl, fresh, ?_⟩
    have readsEq : (s.localReads.insert rid (.readonlyInit op)).filterMap
        (fun req => some (iReadRequest req)) =
        (s.localReads.filterMap fun req => some (iReadRequest req)).insert rid (.readInit op) :=
      FiniteMap.filterMap_insert_of_some rfl
    simp only [interpShard, readsEq]
  | uOp op =>
    refine ⟨{ s with localUpdates := s.localUpdates.insert rid (.updateInit op) },
      dot_eq_some_iff.mpr (joined_updateOp_iff.mpr ⟨noUpdate, rfl⟩), ?_,
      .startUpdate rid op, rfl, fresh, ?_⟩
    · refine inv.of_localUpdates rid (fun other isOther => by simp [isOther])
        (fun found inside => absurd inside (notQueued found)) fun update found => ?_
      obtain rfl : .updateInit op = update := by simpa using found
      trivial
    · have reqsEq : (s.localUpdates.insert rid (.updateInit op)).filterMap UpdateState.initOp? =
          (s.localUpdates.filterMap UpdateState.initOp?).insert rid op :=
        FiniteMap.filterMap_insert_of_some rfl
      have respsEq : (s.localUpdates.insert rid (.updateInit op)).filterMap iUpdateResponse? =
          s.localUpdates.filterMap iUpdateResponse? := by
        ext1 other
        by_cases isRid : other = rid <;> simp [isRid, iUpdateResponse?, noUpdate]
      simp only [interpShard, reqsEq, respsEq]

variable {output : nrifc.ReturnType}

/-- A read ends with the result of a version it may answer at. -/
theorem consumeRead_refines {ctail gtail seen nodeId : Nat} {op : nrifc.ReadonlyOp}
    (inv : ShardInv s ctail gtail)
    (found : s.localReads.lookup rid = some (.readonlyDone op output nodeId seen)) :
    NRSimple.Next (interpShard s) (interpShard { s with localReads := s.localReads.erase rid })
      (.endOp rid output) := by
  obtain ⟨-, version, _, seenLe, _, stateEq, outputEq⟩ := inv.reads found
  have ctailLe := inv.ctail_le
  refine ⟨.finishReadonly rid version output, rfl, seen, op, by
    simp [interpShard, found, iReadRequest], seenLe, ?_, ?_, ?_, ?_⟩
  · rw [inv.length_interp_log]
    omega
  · rwa [inv.interp_ctail]
  · simp only [interpShard, FiniteMap.filterMap_erase]
  · rw [inv.stateAtVersion_interp, stateEq, outputEq]
    rfl

theorem consumeUpdate_refines {ctail gtail idx : Nat} (inv : ShardInv s ctail gtail)
    (found : s.localUpdates.lookup rid = some (.updateDone output idx)) :
    NRSimple.Next (interpShard s)
      (interpShard { s with localUpdates := s.localUpdates.erase rid }) (.endOp rid output) := by
  obtain ⟨-, _, _, entry, beforeEq, logged, outputEq⟩ := inv.updates found
  have reqsEq : (s.localUpdates.erase rid).filterMap UpdateState.initOp? =
      s.localUpdates.filterMap UpdateState.initOp? := by
    ext1 other
    by_cases isRid : other = rid <;> simp [isRid, found, UpdateState.initOp?]
  refine ⟨.endUpdate rid output, rfl, idx, entry.op, by
    simp [interpShard, found, iUpdateResponse?], ?_, ?_, ?_, ?_⟩
  · rwa [inv.interp_ctail]
  · rw [inv.getElem?_interp_log, logged]
    rfl
  · simp only [interpShard, reqsEq, FiniteMap.filterMap_erase]
  · rw [inv.stateAtVersion_interp, beforeEq, outputEq]
    rfl

theorem consumeStub_refines {m' stub : M nrifc} (inv : ShardInv s ctail gtail)
    (isStub : IsStub rid output stub) (whole : some s = dot m' stub) :
    ∃ s', m' = some s' ∧ ShardInv s' ctail gtail ∧
      NRSimple.Next (interpShard s) (interpShard s') (.endOp rid output) := by
  cases m' with
  | none => cases whole
  | some x =>
    refine ⟨x, rfl, ?_⟩
    obtain ⟨_, _, _, rfl⟩ | ⟨_, rfl⟩ := isStub
    · obtain ⟨found, rfl⟩ := of_joined_readOp (dot_eq_some_iff.mp whole.symm)
      exact ⟨inv.of_localReads rid (fun other isOther => by simp [isOther])
        (fun _ found' => by simp at found'), consumeRead_refines inv found⟩
    · obtain ⟨found, rfl⟩ := of_joined_updateOp (dot_eq_some_iff.mp whole.symm)
      refine ⟨inv.of_localUpdates rid (fun other isOther => by simp [isOther]) ?_ ?_,
        consumeUpdate_refines inv found⟩
      · simp [found]
      · simp

theorem shardInv_init : ShardInv (initShard : Shard nrifc) 0 0 where
  ctail_eq := rfl
  gtail_eq := rfl
  localTails_keys := rfl
  combiner_keys := rfl
  replicas_nonempty := by simp [initShard, FiniteMap.ofFinset, numReplicas]
  ctail_le := le_rfl
  stored_le found := (Option.some.inj (Option.ite_none_right_eq_some.mp found).2).ge
  reads found := by cases found
  combiners storedEq found := by
    obtain rfl := Option.some.inj (Option.ite_none_right_eq_some.mp found).2
    obtain rfl := Option.some.inj (Option.ite_none_right_eq_some.mp storedEq).2
    exact ⟨le_rfl, fun idx _ below => absurd below (Nat.not_lt_zero idx)⟩
  log_isSome idx := by simp [initShard]
  updates found := by cases found
  ridsDistinct _ found _ inside := by
    obtain rfl := Option.some.inj (Option.ite_none_right_eq_some.mp found).2
    cases inside
  replicas found := by
    obtain ⟨inside, replicaEq⟩ := Option.ite_none_right_eq_some.mp found
    refine ⟨0, ?_, replicaEq⟩
    simp only [getLocalTail, initShard, FiniteMap.lookup_ofFinset, if_pos inside]
    rfl

theorem refines_nrSimple :
    (ticketStubStateMachine (infiniteLogSSM nrifc)).Refines (nrSimple nrifc) Inv interp where
  init := by
    rintro s rfl
    refine ⟨⟨initShard, 0, 0, rfl, shardInv_init⟩, ?_⟩
    rfl
  next := by
    rintro s s' label ⟨shard, ctail, gtail, rfl, inv⟩ next
    cases label with
    | start rid input =>
      obtain ⟨unused, rfl⟩ := next
      obtain ⟨shard', eq, inv', refined⟩ := newTicket_refines inv unused input
      refine ⟨⟨shard', ctail, gtail, eq, inv'⟩, ?_⟩
      rw [show (infiniteLogSSM nrifc).dot (some shard) ((infiniteLogSSM nrifc).ticket rid input) =
        some shard' from eq]
      exact refined
    | endOp rid output =>
      obtain ⟨_, isStub, whole⟩ := next
      obtain ⟨shard', rfl, inv', refined⟩ := consumeStub_refines inv isStub whole
      exact ⟨⟨shard', ctail, gtail, rfl, inv'⟩, refined⟩
    | internalOp =>
      obtain ⟨part, _, rest, before, rfl, internal⟩ := next
      have holds : Inv (dot part rest) := ⟨shard, ctail, gtail, before.symm, inv⟩
      rw [before]
      exact internal_refines holds internal

/-- The replicas and the results of the requests are what the log says. -/
structure Correct (s : Shard nrifc) (ctail : Nat) : Prop where
  replica : ∀ nodeId replica, s.replicas.lookup nodeId = some replica →
    ∃ tail, getLocalTail s nodeId = some tail ∧ stateAtVersion s.log tail = some replica
  update : ∀ rid update ret idx, s.localUpdates.lookup rid = some update →
    update.result? = some (ret, idx) → HasResult s.log ret idx
  read : ∀ rid op ret nodeId seen,
    s.localReads.lookup rid = some (.readonlyDone op ret nodeId seen) →
      ∃ version state, seen ≤ version ∧ version ≤ ctail ∧
        stateAtVersion s.log version = some state ∧ ret = nrifc.read state op

theorem ShardInv.correct (inv : ShardInv s ctail gtail) :
    Correct s ctail where
  replica _ _ found := inv.replicas found
  update rid update ret idx found result := by
    have updateInv := inv.updates found
    cases update with
    | updateInit | updatePlaced => cases result
    | updateApplied =>
      obtain ⟨rfl, rfl⟩ := Prod.mk.inj (Option.some.inj result)
      exact updateInv.2
    | updateDone =>
      obtain ⟨rfl, rfl⟩ := Prod.mk.inj (Option.some.inj result)
      exact updateInv.2.2
  read _ _ _ _ _ found := (inv.reads found).2

/-- The unbounded log refines the simple one, and every state of a run is correct. -/
theorem infiniteLog_refines_nrSimple (nrifc : NRIfc) :
    (ticketStubStateMachine (infiniteLogSSM nrifc)).Refines (nrSimple nrifc) Inv interp ∧
      ∀ (run : (ticketStubStateMachine (infiniteLogSSM nrifc)).Behavior) (index : Nat),
        index ≤ run.length → ∃ s ctail, run.states index = some s ∧ s.ctail = some ctail ∧
          Correct s ctail := by
  refine ⟨refines_nrSimple, fun run index indexLe => ?_⟩
  obtain ⟨s, ctail, _, sEq, inv⟩ := refines_nrSimple.inductive'.holds run indexLe
  exact ⟨s, ctail, sEq, inv.ctail_eq, inv.correct⟩

/-- A register, whose updates return nothing new. -/
abbrev register : NRIfc where
  NRState := Nat
  UpdateOp := Nat
  ReadonlyOp := Unit
  ReturnType := Nat
  initState := 0
  update _ value := ⟨value, value⟩
  read state _ := state

/-- One write is requested, and the combiner of the first node appends it. -/
def requestedWrite : Shard register :=
  { (initShard : Shard register) with localUpdates := .singleton 7 (.updateInit 5) }

def appendedWrite : Shard register :=
  { requestedWrite with
    log := requestedWrite.log.mapUpdate (constructNewLogEntries [7] 0 0 requestedWrite.localUpdates)
    localUpdates := requestedWrite.localUpdates.mapUpdate (constructLocalUpdateMap [7] 0 0)
    globalTail := some 1
    combiner := requestedWrite.combiner.insert 0 (.combinerPlaced [7]) }

theorem dot_unit (x : Shard nrifc) : dot (some x) (some Shard.unit) = some x :=
  dot_eq_some_iff.mpr (by constructor <;> simp [Shard.unit])

def writeRun : (ticketStubStateMachine (infiniteLogSSM register)).Behavior where
  length := 2
  states
    | 0 => some initShard
    | 1 => some requestedWrite
    | _ => some appendedWrite
  labels
    | 0 => .start 7 (.uOp 5)
    | _ => .internalOp
  starts := rfl
  steps := by
    intro index below
    match index, below with
    | 0, _ =>
      refine ⟨by decide, ?_⟩
      exact (dot_eq_some_iff.mpr (joined_updateOp_iff.mpr ⟨rfl, rfl⟩)).symm
    | 1, _ =>
      refine ⟨some requestedWrite, some appendedWrite, some Shard.unit, (dot_unit _).symm,
        (dot_unit _).symm, requestedWrite, appendedWrite, .advanceTail 0 [7], rfl, rfl, 0, rfl,
        rfl, ?_, List.nodup_singleton 7, rfl⟩
      intro rid inside
      obtain rfl := List.mem_singleton.mp inside
      exact ⟨5, rfl⟩

theorem infiniteLog_refines_nrSimple_write :
    ∃ s ctail, writeRun.states 2 = some s ∧ s.ctail = some ctail ∧ Correct s ctail :=
  (infiniteLog_refines_nrSimple register).2 writeRun 2 le_rfl

open Linearize NRSimple in
/-- What clients see of any run of the unbounded log is what they see of a machine that performs
each operation at one instant. -/
theorem infiniteLog_linearizable
    (run : (ticketStubStateMachine (infiniteLogSSM nrifc)).Behavior) :
    ∃ b : Behavior (OneVariables nrifc) nrifc.Input nrifc.ReturnType,
      b.WF (asyncStateMachine (nrOne nrifc)) ∧ b.trace = visible (run.history run.length) := by
  obtain ⟨a, wf, -, trace⟩ := exists_behavior_of_run (refines_nrSimple.image run) le_rfl
  have inv := invariant_of_wf inductive_inv wf
  have possible : Possible (fun _ => a.s.ctail) a.s :=
    fun _ _ _ reading => inv.ctailAtStart_le reading
  obtain ⟨b, wfB, sameTrace, -⟩ := prophecySimulation.exists_behavior wf possible
  exact ⟨b, wfB, sameTrace.symm.trans trace⟩

end VerifiedBetrfs.InfiniteLog
