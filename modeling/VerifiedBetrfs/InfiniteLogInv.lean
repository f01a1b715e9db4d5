import VerifiedBetrfs.InfiniteLog

/-!
# The invariant of the unbounded log

The entries that a combiner has still to apply are, among those of its own node, exactly the rest of
its queue.
-/

namespace VerifiedBetrfs.InfiniteLog

variable {nrifc : NRIfc}

/-- The state after the entries below a version. -/
def stateAtVersion (log : FiniteMap Nat (LogEntry nrifc)) (version : Nat) :
    Option nrifc.NRState :=
  nrifc.stateAtVersion (fun idx => (log.lookup idx).map LogEntry.op) version

/-- The version of the replica of a node, where `stored` is its local tail. -/
def CombinerState.logicalTail (stored : Nat) : CombinerState → Nat
  | .combinerReady | .combinerPlaced _ => stored
  | .combinerLtail _ localTail | .combiner _ _ localTail _ => localTail
  | .combinerUpdatedCtail _ localAndGlobalTail => localAndGlobalTail

def getLocalTail (m : Shard nrifc) (nodeId : Nat) : Option Nat := do
  let stored ← m.localTails.lookup nodeId
  let state ← m.combiner.lookup nodeId
  return state.logicalTail stored

def UpdateState.result? : UpdateState nrifc → Option (nrifc.ReturnType × Nat)
  | .updateInit _ | .updatePlaced _ _ => none
  | .updateApplied ret idx | .updateDone ret idx => some (ret, idx)

/-- The entries of the node from `lower` up to `upper` are the updates of the queue from
`queueIndex` on. -/
inductive LogRangeMatchesQueue (queue : List RequestId) (log : FiniteMap Nat (LogEntry nrifc))
    (nodeId : Nat) (updates : FiniteMap RequestId (UpdateState nrifc)) (upper : Nat) :
    Nat → Nat → Prop
  | done : LogRangeMatchesQueue queue log nodeId updates upper queue.length upper
  | own {queueIndex lower : Nat} {entry : LogEntry nrifc} {rid : RequestId} {placedNode : Nat}
      (below : lower < upper) (logged : log.lookup lower = some entry)
      (isOwn : entry.nodeId = nodeId) (queued : queue[queueIndex]? = some rid)
      (placed : updates.lookup rid = some (.updatePlaced placedNode lower))
      (rest : LogRangeMatchesQueue queue log nodeId updates upper (queueIndex + 1) (lower + 1)) :
      LogRangeMatchesQueue queue log nodeId updates upper queueIndex lower
  | foreign {queueIndex lower : Nat} {entry : LogEntry nrifc}
      (below : lower < upper) (logged : log.lookup lower = some entry)
      (isForeign : entry.nodeId ≠ nodeId)
      (rest : LogRangeMatchesQueue queue log nodeId updates upper queueIndex (lower + 1)) :
      LogRangeMatchesQueue queue log nodeId updates upper queueIndex lower

def LogRangeNoNodeId (log : FiniteMap Nat (LogEntry nrifc)) (lower upper nodeId : Nat) : Prop :=
  ∀ idx, lower ≤ idx → idx < upper → ∃ entry, log.lookup idx = some entry ∧ entry.nodeId ≠ nodeId

section

variable (queuedOps : List RequestId) (updates : FiniteMap RequestId (UpdateState nrifc))
  (bound : Nat)

def QueueRidsUpdatePlaced : Prop :=
  ∀ index rid, bound ≤ index → queuedOps[index]? = some rid →
    ∃ nodeId idx, updates.lookup rid = some (.updatePlaced nodeId idx)

def QueueRidsUpdateDone : Prop :=
  ∀ index rid, index < bound → queuedOps[index]? = some rid →
    ∀ state, updates.lookup rid = some state → state.result?.isSome

end

section

variable (log : FiniteMap Nat (LogEntry nrifc))

/-- The combiner of a node, whose local tail is `stored`. -/
def CombinerInv
    (updates : FiniteMap RequestId (UpdateState nrifc)) (ctail gtail nodeId stored : Nat) :
    CombinerState → Prop
  | .combinerReady => stored ≤ gtail ∧ LogRangeNoNodeId log stored gtail nodeId
  | .combinerPlaced queuedOps =>
    stored ≤ gtail ∧ LogRangeMatchesQueue queuedOps log nodeId updates gtail 0 stored ∧
      QueueRidsUpdatePlaced queuedOps updates 0 ∧ queuedOps.Nodup
  | .combinerLtail queuedOps localTail =>
    localTail = stored ∧ localTail ≤ ctail ∧ localTail ≤ gtail ∧
      LogRangeMatchesQueue queuedOps log nodeId updates gtail 0 localTail ∧
      QueueRidsUpdatePlaced queuedOps updates 0 ∧ queuedOps.Nodup
  | .combiner queuedOps queueIndex localTail globalTail =>
    globalTail ≤ gtail ∧ stored ≤ localTail ∧ localTail ≤ globalTail ∧
      queueIndex ≤ queuedOps.length ∧
      LogRangeMatchesQueue queuedOps log nodeId updates globalTail queueIndex localTail ∧
      LogRangeNoNodeId log globalTail gtail nodeId ∧
      QueueRidsUpdatePlaced queuedOps updates queueIndex ∧
      QueueRidsUpdateDone queuedOps updates queueIndex ∧ queuedOps.Nodup
  | .combinerUpdatedCtail queuedOps localAndGlobalTail =>
    localAndGlobalTail ≤ gtail ∧ localAndGlobalTail ≤ ctail ∧ stored ≤ localAndGlobalTail ∧
      LogRangeNoNodeId log localAndGlobalTail gtail nodeId ∧
      QueueRidsUpdateDone queuedOps updates queuedOps.length ∧ queuedOps.Nodup

/-- A read, where `tailOf` gives the versions of the replicas. -/
def ReadInv (ctail : Nat) (tailOf : Nat → Option Nat) : ReadonlyState nrifc → Prop
  | .readonlyInit _ => True
  | .readonlyCtail _ seen => seen ≤ ctail
  | .readonlyReadyToRead _ nodeId seen =>
    seen ≤ ctail ∧ ∃ tail, tailOf nodeId = some tail ∧ seen ≤ tail
  | .readonlyDone op ret nodeId seen =>
    (seen ≤ ctail ∧ ∃ tail, tailOf nodeId = some tail ∧ seen ≤ tail) ∧
      ∃ version state, seen ≤ version ∧ version ≤ ctail ∧
        stateAtVersion log version = some state ∧ ret = nrifc.read state op

/-- The result of an update is the one of its own entry. -/
def HasResult (ret : nrifc.ReturnType) (idx : Nat) : Prop :=
  ∃ before entry, stateAtVersion log idx = some before ∧ log.lookup idx = some entry ∧
    ret = (nrifc.update before entry.op).returnValue

def UpdateInv (ctail gtail : Nat) : UpdateState nrifc → Prop
  | .updateInit _ => True
  | .updatePlaced _ idx => idx < gtail
  | .updateApplied ret idx => idx < gtail ∧ HasResult log ret idx
  | .updateDone ret idx => idx < gtail ∧ idx < ctail ∧ HasResult log ret idx

end

/-- That entries are in the log up to some tail is said once, by `log_isSome`. -/
structure ShardInv (s : Shard nrifc) (ctail gtail : Nat) : Prop where
  ctail_eq : s.ctail = some ctail
  gtail_eq : s.globalTail = some gtail
  localTails_keys : s.localTails.support = s.replicas.support
  combiner_keys : s.combiner.support = s.replicas.support
  replicas_nonempty : 0 < s.replicas.support.card
  ctail_le : ctail ≤ gtail
  stored_le : ∀ {nodeId stored}, s.localTails.lookup nodeId = some stored → stored ≤ ctail
  reads : ∀ {rid req}, s.localReads.lookup rid = some req →
    ReadInv s.log ctail (getLocalTail s) req
  combiners : ∀ {nodeId stored state}, s.localTails.lookup nodeId = some stored →
    s.combiner.lookup nodeId = some state →
      CombinerInv s.log s.localUpdates ctail gtail nodeId stored state
  log_isSome : ∀ idx, (s.log.lookup idx).isSome ↔ idx < gtail
  updates : ∀ {rid update}, s.localUpdates.lookup rid = some update →
    UpdateInv s.log ctail gtail update
  ridsDistinct : ∀ {nodeId nodeId' state state' rid}, nodeId ≠ nodeId' →
    s.combiner.lookup nodeId = some state → s.combiner.lookup nodeId' = some state' →
      rid ∈ state.queuedOps → rid ∉ state'.queuedOps
  replicas : ∀ {nodeId replica}, s.replicas.lookup nodeId = some replica →
    ∃ tail, getLocalTail s nodeId = some tail ∧ stateAtVersion s.log tail = some replica

def Inv (m : M nrifc) : Prop :=
  ∃ s ctail gtail, m = some s ∧ ShardInv s ctail gtail

section Ranges

variable {queue : List RequestId} {log log' : FiniteMap Nat (LogEntry nrifc)} {nodeId : Nat}
  {updates updates' : FiniteMap RequestId (UpdateState nrifc)} {upper upper' lower : Nat}
  {queueIndex : Nat}

theorem LogRangeNoNodeId.mono (range : LogRangeNoNodeId log lower upper nodeId)
    (sameLog : ∀ idx < upper, log'.lookup idx = log.lookup idx) :
    LogRangeNoNodeId log' lower upper nodeId := by
  intro idx atLeast below
  rw [sameLog idx below]
  exact range idx atLeast below

theorem LogRangeNoNodeId.trans (first : LogRangeNoNodeId log lower upper nodeId)
    (second : LogRangeNoNodeId log upper upper' nodeId) :
    LogRangeNoNodeId log lower upper' nodeId := by
  intro idx atLeast below
  obtain inFirst | inSecond := lt_or_ge idx upper
  · exact first idx atLeast inFirst
  · exact second idx inSecond below

namespace LogRangeMatchesQueue

theorem le (range : LogRangeMatchesQueue queue log nodeId updates upper queueIndex lower) :
    lower ≤ upper := by
  cases range with
  | done => exact le_rfl
  | own below | foreign below => exact below.le

theorem eq_length (range : LogRangeMatchesQueue queue log nodeId updates upper queueIndex upper) :
    queueIndex = queue.length := by
  cases range with
  | done => rfl
  | own below | foreign below => exact absurd below (lt_irrefl _)

section

variable (range : LogRangeMatchesQueue queue log nodeId updates upper queueIndex lower)
  {entry : LogEntry nrifc}

include range

theorem next_own (below : lower < upper) (logged : log.lookup lower = some entry)
    (isOwn : entry.nodeId = nodeId) :
    ∃ rid placedNode, queue[queueIndex]? = some rid ∧
      updates.lookup rid = some (.updatePlaced placedNode lower) ∧
      LogRangeMatchesQueue queue log nodeId updates upper (queueIndex + 1) (lower + 1) := by
  cases range with
  | done => exact absurd below (lt_irrefl _)
  | own _ _ _ queued placed rest => exact ⟨_, _, queued, placed, rest⟩
  | foreign _ logged' isForeign =>
    obtain rfl := Option.mem_unique logged logged'
    exact absurd isOwn isForeign

theorem next_foreign (below : lower < upper) (logged : log.lookup lower = some entry)
    (isForeign : entry.nodeId ≠ nodeId) :
    LogRangeMatchesQueue queue log nodeId updates upper queueIndex (lower + 1) := by
  cases range with
  | done => exact absurd below (lt_irrefl _)
  | own _ logged' isOwn =>
    obtain rfl := Option.mem_unique logged logged'
    exact absurd isOwn isForeign
  | foreign _ _ _ rest => exact rest

/-- The entries of the range and the updates of the queue that are placed in it matter. -/
theorem mono (sameLog : ∀ idx < upper, log'.lookup idx = log.lookup idx)
    (samePlaced : ∀ rid ∈ queue, ∀ placedNode idx, lower ≤ idx →
      updates.lookup rid = some (.updatePlaced placedNode idx) →
        updates'.lookup rid = some (.updatePlaced placedNode idx)) :
    LogRangeMatchesQueue queue log' nodeId updates' upper queueIndex lower := by
  induction range with
  | done => exact .done
  | own below logged isOwn queued placed rest ih =>
    exact .own below (by rw [sameLog _ below, logged]) isOwn queued
      (samePlaced _ (List.mem_of_getElem? queued) _ _ le_rfl placed)
      (ih fun rid inside placedNode idx atLeast =>
        samePlaced rid inside placedNode idx (by omega))
  | foreign below logged isForeign rest ih =>
    exact .foreign below (by rw [sameLog _ below, logged]) isForeign
      (ih fun rid inside placedNode idx atLeast =>
        samePlaced rid inside placedNode idx (by omega))

end

theorem of_noNodeId {middle : Nat} (atMost : lower ≤ middle)
    (before : LogRangeNoNodeId log lower middle nodeId)
    (range : LogRangeMatchesQueue queue log nodeId updates upper queueIndex middle) :
    LogRangeMatchesQueue queue log nodeId updates upper queueIndex lower := by
  induction atMost using Nat.decreasingInduction with
  | self => exact range
  | of_succ lower below ih =>
    obtain ⟨_, logged, isForeign⟩ := before lower le_rfl below
    exact .foreign (lt_of_lt_of_le below range.le) logged isForeign
      (ih fun idx atLeast => before idx (by omega))

theorem extend (range : LogRangeMatchesQueue queue log nodeId updates upper queueIndex lower)
    (atMost : upper ≤ upper') (after : LogRangeNoNodeId log upper upper' nodeId) :
    LogRangeMatchesQueue queue log nodeId updates upper' queueIndex lower := by
  induction range with
  | done => exact of_noNodeId atMost after .done
  | own below logged isOwn queued placed rest ih =>
    exact .own (by omega) logged isOwn queued placed ih
  | foreign below logged isForeign rest ih =>
    exact .foreign (by omega) logged isForeign ih

end LogRangeMatchesQueue

end Ranges

variable {log log' : FiniteMap Nat (LogEntry nrifc)} {version ctail ctail' : Nat}

theorem stateAtVersion_congr (sameLog : ∀ idx < version, log'.lookup idx = log.lookup idx) :
    stateAtVersion log' version = stateAtVersion log version :=
  NRIfc.stateAtVersion_congr fun idx below => by rw [sameLog idx below]

theorem stateAtVersion_succ {state : nrifc.NRState} {entry : LogEntry nrifc}
    (stateEq : stateAtVersion log version = some state) (logged : log.lookup version = some entry) :
    stateAtVersion log (version + 1) = some (nrifc.update state entry.op).newState := by
  rw [stateAtVersion] at stateEq
  simp [stateAtVersion, NRIfc.stateAtVersion, stateEq, logged]

theorem ReadInv.mono {tailOf tailOf' : Nat → Option Nat} {req : ReadonlyState nrifc}
    (inv : ReadInv log ctail tailOf req) (atMost : ctail ≤ ctail')
    (sameLog : ∀ idx < ctail, log'.lookup idx = log.lookup idx)
    (advanced : ∀ nodeId tail, tailOf nodeId = some tail →
      ∃ tail', tailOf' nodeId = some tail' ∧ tail ≤ tail') : ReadInv log' ctail' tailOf' req := by
  have advancedPast : ∀ {nodeId seen}, (∃ tail, tailOf nodeId = some tail ∧ seen ≤ tail) →
      ∃ tail, tailOf' nodeId = some tail ∧ seen ≤ tail := by
    rintro nodeId seen ⟨tail, tailEq, seenLe⟩
    obtain ⟨tail', tailEq', tailLe⟩ := advanced nodeId tail tailEq
    exact ⟨tail', tailEq', seenLe.trans tailLe⟩
  cases req with
  | readonlyInit op => trivial
  | readonlyCtail op seen => exact le_trans inv atMost
  | readonlyReadyToRead op nodeId seen => exact ⟨inv.1.trans atMost, advancedPast inv.2⟩
  | readonlyDone op ret nodeId seen =>
    obtain ⟨⟨seenLe, past⟩, version, state, seenLeVersion, versionLe, stateEq, retEq⟩ := inv
    refine ⟨⟨seenLe.trans atMost, advancedPast past⟩, version, state, seenLeVersion,
      versionLe.trans atMost, ?_, retEq⟩
    rw [stateAtVersion_congr fun idx below => sameLog idx (by omega), stateEq]

theorem HasResult.mono {ret : nrifc.ReturnType} {idx : Nat} (result : HasResult log ret idx)
    (sameLog : ∀ other ≤ idx, log'.lookup other = log.lookup other) : HasResult log' ret idx := by
  obtain ⟨before, entry, beforeEq, logged, retEq⟩ := result
  refine ⟨before, entry, ?_, by rw [sameLog idx le_rfl, logged], retEq⟩
  rw [stateAtVersion_congr fun other below => sameLog other below.le, beforeEq]

theorem UpdateInv.mono {gtail gtail' : Nat} {update : UpdateState nrifc}
    (inv : UpdateInv log ctail gtail update) (ctailLe : ctail ≤ ctail') (gtailLe : gtail ≤ gtail')
    (sameLog : ∀ idx < gtail, log'.lookup idx = log.lookup idx) :
    UpdateInv log' ctail' gtail' update := by
  cases update with
  | updateInit op => trivial
  | updatePlaced nodeId idx => exact lt_of_lt_of_le inv gtailLe
  | updateApplied ret idx =>
    exact ⟨inv.1.trans_le gtailLe, inv.2.mono fun other atMost =>
      sameLog other (atMost.trans_lt inv.1)⟩
  | updateDone ret idx =>
    exact ⟨inv.1.trans_le gtailLe, inv.2.1.trans_le ctailLe, inv.2.2.mono fun other atMost =>
      sameLog other (atMost.trans_lt inv.1)⟩

section Combiner

variable {log log' : FiniteMap Nat (LogEntry nrifc)}
  {updates updates' : FiniteMap RequestId (UpdateState nrifc)} {ctail ctail' gtail gtail' : Nat}
  {nodeId stored : Nat} {state : CombinerState}

section

variable (inv : CombinerInv log updates ctail gtail nodeId stored state)

include inv

theorem CombinerInv.logicalTail_le : state.logicalTail stored ≤ gtail := by
  cases state with
  | combinerReady | combinerPlaced => exact inv.1
  | combinerLtail => exact inv.2.2.1
  | combiner => exact inv.2.2.1.trans inv.1
  | combinerUpdatedCtail => exact inv.1

theorem CombinerInv.not_init {rid : RequestId} {op : nrifc.UpdateOp}
    (queued : rid ∈ state.queuedOps) : updates.lookup rid ≠ some (.updateInit op) := by
  have notInit : ∀ {queuedOps : List RequestId} {bound : Nat}, rid ∈ queuedOps →
      QueueRidsUpdatePlaced queuedOps updates bound →
      QueueRidsUpdateDone queuedOps updates bound →
        updates.lookup rid ≠ some (.updateInit op) := by
    intro queuedOps bound inside placed done isInit
    obtain ⟨index, atIndex⟩ := List.mem_iff_getElem?.mp inside
    obtain after | before := le_or_gt bound index
    · obtain ⟨_, _, isPlaced⟩ := placed index rid after atIndex
      simp [isPlaced] at isInit
    · simpa [UpdateState.result?] using done index rid before atIndex _ isInit
  have noneDone : ∀ queuedOps : List RequestId, QueueRidsUpdateDone queuedOps updates 0 :=
    fun _ index _ below => absurd below (Nat.not_lt_zero index)
  have nonePlaced : ∀ queuedOps : List RequestId,
      QueueRidsUpdatePlaced queuedOps updates queuedOps.length := by
    intro queuedOps index rid atLeast atIndex
    rw [List.getElem?_eq_none atLeast] at atIndex
    cases atIndex
  cases state with
  | combinerReady => cases queued
  | combinerPlaced queuedOps => exact notInit queued inv.2.2.1 (noneDone queuedOps)
  | combinerLtail queuedOps => exact notInit queued inv.2.2.2.2.1 (noneDone queuedOps)
  | combiner queuedOps =>
    obtain ⟨-, -, -, -, -, -, placed, done, -⟩ := inv
    exact notInit queued placed done
  | combinerUpdatedCtail queuedOps =>
    obtain ⟨-, -, -, -, done, -⟩ := inv
    exact notInit queued (nonePlaced queuedOps) done

/-- The log gets foreign entries at its end, and the requests of the queue stay placed
until they have a result. -/
theorem CombinerInv.frame (ctailLe : ctail ≤ ctail') (gtailLe : gtail ≤ gtail')
    (sameLog : ∀ idx < gtail, log'.lookup idx = log.lookup idx)
    (foreign : LogRangeNoNodeId log' gtail gtail' nodeId)
    (samePlaced : ∀ rid ∈ state.queuedOps, ∀ placedNode idx,
      updates.lookup rid = some (.updatePlaced placedNode idx) →
        updates'.lookup rid = some (.updatePlaced placedNode idx))
    (keptResult : ∀ rid ∈ state.queuedOps, ∀ update, updates'.lookup rid = some update →
      update.result?.isSome ∨ updates.lookup rid = some update) :
    CombinerInv log' updates' ctail' gtail' nodeId stored state := by
  have placedOf : ∀ {bound : Nat}, QueueRidsUpdatePlaced state.queuedOps updates bound →
      QueueRidsUpdatePlaced state.queuedOps updates' bound := by
    intro bound placed index rid atLeast atIndex
    obtain ⟨placedNode, idx, isPlaced⟩ := placed index rid atLeast atIndex
    exact ⟨placedNode, idx, samePlaced rid (List.mem_of_getElem? atIndex) placedNode idx isPlaced⟩
  have doneOf : ∀ {bound : Nat}, QueueRidsUpdateDone state.queuedOps updates bound →
      QueueRidsUpdateDone state.queuedOps updates' bound := by
    intro bound done index rid below atIndex update found
    obtain hasResult | same := keptResult rid (List.mem_of_getElem? atIndex) update found
    · exact hasResult
    · exact done index rid below atIndex update same
  have rangeOf : ∀ {queueIndex lower upper : Nat}, upper ≤ gtail →
      LogRangeMatchesQueue state.queuedOps log nodeId updates upper queueIndex lower →
      LogRangeMatchesQueue state.queuedOps log' nodeId updates' upper queueIndex lower := by
    intro queueIndex lower upper atMost range
    exact range.mono (fun idx below => sameLog idx (by omega))
      fun rid inside placedNode idx _ => samePlaced rid inside placedNode idx
  have noneOf : ∀ {lower : Nat}, LogRangeNoNodeId log lower gtail nodeId →
      LogRangeNoNodeId log' lower gtail' nodeId := by
    intro lower none
    exact (none.mono sameLog).trans foreign
  cases state with
  | combinerReady => exact ⟨inv.1.trans gtailLe, noneOf inv.2⟩
  | combinerPlaced queuedOps =>
    obtain ⟨storedLe, range, placed, nodup⟩ := inv
    exact ⟨storedLe.trans gtailLe, (rangeOf le_rfl range).extend gtailLe foreign,
      placedOf placed, nodup⟩
  | combinerLtail queuedOps localTail =>
    obtain ⟨same, leCtail, leGtail, range, placed, nodup⟩ := inv
    exact ⟨same, leCtail.trans ctailLe, leGtail.trans gtailLe,
      (rangeOf le_rfl range).extend gtailLe foreign, placedOf placed, nodup⟩
  | combiner queuedOps queueIndex localTail globalTail =>
    obtain ⟨leGtail, storedLe, localLe, indexLe, range, none, placed, done, nodup⟩ := inv
    exact ⟨leGtail.trans gtailLe, storedLe, localLe, indexLe, rangeOf leGtail range, noneOf none,
      placedOf placed, doneOf done, nodup⟩
  | combinerUpdatedCtail queuedOps localAndGlobalTail =>
    obtain ⟨leGtail, leCtail, storedLe, none, done, nodup⟩ := inv
    exact ⟨leGtail.trans gtailLe, leCtail.trans ctailLe, storedLe, noneOf none, doneOf done, nodup⟩

end

end Combiner

end VerifiedBetrfs.InfiniteLog
