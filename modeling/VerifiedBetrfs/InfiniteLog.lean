import VerifiedBetrfs.NRSimple
import VerifiedBetrfs.Shards
import Mathlib.Order.Interval.Finset.Nat

/-!
# Node replication over an unbounded log

The combiner of a node appends updates to the shared log, applies its entries to the replica of the
node, and advances the complete tail.
-/

namespace VerifiedBetrfs

open FiniteMap (eq_erase_of_insert join_empty join_insert join_mapUpdate lookup_ofFinset
  lookup_whole_of_join)

namespace InfiniteLog

/-- How far a read is. -/
inductive ReadonlyState (nrifc : NRIfc) where
  | readonlyInit (op : nrifc.ReadonlyOp)
  | readonlyCtail (op : nrifc.ReadonlyOp) (ctail : Nat)
  | readonlyReadyToRead (op : nrifc.ReadonlyOp) (nodeId ctail : Nat)
  | readonlyDone (op : nrifc.ReadonlyOp) (ret : nrifc.ReturnType) (nodeId ctail : Nat)

/-- How far an update is. -/
inductive UpdateState (nrifc : NRIfc) where
  | updateInit (op : nrifc.UpdateOp)
  | updatePlaced (nodeId idx : Nat)
  | updateApplied (ret : nrifc.ReturnType) (idx : Nat)
  | updateDone (ret : nrifc.ReturnType) (idx : Nat)

/-- How far the combiner of a node is. -/
inductive CombinerState where
  | combinerReady
  | combinerPlaced (queuedOps : List RequestId)
  | combinerLtail (queuedOps : List RequestId) (localTail : Nat)
  | combiner (queuedOps : List RequestId) (queueIndex localTail globalTail : Nat)
  | combinerUpdatedCtail (queuedOps : List RequestId) (localAndGlobalTail : Nat)

/-- An update and the node that it comes from. -/
structure LogEntry (nrifc : NRIfc) where
  op : nrifc.UpdateOp
  nodeId : Nat

/-- A part of the state of the log. -/
structure Shard (nrifc : NRIfc) where
  log : FiniteMap Nat (LogEntry nrifc)
  globalTail : Option Nat
  replicas : FiniteMap Nat nrifc.NRState
  localTails : FiniteMap Nat Nat
  ctail : Option Nat
  localReads : FiniteMap RequestId (ReadonlyState nrifc)
  localUpdates : FiniteMap RequestId (UpdateState nrifc)
  combiner : FiniteMap Nat CombinerState

/-- A shard, or nothing if two shards did not fit together. -/
abbrev M (nrifc : NRIfc) := Option (Shard nrifc)

variable {nrifc : NRIfc}

def UpdateState.initOp? : UpdateState nrifc → Option nrifc.UpdateOp
  | .updateInit op => some op
  | _ => none

def CombinerState.queuedOps : CombinerState → List RequestId
  | .combinerReady => []
  | .combinerPlaced queuedOps | .combinerLtail queuedOps _ | .combiner queuedOps _ _ _
  | .combinerUpdatedCtail queuedOps _ => queuedOps

/-- A read learns the complete tail. -/
def TransitionReadonlyReadCtail (m m' : Shard nrifc) (rid : RequestId) : Prop :=
  ∃ op readTail, m.localReads.lookup rid = some (.readonlyInit op) ∧ m.ctail = some readTail ∧
    m' = { m with localReads := m.localReads.insert rid (.readonlyCtail op readTail) }

def TransitionReadonlyReadyToRead (m m' : Shard nrifc) (nodeId : Nat) (rid : RequestId) : Prop :=
  ∃ op ctail localTail, m.localReads.lookup rid = some (.readonlyCtail op ctail) ∧
    m.localTails.lookup nodeId = some localTail ∧ ctail ≤ localTail ∧
    m' = { m with localReads := m.localReads.insert rid (.readonlyReadyToRead op nodeId ctail) }

/-- A read takes its result from the replica. -/
def TransitionReadonlyDone (m m' : Shard nrifc) (rid : RequestId) : Prop :=
  ∃ op nodeId ctail state, m.localReads.lookup rid = some (.readonlyReadyToRead op nodeId ctail) ∧
    m.replicas.lookup nodeId = some state ∧ m.combiner.lookup nodeId = some .combinerReady ∧
    m' = { m with
      localReads := m.localReads.insert rid
        (.readonlyDone op (nrifc.read state op) nodeId ctail) }

def constructNewLogEntries (rids : List RequestId) (nodeId gtail : Nat)
    (localUpdates : FiniteMap RequestId (UpdateState nrifc)) : FiniteMap Nat (LogEntry nrifc) :=
  .ofFinset (Finset.Ico gtail (gtail + rids.length)) fun idx => do
    let rid ← rids[idx - gtail]?
    let state ← localUpdates.lookup rid
    let op ← state.initOp?
    return ⟨op, nodeId⟩

def constructLocalUpdateMap (rids : List RequestId) (nodeId gtail : Nat) :
    FiniteMap RequestId (UpdateState nrifc) :=
  .ofFinset rids.toFinset fun rid => some (.updatePlaced nodeId (gtail + rids.idxOf rid))

def InUpdateInit (m : Shard nrifc) (rid : RequestId) : Prop :=
  ∃ op, m.localUpdates.lookup rid = some (.updateInit op)

/-- A batch of updates is put into the log. -/
def AdvanceTail (m m' : Shard nrifc) (nodeId : Nat) (requestIds : List RequestId) : Prop :=
  ∃ gtail, m.combiner.lookup nodeId = some .combinerReady ∧ m.globalTail = some gtail ∧
    (∀ rid ∈ requestIds, InUpdateInit m rid) ∧ requestIds.Nodup ∧
    m' = { m with
      log := m.log.mapUpdate (constructNewLogEntries requestIds nodeId gtail m.localUpdates)
      localUpdates := m.localUpdates.mapUpdate (constructLocalUpdateMap requestIds nodeId gtail)
      globalTail := some (gtail + requestIds.length)
      combiner := m.combiner.insert nodeId (.combinerPlaced requestIds) }

def TrivialStart (m m' : Shard nrifc) (nodeId : Nat) : Prop :=
  m.combiner.lookup nodeId = some .combinerReady ∧
    m' = { m with combiner := m.combiner.insert nodeId (.combinerPlaced []) }

section

variable (m m' : Shard nrifc) (nodeId : Nat)

def ExecLoadLtail : Prop :=
  ∃ queuedOps ltail, m.combiner.lookup nodeId = some (.combinerPlaced queuedOps) ∧
    m.localTails.lookup nodeId = some ltail ∧
    m' = { m with combiner := m.combiner.insert nodeId (.combinerLtail queuedOps ltail) }

def ExecLoadGlobalTail : Prop :=
  ∃ queuedOps localTail gtail,
    m.combiner.lookup nodeId = some (.combinerLtail queuedOps localTail) ∧
    m.globalTail = some gtail ∧
    m' = { m with combiner := m.combiner.insert nodeId (.combiner queuedOps 0 localTail gtail) }

/-- An own entry is applied to the replica. -/
def ExecDispatchLocal : Prop :=
  ∃ queuedOps queueIndex localTail globalTail state entry requestId placedNode placedIdx,
    m.combiner.lookup nodeId = some (.combiner queuedOps queueIndex localTail globalTail) ∧
    localTail < globalTail ∧ m.replicas.lookup nodeId = some state ∧
    m.log.lookup localTail = some entry ∧ entry.nodeId = nodeId ∧
    queuedOps[queueIndex]? = some requestId ∧
    m.localUpdates.lookup requestId = some (.updatePlaced placedNode placedIdx) ∧
    m' = { m with
      combiner := m.combiner.insert nodeId
        (.combiner queuedOps (queueIndex + 1) (localTail + 1) globalTail)
      replicas := m.replicas.insert nodeId (nrifc.update state entry.op).newState
      localUpdates := m.localUpdates.insert requestId
        (.updateApplied (nrifc.update state entry.op).returnValue localTail) }

/-- An entry of another node is applied to the replica. -/
def ExecDispatchRemote : Prop :=
  ∃ queuedOps queueIndex localTail globalTail state entry,
    m.combiner.lookup nodeId = some (.combiner queuedOps queueIndex localTail globalTail) ∧
    localTail < globalTail ∧ m.replicas.lookup nodeId = some state ∧
    m.log.lookup localTail = some entry ∧ entry.nodeId ≠ nodeId ∧
    m' = { m with
      combiner := m.combiner.insert nodeId
        (.combiner queuedOps queueIndex (localTail + 1) globalTail)
      replicas := m.replicas.insert nodeId (nrifc.update state entry.op).newState }

/-- The complete tail moves to the local one. -/
def UpdateCompletedTail : Prop :=
  ∃ queuedOps queueIndex localTail globalTail ctail,
    m.combiner.lookup nodeId = some (.combiner queuedOps queueIndex localTail globalTail) ∧
    localTail = globalTail ∧ m.ctail = some ctail ∧
    m' = { m with
      combiner := m.combiner.insert nodeId (.combinerUpdatedCtail queuedOps localTail)
      ctail := some (if ctail < localTail then localTail else ctail) }

def UpdateCompletedNoChange : Prop :=
  ∃ queuedOps localTail, m.combiner.lookup nodeId = some (.combinerLtail queuedOps localTail) ∧
    m.globalTail = some localTail ∧
    m' = { m with combiner := m.combiner.insert nodeId .combinerReady }

/-- The combiner stores its local tail. -/
def GoToCombinerReady : Prop :=
  ∃ queuedOps localAndGlobalTail localTail,
    m.combiner.lookup nodeId = some (.combinerUpdatedCtail queuedOps localAndGlobalTail) ∧
    m.localTails.lookup nodeId = some localTail ∧
    m' = { m with
      combiner := m.combiner.insert nodeId .combinerReady
      localTails := m.localTails.insert nodeId localAndGlobalTail }

end

/-- An update ends once the complete tail is past it. -/
def UpdateRequestDone (m m' : Shard nrifc) (requestId : RequestId) : Prop :=
  ∃ ret idx ctail, m.localUpdates.lookup requestId = some (.updateApplied ret idx) ∧
    m.ctail = some ctail ∧ idx < ctail ∧
    m' = { m with localUpdates := m.localUpdates.insert requestId (.updateDone ret idx) }

/-- The steps of a shard. -/
inductive Step where
  | goToCombinerReady (nodeId : Nat)
  | execLoadLtail (nodeId : Nat)
  | execLoadGlobalTail (nodeId : Nat)
  | execDispatchLocal (nodeId : Nat)
  | execDispatchRemote (nodeId : Nat)
  | transitionReadonlyReadCtail (rid : RequestId)
  | transitionReadonlyReadyToRead (nodeId : Nat) (rid : RequestId)
  | transitionReadonlyDone (rid : RequestId)
  | updateCompletedTail (nodeId : Nat)
  | trivialStart (nodeId : Nat)
  | advanceTail (nodeId : Nat) (requestIds : List RequestId)
  | updateRequestDone (requestId : RequestId)
  | updateCompletedNoChange (nodeId : Nat)

def NextStep (m m' : Shard nrifc) : Step → Prop
  | .goToCombinerReady nodeId => GoToCombinerReady m m' nodeId
  | .execLoadLtail nodeId => ExecLoadLtail m m' nodeId
  | .execLoadGlobalTail nodeId => ExecLoadGlobalTail m m' nodeId
  | .execDispatchLocal nodeId => ExecDispatchLocal m m' nodeId
  | .execDispatchRemote nodeId => ExecDispatchRemote m m' nodeId
  | .transitionReadonlyReadCtail rid => TransitionReadonlyReadCtail m m' rid
  | .transitionReadonlyReadyToRead nodeId rid => TransitionReadonlyReadyToRead m m' nodeId rid
  | .transitionReadonlyDone rid => TransitionReadonlyDone m m' rid
  | .trivialStart nodeId => TrivialStart m m' nodeId
  | .advanceTail nodeId requestIds => AdvanceTail m m' nodeId requestIds
  | .updateCompletedTail nodeId => UpdateCompletedTail m m' nodeId
  | .updateRequestDone requestId => UpdateRequestDone m m' requestId
  | .updateCompletedNoChange nodeId => UpdateCompletedNoChange m m' nodeId

/-- Two shards fit together if they have no key and no tail in common. -/
def Shard.dot (x y : Shard nrifc) : M nrifc := do
  let log ← x.log.join y.log
  let globalTail ← Exclusive.join x.globalTail y.globalTail
  let replicas ← x.replicas.join y.replicas
  let localTails ← x.localTails.join y.localTails
  let ctail ← Exclusive.join x.ctail y.ctail
  let localReads ← x.localReads.join y.localReads
  let localUpdates ← x.localUpdates.join y.localUpdates
  let combiner ← x.combiner.join y.combiner
  return { log, globalTail, replicas, localTails, ctail, localReads, localUpdates, combiner }

def dot (x y : M nrifc) : M nrifc :=
  x.bind fun x => y.bind fun y => x.dot y

def Shard.unit : Shard nrifc :=
  ⟨.empty, none, .empty, .empty, none, .empty, .empty, .empty⟩

def readOp (rid : RequestId) (readonlyState : ReadonlyState nrifc) : Shard nrifc :=
  { Shard.unit with localReads := .singleton rid readonlyState }

def updateOp (rid : RequestId) (updateState : UpdateState nrifc) : Shard nrifc :=
  { Shard.unit with localUpdates := .singleton rid updateState }

def ticket (rid : RequestId) : nrifc.Input → M nrifc
  | .rOp op => some (readOp rid (.readonlyInit op))
  | .uOp op => some (updateOp rid (.updateInit op))

def IsStub (rid : RequestId) (output : nrifc.ReturnType) (stub : M nrifc) : Prop :=
  (∃ ctail op nodeId, stub = some (readOp rid (.readonlyDone op output nodeId ctail))) ∨
    ∃ logIdx, stub = some (updateOp rid (.updateDone output logIdx))

def combinerRequestIds (m : Shard nrifc) : Finset RequestId :=
  m.combiner.support.biUnion fun nodeId =>
    ((m.combiner.lookup nodeId).elim [] CombinerState.queuedOps).toFinset

def requestIdsInUse : M nrifc → Finset RequestId
  | none => ∅
  | some m => m.localReads.support ∪ m.localUpdates.support ∪ combinerRequestIds m

def initShard : Shard nrifc where
  log := .empty
  globalTail := some 0
  replicas := .ofFinset (Finset.range numReplicas) fun _ => some nrifc.initState
  localTails := .ofFinset (Finset.range numReplicas) fun _ => some 0
  ctail := some 0
  localReads := .empty
  localUpdates := .empty
  combiner := .ofFinset (Finset.range numReplicas) fun _ => some .combinerReady

def Internal (shard shard' : M nrifc) : Prop :=
  ∃ m m' step, shard = some m ∧ shard' = some m' ∧ NextStep m m' step

end InfiniteLog

def infiniteLogSSM (nrifc : NRIfc) :
    TicketStubSSM (InfiniteLog.M nrifc) nrifc.Input nrifc.ReturnType where
  dot := InfiniteLog.dot
  ticket := InfiniteLog.ticket
  IsStub := InfiniteLog.IsStub
  requestIdsInUse := InfiniteLog.requestIdsInUse
  init := some InfiniteLog.initShard
  Internal := InfiniteLog.Internal

namespace InfiniteLog

/-- What a joined shard is made of. -/
structure Joined (x y whole : Shard nrifc) : Prop where
  log : x.log.join y.log = some whole.log
  globalTail : Exclusive.join x.globalTail y.globalTail = some whole.globalTail
  replicas : x.replicas.join y.replicas = some whole.replicas
  localTails : x.localTails.join y.localTails = some whole.localTails
  ctail : Exclusive.join x.ctail y.ctail = some whole.ctail
  localReads : x.localReads.join y.localReads = some whole.localReads
  localUpdates : x.localUpdates.join y.localUpdates = some whole.localUpdates
  combiner : x.combiner.join y.combiner = some whole.combiner

theorem dot_eq_some_iff {x y whole : Shard nrifc} : x.dot y = some whole ↔ Joined x y whole := by
  constructor
  · intro fits
    simp only [Shard.dot, Option.bind_eq_bind, Option.bind_eq_some_iff, Option.pure_def,
      Option.some.injEq] at fits
    obtain ⟨_, logEq, _, globalTailEq, _, replicasEq, _, localTailsEq, _, ctailEq, _, localReadsEq,
      _, localUpdatesEq, _, combinerEq, rfl⟩ := fits
    exact ⟨logEq, globalTailEq, replicasEq, localTailsEq, ctailEq, localReadsEq, localUpdatesEq,
      combinerEq⟩
  · intro joined
    simp [Shard.dot, joined.log, joined.globalTail, joined.replicas, joined.localTails,
      joined.ctail, joined.localReads, joined.localUpdates, joined.combiner]

variable {x whole : Shard nrifc} {rid : RequestId} {req : ReadonlyState nrifc}
  {update : UpdateState nrifc} {rids : List RequestId} {nodeId gtail : Nat}
  {localUpdates : FiniteMap RequestId (UpdateState nrifc)}

theorem joined_readOp_iff :
    Joined x (readOp rid req) whole ↔ x.localReads.lookup rid = none ∧
      whole = { x with localReads := x.localReads.insert rid req } := by
  rw [← dot_eq_some_iff]
  simp [Shard.dot, readOp, Shard.unit, Option.bind_eq_some_iff, and_assoc, eq_comm (a := whole)]

theorem joined_updateOp_iff :
    Joined x (updateOp rid update) whole ↔ x.localUpdates.lookup rid = none ∧
      whole = { x with localUpdates := x.localUpdates.insert rid update } := by
  rw [← dot_eq_some_iff]
  simp [Shard.dot, updateOp, Shard.unit, Option.bind_eq_some_iff, and_assoc, eq_comm (a := whole)]

theorem of_joined_readOp (joined : Joined x (readOp rid req) whole) :
    whole.localReads.lookup rid = some req ∧
      x = { whole with localReads := whole.localReads.erase rid } := by
  obtain ⟨absent, rfl⟩ := joined_readOp_iff.mp joined
  refine ⟨by simp, ?_⟩
  simp only [← eq_erase_of_insert absent rfl]

theorem of_joined_updateOp (joined : Joined x (updateOp rid update) whole) :
    whole.localUpdates.lookup rid = some update ∧
      x = { whole with localUpdates := whole.localUpdates.erase rid } := by
  obtain ⟨absent, rfl⟩ := joined_updateOp_iff.mp joined
  refine ⟨by simp, ?_⟩
  simp only [← eq_erase_of_insert absent rfl]

theorem lookup_constructNewLogEntries {idx : Nat} {entry : LogEntry nrifc} :
    (constructNewLogEntries rids nodeId gtail localUpdates).lookup idx = some entry ↔
      ∃ index rid, idx = gtail + index ∧ rids[index]? = some rid ∧
        localUpdates.lookup rid = some (.updateInit entry.op) ∧ entry.nodeId = nodeId := by
  simp only [constructNewLogEntries, lookup_ofFinset, Finset.mem_Ico,
    Option.ite_none_right_eq_some, Option.bind_eq_bind, Option.bind_eq_some_iff, Option.pure_def,
    Option.some.injEq]
  constructor
  · rintro ⟨⟨_, -⟩, rid, found, state, stateEq, _, opEq, rfl⟩
    refine ⟨idx - gtail, rid, by omega, found, ?_, rfl⟩
    cases state with
    | updateInit op' => rwa [← Option.some.inj opEq]
    | updatePlaced | updateApplied | updateDone => cases opEq
  · rintro ⟨index, rid, rfl, found, stateEq, rfl⟩
    have below := (List.getElem?_eq_some_iff.mp found).1
    refine ⟨by omega, rid, ?_, _, stateEq, entry.op, rfl, rfl⟩
    rwa [Nat.add_sub_cancel_left]

theorem constructNewLogEntries_congr {localUpdates' : FiniteMap RequestId (UpdateState nrifc)}
    (same : ∀ rid ∈ rids, localUpdates.lookup rid = localUpdates'.lookup rid) :
    constructNewLogEntries rids nodeId gtail localUpdates =
      constructNewLogEntries rids nodeId gtail localUpdates' := by
  ext1 idx
  refine if_congr Iff.rfl ?_ rfl
  cases found : rids[idx - gtail]? with
  | none => rfl
  | some rid => simp [same rid (List.mem_of_getElem? found)]

theorem lookup_constructLocalUpdateMap (rids : List RequestId) (nodeId gtail : Nat)
    (rid : RequestId) :
    (constructLocalUpdateMap rids nodeId gtail : FiniteMap RequestId (UpdateState nrifc)).lookup
      rid = if rid ∈ rids then some (.updatePlaced nodeId (gtail + rids.idxOf rid)) else none := by
  simp [constructLocalUpdateMap]

section Whole

variable {m m' p whole : Shard nrifc} (joined : Joined m p whole)

include joined

theorem nextStep_whole {step : Step} (next : NextStep m m' step)
    (pastEnd : ∀ gtail, whole.globalTail = some gtail → ∀ idx, gtail ≤ idx →
      whole.log.lookup idx = none) :
    ∃ whole', NextStep whole whole' step ∧ Joined m' p whole' := by
  have atCombiner := lookup_whole_of_join joined.combiner
  have atLocalReads := lookup_whole_of_join joined.localReads
  have atLocalUpdates := lookup_whole_of_join joined.localUpdates
  have atLocalTails := lookup_whole_of_join joined.localTails
  have atReplicas := lookup_whole_of_join joined.replicas
  have atLog := lookup_whole_of_join joined.log
  have atCtail := @Exclusive.whole_of_join _ _ _ _ joined.ctail
  have atGlobalTail := @Exclusive.whole_of_join _ _ _ _ joined.globalTail
  cases step with
  | goToCombinerReady nodeId =>
    obtain ⟨_, _, _, found, stored, rfl⟩ := next
    exact ⟨_, ⟨_, _, _, atCombiner found, atLocalTails stored, rfl⟩,
      { joined with
        combiner := join_insert joined.combiner _ found
        localTails := join_insert joined.localTails _ stored }⟩
  | execLoadLtail nodeId =>
    obtain ⟨_, _, found, stored, rfl⟩ := next
    exact ⟨_, ⟨_, _, atCombiner found, atLocalTails stored, rfl⟩,
      { joined with combiner := join_insert joined.combiner _ found }⟩
  | execLoadGlobalTail nodeId =>
    obtain ⟨_, _, _, found, tail, rfl⟩ := next
    exact ⟨_, ⟨_, _, _, atCombiner found, atGlobalTail tail, rfl⟩,
      { joined with combiner := join_insert joined.combiner _ found }⟩
  | execDispatchLocal nodeId =>
    obtain ⟨_, _, _, _, _, _, _, _, _, found, below, replica, logged, isLocal, queued, placed,
      rfl⟩ := next
    exact ⟨_, ⟨_, _, _, _, _, _, _, _,
      _, atCombiner found, below, atReplicas replica, atLog logged, isLocal, queued,
      atLocalUpdates placed, rfl⟩,
      { joined with
        combiner := join_insert joined.combiner _ found
        replicas := join_insert joined.replicas _ replica
        localUpdates := join_insert joined.localUpdates _ placed }⟩
  | execDispatchRemote nodeId =>
    obtain ⟨_, _, _, _, _, _, found, below, replica, logged, isRemote, rfl⟩ := next
    exact ⟨_, ⟨_, _, _, _, _, _, atCombiner found, below,
      atReplicas replica, atLog logged, isRemote, rfl⟩,
      { joined with
        combiner := join_insert joined.combiner _ found
        replicas := join_insert joined.replicas _ replica }⟩
  | transitionReadonlyReadCtail rid =>
    obtain ⟨_, _, found, tail, rfl⟩ := next
    exact ⟨_, ⟨_, _, atLocalReads found, atCtail tail, rfl⟩,
      { joined with localReads := join_insert joined.localReads _ found }⟩
  | transitionReadonlyReadyToRead nodeId rid =>
    obtain ⟨_, _, _, found, stored, advanced, rfl⟩ := next
    exact ⟨_, ⟨_, _, _, atLocalReads found, atLocalTails stored, advanced, rfl⟩,
      { joined with localReads := join_insert joined.localReads _ found }⟩
  | transitionReadonlyDone rid =>
    obtain ⟨_, _, _, _, found, replica, ready, rfl⟩ := next
    exact ⟨_, ⟨_, _, _, _, atLocalReads found, atReplicas replica, atCombiner ready, rfl⟩,
      { joined with localReads := join_insert joined.localReads _ found }⟩
  | updateCompletedTail nodeId =>
    obtain ⟨_, _, _, _, ctail, found, done, tail, rfl⟩ := next
    exact ⟨_, ⟨_, _, _, _, ctail, atCombiner found, done, atCtail tail, rfl⟩,
      { joined with
        combiner := join_insert joined.combiner _ found
        ctail := Exclusive.join_replace joined.ctail _ tail }⟩
  | trivialStart nodeId =>
    obtain ⟨found, rfl⟩ := next
    exact ⟨_, ⟨atCombiner found, rfl⟩,
      { joined with combiner := join_insert joined.combiner _ found }⟩
  | advanceTail nodeId requestIds =>
    obtain ⟨gtail, found, tail, wanted, nodup, rfl⟩ := next
    have sameEntries : constructNewLogEntries requestIds nodeId gtail m.localUpdates =
        constructNewLogEntries requestIds nodeId gtail whole.localUpdates := by
      refine constructNewLogEntries_congr fun rid inside => ?_
      obtain ⟨op, opEq⟩ := wanted rid inside
      rw [opEq, atLocalUpdates opEq]
    have entriesApart : ∀ idx entry,
        (constructNewLogEntries requestIds nodeId gtail m.localUpdates).lookup idx = some entry →
          p.log.lookup idx = none := by
      intro idx entry logged
      obtain ⟨index, rid, rfl, -⟩ := lookup_constructNewLogEntries.mp logged
      have absent := pastEnd gtail (atGlobalTail tail) (gtail + index) (by omega)
      rw [FiniteMap.lookup_of_join joined.log, Option.or_eq_none_iff] at absent
      exact absent.1
    have updatesApart : ∀ rid (state : UpdateState nrifc),
        (constructLocalUpdateMap requestIds nodeId gtail).lookup rid = some state →
          p.localUpdates.lookup rid = none := by
      intro rid state placed
      rw [lookup_constructLocalUpdateMap, Option.ite_none_right_eq_some] at placed
      obtain ⟨op, opEq⟩ := wanted rid placed.1
      exact FiniteMap.lookup_right_of_join joined.localUpdates opEq
    refine ⟨_, ⟨gtail, atCombiner found, atGlobalTail tail, fun rid inside => ?_, nodup, rfl⟩,
      { joined with
        log := sameEntries ▸ join_mapUpdate joined.log entriesApart
        localUpdates := join_mapUpdate joined.localUpdates updatesApart
        globalTail := Exclusive.join_replace joined.globalTail _ tail
        combiner := join_insert joined.combiner _ found }⟩
    obtain ⟨op, opEq⟩ := wanted rid inside
    exact ⟨op, atLocalUpdates opEq⟩
  | updateRequestDone requestId =>
    obtain ⟨_, _, _, found, tail, complete, rfl⟩ := next
    exact ⟨_, ⟨_, _, _, atLocalUpdates found, atCtail tail, complete, rfl⟩,
      { joined with localUpdates := join_insert joined.localUpdates _ found }⟩
  | updateCompletedNoChange nodeId =>
    obtain ⟨_, _, found, tail, rfl⟩ := next
    exact ⟨_, ⟨_, _, atCombiner found, atGlobalTail tail, rfl⟩,
      { joined with combiner := join_insert joined.combiner _ found }⟩

end Whole

end InfiniteLog

end VerifiedBetrfs
