import VerifiedBetrfs.NRSimple

/-!
# Node replication is linearizable

A read takes effect at the version at which it answers.  That is known only when it ends, so the
simulation guesses it.
-/

namespace VerifiedBetrfs.NRSimple

open FiniteMap (lookup_erase lookup_insert lookup_of_erase)
open Function (update update_of_ne)

open Linearize

variable {nrifc : NRIfc}

/-- Tails and indices are in range, and each request is in one place. -/
structure Inv (s : Variables nrifc) : Prop where
  ctail_le : s.ctail ≤ s.log.length
  idx_lt : ∀ {rid resp}, s.updateResps.lookup rid = some resp → resp.idxInLog < s.log.length
  ctailAtStart_le : ∀ {rid ctailAtStart op},
    s.readonlyReqs.lookup rid = some (.readReq ctailAtStart op) → ctailAtStart ≤ s.ctail
  /-- An entry at or after the complete tail belongs to an update that has not ended. -/
  owner : ∀ {idx}, s.ctail ≤ idx → idx < s.log.length →
    ∃ rid, s.updateResps.lookup rid = some ⟨idx⟩
  owner_unique : ∀ {rid rid' resp}, s.updateResps.lookup rid = some resp →
    s.updateResps.lookup rid' = some resp → rid = rid'
  updateReqs_only : ∀ {rid op}, s.updateReqs.lookup rid = some op →
    s.updateResps.lookup rid = none ∧ s.readonlyReqs.lookup rid = none
  updateResps_only : ∀ {rid resp}, s.updateResps.lookup rid = some resp →
    s.readonlyReqs.lookup rid = none

theorem inv_of_init {s : Variables nrifc} (initial : Init s) : Inv s := by
  subst initial
  constructor <;> simp

variable {s s' : Variables nrifc} {rid : RequestId} {op : nrifc.UpdateOp} {version newCtail : Nat}

theorem inv_startUpdate (inv : Inv s) (step : StartUpdate s s' rid op) : Inv s' := by
  obtain ⟨fresh, rfl⟩ := step
  refine { inv with updateReqs_only := ?_ }
  intro other op' found
  rw [lookup_insert] at found
  by_cases isRid : other = rid
  · subst isRid
    exact ⟨fresh.updateResps, fresh.readonlyReqs⟩
  · rw [if_neg isRid] at found
    exact inv.updateReqs_only found

theorem inv_of_readonlyReqs (rid : RequestId) {readonlyReqs : FiniteMap RequestId (ReadReq nrifc)}
    (inv : Inv s)
    (same : ∀ other, other ≠ rid → readonlyReqs.lookup other = s.readonlyReqs.lookup other)
    (notUpdate : s.updateReqs.lookup rid = none ∧ s.updateResps.lookup rid = none)
    (seen : ∀ {ctailAtStart op}, readonlyReqs.lookup rid = some (.readReq ctailAtStart op) →
      ctailAtStart ≤ s.ctail) :
    Inv { s with readonlyReqs } := by
  refine { inv with ctailAtStart_le := ?_, updateReqs_only := ?_, updateResps_only := ?_ }
  · intro other ctailAtStart op found
    by_cases isRid : other = rid
    · exact seen (isRid ▸ found)
    · exact inv.ctailAtStart_le (same other isRid ▸ found)
  · intro other op found
    have isOther : other ≠ rid := by
      rintro rfl
      simp [notUpdate.1] at found
    simpa [same other isOther] using inv.updateReqs_only found
  · intro other resp found
    have isOther : other ≠ rid := by
      rintro rfl
      simp [notUpdate.2] at found
    simpa [same other isOther] using inv.updateResps_only found

theorem Inv.not_update_of_read {req : ReadReq nrifc} (inv : Inv s)
    (reading : s.readonlyReqs.lookup rid = some req) :
    s.updateReqs.lookup rid = none ∧ s.updateResps.lookup rid = none := by
  constructor
  · refine Option.eq_none_iff_forall_ne_some.mpr fun op found => ?_
    simp [(inv.updateReqs_only found).2] at reading
  · refine Option.eq_none_iff_forall_ne_some.mpr fun resp found => ?_
    simp [inv.updateResps_only found] at reading

theorem inv_startReadonly {op : nrifc.ReadonlyOp} (inv : Inv s) (step : StartReadonly s s' rid op) :
    Inv s' := by
  obtain ⟨fresh, rfl⟩ := step
  refine inv_of_readonlyReqs rid inv ?_ ⟨fresh.updateReqs, fresh.updateResps⟩ ?_
  · intro other isOther
    simp [isOther]
  · intro ctailAtStart op' found
    simp at found

theorem inv_readCtail (inv : Inv s) (step : ReadCtail s s' rid) : Inv s' := by
  obtain ⟨_, reading, rfl⟩ := step
  refine inv_of_readonlyReqs rid inv ?_ (inv.not_update_of_read reading) ?_
  · intro other isOther
    simp [isOther]
  · intro ctailAtStart op' found
    simp only [lookup_insert, if_true, Option.some.injEq, ReadReq.readReq.injEq] at found
    exact found.1.ge

variable {returnValue : nrifc.ReturnType}

theorem inv_finishReadonly (inv : Inv s) (step : FinishReadonly s s' rid version returnValue) :
    Inv s' := by
  obtain ⟨_, _, reading, -, -, -, rfl, -⟩ := step
  refine inv_of_readonlyReqs rid inv ?_ (inv.not_update_of_read reading) ?_
  · intro other isOther
    simp [isOther]
  · intro ctailAtStart' op' found
    simp at found

theorem inv_increaseCtail (inv : Inv s) (step : IncreaseCtail s s' newCtail) : Inv s' := by
  obtain ⟨ctail_le, le_log, rfl⟩ := step
  refine { inv with ctail_le := le_log, ctailAtStart_le := ?_, owner := ?_ }
  · intro rid ctailAtStart op found
    exact (inv.ctailAtStart_le found).trans ctail_le
  · intro idx atLeast below
    exact inv.owner (ctail_le.trans atLeast) below

theorem inv_endUpdate (inv : Inv s) (step : EndUpdate s s' rid returnValue) : Inv s' := by
  obtain ⟨_, _, responding, _, -, rfl, -⟩ := step
  refine { inv with
    idx_lt := fun found => inv.idx_lt (lookup_of_erase found)
    owner := ?_
    owner_unique := fun found found' =>
      inv.owner_unique (lookup_of_erase found) (lookup_of_erase found')
    updateReqs_only := ?_
    updateResps_only := fun found => inv.updateResps_only (lookup_of_erase found) }
  · intro idx' atLeast below
    obtain ⟨other, found⟩ := inv.owner atLeast below
    have isOther : other ≠ rid := by
      rintro rfl
      rw [responding, Option.some.injEq, UpdateResp.mk.injEq] at found
      dsimp only at atLeast
      omega
    exact ⟨other, by simpa [isOther] using found⟩
  · intro other op' found
    obtain ⟨noResp, noRead⟩ := inv.updateReqs_only found
    exact ⟨by simp [noResp], noRead⟩

/-- What a batch does to the request with one identifier. -/
inductive Batched (s s' : Variables nrifc) (requestIds : List RequestId) (rid : RequestId) : Prop
  | placed (index : Nat) (op : nrifc.UpdateOp) (atIndex : requestIds[index]? = some rid)
      (wanted : s.updateReqs.lookup rid = some op)
      (removed : s'.updateReqs.lookup rid = none)
      (answered : s'.updateResps.lookup rid = some ⟨s.log.length + index⟩)
      (entry : s'.log[s.log.length + index]? = some op)
  | kept (sameReq : s'.updateReqs.lookup rid = s.updateReqs.lookup rid)
      (sameResp : s'.updateResps.lookup rid = s.updateResps.lookup rid)

variable {requestIds : List RequestId}

theorem addUpdateToLog_batched (step : AddUpdateToLog s s' requestIds) (rid : RequestId) :
    Batched s s' requestIds rid := by
  obtain ⟨nodup, entries, constructed, rfl⟩ := step
  obtain ⟨sameLength, getEntry⟩ := getElem?_constructNewLogEntries constructed
  by_cases inBatch : rid ∈ requestIds
  · obtain ⟨index, found⟩ := List.mem_iff_getElem?.mp inBatch
    have below : index < entries.length := by
      rw [sameLength]
      exact (List.getElem?_eq_some_iff.mp found).1
    have entryEq : entries[index]? = s.updateReqs.lookup rid := by
      rw [getEntry index, found, Option.bind_some]
    obtain ⟨op, opEq⟩ : ∃ op, entries[index]? = some op :=
      ⟨entries[index], List.getElem?_eq_getElem below⟩
    have answered := (lookup_constructUpdateResponses nodup s.log.length rid
      ⟨s.log.length + index⟩).mpr ⟨index, found, rfl⟩
    refine .placed index op found (entryEq ▸ opEq) (by simp [inBatch]) (by simp [answered]) ?_
    rw [List.getElem?_append_right (Nat.le_add_right _ _), Nat.add_sub_cancel_left, opEq]
  · have absent := (lookup_constructUpdateResponses_eq_none nodup s.log.length).mpr inBatch
    exact .kept (by simp [inBatch]) (by simp [absent])

theorem addUpdateToLog_owner (step : AddUpdateToLog s s' requestIds) {idx : Nat}
    (atLeast : s.log.length ≤ idx) (below : idx < s'.log.length) :
    ∃ rid, s'.updateResps.lookup rid = some ⟨idx⟩ := by
  obtain ⟨nodup, _, constructed, rfl⟩ := step
  obtain ⟨_, -⟩ := getElem?_constructNewLogEntries constructed
  have indexLt : idx - s.log.length < requestIds.length := by
    simp only [List.length_append] at below
    omega
  have answered := (lookup_constructUpdateResponses nodup s.log.length
    requestIds[idx - s.log.length] ⟨idx⟩).mpr
      ⟨idx - s.log.length, List.getElem?_eq_getElem indexLt, (Nat.add_sub_cancel' atLeast).symm⟩
  exact ⟨_, by rw [FiniteMap.lookup_mapUpdate, answered, Option.some_or]⟩

theorem inv_addUpdateToLog (inv : Inv s) (step : AddUpdateToLog s s' requestIds) : Inv s' := by
  have batched := addUpdateToLog_batched step
  have owned := @addUpdateToLog_owner _ _ _ _ step
  obtain ⟨_, _, constructed, eq⟩ := step
  have sameCtail : s'.ctail = s.ctail := by rw [eq]
  have sameReads : s'.readonlyReqs = s.readonlyReqs := by rw [eq]
  have lengthEq : s'.log.length = s.log.length + requestIds.length := by
    rw [eq, List.length_append, (getElem?_constructNewLogEntries constructed).1]
  have ctail_le := inv.ctail_le
  refine ⟨by omega, ?_, ?_, ?_, ?_, ?_, ?_⟩
  · intro rid resp found
    cases batched rid with
    | placed index op atIndex _ _ answered _ =>
      have := (List.getElem?_eq_some_iff.mp atIndex).1
      obtain rfl := Option.mem_unique answered found
      dsimp only
      omega
    | kept _ sameResp =>
      have := inv.idx_lt (sameResp ▸ found)
      omega
  · rw [sameCtail, sameReads]
    exact inv.ctailAtStart_le
  · intro idx atLeast below
    rw [sameCtail] at atLeast
    by_cases isNew : s.log.length ≤ idx
    · exact owned isNew below
    · obtain ⟨rid, found⟩ := inv.owner atLeast (by omega)
      cases batched rid with
      | placed _ _ _ wanted _ _ _ => simp [(inv.updateReqs_only wanted).1] at found
      | kept _ sameResp => exact ⟨rid, sameResp ▸ found⟩
  · intro rid rid' resp found found'
    cases batched rid with
    | placed index _ atIndex _ _ answered _ =>
      obtain rfl := Option.mem_unique answered found
      cases batched rid' with
      | placed index' _ atIndex' _ _ answered' _ =>
        rw [answered', Option.some.injEq, UpdateResp.mk.injEq, Nat.add_left_cancel_iff] at found'
        rw [found', atIndex] at atIndex'
        exact Option.some.inj atIndex'
      | kept _ sameResp =>
        have := inv.idx_lt (sameResp ▸ found')
        dsimp only at this
        omega
    | kept _ sameResp =>
      have old := sameResp ▸ found
      have := inv.idx_lt old
      cases batched rid' with
      | placed _ _ _ _ _ answered' _ =>
        obtain rfl := Option.mem_unique answered' found'
        dsimp only at this
        omega
      | kept _ sameResp' => exact inv.owner_unique old (sameResp' ▸ found')
  · intro rid op found
    cases batched rid with
    | placed _ _ _ _ removed _ _ => simp [removed] at found
    | kept sameReq sameResp =>
      rw [sameResp, sameReads]
      exact inv.updateReqs_only (sameReq ▸ found)
  · intro rid resp found
    rw [sameReads]
    cases batched rid with
    | placed _ _ _ wanted _ _ _ => exact (inv.updateReqs_only wanted).2
    | kept _ sameResp => exact inv.updateResps_only (sameResp ▸ found)

theorem inductive_inv : (nrSimple nrifc).Inductive Inv where
  init := inv_of_init
  next inv next := by
    obtain ⟨step, step_holds⟩ := next
    cases step with
    | startUpdate => exact inv_startUpdate inv step_holds.2
    | addUpdateToLog => exact inv_addUpdateToLog inv step_holds.2
    | endUpdate => exact inv_endUpdate inv step_holds.2
    | increaseCtail => exact inv_increaseCtail inv step_holds.2
    | startReadonly => exact inv_startReadonly inv step_holds.2
    | readCtail => exact inv_readCtail inv step_holds.2
    | finishReadonly => exact inv_finishReadonly inv step_holds.2
    | stutter => exact step_holds.2 ▸ inv

/-- A guess gives every read the version at which it will answer. -/
abbrev Guess := RequestId → Nat

def Possible (guess : Guess) (s : Variables nrifc) : Prop :=
  ∀ rid ctailAtStart op, s.readonlyReqs.lookup rid = some (.readReq ctailAtStart op) →
    ctailAtStart ≤ guess rid

section

variable (s : Variables nrifc)

/-- An update has not taken effect as long as the complete tail is not past its entry. -/
def pendingUpdate (resp : UpdateResp) : Option nrifc.Input :=
  if resp.idxInLog < s.ctail then none else s.log[resp.idxInLog]?.map .uOp

def answeredUpdate (resp : UpdateResp) : Option nrifc.ReturnType :=
  if resp.idxInLog < s.ctail then
    (stateAtVersion s.log resp.idxInLog).bind fun state =>
      s.log[resp.idxInLog]?.map fun op => (nrifc.update state op).returnValue
  else none

/-- A read has not taken effect as long as the complete tail is not at its version. -/
def pendingRead (version : Nat) : ReadReq nrifc → Option nrifc.Input
  | .readInit op => some (.rOp op)
  | .readReq _ op => if version ≤ s.ctail then none else some (.rOp op)

def answeredRead (version : Nat) : ReadReq nrifc → Option nrifc.ReturnType
  | .readInit _ => none
  | .readReq _ op =>
    if version ≤ s.ctail then (stateAtVersion s.log version).map (nrifc.read · op) else none

def pending (guess : Guess) (rid : RequestId) : Option nrifc.Input :=
  (((s.updateReqs.lookup rid).map .uOp).or ((s.updateResps.lookup rid).bind (pendingUpdate s))).or
    ((s.readonlyReqs.lookup rid).bind (pendingRead s (guess rid)))

def answered (guess : Guess) (rid : RequestId) : Option nrifc.ReturnType :=
  ((s.updateResps.lookup rid).bind (answeredUpdate s)).or
    ((s.readonlyReqs.lookup rid).bind (answeredRead s (guess rid)))

end

abbrev OneVariables (nrifc : NRIfc) :=
  AsyncStateMachine.Variables nrifc.NRState nrifc.Input nrifc.ReturnType

/-- The single copy has answered what the guess says is answered. -/
structure Related (guess : Guess) (s : Variables nrifc) (t : OneVariables nrifc) : Prop where
  state : stateAtVersion s.log s.ctail = some t.s
  reqs : ∀ rid, t.reqs.lookup rid = pending s guess rid
  resps : ∀ rid, t.resps.lookup rid = answered s guess rid

abbrev OneWeak (t : OneVariables nrifc) (op : AsyncOp nrifc.Input nrifc.ReturnType)
    (t' : OneVariables nrifc) : Prop :=
  Weak (asyncStateMachine (nrOne nrifc)) t op t'

variable {t : OneVariables nrifc}

theorem Related.congr {guess guess' : Guess} (related : Related guess s t)
    (same : ∀ rid ctailAtStart op, s.readonlyReqs.lookup rid = some (.readReq ctailAtStart op) →
      guess rid = guess' rid) : Related guess' s t := by
  have sameReads : ∀ rid, (s.readonlyReqs.lookup rid).bind (pendingRead s (guess rid)) =
      (s.readonlyReqs.lookup rid).bind (pendingRead s (guess' rid)) ∧
      (s.readonlyReqs.lookup rid).bind (answeredRead s (guess rid)) =
      (s.readonlyReqs.lookup rid).bind (answeredRead s (guess' rid)) := by
    intro rid
    cases found : s.readonlyReqs.lookup rid with
    | none => exact ⟨rfl, rfl⟩
    | some req =>
      cases req with
      | readInit op => exact ⟨rfl, rfl⟩
      | readReq ctailAtStart op =>
        rw [same rid ctailAtStart op found]
        exact ⟨rfl, rfl⟩
  refine ⟨related.state, fun rid => ?_, fun rid => ?_⟩
  · rw [related.reqs, pending, pending, (sameReads rid).1]
  · rw [related.resps, answered, answered, (sameReads rid).2]

variable {guess : Guess}

theorem related_startUpdate (step : StartUpdate s s' rid op) (related : Related guess s t) :
    ∃ t', OneWeak t (.start rid (.uOp op)) t' ∧ Related guess s' t' := by
  obtain ⟨fresh, rfl⟩ := step
  have notRequested : t.reqs.lookup rid = none := by
    simp [related.reqs, pending, fresh.updateReqs, fresh.updateResps, fresh.readonlyReqs]
  refine ⟨{ t with reqs := t.reqs.insert rid (.uOp op) }, .single ⟨rfl, notRequested⟩,
    related.state, fun other => ?_, related.resps⟩
  by_cases isRid : other = rid
  · simp [isRid, pending]
  · simp only [lookup_insert, if_neg isRid, related.reqs, pending]
    rfl

theorem related_startReadonly {op : nrifc.ReadonlyOp} (step : StartReadonly s s' rid op)
    (related : Related guess s t) :
    ∃ t', OneWeak t (.start rid (.rOp op)) t' ∧ Related guess s' t' := by
  obtain ⟨fresh, rfl⟩ := step
  have notRequested : t.reqs.lookup rid = none := by
    simp [related.reqs, pending, fresh.updateReqs, fresh.updateResps, fresh.readonlyReqs]
  refine ⟨{ t with reqs := t.reqs.insert rid (.rOp op) }, .single ⟨rfl, notRequested⟩,
    related.state, fun other => ?_, fun other => ?_⟩
  · by_cases isRid : other = rid
    · simp [isRid, pending, pendingRead, fresh.updateReqs, fresh.updateResps]
    · simp only [lookup_insert, if_neg isRid, related.reqs, pending]
      rfl
  · by_cases isRid : other = rid
    · simp [isRid, related.resps, answered, answeredRead, fresh.updateResps, fresh.readonlyReqs]
    · simp only [lookup_insert, if_neg isRid, related.resps, answered]
      rfl

theorem stateAtVersion_append {log entries : List nrifc.UpdateOp} (inside : version ≤ log.length) :
    stateAtVersion (log ++ entries) version = stateAtVersion log version :=
  NRIfc.stateAtVersion_congr fun _ below => List.getElem?_append_left (by omega)

/-- A batch of updates is seen by nobody: none of them has taken effect. -/
theorem related_addUpdateToLog (inv : Inv s) (step : AddUpdateToLog s s' requestIds)
    (related : Related guess s t) : Related guess s' t := by
  have batched := addUpdateToLog_batched step
  obtain ⟨_, entries, _, eq⟩ := step
  have logEq : s'.log = s.log ++ entries := by rw [eq]
  have ctailEq : s'.ctail = s.ctail := by rw [eq]
  have readsEq : s'.readonlyReqs = s.readonlyReqs := by rw [eq]
  have ctail_le := inv.ctail_le
  have samePendingRead : pendingRead s' = pendingRead s := by
    funext version req
    cases req <;> simp [pendingRead, ctailEq]
  have sameAnsweredRead : answeredRead s' = answeredRead s := by
    funext version req
    cases req with
    | readInit op => rfl
    | readReq ctailAtStart op =>
      rw [answeredRead, answeredRead, ctailEq, logEq]
      refine if_ctx_congr Iff.rfl (fun complete => ?_) fun _ => rfl
      rw [stateAtVersion_append (complete.trans ctail_le)]
  have sameUpdate : ∀ resp : UpdateResp, resp.idxInLog < s.log.length →
      pendingUpdate s' resp = pendingUpdate s resp ∧
        answeredUpdate s' resp = answeredUpdate s resp := by
    intro resp inside
    rw [pendingUpdate, pendingUpdate, answeredUpdate, answeredUpdate, ctailEq, logEq,
      List.getElem?_append_left inside, stateAtVersion_append inside.le]
    exact ⟨rfl, rfl⟩
  refine ⟨?_, fun rid => ?_, fun rid => ?_⟩
  · rw [logEq, ctailEq, stateAtVersion_append ctail_le, related.state]
  · rw [related.reqs, pending, pending, readsEq, samePendingRead]
    cases batched rid with
    | placed index op _ wanted removed answered entry =>
      have later : ¬ s.log.length + index < s'.ctail := by omega
      rw [wanted, removed, answered, (inv.updateReqs_only wanted).1]
      simp [pendingUpdate, later, entry]
    | kept sameReq sameResp =>
      rw [sameReq, sameResp]
      cases found : s.updateResps.lookup rid with
      | none => rfl
      | some resp => rw [Option.bind_some, Option.bind_some, (sameUpdate resp (inv.idx_lt found)).1]
  · rw [related.resps, answered, answered, readsEq, sameAnsweredRead]
    cases batched rid with
    | placed index op _ wanted removed answered entry =>
      have later : ¬ s.log.length + index < s'.ctail := by omega
      rw [answered, (inv.updateReqs_only wanted).1]
      simp [answeredUpdate, later]
    | kept sameReq sameResp =>
      rw [sameResp]
      cases found : s.updateResps.lookup rid with
      | none => rfl
      | some resp => rw [Option.bind_some, Option.bind_some, (sameUpdate resp (inv.idx_lt found)).2]

theorem weak_endOp (responded : t.resps.lookup rid = some returnValue) :
    OneWeak t (.endOp rid returnValue) { t with resps := t.resps.erase rid } := by
  refine .single ⟨?_, by simp⟩
  have restored : t.resps = (t.resps.erase rid).insert rid returnValue := by
    ext1 other
    by_cases isRid : other = rid
    · simp [isRid, responded]
    · simp [isRid]
  exact congrArg (fun resps => { t with resps }) restored

theorem related_endUpdate (inv : Inv s) (step : EndUpdate s s' rid returnValue)
    (related : Related guess s t) :
    ∃ t', OneWeak t (.endOp rid returnValue) t' ∧ Related guess s' t' := by
  obtain ⟨idx, _, responding, complete, entry, rfl, returned⟩ := step
  have noRead := inv.updateResps_only responding
  have responded : t.resps.lookup rid = some returnValue := by
    rw [related.resps, answered, responding, noRead, returned]
    cases stateEq : stateAtVersion s.log idx <;> simp [answeredUpdate, complete, entry, stateEq]
  refine ⟨_, weak_endOp responded, related.state, fun other => ?_, fun other => ?_⟩
  · rw [related.reqs]
    by_cases isRid : other = rid
    · simp [isRid, pending, responding, noRead, pendingUpdate, complete]
    · simp only [pending, lookup_erase, if_neg isRid]
      rfl
  · by_cases isRid : other = rid
    · simp [isRid, answered, noRead]
    · simp only [lookup_erase, if_neg isRid, related.resps, answered]
      rfl

/-- The read was guessed to answer at the version at which it does. -/
theorem related_finishReadonly (inv : Inv s) (step : FinishReadonly s s' rid version returnValue)
    (related : Related (update guess rid version) s t) :
    ∃ t', OneWeak t (.endOp rid returnValue) t' ∧ Related guess s' t' := by
  obtain ⟨_, _, reading, -, -, complete, rfl, returned⟩ := step
  obtain ⟨noReq, noResp⟩ := inv.not_update_of_read reading
  have responded : t.resps.lookup rid = some returnValue := by
    rw [related.resps, answered, reading, noResp, returned]
    simp [answeredRead, complete]
  refine ⟨_, weak_endOp responded, related.state, fun other => ?_, fun other => ?_⟩
  · rw [related.reqs]
    by_cases isRid : other = rid
    · simp [isRid, pending, noReq, noResp, reading, pendingRead, complete]
    · simp only [pending, lookup_erase, if_neg isRid, update_of_ne isRid]
      rfl
  · by_cases isRid : other = rid
    · simp [isRid, answered, noResp]
    · simp only [lookup_erase, if_neg isRid, related.resps, answered, update_of_ne isRid]
      rfl

theorem internalNext_weak {t t' : OneVariables nrifc} {input : nrifc.Input}
    {output : nrifc.ReturnType}
    (next : AsyncStateMachine.InternalNext (nrOne nrifc) rid input output t t') :
    OneWeak t .internalOp t' :=
  .single (Or.inr ⟨rid, input, output, next⟩)

/-- A read that waits for a later version may answer at the complete tail instead. -/
theorem related_resolveRead (rid : RequestId) (inv : Inv s) (related : Related guess s t)
    (waits : s.ctail < guess rid) :
    ∃ t', OneWeak t .internalOp t' ∧ Related (update guess rid s.ctail) s t' := by
  by_cases seen : ∃ ctailAtStart op, s.readonlyReqs.lookup rid = some (.readReq ctailAtStart op)
  · obtain ⟨ctailAtStart, op, reading⟩ := seen
    obtain ⟨noReq, noResp⟩ := inv.not_update_of_read reading
    have requested : t.reqs.lookup rid = some (.rOp op) := by
      simp [related.reqs, pending, noReq, noResp, reading, pendingRead, not_le.mpr waits]
    refine ⟨⟨t.s, t.reqs.erase rid, t.resps.insert rid (nrifc.read t.s op)⟩,
      internalNext_weak ⟨requested, rfl, rfl, rfl, rfl⟩, related.state,
      fun other => ?_, fun other => ?_⟩
    · by_cases isRid : other = rid
      · simp [isRid, pending, noReq, noResp, reading, pendingRead]
      · simp only [lookup_erase, if_neg isRid, related.reqs, pending, update_of_ne isRid]
    · by_cases isRid : other = rid
      · simp [isRid, answered, noResp, reading, answeredRead, related.state]
      · simp only [lookup_insert, if_neg isRid, related.resps, answered, update_of_ne isRid]
  · refine ⟨t, .refl t, related.congr fun other ctailAtStart op reading => ?_⟩
    have isOther : other ≠ rid := by
      rintro rfl
      exact seen ⟨ctailAtStart, op, reading⟩
    rw [update_of_ne isOther]

section

variable (inv : Inv s)

include inv

theorem related_resolveReads (related : Related guess s t) (rids : Finset RequestId)
    (wait : ∀ rid ∈ rids, s.ctail < guess rid) :
    ∃ t', OneWeak t .internalOp t' ∧
      Related (fun rid => if rid ∈ rids then s.ctail else guess rid) s t' := by
  induction rids using Finset.induction with
  | empty => exact ⟨t, .refl t, by simpa using related⟩
  | insert rid rids notIn ih =>
    obtain ⟨_, before, relatedMiddle⟩ :=
      ih fun other inside => wait other (Finset.mem_insert_of_mem inside)
    obtain ⟨t', after, relatedAfter⟩ := related_resolveRead rid inv relatedMiddle (by
      rw [if_neg notIn]
      exact wait rid (Finset.mem_insert_self rid rids))
    refine ⟨t', before.trans after, ?_⟩
    convert relatedAfter using 1
    funext other
    by_cases isRid : other = rid <;> simp [isRid]

theorem related_readCtail (step : ReadCtail s s' rid) (possible : Possible guess s')
    (related : Related guess s t) : ∃ t', OneWeak t .internalOp t' ∧ Related guess s' t' := by
  have inv' := inv_readCtail inv step
  obtain ⟨op, reading, rfl⟩ := step
  have atLeast : s.ctail ≤ guess rid := possible rid s.ctail op (by simp)
  obtain ⟨noReq, noResp⟩ := inv.not_update_of_read reading
  have waiting : ∀ version, s.ctail < version → Related (update guess rid version)
      { s with readonlyReqs := s.readonlyReqs.insert rid (.readReq s.ctail op) } t := by
    intro version later
    refine ⟨related.state, fun other => ?_, fun other => ?_⟩
    · rw [related.reqs]
      by_cases isRid : other = rid
      · simp [isRid, pending, noReq, noResp, reading, pendingRead, not_le.mpr later]
      · simp only [pending, lookup_insert, if_neg isRid, update_of_ne isRid]
        rfl
    · rw [related.resps]
      by_cases isRid : other = rid
      · simp [isRid, answered, noResp, reading, answeredRead, not_le.mpr later]
      · simp only [answered, lookup_insert, if_neg isRid, update_of_ne isRid]
        rfl
  obtain atCtail | later := atLeast.eq_or_lt
  · obtain ⟨t', weak, relatedAfter⟩ := related_resolveRead rid inv'
      (waiting (s.ctail + 1) (by omega)) (by simp)
    refine ⟨t', weak, ?_⟩
    simpa [atCtail] using relatedAfter
  · exact ⟨t, .refl t, by simpa using waiting (guess rid) later⟩

/-- The update at the complete tail takes effect; the reads that answer at the new tail still
wait. -/
theorem related_applyEntry (below : s.ctail < s.log.length)
    (related : Related guess s t) :
    ∃ t', OneWeak t .internalOp t' ∧
      Related (fun rid => if guess rid = s.ctail + 1 then s.ctail + 2 else guess rid)
        { s with ctail := s.ctail + 1 } t' := by
  obtain ⟨rid, responding⟩ := inv.owner le_rfl below
  obtain ⟨op, entry⟩ : ∃ op, s.log[s.ctail]? = some op := ⟨_, List.getElem?_eq_getElem below⟩
  have noRead := inv.updateResps_only responding
  have noReq : s.updateReqs.lookup rid = none :=
    Option.eq_none_iff_forall_ne_some.mpr fun op found => by
      simp [(inv.updateReqs_only found).1] at responding
  have requested : t.reqs.lookup rid = some (.uOp op) := by
    simp [related.reqs, pending, noReq, responding, pendingUpdate, entry]
  have newState : stateAtVersion s.log (s.ctail + 1) = some (nrifc.update t.s op).newState := by
    have state := related.state
    rw [stateAtVersion] at state
    simp [stateAtVersion, NRIfc.stateAtVersion, state, entry]
  -- No other update is at the entry, and no read changes sides.
  have sameUpdate : ∀ other, other ≠ rid → ∀ resp, s.updateResps.lookup other = some resp →
      (resp.idxInLog < s.ctail + 1 ↔ resp.idxInLog < s.ctail) := by
    intro other isOther resp found
    have notAt : resp.idxInLog ≠ s.ctail := fun same =>
      isOther (inv.owner_unique found (by cases resp; subst same; exact responding))
    omega
  have sameRead : ∀ version,
      (if version = s.ctail + 1 then s.ctail + 2 else version) ≤ s.ctail + 1 ↔
        version ≤ s.ctail := by
    intro version
    split <;> omega
  have versionEq : ∀ version, version ≤ s.ctail →
      (if version = s.ctail + 1 then s.ctail + 2 else version) = version := by
    intro version complete
    rw [if_neg (by omega)]
  refine ⟨⟨(nrifc.update t.s op).newState, t.reqs.erase rid,
      t.resps.insert rid (nrifc.update t.s op).returnValue⟩,
    internalNext_weak ⟨requested, rfl, rfl, rfl⟩, newState, fun other => ?_, fun other => ?_⟩
  · by_cases isRid : other = rid
    · simp [isRid, pending, noReq, noRead, responding, pendingUpdate]
    · rw [lookup_erase, if_neg isRid, related.reqs, pending, pending]
      congr 2
      · cases found : s.updateResps.lookup other with
        | none => rfl
        | some resp => simp [pendingUpdate, sameUpdate other isRid resp found]
      · funext req
        cases req <;> simp [pendingRead, sameRead]
  · by_cases isRid : other = rid
    · simp [isRid, answered, noRead, responding, answeredUpdate, related.state, entry]
    · rw [lookup_insert, if_neg isRid, related.resps, answered, answered]
      congr 1
      · cases found : s.updateResps.lookup other with
        | none => rfl
        | some resp => simp [answeredUpdate, sameUpdate other isRid resp found]
      · congr 1
        funext req
        cases req with
        | readInit op => rfl
        | readReq ctailAtStart op =>
          simp only [answeredRead, sameRead]
          exact if_ctx_congr Iff.rfl (fun complete => by rw [versionEq _ complete]) fun _ => rfl

theorem related_passEntry (below : s.ctail < s.log.length) (related : Related guess s t) :
    ∃ t', OneWeak t .internalOp t' ∧ Related guess { s with ctail := s.ctail + 1 } t' := by
  have inv' : Inv { s with ctail := s.ctail + 1 } :=
    inv_increaseCtail inv ⟨Nat.le_succ _, below, rfl⟩
  obtain ⟨_, before, relatedMiddle⟩ := related_applyEntry inv below related
  obtain ⟨t', after, relatedAfter⟩ := related_resolveReads inv' relatedMiddle
    (s.readonlyReqs.support.filter fun rid => guess rid = s.ctail + 1) (by
      intro rid inside
      simp [(Finset.mem_filter.mp inside).2])
  refine ⟨t', before.trans after, relatedAfter.congr fun rid ctailAtStart op reading => ?_⟩
  have inSupport : rid ∈ s.readonlyReqs.support :=
    (s.readonlyReqs.mem_support rid).mpr (Option.isSome_iff_exists.mpr ⟨_, reading⟩)
  by_cases atCtail : guess rid = s.ctail + 1 <;> simp [atCtail, inSupport]

theorem related_passEntries (related : Related guess s t) (count : Nat)
    (inside : s.ctail + count ≤ s.log.length) :
    ∃ t', OneWeak t .internalOp t' ∧ Related guess { s with ctail := s.ctail + count } t' := by
  induction count with
  | zero => exact ⟨t, .refl t, related⟩
  | succ count ih =>
    obtain ⟨_, before, relatedMiddle⟩ := ih (by omega)
    have invMiddle : Inv { s with ctail := s.ctail + count } :=
      inv_increaseCtail inv ⟨Nat.le_add_right _ _, by omega, rfl⟩
    obtain ⟨t', after, relatedAfter⟩ := related_passEntry invMiddle (by
      dsimp only
      omega) relatedMiddle
    exact ⟨t', before.trans after, relatedAfter⟩

theorem related_increaseCtail (step : IncreaseCtail s s' newCtail)
    (related : Related guess s t) : ∃ t', OneWeak t .internalOp t' ∧ Related guess s' t' := by
  obtain ⟨ctail_le, le_log, rfl⟩ := step
  obtain ⟨count, rfl⟩ := Nat.exists_eq_add_of_le ctail_le
  exact related_passEntries inv related count le_log

end

theorem related_init (initial : Init s) (guess : Guess) :
    ∃ t, (asyncStateMachine (nrOne nrifc)).Init t ∧ Related guess s t := by
  subst initial
  refine ⟨⟨nrifc.initState, FiniteMap.empty, FiniteMap.empty⟩, ⟨rfl, rfl, rfl⟩, rfl, ?_, ?_⟩
  · simp [pending]
  · simp [answered]

theorem prophecySimulation : ProphecySimulation (nrSimple nrifc) (asyncStateMachine (nrOne nrifc))
    Inv Possible Related where
  inductive' := inductive_inv
  init := related_init
  next := by
    rintro s s' op inv ⟨step, holds⟩ guess possible
    cases step with
    | startUpdate rid uop =>
      obtain ⟨rfl, step⟩ := holds
      refine ⟨guess, ?_, fun t related => related_startUpdate step related⟩
      obtain ⟨-, rfl⟩ := step
      exact possible
    | addUpdateToLog requestIds =>
      obtain ⟨rfl, step⟩ := holds
      refine ⟨guess, ?_, fun t related => ⟨t, .refl t, related_addUpdateToLog inv step related⟩⟩
      obtain ⟨-, _, -, rfl⟩ := step
      exact possible
    | endUpdate rid returnValue =>
      obtain ⟨rfl, step⟩ := holds
      refine ⟨guess, ?_, fun t related => related_endUpdate inv step related⟩
      obtain ⟨-, -, -, -, -, rfl, -⟩ := step
      exact possible
    | increaseCtail newCtail =>
      obtain ⟨rfl, step⟩ := holds
      refine ⟨guess, ?_, fun t related => related_increaseCtail inv step related⟩
      obtain ⟨-, -, rfl⟩ := step
      exact possible
    | startReadonly rid rop =>
      obtain ⟨rfl, step⟩ := holds
      refine ⟨guess, ?_, fun t related => related_startReadonly step related⟩
      obtain ⟨fresh, rfl⟩ := step
      intro other ctailAtStart op reading
      have isOther : other ≠ rid := by
        rintro rfl
        simp [fresh.readonlyReqs] at reading
      exact possible other ctailAtStart op (by simpa [isOther] using reading)
    | readCtail rid =>
      obtain ⟨rfl, step⟩ := holds
      refine ⟨guess, ?_, fun t related => related_readCtail inv step possible related⟩
      obtain ⟨op, unseen, rfl⟩ := step
      intro other ctailAtStart op' reading
      have isOther : other ≠ rid := by
        rintro rfl
        simp [unseen] at reading
      exact possible other ctailAtStart op' (by simpa [isOther] using reading)
    | finishReadonly rid version returnValue =>
      obtain ⟨rfl, step⟩ := holds
      refine ⟨update guess rid version, ?_,
        fun t related => related_finishReadonly inv step related⟩
      obtain ⟨ctailAtStart, op, seen, atLeast, -, -, rfl, -⟩ := step
      intro other ctailAtStart' op' reading
      by_cases isRid : other = rid
      · subst isRid
        obtain ⟨rfl, -⟩ : ctailAtStart = ctailAtStart' ∧ op = op' := by
          simpa [seen] using reading
        simpa using atLeast
      · rw [update_of_ne isRid]
        exact possible other ctailAtStart' op' (by simpa [isRid] using reading)
    | stutter =>
      obtain ⟨rfl, rfl⟩ := holds
      exact ⟨guess, possible, fun t related => ⟨t, .refl t, related⟩⟩

/-- Clients see every behavior of the replicated machine as one of a single copy. -/
theorem existsEquivBehavior (nrifc : NRIfc)
    (a : Behavior (Variables nrifc) nrifc.Input nrifc.ReturnType) (wf : a.WF (nrSimple nrifc)) :
    ∃ b : Behavior (OneVariables nrifc) nrifc.Input nrifc.ReturnType,
      b.WF (asyncStateMachine (nrOne nrifc)) ∧ Equiv a b ∧ a.trace = b.trace := by
  have inv := invariant_of_wf inductive_inv wf
  have possible : Possible (fun _ => a.s.ctail) a.s :=
    fun _ _ _ reading => inv.ctailAtStart_le reading
  obtain ⟨b, wfB, sameTrace, -⟩ := prophecySimulation.exists_behavior wf possible
  exact ⟨b, wfB, equiv_of_trace_eq sameTrace, sameTrace⟩

/-- A counter, whose updates return its old value. -/
abbrev counter : NRIfc where
  NRState := Nat
  UpdateOp := Unit
  ReadonlyOp := Unit
  ReturnType := Nat
  initState := 0
  update state _ := ⟨state + 1, state⟩
  read state _ := state

/-- An update is complete before a read that overlaps with it answers at the version
before the update. -/
def staleRead : Behavior (Variables counter) counter.Input counter.ReturnType :=
  let started : Variables counter :=
    ⟨[], 0, FiniteMap.empty.insert 0 (.readInit ()), FiniteMap.empty.insert 1 (), FiniteMap.empty⟩
  let seen := { started with readonlyReqs := started.readonlyReqs.insert 0 (.readReq 0 ()) }
  let logged := { seen with
    log := [()]
    updateReqs := seen.updateReqs.mapFilter [1]
    updateResps := seen.updateResps.mapUpdate (constructUpdateResponses [1] 0) }
  let complete := { logged with ctail := 1 }
  let ended := { complete with updateResps := complete.updateResps.erase 1 }
  .stepped { ended with readonlyReqs := ended.readonlyReqs.erase 0 } (.endOp 0 0)
    (.stepped ended (.endOp 1 0)
      (.stepped complete .internalOp
        (.stepped logged .internalOp
          (.stepped seen .internalOp
            (.stepped started (.start 1 (.uOp ()))
              (.stepped { started with updateReqs := FiniteMap.empty } (.start 0 (.rOp ()))
                (.inited ⟨[], 0, FiniteMap.empty, FiniteMap.empty, FiniteMap.empty⟩)))))))

theorem wf_staleRead : staleRead.WF (nrSimple counter) := by
  refine ⟨⟨⟨⟨⟨⟨⟨rfl, .startReadonly 0 (), rfl, ⟨rfl, rfl, rfl⟩, rfl⟩,
    .startUpdate 1 (), rfl, ⟨rfl, rfl, rfl⟩, rfl⟩, .readCtail 0, rfl, (), rfl, rfl⟩,
    .addUpdateToLog [1], rfl, by simp, [()], rfl, rfl⟩,
    .increaseCtail 1, rfl, by decide, le_rfl, rfl⟩,
    .endUpdate 1 0, rfl, 0, (), rfl, Nat.zero_lt_one, rfl, rfl, rfl⟩,
    .finishReadonly 0 0 0, rfl, 0, (), rfl, le_rfl, Nat.zero_le _, Nat.zero_le _, rfl, rfl⟩

theorem existsEquivBehavior_staleRead :
    ∃ b : Behavior (OneVariables counter) counter.Input counter.ReturnType,
      b.WF (asyncStateMachine (nrOne counter)) ∧ Equiv staleRead b ∧ staleRead.trace = b.trace :=
  existsEquivBehavior counter staleRead wf_staleRead

end VerifiedBetrfs.NRSimple
