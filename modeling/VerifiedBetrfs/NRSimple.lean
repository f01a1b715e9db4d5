import VerifiedBetrfs.AsyncMachine

/-!
# Node replication over one log

`nrOne` keeps one copy of a data structure, `nrSimple` a log of its updates and a complete tail.
-/

namespace VerifiedBetrfs

/-- The number of nodes, each with a replica of the data structure. -/
def numReplicas : Nat := 4

/-- The state and the answer after an update. -/
structure UpdateResult (NRState ReturnType : Type) where
  newState : NRState
  returnValue : ReturnType

/-- A sequential data structure. -/
structure NRIfc where
  NRState : Type
  UpdateOp : Type
  ReadonlyOp : Type
  ReturnType : Type
  initState : NRState
  update : NRState → UpdateOp → UpdateResult NRState ReturnType
  read : NRState → ReadonlyOp → ReturnType

namespace NRIfc

/-- A read or an update. -/
inductive Input (nrifc : NRIfc) where
  | rOp (readonlyOp : nrifc.ReadonlyOp)
  | uOp (updateOp : nrifc.UpdateOp)

variable (nrifc : NRIfc)

/-- The state after the first `version` entries of a log. -/
def stateAtVersion (entry : Nat → Option nrifc.UpdateOp) : Nat → Option nrifc.NRState
  | 0 => some nrifc.initState
  | version + 1 => do
    let state ← stateAtVersion entry version
    let op ← entry version
    return (nrifc.update state op).newState

variable {nrifc}

theorem stateAtVersion_congr {entry entry' : Nat → Option nrifc.UpdateOp} {version : Nat}
    (same : ∀ index < version, entry index = entry' index) :
    nrifc.stateAtVersion entry version = nrifc.stateAtVersion entry' version := by
  induction version with
  | zero => rfl
  | succ version ih =>
    rw [stateAtVersion, stateAtVersion, ih fun index below => same index (by omega),
      same version (by omega)]

end NRIfc

def nrOne (nrifc : NRIfc) :
    StateMachine nrifc.NRState (InputOutput nrifc.Input nrifc.ReturnType) where
  Init s := s = nrifc.initState
  Next s s' op :=
    match op.input with
    | .rOp readonlyOp => op.output = nrifc.read s readonlyOp ∧ s' = s
    | .uOp updateOp => nrifc.update s updateOp = ⟨s', op.output⟩

namespace NRSimple

/-- A read, with the complete tail when it has seen it. -/
inductive ReadReq (nrifc : NRIfc) where
  | readInit (op : nrifc.ReadonlyOp)
  | readReq (ctailAtStart : Nat) (op : nrifc.ReadonlyOp)

/-- An update that is in the log. -/
structure UpdateResp where
  idxInLog : Nat

/-- The log, its complete tail and the requests. -/
structure Variables (nrifc : NRIfc) where
  log : List nrifc.UpdateOp
  ctail : Nat
  readonlyReqs : FiniteMap RequestId (ReadReq nrifc)
  updateReqs : FiniteMap RequestId nrifc.UpdateOp
  updateResps : FiniteMap RequestId UpdateResp

variable {nrifc : NRIfc}

def Init (s : Variables nrifc) : Prop :=
  s = ⟨[], 0, FiniteMap.empty, FiniteMap.empty, FiniteMap.empty⟩

/-- The state after the first entries of the log. -/
def stateAtVersion (log : List nrifc.UpdateOp) (version : Nat) : Option nrifc.NRState :=
  nrifc.stateAtVersion (fun index => log[index]?) version

/-- The complete tail moves up. -/
structure IncreaseCtail (s s' : Variables nrifc) (newCtail : Nat) : Prop where
  ctail_le : s.ctail ≤ newCtail
  le_log : newCtail ≤ s.log.length
  eq : s' = { s with ctail := newCtail }

/-- No request has the identifier. -/
structure Fresh (s : Variables nrifc) (rid : RequestId) : Prop where
  updateReqs : s.updateReqs.lookup rid = none
  updateResps : s.updateResps.lookup rid = none
  readonlyReqs : s.readonlyReqs.lookup rid = none

section

variable (s s' : Variables nrifc) (rid : RequestId)

def StartReadonly (op : nrifc.ReadonlyOp) : Prop :=
  Fresh s rid ∧ s' = { s with readonlyReqs := s.readonlyReqs.insert rid (.readInit op) }

/-- A read learns the complete tail. -/
def ReadCtail : Prop :=
  ∃ op, s.readonlyReqs.lookup rid = some (.readInit op) ∧
    s' = { s with readonlyReqs := s.readonlyReqs.insert rid (.readReq s.ctail op) }

/-- A read ends with the result of a version since its start. -/
def FinishReadonly (version : Nat) (returnValue : nrifc.ReturnType) : Prop :=
  ∃ ctailAtStart op, s.readonlyReqs.lookup rid = some (.readReq ctailAtStart op) ∧
    ctailAtStart ≤ version ∧ version ≤ s.log.length ∧ version ≤ s.ctail ∧
    s' = { s with readonlyReqs := s.readonlyReqs.erase rid } ∧
    some returnValue = (stateAtVersion s.log version).map (nrifc.read · op)

def StartUpdate (op : nrifc.UpdateOp) : Prop :=
  Fresh s rid ∧ s' = { s with updateReqs := s.updateReqs.insert rid op }

end

/-- Defined if every request of the list has an operation. -/
def constructNewLogEntries (requestIds : List RequestId)
    (updateReqs : FiniteMap RequestId nrifc.UpdateOp) : Option (List nrifc.UpdateOp) :=
  requestIds.mapM updateReqs.lookup

def constructUpdateResponses : List RequestId → Nat → FiniteMap RequestId UpdateResp
  | [], _ => FiniteMap.empty
  | rid :: requestIds, idx => (constructUpdateResponses requestIds (idx + 1)).insert rid ⟨idx⟩

/-- A batch of updates is put into the log. -/
def AddUpdateToLog (s s' : Variables nrifc) (requestIds : List RequestId) : Prop :=
  requestIds.Nodup ∧
    ∃ newLogEntries, constructNewLogEntries requestIds s.updateReqs = some newLogEntries ∧
      s' = { s with
        log := s.log ++ newLogEntries
        updateReqs := s.updateReqs.mapFilter requestIds
        updateResps :=
          s.updateResps.mapUpdate (constructUpdateResponses requestIds s.log.length) }

/-- An update ends once the complete tail is past it. -/
def EndUpdate (s s' : Variables nrifc) (rid : RequestId) (returnValue : nrifc.ReturnType) :
    Prop :=
  ∃ idx op, s.updateResps.lookup rid = some ⟨idx⟩ ∧ idx < s.ctail ∧ s.log[idx]? = some op ∧
    s' = { s with updateResps := s.updateResps.erase rid } ∧
    some returnValue = (stateAtVersion s.log idx).map fun state =>
      (nrifc.update state op).returnValue

/-- The steps of the replicated machine. -/
inductive Step (nrifc : NRIfc) where
  | startUpdate (rid : RequestId) (uop : nrifc.UpdateOp)
  | addUpdateToLog (requestIds : List RequestId)
  | endUpdate (rid : RequestId) (returnValue : nrifc.ReturnType)
  | increaseCtail (newCtail : Nat)
  | startReadonly (rid : RequestId) (rop : nrifc.ReadonlyOp)
  | readCtail (rid : RequestId)
  | finishReadonly (rid : RequestId) (version : Nat) (returnValue : nrifc.ReturnType)
  | stutter

section

variable (s s' : Variables nrifc) (op : AsyncOp nrifc.Input nrifc.ReturnType)

def NextStep : Step nrifc → Prop
  | .startUpdate rid uop => op = .start rid (.uOp uop) ∧ StartUpdate s s' rid uop
  | .addUpdateToLog requestIds => op = .internalOp ∧ AddUpdateToLog s s' requestIds
  | .endUpdate rid returnValue => op = .endOp rid returnValue ∧ EndUpdate s s' rid returnValue
  | .increaseCtail newCtail => op = .internalOp ∧ IncreaseCtail s s' newCtail
  | .readCtail rid => op = .internalOp ∧ ReadCtail s s' rid
  | .startReadonly rid rop => op = .start rid (.rOp rop) ∧ StartReadonly s s' rid rop
  | .finishReadonly rid version returnValue =>
    op = .endOp rid returnValue ∧ FinishReadonly s s' rid version returnValue
  | .stutter => op = .internalOp ∧ s' = s

def Next : Prop := ∃ step, NextStep s s' op step

end

variable {requestIds : List RequestId} {updateReqs : FiniteMap RequestId nrifc.UpdateOp}

theorem getElem?_constructNewLogEntries {entries : List nrifc.UpdateOp}
    (constructed : constructNewLogEntries requestIds updateReqs = some entries) :
    entries.length = requestIds.length ∧
      ∀ index : Nat, entries[index]? = requestIds[index]?.bind updateReqs.lookup := by
  induction requestIds generalizing entries with
  | nil =>
    obtain rfl : [] = entries := by simpa [constructNewLogEntries] using constructed
    simp
  | cons rid requestIds ih =>
    obtain ⟨op, found, rest, restConstructed, rfl⟩ :
        ∃ op, updateReqs.lookup rid = some op ∧
          ∃ rest, constructNewLogEntries requestIds updateReqs = some rest ∧
            op :: rest = entries := by
      simpa [constructNewLogEntries, Option.bind_eq_some_iff] using constructed
    obtain ⟨sameLength, getRest⟩ := ih restConstructed
    refine ⟨by simp [sameLength], fun index => ?_⟩
    cases index with
    | zero => simp [found]
    | succ index => simpa using getRest index

theorem exists_constructNewLogEntries
    (wanted : ∀ rid ∈ requestIds, ∃ op, updateReqs.lookup rid = some op) :
    ∃ entries, constructNewLogEntries requestIds updateReqs = some entries := by
  induction requestIds with
  | nil => exact ⟨[], rfl⟩
  | cons rid requestIds ih =>
    obtain ⟨op, found⟩ := wanted rid List.mem_cons_self
    obtain ⟨entries, constructed⟩ := ih fun other inside =>
      wanted other (List.mem_cons_of_mem rid inside)
    rw [constructNewLogEntries] at constructed
    exact ⟨op :: entries, by simp [constructNewLogEntries, List.mapM_cons, found, constructed]⟩

theorem lookup_constructUpdateResponses (nodup : requestIds.Nodup) (start : Nat) (rid : RequestId)
    (resp : UpdateResp) :
    (constructUpdateResponses requestIds start).lookup rid = some resp ↔
      ∃ index, requestIds[index]? = some rid ∧ resp.idxInLog = start + index := by
  induction requestIds generalizing start with
  | nil => simp [constructUpdateResponses]
  | cons first requestIds ih =>
    obtain ⟨notIn, nodupRest⟩ := List.nodup_cons.mp nodup
    rw [constructUpdateResponses, FiniteMap.lookup_insert]
    by_cases isFirst : rid = first
    · subst isFirst
      rw [if_pos rfl, Option.some.injEq]
      constructor
      · rintro rfl
        exact ⟨0, by simp⟩
      · rintro ⟨index, found, idxEq⟩
        cases index with
        | zero => cases resp; simp_all
        | succ index =>
          exact absurd (List.mem_of_getElem? (by simpa using found)) notIn
    · rw [if_neg isFirst, ih nodupRest]
      constructor
      · rintro ⟨index, found, idxEq⟩
        exact ⟨index + 1, by simpa using found, by omega⟩
      · rintro ⟨index, found, idxEq⟩
        cases index with
        | zero => exact absurd (by simpa using found.symm) isFirst
        | succ index => exact ⟨index, by simpa using found, by omega⟩

theorem lookup_constructUpdateResponses_eq_none (nodup : requestIds.Nodup) (start : Nat)
    {rid : RequestId} :
    (constructUpdateResponses requestIds start).lookup rid = none ↔ rid ∉ requestIds := by
  rw [Option.eq_none_iff_forall_ne_some, List.mem_iff_getElem?]
  simp only [ne_eq, lookup_constructUpdateResponses nodup]
  constructor
  · rintro absent ⟨index, found⟩
    exact absent ⟨start + index⟩ ⟨index, found, rfl⟩
  · rintro absent resp ⟨index, found, -⟩
    exact absent ⟨index, found⟩

end NRSimple

def nrSimple (nrifc : NRIfc) :
    StateMachine (NRSimple.Variables nrifc) (AsyncOp nrifc.Input nrifc.ReturnType) where
  Init := NRSimple.Init
  Next := NRSimple.Next

end VerifiedBetrfs
