import VerifiedBetrfs.FiniteMap

/-!
# Requests on their way to a server and back

As long as a client issues a request only for an address without one, there is at most one request
or answer for each address.
-/

namespace VerifiedBetrfs

universe u v

/-- The requests of a client and the answers to it, by address. -/
structure Traffic (Id : Type u) (Addr : Type v) where
  reqs : Set Addr
  sent : IMap Id Addr
  answered : IMap Id Addr
  resps : Set Addr

namespace Traffic

variable {Id : Type u} {Addr : Type v} {traffic : Traffic Id Addr} {id : Id} {addr : Addr}

/-- There is at most one request or answer for each address, and an id names at most one. -/
structure WF (traffic : Traffic Id Addr) : Prop where
  id_unique : ∀ {id addr}, traffic.sent id = some addr → traffic.answered id = none
  sent_unique : ∀ {id id' addr}, traffic.sent id = some addr →
      traffic.sent id' = some addr → id = id'
  answered_unique : ∀ {id id' addr}, traffic.answered id = some addr →
    traffic.answered id' = some addr → id = id'
  sent_answered : ∀ {id id' addr}, traffic.sent id = some addr → traffic.answered id' ≠ some addr
  req_resp : ∀ {addr}, addr ∈ traffic.reqs → addr ∉ traffic.resps
  sent_req : ∀ {id addr}, traffic.sent id = some addr → addr ∉ traffic.reqs
  sent_resp : ∀ {id addr}, traffic.sent id = some addr → addr ∉ traffic.resps
  answered_req : ∀ {id addr}, traffic.answered id = some addr → addr ∉ traffic.reqs
  answered_resp : ∀ {id addr}, traffic.answered id = some addr → addr ∉ traffic.resps

/-- There is a request or an answer for the address. -/
def InFlight (traffic : Traffic Id Addr) (addr : Addr) : Prop :=
  addr ∈ traffic.reqs ∨ (∃ id, traffic.sent id = some addr) ∨
    (∃ id, traffic.answered id = some addr) ∨ addr ∈ traffic.resps

def none : Traffic Id Addr := ⟨∅, IMap.empty, IMap.empty, ∅⟩

theorem wf_none : (none : Traffic Id Addr).WF := by
  constructor <;> simp [none, IMap.empty]

theorem not_inFlight_none : ¬ (none : Traffic Id Addr).InFlight addr := by
  simp [InFlight, none, IMap.empty]

def issue (traffic : Traffic Id Addr) (addr : Addr) : Traffic Id Addr :=
  { traffic with reqs := insert addr traffic.reqs }

def finish (traffic : Traffic Id Addr) (addr : Addr) : Traffic Id Addr :=
  { traffic with resps := traffic.resps \ {addr} }

variable [DecidableEq Id]

section

variable (traffic : Traffic Id Addr) (id : Id) (addr : Addr)

def send : Traffic Id Addr :=
  { traffic with
    reqs := traffic.reqs \ {addr}
    sent := traffic.sent.update id addr }

def answer : Traffic Id Addr :=
  { traffic with
    sent := traffic.sent.remove1 id
    answered := traffic.answered.update id addr }

def receive : Traffic Id Addr :=
  { traffic with
    answered := traffic.answered.remove1 id
    resps := insert addr traffic.resps }

end

section Fields

variable (traffic id addr) (other : Addr) (id' : Id)

omit [DecidableEq Id]

@[simp, grind =]
theorem mem_reqs_issue : other ∈ (traffic.issue addr).reqs ↔ other = addr ∨ other ∈ traffic.reqs :=
  Iff.rfl

@[simp, grind =]
theorem sent_issue : (traffic.issue addr).sent id' = traffic.sent id' := rfl

@[simp, grind =]
theorem answered_issue : (traffic.issue addr).answered id' = traffic.answered id' := rfl

@[simp, grind =]
theorem resps_issue : (traffic.issue addr).resps = traffic.resps := rfl

@[simp, grind =]
theorem reqs_finish : (traffic.finish addr).reqs = traffic.reqs := rfl

@[simp, grind =]
theorem sent_finish : (traffic.finish addr).sent id' = traffic.sent id' := rfl

@[simp, grind =]
theorem answered_finish : (traffic.finish addr).answered id' = traffic.answered id' := rfl

@[simp, grind =]
theorem mem_resps_finish :
    other ∈ (traffic.finish addr).resps ↔ other ∈ traffic.resps ∧ other ≠ addr := Iff.rfl

variable [DecidableEq Id]

@[simp, grind =]
theorem mem_reqs_send : other ∈ (traffic.send id addr).reqs ↔ other ∈ traffic.reqs ∧ other ≠ addr :=
  Iff.rfl

@[simp, grind =]
theorem sent_send :
    (traffic.send id addr).sent id' = if id' = id then some addr else traffic.sent id' :=
  IMap.update_eq_ite traffic.sent id id' addr

@[simp, grind =]
theorem answered_send : (traffic.send id addr).answered id' = traffic.answered id' := rfl

@[simp, grind =]
theorem resps_send : (traffic.send id addr).resps = traffic.resps := rfl

@[simp, grind =]
theorem reqs_answer : (traffic.answer id addr).reqs = traffic.reqs := rfl

@[simp, grind =]
theorem sent_answer :
    (traffic.answer id addr).sent id' = if id' = id then Option.none else traffic.sent id' :=
  IMap.remove1_eq_ite traffic.sent id id'

@[simp, grind =]
theorem answered_answer :
    (traffic.answer id addr).answered id' = if id' = id then some addr else traffic.answered id' :=
  IMap.update_eq_ite traffic.answered id id' addr

@[simp, grind =]
theorem resps_answer : (traffic.answer id addr).resps = traffic.resps := rfl

@[simp, grind =]
theorem reqs_receive : (traffic.receive id addr).reqs = traffic.reqs := rfl

@[simp, grind =]
theorem sent_receive : (traffic.receive id addr).sent id' = traffic.sent id' := rfl

@[simp, grind =]
theorem answered_receive :
    (traffic.receive id addr).answered id' =
      if id' = id then Option.none else traffic.answered id' :=
  IMap.remove1_eq_ite traffic.answered id id'

@[simp, grind =]
theorem mem_resps_receive :
    other ∈ (traffic.receive id addr).resps ↔ other = addr ∨ other ∈ traffic.resps := Iff.rfl

end Fields

omit [DecidableEq Id] in
theorem WF.issue (wf : traffic.WF) (idle : ¬ traffic.InFlight addr) : (traffic.issue addr).WF := by
  obtain ⟨_, _, _, _, _, _, _, _, _⟩ := wf
  constructor <;> grind [InFlight]

omit [DecidableEq Id] in
theorem WF.finish (wf : traffic.WF) : (traffic.finish addr).WF := by
  obtain ⟨_, _, _, _, _, _, _, _, _⟩ := wf
  constructor <;> grind

theorem WF.send (wf : traffic.WF) (issued : addr ∈ traffic.reqs) (_ : traffic.sent id = Option.none)
    (fresh' : traffic.answered id = Option.none) : (traffic.send id addr).WF := by
  obtain ⟨_, _, _, _, _, _, _, _, _⟩ := wf
  constructor <;> grind

theorem WF.answer (wf : traffic.WF) (isSent : traffic.sent id = some addr) :
    (traffic.answer id addr).WF := by
  obtain ⟨_, _, _, _, _, _, _, _, _⟩ := wf
  constructor <;> grind

theorem WF.receive (wf : traffic.WF) (isAnswered : traffic.answered id = some addr) :
    (traffic.receive id addr).WF := by
  obtain ⟨_, _, _, _, _, _, _, _, _⟩ := wf
  constructor <;> grind

variable {other : Addr}

omit [DecidableEq Id] in
theorem inFlight_of_issue (inFlight : (traffic.issue addr).InFlight other) :
    other = addr ∨ traffic.InFlight other := by
  simpa [InFlight, or_assoc] using inFlight

omit [DecidableEq Id] in
theorem WF.inFlight_of_finish (wf : traffic.WF) (isResp : addr ∈ traffic.resps)
    (inFlight : (traffic.finish addr).InFlight other) : traffic.InFlight other ∧ other ≠ addr := by
  obtain ⟨_, _, _, _, _, _, _, _, _⟩ := wf
  grind [InFlight]

theorem inFlight_of_send (issued : addr ∈ traffic.reqs)
    (inFlight : (traffic.send id addr).InFlight other) : traffic.InFlight other := by
  grind [InFlight]

theorem inFlight_of_answer (isSent : traffic.sent id = some addr)
    (inFlight : (traffic.answer id addr).InFlight other) : traffic.InFlight other := by
  grind [InFlight]

theorem inFlight_of_receive (isAnswered : traffic.answered id = some addr)
    (inFlight : (traffic.receive id addr).InFlight other) : traffic.InFlight other := by
  grind [InFlight]

end Traffic

end VerifiedBetrfs
