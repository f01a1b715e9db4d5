import VerifiedBetrfs.Shards

/-!
# The flat combiner

Each client has a slot for one request.  The combiner collects the requests in a first pass over the
slots and writes the responses in a second one.
-/

namespace VerifiedBetrfs

open FiniteMap (join_empty join_insert lookup_insert lookup_ofFinset lookup_whole_of_join)

namespace FlatCombiner

/-- What a client is waiting for. -/
inductive ClientState where
  | idle
  | waiting (rid : Nat)
  deriving DecidableEq

/-- What the slot of a client holds. -/
inductive SlotState where
  | empty
  | request (rid : Nat)
  | inProgress (rid : Nat)
  | response (rid : Nat)
  deriving DecidableEq

/-- An element is the id of the request that was found in the slot of its position. -/
inductive CombinerState where
  | collecting (elems : List (Option Nat))
  | responding (elems : List (Option Nat)) (idx : Nat)
  deriving DecidableEq

/-- A part of the state of the flat combiner. -/
structure Shard where
  clients : FiniteMap Nat ClientState
  slots : FiniteMap Nat SlotState
  combiner : Option CombinerState

/-- A shard, or nothing if two shards did not fit together. -/
abbrev M := Option Shard

def Shard.dot (x y : Shard) : M := do
  let clients ← x.clients.join y.clients
  let slots ← x.slots.join y.slots
  let combiner ← Exclusive.join x.combiner y.combiner
  return { clients, slots, combiner }

def dot (x y : M) : M := x.bind fun x => y.bind fun y => x.dot y

def Shard.unit : Shard := ⟨.empty, .empty, none⟩

section Transitions

variable (maxThreads : Nat)

def init : Shard where
  clients := .ofFinset (Finset.range maxThreads) fun _ => some .idle
  slots := .ofFinset (Finset.range maxThreads) fun _ => some .empty
  combiner := some (.collecting [])

section

variable (m m' : Shard)

def CombinerDoCollectEmpty : Prop :=
  ∃ elems, m.combiner = some (.collecting elems) ∧ elems.length < maxThreads ∧
    (m.slots.lookup elems.length = some .empty ∨
      ∃ rid, m.slots.lookup elems.length = some (.response rid)) ∧
    m' = { m with combiner := some (.collecting (elems ++ [none])) }

/-- A request is collected. -/
def CombinerDoCollectRequest (tid rid : Nat) : Prop :=
  ∃ elems, m.combiner = some (.collecting elems) ∧ elems.length < maxThreads ∧
    tid = elems.length ∧ m.slots.lookup tid = some (.request rid) ∧
    m' = { m with
      combiner := some (.collecting (elems ++ [some rid]))
      slots := m.slots.insert tid (.inProgress rid) }

/-- The second pass starts. -/
def CombinerGoToResponding : Prop :=
  ∃ elems, m.combiner = some (.collecting elems) ∧ elems.length = maxThreads ∧
    m' = { m with combiner := some (.responding elems 0) }

def CombinerDoResponseSkip : Prop :=
  ∃ elems idx, m.combiner = some (.responding elems idx) ∧ elems[idx]? = some none ∧
    m' = { m with combiner := some (.responding elems (idx + 1)) }

/-- A collected request is answered. -/
def CombinerDoResponse (tid rid : Nat) : Prop :=
  ∃ elems elem, m.combiner = some (.responding elems tid) ∧ elems[tid]? = some (some elem) ∧
    m.slots.lookup tid = some (.inProgress rid) ∧
    m' = { m with
      combiner := some (.responding elems (tid + 1))
      slots := m.slots.insert tid (.response rid) }

def CombinerGoToCollecting : Prop :=
  ∃ elems idx, m.combiner = some (.responding elems idx) ∧ idx = elems.length ∧
    m' = { m with combiner := some (.collecting []) }

end

/-- The slot is overwritten without a look at its state. -/
def FCSend (m m' : Shard) (tid rid : Nat) : Prop :=
  m.clients.lookup tid = some .idle ∧ (m.slots.lookup tid).isSome ∧
    m' = { m with
      clients := m.clients.insert tid (.waiting rid)
      slots := m.slots.insert tid (.request rid) }

/-- The id `rid` is the one in the slot; the client does not compare it with its own. -/
def FCRecv (m m' : Shard) (tid rid : Nat) : Prop :=
  (∃ sent, m.clients.lookup tid = some (.waiting sent)) ∧
    m.slots.lookup tid = some (.response rid) ∧
    m' = { m with
      clients := m.clients.insert tid .idle
      slots := m.slots.insert tid .empty }

/-- What happens to a request in its slot. -/
inductive Kind where
  | sent
  | collected
  | responded
  | received
  deriving DecidableEq

/-- Something happened to the request `rid` of the slot `tid`. -/
structure Event where
  kind : Kind
  tid : Nat
  rid : Nat

/-- A step of one shard, with what it does to a request. -/
inductive Next (m m' : Shard) : Option Event → Prop
  | collectEmpty (step : CombinerDoCollectEmpty maxThreads m m') : Next m m' none
  | collectRequest {tid rid : Nat} (step : CombinerDoCollectRequest maxThreads m m' tid rid) :
      Next m m' (some ⟨.collected, tid, rid⟩)
  | goToResponding (step : CombinerGoToResponding maxThreads m m') : Next m m' none
  | responseSkip (step : CombinerDoResponseSkip m m') : Next m m' none
  | response {tid rid : Nat} (step : CombinerDoResponse m m' tid rid) :
      Next m m' (some ⟨.responded, tid, rid⟩)
  | goToCollecting (step : CombinerGoToCollecting m m') : Next m m' none
  | send {tid rid : Nat} (step : FCSend m m' tid rid) : Next m m' (some ⟨.sent, tid, rid⟩)
  | recv {tid rid : Nat} (step : FCRecv m m' tid rid) : Next m m' (some ⟨.received, tid, rid⟩)

/-- The states after any interleaving of steps of shards, with what happened so far. -/
inductive Reached : Shard → List Event → Prop
  | init : Reached (init maxThreads) []
  | step {m m' rest whole whole' : Shard} {history : List Event} {event : Option Event}
      (reached : Reached whole history) (fits : dot (some m) (some rest) = some whole)
      (next : Next maxThreads m m' event) (fits' : dot (some m') (some rest) = some whole') :
      Reached whole' (history ++ event.toList)

def CombinerState.elems : CombinerState → List (Option Nat)
  | .collecting elems | .responding elems _ => elems

def SlotState.rid? : SlotState → Option Nat
  | .empty => none
  | .request rid | .inProgress rid | .response rid => some rid

def CombinerStateElems : CombinerState → Prop
  | .collecting elems => elems.length ≤ maxThreads
  | .responding elems idx => elems.length = maxThreads ∧ idx ≤ elems.length

def CombinerStateSlotsNotInProgress (slots : FiniteMap Nat SlotState) : CombinerState → Prop
  | .collecting elems =>
    (∀ i rid, elems[i]? = some none → slots.lookup i ≠ some (.inProgress rid)) ∧
      ∀ i rid, elems.length ≤ i → i < maxThreads → slots.lookup i ≠ some (.inProgress rid)
  | .responding elems idx =>
    (∀ i rid, elems[i]? = some none → slots.lookup i ≠ some (.inProgress rid)) ∧
      ∀ i rid, i < idx → slots.lookup i ≠ some (.inProgress rid)

def CombinerStateRequestIds (slots : FiniteMap Nat SlotState) : CombinerState → Prop
  | .collecting elems =>
    ∀ i rid, elems[i]? = some (some rid) → slots.lookup i = some (.inProgress rid)
  | .responding elems idx =>
    ∀ i rid, idx ≤ i → elems[i]? = some (some rid) → slots.lookup i = some (.inProgress rid)

/-- Every client has a slot that fits what it waits for and what was collected. -/
structure WholeInv (x : Shard) (combiner : CombinerState) : Prop where
  isCombiner : x.combiner = some combiner
  clientsComplete : ∀ i, (x.clients.lookup i).isSome ↔ i < maxThreads
  slotsComplete : ∀ i, (x.slots.lookup i).isSome ↔ i < maxThreads
  clientIdleSlotEmpty : ∀ i client slot, x.clients.lookup i = some client →
    x.slots.lookup i = some slot → (client = .idle ↔ slot = .empty)
  clientWaitingRequestId : ∀ i rid slot, x.clients.lookup i = some (.waiting rid) →
    x.slots.lookup i = some slot → slot.rid? = some rid
  combinerStateElems : CombinerStateElems maxThreads combiner
  combinerStateRequestIds : CombinerStateRequestIds x.slots combiner
  combinerStateSlotsNotInProgress : CombinerStateSlotsNotInProgress maxThreads x.slots combiner

def Inv (x : M) : Prop :=
  x ≠ some Shard.unit → ∃ whole combiner, x = some whole ∧ WholeInv maxThreads whole combiner

end Transitions

section Frame

variable {maxThreads : Nat} {m m' rest whole : Shard} {event : Option Event}

/-- The shard `whole` is made of `x` and `y`. -/
structure Joined (x y whole : Shard) : Prop where
  clients : x.clients.join y.clients = some whole.clients
  slots : x.slots.join y.slots = some whole.slots
  combiner : Exclusive.join x.combiner y.combiner = some whole.combiner

theorem dot_eq_some_iff {x y : Shard} : x.dot y = some whole ↔ Joined x y whole := by
  constructor
  · intro fits
    simp only [Shard.dot, Option.bind_eq_bind, Option.bind_eq_some_iff, Option.pure_def,
      Option.some.injEq] at fits
    obtain ⟨_, clientsEq, _, slotsEq, _, combinerEq, rfl⟩ := fits
    exact ⟨clientsEq, slotsEq, combinerEq⟩
  · intro joined
    simp [Shard.dot, joined.clients, joined.slots, joined.combiner]

section

variable (joined : Joined m rest whole)

include joined

theorem Joined.replaceCombiner {combiner : CombinerState}
    (found : m.combiner = some combiner) (combiner' : CombinerState) :
    Joined { m with combiner := some combiner' } rest
      { whole with combiner := some combiner' } :=
  { joined with combiner := Exclusive.join_replace joined.combiner combiner' found }

theorem Joined.replaceSlot {tid : Nat} {slot : SlotState}
    (found : m.slots.lookup tid = some slot) (slot' : SlotState) :
    Joined { m with slots := m.slots.insert tid slot' } rest
      { whole with slots := whole.slots.insert tid slot' } :=
  { joined with slots := join_insert joined.slots slot' found }

theorem Joined.replaceClient {tid : Nat} {client : ClientState}
    (found : m.clients.lookup tid = some client) (client' : ClientState) :
    Joined { m with clients := m.clients.insert tid client' } rest
      { whole with clients := whole.clients.insert tid client' } :=
  { joined with clients := join_insert joined.clients client' found }

theorem Joined.next (next : Next maxThreads m m' event) :
    ∃ whole', Joined m' rest whole' ∧ Next maxThreads whole whole' event := by
  have atClient := lookup_whole_of_join joined.clients
  have atSlot := lookup_whole_of_join joined.slots
  have atCombiner := @Exclusive.whole_of_join _ _ _ _ joined.combiner
  cases next with
  | collectEmpty step =>
    obtain ⟨elems, found, more, idle, rfl⟩ := step
    refine ⟨_, joined.replaceCombiner found _, .collectEmpty ⟨elems, atCombiner found, more, ?_,
      rfl⟩⟩
    rcases idle with empty | ⟨rid, response⟩
    · exact .inl (atSlot empty)
    · exact .inr ⟨rid, atSlot response⟩
  | collectRequest step =>
    obtain ⟨elems, found, more, rfl, request, rfl⟩ := step
    exact ⟨_, (joined.replaceSlot request _).replaceCombiner found _,
      .collectRequest ⟨elems, atCombiner found, more, rfl, atSlot request, rfl⟩⟩
  | goToResponding step =>
    obtain ⟨elems, found, full, rfl⟩ := step
    exact ⟨_, joined.replaceCombiner found _, .goToResponding ⟨elems, atCombiner found, full, rfl⟩⟩
  | responseSkip step =>
    obtain ⟨elems, idx, found, skip, rfl⟩ := step
    exact ⟨_, joined.replaceCombiner found _,
      .responseSkip ⟨elems, idx, atCombiner found, skip, rfl⟩⟩
  | response step =>
    obtain ⟨elems, elem, found, isElem, inProgress, rfl⟩ := step
    exact ⟨_, (joined.replaceSlot inProgress _).replaceCombiner found _,
      .response ⟨elems, elem, atCombiner found, isElem, atSlot inProgress, rfl⟩⟩
  | goToCollecting step =>
    obtain ⟨elems, idx, found, isEnd, rfl⟩ := step
    exact ⟨_, joined.replaceCombiner found _,
      .goToCollecting ⟨elems, idx, atCombiner found, isEnd, rfl⟩⟩
  | send step =>
    obtain ⟨idle, present, rfl⟩ := step
    obtain ⟨slot, found⟩ := Option.isSome_iff_exists.mp present
    exact ⟨_, (joined.replaceClient idle _).replaceSlot found _,
      .send ⟨atClient idle, Option.isSome_iff_exists.mpr ⟨slot, atSlot found⟩, rfl⟩⟩
  | recv step =>
    obtain ⟨⟨sent, waiting⟩, response, rfl⟩ := step
    exact ⟨_, (joined.replaceClient waiting _).replaceSlot response _,
      .recv ⟨⟨sent, atClient waiting⟩, atSlot response, rfl⟩⟩

end

end Frame

/-- The state of the client whose slot is in a given state. -/
def SlotState.client : SlotState → ClientState
  | .empty => .idle
  | .request rid | .inProgress rid | .response rid => .waiting rid

/-- The combiner has still to respond to the slots from this one on. -/
def CombinerState.position : CombinerState → Nat
  | .collecting _ => 0
  | .responding _ idx => idx

/-- The slot tells the state of its client, and the slots in progress are those of the elements
without a response. -/
structure Settled (maxThreads : Nat) (x : Shard) (combiner : CombinerState) : Prop where
  isCombiner : x.combiner = some combiner
  clients : ∀ i, (x.clients.lookup i).isSome ↔ i < maxThreads
  slots : ∀ i, (x.slots.lookup i).isSome ↔ i < maxThreads
  agree : ∀ i slot, x.slots.lookup i = some slot → x.clients.lookup i = some slot.client
  elems : CombinerStateElems maxThreads combiner
  inProgress : ∀ i rid, x.slots.lookup i = some (.inProgress rid) ↔
    combiner.position ≤ i ∧ combiner.elems[i]? = some (some rid)

section Whole

variable {maxThreads : Nat} {x x' : Shard} {combiner combiner' : CombinerState}

section

variable (inv : WholeInv maxThreads x combiner)

include inv

theorem WholeInv.agree {i : Nat} {slot : SlotState}
    (found : x.slots.lookup i = some slot) : x.clients.lookup i = some slot.client := by
  have within := (inv.slotsComplete i).mp (by rw [found]; rfl)
  obtain ⟨client, isClient⟩ := Option.isSome_iff_exists.mp ((inv.clientsComplete i).mpr within)
  have idleEmpty := inv.clientIdleSlotEmpty i client slot isClient found
  rw [isClient]
  cases client with
  | idle =>
    rw [idleEmpty.mp rfl]
    rfl
  | waiting rid =>
    have isRid := inv.clientWaitingRequestId i rid slot isClient found
    cases slot with
    | empty => cases isRid
    | request rid' | inProgress rid' | response rid' =>
      cases isRid
      rfl

theorem WholeInv.inProgress (i rid : Nat) :
    x.slots.lookup i = some (.inProgress rid) ↔
      combiner.position ≤ i ∧ combiner.elems[i]? = some (some rid) := by
  have ids := inv.combinerStateRequestIds
  have others := inv.combinerStateSlotsNotInProgress
  have complete := inv.slotsComplete i
  have lengths := inv.combinerStateElems
  cases combiner with
  | collecting elems =>
    refine ⟨fun found => ⟨Nat.zero_le i, ?_⟩, fun found => ids i rid found.2⟩
    have within := complete.mp (by rw [found]; rfl)
    have collected : i < elems.length := by
      by_contra later
      exact others.2 i rid (not_lt.mp later) within found
    rw [CombinerState.elems, List.getElem?_eq_getElem collected]
    cases isElem : elems[i] with
    | none =>
      have isNone : elems[i]? = some none := by
        rw [List.getElem?_eq_getElem collected, isElem]
      exact absurd found (others.1 i rid isNone)
    | some rid' =>
      have found' := ids i rid' (by rw [List.getElem?_eq_getElem collected, isElem])
      cases found.symm.trans found'
      rfl
  | responding elems idx =>
    refine ⟨fun found => ?_, fun found => ids i rid found.1 found.2⟩
    have within := complete.mp (by rw [found]; rfl)
    have later : idx ≤ i := by
      by_contra earlier
      exact others.2 i rid (not_le.mp earlier) found
    have collected : i < elems.length := by rw [lengths.1]; exact within
    refine ⟨later, ?_⟩
    rw [CombinerState.elems, List.getElem?_eq_getElem collected]
    cases isElem : elems[i] with
    | none =>
      have isNone : elems[i]? = some none := by
        rw [List.getElem?_eq_getElem collected, isElem]
      exact absurd found (others.1 i rid isNone)
    | some rid' =>
      have found' := ids i rid' later (by rw [List.getElem?_eq_getElem collected, isElem])
      cases found.symm.trans found'
      rfl

theorem WholeInv.settled :
    Settled maxThreads x combiner where
  isCombiner := inv.isCombiner
  clients := inv.clientsComplete
  slots := inv.slotsComplete
  agree := fun _ _ => inv.agree
  elems := inv.combinerStateElems
  inProgress := inv.inProgress

end

theorem Settled.wholeInv (settled : Settled maxThreads x combiner) :
    WholeInv maxThreads x combiner where
  isCombiner := settled.isCombiner
  clientsComplete := settled.clients
  slotsComplete := settled.slots
  clientIdleSlotEmpty := by
    intro i client slot isClient found
    cases isClient.symm.trans (settled.agree i slot found)
    cases slot <;> simp [SlotState.client]
  clientWaitingRequestId := by
    intro i rid slot isClient found
    have agree := isClient.symm.trans (settled.agree i slot found)
    cases slot with
    | empty => cases agree
    | request rid' | inProgress rid' | response rid' =>
      cases agree
      rfl
  combinerStateElems := settled.elems
  combinerStateRequestIds := by
    have inProgress := settled.inProgress
    cases combiner with
    | collecting elems => exact fun i rid found => (inProgress i rid).mpr ⟨Nat.zero_le i, found⟩
    | responding elems idx => exact fun i rid later found => (inProgress i rid).mpr ⟨later, found⟩
  combinerStateSlotsNotInProgress := by
    have inProgress := settled.inProgress
    cases combiner with
    | collecting elems =>
      refine ⟨fun i rid isNone found => ?_, fun i rid later _ found => ?_⟩
      · cases isNone.symm.trans ((inProgress i rid).mp found).2
      · have isElem := ((inProgress i rid).mp found).2
        rw [CombinerState.elems, List.getElem?_eq_none later] at isElem
        cases isElem
    | responding elems idx =>
      refine ⟨fun i rid isNone found => ?_, fun i rid earlier found => ?_⟩
      · cases isNone.symm.trans ((inProgress i rid).mp found).2
      · exact absurd ((inProgress i rid).mp found).1 (not_le.mpr earlier)

theorem settled_init (maxThreads : Nat) :
    Settled maxThreads (init maxThreads) (.collecting []) where
  isCombiner := rfl
  clients := by
    intro i
    simp only [init, lookup_ofFinset, Finset.mem_range]
    split <;> simp [*]
  slots := by
    intro i
    simp only [init, lookup_ofFinset, Finset.mem_range]
    split <;> simp [*]
  agree := by
    intro i slot found
    simp only [init, lookup_ofFinset] at found ⊢
    split at found
    · rename_i within
      cases found
      rw [if_pos within]
      rfl
    · cases found
  elems := Nat.zero_le _
  inProgress := by
    intro i rid
    simp only [init, lookup_ofFinset, CombinerState.elems]
    split <;> simp

/-- The elements that wait for a response. -/
def CombinerState.Pending (combiner : CombinerState) (i rid : Nat) : Prop :=
  combiner.position ≤ i ∧ combiner.elems[i]? = some (some rid)

section

variable (settled : Settled maxThreads x combiner) {tid : Nat} {slot slot' : SlotState}

include settled

theorem Settled.moveCombiner (elems : CombinerStateElems maxThreads combiner')
    (same : ∀ i rid, combiner'.Pending i rid ↔ combiner.Pending i rid) :
    Settled maxThreads { x with combiner := some combiner' } combiner' where
  isCombiner := rfl
  clients := settled.clients
  slots := settled.slots
  agree := settled.agree
  elems := elems
  inProgress := fun i rid => (settled.inProgress i rid).trans (same i rid).symm

section

variable (found : x.slots.lookup tid = some slot)

include found

theorem Settled.changeSlot (isCombiner : x'.combiner = some combiner')
    (clients : ∀ i, x'.clients.lookup i = if i = tid then some slot'.client else x.clients.lookup i)
    (slots : x'.slots = x.slots.insert tid slot') (elems : CombinerStateElems maxThreads combiner')
    (changed : ∀ rid, combiner'.Pending tid rid ↔ slot' = .inProgress rid)
    (same : ∀ i rid, i ≠ tid → (combiner'.Pending i rid ↔ combiner.Pending i rid)) :
    Settled maxThreads x' combiner' := by
  have within := (settled.slots tid).mp (by rw [found]; rfl)
  constructor
  case isCombiner => exact isCombiner
  case clients =>
    intro i
    rw [clients]
    by_cases isTid : i = tid
    · simp [isTid, within]
    · rw [if_neg isTid, settled.clients]
  case slots =>
    intro i
    rw [slots, lookup_insert]
    by_cases isTid : i = tid
    · simp [isTid, within]
    · rw [if_neg isTid, settled.slots]
  case agree =>
    intro i slot₁ found₁
    rw [slots, lookup_insert] at found₁
    rw [clients]
    by_cases isTid : i = tid
    · rw [if_pos isTid] at found₁ ⊢
      cases found₁
      rfl
    · rw [if_neg isTid] at found₁ ⊢
      exact settled.agree i slot₁ found₁
  case elems => exact elems
  case inProgress =>
    intro i rid
    rw [slots, lookup_insert]
    by_cases isTid : i = tid
    · rw [if_pos isTid, isTid, Option.some_inj]
      exact (changed rid).symm
    · rw [if_neg isTid, settled.inProgress]
      exact (same i rid isTid).symm

theorem Settled.lookup_client (same : slot'.client = slot.client) (i : Nat) :
    x.clients.lookup i = if i = tid then some slot'.client else x.clients.lookup i := by
  split
  · rename_i isTid
    rw [isTid, same, settled.agree tid slot found]
  · rfl

theorem Settled.not_pending {rid : Nat}
    (other : slot ≠ .inProgress rid) : ¬combiner.Pending tid rid := by
  intro pending
  apply other
  exact Option.mem_unique found ((settled.inProgress tid rid).mpr pending)

end

end

theorem pending_concat (elems : List (Option Nat)) (elem : Option Nat) (i rid : Nat) :
    (CombinerState.collecting (elems ++ [elem])).Pending i rid ↔
      (CombinerState.collecting elems).Pending i rid ∨ i = elems.length ∧ elem = some rid := by
  simp only [CombinerState.Pending, CombinerState.position, CombinerState.elems, Nat.zero_le,
    true_and]
  rcases lt_trichotomy i elems.length with less | rfl | greater
  · rw [List.getElem?_append_left less]
    simp [less.ne]
  · simp
  · rw [List.getElem?_eq_none (by simp; omega), List.getElem?_eq_none greater.le]
    simp [greater.ne']

theorem pending_responding_succ (elems : List (Option Nat)) (idx i rid : Nat) :
    (CombinerState.responding elems (idx + 1)).Pending i rid ↔
      i ≠ idx ∧ (CombinerState.responding elems idx).Pending i rid := by
  simp only [CombinerState.Pending, CombinerState.position, CombinerState.elems, ← and_assoc]
  refine and_congr_left fun _ => ?_
  omega

theorem Settled.next {event : Option Event} (settled : Settled maxThreads x combiner)
    (next : Next maxThreads x x' event) : ∃ combiner', Settled maxThreads x' combiner' := by
  have isCombiner := settled.isCombiner
  have elemsBound := settled.elems
  cases next with
  | collectEmpty step =>
    obtain ⟨elems, found, more, idle, rfl⟩ := step
    cases isCombiner.symm.trans found
    refine ⟨_, settled.moveCombiner ?_ ?_⟩
    · rw [CombinerStateElems, List.length_append]
      exact more
    · intro i rid
      rw [pending_concat]
      simp
  | collectRequest step =>
    obtain ⟨elems, found, more, rfl, request, rfl⟩ := step
    cases isCombiner.symm.trans found
    refine ⟨_, settled.changeSlot request rfl ?_ rfl ?_ ?_ ?_⟩
    · exact settled.lookup_client request rfl
    · rw [CombinerStateElems, List.length_append]
      exact more
    · intro rid'
      have none : ¬(CombinerState.collecting elems).Pending elems.length rid' :=
        settled.not_pending request nofun
      rw [pending_concat]
      simp [none]
    · intro i rid' other
      rw [pending_concat]
      simp [other]
  | goToResponding step =>
    obtain ⟨elems, found, full, rfl⟩ := step
    cases isCombiner.symm.trans found
    exact ⟨_, settled.moveCombiner ⟨full, Nat.zero_le _⟩ fun i rid => Iff.rfl⟩
  | responseSkip step =>
    obtain ⟨elems, idx, found, skip, rfl⟩ := step
    cases isCombiner.symm.trans found
    have within : idx < elems.length := (List.getElem?_eq_some_iff.mp skip).1
    refine ⟨_, settled.moveCombiner ⟨elemsBound.1, within⟩ fun i rid => ?_⟩
    rw [pending_responding_succ, and_iff_right_iff_imp]
    rintro ⟨-, isElem⟩ rfl
    cases skip.symm.trans isElem
  | response step =>
    obtain ⟨elems, _, found, isElem, inProgress, rfl⟩ := step
    cases isCombiner.symm.trans found
    have within := (List.getElem?_eq_some_iff.mp isElem).1
    refine ⟨_, settled.changeSlot inProgress rfl ?_ rfl ⟨elemsBound.1, within⟩ ?_ ?_⟩
    · exact settled.lookup_client inProgress rfl
    · intro rid'
      rw [pending_responding_succ]
      simp
    · intro i rid' other
      rw [pending_responding_succ]
      simp [other]
  | goToCollecting step =>
    obtain ⟨elems, idx, found, isEnd, rfl⟩ := step
    cases isCombiner.symm.trans found
    refine ⟨_, settled.moveCombiner (Nat.zero_le _) fun i rid => ?_⟩
    refine iff_of_false (fun pending => nomatch pending.2) fun pending => ?_
    have later : elems.length ≤ i := isEnd ▸ pending.1
    have isElem := pending.2
    rw [CombinerState.elems, List.getElem?_eq_none later] at isElem
    cases isElem
  | @send tid rid step =>
    obtain ⟨idle, present, rfl⟩ := step
    obtain ⟨slot, found⟩ := Option.isSome_iff_exists.mp present
    have agree := idle.symm.trans (settled.agree tid slot found)
    have isEmpty : slot = .empty := by
      cases slot <;> simp [SlotState.client] at agree ⊢
    subst isEmpty
    refine ⟨combiner, settled.changeSlot found isCombiner (fun i => ?_) rfl elemsBound ?_ ?_⟩
    · exact lookup_insert _ _ _ _
    · intro rid'
      exact iff_of_false (settled.not_pending found nofun) nofun
    · exact fun i rid' _ => Iff.rfl
  | @recv tid rid step =>
    obtain ⟨⟨_, _⟩, response, rfl⟩ := step
    refine ⟨combiner, settled.changeSlot response isCombiner (fun i => ?_) rfl elemsBound ?_ ?_⟩
    · exact lookup_insert _ _ _ _
    · intro rid'
      exact iff_of_false (settled.not_pending response nofun) nofun
    · exact fun i rid' _ => Iff.rfl

end Whole

def SlotState.before : Kind → Nat → SlotState
  | .sent, _ => .empty
  | .collected, rid => .request rid
  | .responded, rid => .inProgress rid
  | .received, rid => .response rid

def SlotState.after : Kind → Nat → SlotState
  | .sent, rid => .request rid
  | .collected, rid => .inProgress rid
  | .responded, rid => .response rid
  | .received, _ => .empty

/-- The ids of the requests of the slot `tid` to which something happened, in this order. -/
def requests (kind : Kind) (tid : Nat) (history : List Event) : List Nat :=
  (history.filter fun event => event.kind = kind ∧ event.tid = tid).map Event.rid

/-- How far the last request of a slot is, next to all requests of the slot. -/
def SlotState.Progress (sent collected responded received : List Nat) : SlotState → Prop
  | .empty => sent = collected ∧ collected = responded ∧ responded = received
  | .request rid => sent = collected ++ [rid] ∧ collected = responded ∧ responded = received
  | .inProgress rid => sent = collected ∧ collected = responded ++ [rid] ∧ responded = received
  | .response rid => sent = collected ∧ collected = responded ∧ responded = received ++ [rid]

def SlotState.Follows (slot : SlotState) (tid : Nat) (history : List Event) : Prop :=
  slot.Progress (requests .sent tid history) (requests .collected tid history)
    (requests .responded tid history) (requests .received tid history)

section Histories

variable {maxThreads : Nat} {x x' m m' rest whole : Shard} {combiner : CombinerState}
  {history : List Event} {kind : Kind} {tid rid : Nat}

theorem requests_concat (kind : Kind) (tid : Nat) (history : List Event) (event : Event) :
    requests kind tid (history ++ [event]) = requests kind tid history ++
      if event.kind = kind ∧ event.tid = tid then [event.rid] else [] := by
  rw [requests, List.filter_append, List.map_append, requests]
  congr 1
  split <;> simp [*]

theorem SlotState.Follows.after (follows : (SlotState.before kind rid).Follows tid history) :
    (SlotState.after kind rid).Follows tid (history ++ [⟨kind, tid, rid⟩]) := by
  unfold SlotState.Follows at *
  simp only [requests_concat]
  cases kind with
  | sent | collected | responded | received =>
    obtain ⟨first, second, third⟩ := follows
    simp [SlotState.after, SlotState.Progress, first, second, third]

theorem SlotState.Follows.other {slot : SlotState} {event : Event}
    (follows : slot.Follows tid history) (other : event.tid ≠ tid) :
    slot.Follows tid (history ++ [event]) := by
  unfold SlotState.Follows at *
  simpa [requests_concat, other] using follows

variable {event : Option Event}

theorem Settled.slots_next (settled : Settled maxThreads x combiner)
    (next : Next maxThreads x x' event) :
    match event with
    | none => x'.slots = x.slots
    | some ⟨kind, tid, rid⟩ =>
      x.slots.lookup tid = some (SlotState.before kind rid) ∧
        x'.slots = x.slots.insert tid (SlotState.after kind rid) := by
  cases next with
  | collectEmpty step =>
    obtain ⟨elems, -, -, -, rfl⟩ := step
    rfl
  | collectRequest step =>
    obtain ⟨elems, -, -, -, request, rfl⟩ := step
    exact ⟨request, rfl⟩
  | goToResponding step =>
    obtain ⟨elems, -, -, rfl⟩ := step
    rfl
  | responseSkip step | goToCollecting step =>
    obtain ⟨elems, idx, -, -, rfl⟩ := step
    rfl
  | response step =>
    obtain ⟨elems, _, -, -, inProgress, rfl⟩ := step
    exact ⟨inProgress, rfl⟩
  | @send tid rid step =>
    obtain ⟨idle, present, rfl⟩ := step
    obtain ⟨slot, found⟩ := Option.isSome_iff_exists.mp present
    have agree := idle.symm.trans (settled.agree tid slot found)
    refine ⟨?_, rfl⟩
    cases slot with
    | empty => exact found
    | request rid' | inProgress rid' | response rid' => cases agree
  | recv step =>
    obtain ⟨-, response, rfl⟩ := step
    exact ⟨response, rfl⟩

theorem Settled.follows_next (settled : Settled maxThreads x combiner)
    (follows : ∀ tid slot, x.slots.lookup tid = some slot → slot.Follows tid history)
    (next : Next maxThreads x x' event) :
    ∀ tid slot, x'.slots.lookup tid = some slot → slot.Follows tid (history ++ event.toList) := by
  have change := settled.slots_next next
  intro tid slot found
  cases event with
  | none =>
    rw [change] at found
    simpa using follows tid slot found
  | some event =>
    obtain ⟨before, isSlots⟩ := change
    rw [isSlots, FiniteMap.lookup_insert_eq_some] at found
    obtain ⟨rfl, rfl⟩ | ⟨isTid, found⟩ := found
    · exact (follows _ _ before).after
    · exact (follows tid slot found).other (Ne.symm isTid)

theorem Reached.settled (reached : Reached maxThreads whole history) :
    (∃ combiner, Settled maxThreads whole combiner) ∧
      ∀ tid slot, whole.slots.lookup tid = some slot → slot.Follows tid history := by
  induction reached with
  | init =>
    refine ⟨⟨_, settled_init maxThreads⟩, fun tid slot found => ?_⟩
    simp only [FlatCombiner.init, lookup_ofFinset] at found
    split at found
    · cases found
      exact ⟨rfl, rfl, rfl⟩
    · cases found
  | step reached fits next fits' ih =>
    obtain ⟨⟨combiner, settled⟩, follows⟩ := ih
    obtain ⟨_, joined', next'⟩ := (dot_eq_some_iff.mp fits).next next
    cases fits'.symm.trans (dot_eq_some_iff.mpr joined')
    exact ⟨settled.next next', settled.follows_next follows next'⟩

theorem not_next_unit : ¬Next maxThreads Shard.unit x' event := by
  intro next
  cases next with
  | collectEmpty step => exact nomatch step.choose_spec.1
  | collectRequest step => exact nomatch step.choose_spec.1
  | goToResponding step => exact nomatch step.choose_spec.1
  | responseSkip step => exact nomatch step.choose_spec.choose_spec.1
  | response step => exact nomatch step.choose_spec.choose_spec.1
  | goToCollecting step => exact nomatch step.choose_spec.choose_spec.1
  | send step => exact nomatch step.1
  | recv step => exact nomatch step.1.choose_spec

theorem Inv.next {rest : M} (inv : Inv maxThreads (dot (some m) rest))
    (next : Next maxThreads m m' event) : Inv maxThreads (dot (some m') rest) := by
  intro _
  have proper : dot (some m) rest ≠ some Shard.unit := by
    intro isUnit
    cases rest with
    | none => cases isUnit
    | some rest =>
      obtain ⟨whole', -, next'⟩ := (dot_eq_some_iff.mp isUnit).next next
      exact not_next_unit next'
  obtain ⟨_, _, fits, wholeInv⟩ := inv proper
  cases rest with
  | none => cases fits
  | some rest =>
    obtain ⟨whole', joined', next'⟩ := (dot_eq_some_iff.mp fits).next next
    obtain ⟨combiner', settled'⟩ := wholeInv.settled.next next'
    exact ⟨whole', combiner', dot_eq_some_iff.mpr joined', settled'.wholeInv⟩

theorem SlotState.Follows.ordered {slot : SlotState} (follows : slot.Follows tid history) :
    requests .collected tid history <+: requests .sent tid history ∧
      requests .responded tid history <+: requests .collected tid history ∧
      requests .received tid history <+: requests .responded tid history := by
  cases slot with
  | empty | request rid | inProgress rid | response rid =>
    obtain ⟨first, second, third⟩ := follows
    simp [first, second, third]

section

variable (settled : Settled maxThreads whole combiner)

include settled

theorem Settled.responded_eq {m' : Shard}
    (follows : ∀ tid slot, whole.slots.lookup tid = some slot → slot.Follows tid history)
    (step : CombinerGoToCollecting whole m') (within : tid < maxThreads) :
    requests .responded tid history = requests .collected tid history := by
  obtain ⟨slot, found⟩ := Option.isSome_iff_exists.mp ((settled.slots tid).mpr within)
  have isFollowed := follows tid slot found
  cases slot with
  | empty | request rid | response rid => exact isFollowed.2.1.symm
  | inProgress rid =>
    obtain ⟨elems, _, isCombiner, isEnd, -⟩ := step
    cases settled.isCombiner.symm.trans isCombiner
    obtain ⟨later, isElem⟩ := (settled.inProgress tid rid).mp found
    have outside : elems.length ≤ tid := isEnd ▸ later
    rw [CombinerState.elems, List.getElem?_eq_none outside] at isElem
    cases isElem

theorem Settled.exists_response {elems : List (Option Nat)} (joined : Joined m rest whole)
    (isCombiner : m.combiner = some (.responding elems tid))
    (isElem : elems[tid]? = some (some rid)) (present : (m.slots.lookup tid).isSome) :
    ∃ m', CombinerDoResponse m m' tid rid := by
  obtain ⟨_, found⟩ := Option.isSome_iff_exists.mp present
  cases settled.isCombiner.symm.trans (Exclusive.whole_of_join joined.combiner isCombiner)
  have inProgress := (settled.inProgress tid rid).mpr ⟨le_rfl, isElem⟩
  cases inProgress.symm.trans (lookup_whole_of_join joined.slots found)
  exact ⟨_, elems, rid, isCombiner, isElem, found, rfl⟩

theorem Settled.received_after
    (follows : ∀ tid slot, whole.slots.lookup tid = some slot → slot.Follows tid history)
    (joined : Joined m rest whole) (step : FCRecv m m' tid rid) :
    m.clients.lookup tid = some (.waiting rid) ∧
      requests .sent tid history = requests .received tid history ++ [rid] ∧
      requests .responded tid history = requests .received tid history ++ [rid] := by
  obtain ⟨⟨_, waiting⟩, response, -⟩ := step
  have found := lookup_whole_of_join joined.slots response
  have agree := settled.agree tid _ found
  cases agree.symm.trans (lookup_whole_of_join joined.clients waiting)
  obtain ⟨first, second, third⟩ := follows tid _ found
  exact ⟨waiting, by rw [first, second, third], third⟩

end

/-- Steps of any shard keep the invariant.  In every run the requests of a slot are collected,
answered and received in the order they were sent, each once and with its own id, and the response
to a collected request is always possible. -/
theorem answers_reach_askers (maxThreads : Nat) :
    (∀ m m' rest event, Next maxThreads m m' event → Inv maxThreads (dot (some m) rest) →
        Inv maxThreads (dot (some m') rest)) ∧
      ∀ whole history, Reached maxThreads whole history →
        Inv maxThreads (some whole) ∧
        (∀ tid, tid < maxThreads →
          requests .collected tid history <+: requests .sent tid history ∧
          requests .responded tid history <+: requests .collected tid history ∧
          requests .received tid history <+: requests .responded tid history) ∧
        (∀ m m' rest, dot (some m) (some rest) = some whole → CombinerGoToCollecting m m' →
          ∀ tid, tid < maxThreads →
            requests .responded tid history = requests .collected tid history) ∧
        (∀ m rest elems tid rid, dot (some m) (some rest) = some whole →
          m.combiner = some (.responding elems tid) → elems[tid]? = some (some rid) →
          (m.slots.lookup tid).isSome → ∃ m', CombinerDoResponse m m' tid rid) ∧
        ∀ m m' rest tid rid, dot (some m) (some rest) = some whole → FCRecv m m' tid rid →
          m.clients.lookup tid = some (.waiting rid) ∧
          requests .sent tid history = requests .received tid history ++ [rid] ∧
          requests .responded tid history = requests .received tid history ++ [rid] := by
  refine ⟨fun m m' rest event next inv => inv.next next, fun whole history reached => ?_⟩
  obtain ⟨⟨combiner, settled⟩, follows⟩ := reached.settled
  refine ⟨fun _ => ⟨whole, combiner, rfl, settled.wholeInv⟩, ?_, ?_, ?_, ?_⟩
  · intro tid within
    obtain ⟨slot, found⟩ := Option.isSome_iff_exists.mp ((settled.slots tid).mpr within)
    exact (follows tid slot found).ordered
  · intro m m' rest fits step tid within
    obtain ⟨elems, idx, isCombiner, isEnd, -⟩ := step
    have atWhole := Exclusive.whole_of_join (dot_eq_some_iff.mp fits).combiner isCombiner
    exact settled.responded_eq follows ⟨elems, idx, atWhole, isEnd, rfl⟩ within
  · intro m rest elems tid rid fits isCombiner isElem present
    exact settled.exists_response (dot_eq_some_iff.mp fits) isCombiner isElem present
  · intro m m' rest tid rid fits step
    exact settled.received_after follows (dot_eq_some_iff.mp fits) step

theorem joined_unit (whole : Shard) : Joined whole Shard.unit whole :=
  ⟨join_empty _, join_empty _, Exclusive.join_none _⟩

theorem Reached.wholeStep (reached : Reached maxThreads whole history)
    (next : Next maxThreads whole x' event) : Reached maxThreads x' (history ++ event.toList) :=
  reached.step (dot_eq_some_iff.mpr (joined_unit whole)) next
    (dot_eq_some_iff.mpr (joined_unit x'))

/-- The only client sends, and receives after both passes of the combiner. -/
theorem answers_reach_askers_single : ∃ whole whole',
    Reached 1 whole [⟨.sent, 0, 7⟩, ⟨.collected, 0, 7⟩, ⟨.responded, 0, 7⟩] ∧
      FCRecv whole whole' 0 7 ∧ whole.clients.lookup 0 = some (.waiting 7) := by
  have send : FCSend (init 1) _ 0 7 := ⟨by simp [init], by simp [init], rfl⟩
  have sent := Reached.init.wholeStep (.send send)
  have collected := sent.wholeStep
    (@Next.collectRequest _ _ _ 0 7 ⟨[], rfl, by decide, rfl, by simp, rfl⟩)
  have turned := collected.wholeStep (.goToResponding ⟨_, rfl, rfl, rfl⟩)
  have responded := turned.wholeStep (@Next.response _ _ _ 0 7 ⟨_, _, rfl, rfl, by simp, rfl⟩)
  refine ⟨_, _, responded, ⟨⟨7, by simp⟩, by simp, rfl⟩, ?_⟩
  exact (((answers_reach_askers 1).2 _ _ responded).2.2.2.2 _ _ _ 0 7
    (dot_eq_some_iff.mpr (joined_unit _)) ⟨⟨7, by simp⟩, by simp, rfl⟩).1

end Histories

end FlatCombiner
end VerifiedBetrfs
