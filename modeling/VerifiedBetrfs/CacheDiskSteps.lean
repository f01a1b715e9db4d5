import VerifiedBetrfs.CacheSteps

/-!
# The traffic between the cache, the disk and the clients

A request or an answer is a shard with one element.
-/

namespace VerifiedBetrfs.CacheSSM

open Shard (unit)
open FiniteMap (lookup_insert_eq_some lookup_insert_of_ne)
open CacheIfc

variable {disk : PageDisk.Variables} {m whole : Shard} {addr : Nat} {data : Block}
  {rid id : RequestId} {V : Type} {disk' : PageDisk.Variables}

theorem joined_diskReadReq : Joined m (diskReadReq addr) whole ↔
    addr ∉ m.readReqs ∧ whole = { m with readReqs := insert addr m.readReqs } := by
  rw [← dot_eq_some_iff]
  simp [Shard.dot, diskReadReq, unit, Option.bind_eq_some_iff, and_assoc, eq_comm (a := whole)]

theorem joined_diskReadResp : Joined m (diskReadResp addr data) whole ↔
    m.readResps.lookup addr = none ∧
      whole = { m with readResps := m.readResps.insert addr data } := by
  rw [← dot_eq_some_iff]
  simp [Shard.dot, diskReadResp, unit, Option.bind_eq_some_iff, and_assoc, eq_comm (a := whole)]

theorem joined_diskWriteReq : Joined m (diskWriteReq addr data) whole ↔
    m.writeReqs.lookup addr = none ∧
      whole = { m with writeReqs := m.writeReqs.insert addr data } := by
  rw [← dot_eq_some_iff]
  simp [Shard.dot, diskWriteReq, unit, Option.bind_eq_some_iff, and_assoc, eq_comm (a := whole)]

theorem joined_diskWriteResp : Joined m (diskWriteResp addr) whole ↔
    addr ∉ m.writeResps ∧ whole = { m with writeResps := insert addr m.writeResps } := by
  rw [← dot_eq_some_iff]
  simp [Shard.dot, diskWriteResp, unit, Option.bind_eq_some_iff, and_assoc, eq_comm (a := whole)]

theorem joined_normalTicket {input : Input} : Joined m (normalTicket rid input) whole ↔
    m.tickets.lookup rid = none ∧ whole = { m with tickets := m.tickets.insert rid input } := by
  rw [← dot_eq_some_iff]
  simp [Shard.dot, normalTicket, unit, Option.bind_eq_some_iff, and_assoc, eq_comm (a := whole)]

theorem joined_normalStub {output : Output} : Joined m (normalStub rid output) whole ↔
    m.stubs.lookup rid = none ∧ whole = { m with stubs := m.stubs.insert rid output } := by
  rw [← dot_eq_some_iff]
  simp [Shard.dot, normalStub, unit, Option.bind_eq_some_iff, and_assoc, eq_comm (a := whole)]

theorem joined_syncReq {keys : Finset Nat} : Joined m (syncReq rid keys) whole ↔
    m.syncReqs.lookup rid = none ∧ whole = { m with syncReqs := m.syncReqs.insert rid keys } := by
  rw [← dot_eq_some_iff]
  simp [Shard.dot, syncReq, unit, Option.bind_eq_some_iff, and_assoc, eq_comm (a := whole)]

theorem joined_havoc {page : Nat} : Joined m (havoc rid page) whole ↔
    m.havocs.lookup rid = none ∧ whole = { m with havocs := m.havocs.insert rid page } := by
  rw [← dot_eq_some_iff]
  simp [Shard.dot, havoc, unit, Option.bind_eq_some_iff, and_assoc, eq_comm (a := whole)]

theorem map_lookup_insert (requests : FiniteMap RequestId V) (address : V → Nat) (value : V) :
    (fun other => ((requests.insert id value).lookup other).map address) =
      IMap.update (fun other => (requests.lookup other).map address) id (address value) := by
  funext other
  rw [IMap.update_eq_ite, FiniteMap.lookup_insert]
  by_cases isId : other = id <;> simp [isId]

theorem map_lookup_erase (requests : FiniteMap RequestId V) (address : V → Nat) :
    (fun other => ((requests.erase id).lookup other).map address) =
      IMap.remove1 (fun other => (requests.lookup other).map address) id := by
  funext other
  rw [IMap.remove1_eq_ite, FiniteMap.lookup_erase]
  by_cases isId : other = id <;> simp [isId]

theorem isSome_lookup_insert (map : FiniteMap Nat V) (value : V) :
    { other | ((map.insert addr value).lookup other).isSome } =
      insert addr { other | (map.lookup other).isSome } := by
  ext other
  by_cases isAddr : other = addr <;> simp [isAddr]

theorem ShardInv.sendRead
    (inv : ShardInv disk { m with readReqs := insert addr m.readReqs })
    (absent : addr ∉ m.readReqs) (fresh : disk.reqReads.lookup id = none)
    (fresh' : disk.respReads.lookup id = none) :
    ShardInv { disk with reqReads := disk.reqReads.insert id ⟨addr⟩ } m := by
  have sent : readTraffic { disk with reqReads := disk.reqReads.insert id ⟨addr⟩ } m =
      (readTraffic disk { m with readReqs := insert addr m.readReqs }).send id addr := by
    simp only [readTraffic, Traffic.send, map_lookup_insert, Traffic.mk.injEq, and_true]
    ext other
    by_cases isAddr : other = addr <;> simp [isAddr, absent]
  have issued : addr ∈ (readTraffic disk { m with readReqs := insert addr m.readReqs }).reqs := by
    simp [readTraffic]
  exact { inv with
    slots := { inv.slots with }
    reads := sent ▸ inv.reads.send issued (by simp [readTraffic, fresh])
      (by simp [readTraffic, fresh'])
    reading := fun inFlight => inv.reading (Traffic.inFlight_of_send issued (sent ▸ inFlight))
    agrees := { inv.agrees with } }

theorem ShardInv.processRead (inv : ShardInv disk m) (step : PageDisk.ProcessRead disk disk' id) :
    ShardInv disk' m := by
  obtain ⟨⟨addr⟩, data, requested, stored, rfl⟩ := step
  have answered : readTraffic { disk with
      reqReads := disk.reqReads.erase id
      respReads := disk.respReads.insert id ⟨addr, data⟩ } m =
        (readTraffic disk m).answer id addr := by
    simp only [readTraffic, Traffic.answer, map_lookup_insert, map_lookup_erase]
  have isSent : (readTraffic disk m).sent id = some addr := by simp [readTraffic, requested]
  refine ⟨inv.slots, answered ▸ inv.reads.answer isSent, inv.writes,
    fun inFlight => inv.reading (Traffic.inFlight_of_answer isSent (answered ▸ inFlight)),
    inv.writing, inv.tickets_stubs,
    { inv.agrees with respRead := fun {id' resp} found => ?_ }⟩
  obtain ⟨-, rfl⟩ | ⟨-, wasFound⟩ := lookup_insert_eq_some.mp found
  · exact stored
  · exact inv.agrees.respRead wasFound

theorem ShardInv.receiveRead (inv : ShardInv disk m)
    (answer : disk.respReads.lookup id = some ⟨addr, data⟩) :
    ShardInv { disk with respReads := disk.respReads.erase id }
      { m with readResps := m.readResps.insert addr data } := by
  have received : readTraffic { disk with respReads := disk.respReads.erase id }
      { m with readResps := m.readResps.insert addr data } =
        (readTraffic disk m).receive id addr := by
    simp only [readTraffic, Traffic.receive, map_lookup_erase, isSome_lookup_insert]
  have isAnswered : (readTraffic disk m).answered id = some addr := by
    simp [readTraffic, answer]
  refine ⟨{ inv.slots with }, received ▸ inv.reads.receive isAnswered,
    inv.writes,
    fun inFlight => inv.reading (Traffic.inFlight_of_receive isAnswered (received ▸ inFlight)),
    inv.writing, inv.tickets_stubs,
    { inv.agrees with respRead := fun found => ?_, readResp := fun {page data'} found => ?_ }⟩
  · exact inv.agrees.respRead (FiniteMap.lookup_erase_eq_some.mp found).2
  · obtain ⟨rfl, rfl⟩ | ⟨-, wasFound⟩ := lookup_insert_eq_some.mp found
    · exact inv.agrees.respRead answer
    · exact inv.agrees.readResp wasFound

theorem ShardInv.sendWrite
    (inv : ShardInv disk { m with writeReqs := m.writeReqs.insert addr data })
    (absent : m.writeReqs.lookup addr = none) (fresh : disk.reqWrites.lookup id = none)
    (fresh' : disk.respWrites.lookup id = none) :
    ShardInv { disk with reqWrites := disk.reqWrites.insert id ⟨addr, data⟩ } m := by
  have sent : writeTraffic { disk with reqWrites := disk.reqWrites.insert id ⟨addr, data⟩ } m =
      (writeTraffic disk { m with writeReqs := m.writeReqs.insert addr data }).send id addr := by
    simp only [writeTraffic, Traffic.send, map_lookup_insert, Traffic.mk.injEq, and_true]
    ext other
    by_cases isAddr : other = addr <;> simp [isAddr, absent]
  have issued :
      addr ∈ (writeTraffic disk { m with writeReqs := m.writeReqs.insert addr data }).reqs := by
    simp [writeTraffic]
  refine ⟨{ inv.slots with }, inv.reads,
    sent ▸ inv.writes.send issued (by simp [writeTraffic, fresh]) (by simp [writeTraffic, fresh']),
    inv.reading, fun inFlight => inv.writing (Traffic.inFlight_of_send issued (sent ▸ inFlight)),
    inv.tickets_stubs,
    { inv.agrees with
      writeReq := fun {page data' slot data''} requested found => ?_
      reqWrite := fun {id' req slot data'} requested found => ?_ }⟩
  · have isOther : page ≠ addr := by
      rintro rfl
      cases absent.symm.trans requested
    exact inv.agrees.writeReq ((lookup_insert_of_ne _ _ _ isOther).trans requested) found
  · obtain ⟨-, rfl⟩ | ⟨-, wasRequested⟩ := lookup_insert_eq_some.mp requested
    · exact inv.agrees.writeReq (by simp) found
    · exact inv.agrees.reqWrite wasRequested found

theorem ShardInv.processWrite (inv : ShardInv disk m) (step : PageDisk.ProcessWrite disk disk' id) :
    ShardInv disk' m := by
  obtain ⟨⟨addr, data⟩, _, requested, -, rfl⟩ := step
  have answered : writeTraffic { disk with
      reqWrites := disk.reqWrites.erase id
      respWrites := disk.respWrites.insert id ⟨addr⟩
      contents := disk.contents.insert addr data } m = (writeTraffic disk m).answer id addr := by
    simp only [writeTraffic, Traffic.answer, map_lookup_insert, map_lookup_erase]
  have isSent : (writeTraffic disk m).sent id = some addr := by simp [writeTraffic, requested]
  have isWriting : IsWriting m addr := inv.writing (Or.inr (Or.inl ⟨id, isSent⟩))
  -- Only the page that is being written changes, and it is not being read.
  have notRead : ∀ {page}, (readTraffic disk m).InFlight page → page ≠ addr := by
    rintro page inFlight rfl
    exact inv.slots.not_reading_and_writing (inv.reading inFlight) isWriting
  have agreesNow : ∀ {slot page data'}, m.entries.lookup slot = some (.entry page data') →
      (page ≠ addr → disk.contents.lookup page = some data') →
      (disk.contents.insert addr data).lookup page = some data' := by
    intro slot page data' found elsewhere
    by_cases isAddr : page = addr
    · subst isAddr
      obtain rfl := inv.agrees.reqWrite requested found
      simp
    · rw [lookup_insert_of_ne _ _ _ isAddr, elsewhere isAddr]
  refine ⟨inv.slots, inv.reads, answered ▸ inv.writes.answer isSent, inv.reading,
    fun inFlight => inv.writing (Traffic.inFlight_of_answer isSent (answered ▸ inFlight)),
    inv.tickets_stubs,
    ⟨fun isClean found => agreesNow found fun _ => inv.agrees.clean isClean found,
      fun {id' resp} found => ?_, fun {page data'} found => ?_, inv.agrees.writeReq,
      fun found => inv.agrees.reqWrite (FiniteMap.lookup_erase_eq_some.mp found).2,
      fun {id' resp slot data'} answer found => ?_,
      fun answer found => agreesNow found fun _ => inv.agrees.writeResp answer found⟩⟩
  · have inFlight : (readTraffic disk m).InFlight resp.addr :=
      Or.inr (Or.inr (Or.inl ⟨id', congrArg (Option.map PageDisk.RespRead.addr) found⟩))
    exact (lookup_insert_of_ne _ _ _ (notRead inFlight)).trans (inv.agrees.respRead found)
  · have inFlight : (readTraffic disk m).InFlight page :=
      Or.inr (Or.inr (Or.inr (by simp [readTraffic, found])))
    exact (lookup_insert_of_ne _ _ _ (notRead inFlight)).trans (inv.agrees.readResp found)
  · refine agreesNow found fun isOther => ?_
    obtain ⟨-, rfl⟩ | ⟨-, wasAnswer⟩ := lookup_insert_eq_some.mp answer
    · exact (isOther rfl).elim
    · exact inv.agrees.respWrite wasAnswer found

theorem ShardInv.receiveWrite (inv : ShardInv disk m)
    (answer : disk.respWrites.lookup id = some ⟨addr⟩) :
    ShardInv { disk with respWrites := disk.respWrites.erase id }
      { m with writeResps := insert addr m.writeResps } := by
  have received : writeTraffic { disk with respWrites := disk.respWrites.erase id }
      { m with writeResps := insert addr m.writeResps } =
        (writeTraffic disk m).receive id addr := by
    simp only [writeTraffic, Traffic.receive, map_lookup_erase, Traffic.mk.injEq, true_and]
    ext other
    simp
  have isAnswered : (writeTraffic disk m).answered id = some addr := by
    simp [writeTraffic, answer]
  refine ⟨{ inv.slots with }, inv.reads,
    received ▸ inv.writes.receive isAnswered, inv.reading,
    fun inFlight => inv.writing (Traffic.inFlight_of_receive isAnswered (received ▸ inFlight)),
    inv.tickets_stubs,
    { inv.agrees with
      respWrite := fun found => inv.agrees.respWrite (FiniteMap.lookup_of_erase found)
      writeResp := fun {page slot data'} member found => ?_ }⟩
  obtain rfl | wasMember := Finset.mem_insert.mp member
  · exact inv.agrees.respWrite answer found
  · exact inv.agrees.writeResp wasMember found

end VerifiedBetrfs.CacheSSM
