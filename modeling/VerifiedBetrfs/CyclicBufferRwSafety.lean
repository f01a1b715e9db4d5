import VerifiedBetrfs.CyclicBufferRwSteps
import Mathlib.Data.Int.Interval

/-!
# Safety of the cyclic buffer

In every interleaving, no entry that somebody may still read is lost or overwritten.
-/

namespace VerifiedBetrfs.CyclicBufferRw

variable {Stored : Type} {s s' m m' : Shard Stored} {p x : M Stored}

theorem entryIsAlive_init (init : Init s) {i : Int} (atLeast : -(logSize : Int) ≤ i)
    (below : i < (logSize : Int)) : EntryIsAlive s.aliveBits i ↔ i < 0 := by
  have slot := logicalToPhysicalIndex_lt i
  have size : (logSize : Int) = 1048576 := rfl
  have lap : ((logicalToPhysicalIndex i : Int) - (logSize : Int)) / (logSize : Int) % 2 = 1 := by
    rw [size]
    omega
  rw [EntryIsAlive, init.aliveBits, FiniteMap.lookup_ofFinset, if_pos (Finset.mem_range.mpr slot),
    Option.some.injEq, logicalToAliveBitAliveWhen, logicalToAliveBitAliveWhen, lap, size]
  by_cases isNegative : i < 0
  · have : i / 1048576 % 2 = 1 := by omega
    simp [this, isNegative]
  · have : i / 1048576 % 2 = 0 := by omega
    simp [this, isNegative]

theorem shardInv_of_init (init : Init s) : ∃ contents, ShardInv s 0 0 0 contents := by
  obtain ⟨contents, contentsEq, written⟩ := init.contents
  have idle : ∀ {nodeId state}, s.combinerState.lookup nodeId = some state →
      state = .combinerIdle := by
    intro nodeId state found
    rw [init.combinerState, FiniteMap.lookup_ofFinset] at found
    split at found
    · exact (Option.some.inj found).symm
    · cases found
  refine ⟨contents, {
    head_eq := init.head
    tail_eq := init.tail
    contents_eq := contentsEq
    minTail_eq := ?_
    localTails_complete := ?_
    aliveBits_complete := ?_
    combinerState_complete := ?_
    contents_complete := ?_
    head_le := le_rfl
    localTail_bounds := ?_
    apart := ?_
    free_not_alive := ?_
    written_iff := ?_
    future_absent := ?_
    combiners := ?_ }⟩
  · rw [init.localTails]
    rfl
  · simp [init.localTails]
  · simp [init.aliveBits]
  · simp [init.combinerState]
  · intro i present
    have := (written i).mp present
    omega
  · intro nodeId localTail stored
    rw [init.localTails, FiniteMap.lookup_ofFinset] at stored
    split at stored
    · cases stored
      omega
    · cases stored
  · intro nodeId nodeId' state state' _ found _
    have inert : (CombinerState.combinerIdle : CombinerState Stored).Inert := trivial
    rw [idle found]
    exact inert.apart _
  · intro i ge lt
    rw [entryIsAlive_init init (by omega) (by omega)]
    omega
  · intro i ge lt
    rw [entryIsAlive_init init (by omega) (by omega), written]
    omega
  · intro i ge
    rw [← Option.not_isSome_iff_eq_none, written]
    omega
  · intro nodeId localTail state _ found
    rw [idle found]
    trivial

theorem inv_of_init (init : Init s) : Inv (some s) := by
  obtain ⟨contents, inv⟩ := shardInv_of_init init
  exact fun _ => ⟨s, 0, 0, 0, contents, rfl, inv⟩

variable {step : Step Stored}

theorem nextStep_frame (next : NextStep s s' step) :
    ∃ nodeId state state', s.combinerState.lookup nodeId = some state ∧
      s'.combinerState = s.combinerState.insert nodeId state' ∧
      ((∃ start endIdx cur val, state = .combinerReading (.readerGuard start endIdx cur val)) →
        step = .readerDoUnguard nodeId) ∧
      (s'.contents = s.contents ∨
        (∃ deposited contents, ∃ curIdx : Nat, step = .appendFlipBit nodeId deposited ∧
          s.contents = some contents ∧ contents.lookup curIdx = none ∧
          s'.contents = some (contents.insert curIdx deposited)) ∨
        ∃ newTail withdrawn, step = .finishAdvanceTail nodeId newTail withdrawn) := by
  cases step with
  | initAdvanceHead nodeId =>
    obtain ⟨_, -, found, rfl⟩ := next
    exact ⟨nodeId, _, _, found, rfl, by simp, Or.inl rfl⟩
  | stepAdvanceHead nodeId | finishAdvanceHead nodeId =>
    obtain ⟨_, _, _, found, -, -, rfl⟩ := next
    exact ⟨nodeId, _, _, found, rfl, by simp, Or.inl rfl⟩
  | abandonAdvanceHead nodeId | finishAppending nodeId | readerDoEnter nodeId =>
    obtain ⟨_, _, found, -, rfl⟩ := next
    exact ⟨nodeId, _, _, found, rfl, by simp, Or.inl rfl⟩
  | initAdvanceTail nodeId | readerDoStart nodeId =>
    obtain ⟨_, found, -, rfl⟩ := next
    exact ⟨nodeId, _, _, found, rfl, by simp, Or.inl rfl⟩
  | abandonAdvanceTail nodeId =>
    obtain ⟨_, found, rfl⟩ := next
    exact ⟨nodeId, _, _, found, rfl, by simp, Or.inl rfl⟩
  | finishAdvanceTail nodeId newTail withdrawn =>
    obtain ⟨_, _, _, -, -, found, -, -, -, -, -, rfl⟩ := next
    exact ⟨nodeId, _, _, found, rfl, by simp, Or.inr (Or.inr ⟨newTail, withdrawn, rfl⟩)⟩
  | appendFlipBit nodeId deposited =>
    obtain ⟨curIdx, _, contents, _, found, -, contentsEq, absent, -, -, rfl⟩ := next
    exact ⟨nodeId, _, _, found, rfl, by simp,
      Or.inr (Or.inl ⟨deposited, contents, curIdx, rfl, contentsEq, absent, rfl⟩)⟩
  | readerDoGuard nodeId i =>
    obtain ⟨_, _, _, _, _, found, -, -, -, -, -, rfl⟩ := next
    exact ⟨nodeId, _, _, found, rfl, by simp, Or.inl rfl⟩
  | readerDoUnguard nodeId =>
    obtain ⟨_, _, _, _, found, rfl⟩ := next
    exact ⟨nodeId, _, _, found, rfl, fun _ => rfl, Or.inl rfl⟩
  | readerDoFinish nodeId =>
    obtain ⟨_, _, _, _, found, -, -, rfl⟩ := next
    exact ⟨nodeId, _, _, found, rfl, by simp, Or.inl rfl⟩
  | readerDoAbort nodeId =>
    obtain ⟨⟨_, _, _, found, -⟩ | ⟨_, found⟩, rfl⟩ := next
    · exact ⟨nodeId, _, _, found, rfl, by simp, Or.inl rfl⟩
    · exact ⟨nodeId, _, _, found, rfl, by simp, Or.inl rfl⟩

/-- Who takes a step in a context in which the invariant holds, takes it in a whole state
with the invariant. -/
theorem exists_whole_of_inv (inv : Inv (dot (some m) p)) (next : NextStep m m' step) :
    ∃ s s', dot (some m) p = some s ∧ dot (some m') p = some s' ∧ NextStep s s' step ∧
      ∃ head tail minTail contents, ShardInv s head tail minTail contents := by
  cases fits : dot (some m) p with
  | none =>
    obtain ⟨s, -, -, -, -, isSome, -⟩ := inv (by simp [fits])
    rw [fits] at isSome
    cases isSome
  | some whole =>
    obtain ⟨rest, rfl, joins⟩ : ∃ rest, p = some rest ∧ m.dot rest = some whole := by
      simpa [dot, Option.bind_eq_some_iff] using fits
    obtain ⟨whole', wholeNext, joined'⟩ := nextStep_whole (dot_eq_some_iff.mp joins) next
    have notUnit : dot (some m) (some rest) ≠ some Shard.unit := by
      rw [fits]
      rintro ⟨⟩
      obtain ⟨_, _, -, found, -⟩ := nextStep_frame wholeNext
      simp [Shard.unit] at found
    obtain ⟨s, head, tail, minTail, contents, isWhole, shardInv⟩ := inv notUnit
    obtain rfl := Option.mem_unique fits isWhole
    exact ⟨whole, whole', rfl, dot_eq_some_iff.mpr joined', wholeNext, head, tail, minTail,
      contents, shardInv⟩

theorem inv_next (inv : Inv (dot (some m) p)) (next : NextStep m m' step) :
    Inv (dot (some m') p) := by
  obtain ⟨_, s', -, fits', wholeNext, _, _, _, _, shardInv⟩ := exists_whole_of_inv inv next
  obtain ⟨head', tail', minTail', contents', shardInv'⟩ := shardInv.nextStep wholeNext
  exact fun _ => ⟨s', head', tail', minTail', contents', fits', shardInv'⟩

/-- The states that the replicas reach together. -/
inductive Reachable : M Stored → Prop
  | init {s : Shard Stored} : Init s → Reachable (some s)
  | next {x x' : M Stored} {step : Step Stored} : Reachable x → Next x x' step → Reachable x'

theorem Reachable.inv (reachable : Reachable x) : Inv x := by
  induction reachable with
  | init init => exact inv_of_init init
  | next _ step ih =>
    obtain ⟨_, _, _, rfl, rfl, next⟩ := step
    exact inv_next ih next

theorem Reachable.exists_shardInv (reachable : Reachable x) :
    ∃ s head tail minTail contents, x = some s ∧ ShardInv s head tail minTail contents := by
  refine reachable.inv ?_
  cases reachable with
  | init init =>
    rintro ⟨⟩
    cases init.head
  | next before step =>
    obtain ⟨_, _, _, rfl, rfl, next⟩ := step
    obtain ⟨s, _, -, fits', wholeNext, -⟩ := exists_whole_of_inv before.inv next
    obtain ⟨nodeId, -, _, -, combinerEq, -⟩ := nextStep_frame wholeNext
    rw [fits']
    rintro ⟨⟩
    have found := congrArg (fun states => states.lookup nodeId) combinerEq
    simp [Shard.unit] at found

/-- What the invariant says about the entries that are written and read. -/
structure Safe (s : Shard Stored) : Prop where
  appenders_apart : ∀ nodeId nodeId' curIdx endIdx curIdx' endIdx', nodeId ≠ nodeId' →
    s.combinerState.lookup nodeId = some (.combinerAppending curIdx endIdx) →
    s.combinerState.lookup nodeId' = some (.combinerAppending curIdx' endIdx') →
    ∀ i j : Nat, curIdx ≤ i → i < endIdx → curIdx' ≤ j → j < endIdx' →
      logicalToPhysicalIndex i ≠ logicalToPhysicalIndex j
  appender_guard_apart : ∀ nodeId nodeId' curIdx endIdx start endIdx' cur val,
    s.combinerState.lookup nodeId = some (.combinerAppending curIdx endIdx) →
    s.combinerState.lookup nodeId' =
      some (.combinerReading (.readerGuard start endIdx' cur val)) →
    ∀ i : Nat, curIdx ≤ i → i < endIdx →
      logicalToPhysicalIndex i ≠ logicalToPhysicalIndex cur
  guarded : ∀ nodeId start endIdx cur val, s.combinerState.lookup nodeId =
      some (.combinerReading (.readerGuard start endIdx cur val)) →
    ∃ contents, s.contents = some contents ∧ contents.lookup cur = some val
  /-- Each slot has one logical index in the lap that begins at the least local tail. -/
  alive_iff : ∃ minTail contents, minLocalTail s.localTails = some minTail ∧
    s.contents = some contents ∧ ∀ i : Int, minTail ≤ i → i < minTail + (logSize : Int) →
      (EntryIsAlive s.aliveBits i ↔ (contents.lookup i).isSome)

/-- What a step does to the entries. -/
structure StepSafe (s s' : Shard Stored) (step : Step Stored) : Prop where
  entry_kept : ∃ contents contents', s.contents = some contents ∧ s'.contents = some contents' ∧
    ∀ i, contents'.lookup i = contents.lookup i ∨
      (∃ nodeId deposited, step = .appendFlipBit nodeId deposited ∧
        contents.lookup i = none ∧ contents'.lookup i = some deposited) ∨
      ∃ nodeId newTail withdrawn, step = .finishAdvanceTail nodeId newTail withdrawn ∧
        (withdrawn.lookup i).isSome ∧ contents'.lookup i = none
  guard_kept : ∀ nodeId start endIdx cur val, s.combinerState.lookup nodeId =
      some (.combinerReading (.readerGuard start endIdx cur val)) →
    step ≠ .readerDoUnguard nodeId → s'.combinerState.lookup nodeId =
      some (.combinerReading (.readerGuard start endIdx cur val))
  withdrawn_passed : ∀ nodeId newTail withdrawn,
    step = .finishAdvanceTail nodeId newTail withdrawn →
    ∃ tail contents, s.tail = some tail ∧ s'.tail = some newTail ∧ s.contents = some contents ∧
      (∀ i, (withdrawn.lookup i).isSome ↔ minusLogSize tail ≤ i ∧ i < minusLogSize newTail) ∧
      (∀ i, (withdrawn.lookup i).isSome → withdrawn.lookup i = contents.lookup i) ∧
      ∀ i, (withdrawn.lookup i).isSome → ∀ node localTail,
        s.localTails.lookup node = some localTail → i < localTail

namespace ShardInv

variable {s : Shard Stored} {head tail minTail : Nat} {contents : FiniteMap Int Stored}
variable (inv : ShardInv s head tail minTail contents)

include inv

theorem appending_bounds {nodeId curIdx endIdx : Nat}
    (found : s.combinerState.lookup nodeId = some (.combinerAppending curIdx endIdx)) :
    endIdx ≤ tail ∧ tail ≤ curIdx + logSize := by
  obtain ⟨_, stored⟩ := inv.exists_localTail found
  obtain ⟨-, -, endLe, tailLe, -⟩ := inv.combiners stored found
  exact ⟨endLe, tailLe⟩

theorem safe : Safe s := by
  constructor
  · intro nodeId nodeId' curIdx endIdx curIdx' endIdx' isOther found found' i j ge lt ge' lt' same
    have bounds := inv.appending_bounds found
    have bounds' := inv.appending_bounds found'
    have isSame : (i : Int) = j := eq_of_logicalToPhysicalIndex_eq
      (show (tail : Int) - (logSize : Int) ≤ i by omega) (by omega) (by omega) (by omega) same
    obtain before | after := inv.apart isOther found found' <;> omega
  · intro nodeId nodeId' curIdx endIdx start endIdx' cur val found guarding i ge lt same
    have bounds := inv.appending_bounds found
    obtain ⟨localTail, stored⟩ := inv.exists_localTail guarding
    have localBounds := inv.localTail_bounds stored
    obtain ⟨rfl, -, -, _, _, _, -⟩ := inv.combiners stored guarding
    have isSame : (i : Int) = cur := eq_of_logicalToPhysicalIndex_eq
      (show (tail : Int) - (logSize : Int) ≤ i by omega) (by omega) (by omega) (by omega) same
    have isOther : nodeId ≠ nodeId' := by
      rintro rfl
      cases found.symm.trans guarding
    obtain before | after := inv.apart isOther found guarding <;> omega
  · intro nodeId start endIdx cur val guarding
    obtain ⟨localTail, stored⟩ := inv.exists_localTail guarding
    exact ⟨contents, inv.contents_eq, (inv.combiners stored guarding).2.2.2.2.2.2.2⟩
  · refine ⟨minTail, contents, inv.minTail_eq, inv.contents_eq, fun i ge lt => ?_⟩
    have bounds := inv.minTail_bounds
    obtain written | isFree := lt_or_ge i (tail : Int)
    · rw [← inv.written_iff i (by omega) written]
      exact ⟨Or.inl, fun passed => passed.resolve_right (by omega)⟩
    · rw [inv.future_absent i isFree]
      simpa using inv.free_not_alive i isFree lt

theorem stepSafe {s' : Shard Stored} (next : NextStep s s' step) : StepSafe s s' step := by
  constructor
  · obtain ⟨nodeId, -, -, -, -, -, same | ⟨deposited, contents, curIdx, rfl, contentsEq, absent,
      contentsEq'⟩ | ⟨newTail, withdrawn, rfl⟩⟩ := nextStep_frame next
    · exact ⟨contents, contents, inv.contents_eq, same.trans inv.contents_eq, fun i => Or.inl rfl⟩
    · refine ⟨contents, _, contentsEq, contentsEq', fun i => ?_⟩
      by_cases isCur : i = curIdx
      · exact Or.inr (Or.inl ⟨nodeId, deposited, rfl, isCur ▸ absent, by simp [isCur]⟩)
      · exact Or.inl (by simp [isCur])
    · obtain ⟨_, contents, observedHead, -, contentsEq, -, -, -, -, -, -, rfl⟩ := next
      refine ⟨contents, _, contentsEq, rfl, fun i => ?_⟩
      cases isTaken : withdrawn.lookup i with
      | none => exact Or.inl (by simp [isTaken, withdrawn.mem_support])
      | some entry =>
        exact Or.inr (Or.inr ⟨nodeId, newTail, withdrawn, rfl, by simp [isTaken],
          by simp [isTaken, withdrawn.mem_support]⟩)
  · intro nodeId start endIdx cur val guarding stillGuarded
    obtain ⟨_, _, _, found, combinerEq, atGuard, -⟩ := nextStep_frame next
    rw [combinerEq, FiniteMap.lookup_insert]
    split_ifs with isActor
    · subst isActor
      obtain rfl := Option.mem_unique found guarding
      exact (stillGuarded (atGuard ⟨_, _, _, _, rfl⟩)).elim
    · exact guarding
  · rintro nodeId newTail withdrawn rfl
    obtain ⟨oldTail, contents, observedHead, tailEq, contentsEq, found, -, atMost, -, taken, window,
      rfl⟩ := next
    refine ⟨oldTail, contents, tailEq, rfl, contentsEq, window, fun i present => ?_,
      fun i present node localTail stored => ?_⟩
    · obtain ⟨entry, isTaken⟩ := Option.isSome_iff_exists.mp present
      exact isTaken.trans (taken i entry isTaken).symm
    · have tailLe := inv.newTail_le found atMost stored
      have below := ((window i).mp present).2
      rw [minusLogSize] at below
      omega

end ShardInv

/-- The invariant holds initially, and a step of a shard keeps it in any context.  Every state and
step in an interleaving of the replicas is safe. -/
theorem inv_inductive_and_safe :
    (∀ s : Shard Stored, Init s → Inv (some s)) ∧
    (∀ (m m' : Shard Stored) (p : M Stored) (step : Step Stored), Inv (dot (some m) p) →
      NextStep m m' step → Inv (dot (some m') p)) ∧
    (∀ x : M Stored, Reachable x → ∃ s, x = some s ∧ Safe s) ∧
    ∀ (x x' : M Stored) (step : Step Stored), Reachable x → Next x x' step →
      ∃ s s', x = some s ∧ x' = some s' ∧ StepSafe s s' step := by
  refine ⟨fun s => inv_of_init, fun m m' p step => inv_next, fun x reachable => ?_,
    fun x x' step reachable next => ?_⟩
  · obtain ⟨s, head, tail, minTail, contents, rfl, inv⟩ := reachable.exists_shardInv
    exact ⟨s, rfl, inv.safe⟩
  · obtain ⟨m, m', _, rfl, rfl, next⟩ := next
    obtain ⟨s, s', fits, fits', wholeNext, head, tail, minTail, contents, inv⟩ :=
      exists_whole_of_inv reachable.inv next
    exact ⟨s, s', fits, fits', inv.stepSafe wholeNext⟩

theorem next_whole (next : NextStep s s' step) : Next (some s) (some s') step := by
  have withUnit : ∀ s : Shard Stored, dot (some s) (some Shard.unit) = some s := by
    intro s
    simp [dot, Shard.dot, Shard.unit, FiniteMap.join_empty, Exclusive.join_none]
  exact ⟨s, s', some Shard.unit, (withUnit s).symm, (withUnit s').symm, next⟩

/-- The logical indices of the lap before the first. -/
def oldLap : Finset Int := (Finset.range logSize).image fun index : Nat => minusLogSize index

theorem mem_oldLap (i : Int) : i ∈ oldLap ↔ -(logSize : Int) ≤ i ∧ i < 0 := by
  simp only [oldLap, Finset.mem_image, Finset.mem_range, minusLogSize]
  constructor
  · rintro ⟨_, _, rfl⟩
    omega
  · rintro ⟨_, _⟩
    exact ⟨(i + logSize).toNat, by omega, by omega⟩

/-- The first state, in which the lap before the first has been written. -/
def initShard : Shard Nat where
  head := some 0
  tail := some 0
  localTails := .ofFinset (Finset.range numReplicas) fun _ => some 0
  contents := some (.ofFinset oldLap fun _ => some 7)
  aliveBits := .ofFinset (Finset.range logSize) fun x =>
    some (logicalToAliveBitAliveWhen ((x : Int) - (logSize : Int)))
  combinerState := .ofFinset (Finset.range numReplicas) fun _ => some .combinerIdle

theorem init_initShard : Init initShard where
  head := rfl
  tail := rfl
  localTails := rfl
  combinerState := rfl
  aliveBits := rfl
  contents := ⟨_, rfl, fun i => by simp [mem_oldLap]⟩

/-- The oldest entry makes place for the first one. -/
theorem inv_inductive_and_safe_first :
    ∃ (s s' : Shard Nat) (withdrawn : FiniteMap Int Nat), Reachable (some s) ∧
      NextStep s s' (.finishAdvanceTail 0 1 withdrawn) ∧ Inv (some s') ∧
      StepSafe s s' (.finishAdvanceTail 0 1 withdrawn) := by
  have first : NextStep initShard (initShard.setCombiner 0 (.combinerAdvancingTail 0))
      (.initAdvanceTail 0) := ⟨0, rfl, rfl, rfl⟩
  have reachable : Reachable (some (initShard.setCombiner 0 (.combinerAdvancingTail 0))) :=
    .next (.init init_initShard) (next_whole first)
  have size : (logSize : Int) = 1048576 := rfl
  obtain ⟨s', second⟩ : ∃ s', NextStep (initShard.setCombiner 0 (.combinerAdvancingTail 0)) s'
      (.finishAdvanceTail 0 1 (.singleton (-(logSize : Int)) 7)) := by
    refine ⟨_, 0, _, 0, rfl, rfl, rfl, Nat.zero_le 1, by decide, ?_, ?_, ?_, rfl⟩
    · intro i ge lt
      simp only [FiniteMap.lookup_ofFinset, mem_oldLap]
      exact if_neg (by omega)
    · intro i entry isTaken
      obtain ⟨rfl, rfl⟩ : i = -(logSize : Int) ∧ 7 = entry := by simpa using isTaken
      simp [size, mem_oldLap]
    · intro i
      simp only [FiniteMap.lookup_singleton, minusLogSize]
      split <;> simp <;> omega
  obtain ⟨-, kept, -, safe⟩ := @inv_inductive_and_safe Nat
  obtain ⟨s, _, same, same', stepSafe⟩ := safe _ _ _ reachable (next_whole second)
  obtain rfl := Option.some.inj same
  obtain rfl := Option.some.inj same'
  obtain ⟨m, m', rest, wholeEq, wholeEq', next⟩ := next_whole second
  refine ⟨_, _, _, reachable, second, ?_, stepSafe⟩
  rw [wholeEq']
  exact kept m m' rest _ (wholeEq ▸ reachable.inv) next

end VerifiedBetrfs.CyclicBufferRw
