import VerifiedBetrfs.CyclicBufferRw

/-!
# The steps of the cyclic buffer keep its invariant

One lemma for each kind of change: a combiner, the head, the tail, a slot or a local tail.
-/

namespace VerifiedBetrfs.CyclicBufferRw

open FiniteMap (lookup_insert lookup_mapRemove)

variable {Stored : Type}

section Combiners

variable {state : CombinerState Stored}

/-- What a combiner knows stays true when tails grow, as long as the entries that it has read stay
and the slots that it appends to are left alone. -/
theorem CombinerInv.mono {localTails localTails' : FiniteMap Nat Nat}
    {aliveBits aliveBits' : FiniteMap Nat Bool} {contents contents' : FiniteMap Int Stored}
    {tail tail' localTail : Nat}
    (combiner : CombinerInv localTails aliveBits tail contents localTail state)
    (grown : ∀ {node other}, localTails'.lookup node = some other →
      ∃ old, localTails.lookup node = some old ∧ old ≤ other)
    (tailLe : tail ≤ tail') (inLap : tail' ≤ localTail + logSize)
    (kept : ∀ i : Int, localTail ≤ i → i < tail → EntryIsAlive aliveBits i →
      EntryIsAlive aliveBits' i ∧ contents'.lookup i = contents.lookup i)
    (left : ∀ {curIdx endIdx}, state = .combinerAppending curIdx endIdx →
      ∀ i : Int, curIdx ≤ i → i < endIdx → EntryIsAlive aliveBits' i → EntryIsAlive aliveBits i) :
    CombinerInv localTails' aliveBits' tail' contents' localTail state := by
  cases state with
  | combinerIdle => trivial
  | combinerReading reader =>
    cases reader with
    | readerStarting => exact combiner
    | readerRange start endIdx cur =>
      obtain ⟨rfl, startLe, -, endLe, curGe, curLe, alive⟩ := combiner
      refine ⟨rfl, startLe, by omega, by omega, curGe, curLe, fun i ge lt => ?_⟩
      obtain ⟨isAlive, same⟩ := kept i ge (by omega) (alive i ge lt).1
      exact ⟨isAlive, same ▸ (alive i ge lt).2⟩
    | readerGuard start endIdx cur val =>
      obtain ⟨rfl, startLe, -, endLe, curGe, curLt, alive, guarded⟩ := combiner
      refine ⟨rfl, startLe, by omega, by omega, curGe, curLt, fun i ge le => ?_, ?_⟩
      · obtain ⟨isAlive, same⟩ := kept i ge (by omega) (alive i ge le).1
        exact ⟨isAlive, same ▸ (alive i ge le).2⟩
      · rw [(kept cur (by omega) (by omega) (alive cur (by omega) le_rfl).1).2, guarded]
  | combinerAdvancingHead idx seenTail =>
    refine ⟨combiner.1, fun node below other stored => ?_⟩
    obtain ⟨old, storedOld, oldLe⟩ := grown stored
    exact (combiner.2 node below old storedOld).trans oldLe
  | combinerAdvancingTail observedHead =>
    intro node other stored
    obtain ⟨old, storedOld, oldLe⟩ := grown stored
    exact (combiner node old storedOld).trans oldLe
  | combinerAppending curIdx endIdx =>
    obtain ⟨localLe, curLe, endLe, -, notAlive⟩ := combiner
    exact ⟨localLe, curLe, by omega, by omega, fun i ge lt =>
      mt (left rfl i ge lt) (notAlive i ge lt)⟩

theorem apart_appending {curIdx endIdx : Nat}
    (appending : ∀ {curIdx' endIdx'}, state = .combinerAppending curIdx' endIdx' →
      endIdx' ≤ curIdx ∨ endIdx ≤ curIdx')
    (guarding : ∀ {start endIdx' cur val},
      state = .combinerReading (.readerGuard start endIdx' cur val) →
        cur < curIdx ∨ endIdx ≤ cur) : Apart (.combinerAppending curIdx endIdx) state := by
  cases state with
  | combinerAppending => exact appending rfl
  | combinerReading reader =>
    cases reader with
    | readerGuard => exact guarding rfl
    | readerStarting => trivial
    | readerRange => trivial
  | combinerIdle | combinerAdvancingHead | combinerAdvancingTail => trivial

end Combiners

namespace ShardInv

variable {s : Shard Stored} {head tail minTail nodeId : Nat} {contents : FiniteMap Int Stored}
  (inv : ShardInv s head tail minTail contents) {state state' : CombinerState Stored}
  {localTail newTail : Nat} {withdrawn : FiniteMap Int Stored} {deposited : Stored}

include inv

theorem exists_localTail (found : s.combinerState.lookup nodeId = some state) :
    ∃ localTail, s.localTails.lookup nodeId = some localTail := by
  rw [← Option.isSome_iff_exists, inv.localTails_complete, ← inv.combinerState_complete, found]
  rfl

theorem nodeId_lt (stored : s.localTails.lookup nodeId = some localTail) :
    nodeId < numReplicas := by
  rw [← inv.localTails_complete, stored]
  rfl

theorem minTail_le (stored : s.localTails.lookup nodeId = some localTail) :
    minTail ≤ localTail := by
  obtain ⟨below, -⟩ := minLocalTailRec_spec inv.minTail_eq
  obtain ⟨_, stored', minLe⟩ := below nodeId (Nat.le_pred_of_lt (inv.nodeId_lt stored))
  obtain rfl := Option.mem_unique stored stored'
  exact minLe

theorem exists_minTail : ∃ node, s.localTails.lookup node = some minTail := by
  obtain ⟨-, node, -, stored⟩ := minLocalTailRec_spec inv.minTail_eq
  exact ⟨node, stored⟩

theorem minTail_bounds : minTail ≤ tail ∧ tail ≤ minTail + logSize := by
  obtain ⟨_, stored⟩ := inv.exists_minTail
  exact (inv.localTail_bounds stored).2

section

variable (found : s.combinerState.lookup nodeId = some state)

include found

theorem setCombiner (new : ∀ {localTail}, s.localTails.lookup nodeId = some localTail →
      CombinerInv s.localTails s.aliveBits tail contents localTail state')
    (apart : ∀ {other otherState}, other ≠ nodeId →
      s.combinerState.lookup other = some otherState → Apart state' otherState) :
    ShardInv (s.setCombiner nodeId state') head tail minTail contents := by
  have lookupEq : ∀ other, (s.setCombiner nodeId state').combinerState.lookup other =
      if other = nodeId then some state' else s.combinerState.lookup other :=
    fun other => lookup_insert _ _ _ _
  refine { inv with combinerState_complete := ?_, apart := ?_, combiners := ?_ }
  · intro other
    rw [lookupEq, ← inv.combinerState_complete]
    by_cases isNode : other = nodeId
    · simp [isNode, found]
    · simp [isNode]
  · intro node node' state₁ state₂ distinct found₁ found₂
    rw [lookupEq] at found₁ found₂
    by_cases isNode : node = nodeId
    · have isOther : node' ≠ nodeId := fun same => distinct (isNode.trans same.symm)
      rw [if_pos isNode, Option.some.injEq] at found₁
      rw [if_neg isOther] at found₂
      exact found₁ ▸ apart isOther found₂
    · rw [if_neg isNode] at found₁
      by_cases isNode' : node' = nodeId
      · rw [if_pos isNode', Option.some.injEq] at found₂
        exact found₂ ▸ (apart isNode found₁).symm
      · rw [if_neg isNode'] at found₂
        exact inv.apart distinct found₁ found₂
  · intro node localTail state₁ stored found₁
    rw [lookupEq] at found₁
    by_cases isNode : node = nodeId
    · subst isNode
      rw [if_pos rfl, Option.some.injEq] at found₁
      exact found₁ ▸ new stored
    · rw [if_neg isNode] at found₁
      exact inv.combiners stored found₁

theorem setInert (inert : state'.Inert)
    (new : ∀ {localTail}, s.localTails.lookup nodeId = some localTail →
      CombinerInv s.localTails s.aliveBits tail contents localTail state') :
    ShardInv (s.setCombiner nodeId state') head tail minTail contents :=
  inv.setCombiner found new fun _ _ => inert.apart _

theorem setIdle : ShardInv (s.setCombiner nodeId .combinerIdle) head tail minTail contents :=
  inv.setInert found trivial fun _ => trivial

end

variable {s' : Shard Stored}

theorem initAdvanceHead (step : InitAdvanceHead s s' nodeId) :
    ShardInv s' head tail minTail contents := by
  obtain ⟨_, stored, found, rfl⟩ := step
  refine inv.setInert found trivial fun _ => ⟨by decide, fun node below other storedOther => ?_⟩
  obtain rfl : node = 0 := by omega
  exact (Option.mem_unique stored storedOther).le

theorem stepAdvanceHead (step : StepAdvanceHead s s' nodeId) :
    ShardInv s' head tail minTail contents := by
  obtain ⟨_, _, _, found, idxLt, stored, rfl⟩ := step
  refine inv.setInert found trivial fun storedNode =>
    ⟨idxLt, fun node below other storedOther => ?_⟩
  obtain ⟨-, seenLe⟩ := inv.combiners storedNode found
  obtain isEarlier | rfl := Nat.lt_succ_iff_lt_or_eq.mp below
  · have := seenLe node isEarlier other storedOther
    split <;> omega
  · obtain rfl := Option.mem_unique stored storedOther
    split <;> omega

/-- The head may be set to a value that is not up to date, as long as no local tail is
before it. -/
theorem finishAdvanceHead (step : FinishAdvanceHead s s' nodeId) :
    ∃ head', ShardInv s' head' tail minTail contents := by
  obtain ⟨_, seenTail, _, found, rfl, -, rfl⟩ := step
  obtain ⟨_, stored⟩ := inv.exists_localTail found
  obtain ⟨-, seenLe⟩ := inv.combiners stored found
  have seenLeAll : ∀ {node other}, s.localTails.lookup node = some other → seenTail ≤ other :=
    fun storedOther => seenLe _ (inv.nodeId_lt storedOther) _ storedOther
  refine ⟨seenTail, { inv.setIdle found with
    head_eq := rfl
    head_le := ?_
    localTail_bounds := ?_ }⟩
  · exact (seenLeAll stored).trans (inv.localTail_bounds stored).2.1
  · intro node other storedOther
    exact ⟨seenLeAll storedOther, (inv.localTail_bounds storedOther).2⟩

theorem initAdvanceTail (step : InitAdvanceTail s s' nodeId) :
    ShardInv s' head tail minTail contents := by
  obtain ⟨_, found, headEq, rfl⟩ := step
  obtain rfl := Option.mem_unique inv.head_eq headEq
  exact inv.setInert found trivial fun _ _ _ stored => (inv.localTail_bounds stored).1

theorem raise_tail (atLeast : tail ≤ newTail)
    (atMost : ∀ {node localTail}, s.localTails.lookup node = some localTail →
      newTail ≤ localTail + logSize)
    (window : ∀ i, (withdrawn.lookup i).isSome ↔ minusLogSize tail ≤ i ∧ i < minusLogSize newTail) :
    ShardInv { s with
        contents := some (contents.mapRemove withdrawn.support)
        tail := some newTail }
      head newTail minTail (contents.mapRemove withdrawn.support) := by
  have outside : ∀ i : Int, newTail - (logSize : Int) ≤ i →
      (contents.mapRemove withdrawn.support).lookup i = contents.lookup i := by
    intro i atLeast
    rw [lookup_mapRemove, if_neg]
    rw [withdrawn.mem_support, window, minusLogSize, minusLogSize]
    omega
  have headLe := inv.head_le
  refine { inv with
    tail_eq := rfl
    contents_eq := rfl
    contents_complete := ?_
    head_le := by omega
    localTail_bounds := ?_
    free_not_alive := ?_
    written_iff := ?_
    future_absent := ?_
    combiners := ?_ }
  · intro i present
    by_cases inWindow : (i : Int) ∈ withdrawn.support
    · simp [inWindow] at present
    · simp only [lookup_mapRemove, if_neg inWindow] at present
      rw [withdrawn.mem_support, window, minusLogSize, minusLogSize] at inWindow
      have := inv.contents_complete i present
      omega
  · intro node localTail stored
    have bounds := inv.localTail_bounds stored
    exact ⟨bounds.1, bounds.2.1.trans atLeast, atMost stored⟩
  · intro i isFree
    exact inv.free_not_alive i (by omega)
  · intro i inLap below
    rw [outside i inLap]
    obtain isOld | isNew := lt_or_ge i (tail : Int)
    · exact inv.written_iff i (by omega) isOld
    · have minLe := inv.minTail_bounds
      have notAlive : ¬ EntryIsAlive s.aliveBits i := by
        obtain ⟨node, stored⟩ := inv.exists_minTail
        have := atMost stored
        exact inv.free_not_alive i isNew (by omega)
      have notPassed : ¬ i < minTail := by omega
      simp [notAlive, notPassed, inv.future_absent i isNew]
  · intro i isFuture
    rw [outside i (by have := logSize_pos; omega)]
    exact inv.future_absent i (by omega)
  · intro node localTail state stored found
    have tailLe := atMost stored
    exact (inv.combiners stored found).mono (fun stored => ⟨_, stored, le_rfl⟩) atLeast tailLe
      (fun i ge _ alive => ⟨alive, outside i (by omega)⟩) fun _ _ _ _ alive => alive

/-- No local tail is before the head that a combiner has observed. -/
theorem newTail_le {observedHead : Nat}
    (found : s.combinerState.lookup nodeId = some (.combinerAdvancingTail observedHead))
    (atMost : newTail ≤ observedHead + logSize) {node : Nat}
    (stored : s.localTails.lookup node = some localTail) : newTail ≤ localTail + logSize := by
  obtain ⟨_, storedOwn⟩ := inv.exists_localTail found
  have := inv.combiners storedOwn found node localTail stored
  omega

theorem finishAdvanceTail (step : FinishAdvanceTail s s' nodeId newTail withdrawn) :
    ShardInv s' head newTail minTail (contents.mapRemove withdrawn.support) := by
  obtain ⟨_, _, _, tailEq, contentsEq, found, atLeast, atMost, -, -, window, rfl⟩ := step
  obtain rfl := Option.mem_unique inv.tail_eq tailEq
  obtain rfl := Option.mem_unique inv.contents_eq contentsEq
  have raised := inv.raise_tail atLeast (inv.newTail_le found atMost) window
  refine raised.setCombiner found ?_ ?_
  · intro localTail stored
    have bounds := inv.localTail_bounds stored
    have tailLe := inv.newTail_le found atMost stored
    refine ⟨bounds.2.1, atLeast, le_rfl, by omega, fun i ge lt => ?_⟩
    obtain ⟨_, storedMin⟩ := inv.exists_minTail
    have := inv.newTail_le found atMost storedMin
    exact inv.free_not_alive i ge (by omega)
  · intro other otherState isOther foundOther
    obtain ⟨_, storedOther⟩ := inv.exists_localTail foundOther
    refine apart_appending ?_ ?_
    · rintro curIdx endIdx rfl
      exact Or.inl (inv.combiners storedOther foundOther).2.2.1
    · rintro start endIdx cur val rfl
      obtain ⟨-, -, -, endLe, -, curLt, -⟩ := inv.combiners storedOther foundOther
      exact Or.inl (curLt.trans_le endLe)

/-- An entry is written into its slot, which nobody else appends to or has read. -/
theorem write_entry {key : Nat} (inLap : tail ≤ key + logSize) (below : key < tail)
    (minLe : minTail ≤ key) (notAlive : ¬ EntryIsAlive s.aliveBits key)
    (notAppending : ∀ {node curIdx endIdx},
      s.combinerState.lookup node = some (.combinerAppending curIdx endIdx) →
        ¬ (curIdx ≤ key ∧ key < endIdx)) :
    ShardInv { s with
      aliveBits := s.aliveBits.insert (logicalToPhysicalIndex key)
        (logicalToAliveBitAliveWhen key)
      contents := some (contents.insert key deposited) }
      head tail minTail (contents.insert key deposited) := by
  have aliveKey : EntryIsAlive (s.aliveBits.insert (logicalToPhysicalIndex key)
      (logicalToAliveBitAliveWhen key)) key := by
    simp [EntryIsAlive]
  -- The other entries of the lap that ends at the tail have other slots.
  have sameAlive : ∀ i : Int, tail - (logSize : Int) ≤ i → i < tail → i ≠ key →
      (EntryIsAlive (s.aliveBits.insert (logicalToPhysicalIndex key)
        (logicalToAliveBitAliveWhen key)) i ↔ EntryIsAlive s.aliveBits i) := by
    intro i ge lt isOther
    have otherSlot : logicalToPhysicalIndex i ≠ logicalToPhysicalIndex key := by
      intro same
      exact isOther (eq_of_logicalToPhysicalIndex_eq ge (by omega) (by omega) (by omega) same)
    rw [EntryIsAlive, EntryIsAlive, lookup_insert, if_neg otherSlot]
  refine { inv with
    contents_eq := rfl
    aliveBits_complete := ?_
    contents_complete := ?_
    free_not_alive := ?_
    written_iff := ?_
    future_absent := ?_
    combiners := ?_ }
  · intro slot
    by_cases isSlot : slot = logicalToPhysicalIndex key
    · simp [isSlot, logicalToPhysicalIndex_lt]
    · simpa [isSlot] using inv.aliveBits_complete slot
  · intro i present
    by_cases isKey : i = key
    · omega
    · exact inv.contents_complete i (by simpa [isKey] using present)
  · intro i isFree lt
    have otherSlot : logicalToPhysicalIndex i ≠ logicalToPhysicalIndex key := by
      intro same
      have isKey : i = key := eq_of_logicalToPhysicalIndex_eq (show (key : Int) ≤ i by omega)
        (by omega) le_rfl (by have := logSize_pos; omega) same
      omega
    have := inv.free_not_alive i isFree lt
    simpa only [EntryIsAlive, lookup_insert, if_neg otherSlot] using this
  · intro i ge lt
    by_cases isKey : i = key
    · simp [isKey, aliveKey]
    · rw [sameAlive i ge lt isKey, lookup_insert, if_neg isKey]
      exact inv.written_iff i ge lt
  · intro i isFuture
    have isOther : i ≠ key := by omega
    rw [lookup_insert, if_neg isOther]
    exact inv.future_absent i isFuture
  · intro node localTail state stored found
    have bounds := inv.localTail_bounds stored
    have combiner := inv.combiners stored found
    refine combiner.mono (fun stored => ⟨_, stored, le_rfl⟩) le_rfl bounds.2.2 ?_ ?_
    · intro i ge lt alive
      have isOther : i ≠ key := by
        rintro rfl
        exact notAlive alive
      exact ⟨(sameAlive i (by omega) lt isOther).mpr alive, by rw [lookup_insert, if_neg isOther]⟩
    · rintro curIdx endIdx rfl i ge lt alive
      obtain ⟨_, _, _, -⟩ := combiner
      have isOther : i ≠ key := by
        rintro rfl
        exact notAppending found ⟨by omega, by omega⟩
      exact (sameAlive i (by omega) (by omega) isOther).mp alive

theorem appendFlipBit (step : AppendFlipBit s s' nodeId deposited) :
    ∃ contents', ShardInv s' head tail minTail contents' := by
  obtain ⟨curIdx, endIdx, _, _, found, below, contentsEq, _, _, notAlive, rfl⟩ := step
  obtain rfl := Option.mem_unique inv.contents_eq contentsEq
  obtain ⟨_, stored⟩ := inv.exists_localTail found
  obtain ⟨_, -, endLe, _, notAliveRange⟩ := inv.combiners stored found
  have minLe := inv.minTail_le stored
  -- The combiner moves on before the entry is written.
  have moved : ShardInv (s.setCombiner nodeId (.combinerAppending (curIdx + 1) endIdx)) head tail
      minTail contents := by
    refine inv.setCombiner found ?_ ?_
    · intro localTail' stored'
      obtain rfl := Option.mem_unique stored stored'
      exact ⟨by omega, below, endLe, by omega, fun i ge lt => notAliveRange i (by omega) lt⟩
    · intro other otherState isOther foundOther
      have apart := inv.apart isOther.symm found foundOther
      refine apart_appending ?_ ?_
      · rintro curIdx' endIdx' rfl
        exact apart.imp_left fun before => by omega
      · rintro start endIdx' cur val rfl
        exact apart.imp_left fun before => by omega
  refine ⟨contents.insert curIdx deposited, moved.write_entry (by omega) (by omega) (by omega)
    notAlive ?_⟩
  intro node curIdx' endIdx' foundNode inRange
  by_cases isNode : node = nodeId
  · obtain ⟨rfl, rfl⟩ : curIdx + 1 = curIdx' ∧ endIdx = endIdx' := by
      simpa [Shard.setCombiner, isNode] using foundNode
    omega
  · have foundNode : s.combinerState.lookup node = some (.combinerAppending curIdx' endIdx') := by
      simpa [Shard.setCombiner, isNode] using foundNode
    obtain before | after := inv.apart isNode foundNode found <;> omega

theorem readerDoStart (step : ReaderDoStart s s' nodeId) :
    ShardInv s' head tail minTail contents := by
  obtain ⟨_, found, stored, rfl⟩ := step
  exact inv.setInert found trivial fun stored' => Option.mem_unique stored stored'

theorem readerDoEnter (step : ReaderDoEnter s s' nodeId) :
    ShardInv s' head tail minTail contents := by
  obtain ⟨start, _, found, tailEq, rfl⟩ := step
  obtain rfl := Option.mem_unique inv.tail_eq tailEq
  refine inv.setInert found trivial fun {localTail} stored => ?_
  obtain rfl : start = localTail := inv.combiners stored found
  have bounds := inv.localTail_bounds stored
  exact ⟨rfl, bounds.2.1, by omega, le_rfl, le_rfl, bounds.2.1, fun i ge lt => by omega⟩

/-- An entry that is alive is not in the range in which a combiner appends. -/
theorem readerDoGuard {i : Nat} (step : ReaderDoGuard s s' nodeId i) :
    ShardInv s' head tail minTail contents := by
  obtain ⟨_, _, cur, _, _, found, below, contentsEq, entryEq, rfl, alive, rfl⟩ := step
  obtain rfl := Option.mem_unique inv.contents_eq contentsEq
  refine inv.setCombiner found ?_ ?_
  · intro localTail stored
    obtain ⟨same, startLe, tailLe, endLe, curGe, -, aliveRange⟩ := inv.combiners stored found
    refine ⟨same, startLe, tailLe, endLe, curGe, below, fun i ge le => ?_, entryEq⟩
    obtain isCur | isEarlier := le.eq_or_lt
    · rw [isCur, entryEq]
      exact ⟨alive, rfl⟩
    · exact aliveRange i ge isEarlier
  · intro other otherState isOther foundOther
    cases otherState with
    | combinerAppending curIdx endIdx' =>
      obtain ⟨_, storedOther⟩ := inv.exists_localTail foundOther
      obtain ⟨-, -, -, -, notAlive⟩ := inv.combiners storedOther foundOther
      by_contra overlap
      simp only [Apart, not_or, not_lt, not_le] at overlap
      exact notAlive cur (by omega) (by omega) alive
    | combinerReading reader => cases reader <;> trivial
    | combinerIdle | combinerAdvancingHead | combinerAdvancingTail => trivial

theorem readerDoUnguard (step : ReaderDoUnguard s s' nodeId) :
    ShardInv s' head tail minTail contents := by
  obtain ⟨_, _, _, _, found, rfl⟩ := step
  refine inv.setInert found trivial fun stored => ?_
  obtain ⟨same, startLe, tailLe, endLe, _, curLt, alive, -⟩ := inv.combiners stored found
  exact ⟨same, startLe, tailLe, endLe, by omega, curLt, fun i ge lt => alive i ge (by omega)⟩

/-- A local tail is moved over entries that are alive.  The slots that become free are not alive for
the next lap. -/
theorem raise_localTail (found : s.combinerState.lookup nodeId = some .combinerIdle)
    (stored : s.localTails.lookup nodeId = some localTail) (atLeast : localTail ≤ newTail)
    (atMost : newTail ≤ tail) (inLap : tail ≤ newTail + logSize)
    (alive : ∀ i : Int, localTail ≤ i → i < newTail → EntryIsAlive s.aliveBits i) :
    ∃ minTail', ShardInv { s with localTails := s.localTails.insert nodeId newTail } head tail
      minTail' contents := by
  have lookupEq : ∀ other, (s.localTails.insert nodeId newTail).lookup other =
      if other = nodeId then some newTail else s.localTails.lookup other :=
    fun other => lookup_insert _ _ _ _
  have complete : ∀ node, ((s.localTails.insert nodeId newTail).lookup node).isSome ↔
      node < numReplicas := by
    intro node
    rw [lookupEq, ← inv.localTails_complete]
    by_cases isNode : node = nodeId
    · simp [isNode, stored]
    · simp [isNode]
  obtain ⟨minTail', minEq'⟩ : ∃ minTail', minLocalTail (s.localTails.insert nodeId newTail) =
      some minTail' :=
    exists_minLocalTailRec fun node atMost =>
      (complete node).mpr (Nat.lt_of_le_pred (by decide) atMost)
  obtain ⟨below', _, -, attained'⟩ := minLocalTailRec_spec minEq'
  have minLeNew : minTail' ≤ newTail := by
    obtain ⟨other, storedOther, minLe⟩ := below' nodeId (Nat.le_pred_of_lt (inv.nodeId_lt stored))
    rw [lookupEq, if_pos rfl, Option.some.injEq] at storedOther
    omega
  -- The entries between the two least tails are among those that have been read.
  have aliveBetween : ∀ i : Int, minTail ≤ i → i < minTail' → EntryIsAlive s.aliveBits i := by
    intro i ge lt
    obtain ⟨node, storedMin⟩ := inv.exists_minTail
    have isNode : node = nodeId := by
      by_contra isOther
      obtain ⟨other, storedOther, minLe⟩ :=
        below' node (Nat.le_pred_of_lt (inv.nodeId_lt storedMin))
      rw [lookupEq, if_neg isOther, storedMin, Option.some.injEq] at storedOther
      omega
    obtain rfl : localTail = minTail := by
      rw [isNode] at storedMin
      exact Option.mem_unique stored storedMin
    exact alive i ge (by omega)
  have grown : ∀ {node other}, (s.localTails.insert nodeId newTail).lookup node = some other →
      ∃ old, s.localTails.lookup node = some old ∧ old ≤ other := by
    intro node other storedOther
    rw [lookupEq] at storedOther
    by_cases isNode : node = nodeId
    · rw [if_pos isNode, Option.some.injEq] at storedOther
      exact ⟨localTail, isNode ▸ stored, by omega⟩
    · rw [if_neg isNode] at storedOther
      exact ⟨other, storedOther, le_rfl⟩
  have minLeMin : minTail ≤ minTail' := by
    obtain ⟨old, storedOld, oldLe⟩ := grown attained'
    exact (inv.minTail_le storedOld).trans oldLe
  refine ⟨minTail', { inv with
    minTail_eq := minEq'
    localTails_complete := complete
    localTail_bounds := ?_
    free_not_alive := ?_
    written_iff := ?_
    combiners := ?_ }⟩
  · intro node other storedOther
    obtain ⟨old, storedOld, oldLe⟩ := grown storedOther
    have bounds := inv.localTail_bounds storedOld
    rw [lookupEq] at storedOther
    by_cases isNode : node = nodeId
    · rw [if_pos isNode, Option.some.injEq] at storedOther
      omega
    · rw [if_neg isNode] at storedOther
      exact inv.localTail_bounds storedOther
  · intro i isFree lt
    obtain wasFree | isNew := lt_or_ge i (minTail + (logSize : Int))
    · exact inv.free_not_alive i isFree wasFree
    · have read := aliveBetween (i - (logSize : Int)) (by omega) (by omega)
      simpa using not_entryIsAlive_add_logSize read
  · intro i ge lt
    rw [← inv.written_iff i ge lt]
    constructor
    · rintro (isAlive | passed)
      · exact Or.inl isAlive
      · by_cases wasPassed : i < minTail
        · exact Or.inr wasPassed
        · exact Or.inl (aliveBetween i (by omega) passed)
    · rintro (isAlive | passed)
      · exact Or.inl isAlive
      · exact Or.inr (by omega)
  · intro node other state storedOther foundState
    by_cases isNode : node = nodeId
    · subst isNode
      obtain rfl := Option.mem_unique found foundState
      trivial
    · rw [lookupEq, if_neg isNode] at storedOther
      have inLap := (inv.localTail_bounds storedOther).2.2
      exact (inv.combiners storedOther foundState).mono grown le_rfl inLap
        (fun _ _ _ alive => ⟨alive, rfl⟩) fun _ _ _ _ alive => alive

theorem readerDoFinish (step : ReaderDoFinish s s' nodeId) :
    ∃ minTail', ShardInv s' head tail minTail' contents := by
  obtain ⟨_, _, _, _, found, rfl, stored, rfl⟩ := step
  obtain ⟨rfl, startLe, tailLe, endLe, -, -, alive⟩ := inv.combiners stored found
  exact (inv.setIdle found).raise_localTail (by simp [Shard.setCombiner])
    stored startLe endLe tailLe
    fun i ge lt => (alive i ge lt).1

theorem readerDoAbort (step : ReaderDoAbort s s' nodeId) :
    ShardInv s' head tail minTail contents := by
  obtain ⟨⟨_, _, _, found, _⟩ | ⟨_, found⟩, rfl⟩ := step
  · exact inv.setIdle found
  · exact inv.setIdle found

theorem nextStep {step : Step Stored} (next : NextStep s s' step) :
    ∃ head' tail' minTail' contents', ShardInv s' head' tail' minTail' contents' := by
  cases step with
  | initAdvanceHead nodeId => exact ⟨_, _, _, _, inv.initAdvanceHead next⟩
  | stepAdvanceHead nodeId => exact ⟨_, _, _, _, inv.stepAdvanceHead next⟩
  | abandonAdvanceHead nodeId | finishAppending nodeId =>
    obtain ⟨_, _, found, _, rfl⟩ := next
    exact ⟨_, _, _, _, inv.setIdle found⟩
  | finishAdvanceHead nodeId =>
    obtain ⟨head', inv'⟩ := inv.finishAdvanceHead next
    exact ⟨_, _, _, _, inv'⟩
  | initAdvanceTail nodeId => exact ⟨_, _, _, _, inv.initAdvanceTail next⟩
  | abandonAdvanceTail nodeId =>
    obtain ⟨_, found, rfl⟩ := next
    exact ⟨_, _, _, _, inv.setIdle found⟩
  | finishAdvanceTail nodeId newTail withdrawn => exact ⟨_, _, _, _, inv.finishAdvanceTail next⟩
  | appendFlipBit nodeId deposited =>
    obtain ⟨contents', inv'⟩ := inv.appendFlipBit next
    exact ⟨_, _, _, _, inv'⟩
  | readerDoStart nodeId => exact ⟨_, _, _, _, inv.readerDoStart next⟩
  | readerDoEnter nodeId => exact ⟨_, _, _, _, inv.readerDoEnter next⟩
  | readerDoGuard nodeId i => exact ⟨_, _, _, _, inv.readerDoGuard next⟩
  | readerDoUnguard nodeId => exact ⟨_, _, _, _, inv.readerDoUnguard next⟩
  | readerDoFinish nodeId =>
    obtain ⟨minTail', inv'⟩ := inv.readerDoFinish next
    exact ⟨_, _, _, _, inv'⟩
  | readerDoAbort nodeId => exact ⟨_, _, _, _, inv.readerDoAbort next⟩

end ShardInv

end VerifiedBetrfs.CyclicBufferRw
