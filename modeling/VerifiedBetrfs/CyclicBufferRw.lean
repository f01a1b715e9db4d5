import VerifiedBetrfs.NRSimple
import VerifiedBetrfs.Shards
import Mathlib.Algebra.Order.Ring.Int

/-!
# The cyclic buffer of the log

A slot of the buffer is used again in every lap, and the meaning of its bit changes from lap to lap.
-/

namespace VerifiedBetrfs.CyclicBufferRw

def logSize : Nat := 1024 * 1024

/-- How far a reader is with its range of entries. -/
inductive ReaderState (Stored : Type) where
  | readerStarting (start : Nat)
  | readerRange (start endIdx cur : Nat)
  | readerGuard (start endIdx cur : Nat) (val : Stored)

/-- What a combiner is doing with the buffer. -/
inductive CombinerState (Stored : Type) where
  | combinerIdle
  | combinerReading (readerState : ReaderState Stored)
  | combinerAdvancingHead (idx minTail : Nat)
  | combinerAdvancingTail (observedHead : Nat)
  | combinerAppending (curIdx tail : Nat)

/-- A part of the state of the buffer. -/
structure Shard (Stored : Type) where
  head : Option Nat
  tail : Option Nat
  localTails : FiniteMap Nat Nat
  contents : Option (FiniteMap Int Stored)
  aliveBits : FiniteMap Nat Bool
  combinerState : FiniteMap Nat (CombinerState Stored)

/-- A shard, or nothing if two shards did not fit together. -/
abbrev M (Stored : Type) := Option (Shard Stored)

variable {Stored : Type}

/-- The slot of an entry. -/
def logicalToPhysicalIndex (logical : Int) : Nat := (logical % (logSize : Int)).toNat

def logicalToAliveBitAliveWhen (logical : Int) : Bool := (logical / (logSize : Int)) % 2 == 0

/-- The bit of the slot says that the entry has been written. -/
def EntryIsAlive (aliveBits : FiniteMap Nat Bool) (logical : Int) : Prop :=
  aliveBits.lookup (logicalToPhysicalIndex logical) = some (logicalToAliveBitAliveWhen logical)

def minusLogSize (i : Int) : Int := i - (logSize : Int)

def minLocalTailRec (localTails : FiniteMap Nat Nat) : Nat → Option Nat
  | 0 => localTails.lookup 0
  | idx + 1 => do
    let localTail ← localTails.lookup (idx + 1)
    let rest ← minLocalTailRec localTails idx
    return if localTail < rest then localTail else rest

/-- The least of the local tails. -/
def minLocalTail (localTails : FiniteMap Nat Nat) : Option Nat :=
  minLocalTailRec localTails (numReplicas - 1)

/-- The change of the state of one combiner. -/
def Shard.setCombiner (m : Shard Stored) (nodeId : Nat) (state : CombinerState Stored) :
    Shard Stored :=
  { m with combinerState := m.combinerState.insert nodeId state }

section

variable (m m' : Shard Stored) (combinerNodeId : Nat)

/-- A combiner starts to look for the least local tail. -/
def InitAdvanceHead : Prop :=
  ∃ localTail, m.localTails.lookup 0 = some localTail ∧
    m.combinerState.lookup combinerNodeId = some .combinerIdle ∧
    m' = m.setCombiner combinerNodeId (.combinerAdvancingHead 1 localTail)

def StepAdvanceHead : Prop :=
  ∃ idx minTail localTail,
    m.combinerState.lookup combinerNodeId = some (.combinerAdvancingHead idx minTail) ∧
    idx < numReplicas ∧ m.localTails.lookup idx = some localTail ∧
    m' = m.setCombiner combinerNodeId
      (.combinerAdvancingHead (idx + 1) (if minTail < localTail then minTail else localTail))

def AbandonAdvanceHead : Prop :=
  ∃ idx minTail, m.combinerState.lookup combinerNodeId =
      some (.combinerAdvancingHead idx minTail) ∧ idx = numReplicas ∧
    m' = m.setCombiner combinerNodeId .combinerIdle

/-- The head moves to the tail that was found. -/
def FinishAdvanceHead : Prop :=
  ∃ idx minTail head, m.combinerState.lookup combinerNodeId =
      some (.combinerAdvancingHead idx minTail) ∧ idx = numReplicas ∧ m.head = some head ∧
    m' = { m.setCombiner combinerNodeId .combinerIdle with head := some minTail }

end

/-- A combiner looks at the head. -/
def InitAdvanceTail (m m' : Shard Stored) (combinerNodeId : Nat) : Prop :=
  ∃ head, m.combinerState.lookup combinerNodeId = some .combinerIdle ∧ m.head = some head ∧
    m' = m.setCombiner combinerNodeId (.combinerAdvancingTail head)

def AbandonAdvanceTail (m m' : Shard Stored) (combinerNodeId : Nat) : Prop :=
  ∃ observedHead,
    m.combinerState.lookup combinerNodeId = some (.combinerAdvancingTail observedHead) ∧
    m' = m.setCombiner combinerNodeId .combinerIdle

/-- The entries that are one lap below the new ones are withdrawn. -/
def FinishAdvanceTail (m m' : Shard Stored) (combinerNodeId newTail : Nat)
    (withdrawn : FiniteMap Int Stored) : Prop :=
  ∃ tail contents observedHead, m.tail = some tail ∧ m.contents = some contents ∧
    m.combinerState.lookup combinerNodeId = some (.combinerAdvancingTail observedHead) ∧
    tail ≤ newTail ∧ newTail ≤ observedHead + logSize ∧
    (∀ i : Int, tail ≤ i → i < newTail → contents.lookup i = none) ∧
    (∀ i entry, withdrawn.lookup i = some entry → contents.lookup i = some entry) ∧
    (∀ i, (withdrawn.lookup i).isSome ↔ minusLogSize tail ≤ i ∧ i < minusLogSize newTail) ∧
    m' = { m.setCombiner combinerNodeId (.combinerAppending tail newTail) with
      contents := some (contents.mapRemove withdrawn.support)
      tail := some newTail }

/-- The next entry is written and becomes alive. -/
def AppendFlipBit (m m' : Shard Stored) (combinerNodeId : Nat) (deposited : Stored) : Prop :=
  ∃ curIdx tail contents bit,
    m.combinerState.lookup combinerNodeId = some (.combinerAppending curIdx tail) ∧
    curIdx < tail ∧ m.contents = some contents ∧ contents.lookup curIdx = none ∧
    m.aliveBits.lookup (logicalToPhysicalIndex curIdx) = some bit ∧
    ¬ EntryIsAlive m.aliveBits curIdx ∧
    m' = { m.setCombiner combinerNodeId (.combinerAppending (curIdx + 1) tail) with
      aliveBits := m.aliveBits.insert (logicalToPhysicalIndex curIdx)
        (logicalToAliveBitAliveWhen curIdx)
      contents := some (contents.insert curIdx deposited) }

/-- A combiner has written its entries. -/
def FinishAppending (m m' : Shard Stored) (combinerNodeId : Nat) : Prop :=
  ∃ curIdx tail, m.combinerState.lookup combinerNodeId = some (.combinerAppending curIdx tail) ∧
    curIdx = tail ∧ m' = m.setCombiner combinerNodeId .combinerIdle

section

variable (m m' : Shard Stored)

def ReaderDoStart (combinerNodeId : Nat) : Prop :=
  ∃ localTail, m.combinerState.lookup combinerNodeId = some .combinerIdle ∧
    m.localTails.lookup combinerNodeId = some localTail ∧
    m' = m.setCombiner combinerNodeId (.combinerReading (.readerStarting localTail))

/-- A reader learns how far the entries go. -/
def ReaderDoEnter (combinerNodeId : Nat) : Prop :=
  ∃ start tail, m.combinerState.lookup combinerNodeId =
      some (.combinerReading (.readerStarting start)) ∧ m.tail = some tail ∧
    m' = m.setCombiner combinerNodeId (.combinerReading (.readerRange start tail start))

/-- A reader looks at an entry that is alive. -/
def ReaderDoGuard (combinerNodeId i : Nat) : Prop :=
  ∃ start endIdx cur contents entry, m.combinerState.lookup combinerNodeId =
      some (.combinerReading (.readerRange start endIdx cur)) ∧ cur < endIdx ∧
    m.contents = some contents ∧ contents.lookup i = some entry ∧ cur = i ∧
    EntryIsAlive m.aliveBits i ∧
    m' = m.setCombiner combinerNodeId (.combinerReading (.readerGuard start endIdx i entry))

/-- A reader goes on to the next entry. -/
def ReaderDoUnguard (combinerNodeId : Nat) : Prop :=
  ∃ start endIdx cur val, m.combinerState.lookup combinerNodeId =
      some (.combinerReading (.readerGuard start endIdx cur val)) ∧
    m' = m.setCombiner combinerNodeId (.combinerReading (.readerRange start endIdx (cur + 1)))

/-- The local tail moves over the entries that were read. -/
def ReaderDoFinish (combinerNodeId : Nat) : Prop :=
  ∃ start endIdx cur localTail, m.combinerState.lookup combinerNodeId =
      some (.combinerReading (.readerRange start endIdx cur)) ∧ cur = endIdx ∧
    m.localTails.lookup combinerNodeId = some localTail ∧
    m' = { m.setCombiner combinerNodeId .combinerIdle with
      localTails := m.localTails.insert combinerNodeId endIdx }

def ReaderDoAbort (combinerNodeId : Nat) : Prop :=
  ((∃ start endIdx cur, m.combinerState.lookup combinerNodeId =
      some (.combinerReading (.readerRange start endIdx cur)) ∧ cur < endIdx) ∨
    ∃ start, m.combinerState.lookup combinerNodeId =
      some (.combinerReading (.readerStarting start))) ∧
    m' = m.setCombiner combinerNodeId .combinerIdle

end

/-- The steps of a shard. -/
inductive Step (Stored : Type) where
  | initAdvanceHead (nodeId : Nat)
  | stepAdvanceHead (nodeId : Nat)
  | abandonAdvanceHead (nodeId : Nat)
  | finishAdvanceHead (nodeId : Nat)
  | initAdvanceTail (nodeId : Nat)
  | abandonAdvanceTail (nodeId : Nat)
  | finishAdvanceTail (nodeId newTail : Nat) (withdrawn : FiniteMap Int Stored)
  | appendFlipBit (nodeId : Nat) (deposited : Stored)
  | finishAppending (nodeId : Nat)
  | readerDoStart (nodeId : Nat)
  | readerDoEnter (nodeId : Nat)
  | readerDoGuard (nodeId i : Nat)
  | readerDoUnguard (nodeId : Nat)
  | readerDoFinish (nodeId : Nat)
  | readerDoAbort (nodeId : Nat)

def NextStep (m m' : Shard Stored) : Step Stored → Prop
  | .initAdvanceHead nodeId => InitAdvanceHead m m' nodeId
  | .stepAdvanceHead nodeId => StepAdvanceHead m m' nodeId
  | .abandonAdvanceHead nodeId => AbandonAdvanceHead m m' nodeId
  | .finishAdvanceHead nodeId => FinishAdvanceHead m m' nodeId
  | .initAdvanceTail nodeId => InitAdvanceTail m m' nodeId
  | .abandonAdvanceTail nodeId => AbandonAdvanceTail m m' nodeId
  | .finishAdvanceTail nodeId newTail withdrawn => FinishAdvanceTail m m' nodeId newTail withdrawn
  | .appendFlipBit nodeId deposited => AppendFlipBit m m' nodeId deposited
  | .finishAppending nodeId => FinishAppending m m' nodeId
  | .readerDoStart nodeId => ReaderDoStart m m' nodeId
  | .readerDoEnter nodeId => ReaderDoEnter m m' nodeId
  | .readerDoGuard nodeId i => ReaderDoGuard m m' nodeId i
  | .readerDoUnguard nodeId => ReaderDoUnguard m m' nodeId
  | .readerDoFinish nodeId => ReaderDoFinish m m' nodeId
  | .readerDoAbort nodeId => ReaderDoAbort m m' nodeId

def Shard.dot (x y : Shard Stored) : Option (Shard Stored) := do
  let head ← Exclusive.join x.head y.head
  let tail ← Exclusive.join x.tail y.tail
  let localTails ← x.localTails.join y.localTails
  let contents ← Exclusive.join x.contents y.contents
  let aliveBits ← x.aliveBits.join y.aliveBits
  let combinerState ← x.combinerState.join y.combinerState
  return { head, tail, localTails, contents, aliveBits, combinerState }

def dot (x y : M Stored) : M Stored :=
  x.bind fun x => y.bind fun y => x.dot y

def Shard.unit : Shard Stored := ⟨none, none, .empty, none, .empty, .empty⟩

/-- An empty buffer, with all combiners idle. -/
structure Init (s : Shard Stored) : Prop where
  head : s.head = some 0
  tail : s.tail = some 0
  localTails : s.localTails = .ofFinset (Finset.range numReplicas) fun _ => some 0
  combinerState : s.combinerState = .ofFinset (Finset.range numReplicas) fun _ => some .combinerIdle
  aliveBits : s.aliveBits = .ofFinset (Finset.range logSize) fun x =>
    some (logicalToAliveBitAliveWhen ((x : Int) - (logSize : Int)))
  contents : ∃ contents, s.contents = some contents ∧
    ∀ i : Int, (contents.lookup i).isSome ↔ -(logSize : Int) ≤ i ∧ i < 0

/-- A step of one shard in any context. -/
def Next (s s' : M Stored) (step : Step Stored) : Prop :=
  ∃ m m' rest, s = dot (some m) rest ∧ s' = dot (some m') rest ∧ NextStep m m' step

/-- What a joined shard is made of. -/
structure Joined (x y whole : Shard Stored) : Prop where
  head : Exclusive.join x.head y.head = some whole.head
  tail : Exclusive.join x.tail y.tail = some whole.tail
  localTails : x.localTails.join y.localTails = some whole.localTails
  contents : Exclusive.join x.contents y.contents = some whole.contents
  aliveBits : x.aliveBits.join y.aliveBits = some whole.aliveBits
  combinerState : x.combinerState.join y.combinerState = some whole.combinerState

theorem dot_eq_some_iff {x y whole : Shard Stored} : x.dot y = some whole ↔ Joined x y whole := by
  constructor
  · intro fits
    simp only [Shard.dot, Option.bind_eq_bind, Option.bind_eq_some_iff, Option.pure_def,
      Option.some.injEq] at fits
    obtain ⟨_, headEq, _, tailEq, _, localTailsEq, _, contentsEq, _, aliveBitsEq, _,
      combinerStateEq, rfl⟩ := fits
    exact ⟨headEq, tailEq, localTailsEq, contentsEq, aliveBitsEq, combinerStateEq⟩
  · intro joined
    simp [Shard.dot, joined.head, joined.tail, joined.localTails, joined.contents,
      joined.aliveBits, joined.combinerState]

theorem Joined.setCombiner {m p whole : Shard Stored} {nodeId : Nat}
    {state : CombinerState Stored} (joined : Joined m p whole)
    (found : m.combinerState.lookup nodeId = some state) (state' : CombinerState Stored) :
    Joined (m.setCombiner nodeId state') p (whole.setCombiner nodeId state') :=
  { joined with combinerState := FiniteMap.join_insert joined.combinerState state' found }

/-- A step of a shard is a step of the whole. -/
theorem nextStep_whole {m m' p whole : Shard Stored} {step : Step Stored}
    (joined : Joined m p whole) (next : NextStep m m' step) :
    ∃ whole', NextStep whole whole' step ∧ Joined m' p whole' := by
  have atCombiner := FiniteMap.lookup_whole_of_join joined.combinerState
  have atLocalTails := FiniteMap.lookup_whole_of_join joined.localTails
  have atAliveBits := FiniteMap.lookup_whole_of_join joined.aliveBits
  have atHead := @Exclusive.whole_of_join _ _ _ _ joined.head
  have atTail := @Exclusive.whole_of_join _ _ _ _ joined.tail
  have atContents := @Exclusive.whole_of_join _ _ _ _ joined.contents
  cases step with
  | initAdvanceHead nodeId =>
    obtain ⟨_, stored, found, rfl⟩ := next
    exact ⟨_, ⟨_, atLocalTails stored, atCombiner found, rfl⟩, joined.setCombiner found _⟩
  | stepAdvanceHead nodeId =>
    obtain ⟨_, _, _, found, below, stored, rfl⟩ := next
    exact ⟨_, ⟨_, _, _, atCombiner found, below, atLocalTails stored, rfl⟩,
      joined.setCombiner found _⟩
  | abandonAdvanceHead nodeId | finishAppending nodeId =>
    obtain ⟨_, _, found, done, rfl⟩ := next
    exact ⟨_, ⟨_, _, atCombiner found, done, rfl⟩, joined.setCombiner found _⟩
  | finishAdvanceHead nodeId =>
    obtain ⟨_, _, head, found, done, atHeadEq, rfl⟩ := next
    exact ⟨_, ⟨_, _, head, atCombiner found, done, atHead atHeadEq, rfl⟩,
      { joined.setCombiner found _ with head := Exclusive.join_replace joined.head _ atHeadEq }⟩
  | initAdvanceTail nodeId =>
    obtain ⟨_, found, headEq, rfl⟩ := next
    exact ⟨_, ⟨_, atCombiner found, atHead headEq, rfl⟩, joined.setCombiner found _⟩
  | abandonAdvanceTail nodeId =>
    obtain ⟨_, found, rfl⟩ := next
    exact ⟨_, ⟨_, atCombiner found, rfl⟩, joined.setCombiner found _⟩
  | finishAdvanceTail nodeId newTail withdrawn =>
    obtain ⟨tail, contents, _, tailEq, contentsEq, found, atLeast, atMost, free, taken, window,
      rfl⟩ := next
    exact ⟨_, ⟨tail, contents, _, atTail tailEq, atContents contentsEq,
        atCombiner found, atLeast, atMost, free, taken, window, rfl⟩,
      { joined.setCombiner found _ with
        contents := Exclusive.join_replace joined.contents _ contentsEq
        tail := Exclusive.join_replace joined.tail _ tailEq }⟩
  | appendFlipBit nodeId deposited =>
    obtain ⟨_, _, contents, _, found, below, contentsEq, absent, bitEq, notAlive, rfl⟩ := next
    exact ⟨_, ⟨_, _, contents, _, atCombiner found, below, atContents contentsEq, absent,
        atAliveBits bitEq, by rwa [EntryIsAlive, atAliveBits bitEq, ← bitEq], rfl⟩,
      { joined.setCombiner found _ with
        aliveBits := FiniteMap.join_insert joined.aliveBits _ bitEq
        contents := Exclusive.join_replace joined.contents _ contentsEq }⟩
  | readerDoStart nodeId =>
    obtain ⟨_, found, stored, rfl⟩ := next
    exact ⟨_, ⟨_, atCombiner found, atLocalTails stored, rfl⟩, joined.setCombiner found _⟩
  | readerDoEnter nodeId =>
    obtain ⟨_, _, found, tailEq, rfl⟩ := next
    exact ⟨_, ⟨_, _, atCombiner found, atTail tailEq, rfl⟩, joined.setCombiner found _⟩
  | readerDoGuard nodeId i =>
    obtain ⟨_, _, _, _, _, found, below, contentsEq, entryEq, atCur, alive, rfl⟩ := next
    exact ⟨_, ⟨_, _, _, _, _, atCombiner found, below, atContents contentsEq, entryEq, atCur,
        atAliveBits alive, rfl⟩, joined.setCombiner found _⟩
  | readerDoUnguard nodeId =>
    obtain ⟨_, _, _, _, found, rfl⟩ := next
    exact ⟨_, ⟨_, _, _, _, atCombiner found, rfl⟩, joined.setCombiner found _⟩
  | readerDoFinish nodeId =>
    obtain ⟨_, _, _, _, found, done, stored, rfl⟩ := next
    exact ⟨_, ⟨_, _, _, _, atCombiner found, done, atLocalTails stored, rfl⟩,
      { joined.setCombiner found _ with
        localTails := FiniteMap.join_insert joined.localTails _ stored }⟩
  | readerDoAbort nodeId =>
    obtain ⟨⟨start, endIdx, cur, found, below⟩ | ⟨start, found⟩, rfl⟩ := next
    · exact ⟨_, ⟨Or.inl ⟨start, endIdx, cur, atCombiner found, below⟩, rfl⟩,
        joined.setCombiner found _⟩
    · exact ⟨_, ⟨Or.inr ⟨start, atCombiner found⟩, rfl⟩, joined.setCombiner found _⟩

variable {Stored : Type} {i : Int} {localTails : FiniteMap Nat Nat} {idx : Nat}
  {state : CombinerState Stored}

theorem logSize_pos : (0 : Int) < (logSize : Int) := by decide

theorem toNat_mod_logSize (i : Int) : (logicalToPhysicalIndex i : Int) = i % (logSize : Int) :=
  Int.toNat_of_nonneg (Int.emod_nonneg i logSize_pos.ne')

theorem logicalToPhysicalIndex_lt (i : Int) : logicalToPhysicalIndex i < logSize := by
  have := Int.emod_lt_of_pos i logSize_pos
  rw [← toNat_mod_logSize] at this
  omega

theorem eq_of_logicalToPhysicalIndex_eq {j start : Int} (atLeast : start ≤ i)
    (below : i < start + (logSize : Int)) (atLeast' : start ≤ j)
    (below' : j < start + (logSize : Int))
    (same : logicalToPhysicalIndex i = logicalToPhysicalIndex j) : i = j := by
  have sameMod : i % (logSize : Int) = j % (logSize : Int) := by
    rw [← toNat_mod_logSize, ← toNat_mod_logSize, same]
  have size : (logSize : Int) = 1048576 := rfl
  rw [size] at sameMod below below'
  omega

theorem logicalToPhysicalIndex_add_logSize (i : Int) :
    logicalToPhysicalIndex (i + (logSize : Int)) = logicalToPhysicalIndex i := by
  rw [logicalToPhysicalIndex, logicalToPhysicalIndex, Int.add_emod_right]

/-- The bit of a slot changes its meaning from one lap to the next. -/
theorem logicalToAliveBitAliveWhen_add_logSize (i : Int) :
    logicalToAliveBitAliveWhen (i + (logSize : Int)) = !logicalToAliveBitAliveWhen i := by
  have lap : (i + (logSize : Int)) / (logSize : Int) = i / (logSize : Int) + 1 :=
    Int.add_ediv_of_dvd_right (dvd_refl _) |>.trans (by rw [Int.ediv_self logSize_pos.ne'])
  rw [logicalToAliveBitAliveWhen, logicalToAliveBitAliveWhen, lap]
  obtain even | odd := Int.emod_two_eq_zero_or_one (i / (logSize : Int))
  · have : (i / (logSize : Int) + 1) % 2 = 1 := by omega
    simp [even, this]
  · have : (i / (logSize : Int) + 1) % 2 = 0 := by omega
    simp [odd, this]

theorem not_entryIsAlive_add_logSize {aliveBits : FiniteMap Nat Bool}
    (alive : EntryIsAlive aliveBits i) : ¬ EntryIsAlive aliveBits (i + (logSize : Int)) := by
  rw [EntryIsAlive, logicalToPhysicalIndex_add_logSize, logicalToAliveBitAliveWhen_add_logSize,
    alive, Option.some.injEq]
  cases logicalToAliveBitAliveWhen i <;> simp

theorem minLocalTailRec_spec {minTail : Nat} (minEq : minLocalTailRec localTails idx = some minTail)
    :
    (∀ nodeId ≤ idx, ∃ localTail, localTails.lookup nodeId = some localTail ∧ minTail ≤ localTail) ∧
      ∃ nodeId ≤ idx, localTails.lookup nodeId = some minTail := by
  induction idx generalizing minTail with
  | zero =>
    refine ⟨fun nodeId atMost => ?_, 0, le_rfl, minEq⟩
    obtain rfl := Nat.le_zero.mp atMost
    exact ⟨minTail, minEq, le_rfl⟩
  | succ idx ih =>
    simp only [minLocalTailRec, Option.bind_eq_bind, Option.bind_eq_some_iff, Option.pure_def,
      Option.some.injEq] at minEq
    obtain ⟨localTail, stored, _, restEq, minEq⟩ := minEq
    obtain ⟨below, nodeId, atMost, attained⟩ := ih restEq
    refine ⟨fun other otherLe => ?_, ?_⟩
    · obtain isLast | isEarlier := Nat.le_succ_iff.mp otherLe |>.symm
      · exact ⟨localTail, isLast ▸ stored, by split at minEq <;> omega⟩
      · obtain ⟨otherTail, otherStored, _⟩ := below other isEarlier
        exact ⟨otherTail, otherStored, by split at minEq <;> omega⟩
    · split at minEq
      · exact ⟨idx + 1, le_rfl, minEq ▸ stored⟩
      · exact ⟨nodeId, by omega, minEq ▸ attained⟩

theorem exists_minLocalTailRec (present : ∀ nodeId ≤ idx, (localTails.lookup nodeId).isSome) :
    ∃ minTail, minLocalTailRec localTails idx = some minTail := by
  induction idx with
  | zero => exact Option.isSome_iff_exists.mp (present 0 le_rfl)
  | succ idx ih =>
    obtain ⟨rest, restEq⟩ := ih fun nodeId atMost => present nodeId (by omega)
    obtain ⟨localTail, stored⟩ := Option.isSome_iff_exists.mp (present (idx + 1) le_rfl)
    exact ⟨if localTail < rest then localTail else rest, by
      simp [minLocalTailRec, restEq, stored]⟩

/-- The state of the combiner of a node, whose local tail is `localTail`. -/
def CombinerInv (localTails : FiniteMap Nat Nat) (aliveBits : FiniteMap Nat Bool) (tail : Nat)
    (contents : FiniteMap Int Stored) (localTail : Nat) : CombinerState Stored → Prop
  | .combinerIdle => True
  | .combinerReading (.readerStarting start) => start = localTail
  | .combinerReading (.readerRange start endIdx cur) =>
    localTail = start ∧ start ≤ endIdx ∧ tail ≤ endIdx + logSize ∧ endIdx ≤ tail ∧
      start ≤ cur ∧ cur ≤ endIdx ∧
      ∀ i : Int, start ≤ i → i < cur → EntryIsAlive aliveBits i ∧ (contents.lookup i).isSome
  | .combinerReading (.readerGuard start endIdx cur val) =>
    localTail = start ∧ start ≤ endIdx ∧ tail ≤ endIdx + logSize ∧ endIdx ≤ tail ∧
      start ≤ cur ∧ cur < endIdx ∧
      (∀ i : Int, start ≤ i → i ≤ cur → EntryIsAlive aliveBits i ∧ (contents.lookup i).isSome) ∧
      contents.lookup cur = some val
  | .combinerAdvancingHead idx minTail =>
    idx ≤ numReplicas ∧ ∀ nodeId < idx, ∀ other, localTails.lookup nodeId = some other →
      minTail ≤ other
  | .combinerAdvancingTail observedHead =>
    ∀ nodeId other, localTails.lookup nodeId = some other → observedHead ≤ other
  | .combinerAppending curIdx endIdx =>
    localTail ≤ curIdx ∧ curIdx ≤ endIdx ∧ endIdx ≤ tail ∧ tail ≤ curIdx + logSize ∧
      ∀ i : Int, curIdx ≤ i → i < endIdx → ¬ EntryIsAlive aliveBits i

/-- A combiner appends to no entry that another combiner appends to or a reader guards. -/
def Apart : CombinerState Stored → CombinerState Stored → Prop
  | .combinerAppending curIdx endIdx, .combinerAppending curIdx' endIdx' =>
    endIdx' ≤ curIdx ∨ endIdx ≤ curIdx'
  | .combinerAppending curIdx endIdx, .combinerReading (.readerGuard _ _ cur _)
  | .combinerReading (.readerGuard _ _ cur _), .combinerAppending curIdx endIdx =>
    cur < curIdx ∨ endIdx ≤ cur
  | _, _ => True

theorem Apart.symm {state' : CombinerState Stored} (apart : Apart state state') :
    Apart state' state := by
  unfold Apart
  split
  · exact Or.symm apart
  · exact apart
  · exact apart
  · trivial

/-- A combiner that neither appends nor guards an entry. -/
def CombinerState.Inert : CombinerState Stored → Prop
  | .combinerAppending _ _ | .combinerReading (.readerGuard _ _ _ _) => False
  | _ => True

theorem CombinerState.Inert.apart (inert : state.Inert) (other : CombinerState Stored) :
    Apart state other := by
  unfold Apart
  split
  · exact inert.elim
  · exact inert.elim
  · exact inert.elim
  · trivial

/-- The tails are in order, and the bits tell which entries of the last lap are written. -/
structure ShardInv (s : Shard Stored) (head tail minTail : Nat) (contents : FiniteMap Int Stored) :
    Prop where
  head_eq : s.head = some head
  tail_eq : s.tail = some tail
  contents_eq : s.contents = some contents
  minTail_eq : minLocalTail s.localTails = some minTail
  localTails_complete : ∀ nodeId, (s.localTails.lookup nodeId).isSome ↔ nodeId < numReplicas
  aliveBits_complete : ∀ slot, (s.aliveBits.lookup slot).isSome ↔ slot < logSize
  combinerState_complete : ∀ nodeId, (s.combinerState.lookup nodeId).isSome ↔ nodeId < numReplicas
  contents_complete : ∀ i : Nat, (contents.lookup i).isSome → tail ≤ i + logSize ∧ i < tail
  head_le : head ≤ tail
  localTail_bounds : ∀ {nodeId localTail}, s.localTails.lookup nodeId = some localTail →
    head ≤ localTail ∧ localTail ≤ tail ∧ tail ≤ localTail + logSize
  apart : ∀ {nodeId nodeId' state state'}, nodeId ≠ nodeId' →
    s.combinerState.lookup nodeId = some state → s.combinerState.lookup nodeId' = some state' →
      Apart state state'
  free_not_alive : ∀ i : Int, tail ≤ i → i < minTail + (logSize : Int) →
    ¬ EntryIsAlive s.aliveBits i
  written_iff : ∀ i : Int, tail - (logSize : Int) ≤ i → i < tail →
    (EntryIsAlive s.aliveBits i ∨ i < minTail ↔ (contents.lookup i).isSome)
  future_absent : ∀ i : Int, tail ≤ i → contents.lookup i = none
  combiners : ∀ {nodeId localTail state}, s.localTails.lookup nodeId = some localTail →
    s.combinerState.lookup nodeId = some state →
      CombinerInv s.localTails s.aliveBits tail contents localTail state

def Inv (x : M Stored) : Prop :=
  x ≠ some Shard.unit →
    ∃ s head tail minTail contents, x = some s ∧ ShardInv s head tail minTail contents

end VerifiedBetrfs.CyclicBufferRw
