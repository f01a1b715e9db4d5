import VerifiedBetrfs.CyclicBuffer
import VerifiedBetrfs.DiskLayout
import VerifiedBetrfs.Journal

/-!
# Intervals of the journal on disk

The journal area of the disk is a ring of blocks.
-/

namespace VerifiedBetrfs

namespace DiskLayout

def journalPosAdd (start span : Nat) : Nat := Cyclic.posAdd numJournalBlocks start span

theorem journalPosAdd_lt {start span : Nat} (startLt : start < numJournalBlocks)
    (spanLe : span ≤ numJournalBlocks) : journalPosAdd start span < numJournalBlocks :=
  Cyclic.posAdd_lt startLt spanLe

end DiskLayout

namespace JournalIntervals

open Cyclic (Contains contains_iff_exists slice)
open DiskLayout JournalRanges Journal

/-- Consecutive blocks of the ring. -/
structure JournalInterval where
  start : Nat
  len : Nat
deriving DecidableEq

def ValidJournalInterval (indices : JournalInterval) : Prop :=
  indices.start < numJournalBlocks ∧ indices.len ≤ numJournalBlocks

instance (indices : JournalInterval) : Decidable (ValidJournalInterval indices) :=
  inferInstanceAs (Decidable (_ ∧ _))

/-- An interval that does not wrap around. -/
def ContiguousJournalInterval (indices : JournalInterval) : Prop :=
  ValidJournalInterval indices ∧ indices.start + indices.len ≤ numJournalBlocks

def ValidJournal (journal : List (Option JournalBlock)) : Prop :=
  journal.length = numJournalBlocks

instance (journal : List (Option JournalBlock)) : Decidable (ValidJournal journal) :=
  inferInstanceAs (Decidable (_ = _))

/-- Block `i` of the journal after the entries are written at the interval. -/
def cyclicSpliceValue (journal : List (Option JournalBlock)) (indices : JournalInterval)
    (newEntries : JournalRange) (i : Nat) : Option (Option JournalBlock) :=
  if indices.start ≤ i ∧ i < indices.start + indices.len then
    (newEntries.map some)[i - indices.start]?
  else if indices.start ≤ i + numJournalBlocks ∧
      i + numJournalBlocks < indices.start + indices.len then
    (newEntries.map some)[i + numJournalBlocks - indices.start]?
  else
    journal[i]?

/-- The blocks of an interval are replaced and the others stay. -/
structure JournalUpdate (journal journal' : List (Option JournalBlock))
    (indices : JournalInterval) (newEntries : JournalRange) : Prop where
  valid : ValidJournal journal
  valid' : ValidJournal journal'
  validInterval : ValidJournalInterval indices
  length : indices.len = newEntries.length
  spliced : ∀ i < journal.length,
    journal'[i]? = cyclicSpliceValue journal indices newEntries i

def InCyclicRange (i : Nat) (indices : JournalInterval) : Prop :=
  Contains numJournalBlocks indices.start indices.len i

/-- The part of a range before it wraps around. -/
def journalFrontInterval (start len : Nat) : Option JournalInterval :=
  if len = 0 then none
  else some ⟨start, if len ≤ numJournalBlocks - start then len else numJournalBlocks - start⟩

/-- The part of a range after it has wrapped around. -/
def journalBackInterval (start len : Nat) : Option JournalInterval :=
  if len = 0 then none
  else if len ≤ numJournalBlocks - start then none
  else some ⟨0, len - (numJournalBlocks - start)⟩

/-- The blocks of one interval are among those of another. -/
def Subinterval (a b : JournalInterval) : Prop :=
  (b.start ≤ a.start ∧ a.start + a.len ≤ b.start + b.len) ∨
  (b.start ≤ a.start + numJournalBlocks ∧
    a.start + numJournalBlocks + a.len ≤ b.start + b.len)

/-- Two intervals that do not wrap have a block in common, or one is empty and inside the other. -/
def journalIntervalOverlap (a b : JournalInterval) : Prop :=
  b.start < a.start + a.len ∧ a.start < b.start + b.len

section Adjacent

variable {a b : JournalInterval} {start len span n : Nat}

theorem Subinterval.mono {m : Nat} (sub : Subinterval a ⟨start, n⟩) (le : n ≤ m) :
    Subinterval a ⟨start, m⟩ := by
  simp only [Subinterval] at sub ⊢
  omega

section

variable (startLt : start < numJournalBlocks)

include startLt

/-- Blocks that come after an interval are in every longer range that goes on
beyond an earlier end. -/
theorem Subinterval.of_later (lenLe : len ≤ span) (spanLe : span + n ≤ numJournalBlocks)
    (sub : Subinterval a ⟨journalPosAdd start span, n⟩) :
    Subinterval a ⟨journalPosAdd start len, span + n - len⟩ := by
  simp only [Subinterval, journalPosAdd, Cyclic.posAdd] at sub ⊢
  split at sub <;> split <;> omega

/-- Requests in one range and requests in the range after it do not overlap. -/
theorem not_overlap_of_subinterval (lenLe : len ≤ span) (spanLe : span + n ≤ numJournalBlocks)
    (sub : Subinterval a ⟨journalPosAdd start len, span - len⟩)
    (sub' : Subinterval b ⟨journalPosAdd start span, n⟩) : ¬ journalIntervalOverlap a b := by
  rintro ⟨_, _⟩
  simp only [Subinterval, journalPosAdd, Cyclic.posAdd] at sub sub'
  split at sub <;> split at sub' <;> omega

theorem Subinterval.not_inCyclicRange {i : Nat} (lenLe : len ≤ span)
    (spanLe : span ≤ numJournalBlocks) (sub : Subinterval a ⟨journalPosAdd start len, span - len⟩)
    (inside : InCyclicRange i a) : ¬ InCyclicRange i ⟨start, len⟩ := by
  simp only [Subinterval, journalPosAdd, Cyclic.posAdd] at sub
  simp only [InCyclicRange, Contains] at inside ⊢
  split at sub <;> omega

end

end Adjacent

/-- All the blocks, if none of them is missing. -/
def concatFold : List (Option JournalBlock) → Option JournalRange
  | [] => some []
  | none :: _ => none
  | some block :: rest => (concatFold rest).map (block :: ·)

theorem concatFold_eq_some {s : List (Option JournalBlock)} {jr : JournalRange} :
    concatFold s = some jr ↔ s = jr.map some := by
  induction s generalizing jr with
  | nil => cases jr <;> simp [concatFold]
  | cons block rest ih =>
    cases block with
    | none => cases jr <;> simp [concatFold]
    | some block => cases jr <;> simp [concatFold, ih, and_comm]

section

variable (journal : List (Option JournalBlock)) (interval : JournalInterval)

/-- The blocks of an interval; `none` where the precondition of the source fails. -/
def diskJournalRange : Option JournalRange :=
  if ValidJournalInterval interval ∧ ValidJournal journal then
    concatFold (slice journal interval.start interval.len)
  else none

/-- The entries in an interval, if its blocks are there and parse. -/
def diskJournal : Option (List JournalEntry) :=
  (diskJournalRange journal interval).bind parseJournalRange

end

section Journals

variable {journal journal' : List (Option JournalBlock)} {interval : JournalInterval}

theorem diskJournalRange_eq_some {jr : JournalRange} :
    diskJournalRange journal interval = some jr ↔
      ValidJournalInterval interval ∧ ValidJournal journal ∧
        slice journal interval.start interval.len = jr.map some := by
  rw [diskJournalRange]
  split
  · next valid => rw [concatFold_eq_some, ← and_assoc, and_iff_right valid]
  · next invalid =>
      constructor
      · intro isSome
        cases isSome
      · rintro ⟨validInterval, valid, _⟩
        exact absurd ⟨validInterval, valid⟩ invalid

theorem diskJournal_eq_some {jes : List JournalEntry} :
    diskJournal journal interval = some jes ↔
      ∃ jr, diskJournalRange journal interval = some jr ∧ parseJournalRange jr = some jes :=
  Option.bind_eq_some_iff

theorem diskJournal_empty {start : Nat} (valid : ValidJournal journal)
    (startLt : start < numJournalBlocks) : diskJournal journal ⟨start, 0⟩ = some [] := by
  refine diskJournal_eq_some.mpr ⟨[], ?_, parseJournalRange_nil⟩
  refine diskJournalRange_eq_some.mpr ⟨⟨startLt, Nat.zero_le _⟩, valid, ?_⟩
  exact Cyclic.slice_zero (by rw [valid]; exact startLt)

section

variable (validInterval : ValidJournalInterval interval) (valid : ValidJournal journal)
  (length : journal'.length = journal.length)
  (same : ∀ i < numJournalBlocks, InCyclicRange i interval → journal'[i]? = journal[i]?)

include validInterval valid length same

theorem diskJournalRange_congr :
    diskJournalRange journal' interval = diskJournalRange journal interval := by
  have startLt : interval.start < journal.length := by rw [valid]; exact validInterval.1
  have lenLe : interval.len ≤ journal.length := by rw [valid]; exact validInterval.2
  have sameSlice : slice journal' interval.start interval.len =
      slice journal interval.start interval.len := by
    refine Cyclic.slice_congr startLt lenLe length fun i iLt => ?_
    have cellLt := Cyclic.posAdd_lt startLt (by omega : i ≤ journal.length)
    rw [valid] at cellLt startLt ⊢
    exact same _ cellLt ((contains_iff_exists startLt cellLt).mpr ⟨i, iLt, rfl⟩)
  rw [diskJournalRange, diskJournalRange, if_pos ⟨validInterval, length.trans valid⟩,
    if_pos ⟨validInterval, valid⟩, sameSlice]

theorem diskJournal_congr : diskJournal journal' interval = diskJournal journal interval := by
  rw [diskJournal, diskJournalRange_congr validInterval valid length same, diskJournal]

end

theorem diskJournalRange_append {start front back : Nat} {jr jr' : JournalRange}
    (lenLe : front + back ≤ numJournalBlocks)
    (isFront : diskJournalRange journal ⟨start, front⟩ = some jr)
    (isBack : diskJournalRange journal ⟨journalPosAdd start front, back⟩ = some jr') :
    diskJournalRange journal ⟨start, front + back⟩ = some (jr ++ jr') := by
  obtain ⟨⟨startLt, _⟩, valid, frontSlice⟩ := diskJournalRange_eq_some.mp isFront
  obtain ⟨_, _, backSlice⟩ := diskJournalRange_eq_some.mp isBack
  refine diskJournalRange_eq_some.mpr ⟨⟨startLt, lenLe⟩, valid, ?_⟩
  simp only [journalPosAdd] at startLt lenLe frontSlice backSlice ⊢
  rw [← valid] at startLt lenLe backSlice
  rw [Cyclic.slice_append startLt lenLe, frontSlice, backSlice, List.map_append]

end Journals

section Updates

variable {journal journal' : List (Option JournalBlock)} {interval : JournalInterval}
  {newEntries : JournalRange}

section

variable (update : JournalUpdate journal journal' interval newEntries)

include update

theorem JournalUpdate.toSpliced :
    Cyclic.Spliced journal journal' interval.start (newEntries.map some) := by
  obtain ⟨valid, valid', ⟨_, _⟩, length, spliced⟩ := update
  rw [ValidJournal] at valid valid'
  refine ⟨by rw [valid, valid'], fun i iLt => ?_, fun i iLt outside => ?_⟩
  · rw [List.length_map, ← length] at iLt
    have cellLt : Cyclic.posAdd journal.length interval.start i < journal.length := by
      refine Cyclic.posAdd_lt ?_ ?_ <;> omega
    rw [spliced _ cellLt, cyclicSpliceValue, Cyclic.posAdd, valid]
    split
    · rw [if_neg (by omega), if_pos (by omega)]
      congr 1
      omega
    · rw [if_pos (by omega)]
      congr 1
      omega
  · rw [spliced i iLt, cyclicSpliceValue]
    rw [Contains, valid, List.length_map, ← length] at outside
    rw [if_neg (by tauto), if_neg (by tauto)]

theorem JournalUpdate.diskJournal_append {start len : Nat} {jes jes' : List JournalEntry}
    (follows : interval.start = journalPosAdd start len)
    (lenLe : len + newEntries.length ≤ numJournalBlocks)
    (isJournal : diskJournal journal ⟨start, len⟩ = some jes)
    (parses : parseJournalRange newEntries = some jes') :
    diskJournal journal' ⟨start, len + newEntries.length⟩ = some (jes ++ jes') := by
  obtain ⟨jr, isRange, parsesRange⟩ := diskJournal_eq_some.mp isJournal
  obtain ⟨⟨startLt, _⟩, valid, isSlice⟩ := diskJournalRange_eq_some.mp isRange
  have spliced := update.toSpliced
  simp only [journalPosAdd] at startLt follows isSlice
  refine diskJournal_eq_some.mpr ⟨jr ++ newEntries, ?_, parseJournalRange_append parsesRange parses⟩
  refine diskJournalRange_eq_some.mpr ⟨⟨startLt, lenLe⟩, update.valid', ?_⟩
  rw [follows, ← valid] at spliced
  rw [← valid] at startLt lenLe
  have appended := spliced.slice_append startLt (by rw [List.length_map]; exact lenLe)
  rw [List.length_map] at appended
  rw [appended, isSlice, List.map_append]

/-- Blocks written after an interval leave the journal of the interval alone. -/
theorem JournalUpdate.diskJournal_kept {start len span : Nat}
    (follows : interval.start = journalPosAdd start span) (startLt : start < numJournalBlocks)
    (lenLe : len ≤ span) (spanLe : span + newEntries.length ≤ numJournalBlocks) :
    diskJournal journal' ⟨start, len⟩ = diskJournal journal ⟨start, len⟩ := by
  have length : journal'.length = journal.length := update.toSpliced.length
  refine diskJournal_congr ⟨startLt, by simp only; omega⟩ update.valid length
    fun i iLt inside => ?_
  refine update.toSpliced.kept i (by rw [update.valid]; exact iLt) fun written => ?_
  simp only [InCyclicRange] at inside
  rw [update.valid, follows, journalPosAdd, List.length_map] at written
  obtain ⟨_, _, rfl⟩ := (contains_iff_exists startLt iLt).mp inside
  have endLt := Cyclic.posAdd_lt startLt (by omega : span ≤ numJournalBlocks)
  obtain ⟨_, _, same⟩ := (contains_iff_exists endLt iLt).mp written
  rw [Cyclic.posAdd_posAdd startLt (by omega)] at same
  have := Cyclic.posAdd_inj (by omega) (by omega) same
  omega

end

end Updates

end JournalIntervals

end VerifiedBetrfs
