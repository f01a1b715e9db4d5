import Mathlib.Algebra.GroupWithZero.Nat
import Mathlib.Data.List.Induction
import VerifiedBetrfs.MapSpec

/-!
# Journal entries and ranges

There is one entry for every write.  A range is a list of blocks, made of chunks whose first bytes
say how many entries they have.
-/

namespace VerifiedBetrfs.Journal

open MapSpec (Next Variables)
open UI

/-- One write, as the journal records it. -/
inductive JournalEntry where
  | journalInsert (key : Key) (value : Value)
deriving DecidableEq

def JournalEntry.key : JournalEntry → Key
  | .journalInsert key _ => key

def JournalEntry.value : JournalEntry → Value
  | .journalInsert _ value => value

def journalEntriesForUIOp : Op → List JournalEntry
  | .putOp key value => [.journalInsert key value]
  | _ => []

/-- The entries for the operations of a path. -/
def journalEntriesForUIOps (uiops : List Op) : List JournalEntry :=
  uiops.flatMap journalEntriesForUIOp

@[simp]
theorem journalEntriesForUIOps_nil : journalEntriesForUIOps [] = [] :=
  rfl

theorem journalEntriesForUIOps_concat (uiops : List Op) (uiop : Op) :
    journalEntriesForUIOps (uiops ++ [uiop]) =
      journalEntriesForUIOps uiops ++ journalEntriesForUIOp uiop := by
  simp [journalEntriesForUIOps]

/-- What one entry does to the dictionary. -/
def apply (m : Variables) (je : JournalEntry) : Variables :=
  ⟨m.view.update je.key je.value⟩

/-- Replay the entries. -/
def applySeq (m : Variables) (jes : List JournalEntry) : Variables :=
  jes.foldl apply m

@[simp]
theorem applySeq_nil (m : Variables) : applySeq m [] = m :=
  rfl

theorem applySeq_append (m : Variables) (first second : List JournalEntry) :
    applySeq m (first ++ second) = applySeq (applySeq m first) second :=
  List.foldl_append

theorem applySeq_of_next {m m' : Variables} {uiop : Op} (next : Next m m' uiop) :
    m' = applySeq m (journalEntriesForUIOp uiop) := by
  have view := MapSpec.next_view next
  cases uiop <;> exact congrArg Variables.mk view

/-- Running the operations and replaying what the journal kept of them end in
the same dictionary. -/
theorem applySeq_of_path {m m' : Variables} {uiops : List Op}
    (path : MapSpec.machine.Path m uiops m') : m' = applySeq m (journalEntriesForUIOps uiops) := by
  induction path with
  | nil => rfl
  | snoc _ next ih =>
    rw [journalEntriesForUIOps_concat, applySeq_append, ← ih]
    exact applySeq_of_next next

/-- A key's value after a replay is the last one written to it, and the one
from before if no entry writes it. -/
theorem view_applySeq (m : Variables) (jes : List JournalEntry) (key : Key) :
    (applySeq m jes).view key =
      ((jes.reverse.find? (fun je => je.key = key)).map JournalEntry.value <|>
        m.view key) := by
  induction jes using List.reverseRecOn with
  | nil => rfl
  | append_singleton jes je ih =>
    by_cases same : je.key = key
    · simp [applySeq, apply, same]
    · have differ : key ≠ je.key := fun eq => same eq.symm
      simpa [applySeq, apply, same, IMap.update_eq_ite, differ] using ih

theorem applySeq_idempotent (m : Variables) (jes : List JournalEntry) :
    applySeq (applySeq m jes) jes = applySeq m jes := by
  have sameView : (applySeq (applySeq m jes) jes).view = (applySeq m jes).view := by
    funext key
    rw [view_applySeq (applySeq m jes), view_applySeq m]
    cases jes.reverse.find? (fun je => je.key = key) <;> rfl
  exact congrArg Variables.mk sameView

end VerifiedBetrfs.Journal

namespace VerifiedBetrfs.NativePackedInts

def unpackLittleEndianUint32 (s : List UInt8) : Nat :=
  (s.getD 0 0).toNat +
  (s.getD 1 0).toNat * 0x100 +
  (s.getD 2 0).toNat * 0x10000 +
  (s.getD 3 0).toNat * 0x1000000

def packLittleEndianUint32 (i : Nat) : List UInt8 :=
  [UInt8.ofNat i, UInt8.ofNat (i / 0x100), UInt8.ofNat (i / 0x10000), UInt8.ofNat (i / 0x1000000)]

@[simp]
theorem length_packLittleEndianUint32 (i : Nat) : (packLittleEndianUint32 i).length = 4 :=
  rfl

theorem unpackLittleEndianUint32_pack {i : Nat} (inRange : i < 0x100000000) :
    unpackLittleEndianUint32 (packLittleEndianUint32 i) = i := by
  simp only [unpackLittleEndianUint32, packLittleEndianUint32, List.getD_cons_zero,
    List.getD_cons_succ, UInt8.toNat_ofNat']
  omega

end VerifiedBetrfs.NativePackedInts

namespace VerifiedBetrfs.JournalRanges

open Journal NativePackedInts

abbrev JournalBlock := List UInt8

abbrev JournalRange := List JournalBlock

/-- The first words of a chunk. -/
structure Header where
  nentries : Nat
  nblocks : Nat

def parseHeader (s : JournalBlock) : Header :=
  ⟨unpackLittleEndianUint32 (s.take 4), unpackLittleEndianUint32 ((s.drop 4).take 4)⟩

/-- The bytes of a string from an index on, at most `1024` of them. -/
def subByteString (s : List UInt8) (idx : Nat) (len : Nat) (lenLe : len ≤ 1024) :
    ByteString 1024 :=
  ⟨(s.drop idx).take len, (List.length_take_le _ _).trans lenLe⟩

/-- The entries at the start of the bytes. -/
def parseEntries (s : List UInt8) : Nat → Nat → Option (List JournalEntry)
  | 0, _ => some []
  | len + 1, idx =>
    if idx + 4 ≤ s.length then
      let keyLen := unpackLittleEndianUint32 ((s.drop idx).take 4)
      if keyFits : idx + 4 + keyLen + 4 ≤ s.length ∧ keyLen ≤ 1024 then
        let key : Key := subByteString s (idx + 4) keyLen keyFits.2
        let valueLen := unpackLittleEndianUint32 ((s.drop (idx + 4 + keyLen)).take 4)
        if valueFits : idx + 4 + keyLen + 4 + valueLen ≤ s.length ∧ valueLen ≤ 1024 then
          let value : Value := subByteString s (idx + 4 + keyLen + 4) valueLen valueFits.2
          (parseEntries s len (idx + 4 + keyLen + 4 + valueLen)).map
            (.journalInsert key value :: ·)
        else none
      else none
    else none

def parseJournalRangeOfBytes (s : List UInt8) (len : Nat) : Option (List JournalEntry) :=
  parseEntries s len 8

/-- The entries of all chunks of a range. -/
def parseJournalRange : JournalRange → Option (List JournalEntry)
  | [] => some []
  | block :: blocks =>
    if 8 ≤ block.length then
      if fits : 1 ≤ (parseHeader block).nblocks ∧
          (parseHeader block).nblocks ≤ (block :: blocks).length then
        have : 1 ≤ (parseHeader block).nblocks := fits.1
        (parseJournalRangeOfBytes ((block :: blocks).take (parseHeader block).nblocks).flatten
            (parseHeader block).nentries).bind fun first =>
          (parseJournalRange ((block :: blocks).drop (parseHeader block).nblocks)).map
            (first ++ ·)
      else none
    else none
termination_by jr => jr.length
decreasing_by
  simp only [List.length_drop, List.length_cons]
  omega

def JournalRangeParses (jr : JournalRange) (jes : List JournalEntry) : Prop :=
  parseJournalRange jr = some jes

@[simp]
theorem parseJournalRange_nil : parseJournalRange [] = some [] := by
  rw [parseJournalRange]

theorem parseJournalRange_append {a b : JournalRange} {jes jes' : List JournalEntry}
    (parses : parseJournalRange a = some jes) (parses' : parseJournalRange b = some jes') :
    parseJournalRange (a ++ b) = some (jes ++ jes') := by
  induction a using parseJournalRange.induct generalizing jes with
  | case1 =>
    rw [parseJournalRange_nil] at parses
    cases parses
    simpa using parses'
  | case2 block blocks long fits _ ih =>
    rw [parseJournalRange, if_pos long, dif_pos fits] at parses
    obtain ⟨_, isFirst, parses⟩ := Option.bind_eq_some_iff.mp parses
    obtain ⟨_, isRest, rfl⟩ := Option.map_eq_some_iff.mp parses
    have fits' : 1 ≤ (parseHeader block).nblocks ∧
        (parseHeader block).nblocks ≤ (block :: (blocks ++ b)).length := by
      refine ⟨fits.1, fits.2.trans ?_⟩
      simp
    rw [List.cons_append, parseJournalRange, if_pos long, dif_pos fits', ← List.cons_append,
      List.take_append_of_le_length fits.2, List.drop_append_of_le_length fits.2, isFirst,
      Option.bind_some, ih isRest]
    simp
  | case3 block blocks long short =>
    rw [parseJournalRange, if_pos long, dif_neg short] at parses
    cases parses
  | case4 block blocks short =>
    rw [parseJournalRange, if_neg short] at parses
    cases parses

/-- The bytes that an entry takes. -/
def weightJournalEntry (je : JournalEntry) : Nat :=
  8 + je.key.val.length + je.value.val.length

def sumJournalEntries (jes : List JournalEntry) : Nat :=
  (jes.map weightJournalEntry).sum

/-- The size of the entries on disk, with eight bytes for the header. -/
def weightJournalEntries (jes : List JournalEntry) : Nat :=
  if jes = [] then 0 else sumJournalEntries jes + 8

theorem sumJournalEntries_append (first second : List JournalEntry) :
    sumJournalEntries (first ++ second) = sumJournalEntries first + sumJournalEntries second := by
  simp [sumJournalEntries]

theorem sumJournalEntries_cons (je : JournalEntry) (jes : List JournalEntry) :
    sumJournalEntries (je :: jes) = weightJournalEntry je + sumJournalEntries jes := by
  simp [sumJournalEntries]

@[simp]
theorem weightJournalEntries_nil : weightJournalEntries [] = 0 := by
  simp [weightJournalEntries]

theorem weightJournalEntries_of_ne_nil {jes : List JournalEntry} (nonempty : jes ≠ []) :
    weightJournalEntries jes = sumJournalEntries jes + 8 := by
  rw [weightJournalEntries, if_neg nonempty]

/-- Entries written together need one header only. -/
theorem weightJournalEntries_append_le (first second : List JournalEntry) :
    weightJournalEntries (first ++ second) ≤
      weightJournalEntries first + weightJournalEntries second := by
  by_cases firstEmpty : first = []
  · simp [firstEmpty]
  by_cases secondEmpty : second = []
  · simp [secondEmpty]
  rw [weightJournalEntries_of_ne_nil firstEmpty, weightJournalEntries_of_ne_nil secondEmpty,
    weightJournalEntries_of_ne_nil (by simp [firstEmpty]), sumJournalEntries_append]
  omega

theorem weightJournalEntries_concat (jes : List JournalEntry) (je : JournalEntry) :
    weightJournalEntries (jes ++ [je]) =
      weightJournalEntries jes + weightJournalEntry je + if jes = [] then 8 else 0 := by
  rw [weightJournalEntries_of_ne_nil (by simp), sumJournalEntries_append]
  by_cases empty : jes = []
  · simp [empty, sumJournalEntries]
  · rw [weightJournalEntries_of_ne_nil empty, if_neg empty]
    simp only [sumJournalEntries, List.map_cons, List.map_nil, List.sum_cons, List.sum_nil]
    omega

theorem length_mul_eight_le_weight (jes : List JournalEntry) :
    8 * jes.length ≤ weightJournalEntries jes := by
  have lenTimes8LeSum : 8 * jes.length ≤ sumJournalEntries jes := by
    induction jes with
    | nil => simp
    | cons je jes ih =>
      rw [sumJournalEntries_cons, List.length_cons, weightJournalEntry]
      omega
  rw [weightJournalEntries]
  split
  · next empty => simp [empty]
  · omega

end VerifiedBetrfs.JournalRanges
