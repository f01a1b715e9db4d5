import VerifiedBetrfs.JournalMarshalling

/-!
# The journalist

Entries that are not on disk yet are in a ring buffer with two adjacent windows, the frozen ones and
the later ones.
-/

namespace VerifiedBetrfs.JournalistImpl

open Journal JournalRanges AsyncDisk DiskLayout JournalBytes JournalistMarshalling

def maxPossibleEntries : Nat := 32 * 1048576

def basicMod (x len : Nat) : Nat :=
  if len ≤ x then x - len else x

/-- The blocks have their size and fit into the ring. -/
structure CorrectJournalBlockSizes (jr : JournalRange) : Prop where
  count : jr.length ≤ numJournalBlocks
  sizes : ∀ block ∈ jr, block.length = 4064

/-- The ring of entries in memory, and what is left to replay. -/
structure Journalist where
  journalEntries : List JournalEntry
  start : Nat
  len1 : Nat
  len2 : Nat
  replayJournal : List JournalEntry
  replayIdx : Nat
  journalFront : Option JournalRange
  journalBack : Option JournalRange
  writtenJournalBlocks : Nat
  frozenJournalBlocks : Nat
  inMemoryWeight : Nat

namespace Journalist

/-- The two windows lie in the ring. -/
structure WF (j : Journalist) : Prop where
  someEntry : 1 ≤ j.journalEntries.length
  entriesLe : j.journalEntries.length ≤ 2 * maxPossibleEntries
  startLt : j.start < j.journalEntries.length
  lenLe : j.len1 + j.len2 ≤ j.journalEntries.length
  replayIdxLe : j.replayIdx ≤ j.replayJournal.length
  replayLe : j.replayJournal.length ≤ maxPossibleEntries
  front : ∀ jr, j.journalFront = some jr → CorrectJournalBlockSizes jr
  back : ∀ jr, j.journalBack = some jr → CorrectJournalBlockSizes jr
  writtenLe : j.writtenJournalBlocks ≤ numJournalBlocks
  frozenLe : j.frozenJournalBlocks ≤ numJournalBlocks
  weightLe : j.inMemoryWeight ≤ numJournalBlocks * 4096

def mid (j : Journalist) : Nat :=
  basicMod (j.start + j.len1) j.journalEntries.length

def inMemoryJournalFrozen (j : Journalist) : List JournalEntry :=
  cyclicSlice j.journalEntries j.start j.len1

def inMemoryJournal (j : Journalist) : List JournalEntry :=
  cyclicSlice j.journalEntries j.mid j.len2

/-- There is room on disk for the entries, and the recorded weights are right. -/
structure Inv (j : Journalist) : Prop extends WF j where
  space : (j.writtenJournalBlocks + j.frozenJournalBlocks) * 4064 + j.inMemoryWeight ≤
    4064 * numJournalBlocks
  frozenWeight : weightJournalEntries j.inMemoryJournalFrozen ≤ j.frozenJournalBlocks * 4064
  weight : weightJournalEntries j.inMemoryJournal = j.inMemoryWeight

/-- What an unused cell of the ring buffer holds. -/
def unusedEntry : JournalEntry :=
  .journalInsert emptyKey ValueType.defaultValue

def constructor : Journalist where
  journalEntries := List.replicate 4096 unusedEntry
  start := 0
  len1 := 0
  len2 := 0
  replayJournal := []
  replayIdx := 0
  journalFront := none
  journalBack := none
  writtenJournalBlocks := 0
  frozenJournalBlocks := 0
  inMemoryWeight := 0

/-- The bytes of the frozen entries. -/
def packageFrozenJournal (j : Journalist) : Journalist × Bytes :=
  ({ j with
      start := basicMod (j.start + j.len1) j.journalEntries.length
      len1 := 0
      writtenJournalBlocks := j.writtenJournalBlocks + j.frozenJournalBlocks
      frozenJournalBlocks := 0 },
    marshallJournalEntries j.journalEntries j.start j.len1 j.frozenJournalBlocks)

/-- The number of blocks for a number of bytes. -/
def numBlocks (weight : Nat) : Nat :=
  (weight + 4064 - 1) / 4064

section

variable (j : Journalist)

/-- The bytes of the entries in memory. -/
def packageInMemoryJournal : Journalist × Bytes :=
  ({ j with
      start := 0
      len2 := 0
      inMemoryWeight := 0
      writtenJournalBlocks := j.writtenJournalBlocks + numBlocks j.inMemoryWeight },
    marshallJournalEntries j.journalEntries j.start j.len2 (numBlocks j.inMemoryWeight))

def updateWrittenJournalLen (len : Nat) : Journalist := { j with writtenJournalBlocks := len }

/-- The entries in memory join the frozen ones. -/
def freeze : Journalist :=
  { j with
    len1 := j.len1 + j.len2
    len2 := 0
    frozenJournalBlocks := j.frozenJournalBlocks + numBlocks j.inMemoryWeight
    inMemoryWeight := 0 }

/-- The weight of an entry, with that of the header if it is the first. -/
def addedWeight (je : JournalEntry) : Nat := weightJournalEntry je + if j.len2 = 0 then 8 else 0

def CanAppend (je : JournalEntry) : Prop :=
  4064 * (j.writtenJournalBlocks + j.frozenJournalBlocks) + j.inMemoryWeight + j.addedWeight je ≤
    4064 * numJournalBlocks

end

instance (j : Journalist) (je : JournalEntry) : Decidable (j.CanAppend je) :=
  inferInstanceAs (Decidable (_ ≤ _))

/-- The entries in order, in an array of twice the size, with a new one after
them. -/
def reallocJournalEntries (j : Journalist) (je : JournalEntry) (newLen : Nat) :
    List JournalEntry :=
  j.journalEntries.drop j.start ++ j.journalEntries.take j.start ++ [je] ++
    List.replicate (newLen - j.journalEntries.length - 1) unusedEntry

/-- An entry is put at the end. -/
def append (j : Journalist) (je : JournalEntry) : Journalist :=
  let full := j.journalEntries.length ≤ j.len1 + j.len2
  let idx := basicMod (j.start + j.len1 + j.len2) j.journalEntries.length
  { j with
    journalEntries :=
      if full then j.reallocJournalEntries je (j.journalEntries.length * 2)
      else j.journalEntries.set idx je
    start := if full then 0 else j.start
    inMemoryWeight := j.inMemoryWeight + j.addedWeight je
    len2 := j.len2 + 1 }

variable {j : Journalist} {je : JournalEntry} {j' : Journalist} {len : Nat} {t : Trace}

/-- Everything that is in memory, frozen or not. -/
def window (j : Journalist) : List JournalEntry :=
  cyclicSlice j.journalEntries j.start (j.len1 + j.len2)

theorem mid_eq (j : Journalist) : j.mid = Cyclic.posAdd j.journalEntries.length j.start j.len1 :=
  rfl

theorem WF.mid_lt (wf : WF j) : j.mid < j.journalEntries.length :=
  Cyclic.posAdd_lt wf.startLt (Nat.le_of_add_right_le wf.lenLe)

theorem WF.length_frozen (wf : WF j) : j.inMemoryJournalFrozen.length = j.len1 :=
  Cyclic.length_slice wf.startLt (Nat.le_of_add_right_le wf.lenLe)

theorem WF.length_inMemory (wf : WF j) : j.inMemoryJournal.length = j.len2 :=
  Cyclic.length_slice wf.mid_lt (Nat.le_of_add_left_le wf.lenLe)

theorem WF.window_eq (wf : WF j) : j.window = j.inMemoryJournalFrozen ++ j.inMemoryJournal :=
  Cyclic.slice_append wf.startLt wf.lenLe

theorem frozen_eq_nil (startLt : j.start < j.journalEntries.length) (empty : j.len1 = 0) :
    j.inMemoryJournalFrozen = [] := by
  rw [inMemoryJournalFrozen, empty]
  exact Cyclic.slice_zero startLt

theorem inMemory_eq_nil (midLt : j.mid < j.journalEntries.length) (empty : j.len2 = 0) :
    j.inMemoryJournal = [] := by
  rw [inMemoryJournal, empty]
  exact Cyclic.slice_zero midLt

theorem WF.mid_eq_start (wf : WF j) (noFrozen : j.len1 = 0) : j.mid = j.start := by
  rw [mid_eq, noFrozen, Cyclic.posAdd_zero wf.startLt]

/-- An array in which an entry has been written after the two windows has that
entry at the end of the second. -/
theorem windows_append (wf : WF j) (wf' : WF j') (sameLen1 : j'.len1 = j.len1)
    (isWindow : j'.window = j.window ++ [je]) :
    j'.inMemoryJournalFrozen = j.inMemoryJournalFrozen ∧
      j'.inMemoryJournal = j.inMemoryJournal ++ [je] := by
  rw [wf.window_eq, wf'.window_eq, List.append_assoc] at isWindow
  refine List.append_inj isWindow ?_
  rw [wf.length_frozen, wf'.length_frozen, sameLen1]

theorem length_constructor : constructor.journalEntries.length = 4096 :=
  List.length_replicate

theorem constructor_start_lt : constructor.start < constructor.journalEntries.length := by
  rw [length_constructor]
  decide

theorem constructor_windows :
    constructor.inMemoryJournalFrozen = [] ∧ constructor.inMemoryJournal = [] :=
  ⟨frozen_eq_nil constructor_start_lt rfl,
    inMemory_eq_nil (Cyclic.posAdd_lt constructor_start_lt (Nat.zero_le _)) rfl⟩

theorem constructor_inv : constructor.Inv where
  someEntry := by
    rw [length_constructor]
    decide
  entriesLe := by
    rw [length_constructor]
    decide
  startLt := constructor_start_lt
  lenLe := Nat.zero_le _
  replayIdxLe := Nat.le_refl 0
  replayLe := Nat.zero_le _
  front := nofun
  back := nofun
  writtenLe := Nat.zero_le _
  frozenLe := Nat.zero_le _
  weightLe := Nat.zero_le _
  space := Nat.zero_le _
  frozenWeight := by
    rw [constructor_windows.1, weightJournalEntries_nil]
    exact Nat.zero_le _
  weight := by
    rw [constructor_windows.2, weightJournalEntries_nil]
    rfl

theorem Inv.blocks_le (inv : Inv j) :
    j.writtenJournalBlocks + j.frozenJournalBlocks + numBlocks j.inMemoryWeight ≤
      numJournalBlocks := by
  have space := inv.space
  rw [numBlocks]
  lia

theorem weight_le_numBlocks (weight : Nat) : weight ≤ numBlocks weight * 4064 := by
  rw [numBlocks]
  lia

theorem freeze_windows (wf : WF j) :
    j.freeze.inMemoryJournalFrozen = j.inMemoryJournalFrozen ++ j.inMemoryJournal ∧
      j.freeze.inMemoryJournal = [] := by
  refine ⟨wf.window_eq, inMemory_eq_nil ?_ rfl⟩
  exact Cyclic.posAdd_lt wf.startLt wf.lenLe

theorem Inv.freeze (inv : Inv j) : j.freeze.Inv := by
  obtain ⟨isFrozen, isInMemory⟩ := freeze_windows inv.toWF
  have blocksLe := inv.blocks_le
  exact {
    inv with
    lenLe := inv.lenLe
    frozenLe := by
      simp only [Journalist.freeze]
      omega
    weightLe := Nat.zero_le _
    space := by
      simp only [Journalist.freeze]
      omega
    frozenWeight := by
      have sumLe := weightJournalEntries_append_le j.inMemoryJournalFrozen j.inMemoryJournal
      have frozenLe := inv.frozenWeight
      have weightLe := weight_le_numBlocks j.inMemoryWeight
      rw [inv.weight] at sumLe
      rw [isFrozen]
      simp only [Journalist.freeze, Nat.add_mul]
      omega
    weight := by
      rw [isInMemory, weightJournalEntries_nil]
      rfl }

theorem Inv.updateWrittenJournalLen (inv : Inv j) (smaller : len ≤ j.writtenJournalBlocks) :
    (j.updateWrittenJournalLen len).Inv :=
  { inv with
    writtenLe := smaller.trans inv.writtenLe
    space := by
      have space := inv.space
      simp only [Journalist.updateWrittenJournalLen]
      lia }

/-- The entries that a byte string decodes to. -/
def decode (bytes : Bytes) : Option (List JournalEntry) :=
  (journalRangeOfByteSeq bytes).bind parseJournalRange

theorem marshall_correct {entries : List JournalEntry} {start blocks : Nat}
    (entriesLe : entries.length ≤ 2 * maxPossibleEntries) (startLt : start < entries.length)
    (lenLe : len ≤ entries.length) (blocksLe : blocks ≤ numJournalBlocks)
    (nonempty : cyclicSlice entries start len ≠ [])
    (fits : weightJournalEntries (cyclicSlice entries start len) ≤ blocks * 4064) :
    (marshallJournalEntries entries start len blocks).length = blocks * 4096 ∧
      decode (marshallJournalEntries entries start len blocks) =
        some (cyclicSlice entries start len) := by
  rw [weightJournalEntries_of_ne_nil nonempty] at fits
  have entriesLt : entries.length < 0x100000000 := Nat.lt_of_le_of_lt entriesLe (by decide)
  have blocksLt : blocks < 0x100000000 := Nat.lt_of_le_of_lt blocksLe (by decide)
  obtain ⟨length, _, isRange, -, parses⟩ := marshallJournalEntries_parses startLt lenLe
    (by omega) (show 1 ≤ blocks by omega) blocksLt (by omega)
  refine ⟨length, ?_⟩
  rw [decode, isRange, Option.bind_some, parses]

theorem packageFrozenJournal_windows (wf : WF j) :
    j.packageFrozenJournal.1.inMemoryJournalFrozen = [] ∧
      j.packageFrozenJournal.1.inMemoryJournal = j.inMemoryJournal := by
  refine ⟨frozen_eq_nil wf.mid_lt rfl, ?_⟩
  exact congrArg (cyclicSlice j.journalEntries · j.len2) (Cyclic.posAdd_zero wf.mid_lt)

theorem Inv.packageFrozenJournal (inv : Inv j) : j.packageFrozenJournal.1.Inv := by
  obtain ⟨noFrozen, isInMemory⟩ := packageFrozenJournal_windows inv.toWF
  have space := inv.space
  have lenLe := inv.lenLe
  exact {
    inv with
    startLt := inv.mid_lt
    lenLe := by
      simp only [Journalist.packageFrozenJournal]
      omega
    writtenLe := by
      simp only [Journalist.packageFrozenJournal]
      omega
    frozenLe := Nat.zero_le _
    space := by
      simp only [Journalist.packageFrozenJournal]
      omega
    frozenWeight := by
      rw [noFrozen, weightJournalEntries_nil]
      exact Nat.zero_le _
    weight := by
      rw [isInMemory]
      exact inv.weight }

theorem Inv.packageFrozenJournal_bytes (inv : Inv j) (nonempty : j.inMemoryJournalFrozen ≠ []) :
    j.packageFrozenJournal.2.length = j.frozenJournalBlocks * 4096 ∧
      decode j.packageFrozenJournal.2 = some j.inMemoryJournalFrozen :=
  marshall_correct inv.entriesLe inv.startLt (Nat.le_of_add_right_le inv.lenLe) inv.frozenLe
    nonempty inv.frozenWeight

theorem packageInMemoryJournal_windows (wf : WF j) (noFrozen : j.len1 = 0) :
    j.packageInMemoryJournal.1.inMemoryJournalFrozen = [] ∧
      j.packageInMemoryJournal.1.inMemoryJournal = [] := by
  refine ⟨frozen_eq_nil wf.someEntry noFrozen, inMemory_eq_nil ?_ rfl⟩
  exact Cyclic.posAdd_lt wf.someEntry (Nat.le_of_add_right_le wf.lenLe)

theorem Inv.packageInMemoryJournal (inv : Inv j) (noFrozen : j.len1 = 0) :
    j.packageInMemoryJournal.1.Inv := by
  obtain ⟨isFrozen, isInMemory⟩ := packageInMemoryJournal_windows inv.toWF noFrozen
  have blocksLe := inv.blocks_le
  exact {
    inv with
    startLt := inv.someEntry
    lenLe := by
      simp only [Journalist.packageInMemoryJournal]
      omega
    writtenLe := by
      simp only [Journalist.packageInMemoryJournal]
      omega
    weightLe := Nat.zero_le _
    space := by
      simp only [Journalist.packageInMemoryJournal]
      omega
    frozenWeight := by
      rw [isFrozen, weightJournalEntries_nil]
      exact Nat.zero_le _
    weight := by
      rw [isInMemory, weightJournalEntries_nil]
      rfl }

theorem Inv.packageInMemoryJournal_bytes (inv : Inv j) (noFrozen : j.len1 = 0)
    (nonempty : j.inMemoryJournal ≠ []) :
    j.packageInMemoryJournal.2.length = numBlocks j.inMemoryWeight * 4096 ∧
      decode j.packageInMemoryJournal.2 = some j.inMemoryJournal := by
  have blocksLe := inv.blocks_le
  have isMid := inv.mid_eq_start noFrozen
  have fits := weight_le_numBlocks j.inMemoryWeight
  rw [← inv.weight] at fits
  rw [inMemoryJournal, isMid] at nonempty fits ⊢
  refine marshall_correct inv.entriesLe inv.startLt (Nat.le_of_add_left_le inv.lenLe) (by omega)
    nonempty ?_
  rw [← inv.weight, inMemoryJournal, isMid]
  exact fits

theorem append_of_room (room : j.len1 + j.len2 < j.journalEntries.length) (je : JournalEntry) :
    (j.append je).journalEntries =
        j.journalEntries.set (Cyclic.posAdd j.journalEntries.length j.start (j.len1 + j.len2)) je ∧
      (j.append je).start = j.start := by
  have isIdx : basicMod (j.start + j.len1 + j.len2) j.journalEntries.length =
      Cyclic.posAdd j.journalEntries.length j.start (j.len1 + j.len2) := by
    rw [basicMod, Cyclic.posAdd, Nat.add_assoc]
  simp only [append, if_neg (Nat.not_le.mpr room), isIdx, and_self]

theorem append_of_full (full : j.journalEntries.length ≤ j.len1 + j.len2) (je : JournalEntry) :
    (j.append je).journalEntries = j.reallocJournalEntries je (j.journalEntries.length * 2) ∧
      (j.append je).start = 0 := by
  simp only [append, if_pos full, and_self]

theorem length_realloc {newLen : Nat} (startLt : j.start < j.journalEntries.length)
    (larger : j.journalEntries.length < newLen) (je : JournalEntry) :
    (j.reallocJournalEntries je newLen).length = newLen := by
  simp only [reallocJournalEntries, List.length_append, List.length_drop, List.length_take,
    List.length_replicate, List.length_cons, List.length_nil]
  omega

/-- A full buffer holds so many entries that twice its size is still allowed. -/
theorem Inv.length_le_of_full (inv : Inv j) (full : j.journalEntries.length ≤ j.len1 + j.len2) :
    j.journalEntries.length ≤ maxPossibleEntries := by
  have frozenLe := (length_mul_eight_le_weight j.inMemoryJournalFrozen).trans inv.frozenWeight
  have inMemoryLe := length_mul_eight_le_weight j.inMemoryJournal
  have space := inv.space
  rw [inv.length_frozen] at frozenLe
  rw [inv.length_inMemory, inv.weight] at inMemoryLe
  have blocks : numJournalBlocks = 65536 := rfl
  have most : maxPossibleEntries = 33554432 := rfl
  omega

theorem Inv.append_wf (inv : Inv j) (can : j.CanAppend je) : WF (j.append je) := by
  have startLt := inv.startLt
  have lenLe := inv.lenLe
  have lens : (j.append je).len1 + (j.append je).len2 = j.len1 + j.len2 + 1 := rfl
  have weightLe : (j.append je).inMemoryWeight ≤ numJournalBlocks * 4096 := by
    rw [CanAppend] at can
    simp only [append]
    omega
  rcases Nat.lt_or_ge (j.len1 + j.len2) j.journalEntries.length with room | full
  · obtain ⟨isEntries, isStart⟩ := append_of_room room je
    have sameLength : (j.append je).journalEntries.length = j.journalEntries.length := by
      rw [isEntries, List.length_set]
    exact {
      inv with
      someEntry := by rw [sameLength]; exact inv.someEntry
      entriesLe := by rw [sameLength]; exact inv.entriesLe
      startLt := by rw [sameLength, isStart]; exact startLt
      lenLe := by rw [sameLength]; exact room
      weightLe := weightLe }
  · obtain ⟨isEntries, isStart⟩ := append_of_full full je
    have doubled : (j.append je).journalEntries.length = j.journalEntries.length * 2 := by
      rw [isEntries, length_realloc startLt (by omega) je]
    have lengthLe := inv.length_le_of_full full
    exact {
      inv with
      someEntry := by omega
      entriesLe := by omega
      startLt := by omega
      lenLe := by omega
      weightLe := weightLe }

theorem WF.append_window (wf : WF j) : (j.append je).window = j.window ++ [je] := by
  have lenLe := wf.lenLe
  have isWindow : (j.append je).window = cyclicSlice (j.append je).journalEntries
      (j.append je).start (j.len1 + j.len2 + 1) := rfl
  rw [isWindow]
  rcases Nat.lt_or_ge (j.len1 + j.len2) j.journalEntries.length with room | full
  · obtain ⟨isEntries, isStart⟩ := append_of_room room je
    have spliced := Cyclic.spliced_set (Cyclic.posAdd_lt wf.startLt lenLe) je
    rw [isEntries, isStart]
    exact spliced.slice_append wf.startLt room
  · obtain ⟨isEntries, isStart⟩ := append_of_full full je
    have isFull : j.len1 + j.len2 = j.journalEntries.length := Nat.le_antisymm lenLe full
    have startLt := wf.startLt
    have fits : 0 + (j.journalEntries.length + 1) ≤
        (j.reallocJournalEntries je (j.journalEntries.length * 2)).length := by
      rw [length_realloc startLt (by omega) je]
      omega
    rw [isEntries, isStart, window, isFull, cyclicSlice, cyclicSlice, Cyclic.slice_length startLt,
      Cyclic.slice, if_pos fits, List.drop_zero, reallocJournalEntries]
    refine List.take_left' ?_
    simp only [List.length_append, List.length_drop, List.length_take, List.length_cons,
      List.length_nil]
    omega

theorem Inv.append_windows (inv : Inv j) (can : j.CanAppend je) :
    (j.append je).inMemoryJournalFrozen = j.inMemoryJournalFrozen ∧
      (j.append je).inMemoryJournal = j.inMemoryJournal ++ [je] :=
  windows_append inv.toWF (inv.append_wf can) rfl inv.append_window

theorem Inv.append (inv : Inv j) (can : j.CanAppend je) : (j.append je).Inv := by
  obtain ⟨isFrozen, isInMemory⟩ := inv.append_windows can
  have isEmpty : j.inMemoryJournal = [] ↔ j.len2 = 0 := by
    rw [← inv.length_inMemory, List.length_eq_zero_iff]
  exact {
    inv.append_wf can with
    space := by
      rw [CanAppend] at can
      simp only [Journalist.append]
      omega
    frozenWeight := by
      rw [isFrozen]
      exact inv.frozenWeight
    weight := by
      rw [isInMemory, weightJournalEntries_concat, inv.weight]
      simp only [Journalist.append, addedWeight, isEmpty, Nat.add_assoc] }

/-- The entries that have been appended and the byte strings that have been
packaged, in order. -/
structure Trace where
  appended : List JournalEntry
  packaged : List Bytes

/-- The calls made since the journalist was made. -/
inductive Run : Journalist → Trace → Prop where
  | constructor : Run constructor ⟨[], []⟩
  | append {j : Journalist} {t : Trace} {je : JournalEntry} (run : Run j t)
      (can : j.CanAppend je) : Run (j.append je) ⟨t.appended ++ [je], t.packaged⟩
  | freeze {j : Journalist} {t : Trace} (run : Run j t) : Run j.freeze t
  | packageFrozenJournal {j : Journalist} {t : Trace} (run : Run j t)
      (nonempty : j.inMemoryJournalFrozen ≠ []) :
      Run j.packageFrozenJournal.1 ⟨t.appended, t.packaged ++ [j.packageFrozenJournal.2]⟩
  | packageInMemoryJournal {j : Journalist} {t : Trace} (run : Run j t)
      (noFrozen : j.inMemoryJournalFrozen = []) (nonempty : j.inMemoryJournal ≠ []) :
      Run j.packageInMemoryJournal.1 ⟨t.appended, t.packaged ++ [j.packageInMemoryJournal.2]⟩
  | updateWrittenJournalLen {j : Journalist} {t : Trace} {len : Nat} (run : Run j t)
      (smaller : len ≤ j.writtenJournalBlocks) : Run (j.updateWrittenJournalLen len) t

/-- What has been appended is what the packaged strings decode to, followed by
the two windows. -/
def Accounted (j : Journalist) (t : Trace) : Prop :=
  ∃ chunks : List (List JournalEntry), t.packaged.map decode = chunks.map some ∧
    t.appended = chunks.flatten ++ j.inMemoryJournalFrozen ++ j.inMemoryJournal

theorem WF.len1_eq_zero (wf : WF j) (noFrozen : j.inMemoryJournalFrozen = []) : j.len1 = 0 := by
  rw [← wf.length_frozen, noFrozen, List.length_nil]

/-- Packaging moves entries from the front of the windows to the packaged
strings. -/
theorem Accounted.package {bytes : Bytes} {jes : List JournalEntry} (accounted : Accounted j t)
    (decodes : decode bytes = some jes) (moved : j.inMemoryJournalFrozen ++ j.inMemoryJournal =
      jes ++ (j'.inMemoryJournalFrozen ++ j'.inMemoryJournal)) :
    Accounted j' ⟨t.appended, t.packaged ++ [bytes]⟩ := by
  obtain ⟨chunks, isPackaged, isAppended⟩ := accounted
  refine ⟨chunks ++ [jes], ?_, ?_⟩
  · simp [isPackaged, decodes]
  · simp only [isAppended, List.append_assoc, moved, List.flatten_append, List.flatten_cons,
      List.flatten_nil, List.nil_append]

theorem Run.accounted (run : Run j t) : j.Inv ∧ Accounted j t := by
  induction run with
  | constructor =>
    refine ⟨constructor_inv, [], rfl, ?_⟩
    rw [constructor_windows.1, constructor_windows.2]
    rfl
  | append run can ih =>
    obtain ⟨inv, chunks, isPackaged, isAppended⟩ := ih
    obtain ⟨isFrozen, isInMemory⟩ := inv.append_windows can
    refine ⟨inv.append can, chunks, isPackaged, ?_⟩
    rw [isFrozen, isInMemory, isAppended, List.append_assoc]
  | freeze run ih =>
    obtain ⟨inv, chunks, isPackaged, isAppended⟩ := ih
    obtain ⟨isFrozen, isInMemory⟩ := freeze_windows inv.toWF
    refine ⟨inv.freeze, chunks, isPackaged, ?_⟩
    rw [isFrozen, isInMemory, isAppended, List.append_nil, List.append_assoc]
  | packageFrozenJournal run nonempty ih =>
    obtain ⟨inv, accounted⟩ := ih
    obtain ⟨isFrozen, isInMemory⟩ := packageFrozenJournal_windows inv.toWF
    refine ⟨inv.packageFrozenJournal,
      accounted.package (inv.packageFrozenJournal_bytes nonempty).2 ?_⟩
    rw [isFrozen, isInMemory, List.nil_append]
  | packageInMemoryJournal run noFrozen nonempty ih =>
    obtain ⟨inv, accounted⟩ := ih
    have noLen1 := inv.len1_eq_zero noFrozen
    obtain ⟨isFrozen, isInMemory⟩ := packageInMemoryJournal_windows inv.toWF noLen1
    refine ⟨inv.packageInMemoryJournal noLen1,
      accounted.package (inv.packageInMemoryJournal_bytes noLen1 nonempty).2 ?_⟩
    rw [isFrozen, isInMemory, noFrozen, List.nil_append, List.append_nil, List.append_nil]
  | updateWrittenJournalLen run smaller ih =>
    obtain ⟨inv, accounted⟩ := ih
    exact ⟨inv.updateWrittenJournalLen smaller, accounted⟩

/-- After any run the frozen entries and then the others are the appended entries that have not been
packaged, in order; the packaged strings decode to the entries before them; and there is room in the
journal for what is in memory.  Each call that packages takes the entries that its bytes decode to,
in as many blocks as it accounts for. -/
theorem journalist_fifo {t : Trace} (run : Run j t) :
    j.Inv ∧ Accounted j t ∧
    (j.writtenJournalBlocks + j.frozenJournalBlocks +
        numBlocks (weightJournalEntries j.inMemoryJournal) ≤ numJournalBlocks ∧
      weightJournalEntries j.inMemoryJournalFrozen ≤ j.frozenJournalBlocks * 4064) ∧
    (j.inMemoryJournalFrozen ≠ [] →
      decode j.packageFrozenJournal.2 = some j.inMemoryJournalFrozen ∧
      j.packageFrozenJournal.1.inMemoryJournalFrozen = [] ∧
      j.packageFrozenJournal.1.inMemoryJournal = j.inMemoryJournal ∧
      j.packageFrozenJournal.2.length + j.writtenJournalBlocks * 4096 =
        j.packageFrozenJournal.1.writtenJournalBlocks * 4096) ∧
    (j.inMemoryJournalFrozen = [] → j.inMemoryJournal ≠ [] →
      decode j.packageInMemoryJournal.2 = some j.inMemoryJournal ∧
      j.packageInMemoryJournal.1.inMemoryJournalFrozen = [] ∧
      j.packageInMemoryJournal.1.inMemoryJournal = [] ∧
      j.packageInMemoryJournal.2.length + j.writtenJournalBlocks * 4096 =
        j.packageInMemoryJournal.1.writtenJournalBlocks * 4096) := by
  obtain ⟨inv, accounted⟩ := run.accounted
  refine ⟨inv, accounted, ⟨?_, inv.frozenWeight⟩, fun nonempty => ?_, fun noFrozen nonempty => ?_⟩
  · rw [inv.weight]
    exact inv.blocks_le
  · obtain ⟨isFrozen, isInMemory⟩ := packageFrozenJournal_windows inv.toWF
    obtain ⟨length, decodes⟩ := inv.packageFrozenJournal_bytes nonempty
    refine ⟨decodes, isFrozen, isInMemory, ?_⟩
    rw [length, Nat.add_comm, ← Nat.add_mul]
    rfl
  · have noLen1 := inv.len1_eq_zero noFrozen
    obtain ⟨isFrozen, isInMemory⟩ := packageInMemoryJournal_windows inv.toWF noLen1
    obtain ⟨length, decodes⟩ := inv.packageInMemoryJournal_bytes noLen1 nonempty
    refine ⟨decodes, isFrozen, isInMemory, ?_⟩
    rw [length, Nat.add_comm, ← Nat.add_mul]
    rfl

def byteEntry (byte : UInt8) : JournalEntry :=
  .journalInsert (byteString byte) ValueType.defaultValue

/-- The journalist with two entries that were appended before a freeze and one after it. -/
def threeEntries : Journalist :=
  ((constructor.append (byteEntry 1)).append (byteEntry 2)).freeze.append (byteEntry 3)

theorem run_threeEntries :
    Run threeEntries ⟨[byteEntry 1, byteEntry 2, byteEntry 3], []⟩ ∧
      threeEntries.inMemoryJournalFrozen = [byteEntry 1, byteEntry 2] ∧
      threeEntries.inMemoryJournal = [byteEntry 3] := by
  have can₁ : constructor.CanAppend (byteEntry 1) := by decide
  have run₁ := Run.constructor.append can₁
  have can₂ : (constructor.append (byteEntry 1)).CanAppend (byteEntry 2) := by decide
  have run₂ := run₁.append can₂
  have can₃ : ((constructor.append (byteEntry 1)).append (byteEntry 2)).freeze.CanAppend
      (byteEntry 3) := by decide
  obtain ⟨isFrozen₁, isInMemory₁⟩ := constructor_inv.append_windows can₁
  obtain ⟨isFrozen₂, isInMemory₂⟩ := run₁.accounted.1.append_windows can₂
  obtain ⟨isFrozen, isInMemory⟩ := freeze_windows run₂.accounted.1.toWF
  obtain ⟨isFrozen₃, isInMemory₃⟩ := run₂.freeze.accounted.1.append_windows can₃
  refine ⟨run₂.freeze.append can₃, ?_, ?_⟩
  · rw [threeEntries, isFrozen₃, isFrozen, isFrozen₂, isInMemory₂, isFrozen₁, isInMemory₁,
      constructor_windows.1, constructor_windows.2]
    rfl
  · rw [threeEntries, isInMemory₃, isInMemory]
    rfl

/-- The frozen entries are packaged first, then the one behind them. -/
theorem journalist_fifo_threeEntries :
    decode threeEntries.packageFrozenJournal.2 = some [byteEntry 1, byteEntry 2] ∧
      Run threeEntries.packageFrozenJournal.1 ⟨[byteEntry 1, byteEntry 2, byteEntry 3],
        [threeEntries.packageFrozenJournal.2]⟩ ∧
      decode threeEntries.packageFrozenJournal.1.packageInMemoryJournal.2 =
        some [byteEntry 3] := by
  obtain ⟨run, isFrozen, isInMemory⟩ := run_threeEntries
  obtain ⟨-, -, -, package, -⟩ := journalist_fifo run
  have nonempty : threeEntries.inMemoryJournalFrozen ≠ [] := by
    rw [isFrozen]
    exact List.cons_ne_nil _ _
  obtain ⟨decodes, noFrozen, isRest, -⟩ := package nonempty
  have run' := run.packageFrozenJournal nonempty
  obtain ⟨-, -, -, -, packageRest⟩ := journalist_fifo run'
  rw [isInMemory] at isRest
  have decodesRest := (packageRest noFrozen (by rw [isRest]; exact List.cons_ne_nil _ _)).1
  exact ⟨isFrozen ▸ decodes, run', isRest ▸ decodesRest⟩

end Journalist

end VerifiedBetrfs.JournalistImpl
