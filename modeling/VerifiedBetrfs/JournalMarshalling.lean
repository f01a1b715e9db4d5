import VerifiedBetrfs.AsyncDisk
import VerifiedBetrfs.CyclicBuffer
import VerifiedBetrfs.DiskLayout
import VerifiedBetrfs.Journal

/-!
# The bytes of a journal range

A block is a checksum and a payload, and a field may straddle a boundary.  What the writer does is a
splice of the joined payloads.
-/

namespace VerifiedBetrfs

namespace JournalBytes

open JournalRanges AsyncDisk

def journalBlockOfByteSeq (s : Bytes) : Option JournalBlock :=
  if s.length = 4096 ∧ ChecksumChecksOut s then some (s.drop 32) else none

def journalRangeOfByteSeq (s : Bytes) : Option JournalRange :=
  if s = [] then some []
  else if 4096 ≤ s.length then
    (journalBlockOfByteSeq (s.take 4096)).bind fun block =>
      (journalRangeOfByteSeq (s.drop 4096)).map (block :: ·)
  else none
termination_by s.length
decreasing_by
  simp only [List.length_drop]
  omega

end JournalBytes

namespace JournalistMarshalling

open Journal JournalRanges AsyncDisk NativePackedInts Splicing DiskLayout JournalBytes

def cyclicSlice {T : Type} (t : List T) (start l : Nat) : List T :=
  Cyclic.slice t start l

/-- The joined payloads of the blocks. -/
def withoutChecksums (buf : Bytes) : Nat → Bytes
  | 0 => []
  | numBlocks + 1 => (buf.take 4096).drop 32 ++ withoutChecksums (buf.drop 4096) numBlocks

/-- Bytes are written at a position of the payloads, in two blocks if they do
not fit into one. -/
def writeOnto (buf : Bytes) (start : Nat) (bytes : Bytes) : Bytes :=
  if 0 < bytes.length then
    let block := start / 4064
    let idx := start % 4064
    if idx + bytes.length ≤ 4064 then
      splice buf (block * 4096 + 32 + idx) bytes
    else
      let buf1 := splice buf (block * 4096 + 32 + idx) (bytes.take (4064 - idx))
      splice buf1 ((block + 1) * 4096 + 32) (bytes.drop (4064 - idx))
  else buf

def writeIntOnto (buf : Bytes) (idx val : Nat) : Bytes :=
  writeOnto buf idx (packLittleEndianUint32 val)

def writeHeader (buf : Bytes) (numBlocks len : Nat) : Bytes :=
  writeIntOnto (writeIntOnto buf 0 len) 4 numBlocks

def writeJournalEntry (buf : Bytes) (idx : Nat) (je : JournalEntry) : Bytes :=
  let buf0 := writeIntOnto buf idx je.key.val.length
  let idx1 := idx + 4
  let buf1 := writeOnto buf0 idx1 je.key.val
  let idx2 := idx1 + je.key.val.length
  let buf2 := writeIntOnto buf1 idx2 je.value.val.length
  let idx3 := idx2 + 4
  writeOnto buf2 idx3 je.value.val

def writeJournalEntries (buf : Bytes) (idx : Nat) (entries : List JournalEntry) (start : Nat) :
    Nat → Bytes
  | 0 => buf
  | len + 1 =>
    match entries[start]? with
    | none => buf
    | some je =>
      writeJournalEntries (writeJournalEntry buf idx je)
        (idx + 4 + je.key.val.length + 4 + je.value.val.length) entries
        (if start + 1 = entries.length then 0 else start + 1) len

/-- Fill in the checksums of the blocks from `i` on, `count` of them. -/
def fillInChecksums (buf : Bytes) (i : Nat) : Nat → Bytes
  | 0 => buf
  | count + 1 =>
    let payload := (buf.drop (4096 * i + 32)).take 4064
    fillInChecksums (splice buf (4096 * i) (CRC32C.crc32CPadded payload)) (i + 1) count

/-- The bytes of some entries, with the checksums of their blocks. -/
def marshallJournalEntries (entries : List JournalEntry) (start len numBlocks : Nat) : Bytes :=
  let buf := List.replicate (numBlocks * 4096) 0
  let buf1 := writeHeader buf numBlocks len
  let buf2 := writeJournalEntries buf1 8 entries start len
  fillInChecksums buf2 0 numBlocks

variable {numBlocks : Nat} {buf : Bytes} {i idx : Nat} {s rest : Bytes} {jes : List JournalEntry}

theorem length_withoutChecksums (length : buf.length = 4096 * numBlocks) :
    (withoutChecksums buf numBlocks).length = 4064 * numBlocks := by
  induction numBlocks generalizing buf with
  | zero => rw [withoutChecksums, List.length_nil, Nat.mul_zero]
  | succ numBlocks ih =>
    rw [withoutChecksums, List.length_append, ih (by rw [List.length_drop]; omega),
      List.length_drop, List.length_take]
    omega

theorem getElem?_withoutChecksums {numBlocks : Nat} (length : buf.length = 4096 * numBlocks)
    (iLt : i < 4064 * numBlocks) :
    (withoutChecksums buf numBlocks)[i]? = buf[i / 4064 * 4096 + 32 + i % 4064]? := by
  induction numBlocks generalizing buf i with
  | zero => omega
  | succ numBlocks ih =>
    have blockLength : ((buf.take 4096).drop 32).length = 4064 := by
      rw [List.length_drop, List.length_take]
      omega
    rw [withoutChecksums]
    rcases Nat.lt_or_ge i 4064 with inFirst | beyond
    · have position : i / 4064 * 4096 + 32 + i % 4064 = 32 + i := by omega
      rw [List.getElem?_append_left (by omega), List.getElem?_drop,
        List.getElem?_take_of_lt (by omega), position]
    · have position : i / 4064 * 4096 + 32 + i % 4064 =
          4096 + ((i - 4064) / 4064 * 4096 + 32 + (i - 4064) % 4064) := by omega
      rw [List.getElem?_append_right (by omega), blockLength,
        ih (by rw [List.length_drop]; omega) (by omega), List.getElem?_drop, position]

section Writing

variable {buf bytes : Bytes} {numBlocks start : Nat}

theorem withoutChecksums_splice {block idx : Nat} (length : buf.length = 4096 * numBlocks)
    (inBlock : idx + bytes.length ≤ 4064) (blockLt : block < numBlocks) :
    withoutChecksums (splice buf (block * 4096 + 32 + idx) bytes) numBlocks =
      splice (withoutChecksums buf numBlocks) (block * 4064 + idx) bytes := by
  have payloadLength := length_withoutChecksums length
  have payloadFits : block * 4064 + idx + bytes.length ≤
      (withoutChecksums buf numBlocks).length := by lia
  have bufFits : block * 4096 + 32 + idx + bytes.length ≤ buf.length := by lia
  have length' := (length_splice bufFits).trans length
  apply List.ext_getElem?
  intro i
  rw [getElem?_splice payloadFits]
  rcases Nat.lt_or_ge i (4064 * numBlocks) with iLt | beyond
  · rw [getElem?_withoutChecksums length' iLt, getElem?_withoutChecksums length iLt,
      getElem?_splice bufFits]
    by_cases inside : block * 4064 + idx ≤ i ∧ i < block * 4064 + idx + bytes.length
    · have position : i / 4064 * 4096 + 32 + i % 4064 - (block * 4096 + 32 + idx) =
          i - (block * 4064 + idx) := by lia
      rw [if_pos inside, if_pos (by lia), position]
    · rw [if_neg inside, if_neg (by lia)]
  · rw [if_neg (by lia), List.getElem?_eq_none ((length_withoutChecksums length').trans_le beyond),
      List.getElem?_eq_none (payloadLength.trans_le beyond)]

/-- The buffer `buf'` is `buf` but for `bytes` written at the position `start` of the payloads. -/
structure Wrote (numBlocks : Nat) (buf buf' : Bytes) (start : Nat) (bytes : Bytes) : Prop where
  length : buf.length = 4096 * numBlocks
  length' : buf'.length = 4096 * numBlocks
  fits : start + bytes.length ≤ 4064 * numBlocks
  payload : withoutChecksums buf' numBlocks = splice (withoutChecksums buf numBlocks) start bytes

theorem Wrote.nil (length : buf.length = 4096 * numBlocks) (fits : start ≤ 4064 * numBlocks) :
    Wrote numBlocks buf buf start [] :=
  ⟨length, length, fits, splice_nil.symm⟩

theorem Wrote.append {buf' buf'' next : Bytes} {start' : Nat}
    (first : Wrote numBlocks buf buf' start bytes)
    (second : Wrote numBlocks buf' buf'' start' next) (isNext : start' = start + bytes.length) :
    Wrote numBlocks buf buf'' start (bytes ++ next) where
  length := first.length
  length' := second.length'
  fits := by
    rw [List.length_append, ← Nat.add_assoc, ← isNext]
    exact second.fits
  payload := by
    rw [second.payload, first.payload, isNext, splice_append]
    rw [length_withoutChecksums first.length, ← isNext]
    exact second.fits

/-- A write is a splice of the payloads, whether or not it straddles a block
boundary. -/
theorem wrote_writeOnto (length : buf.length = 4096 * numBlocks) (short : bytes.length ≤ 4064)
    (fits : start + bytes.length ≤ 4064 * numBlocks) :
    Wrote numBlocks buf (writeOnto buf start bytes) start bytes := by
  by_cases empty : bytes = []
  · subst empty
    exact Wrote.nil length fits
  have nonempty := List.length_pos_iff.mpr empty
  have startEq : start / 4064 * 4064 + start % 4064 = start := Nat.div_add_mod' start 4064
  rcases Nat.lt_or_ge 4064 (start % 4064 + bytes.length) with straddles | inBlock
  · have nonempty : 0 < bytes.length := by lia
    simp only [writeOnto, if_pos nonempty, if_neg (Nat.not_le.mpr straddles)]
    -- The bytes that still fit into the block, and the rest.
    generalize isHead : bytes.take (4064 - start % 4064) = head
    generalize isRest : bytes.drop (4064 - start % 4064) = rest
    have headLength : head.length = 4064 - start % 4064 := by
      rw [← isHead, List.length_take]
      lia
    have restLength : rest.length = bytes.length - (4064 - start % 4064) := by
      rw [← isRest, List.length_drop]
    obtain rfl : head ++ rest = bytes := by rw [← isHead, ← isRest, List.take_append_drop]
    have headFits : start / 4064 * 4096 + 32 + start % 4064 + head.length ≤ buf.length := by lia
    have headWrote : Wrote numBlocks buf (splice buf (start / 4064 * 4096 + 32 + start % 4064) head)
        start head := by
      refine ⟨length, (length_splice headFits).trans length, by lia, ?_⟩
      rw [withoutChecksums_splice length (by lia) (by lia), startEq]
    refine headWrote.append ⟨headWrote.length', ?_, by lia, ?_⟩ rfl
    · rw [length_splice, headWrote.length']
      rw [headWrote.length']
      lia
    · have nextStart : start + head.length = (start / 4064 + 1) * 4064 + 0 := by lia
      have nextPlace : (start / 4064 + 1) * 4096 + 32 = (start / 4064 + 1) * 4096 + 32 + 0 := rfl
      rw [nextStart, nextPlace, withoutChecksums_splice headWrote.length' (by lia) (by lia)]
  · simp only [writeOnto, if_pos nonempty, if_pos inBlock]
    refine ⟨length, (length_splice (by lia)).trans length, fits, ?_⟩
    rw [withoutChecksums_splice length inBlock (by lia), startEq]

theorem wrote_writeIntOnto {val : Nat} (length : buf.length = 4096 * numBlocks)
    (fits : start + 4 ≤ 4064 * numBlocks) :
    Wrote numBlocks buf (writeIntOnto buf start val) start (packLittleEndianUint32 val) :=
  wrote_writeOnto length (by rw [length_packLittleEndianUint32]; lia) fits

def encodeEntry (je : JournalEntry) : Bytes :=
  packLittleEndianUint32 je.key.val.length ++ je.key.val ++
    packLittleEndianUint32 je.value.val.length ++ je.value.val

def encodeEntries (jes : List JournalEntry) : Bytes :=
  jes.flatMap encodeEntry

theorem length_encodeEntry (je : JournalEntry) :
    (encodeEntry je).length = weightJournalEntry je := by
  simp only [encodeEntry, List.length_append, length_packLittleEndianUint32, weightJournalEntry]
  omega

theorem encodeEntries_cons (je : JournalEntry) (jes : List JournalEntry) :
    encodeEntries (je :: jes) = encodeEntry je ++ encodeEntries jes :=
  List.flatMap_cons

theorem wrote_writeJournalEntry {idx : Nat} {je : JournalEntry}
    (length : buf.length = 4096 * numBlocks)
    (fits : idx + weightJournalEntry je ≤ 4064 * numBlocks) :
    Wrote numBlocks buf (writeJournalEntry buf idx je) idx (encodeEntry je) := by
  have keyLe : je.key.val.length ≤ 1024 := je.key.property
  have valueLe : je.value.val.length ≤ 1024 := je.value.property
  rw [weightJournalEntry] at fits
  have keyLength : Wrote numBlocks buf _ idx (packLittleEndianUint32 je.key.val.length) :=
    wrote_writeIntOnto length (by omega)
  have key : Wrote numBlocks _ _ (idx + 4) je.key.val :=
    wrote_writeOnto keyLength.length' (by omega) (by omega)
  have valueLength : Wrote numBlocks _ _ (idx + 4 + je.key.val.length)
      (packLittleEndianUint32 je.value.val.length) :=
    wrote_writeIntOnto key.length' (by omega)
  have value : Wrote numBlocks _ _ (idx + 4 + je.key.val.length + 4) je.value.val :=
    wrote_writeOnto valueLength.length' (by omega) (by omega)
  have entry := ((keyLength.append key rfl).append valueLength ?_).append value ?_
  · exact entry
  · rw [List.length_append, length_packLittleEndianUint32, Nat.add_assoc]
  · simp only [List.length_append, length_packLittleEndianUint32]
    omega

theorem wrote_writeJournalEntries {idx len : Nat} {entries : List JournalEntry}
    (length : buf.length = 4096 * numBlocks) (startLt : start < entries.length)
    (lenLe : len ≤ entries.length)
    (fits : idx + sumJournalEntries (cyclicSlice entries start len) ≤ 4064 * numBlocks) :
    Wrote numBlocks buf (writeJournalEntries buf idx entries start len) idx
      (encodeEntries (cyclicSlice entries start len)) := by
  induction len generalizing buf idx start with
  | zero =>
    rw [cyclicSlice, Cyclic.slice_zero startLt] at fits ⊢
    exact Wrote.nil length fits
  | succ len ih =>
    have isNext : (if start + 1 = entries.length then 0 else start + 1) =
        Cyclic.posAdd entries.length start 1 := by
      rw [Cyclic.posAdd]
      split <;> split <;> omega
    have nextLt := Cyclic.posAdd_lt startLt (show 1 ≤ entries.length by omega)
    have isSlice : cyclicSlice entries start (len + 1) = entries[start] ::
        cyclicSlice entries (Cyclic.posAdd entries.length start 1) len := by
      rw [cyclicSlice, Nat.add_comm, Cyclic.slice_append startLt (by omega), Cyclic.slice,
        if_pos (by omega), List.drop_eq_getElem_cons startLt]
      rfl
    rw [isSlice, sumJournalEntries_cons] at fits
    rw [isSlice, encodeEntries_cons, writeJournalEntries, List.getElem?_eq_getElem startLt]
    simp only [isNext]
    have entry : Wrote numBlocks buf (writeJournalEntry buf idx entries[start]) idx _ :=
      wrote_writeJournalEntry length (by omega)
    refine entry.append (ih entry.length' nextLt (by omega) ?_) ?_
    · rw [weightJournalEntry] at fits
      omega
    · rw [length_encodeEntry, weightJournalEntry]
      omega

theorem wrote_writeHeader (len : Nat) (length : buf.length = 4096 * numBlocks)
    (someBlock : 1 ≤ numBlocks) :
    Wrote numBlocks buf (writeHeader buf numBlocks len) 0
      (packLittleEndianUint32 len ++ packLittleEndianUint32 numBlocks) := by
  have first : Wrote numBlocks buf _ 0 (packLittleEndianUint32 len) :=
    wrote_writeIntOnto length (by omega)
  have second : Wrote numBlocks _ _ 4 (packLittleEndianUint32 numBlocks) :=
    wrote_writeIntOnto first.length' (by omega)
  exact first.append second rfl

end Writing

/-- The payload of each block. -/
def payloadBlocks (buf : Bytes) : Nat → JournalRange
  | 0 => []
  | numBlocks + 1 => (buf.take 4096).drop 32 :: payloadBlocks (buf.drop 4096) numBlocks

/-- The blocks with the right checksums in them. -/
def checksummed (buf : Bytes) : Nat → Bytes
  | 0 => []
  | numBlocks + 1 =>
    CRC32C.crc32CPadded ((buf.take 4096).drop 32) ++ (buf.take 4096).drop 32 ++
      checksummed (buf.drop 4096) numBlocks

theorem flatten_payloadBlocks (buf : Bytes) (numBlocks : Nat) :
    (payloadBlocks buf numBlocks).flatten = withoutChecksums buf numBlocks := by
  induction numBlocks generalizing buf with
  | zero => rfl
  | succ numBlocks ih => rw [payloadBlocks, List.flatten_cons, ih, withoutChecksums]

theorem length_payloadBlocks (buf : Bytes) (numBlocks : Nat) :
    (payloadBlocks buf numBlocks).length = numBlocks := by
  induction numBlocks generalizing buf with
  | zero => rfl
  | succ numBlocks ih => rw [payloadBlocks, List.length_cons, ih]

theorem length_checksummed (length : buf.length = 4096 * numBlocks) :
    (checksummed buf numBlocks).length = 4096 * numBlocks := by
  induction numBlocks generalizing buf with
  | zero => rfl
  | succ numBlocks ih =>
    rw [checksummed, List.length_append, List.length_append, CRC32C.length_crc32CPadded,
      ih (by rw [List.length_drop]; omega), List.length_drop, List.length_take]
    omega

theorem fillInChecksums_eq {count : Nat} (length : buf.length = 4096 * (i + count)) :
    fillInChecksums buf i count =
      buf.take (4096 * i) ++ checksummed (buf.drop (4096 * i)) count := by
  induction count generalizing buf i with
  | zero =>
    rw [fillInChecksums, checksummed, List.append_nil, List.take_of_length_le (by omega)]
  | succ count ih =>
    have payload : ((buf.drop (4096 * i)).take 4096).drop 32 =
        (buf.drop (4096 * i + 32)).take 4064 := by
      rw [List.drop_take, List.drop_drop]
    rw [fillInChecksums, checksummed, payload, List.drop_drop]
    have crcLength := CRC32C.length_crc32CPadded ((buf.drop (4096 * i + 32)).take 4064)
    generalize CRC32C.crc32CPadded ((buf.drop (4096 * i + 32)).take 4064) = crc at crcLength ⊢
    have fits : 4096 * i + crc.length ≤ buf.length := by omega
    have blockEnd : 4096 * (i + 1) = 4096 * i + crc.length + 4064 := by omega
    have blockEnd' : 4096 * i + 4096 = 4096 * i + crc.length + 4064 := by omega
    rw [ih (by rw [length_splice fits]; omega), blockEnd, blockEnd', take_splice fits,
      drop_splice_after fits, crcLength]
    simp only [List.append_assoc]

theorem checksumChecksOut_append {payload : Bytes} :
    ChecksumChecksOut (CRC32C.crc32CPadded payload ++ payload) := by
  have crcLength := CRC32C.length_crc32CPadded payload
  refine ⟨by rw [List.length_append]; omega, ?_⟩
  rw [List.take_left' crcLength, List.drop_left' crcLength]

theorem journalRangeOfByteSeq_checksummed (length : buf.length = 4096 * numBlocks) :
    journalRangeOfByteSeq (checksummed buf numBlocks) = some (payloadBlocks buf numBlocks) := by
  induction numBlocks generalizing buf with
  | zero => rw [checksummed, journalRangeOfByteSeq, if_pos rfl, payloadBlocks]
  | succ numBlocks ih =>
    have total := length_checksummed length
    rw [checksummed] at total ⊢
    generalize isPayload : (buf.take 4096).drop 32 = payload at total ⊢
    have payloadLength : payload.length = 4064 := by
      rw [← isPayload, List.length_drop, List.length_take]
      omega
    have crcLength := CRC32C.length_crc32CPadded payload
    have blockLength : (CRC32C.crc32CPadded payload ++ payload).length = 4096 := by
      rw [List.length_append]
      omega
    have isBlock : journalBlockOfByteSeq (CRC32C.crc32CPadded payload ++ payload) =
        some payload := by
      rw [journalBlockOfByteSeq, if_pos ⟨blockLength, checksumChecksOut_append⟩,
        List.drop_left' crcLength]
    rw [journalRangeOfByteSeq, if_neg (List.ne_nil_of_length_pos (by omega)), if_pos (by omega),
      List.take_left' blockLength, List.drop_left' blockLength, isBlock,
      ih (by rw [List.length_drop]; omega), payloadBlocks, isPayload]
    rfl

theorem take_drop_of_eq {a b : Bytes} (isPart : s.drop idx = a ++ b) :
    (s.drop idx).take a.length = a ∧ s.drop (idx + a.length) = b := by
  rw [← List.drop_drop, isPart]
  exact ⟨List.take_left, List.drop_left⟩

theorem parseEntries_of_encoded (idxLe : idx ≤ s.length)
    (isEncoded : s.drop idx = encodeEntries jes ++ rest) :
    parseEntries s jes.length idx = some jes := by
  induction jes generalizing idx with
  | nil => rfl
  | cons je jes ih =>
    obtain ⟨⟨key, keyLe⟩, ⟨value, valueLe⟩⟩ := je
    simp only [encodeEntries_cons, encodeEntry, JournalEntry.key, JournalEntry.value,
      List.append_assoc] at isEncoded
    obtain ⟨isKeyLen, afterKeyLen⟩ := take_drop_of_eq isEncoded
    obtain ⟨isKey, afterKey⟩ := take_drop_of_eq afterKeyLen
    obtain ⟨isValueLen, afterValueLen⟩ := take_drop_of_eq afterKey
    obtain ⟨isValue, afterValue⟩ := take_drop_of_eq afterValueLen
    have total := congrArg List.length isEncoded
    simp only [List.length_append, List.length_drop, length_packLittleEndianUint32] at total
    simp only [length_packLittleEndianUint32] at isKeyLen isKey isValueLen isValue afterValue
    have keyLen := unpackLittleEndianUint32_pack (show key.length < 0x100000000 by omega)
    have valueLen := unpackLittleEndianUint32_pack (show value.length < 0x100000000 by omega)
    rw [← isKeyLen] at keyLen
    rw [← isValueLen] at valueLen
    rw [List.length_cons, parseEntries, if_pos (by omega)]
    simp only [keyLen]
    rw [dif_pos ⟨by omega, keyLe⟩]
    simp only [valueLen]
    rw [dif_pos ⟨by omega, valueLe⟩, ih (by omega) afterValue, Option.map_some]
    simp only [subByteString, isKey, isValue]

theorem parseHeader_append {block : Bytes} (long : 8 ≤ block.length) :
    parseHeader (block ++ rest) = parseHeader block := by
  rw [parseHeader, parseHeader, List.take_append_of_le_length (by omega),
    List.drop_append_of_le_length (by omega),
    List.take_append_of_le_length (by rw [List.length_drop]; omega)]

theorem parseHeader_pack {nentries nblocks : Nat} (entriesLt : nentries < 0x100000000)
    (blocksLt : nblocks < 0x100000000) :
    parseHeader (packLittleEndianUint32 nentries ++ (packLittleEndianUint32 nblocks ++ rest)) =
      ⟨nentries, nblocks⟩ := by
  rw [parseHeader, List.take_left' (length_packLittleEndianUint32 _),
    List.drop_left' (length_packLittleEndianUint32 _),
    List.take_left' (length_packLittleEndianUint32 _), unpackLittleEndianUint32_pack entriesLt,
    unpackLittleEndianUint32_pack blocksLt]

/-- A range whose payloads hold a header for all its blocks and then the entries
parses to the entries. -/
theorem parseJournalRange_payloadBlocks {buf : Bytes} (length : buf.length = 4096 * numBlocks)
    (someBlock : 1 ≤ numBlocks) (lenLt : jes.length < 0x100000000)
    (blocksLt : numBlocks < 0x100000000)
    (isPayload : withoutChecksums buf numBlocks = packLittleEndianUint32 jes.length ++
      (packLittleEndianUint32 numBlocks ++ (encodeEntries jes ++ rest))) :
    parseJournalRange (payloadBlocks buf numBlocks) = some jes := by
  have payloadLength := length_withoutChecksums length
  have isFlat := flatten_payloadBlocks buf numBlocks
  have isLength := length_payloadBlocks buf numBlocks
  have blockLength : ∀ block blocks, payloadBlocks buf numBlocks = block :: blocks →
      block.length = 4064 := by
    intro block blocks isCons
    obtain ⟨_, rfl⟩ := Nat.exists_eq_add_of_le' someBlock
    rw [← (List.cons.inj isCons).1, List.length_drop, List.length_take]
    omega
  cases isBlocks : payloadBlocks buf numBlocks with
  | nil =>
    rw [isBlocks, List.length_nil] at isLength
    omega
  | cons block blocks =>
    have long := blockLength block blocks isBlocks
    rw [isBlocks] at isFlat isLength
    have isHeader : parseHeader block = ⟨jes.length, numBlocks⟩ := by
      rw [← parseHeader_append (by omega), ← List.flatten_cons, isFlat, isPayload,
        parseHeader_pack lenLt blocksLt]
    have isEntries : parseJournalRangeOfBytes (block :: blocks).flatten jes.length = some jes := by
      have isEncoded : (withoutChecksums buf numBlocks).drop 8 = encodeEntries jes ++ rest := by
        have headerLength : (packLittleEndianUint32 jes.length ++
            packLittleEndianUint32 numBlocks).length = 8 := rfl
        rw [isPayload, ← List.append_assoc, List.drop_left' headerLength]
      rw [parseJournalRangeOfBytes, isFlat, parseEntries_of_encoded (by omega) isEncoded]
    rw [parseJournalRange, if_pos (by omega),
      dif_pos (by rw [isHeader]; exact ⟨someBlock, isLength.ge⟩)]
    simp only [isHeader]
    rw [← isLength, List.take_length, List.drop_length, isEntries, parseJournalRange_nil,
      Option.bind_some, Option.map_some, List.append_nil]

/-- The entries of a slice, once they are written and their blocks have their
checksums, are read back. -/
theorem marshallJournalEntries_parses {entries : List JournalEntry} {start len numBlocks : Nat}
    (startLt : start < entries.length) (lenLe : len ≤ entries.length)
    (lenLt : len < 0x100000000) (someBlock : 1 ≤ numBlocks) (blocksLt : numBlocks < 0x100000000)
    (fits : 8 + sumJournalEntries (cyclicSlice entries start len) ≤ 4064 * numBlocks) :
    (marshallJournalEntries entries start len numBlocks).length = numBlocks * 4096 ∧
      ∃ jr, journalRangeOfByteSeq (marshallJournalEntries entries start len numBlocks) = some jr ∧
        jr.length = numBlocks ∧
        parseJournalRange jr = some (cyclicSlice entries start len) := by
  have sliceLength : (cyclicSlice entries start len).length = len :=
    Cyclic.length_slice startLt lenLe
  have header : Wrote numBlocks (List.replicate (numBlocks * 4096) 0) _ 0 _ :=
    wrote_writeHeader len (by rw [List.length_replicate, Nat.mul_comm]) someBlock
  have wrote := header.append (wrote_writeJournalEntries header.length' startLt lenLe fits) rfl
  have isBytes : marshallJournalEntries entries start len numBlocks =
      fillInChecksums (writeJournalEntries (writeHeader (List.replicate (numBlocks * 4096) 0)
        numBlocks len) 8 entries start len) 0 numBlocks := rfl
  rw [fillInChecksums_eq (by rw [wrote.length', Nat.zero_add]), Nat.mul_zero,
    List.take_zero, List.drop_zero, List.nil_append] at isBytes
  rw [isBytes]
  refine ⟨(length_checksummed wrote.length').trans (Nat.mul_comm _ _), _,
    journalRangeOfByteSeq_checksummed wrote.length', length_payloadBlocks _ _, ?_⟩
  have isPayload := wrote.payload
  generalize cyclicSlice entries start len = jes at sliceLength isPayload ⊢
  subst sliceLength
  exact parseJournalRange_payloadBlocks wrote.length' someBlock lenLt blocksLt isPayload

/-- What is marshalled is read back as it was, and ranges that parse can be put after one
another. -/
theorem journal_bytes_roundTrip :
    (∀ (entries : List JournalEntry) (start len numBlocks : Nat), start < entries.length →
      len ≤ entries.length → entries.length ≤ 0xffffffff → 1 ≤ numBlocks →
      numBlocks ≤ numJournalBlocks →
      8 + sumJournalEntries (cyclicSlice entries start len) ≤ 4064 * numBlocks →
      (marshallJournalEntries entries start len numBlocks).length = numBlocks * 4096 ∧
        ∃ jr, journalRangeOfByteSeq (marshallJournalEntries entries start len numBlocks) =
            some jr ∧
          parseJournalRange jr = some (cyclicSlice entries start len)) ∧
      ∀ (a b : JournalRange) (jes jes' : List JournalEntry), parseJournalRange a = some jes →
        parseJournalRange b = some jes' → parseJournalRange (a ++ b) = some (jes ++ jes') := by
  constructor
  · intro entries start len numBlocks startLt lenLe few someBlock blocksLe fits
    have isBlocks : numJournalBlocks = 65536 := rfl
    obtain ⟨length, jr, isRange, -, parses⟩ := marshallJournalEntries_parses startLt lenLe
      (by omega) someBlock (by omega) fits
    exact ⟨length, jr, isRange, parses⟩
  · intro a b jes jes' parses parses'
    exact parseJournalRange_append parses parses'

/-- Two entries from the end and the beginning of an array of two. -/
theorem journal_bytes_roundTrip_wraps :
    ∃ jr, journalRangeOfByteSeq (marshallJournalEntries
        [.journalInsert ⟨[1], by decide⟩ ⟨[], by decide⟩,
          .journalInsert ⟨[2, 3], by decide⟩ ⟨[4], by decide⟩] 1 2 1) = some jr ∧
      parseJournalRange (jr ++ jr) = some
        [.journalInsert ⟨[2, 3], by decide⟩ ⟨[4], by decide⟩,
          .journalInsert ⟨[1], by decide⟩ ⟨[], by decide⟩,
          .journalInsert ⟨[2, 3], by decide⟩ ⟨[4], by decide⟩,
          .journalInsert ⟨[1], by decide⟩ ⟨[], by decide⟩] := by
  obtain ⟨-, jr, isRange, parses⟩ := journal_bytes_roundTrip.1
    [.journalInsert ⟨[1], by decide⟩ ⟨[], by decide⟩,
      .journalInsert ⟨[2, 3], by decide⟩ ⟨[4], by decide⟩] 1 2 1
    (by decide) (by decide) (by decide) (by decide) (by decide) (by decide)
  exact ⟨jr, isRange, journal_bytes_roundTrip.2 jr jr _ _ parses parses⟩

end JournalistMarshalling

end VerifiedBetrfs
