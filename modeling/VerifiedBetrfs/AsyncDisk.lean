import VerifiedBetrfs.FiniteMap
import VerifiedBetrfs.Splice

/-!
# The disk that the machine is trusted to run on

A sequence of bytes with queues of requests and answers.  The one step that answers a read demands
bytes that differ from the stored ones, which only a conflict of pending requests makes up for.
-/

/-!
## The checksum CRC-32C

The checksum is the remainder of a division of polynomials over the field of two elements.  A
polynomial is the list of its coefficients, the constant one first.
-/

namespace VerifiedBetrfs.CRC32C

abbrev Bits := List Bool

def bitsOfInt (n : Nat) : Nat → Bits
  | 0 => []
  | len + 1 => (n % 2 == 1) :: bitsOfInt (n / 2) len

def zeroes (l : Nat) : Bits :=
  List.replicate l false

def ones (l : Nat) : Bits :=
  List.replicate l true

def xor (p q : Bits) : Bits :=
  List.zipWith (· ^^ ·) p q

def shift (p : Bits) (t : Nat) : Bits :=
  zeroes t ++ p

/-- The remainder of `p` by a polynomial whose leading coefficient is one. -/
def modF2X (p q : Bits) : Bits :=
  if p.length ≤ q.length - 1 then
    p ++ zeroes (q.length - 1 - p.length)
  else if p.getLast? = some true then
    modF2X (xor p (shift q (p.length - q.length))).dropLast q
  else
    modF2X p.dropLast q
termination_by p.length
decreasing_by
  · simp only [List.length_dropLast, xor, List.length_zipWith]
    omega
  · simp only [List.length_dropLast]
    omega

def bitsOfBytes (bytes : List UInt8) : Bits :=
  bytes.flatMap fun byte => bitsOfInt byte.toNat 8

def byteOfBits (m : Bits) : UInt8 :=
  UInt8.ofNat (m.foldr (fun bit value => bit.toNat + 2 * value) 0)

/-- The checksum, by division of polynomials. -/
def crc32C (bytes : List UInt8) : List UInt8 :=
  let bitstream := zeroes 32 ++ (bitsOfBytes bytes).reverse
  let bitstream1 := xor bitstream (zeroes (bitstream.length - 32) ++ ones 32)
  let m := modF2X bitstream1 (bitsOfInt 0x11EDC6F41 33)
  let m1 := xor m.reverse (ones 32)
  [byteOfBits (m1.take 8), byteOfBits ((m1.drop 8).take 8), byteOfBits ((m1.drop 16).take 8),
    byteOfBits ((m1.drop 24).take 8)]

def crc32CPadded (bytes : List UInt8) : List UInt8 :=
  crc32C bytes ++ List.replicate 28 0

theorem length_crc32CPadded (bytes : List UInt8) : (crc32CPadded bytes).length = 32 := rfl

end VerifiedBetrfs.CRC32C

namespace VerifiedBetrfs.AsyncDisk

abbrev ReqId := UInt64

abbrev Bytes := List UInt8

/-- A read of a range of bytes. -/
structure ReqRead where
  addr : UInt64
  len : UInt64

/-- A write of bytes at an address. -/
structure ReqWrite where
  addr : UInt64
  bytes : Bytes

/-- The bytes that were read. -/
structure RespRead where
  addr : UInt64
  bytes : Bytes

/-- The range that was written. -/
structure RespWrite where
  addr : UInt64
  len : UInt64

/-- The bytes of the disk, the requests that wait and the answers not yet taken. -/
structure Variables where
  reqReads : FiniteMap ReqId ReqRead
  reqWrites : FiniteMap ReqId ReqWrite
  respReads : FiniteMap ReqId RespRead
  respWrites : FiniteMap ReqId RespWrite
  contents : Bytes

/-- What the disk does on its own. -/
inductive InternalStep where
  | processReadFailureStep (id : ReqId) (fakeContents : Bytes)
  | processWriteStep (id : ReqId)
  | havocConflictingWritesStep (id id' : ReqId)
  | havocConflictingWriteReadStep (id id' : ReqId)

/-- The bytes from `i` up to `j`. -/
def slice (bytes : Bytes) (i j : Nat) : Bytes :=
  (bytes.take j).drop i

/-- The first bytes are the checksum of the rest. -/
def ChecksumChecksOut (bytes : Bytes) : Prop :=
  32 ≤ bytes.length ∧ bytes.take 32 = CRC32C.crc32CPadded (bytes.drop 32)

instance (bytes : Bytes) : Decidable (ChecksumChecksOut bytes) :=
  inferInstanceAs (Decidable (_ ∧ _))

/-- A correct checksum does not become another correct one. -/
def ChecksumsCheckOutForSlice (realContents fakeContents : Bytes) (i j : Nat) : Prop :=
  ChecksumChecksOut (slice realContents i j) → ChecksumChecksOut (slice fakeContents i j) →
    slice realContents i j = slice fakeContents i j

def AllChecksumsCheckOut (realContents fakeContents : Bytes) : Prop :=
  ∀ i j, i ≤ j → j ≤ realContents.length →
    ChecksumsCheckOutForSlice realContents fakeContents i j

/-- The range of a read lies inside the contents. -/
def ReadInside (s : Variables) (req : ReqRead) : Prop :=
  req.addr.toNat + req.len.toNat ≤ s.contents.length

instance (s : Variables) (req : ReqRead) : Decidable (ReadInside s req) :=
  inferInstanceAs (Decidable (_ ≤ _))

/-- The bytes that are stored where a read asks for them. -/
def storedBytes (s : Variables) (req : ReqRead) : Bytes :=
  slice s.contents req.addr.toNat (req.addr.toNat + req.len.toNat)

/-- The disk after it has answered the read `req` with `bytes`. -/
def readAnswered (s : Variables) (id : ReqId) (req : ReqRead) (bytes : Bytes) : Variables :=
  { s with
    reqReads := s.reqReads.erase id
    respReads := s.respReads.insert id ⟨req.addr, bytes⟩ }

/-- A read is answered with bytes that are not those on disk. -/
def ProcessReadFailure (s s' : Variables) (id : ReqId) (fakeContents : Bytes) : Prop :=
  ∃ req, s.reqReads.lookup id = some req ∧
    ReadInside s req ∧
    fakeContents.length = (storedBytes s req).length ∧
    fakeContents ≠ storedBytes s req ∧
    AllChecksumsCheckOut (storedBytes s req) fakeContents ∧
    s' = readAnswered s id req fakeContents

/-- A write reaches the disk. -/
def ProcessWrite (s s' : Variables) (id : ReqId) : Prop :=
  ∃ req, s.reqWrites.lookup id = some req ∧
    req.bytes.length < 0x10000000000000000 ∧
    req.addr.toNat + req.bytes.length ≤ s.contents.length ∧
    s' = { s with
      reqWrites := s.reqWrites.erase id
      respWrites := s.respWrites.insert id ⟨req.addr, UInt64.ofNat req.bytes.length⟩
      contents := Splicing.splice s.contents req.addr.toNat req.bytes }

def Overlap (start len start' len' : Nat) : Prop :=
  start' < start + len ∧ start < start' + len'

/-- The disk guarantees nothing when there are conflicting writes. -/
def HavocConflictingWrites (s : Variables) (id id' : ReqId) : Prop :=
  id ≠ id' ∧
  ∃ req req', s.reqWrites.lookup id = some req ∧
    s.reqWrites.lookup id' = some req' ∧
    Overlap req.addr.toNat req.bytes.length req'.addr.toNat req'.bytes.length

/-- A pending write overlaps a pending read. -/
def HavocConflictingWriteRead (s : Variables) (id id' : ReqId) : Prop :=
  ∃ req req', s.reqWrites.lookup id = some req ∧
    s.reqReads.lookup id' = some req' ∧
    Overlap req.addr.toNat req.bytes.length req'.addr.toNat req'.len.toNat

def NextInternalStep (s s' : Variables) : InternalStep → Prop
  | .processReadFailureStep id fakeContents => ProcessReadFailure s s' id fakeContents
  | .processWriteStep id => ProcessWrite s s' id
  | .havocConflictingWritesStep id id' => HavocConflictingWrites s id id'
  | .havocConflictingWriteReadStep id id' => HavocConflictingWriteRead s id id'

def NextInternal (s s' : Variables) : Prop :=
  ∃ step, NextInternalStep s s' step

/-- Two pending writes overlap, or a pending write and a pending read. -/
def RequestsConflict (s : Variables) : Prop :=
  ∃ id id', HavocConflictingWrites s id id' ∨ HavocConflictingWriteRead s id id'

variable {s s' : Variables} {id : ReqId} {req : ReqRead}

theorem nextInternal_of_requestsConflict (conflict : RequestsConflict s) (s' : Variables) :
    NextInternal s s' := by
  obtain ⟨first, second, writes | writeRead⟩ := conflict
  · exact ⟨.havocConflictingWritesStep first second, writes⟩
  · exact ⟨.havocConflictingWriteReadStep first second, writeRead⟩

theorem processReadFailure_ne {other : ReqId} {fakeContents : Bytes}
    (pending : s.reqReads.lookup id = some req)
    (process : ProcessReadFailure s (readAnswered s id req (storedBytes s req)) other
      fakeContents) : False := by
  obtain ⟨_, pending', -, -, differs, -, isAnswered⟩ := process
  have sameReads := congrArg Variables.reqReads isAnswered
  have sameAnswers := congrArg Variables.respReads isAnswered
  -- Both sides take one pending read away, so it is the same one.
  have same : id = other := by
    by_contra different
    have lookup := congrArg (fun reads => reads.lookup id) sameReads
    simp [readAnswered, different, pending] at lookup
  subst same
  cases pending.symm.trans pending'
  have lookup := congrArg (fun answers => answers.lookup id) sameAnswers
  simp only [readAnswered, FiniteMap.lookup_insert, if_true, Option.some.injEq,
    RespRead.mk.injEq, true_and] at lookup
  exact differs lookup.symm

theorem processWrite_ne {other : ReqId} {bytes : Bytes}
    (process : ProcessWrite s (readAnswered s id req bytes) other) : False := by
  obtain ⟨_, pending, -, -, isWritten⟩ := process
  have sameWrites := congrArg Variables.reqWrites isWritten
  have lookup := congrArg (fun writes => writes.lookup other) sameWrites
  simp [readAnswered, pending] at lookup

theorem requestsConflict_of_read (pending : s.reqReads.lookup id = some req)
    (next : NextInternal s (readAnswered s id req (storedBytes s req))) : RequestsConflict s := by
  obtain ⟨step, stepNext⟩ := next
  cases step with
  | processReadFailureStep other fakeContents => exact (processReadFailure_ne pending stepNext).elim
  | processWriteStep other => exact (processWrite_ne stepNext).elim
  | havocConflictingWritesStep first second => exact ⟨first, second, .inl stepNext⟩
  | havocConflictingWriteReadStep first second => exact ⟨first, second, .inr stepNext⟩

/-- The disk can answer a pending read with the stored bytes, and change nothing else, just where
some pending requests conflict; without a conflict every read fails. -/
theorem read_succeeds_iff (pending : s.reqReads.lookup id = some req) :
    NextInternal s (readAnswered s id req (storedBytes s req)) ↔ RequestsConflict s :=
  ⟨requestsConflict_of_read pending, fun conflict => nextInternal_of_requestsConflict conflict _⟩

/-- One byte is stored and a read of it is pending. -/
def oneByteDisk (reqWrites : FiniteMap ReqId ReqWrite) : Variables :=
  ⟨FiniteMap.empty.insert 3 ⟨0, 1⟩, reqWrites, .empty, .empty, [7]⟩

theorem pending_oneByteDisk (reqWrites : FiniteMap ReqId ReqWrite) :
    (oneByteDisk reqWrites).reqReads.lookup 3 = some ⟨0, 1⟩ := by
  simp [oneByteDisk]

theorem not_requestsConflict_oneByteDisk : ¬RequestsConflict (oneByteDisk .empty) := by
  rintro ⟨_, _, ⟨-, _, -, isPending, -⟩ | ⟨_, -, isPending, -⟩⟩
  · cases isPending
  · cases isPending

/-- With a pending write of the byte the read can be answered, without one it cannot. -/
theorem read_succeeds_iff_pendingWrite :
    NextInternal (oneByteDisk (FiniteMap.empty.insert 4 ⟨0, [9]⟩))
        (readAnswered (oneByteDisk (FiniteMap.empty.insert 4 ⟨0, [9]⟩)) 3 ⟨0, 1⟩ [7]) ∧
      ¬NextInternal (oneByteDisk .empty) (readAnswered (oneByteDisk .empty) 3 ⟨0, 1⟩ [7]) := by
  refine ⟨(read_succeeds_iff (pending_oneByteDisk _)).mpr ⟨4, 3, .inr ?_⟩, fun next => ?_⟩
  · exact ⟨⟨0, [9]⟩, ⟨0, 1⟩, by simp [oneByteDisk], pending_oneByteDisk _, by decide, by decide⟩
  · exact not_requestsConflict_oneByteDisk ((read_succeeds_iff (pending_oneByteDisk _)).mp next)

/-- A read of one stored byte is the only request; no step answers it with that byte. -/
theorem oneByte_read_fails :
    ∃ (s : Variables) (id : ReqId) (req : ReqRead), s.reqReads.lookup id = some req ∧
      ReadInside s req ∧ storedBytes s req = [7] ∧
      ¬ NextInternal s (readAnswered s id req (storedBytes s req)) := by
  refine ⟨oneByteDisk .empty, 3, ⟨0, 1⟩, pending_oneByteDisk _, by decide, by decide, ?_⟩
  exact fun next => not_requestsConflict_oneByteDisk (requestsConflict_of_read
    (pending_oneByteDisk _) next)

end VerifiedBetrfs.AsyncDisk
