import VerifiedBetrfs.JournalInterval
import VerifiedBetrfs.DiskLayout

/-!
# The disk of the journal system

A superblock write reaches the disk at some time before its acknowledgement; a crash may change
every block that a journal write not yet acknowledged touches.  What the source keeps for each of
the two superblocks is a function of the superblock's index.
-/

namespace VerifiedBetrfs.JournalDisk

open DiskLayout SectorType JournalRanges JournalIntervals

abbrev ReqId := UInt64

/-- A write of a superblock. -/
structure ReqWriteSuperblock where
  superblock : Superblock

/-- A write of blocks of the journal. -/
structure ReqWriteJournal where
  start : Nat
  journal : JournalRange

/-- A pending write of a superblock. -/
structure ReqWriteSuperblockId where
  id : ReqId
  req : ReqWriteSuperblock

/-- What the cache and the disk exchange in a step. -/
inductive DiskOp where
  | reqReadSuperblockOp (id : ReqId) (which : Fin 2)
  | reqReadJournalOp (id : ReqId) (interval : JournalInterval)
  | reqWriteSuperblockOp (id : ReqId) (which : Fin 2) (reqWriteSuperblock : ReqWriteSuperblock)
  | reqWriteJournalOp (id1 : ReqId) (id2 : Option ReqId) (reqWriteJournal : ReqWriteJournal)
  | respReadSuperblockOp (id : ReqId) (which : Fin 2) (superblock : Option Superblock)
  | respReadJournalOp (id : ReqId) (journal : Option JournalRange)
  | respWriteSuperblockOp (id : ReqId) (which : Fin 2)
  | respWriteJournalOp (id : ReqId)
  | noDiskOp

/-- The requests that have not been answered, and what the disk holds. -/
structure Variables where
  reqReadSuperblock : Fin 2 → Finset ReqId
  reqReadJournals : FiniteMap ReqId JournalInterval
  reqWriteSuperblock : Fin 2 → Option ReqWriteSuperblockId
  reqWriteJournals : FiniteMap ReqId JournalInterval
  superblock : Fin 2 → Option Superblock
  journal : List (Option JournalBlock)

/-- No request is pending. -/
structure Idle (s : Variables) : Prop where
  reqReadSuperblock : s.reqReadSuperblock = fun _ => ∅
  reqReadJournals : s.reqReadJournals = .empty
  reqWriteSuperblock : s.reqWriteSuperblock = fun _ => none
  reqWriteJournals : s.reqWriteJournals = .empty

def Init (s : Variables) : Prop :=
  Idle s ∧ s.journal.length = numJournalBlocks

section

variable (s s' : Variables) (id : ReqId)

def RecvReadSuperblock (which : Fin 2) : Prop :=
  (∀ slot, id ∉ s.reqReadSuperblock slot) ∧
  s' = { s with reqReadSuperblock :=
    Function.update s.reqReadSuperblock which (insert id (s.reqReadSuperblock which)) }

def RecvReadJournal (interval : JournalInterval) : Prop :=
  s.reqReadJournals.lookup id = none ∧
  ContiguousJournalInterval interval ∧
  s' = { s with reqReadJournals := s.reqReadJournals.insert id interval }

def RecvWriteSuperblock (which : Fin 2) (req : ReqWriteSuperblock) : Prop :=
  (∀ slot pending, s.reqWriteSuperblock slot = some pending → pending.id ≠ id) ∧
  s' = { s with reqWriteSuperblock := Function.update s.reqWriteSuperblock which (some ⟨id, req⟩) }

end

/-- A write that wraps around is sent as two requests. -/
def RecvWriteJournal (s s' : Variables) (id1 : ReqId) (id2 : Option ReqId)
    (req : ReqWriteJournal) : Prop :=
  let interval : JournalInterval := ⟨req.start, req.journal.length⟩
  s.reqWriteJournals.lookup id1 = none ∧
  (∀ id, id2 = some id → s.reqWriteJournals.lookup id = none) ∧
  JournalUpdate s.journal s'.journal interval req.journal ∧
  (interval.start + interval.len ≤ numJournalBlocks →
    id2 = none ∧
    s' = { s with
      reqWriteJournals := s.reqWriteJournals.insert id1 interval
      journal := s'.journal }) ∧
  (numJournalBlocks < interval.start + interval.len →
    ∃ second, id2 = some second ∧ second ≠ id1 ∧
      let interval1 : JournalInterval := ⟨interval.start, numJournalBlocks - interval.start⟩
      let interval2 : JournalInterval :=
        ⟨0, interval.len - (numJournalBlocks - interval.start)⟩
      s' = { s with
        reqWriteJournals := (s.reqWriteJournals.insert id1 interval1).insert second interval2
        journal := s'.journal })

section

variable (s s' : Variables) (id : ReqId)

/-- The answer is what the disk holds, or nothing if it is corrupt. -/
def AckReadSuperblock (which : Fin 2) (superblock : Option Superblock) : Prop :=
  id ∈ s.reqReadSuperblock which ∧
  (superblock ≠ none → superblock = s.superblock which) ∧
  s' = { s with reqReadSuperblock :=
    Function.update s.reqReadSuperblock which ((s.reqReadSuperblock which).erase id) }

def AckReadJournal (journal : Option JournalRange) : Prop :=
  ∃ interval, s.reqReadJournals.lookup id = some interval ∧
    ContiguousJournalInterval interval ∧
    (journal ≠ none → diskJournalRange s.journal interval = journal) ∧
    s' = { s with reqReadJournals := s.reqReadJournals.erase id }

/-- A superblock write is acknowledged only once it has reached the disk. -/
def AckWriteSuperblock (which : Fin 2) : Prop :=
  ∃ pending, s.reqWriteSuperblock which = some pending ∧
    id = pending.id ∧
    some pending.req.superblock = s.superblock which ∧
    s' = { s with reqWriteSuperblock := Function.update s.reqWriteSuperblock which none }

def AckWriteJournal : Prop :=
  s.reqWriteJournals.lookup id ≠ none ∧
  s' = { s with reqWriteJournals := s.reqWriteJournals.erase id }

end

def Next (s s' : Variables) : DiskOp → Prop
  | .reqReadSuperblockOp id which => RecvReadSuperblock s s' id which
  | .reqReadJournalOp id interval => RecvReadJournal s s' id interval
  | .reqWriteSuperblockOp id which req => RecvWriteSuperblock s s' id which req
  | .reqWriteJournalOp id1 id2 req => RecvWriteJournal s s' id1 id2 req
  | .respReadSuperblockOp id which superblock => AckReadSuperblock s s' id which superblock
  | .respReadJournalOp id journal => AckReadJournal s s' id journal
  | .respWriteSuperblockOp id which => AckWriteSuperblock s s' id which
  | .respWriteJournalOp id => AckWriteJournal s s' id
  | .noDiskOp => s' = s

/-- What the disk does on its own. -/
inductive InternalStep where
  | processWriteSuperblockStep (which : Fin 2)

/-- The pending superblock write reaches the disk. -/
def ProcessWriteSuperblock (s s' : Variables) (which : Fin 2) : Prop :=
  ∃ pending, s.reqWriteSuperblock which = some pending ∧
    s' = { s with
      superblock := Function.update s.superblock which (some pending.req.superblock) }

def NextInternalStep (s s' : Variables) : InternalStep → Prop
  | .processWriteSuperblockStep which => ProcessWriteSuperblock s s' which

def JournalUntouched (i : Nat) (reqWriteJournals : FiniteMap ReqId JournalInterval) : Prop :=
  ∀ id interval, reqWriteJournals.lookup id = some interval → ¬ InCyclicRange i interval

/-- Blocks that no write touches are kept. -/
def HavocJournal (journal journal' : List (Option JournalBlock))
    (reqWriteJournals : FiniteMap ReqId JournalInterval) : Prop :=
  journal'.length = journal.length ∧
  ∀ i < journal.length, JournalUntouched i reqWriteJournals → journal[i]? = journal'[i]?

/-- Requests are lost, and blocks that were being written may hold anything. -/
structure Crash (s s' : Variables) : Prop where
  idle : Idle s'
  superblock : s'.superblock = s.superblock
  journal : HavocJournal s.journal s'.journal s.reqWriteJournals

end VerifiedBetrfs.JournalDisk
