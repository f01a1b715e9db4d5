import VerifiedBetrfs.JournalCache
import Mathlib.Algebra.Group.Int.Defs

/-!
# The journal cache attached to its disk

The journals that the system stands for are read off the disk.  A function of the source that has a
precondition is `none` where it fails.
-/

namespace VerifiedBetrfs.JournalSystem

open DiskLayout SectorType Journal JournalRanges JournalIntervals ViewOp JournalDisk JournalCache

/-- The cache and the disk. -/
structure Variables where
  machine : JournalCache.Variables
  disk : JournalDisk.Variables

def diskHasSuperblock (disk : JournalDisk.Variables) (which : Fin 2) : Option Superblock :=
  (disk.superblock which).filter fun superblock => WFSuperblock superblock

/-- The superblock that a crash falls back to. -/
def superblockOfDisk (disk : JournalDisk.Variables) : Option Superblock :=
  newerSuperblock (diskHasSuperblock disk)

/-- Both superblocks are well formed. -/
def WFDisk (disk : JournalDisk.Variables) : Prop :=
  ∀ which, ∃ superblock, disk.superblock which = some superblock ∧ WFSuperblock superblock

def journalIntervalOfSuperblock (superblock : Superblock) : JournalInterval :=
  ⟨superblock.journalStart, superblock.journalLen⟩

section

variable (s : Variables)

/-- The journal that a crash falls back to. -/
def persistentJournal : Option (List JournalEntry) :=
  (superblockOfDisk s.disk).bind fun onDisk =>
    diskJournal s.disk.journal (journalIntervalOfSuperblock onDisk)

def frozenStartPos (onDisk : Superblock) : Nat :=
  match s.machine with
  | .ready r =>
    if r.isFrozen then journalPosAdd r.superblock.journalStart r.frozenJournalPosition
    else r.superblock.journalStart
  | _ => onDisk.journalStart

def frozenLen (onDisk : Superblock) : Nat :=
  match s.machine with
  | .ready r =>
    if r.isFrozen then r.writtenJournalLen - r.frozenJournalPosition else r.writtenJournalLen
  | _ => onDisk.journalLen

/-- The journal of the frozen version. -/
def frozenJournal : Option (List JournalEntry) :=
  (superblockOfDisk s.disk).bind fun onDisk =>
    diskJournal s.disk.journal ⟨frozenStartPos s onDisk, frozenLen s onDisk⟩

/-- The journal of the ephemeral version. -/
def ephemeralJournal : Option (List JournalEntry) :=
  match s.machine with
  | .ready r => some r.replayJournal
  | _ => persistentJournal s

end

/-- The superblock of the commit has reached the disk, and the cache has not
heard of it. -/
def HasUpdateOccurredUnacked (r : Ready) (disk : JournalDisk.Variables) : Prop :=
  r.newSuperblock ≠ none ∧ disk.superblock (otherSuperblock r.whichSuperblock) = r.newSuperblock

instance (r : Ready) (disk : JournalDisk.Variables) :
    Decidable (HasUpdateOccurredUnacked r disk) :=
  inferInstanceAs (Decidable (_ ∧ _))

def HasLocationUpdateOccurredUnacked (r : Ready) (disk : JournalDisk.Variables) : Prop :=
  HasUpdateOccurredUnacked r disk ∧ r.commitStatus = .commitAdvanceLocation

instance (r : Ready) (disk : JournalDisk.Variables) :
    Decidable (HasLocationUpdateOccurredUnacked r disk) :=
  inferInstanceAs (Decidable (_ ∧ _))

section

variable (s : Variables)

def gammaLen (onDisk : Superblock) : Nat :=
  match s.machine with
  | .ready r =>
    if HasLocationUpdateOccurredUnacked r s.disk then
      r.writtenJournalLen - r.frozenJournalPosition
    else r.writtenJournalLen
  | _ => onDisk.journalLen

/-- The log on disk, up to the last block sent. -/
def gammaLog : Option (List JournalEntry) :=
  (superblockOfDisk s.disk).bind fun onDisk =>
    diskJournal s.disk.journal ⟨onDisk.journalStart, gammaLen s onDisk⟩

/-- The journal on disk, and what is about to be written. -/
def gammaJournal : Option (List JournalEntry) :=
  match s.machine with
  | .ready r => (gammaLog s).map (· ++ r.inMemoryJournalFrozen)
  | _ => gammaLog s

/-- What is in memory after the freeze. -/
def deltaJournal : List JournalEntry :=
  match s.machine with
  | .ready r => r.inMemoryJournal
  | _ => []

def persistentLoc : Option Location := (superblockOfDisk s.disk).map Superblock.indirectionTableLoc

def frozenLoc : Option Location :=
  match s.machine with
  | .ready r => r.frozenLoc
  | _ => none

/-- A superblock may be on disk before the cache hears about it.  A request in the second state is
then in fact in the first. -/
def syncReqState (status : JournalCache.SyncReqStatus) : ThreeStateTypes.SyncReqStatus :=
  match status with
  | .state1 => .state1
  | .state2 =>
    match s.machine with
    | .ready r => if HasUpdateOccurredUnacked r s.disk then .state1 else .state2
    | _ => .state2
  | .state3 => .state3

end

/-- The requests of a map over machine words, each status read by `state`. -/
def syncReqsOf (reqs : JournalCache.SyncReqs)
    (state : JournalCache.SyncReqStatus → ThreeStateTypes.SyncReqStatus) :
    ThreeStateTypes.SyncReqs := fun id =>
  if 0 ≤ id ∧ id < 2 ^ 64 then (reqs.lookup (UInt64.ofNat id.toNat)).map state else none

def syncReqs (s : Variables) : ThreeStateTypes.SyncReqs :=
  syncReqsOf s.machine.syncReqs (syncReqState s)

/-- The journal view that a state stands for. -/
def I (s : Variables) : Option JournalView.Variables :=
  (persistentJournal s).bind fun j1 =>
    (frozenJournal s).bind fun j2 =>
      (ephemeralJournal s).bind fun j3 =>
        (gammaJournal s).bind fun jGamma =>
          (persistentLoc s).map fun loc =>
            ⟨j1, j2, j3, jGamma, deltaJournal s, loc, frozenLoc s, syncReqs s⟩

/-- A cache that knows nothing, and superblocks of an empty journal. -/
structure Init (s : Variables) (loc : Location) : Prop where
  machine : JournalCache.Init s.machine
  disk : JournalDisk.Init s.disk
  wfDisk : WFDisk s.disk
  superblock : ∃ onDisk, superblockOfDisk s.disk = some onDisk ∧
    onDisk.journalStart = 0 ∧ onDisk.journalLen = 0 ∧ onDisk.indirectionTableLoc = loc

/-- A step of the cache with the disk, of the disk alone, or a crash. -/
inductive Step where
  | machineStep (dop : DiskOp) (machineStep : JournalCache.Step)
  | diskInternalStep (step : InternalStep)
  | crashStep

section

variable (s s' : Variables)

def Machine (dop : DiskOp) (vop : VOp) (machineStep : JournalCache.Step) : Prop :=
  JournalCache.NextStep s.machine s'.machine dop vop machineStep ∧
  JournalDisk.Next s.disk s'.disk dop

def DiskInternal (step : InternalStep) (vop : VOp) : Prop :=
  s'.machine = s.machine ∧
  NextInternalStep s.disk s'.disk step ∧
  vop = .journalInternalOp

def Crash (vop : VOp) : Prop :=
  vop = .crashOp ∧
  JournalCache.Init s'.machine ∧
  JournalDisk.Crash s.disk s'.disk

def NextStep (vop : VOp) : Step → Prop
  | .machineStep dop machineStep => Machine s s' dop vop machineStep
  | .diskInternalStep step => DiskInternal s s' step vop
  | .crashStep => Crash s s' vop

def Next (vop : VOp) : Prop := ∃ step, NextStep s s' vop step

end

/-- A pending journal write is to a part of the log that no superblock names yet. -/
def CorrectInflightJournalWrite (r : Ready) (interval : JournalInterval) : Prop :=
  ValidJournalInterval interval ∧
  Subinterval interval
    ⟨journalPosAdd r.superblock.journalStart r.superblock.journalLen,
      r.writtenJournalLen - r.superblock.journalLen⟩ ∧
  r.newSuperblock = none

def CorrectInflightSuperblockWrites (r : Ready) (disk : JournalDisk.Variables) : Prop :=
  ∀ id, r.superblockWrite = some id →
    ∃ newSuperblock, r.newSuperblock = some newSuperblock ∧
      disk.reqWriteSuperblock (otherSuperblock r.whichSuperblock) = some ⟨id, ⟨newSuperblock⟩⟩

/-- The superblocks and the journal on disk are those that the cache knows. -/
structure InvReady (r : Ready) (disk : JournalDisk.Variables) : Prop where
  selected : superblockOfDisk disk = some r.superblock ∨
    (r.newSuperblock ≠ none ∧ superblockOfDisk disk = r.newSuperblock)
  journalWrites : ∀ id ∈ r.outstandingJournalWrites, ∀ interval,
    disk.reqWriteJournals.lookup id = some interval → CorrectInflightJournalWrite r interval
  superblockWrites : CorrectInflightSuperblockWrites r disk
  current : disk.superblock r.whichSuperblock = some r.superblock

/-- What has been read of the superblocks is on disk. -/
structure InvLoadingSuperblock (l : LoadingSuperblock) (disk : JournalDisk.Variables) :
    Prop where
  success : ∀ which superblock, l.superblock which = .superblockSuccess superblock →
    disk.superblock which = some superblock

/-- What is known of one of the two parts of the journal that are loaded. -/
def LoadedPart (disk : JournalDisk.Variables) (interval : Option JournalInterval)
    (read : Option ReqId) (loaded : Option JournalRange) : Prop :=
  (∀ id requested, read = some id → disk.reqReadJournals.lookup id = some requested →
    interval = some requested) ∧
  (∀ jr, loaded = some jr →
    read = none ∧ ∃ part, interval = some part ∧ diskJournalRange disk.journal part = some jr)

/-- What has been read of the journal is on disk. -/
structure InvLoadingOther (l : LoadingOther) (disk : JournalDisk.Variables) : Prop where
  selected : superblockOfDisk disk = some l.superblock
  front : LoadedPart disk (journalFrontIntervalOfSuperblock l.superblock) l.journalFrontRead
    l.journalFront
  back : LoadedPart disk (journalBackIntervalOfSuperblock l.superblock) l.journalBackRead
    l.journalBack
  readsDiffer : ∀ id, l.journalFrontRead = some id → l.journalBackRead ≠ some id
  current : disk.superblock l.whichSuperblock = some l.superblock

def WriteJournalRequestsDontOverlap (reqWrites : FiniteMap ReqId JournalInterval) : Prop :=
  (∀ id interval, reqWrites.lookup id = some interval → ContiguousJournalInterval interval) ∧
  ∀ id id' interval interval', reqWrites.lookup id = some interval →
    reqWrites.lookup id' = some interval' → journalIntervalOverlap interval interval' → id = id'

def ReadWritesJournalDontOverlap (reqReads reqWrites : FiniteMap ReqId JournalInterval) : Prop :=
  (∀ id interval, reqReads.lookup id = some interval → ContiguousJournalInterval interval) ∧
  ∀ id id' interval interval', reqReads.lookup id = some interval →
    reqWrites.lookup id' = some interval' → ¬ journalIntervalOverlap interval interval'

/-- Every request on the disk's queue is one that the cache waits for. -/
structure RecordedRequests (s : Variables) : Prop where
  superblockWrites : ∀ which pending, s.disk.reqWriteSuperblock which = some pending →
    RecordsSuperblockWrite s.machine pending.id
  superblockWritesDiffer : ∀ pending pending', s.disk.reqWriteSuperblock 0 = some pending →
    s.disk.reqWriteSuperblock 1 = some pending' → pending.id ≠ pending'.id
  journalWrites : ∀ id interval, s.disk.reqWriteJournals.lookup id = some interval →
    RecordsJournalWrite s.machine id
  superblockReads : ∀ which, ∀ id ∈ s.disk.reqReadSuperblock which,
    ∃ l slot, s.machine = .loadingSuperblock l ∧ l.outstandingSuperblockRead slot = some id
  superblockReadsDiffer : Disjoint (s.disk.reqReadSuperblock 0) (s.disk.reqReadSuperblock 1)
  journalReads : ∀ id interval, s.disk.reqReadJournals.lookup id = some interval →
    ∃ l, s.machine = .loadingOther l ∧
      (l.journalFrontRead = some id ∨ l.journalBackRead = some id)

/-- The invariant of the cache with the disk. -/
structure Inv (s : Variables) : Prop where
  cache : JournalCache.Inv s.machine
  wfDisk : WFDisk s.disk
  ready : ∀ r, s.machine = .ready r → InvReady r s.disk
  loadingSuperblock : ∀ l, s.machine = .loadingSuperblock l → InvLoadingSuperblock l s.disk
  loadingOther : ∀ l, s.machine = .loadingOther l → InvLoadingOther l s.disk
  writesDontOverlap : WriteJournalRequestsDontOverlap s.disk.reqWriteJournals
  readsDontOverlap : ReadWritesJournalDontOverlap s.disk.reqReadJournals s.disk.reqWriteJournals
  recorded : RecordedRequests s
  persistentJournal : persistentJournal s ≠ none
  frozenJournal : frozenJournal s ≠ none
  ephemeralJournal : ephemeralJournal s ≠ none
  gammaJournal : gammaJournal s ≠ none
  journalLength : s.disk.journal.length = numJournalBlocks

end VerifiedBetrfs.JournalSystem
