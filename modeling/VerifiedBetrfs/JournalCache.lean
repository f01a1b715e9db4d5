import VerifiedBetrfs.JournalDisk
import VerifiedBetrfs.Views

/-!
# The journal cache

The machine that loads the journal after a crash, writes its blocks, and commits them by writing a
superblock.
-/

namespace VerifiedBetrfs.JournalCache

open DiskLayout SectorType Journal JournalRanges JournalIntervals ViewOp
open JournalDisk (ReqId DiskOp)

/-- How much of a sync request is on disk. -/
inductive SyncReqStatus where
  | state1
  | state2
  | state3
deriving DecidableEq

/-- What has been read of a superblock. -/
inductive SuperblockReadResult where
  | superblockSuccess (value : Superblock)
  | superblockUnfinished
  | superblockCorruption
deriving DecidableEq

/-- What the commit on its way is for. -/
inductive CommitStatus where
  | commitNone
  | commitAdvanceLog
  | commitAdvanceLocation
deriving DecidableEq

abbrev SyncReqs := FiniteMap UInt64 SyncReqStatus

/-- The cache once the journal has been loaded. -/
structure Ready where
  frozenLoc : Option Location
  isFrozen : Bool
  frozenJournalPosition : Nat
  superblockWrite : Option ReqId
  inMemoryJournalFrozen : List JournalEntry
  inMemoryJournal : List JournalEntry
  outstandingJournalWrites : Finset ReqId
  writtenJournalLen : Nat
  replayJournal : List JournalEntry
  superblock : Superblock
  whichSuperblock : Fin 2
  commitStatus : CommitStatus
  newSuperblock : Option Superblock
  syncReqs : SyncReqs

/-- The cache while it reads the journal. -/
structure LoadingOther where
  superblock : Superblock
  whichSuperblock : Fin 2
  journalFrontRead : Option ReqId
  journalBackRead : Option ReqId
  journalFront : Option JournalRange
  journalBack : Option JournalRange
  syncReqs : SyncReqs

/-- The cache while it reads the superblocks. -/
structure LoadingSuperblock where
  outstandingSuperblockRead : Fin 2 → Option ReqId
  superblock : Fin 2 → SuperblockReadResult
  syncReqs : SyncReqs

/-- The phases of the cache. -/
inductive Variables where
  | ready (r : Ready)
  | loadingOther (l : LoadingOther)
  | loadingSuperblock (l : LoadingSuperblock)

def Variables.syncReqs : Variables → SyncReqs
  | .ready r => r.syncReqs
  | .loadingOther l | .loadingSuperblock l => l.syncReqs

def Variables.setSyncReqs (syncReqs : SyncReqs) : Variables → Variables
  | .ready r => .ready { r with syncReqs }
  | .loadingOther l => .loadingOther { l with syncReqs }
  | .loadingSuperblock l => .loadingSuperblock { l with syncReqs }

/-- The counter goes round. -/
def incrementSuperblockCounter (i : UInt64) : UInt64 :=
  if i = 0xffffffffffffffff then 0 else i + 1

def Increments1 (i j : UInt64) : Prop := j = incrementSuperblockCounter i

instance (i j : UInt64) : Decidable (Increments1 i j) := inferInstanceAs (Decidable (_ = _))

def selectSuperblockIndex (superblock1 superblock2 : Superblock) : Fin 2 :=
  if Increments1 superblock1.counter superblock2.counter then 1 else 0

/-- The second superblock if it comes right after the first in the count, which goes round. -/
def selectSuperblock (superblock1 superblock2 : Superblock) : Superblock :=
  if selectSuperblockIndex superblock1 superblock2 = 1 then superblock2 else superblock1

/-- The newer of the two superblocks, if both are there. -/
def newerSuperblock (superblock : Fin 2 → Option Superblock) : Option Superblock :=
  (superblock 0).bind fun superblock1 => (superblock 1).map (selectSuperblock superblock1)

/-- The superblock that the next commit overwrites. -/
def otherSuperblock (which : Fin 2) : Fin 2 := if which = 0 then 1 else 0

/-- The journal and the table are inside their areas. -/
structure WFSuperblock (superblock : Superblock) : Prop where
  start : superblock.journalStart < numJournalBlocks
  len : superblock.journalLen ≤ numJournalBlocks
  loc : ValidIndirectionTableLocation superblock.indirectionTableLoc

instance (superblock : Superblock) : Decidable (WFSuperblock superblock) :=
  decidable_of_iff (superblock.journalStart < numJournalBlocks ∧
      superblock.journalLen ≤ numJournalBlocks ∧
      ValidIndirectionTableLocation superblock.indirectionTableLoc)
    ⟨fun ⟨start, len, loc⟩ => ⟨start, len, loc⟩, fun wf => ⟨wf.start, wf.len, wf.loc⟩⟩

def journalFrontIntervalOfSuperblock (superblock : Superblock) : Option JournalInterval :=
  journalFrontInterval superblock.journalStart superblock.journalLen

def journalBackIntervalOfSuperblock (superblock : Superblock) : Option JournalInterval :=
  journalBackInterval superblock.journalStart superblock.journalLen

def syncReqs3to2 (syncReqs : SyncReqs) : SyncReqs :=
  syncReqs.filterMap fun status => some (if status = .state3 then .state2 else status)

def syncReqs2to1 (syncReqs : SyncReqs) : SyncReqs :=
  syncReqs.filterMap fun status => some (if status = .state2 then .state1 else status)

/-- The steps of the cache. -/
inductive Step where
  | writeBackJournalReqStep (jr : JournalRange)
  | writeBackJournalRespStep
  | writeBackSuperblockReqAdvanceLogStep
  | writeBackSuperblockReqAdvanceLocationStep
  | writeBackSuperblockRespStep
  | pageInJournalReqStep (which : Fin 2)
  | pageInJournalRespStep (which : Fin 2)
  | pageInSuperblockReqStep (which : Fin 2)
  | pageInSuperblockRespStep (which : Fin 2)
  | finishLoadingSuperblockPhaseStep
  | finishLoadingOtherPhaseStep
  | freezeStep
  | receiveFrozenLocStep
  | advanceStep
  | replayStep
  | pushSyncReqStep (id : UInt64)
  | popSyncReqStep (id : UInt64)
  | noOpStep

/-- The entries that the next journal write takes: the frozen ones first. -/
def Ready.nextToWrite (r : Ready) : List JournalEntry :=
  if r.inMemoryJournalFrozen = [] then r.inMemoryJournal else r.inMemoryJournalFrozen

/-- The cache after it has sent the blocks `jr` to the disk. -/
def Ready.journalWritten (r : Ready) (jr : JournalRange) (ids : Finset ReqId) : Ready :=
  { r with
    outstandingJournalWrites := r.outstandingJournalWrites ∪ ids
    writtenJournalLen := r.writtenJournalLen + jr.length
    frozenJournalPosition :=
      if r.inMemoryJournalFrozen = [] then r.frozenJournalPosition
      else r.writtenJournalLen + jr.length
    inMemoryJournal := if r.inMemoryJournalFrozen = [] then [] else r.inMemoryJournal
    inMemoryJournalFrozen := []
    syncReqs :=
      if r.inMemoryJournalFrozen = [] then syncReqs3to2 r.syncReqs else r.syncReqs }

def writeIds (id1 : ReqId) (id2 : Option ReqId) : Finset ReqId :=
  match id2 with
  | some id2 => {id1, id2}
  | none => {id1}

/-- Entries are sent to the end of the log. -/
def WriteBackJournalReq (s s' : Variables) (dop : DiskOp) (vop : VOp) (jr : JournalRange) :
    Prop :=
  ∃ r id1 id2, s = .ready r ∧
    vop = .journalInternalOp ∧
    JournalRangeParses jr r.nextToWrite ∧
    jr.length + r.writtenJournalLen ≤ numJournalBlocks ∧
    0 < jr.length ∧
    r.superblockWrite = none ∧
    r.superblock.journalStart < numJournalBlocks ∧
    r.writtenJournalLen ≤ numJournalBlocks ∧
    dop = .reqWriteJournalOp id1 id2
      ⟨journalPosAdd r.superblock.journalStart r.writtenJournalLen, jr⟩ ∧
    s' = .ready (r.journalWritten jr (writeIds id1 id2))

/-- Blocks of the journal have been written. -/
def WriteBackJournalResp (s s' : Variables) (dop : DiskOp) (vop : VOp) : Prop :=
  ∃ r id, s = .ready r ∧
    vop = .journalInternalOp ∧
    dop = .respWriteJournalOp id ∧
    id ∈ r.outstandingJournalWrites ∧
    s' = .ready { r with outstandingJournalWrites := r.outstandingJournalWrites.erase id }

/-- The superblock of a commit that extends the log. -/
def Ready.advancedLog (r : Ready) : Superblock :=
  ⟨incrementSuperblockCounter r.superblock.counter, r.superblock.journalStart,
    r.writtenJournalLen, r.superblock.indirectionTableLoc⟩

/-- The superblock of a commit that moves on to the frozen location. -/
def Ready.advancedLocation (r : Ready) (loc : Location) : Superblock :=
  ⟨incrementSuperblockCounter r.superblock.counter,
    journalPosAdd r.superblock.journalStart r.frozenJournalPosition,
    r.writtenJournalLen - r.frozenJournalPosition, loc⟩

/-- The cache after it has sent the superblock of a commit. -/
def Ready.committing (r : Ready) (id : ReqId) (newSuperblock : Superblock)
    (commitStatus : CommitStatus) : Ready :=
  { r with newSuperblock := some newSuperblock, superblockWrite := some id, commitStatus }

/-- A commit of the whole log is sent. -/
def WriteBackSuperblockReqAdvanceLog (s s' : Variables) (dop : DiskOp) (vop : VOp) : Prop :=
  ∃ r id, s = .ready r ∧
    vop = .journalInternalOp ∧
    r.commitStatus = .commitNone ∧
    r.outstandingJournalWrites = ∅ ∧
    r.inMemoryJournalFrozen = [] ∧
    r.writtenJournalLen ≤ numJournalBlocks ∧
    dop = .reqWriteSuperblockOp id (otherSuperblock r.whichSuperblock) ⟨r.advancedLog⟩ ∧
    s' = .ready (r.committing id r.advancedLog .commitAdvanceLog)

/-- A commit of the frozen location is sent. -/
def WriteBackSuperblockReqAdvanceLocation (s s' : Variables) (dop : DiskOp) (vop : VOp) : Prop :=
  ∃ r id loc, s = .ready r ∧
    vop = .journalInternalOp ∧
    r.frozenLoc = some loc ∧
    r.commitStatus = .commitNone ∧
    r.outstandingJournalWrites = ∅ ∧
    r.inMemoryJournalFrozen = [] ∧
    r.superblock.journalStart < numJournalBlocks ∧
    r.frozenJournalPosition ≤ r.writtenJournalLen ∧
    r.writtenJournalLen ≤ numJournalBlocks ∧
    dop = .reqWriteSuperblockOp id (otherSuperblock r.whichSuperblock)
      ⟨r.advancedLocation loc⟩ ∧
    s' = .ready (r.committing id (r.advancedLocation loc) .commitAdvanceLocation)

/-- The cache after a commit that extended the log. -/
def Ready.logCommitted (r : Ready) (newSuperblock : Superblock) : Ready :=
  { r with
    superblockWrite := none
    superblock := newSuperblock
    newSuperblock := none
    whichSuperblock := otherSuperblock r.whichSuperblock
    syncReqs := syncReqs2to1 r.syncReqs
    commitStatus := .commitNone }

/-- The cache after a commit that moved on to the frozen location. -/
def Ready.locationCommitted (r : Ready) (newSuperblock : Superblock) : Ready :=
  { r with
    superblockWrite := none
    superblock := newSuperblock
    newSuperblock := none
    whichSuperblock := otherSuperblock r.whichSuperblock
    syncReqs := syncReqs2to1 r.syncReqs
    writtenJournalLen := r.writtenJournalLen - r.frozenJournalPosition
    frozenJournalPosition := 0
    frozenLoc := none
    isFrozen := false
    commitStatus := .commitNone }

section

variable (s s' : Variables) (dop : DiskOp) (vop : VOp)

/-- The commit has been written. -/
def WriteBackSuperblockResp : Prop :=
  ∃ r r' id which newSuperblock, s = .ready r ∧
    dop = .respWriteSuperblockOp id which ∧
    some id = r.superblockWrite ∧
    r.newSuperblock = some newSuperblock ∧
    s' = .ready r' ∧
    (r.commitStatus = .commitAdvanceLocation →
      vop = .cleanUpOp ∧ r' = r.locationCommitted newSuperblock) ∧
    (r.commitStatus = .commitAdvanceLog →
      vop = .journalInternalOp ∧ r' = r.logCommitted newSuperblock)

/-- The journal goes round, so to load the log we may have to read back two chunks. -/
def PageInJournalReq (which : Fin 2) : Prop :=
  ∃ l id interval, s = .loadingOther l ∧
    vop = .journalInternalOp ∧
    dop = .reqReadJournalOp id interval ∧
    l.superblock.journalStart < numJournalBlocks ∧
    l.superblock.journalLen ≤ numJournalBlocks ∧
    (which = 0 →
      journalFrontIntervalOfSuperblock l.superblock = some interval ∧
      l.journalFrontRead = none ∧
      l.journalFront = none ∧
      s' = .loadingOther { l with
        journalFrontRead := some id
        journalBackRead := if l.journalBackRead = some id then none else l.journalBackRead }) ∧
    (which = 1 →
      journalBackIntervalOfSuperblock l.superblock = some interval ∧
      l.journalBackRead = none ∧
      l.journalBack = none ∧
      s' = .loadingOther { l with
        journalBackRead := some id
        journalFrontRead := if l.journalFrontRead = some id then none else l.journalFrontRead })

def PageInJournalResp (which : Fin 2) : Prop :=
  ∃ l id journal, s = .loadingOther l ∧
    vop = .journalInternalOp ∧
    dop = .respReadJournalOp id (some journal) ∧
    (which = 0 →
      l.journalFrontRead = some id ∧
      s' = .loadingOther { l with journalFrontRead := none, journalFront := some journal }) ∧
    (which = 1 →
      l.journalBackRead = some id ∧
      s' = .loadingOther { l with journalBackRead := none, journalBack := some journal })

/-- A superblock is asked for. -/
def PageInSuperblockReq (which : Fin 2) : Prop :=
  ∃ l id, s = .loadingSuperblock l ∧
    vop = .journalInternalOp ∧
    dop = .reqReadSuperblockOp id which ∧
    l.outstandingSuperblockRead which = none ∧
    l.superblock which = .superblockUnfinished ∧
    s' = .loadingSuperblock { l with
      outstandingSuperblockRead := Function.update l.outstandingSuperblockRead which (some id) }

end

/-- What the cache makes of the answer to a superblock read. -/
def readResult (superblock : Option Superblock) : SuperblockReadResult :=
  match superblock with
  | some superblock =>
    if WFSuperblock superblock then .superblockSuccess superblock else .superblockCorruption
  | none => .superblockCorruption

def PageInSuperblockResp (s s' : Variables) (dop : DiskOp) (vop : VOp) (which : Fin 2) : Prop :=
  ∃ l id superblock, s = .loadingSuperblock l ∧
    vop = .journalInternalOp ∧
    dop = .respReadSuperblockOp id which superblock ∧
    l.outstandingSuperblockRead which = some id ∧
    s' = .loadingSuperblock { l with
      outstandingSuperblockRead := Function.update l.outstandingSuperblockRead which none
      superblock := Function.update l.superblock which (readResult superblock) }

/-- The newer superblock is selected. -/
def FinishLoadingSuperblockPhase (s s' : Variables) (dop : DiskOp) (vop : VOp) : Prop :=
  ∃ l superblock1 superblock2, s = .loadingSuperblock l ∧
    dop = .noDiskOp ∧
    l.superblock 0 = .superblockSuccess superblock1 ∧
    l.superblock 1 = .superblockSuccess superblock2 ∧
    vop = .sendPersistentLocOp
      (selectSuperblock superblock1 superblock2).indirectionTableLoc ∧
    s' = .loadingOther {
      superblock := selectSuperblock superblock1 superblock2
      whichSuperblock := selectSuperblockIndex superblock1 superblock2
      journalFrontRead := none
      journalBackRead := none
      journalFront := none
      journalBack := none
      syncReqs := l.syncReqs }

/-- The blocks of the journal that have been loaded. -/
def LoadingOther.fullRange (l : LoadingOther) : JournalRange :=
  if journalBackIntervalOfSuperblock l.superblock ≠ none then
    l.journalFront.getD [] ++ l.journalBack.getD []
  else if journalFrontIntervalOfSuperblock l.superblock ≠ none then
    l.journalFront.getD []
  else []

/-- The cache once everything is loaded. -/
def LoadingOther.finished (l : LoadingOther) (replayJournal : List JournalEntry)
    (frozenJournalPosition : Nat) : Ready where
  frozenLoc := none
  isFrozen := false
  frozenJournalPosition
  superblockWrite := none
  inMemoryJournalFrozen := []
  inMemoryJournal := []
  outstandingJournalWrites := ∅
  writtenJournalLen := l.superblock.journalLen
  replayJournal
  superblock := l.superblock
  whichSuperblock := l.whichSuperblock
  commitStatus := .commitNone
  newSuperblock := none
  syncReqs := l.syncReqs

/-- Nothing is frozen yet, so the frozen position may be any number. -/
def FinishLoadingOtherPhase (s s' : Variables) (dop : DiskOp) (vop : VOp) : Prop :=
  ∃ l replayJournal frozenJournalPosition, s = .loadingOther l ∧
    vop = .journalInternalOp ∧
    dop = .noDiskOp ∧
    l.superblock.journalStart < numJournalBlocks ∧
    l.superblock.journalLen ≤ numJournalBlocks ∧
    (journalFrontIntervalOfSuperblock l.superblock ≠ none → l.journalFront ≠ none) ∧
    (journalBackIntervalOfSuperblock l.superblock ≠ none → l.journalBack ≠ none) ∧
    JournalRangeParses l.fullRange replayJournal ∧
    s' = .ready (l.finished replayJournal frozenJournalPosition)

/-- The cache after a freeze. -/
def Ready.frozen (r : Ready) : Ready :=
  { r with
    frozenLoc := none
    inMemoryJournalFrozen := r.inMemoryJournalFrozen ++ r.inMemoryJournal
    inMemoryJournal := []
    frozenJournalPosition := r.writtenJournalLen
    syncReqs := syncReqs3to2 r.syncReqs
    isFrozen := true }

section

variable (s s' : Variables) (dop : DiskOp) (vop : VOp)

/-- What is in memory becomes part of the frozen version. -/
def Freeze : Prop :=
  ∃ r, s = .ready r ∧
    vop = .freezeOp ∧
    dop = .noDiskOp ∧
    r.superblockWrite = none ∧
    r.frozenLoc ≠ some r.superblock.indirectionTableLoc ∧
    r.replayJournal = [] ∧
    s' = .ready r.frozen

def ReceiveFrozenLoc : Prop :=
  ∃ r loc, s = .ready r ∧
    vop = .sendFrozenLocOp loc ∧
    dop = .noDiskOp ∧
    r.isFrozen = true ∧
    r.frozenLoc = none ∧
    ValidIndirectionTableLocation loc ∧
    s' = .ready { r with frozenLoc := some loc }

/-- The entries of an operation are appended. -/
def Advance : Prop :=
  ∃ r uiop, s = .ready r ∧
    vop = .advanceOp uiop false ∧
    dop = .noDiskOp ∧
    r.replayJournal = [] ∧
    s' = .ready { r with inMemoryJournal := r.inMemoryJournal ++ journalEntriesForUIOp uiop }

/-- An operation of the journal is replayed. -/
def Replay : Prop :=
  ∃ r uiop replayJournal, s = .ready r ∧
    vop = .advanceOp uiop true ∧
    dop = .noDiskOp ∧
    r.replayJournal = journalEntriesForUIOp uiop ++ replayJournal ∧
    s' = .ready { r with replayJournal }

def PushSyncReq (id : UInt64) : Prop :=
  vop = .pushSyncOp id.toNat ∧
  dop = .noDiskOp ∧
  s.syncReqs.lookup id = none ∧
  s' = s.setSyncReqs (s.syncReqs.insert id .state3)

def PopSyncReq (id : UInt64) : Prop :=
  vop = .popSyncOp id.toNat ∧
  dop = .noDiskOp ∧
  s.syncReqs.lookup id = some .state1 ∧
  s' = s.setSyncReqs (s.syncReqs.erase id)

end

def RecordsSuperblockWrite (s : Variables) (id : ReqId) : Prop :=
  ∃ r, s = .ready r ∧ r.superblockWrite = some id

def RecordsJournalWrite (s : Variables) (id : ReqId) : Prop :=
  ∃ r, s = .ready r ∧ id ∈ r.outstandingJournalWrites

/-- Answers to reads, and to writes that the cache does not know of, may be ignored. -/
def NoOp (s s' : Variables) (dop : DiskOp) (vop : VOp) : Prop :=
  (vop = .journalInternalOp ∨ vop = .statesInternalOp) ∧
  (dop = .noDiskOp ∨
    (∃ id which superblock, dop = .respReadSuperblockOp id which superblock) ∨
    (∃ id journal, dop = .respReadJournalOp id journal) ∨
    (∃ id which, dop = .respWriteSuperblockOp id which ∧ ¬ RecordsSuperblockWrite s id) ∨
    (∃ id, dop = .respWriteJournalOp id ∧ ¬ RecordsJournalWrite s id)) ∧
  s' = s

def Init (s : Variables) : Prop :=
  s = .loadingSuperblock ⟨fun _ => none, fun _ => .superblockUnfinished, .empty⟩

def NextStep (s s' : Variables) (dop : DiskOp) (vop : VOp) : Step → Prop
  | .writeBackJournalReqStep jr => WriteBackJournalReq s s' dop vop jr
  | .writeBackJournalRespStep => WriteBackJournalResp s s' dop vop
  | .writeBackSuperblockReqAdvanceLogStep => WriteBackSuperblockReqAdvanceLog s s' dop vop
  | .writeBackSuperblockReqAdvanceLocationStep =>
    WriteBackSuperblockReqAdvanceLocation s s' dop vop
  | .writeBackSuperblockRespStep => WriteBackSuperblockResp s s' dop vop
  | .pageInJournalReqStep which => PageInJournalReq s s' dop vop which
  | .pageInJournalRespStep which => PageInJournalResp s s' dop vop which
  | .pageInSuperblockReqStep which => PageInSuperblockReq s s' dop vop which
  | .pageInSuperblockRespStep which => PageInSuperblockResp s s' dop vop which
  | .finishLoadingSuperblockPhaseStep => FinishLoadingSuperblockPhase s s' dop vop
  | .finishLoadingOtherPhaseStep => FinishLoadingOtherPhase s s' dop vop
  | .freezeStep => Freeze s s' dop vop
  | .receiveFrozenLocStep => ReceiveFrozenLoc s s' dop vop
  | .advanceStep => Advance s s' dop vop
  | .replayStep => Replay s s' dop vop
  | .pushSyncReqStep id => PushSyncReq s s' dop vop id
  | .popSyncReqStep id => PopSyncReq s s' dop vop id
  | .noOpStep => NoOp s s' dop vop

/-- What has been read is well formed. -/
structure InvLoadingSuperblock (l : LoadingSuperblock) : Prop where
  success : ∀ which superblock, l.superblock which = .superblockSuccess superblock →
    l.outstandingSuperblockRead which = none ∧ WFSuperblock superblock
  corruption : ∀ which, l.superblock which = .superblockCorruption →
    l.outstandingSuperblockRead which = none

/-- Only parts of the journal that exist are read. -/
structure InvLoadingOther (l : LoadingOther) : Prop where
  superblock : WFSuperblock l.superblock
  frontRead : l.journalFrontRead ≠ none → journalFrontIntervalOfSuperblock l.superblock ≠ none
  front : l.journalFront ≠ none → journalFrontIntervalOfSuperblock l.superblock ≠ none
  backRead : l.journalBackRead ≠ none → journalBackIntervalOfSuperblock l.superblock ≠ none
  back : l.journalBack ≠ none → journalBackIntervalOfSuperblock l.superblock ≠ none

/-- The superblock being written is the one the commit calls for. -/
def CommitSuperblock (r : Ready) (newSuperblock : Superblock) : Prop :=
  (r.commitStatus = .commitAdvanceLog ∧
    newSuperblock = r.advancedLog) ∨
  (r.commitStatus = .commitAdvanceLocation ∧
    r.isFrozen = true ∧
    ∃ loc, r.frozenLoc = some loc ∧ newSuperblock = r.advancedLocation loc)

/-- The commit, its superblock and the lengths of the logs fit together. -/
structure InvReady (r : Ready) : Prop where
  writeIffNew : r.superblockWrite ≠ none ↔ r.newSuperblock ≠ none
  writeIffCommit : r.superblockWrite = none ↔ r.commitStatus = .commitNone
  writtenLe : r.writtenJournalLen ≤ numJournalBlocks
  lenLe : r.superblock.journalLen ≤ r.writtenJournalLen
  frozenLe : r.isFrozen = true → r.frozenJournalPosition ≤ r.writtenJournalLen
  frozenLoc : ∀ loc, r.frozenLoc = some loc →
    ValidIndirectionTableLocation loc ∧ r.isFrozen = true
  superblock : WFSuperblock r.superblock
  commit : ∀ newSuperblock, r.newSuperblock = some newSuperblock →
    CommitSuperblock r newSuperblock ∧
    WFSuperblock newSuperblock ∧
    r.outstandingJournalWrites = ∅ ∧
    r.inMemoryJournalFrozen = []
  frozenEntries : r.inMemoryJournalFrozen ≠ [] →
    r.frozenJournalPosition = r.writtenJournalLen ∧ r.isFrozen = true

def Inv : Variables → Prop
  | .ready r => InvReady r
  | .loadingOther l => InvLoadingOther l
  | .loadingSuperblock l => InvLoadingSuperblock l

theorem incrementSuperblockCounter_eq (i : UInt64) : incrementSuperblockCounter i = i + 1 := by
  rw [incrementSuperblockCounter]
  split
  · next isMax => rw [isMax]; rfl
  · rfl

theorem incrementSuperblockCounter_ne (i : UInt64) : incrementSuperblockCounter i ≠ i := by
  rw [incrementSuperblockCounter_eq, ne_eq, ← UInt64.toNat_inj, UInt64.toNat_add]
  simp only [UInt64.toNat_one]
  omega

/-- The counter does not come back to itself after two steps, so with two
superblocks the newer one can be told. -/
theorem incrementSuperblockCounter_twice_ne (i : UInt64) :
    incrementSuperblockCounter (incrementSuperblockCounter i) ≠ i := by
  rw [incrementSuperblockCounter_eq, incrementSuperblockCounter_eq, ne_eq, ← UInt64.toNat_inj,
    UInt64.toNat_add, UInt64.toNat_add]
  simp only [UInt64.toNat_one]
  omega

theorem otherSuperblock_ne (which : Fin 2) : otherSuperblock which ≠ which := by
  revert which
  decide

theorem eq_or_eq_otherSuperblock (which slot : Fin 2) :
    slot = which ∨ slot = otherSuperblock which := by
  revert which slot
  decide

section ReadySteps

variable {r : Ready}

variable {newSuperblock : Superblock}

section

variable (commit : CommitSuperblock r newSuperblock)

include commit

theorem CommitSuperblock.counter :
    newSuperblock.counter = incrementSuperblockCounter r.superblock.counter := by
  rcases commit with ⟨-, rfl⟩ | ⟨-, -, _, -, rfl⟩ <;> rfl

theorem CommitSuperblock.of_log
    (isLog : r.commitStatus ≠ .commitAdvanceLocation) : newSuperblock = r.advancedLog := by
  rcases commit with ⟨-, isAdvanced⟩ | ⟨isLocation, -⟩
  · exact isAdvanced
  · exact absurd isLocation isLog

theorem CommitSuperblock.of_location
    (isLocation : r.commitStatus = .commitAdvanceLocation) : r.isFrozen = true ∧
      ∃ loc, r.frozenLoc = some loc ∧ newSuperblock = r.advancedLocation loc := by
  rcases commit with ⟨isLog, -⟩ | ⟨-, advanced⟩
  · rw [isLocation] at isLog
    cases isLog
  · exact advanced

end

theorem InvLoadingOther.finished {l : LoadingOther} {replayJournal : List JournalEntry}
    {frozenJournalPosition : Nat} (inv : InvLoadingOther l) :
    InvReady (l.finished replayJournal frozenJournalPosition) where
  writeIffNew := by simp [LoadingOther.finished]
  writeIffCommit := by simp [LoadingOther.finished]
  writtenLe := inv.superblock.len
  lenLe := Nat.le_refl _
  frozenLe := nofun
  frozenLoc := nofun
  superblock := inv.superblock
  commit := nofun
  frozenEntries nonempty := absurd rfl nonempty

section

variable (inv : InvReady r) {id : ReqId} {loc : Location}

include inv

theorem InvReady.newSuperblock_eq_none (noWrite : r.superblockWrite = none) :
    r.newSuperblock = none := by
  by_contra isNew
  exact inv.writeIffNew.mpr isNew noWrite

theorem InvReady.journalWritten {jr : JournalRange} {ids : Finset ReqId}
    (noWrite : r.superblockWrite = none)
    (fits : jr.length + r.writtenJournalLen ≤ numJournalBlocks) :
    InvReady (r.journalWritten jr ids) where
  __ := inv
  writtenLe := by
    simp only [Ready.journalWritten]
    omega
  lenLe := inv.lenLe.trans (Nat.le_add_right _ _)
  frozenLe isFrozen := by
    have := inv.frozenLe isFrozen
    simp only [Ready.journalWritten]
    split <;> omega
  commit newSuperblock isNew := by
    have none : r.newSuperblock = none := inv.newSuperblock_eq_none noWrite
    have isNew : r.newSuperblock = some newSuperblock := isNew
    rw [none] at isNew
    cases isNew
  frozenEntries nonempty := absurd rfl nonempty

theorem InvReady.journalAcked :
    InvReady { r with outstandingJournalWrites := r.outstandingJournalWrites.erase id } where
  __ := inv
  commit newSuperblock isNew := by
    obtain ⟨commit, wf, noWrites, noFrozen⟩ := inv.commit newSuperblock isNew
    refine ⟨commit, wf, ?_, noFrozen⟩
    simp only [noWrites, Finset.erase_empty]

theorem InvReady.advanceLog (noWrites : r.outstandingJournalWrites = ∅)
    (noFrozen : r.inMemoryJournalFrozen = []) :
    InvReady (r.committing id r.advancedLog .commitAdvanceLog) where
  __ := inv
  writeIffNew := by simp [Ready.committing]
  writeIffCommit := by simp [Ready.committing]
  commit newSuperblock isNew := by
    cases isNew
    exact ⟨.inl ⟨rfl, rfl⟩, { inv.superblock with len := inv.writtenLe }, noWrites, noFrozen⟩

theorem InvReady.advanceLocation (isLoc : r.frozenLoc = some loc)
    (noWrites : r.outstandingJournalWrites = ∅) (noFrozen : r.inMemoryJournalFrozen = []) :
    InvReady (r.committing id (r.advancedLocation loc) .commitAdvanceLocation) where
  __ := inv
  writeIffNew := by simp [Ready.committing]
  writeIffCommit := by simp [Ready.committing]
  commit newSuperblock isNew := by
    cases isNew
    obtain ⟨validLoc, isFrozen⟩ := inv.frozenLoc loc isLoc
    have frozenLe := (inv.frozenLe isFrozen).trans inv.writtenLe
    refine ⟨.inr ⟨rfl, isFrozen, loc, isLoc, rfl⟩, ?_, noWrites, noFrozen⟩
    exact ⟨journalPosAdd_lt inv.superblock.start frozenLe,
      (Nat.sub_le _ _).trans inv.writtenLe, validLoc⟩

theorem InvReady.logCommitted (isNew : r.newSuperblock = some newSuperblock)
    (isLog : r.commitStatus = .commitAdvanceLog) : InvReady (r.logCommitted newSuperblock) := by
  obtain ⟨commit, wf, -, noFrozen⟩ := inv.commit newSuperblock isNew
  have isAdvanced := commit.of_log (by simp [isLog])
  exact {
    inv with
    writeIffNew := by simp [Ready.logCommitted]
    writeIffCommit := by simp [Ready.logCommitted]
    lenLe := by simp [Ready.logCommitted, isAdvanced, Ready.advancedLog]
    superblock := wf
    commit := fun _ absent => by cases absent
    frozenEntries := fun nonempty => absurd noFrozen nonempty }

theorem InvReady.locationCommitted (isNew : r.newSuperblock = some newSuperblock)
    (isLocation : r.commitStatus = .commitAdvanceLocation) :
    InvReady (r.locationCommitted newSuperblock) := by
  obtain ⟨commit, wf, -, noFrozen⟩ := inv.commit newSuperblock isNew
  obtain ⟨-, loc, -, rfl⟩ := commit.of_location isLocation
  exact {
    writeIffNew := by simp [Ready.locationCommitted]
    writeIffCommit := by simp [Ready.locationCommitted]
    writtenLe := (Nat.sub_le _ _).trans inv.writtenLe
    lenLe := Nat.le_refl _
    frozenLe := fun isFrozen => by cases isFrozen
    frozenLoc := fun _ absent => by cases absent
    superblock := wf
    commit := fun _ absent => by cases absent
    frozenEntries := fun nonempty => absurd noFrozen nonempty }

theorem InvReady.frozen (noWrite : r.superblockWrite = none) :
    InvReady r.frozen where
  __ := inv
  frozenLe _ := Nat.le_refl _
  frozenLoc _ absent := by cases absent
  commit newSuperblock isNew := by
    have isNew : r.newSuperblock = some newSuperblock := isNew
    rw [inv.newSuperblock_eq_none noWrite] at isNew
    cases isNew
  frozenEntries _ := ⟨rfl, rfl⟩

theorem InvReady.receiveFrozenLoc (isFrozen : r.isFrozen = true) (noLoc : r.frozenLoc = none)
    (valid : ValidIndirectionTableLocation loc) : InvReady { r with frozenLoc := some loc } where
  __ := inv
  frozenLoc other isLoc := by
    cases isLoc
    exact ⟨valid, isFrozen⟩
  commit newSuperblock isNew := by
    obtain ⟨commit, rest⟩ := inv.commit newSuperblock isNew
    refine ⟨?_, rest⟩
    -- A commit that moves on has a frozen location already.
    rcases commit with isLog | ⟨_, _, other, isLoc, _⟩
    · exact .inl isLog
    · rw [noLoc] at isLoc
      cases isLoc

end

end ReadySteps

end VerifiedBetrfs.JournalCache
