import VerifiedBetrfs.SharedMonoid
import VerifiedBetrfs.Shards
import Mathlib.Order.Interval.Finset.Nat
import Mathlib.Algebra.Order.Ring.Int

/-!
# The reader-writer lock of a page

A lock has a flag and one counter for each slot of threads.  Who shares the page counts up and then
looks at the flag; who wants it alone sets the flag and then waits for each counter.
-/

namespace VerifiedBetrfs.RwLock

def rcWidth : Nat := 4

/-- The states of the flag of a lock. -/
inductive Flag where
  | unmapped
  | reading
  | readingExcLock
  | available
  | claimed
  | writeback
  | writebackClaimed
  | writebackPendingExcLock
  | pendingExcLock
  | excLockClean
  | excLockDirty
  deriving DecidableEq

/-- How far a reader is. -/
inductive SharedState (Stored : Type) where
  | sharedPending (t : Int)
  | sharedPending2 (t : Int)
  | sharedObtained (t : Int) (b : Stored)

/-- How far the owner of the claim is. -/
inductive ExcState (Stored : Type) where
  | excClaim (t : Int) (b : Stored)
  | excPendingAwaitWriteback (t : Int) (b : Stored)
  | excPending (t visited : Int) (clean : Bool) (b : Stored)
  | excObtained (t : Int) (clean : Bool)

/-- The page is being written back. -/
inductive WritebackState (Stored : Type) where
  | writebackObtained (b : Stored)

/-- How far the one is that fills the page. -/
inductive ReadState where
  | readPending
  | readPendingCounted (t : Int)
  | readObtained (t : Int)

/-- The flag and what the lock protects. -/
structure CentralState (Stored : Type) where
  flag : Flag
  storedValue : Stored

/-- A part of the state of a lock.  What is not there is none. -/
structure Shard (Stored : Type) where
  central : Option (CentralState Stored)
  refCounts : FiniteMap Nat Nat
  sharedState : Multiset (SharedState Stored)
  exc : Option (ExcState Stored)
  read : Option ReadState
  writeback : Option (WritebackState Stored)

/-- A shard, or nothing if two shards did not fit together. -/
abbrev M (Stored : Type) := Option (Shard Stored)

variable {Stored : Type}

def unitShard : Shard Stored := ⟨none, .empty, 0, none, none, none⟩

def unit : M Stored := some unitShard

def Compatible (x y : Shard Stored) : Prop :=
  ¬ (x.central.isSome ∧ y.central.isSome) ∧ Disjoint x.refCounts.support y.refCounts.support ∧
    (x.exc.isNone ∨ y.exc.isNone) ∧ (x.read.isNone ∨ y.read.isNone) ∧
    (x.writeback.isNone ∨ y.writeback.isNone)

instance (x y : Shard Stored) : Decidable (Compatible x y) :=
  inferInstanceAs (Decidable (_ ∧ _))

def Shard.merge (x y : Shard Stored) : Shard Stored where
  central := x.central.or y.central
  refCounts := y.refCounts.mapUpdate x.refCounts
  sharedState := x.sharedState + y.sharedState
  exc := x.exc.or y.exc
  read := x.read.or y.read
  writeback := x.writeback.or y.writeback

def dot : M Stored → M Stored → M Stored
  | some x, some y => if Compatible x y then some (x.merge y) else none
  | _, _ => none

def SharedState.t : SharedState Stored → Int
  | .sharedPending t | .sharedPending2 t | .sharedObtained t _ => t

def ExcState.t : ExcState Stored → Int
  | .excClaim t _ | .excPendingAwaitWriteback t _ | .excPending t _ _ _ | .excObtained t _ => t

def countSharedRefs (sharedState : Multiset (SharedState Stored)) (t : Int) : Nat :=
  sharedState.countP fun ss => ss.t = t

def countExcRefs (exc : Option (ExcState Stored)) (t : Int) : Nat :=
  match exc with
  | none => 0
  | some e => if e.t = t then 1 else 0

def countReadRefs (read : Option ReadState) (t : Int) : Nat :=
  match read with
  | some (.readPendingCounted t') | some (.readObtained t') => if t' = t then 1 else 0
  | _ => 0

/-- The references of one slot. -/
def countAllRefs (x : Shard Stored) (t : Int) : Nat :=
  countSharedRefs x.sharedState t + countExcRefs x.exc t + countReadRefs x.read t

/-- The stored handle, unless it has been lent. -/
def interp : M Stored → Option Stored
  | none => none
  | some x =>
    match x.exc, x.read with
    | some (.excObtained _ _), _ => none
    | _, some _ => none
    | _, none => x.central.map CentralState.storedValue

def centralHandle (central : CentralState Stored) : M Stored :=
  some { unitShard with central := some central }

def refCount (t count : Nat) : M Stored :=
  some { unitShard with refCounts := .singleton t count }

def rcs (first last : Nat) : M Stored :=
  some { unitShard with refCounts := .ofFinset (Finset.Ico first last) fun _ => some 0 }

def sharedHandle (ss : SharedState Stored) : M Stored :=
  some { unitShard with sharedState := {ss} }

def readHandle (read : ReadState) : M Stored :=
  some { unitShard with read := some read }

def excHandle (exc : ExcState Stored) : M Stored :=
  some { unitShard with exc := some exc }

def writebackHandle (writeback : WritebackState Stored) : M Stored :=
  some { unitShard with writeback := some writeback }

/-- The lock of a page that is not in use. -/
def init (b : Stored) : M Stored := dot (centralHandle ⟨.unmapped, b⟩) (rcs 0 rcWidth)

/-- A page starts to be written back. -/
def TakeWriteback (m m' : M Stored) : Prop :=
  ∃ central : CentralState Stored, central.flag = .available ∧ m = centralHandle central ∧
    m' = dot (centralHandle { central with flag := .writeback })
      (writebackHandle (.writebackObtained central.storedValue))

/-- For the other flags nothing is said about the new state. -/
def ReleaseWriteback (m m' : M Stored) : Prop :=
  ∃ central writeback, m = dot (centralHandle central) (writebackHandle writeback) ∧
    (central.flag = .writeback → m' = centralHandle { central with flag := .available }) ∧
    (central.flag = .writebackPendingExcLock →
      m' = centralHandle { central with flag := .pendingExcLock }) ∧
    (central.flag = .writebackClaimed → m' = centralHandle { central with flag := .claimed })

def ThreadlessClaim (m m' : M Stored) : Prop :=
  ∃ central : CentralState Stored, (central.flag = .available ∨ central.flag = .writeback) ∧
    m = centralHandle central ∧
    m' = dot (centralHandle { central with
        flag := if central.flag = .available then .claimed else .writebackClaimed })
      (excHandle (.excClaim (-1) central.storedValue))

/-- A reader claims the page. -/
def SharedToClaim (m m' : M Stored) (t : Int) (b : Stored) : Prop :=
  ∃ central : CentralState Stored, (central.flag = .available ∨ central.flag = .writeback) ∧
    m = dot (centralHandle central) (sharedHandle (.sharedObtained t b)) ∧
    m' = dot (centralHandle { central with
        flag := if central.flag = .available then .claimed else .writebackClaimed })
      (excHandle (.excClaim t b))

/-- The claim is to become exclusive. -/
def ClaimToPending (m m' : M Stored) : Prop :=
  ∃ (central : CentralState Stored) (t : Int) (b : Stored),
    m = dot (centralHandle central) (excHandle (.excClaim t b)) ∧
    m' = dot (centralHandle { central with
        flag := if central.flag = .writebackClaimed then .writebackPendingExcLock
          else .pendingExcLock })
      (excHandle (.excPendingAwaitWriteback t b))

def excLockFlag (clean : Bool) : Flag := if clean then .excLockClean else .excLockDirty

section

variable (m m' : M Stored)

/-- No writeback is under way any more. -/
def TakeExcLockFinishWriteback (clean : Bool) : Prop :=
  ∃ (central : CentralState Stored) (t : Int) (b : Stored),
    central.flag ≠ .writeback ∧ central.flag ≠ .writebackPendingExcLock ∧
    m = dot (centralHandle central) (excHandle (.excPendingAwaitWriteback t b)) ∧
    m' = dot (centralHandle { central with flag := excLockFlag clean })
      (excHandle (.excPending t 0 clean b))

/-- The counter of one slot is what it is without other owners. -/
def TakeExcLockCheckRefCount : Prop :=
  ∃ (t : Int) (visited : Nat) (clean : Bool) (b : Stored), visited < rcWidth ∧
    m = dot (excHandle (.excPending t visited clean b))
      (refCount visited (if visited = t then 1 else 0)) ∧
    m' = dot (excHandle (.excPending t (visited + 1) clean b))
      (refCount visited (if visited = t then 1 else 0))

/-- Nobody reads any more, so the page is lent. -/
def WithdrawTakeExcLockFinish (b' : Stored) : Prop :=
  ∃ (t : Int) (clean : Bool), m = excHandle (.excPending t rcWidth clean b') ∧
    m' = excHandle (.excObtained t clean)

/-- The owner returns the page and goes on as a reader. -/
def DepositDowngradeExcLock (b : Stored) : Prop :=
  ∃ (central : CentralState Stored) (t : Int) (clean : Bool), 0 ≤ t ∧ t < rcWidth ∧
    m = dot (centralHandle central) (excHandle (.excObtained t clean)) ∧
    m' = dot (centralHandle ⟨.available, b⟩) (sharedHandle (.sharedObtained t b))

def DepositDowngradeExcLockToClaim (b : Stored) : Prop :=
  ∃ (central : CentralState Stored) (t : Int) (clean : Bool), 0 ≤ t ∧ t < rcWidth ∧
    m = dot (centralHandle central) (excHandle (.excObtained t clean)) ∧
    m' = dot (centralHandle ⟨.claimed, b⟩) (excHandle (.excClaim t b))

def ExcIncCount (t : Nat) : Prop :=
  ∃ (count : Nat) (clean : Bool), t < rcWidth ∧
    m = dot (refCount t count) (excHandle (.excObtained (-1) clean)) ∧
    m' = dot (refCount t (count + 1)) (excHandle (.excObtained t clean))

def MarkDirty : Prop :=
  ∃ (central : CentralState Stored) (t : Int) (clean : Bool),
    m = dot (centralHandle central) (excHandle (.excObtained t clean)) ∧
    m' = dot (centralHandle { central with flag := .excLockDirty })
      (excHandle (.excObtained t false))

def ClaimToShared : Prop :=
  ∃ (central : CentralState Stored) (t : Int) (b : Stored), t ≠ -1 ∧
    m = dot (centralHandle central) (excHandle (.excClaim t b)) ∧
    m' = dot (centralHandle { central with
        flag := if central.flag = .writebackClaimed then .writeback else .available })
      (sharedHandle (.sharedObtained t b))

def AbandonExcPending : Prop :=
  ∃ (central : CentralState Stored) (visited : Int) (clean : Bool) (b : Stored),
    m = dot (centralHandle central) (excHandle (.excPending (-1) visited clean b)) ∧
    m' = centralHandle { central with flag := .available }

/-- The owner gives up the page. -/
def DepositUnmap (b : Stored) : Prop :=
  ∃ (central : CentralState Stored) (clean : Bool),
    m = dot (centralHandle central) (excHandle (.excObtained (-1) clean)) ∧
    m' = centralHandle ⟨.unmapped, b⟩

def DepositUnmap2 (b : Stored) : Prop :=
  ∃ (central : CentralState Stored) (t : Int) (clean : Bool), 0 ≤ t ∧
    m = dot (centralHandle central) (excHandle (.excObtained t clean)) ∧
    m' = dot (centralHandle ⟨.unmapped, b⟩) (sharedHandle (.sharedPending t))

end

section

variable (m m' : M Stored)

/-- An unmapped page is lent to be filled. -/
def WithdrawAlloc (b' : Stored) : Prop :=
  m = centralHandle ⟨.unmapped, b'⟩ ∧
    m' = dot (centralHandle ⟨.readingExcLock, b'⟩) (readHandle .readPending)

def WithdrawAllocNoRefcount (b' : Stored) : Prop :=
  m = centralHandle ⟨.unmapped, b'⟩ ∧
    m' = dot (centralHandle ⟨.reading, b'⟩) (readHandle (.readObtained (-1)))

def ReadingIncCount (t : Nat) : Prop :=
  ∃ count, t < rcWidth ∧ m = dot (readHandle .readPending) (refCount t count) ∧
    m' = dot (readHandle (.readPendingCounted t)) (refCount t (count + 1))

def ObtainReading : Prop :=
  ∃ (central : CentralState Stored) (t : Int),
    m = dot (centralHandle central) (readHandle (.readPendingCounted t)) ∧
    m' = dot (centralHandle { central with flag := .reading }) (readHandle (.readObtained t))

def ReadPendingToExc (clean : Bool) (dummyB : Stored) : Prop :=
  ∃ (central : CentralState Stored) (t : Int),
    m = dot (centralHandle central) (readHandle (.readPendingCounted t)) ∧
    m' = dot (centralHandle ⟨excLockFlag clean, dummyB⟩) (excHandle (.excObtained t clean))

def ObtainReadingNoRefcount : Prop :=
  ∃ central : CentralState Stored, m = dot (centralHandle central) (readHandle .readPending) ∧
    m' = dot (centralHandle { central with flag := .reading }) (readHandle (.readObtained (-1)))

/-- Who has filled the page goes on as a reader. -/
def DepositReadingToShared (b : Stored) : Prop :=
  ∃ (central : CentralState Stored) (t : Int), t ≠ -1 ∧
    m = dot (centralHandle central) (readHandle (.readObtained t)) ∧
    m' = dot (centralHandle ⟨.available, b⟩) (sharedHandle (.sharedObtained t b))

def DepositReadingToDone (b : Stored) : Prop :=
  ∃ central : CentralState Stored,
    m = dot (centralHandle central) (readHandle (.readObtained (-1))) ∧
    m' = centralHandle ⟨.available, b⟩

def DepositAbandonReadPending (b : Stored) : Prop :=
  ∃ central : CentralState Stored, m = dot (centralHandle central) (readHandle .readPending) ∧
    m' = centralHandle ⟨.unmapped, b⟩

end

section

variable (m m' : M Stored) (t : Nat)

/-- A reader is counted. -/
def SharedIncCount : Prop :=
  ∃ count, t < rcWidth ∧ m = refCount t count ∧
    m' = dot (refCount t (count + 1)) (sharedHandle (.sharedPending t))

/-- A reference is given back.  The counter is not zero as long as there is one. -/
def SharedDecCount (ss : SharedState Stored) : Prop :=
  ∃ count, t < rcWidth ∧ m = dot (refCount t count) (sharedHandle ss) ∧
    (1 ≤ count → m' = refCount t (count - 1))

def SharedDecCountPending : Prop := SharedDecCount m m' t (.sharedPending t)

def SharedDecCountPending2 : Prop := SharedDecCount m m' t (.sharedPending2 t)

def SharedDecCountObtained (b : Stored) : Prop := SharedDecCount m m' t (.sharedObtained t b)

end

/-- A reader sees that the page is not locked. -/
def SharedCheckExc (m m' : M Stored) (t : Int) : Prop :=
  ∃ central : CentralState Stored,
    (central.flag = .available ∨ central.flag = .writeback ∨ central.flag = .claimed ∨
      central.flag = .writebackClaimed ∨ central.flag = .reading) ∧
    m = dot (centralHandle central) (sharedHandle (.sharedPending t)) ∧
    m' = dot (centralHandle central) (sharedHandle (.sharedPending2 t))

def SharedCheckReading (m m' : M Stored) (t : Int) : Prop :=
  ∃ central : CentralState Stored, 0 ≤ t ∧ t < rcWidth ∧ central.flag ≠ .reading ∧
    m = dot (centralHandle central) (sharedHandle (.sharedPending2 t)) ∧
    m' = dot (centralHandle central) (sharedHandle (.sharedObtained t central.storedValue))

/-- The transitions, with what each withdraws or deposits. -/
inductive Step (m m' : M Stored) : RwEvent Stored → Prop where
  | takeWriteback : TakeWriteback m m' → Step m m' .internal
  | releaseWriteback : ReleaseWriteback m m' → Step m m' .internal
  | threadlessClaim : ThreadlessClaim m m' → Step m m' .internal
  | sharedToClaim (t : Int) (b : Stored) : SharedToClaim m m' t b → Step m m' .internal
  | claimToPending : ClaimToPending m m' → Step m m' .internal
  | takeExcLockFinishWriteback (clean : Bool) :
      TakeExcLockFinishWriteback m m' clean → Step m m' .internal
  | takeExcLockCheckRefCount : TakeExcLockCheckRefCount m m' → Step m m' .internal
  | withdrawTakeExcLockFinish (b : Stored) :
      WithdrawTakeExcLockFinish m m' b → Step m m' (.withdraw b)
  | depositDowngradeExcLock (b : Stored) :
      DepositDowngradeExcLock m m' b → Step m m' (.deposit b)
  | depositDowngradeExcLockToClaim (b : Stored) :
      DepositDowngradeExcLockToClaim m m' b → Step m m' (.deposit b)
  | excIncCount (t : Nat) : ExcIncCount m m' t → Step m m' .internal
  | markDirty : MarkDirty m m' → Step m m' .internal
  | claimToShared : ClaimToShared m m' → Step m m' .internal
  | abandonExcPending : AbandonExcPending m m' → Step m m' .internal
  | depositUnmap (b : Stored) : DepositUnmap m m' b → Step m m' (.deposit b)
  | depositUnmap2 (b : Stored) : DepositUnmap2 m m' b → Step m m' (.deposit b)
  | withdrawAlloc (b : Stored) : WithdrawAlloc m m' b → Step m m' (.withdraw b)
  | withdrawAllocNoRefcount (b : Stored) :
      WithdrawAllocNoRefcount m m' b → Step m m' (.withdraw b)
  | readingIncCount (t : Nat) : ReadingIncCount m m' t → Step m m' .internal
  | obtainReading : ObtainReading m m' → Step m m' .internal
  | readPendingToExc (clean : Bool) (dummyB : Stored) :
      ReadPendingToExc m m' clean dummyB → Step m m' .internal
  | obtainReadingNoRefcount : ObtainReadingNoRefcount m m' → Step m m' .internal
  | depositReadingToShared (b : Stored) :
      DepositReadingToShared m m' b → Step m m' (.deposit b)
  | depositReadingToDone (b : Stored) : DepositReadingToDone m m' b → Step m m' (.deposit b)
  | depositAbandonReadPending (b : Stored) :
      DepositAbandonReadPending m m' b → Step m m' (.deposit b)
  | sharedIncCount (t : Nat) : SharedIncCount m m' t → Step m m' .internal
  | sharedDecCountPending (t : Nat) : SharedDecCountPending m m' t → Step m m' .internal
  | sharedDecCountPending2 (t : Nat) : SharedDecCountPending2 m m' t → Step m m' .internal
  | sharedDecCountObtained (t : Nat) (b : Stored) :
      SharedDecCountObtained m m' t b → Step m m' .internal
  | sharedCheckExc (t : Int) : SharedCheckExc m m' t → Step m m' .internal
  | sharedCheckReading (t : Int) : SharedCheckReading m m' t → Step m m' .internal

end VerifiedBetrfs.RwLock
