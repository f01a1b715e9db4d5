import VerifiedBetrfs.AsyncMachine

/-!
# Sharded machines over an asynchronous disk

The disk makes no promise once two pending requests conflict.
-/

namespace VerifiedBetrfs

/-- What clients see of a step, crashes included. -/
inductive CrashAsyncOp (Input Output : Type) where
  | start (rid : RequestId) (input : Input)
  | endOp (rid : RequestId) (output : Output)
  | internalOp
  | crashOp

namespace PageDisk

/-- The content of one page. -/
def Block := { data : List UInt8 // data.length = 4096 }

/-- A read of a page. -/
structure ReqRead where
  addr : Nat

/-- A write of a page. -/
structure ReqWrite where
  addr : Nat
  data : Block

/-- The page that was read. -/
structure RespRead where
  addr : Nat
  data : Block

/-- The page that was written. -/
structure RespWrite where
  addr : Nat

/-- What the machine and the disk exchange in a step. -/
inductive DiskOp where
  | reqReadOp (id : RequestId) (reqRead : ReqRead)
  | reqWriteOp (id : RequestId) (reqWrite : ReqWrite)
  | respReadOp (id : RequestId) (respRead : RespRead)
  | respWriteOp (id : RequestId) (respWrite : RespWrite)

/-- The pages, the requests that wait and the answers not yet taken. -/
structure Variables where
  reqReads : FiniteMap RequestId ReqRead
  reqWrites : FiniteMap RequestId ReqWrite
  respReads : FiniteMap RequestId RespRead
  respWrites : FiniteMap RequestId RespWrite
  contents : FiniteMap Nat Block

/-- A disk without requests. -/
structure Init (s : Variables) : Prop where
  reqReads : s.reqReads = .empty
  reqWrites : s.reqWrites = .empty
  respReads : s.respReads = .empty
  respWrites : s.respWrites = .empty

/-- The disk takes a request or hands out an answer. -/
def Next (s s' : Variables) : DiskOp → Prop
  | .reqReadOp id reqRead => s.reqReads.lookup id = none ∧ s.respReads.lookup id = none ∧
      s' = { s with reqReads := s.reqReads.insert id reqRead }
  | .reqWriteOp id reqWrite => s.reqWrites.lookup id = none ∧ s.respWrites.lookup id = none ∧
      s' = { s with reqWrites := s.reqWrites.insert id reqWrite }
  | .respReadOp id respRead => s.respReads.lookup id = some respRead ∧
      s' = { s with respReads := s.respReads.erase id }
  | .respWriteOp id respWrite => s.respWrites.lookup id = some respWrite ∧
      s' = { s with respWrites := s.respWrites.erase id }

/-- What the disk does on its own. -/
inductive InternalStep where
  | processReadStep (id : RequestId)
  | processWriteStep (id : RequestId)
  | havocConflictingWritesStep (id id' : RequestId)
  | havocConflictingWriteReadStep (id id' : RequestId)

/-- A read is answered with the page on disk. -/
def ProcessRead (s s' : Variables) (id : RequestId) : Prop :=
  ∃ req data, s.reqReads.lookup id = some req ∧ s.contents.lookup req.addr = some data ∧
    s' = { s with
      reqReads := s.reqReads.erase id
      respReads := s.respReads.insert id ⟨req.addr, data⟩ }

/-- A write reaches the disk. -/
def ProcessWrite (s s' : Variables) (id : RequestId) : Prop :=
  ∃ req old, s.reqWrites.lookup id = some req ∧ s.contents.lookup req.addr = some old ∧
    s' = { s with
      reqWrites := s.reqWrites.erase id
      respWrites := s.respWrites.insert id ⟨req.addr⟩
      contents := s.contents.insert req.addr req.data }

/-- Two writes of one page are pending.  Nothing is said about the state after. -/
def HavocConflictingWrites (s _s' : Variables) (id id' : RequestId) : Prop :=
  id ≠ id' ∧ ∃ req req', s.reqWrites.lookup id = some req ∧ s.reqWrites.lookup id' = some req' ∧
    req.addr = req'.addr

/-- A write and a read of one page are pending.  Nothing is said about the state after. -/
def HavocConflictingWriteRead (s _s' : Variables) (id id' : RequestId) : Prop :=
  ∃ req req', s.reqWrites.lookup id = some req ∧ s.reqReads.lookup id' = some req' ∧
    req.addr = req'.addr

def NextInternalStep (s s' : Variables) : InternalStep → Prop
  | .processReadStep id => ProcessRead s s' id
  | .processWriteStep id => ProcessWrite s s' id
  | .havocConflictingWritesStep id id' => HavocConflictingWrites s s' id id'
  | .havocConflictingWriteReadStep id id' => HavocConflictingWriteRead s s' id id'

def NextInternal (s s' : Variables) : Prop := ∃ step, NextInternalStep s s' step

def Crash (s s' : Variables) : Prop := s' = ⟨.empty, .empty, .empty, .empty, s.contents⟩

end PageDisk

/-- A machine whose shards hold the requests of clients and the traffic with the disk. -/
structure DiskSSM (M Input Output : Type) where
  dot : M → M → M
  ticket : RequestId → Input → M
  stub : RequestId → Output → M
  requestIdsInUse : M → Finset RequestId
  diskWriteReq : Nat → PageDisk.Block → M
  diskWriteResp : Nat → M
  diskReadReq : Nat → M
  diskReadResp : Nat → PageDisk.Block → M
  Init : M → Prop
  Internal : M → M → Prop

namespace DiskSSM

variable {M Input Output : Type} (ssm : DiskSSM M Input Output)

def NewTicket (whole whole' : M) (rid : RequestId) (input : Input) : Prop :=
  rid ∉ ssm.requestIdsInUse whole ∧ whole' = ssm.dot whole (ssm.ticket rid input)

def ConsumeStub (whole whole' : M) (rid : RequestId) (output : Output) : Prop :=
  whole = ssm.dot whole' (ssm.stub rid output)

end DiskSSM

namespace AsyncDiskSystem

/-- The disk and the whole of the shards. -/
structure Variables (M : Type) where
  disk : PageDisk.Variables
  machine : M

variable {M Input Output : Type} (ssm : DiskSSM M Input Output)

def Init (s : Variables M) : Prop := PageDisk.Init s.disk ∧ ssm.Init s.machine

def Crash (s s' : Variables M) : Prop := PageDisk.Crash s.disk s'.disk ∧ ssm.Init s'.machine

/-- A shard steps, the machine and the disk interact, or the disk steps. -/
inductive Step (M : Type) where
  | machineStep (shard shard' rest : M)
  | interactionStep (dop : PageDisk.DiskOp)
  | diskInternalStep

/-- A shard steps while the rest stays. -/
structure Machine (s s' : Variables M) (shard shard' rest : M) : Prop where
  internal : ssm.Internal shard shard'
  before : s.machine = ssm.dot shard rest
  after : s'.machine = ssm.dot shard' rest
  disk_eq : s'.disk = s.disk

def DiskInternal (s s' : Variables M) : Prop :=
  s.machine = s'.machine ∧ PageDisk.NextInternal s.disk s'.disk

/-- What an operation of the disk does to the machine. -/
def MachineInteraction (s s' : M) : PageDisk.DiskOp → Prop
  | .reqReadOp _ reqRead => s = ssm.dot s' (ssm.diskReadReq reqRead.addr)
  | .reqWriteOp _ reqWrite => s = ssm.dot s' (ssm.diskWriteReq reqWrite.addr reqWrite.data)
  | .respReadOp _ respRead => s' = ssm.dot s (ssm.diskReadResp respRead.addr respRead.data)
  | .respWriteOp _ respWrite => s' = ssm.dot s (ssm.diskWriteResp respWrite.addr)

def Interaction (s s' : Variables M) (dop : PageDisk.DiskOp) : Prop :=
  PageDisk.Next s.disk s'.disk dop ∧ MachineInteraction ssm s.machine s'.machine dop

def InternalStep (s s' : Variables M) : Step M → Prop
  | .machineStep shard shard' rest => Machine ssm s s' shard shard' rest
  | .interactionStep dop => Interaction ssm s s' dop
  | .diskInternalStep => DiskInternal s s'

def Internal (s s' : Variables M) : Prop := ∃ step, InternalStep ssm s s' step

def Next (s s' : Variables M) : CrashAsyncOp Input Output → Prop
  | .start rid input => ssm.NewTicket s.machine s'.machine rid input ∧ s.disk = s'.disk
  | .endOp rid output => ssm.ConsumeStub s.machine s'.machine rid output ∧ s.disk = s'.disk
  | .crashOp => Crash ssm s s'
  | .internalOp => Internal ssm s s'

end AsyncDiskSystem

def asyncDiskSystem {M Input Output : Type} (ssm : DiskSSM M Input Output) :
    StateMachine (AsyncDiskSystem.Variables M) (CrashAsyncOp Input Output) where
  Init := AsyncDiskSystem.Init ssm
  Next := AsyncDiskSystem.Next ssm

end VerifiedBetrfs
