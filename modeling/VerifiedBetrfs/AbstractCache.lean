import VerifiedBetrfs.DiskSSM

/-!
# What a page cache is for

A page has a value that survives a crash and one that is read and written.
-/

namespace VerifiedBetrfs

namespace CacheIfc

/-- What a client may ask of the cache. -/
inductive Input where
  | writeInput (key : Nat) (data : List UInt8)
  | readInput (key : Nat)
  | syncInput (keys : Finset Nat)
  | havocInput (key : Nat)

/-- The answers to clients. -/
inductive Output where
  | writeOutput
  | readOutput (data : List UInt8)
  | syncOutput
  | havocOutput (key : Nat)

end CacheIfc

namespace AbstractCache

open CacheIfc

abbrev Op := CrashAsyncOp Input Output

abbrev Value := List UInt8

/-- What a crash leaves of a page, and what is read. -/
structure Elem where
  persistent : Value
  ephemeral : Value

/-- The pages and the requests of clients. -/
structure Variables where
  store : IMap Nat Elem
  tickets : FiniteMap RequestId Input
  stubs : FiniteMap RequestId Output
  syncReqs : FiniteMap RequestId (Finset Nat)
  havocReqs : FiniteMap RequestId Nat

/-- Nothing is said about the requests to sync that are pending. -/
structure Init (s : Variables) : Prop where
  tickets : s.tickets = .empty
  stubs : s.stubs = .empty

def Stutter (s s' : Variables) (op : Op) : Prop := op = .internalOp ∧ s' = s

def persistElem (elem : Elem) : Elem := ⟨elem.ephemeral, elem.ephemeral⟩

/-- A page is written to the disk. -/
def Persist (s s' : Variables) (op : Op) (key : Nat) : Prop :=
  op = .internalOp ∧ ∃ elem, s.store key = some elem ∧
    s' = { s with store := s.store.update key (persistElem elem) }

def crashElem (elem : Elem) : Elem := ⟨elem.persistent, elem.persistent⟩

def crashStore (store : IMap Nat Elem) : IMap Nat Elem := fun key => (store key).map crashElem

/-- Nothing is said about the requests to sync and to havoc after a crash. -/
structure Crash (s s' : Variables) (op : Op) : Prop where
  isCrash : op = .crashOp
  tickets : s'.tickets = .empty
  stubs : s'.stubs = .empty
  store : s'.store = crashStore s.store

section

variable (s s' : Variables) (op : Op)

def NewTicket : Prop :=
  ∃ rid input, op = .start rid input ∧
    ((∃ key data, input = .writeInput key data) ∨ ∃ key, input = .readInput key) ∧
    s.tickets.lookup rid = none ∧ s' = { s with tickets := s.tickets.insert rid input }

def ConsumeStub : Prop :=
  ∃ rid output, op = .endOp rid output ∧ s.stubs.lookup rid = some output ∧
    s' = { s with stubs := s.stubs.erase rid }

def NewSyncTicket : Prop :=
  ∃ rid keys, op = .start rid (.syncInput keys) ∧ s.syncReqs.lookup rid = none ∧
    s' = { s with syncReqs := s.syncReqs.insert rid keys }

def ConsumeSyncStub : Prop :=
  ∃ rid, op = .endOp rid .syncOutput ∧ s.syncReqs.lookup rid = some ∅ ∧
    s' = { s with syncReqs := s.syncReqs.erase rid }

def NewHavocTicket : Prop :=
  ∃ rid key, op = .start rid (.havocInput key) ∧ s.havocReqs.lookup rid = none ∧
    s' = { s with havocReqs := s.havocReqs.insert rid key }

def ConsumeHavocStub : Prop :=
  ∃ rid outKey key, op = .endOp rid (.havocOutput outKey) ∧ s.havocReqs.lookup rid = some key ∧
    s' = { s with havocReqs := s.havocReqs.erase rid }

/-- The page of a havoc request becomes anything, and may even appear or vanish. -/
def DoHavoc (rid : RequestId) : Prop :=
  op = .internalOp ∧ ∃ havocKey, s.havocReqs.lookup rid = some havocKey ∧
    s' = { s with store := s'.store } ∧ ∀ key, key ≠ havocKey → s'.store key = s.store key

/-- A sync request sees that a page is clean. -/
def ObserveCleanForSync (rid : RequestId) (key : Nat) : Prop :=
  op = .internalOp ∧ ∃ keys elem, s.syncReqs.lookup rid = some keys ∧ s.store key = some elem ∧
    elem.persistent = elem.ephemeral ∧
    s' = { s with syncReqs := s.syncReqs.insert rid (keys.erase key) }

/-- A read takes effect. -/
def ApplyRead (rid : RequestId) : Prop :=
  op = .internalOp ∧ ∃ key elem, s.tickets.lookup rid = some (.readInput key) ∧
    s.store key = some elem ∧
    s' = { s with
      tickets := s.tickets.erase rid
      stubs := s.stubs.insert rid (.readOutput elem.ephemeral) }

end

def writeElem (elem : Elem) (data : Value) : Elem := ⟨elem.persistent, data⟩

/-- A write takes effect. -/
def ApplyWrite (s s' : Variables) (op : Op) (rid : RequestId) : Prop :=
  op = .internalOp ∧ ∃ key data elem, s.tickets.lookup rid = some (.writeInput key data) ∧
    s.store key = some elem ∧
    s' = { s with
      tickets := s.tickets.erase rid
      stubs := s.stubs.insert rid .writeOutput
      store := s.store.update key (writeElem elem data) }

/-- The steps of the abstract cache. -/
inductive Step where
  | stutter
  | persist (key : Nat)
  | crash
  | newTicket
  | consumeStub
  | newSyncTicket
  | consumeSyncStub
  | newHavocTicket
  | consumeHavocStub
  | doHavoc (rid : RequestId)
  | observeCleanForSync (rid : RequestId) (key : Nat)
  | applyRead (rid : RequestId)
  | applyWrite (rid : RequestId)

def NextStep (s s' : Variables) (op : Op) : Step → Prop
  | .stutter => Stutter s s' op
  | .persist key => Persist s s' op key
  | .crash => Crash s s' op
  | .newTicket => NewTicket s s' op
  | .consumeStub => ConsumeStub s s' op
  | .newSyncTicket => NewSyncTicket s s' op
  | .consumeSyncStub => ConsumeSyncStub s s' op
  | .newHavocTicket => NewHavocTicket s s' op
  | .consumeHavocStub => ConsumeHavocStub s s' op
  | .doHavoc rid => DoHavoc s s' op rid
  | .observeCleanForSync rid key => ObserveCleanForSync s s' op rid key
  | .applyRead rid => ApplyRead s s' op rid
  | .applyWrite rid => ApplyWrite s s' op rid

def Next (s s' : Variables) (op : Op) : Prop := ∃ step, NextStep s s' op step

end AbstractCache

def abstractCacheStateMachine : StateMachine AbstractCache.Variables AbstractCache.Op where
  Init := AbstractCache.Init
  Next := AbstractCache.Next

/-- The same machine, with the step that is taken in the label. -/
def abstractCacheSteps :
    StateMachine AbstractCache.Variables (AbstractCache.Op × AbstractCache.Step) where
  Init := AbstractCache.Init
  Next s s' label := AbstractCache.NextStep s s' label.1 label.2

end VerifiedBetrfs
