import VerifiedBetrfs.AbstractCache

/-!
# A finished sync is durable

A page leaves a pending sync request only when it is seen clean; its durable value is then one
that could be read after the request was started.
-/

namespace VerifiedBetrfs.AbstractCache

open CacheIfc

variable {s s' : Variables} {op : Op} {step : Step} {key : Nat} {rid : RequestId}

/-- The step is a havoc of the page. -/
def HavocsKey (s : Variables) (step : Step) (key : Nat) : Prop :=
  ∃ rid, step = .doHavoc rid ∧ s.havocReqs.lookup rid = some key

/-- The step applies a write of the page. -/
def WritesKey (s : Variables) (step : Step) (key : Nat) (data : Value) : Prop :=
  ∃ rid, step = .applyWrite rid ∧ s.tickets.lookup rid = some (.writeInput key data)

/-- What a step may do to one page. -/
inductive PageEffect (s : Variables) (op : Op) (step : Step) (key : Nat) :
    Option Elem → Option Elem → Prop
  | kept (page : Option Elem) : PageEffect s op step key page page
  | persisted (elem : Elem) : PageEffect s op step key (some elem) (some (persistElem elem))
  | crashed (page : Option Elem) : op = .crashOp →
      PageEffect s op step key page (page.map crashElem)
  | written (elem : Elem) (data : Value) : WritesKey s step key data →
      PageEffect s op step key (some elem) (some (writeElem elem data))

theorem nextStep_page (next : NextStep s s' op step) (noHavoc : ¬ HavocsKey s step key) :
    PageEffect s op step key (s.store key) (s'.store key) := by
  cases step with
  | stutter =>
    obtain ⟨-, rfl⟩ := next
    exact .kept _
  | persist other =>
    obtain ⟨-, elem, stored, rfl⟩ := next
    by_cases isKey : key = other
    · subst isKey
      simpa [stored] using PageEffect.persisted elem
    · simpa [IMap.update_eq_ite, isKey] using PageEffect.kept (s.store key)
  | crash =>
    rw [next.store]
    exact .crashed _ next.isCrash
  | newTicket =>
    obtain ⟨_, _, -, -, -, rfl⟩ := next
    exact .kept _
  | consumeStub | newSyncTicket | newHavocTicket =>
    obtain ⟨_, _, -, -, rfl⟩ := next
    exact .kept _
  | consumeSyncStub =>
    obtain ⟨_, -, -, rfl⟩ := next
    exact .kept _
  | consumeHavocStub =>
    obtain ⟨_, _, _, -, -, rfl⟩ := next
    exact .kept _
  | doHavoc rid =>
    obtain ⟨-, havocKey, requested, -, elsewhere⟩ := next
    have isOther : key ≠ havocKey := by
      rintro rfl
      exact noHavoc ⟨rid, rfl, requested⟩
    rw [elsewhere key isOther]
    exact .kept _
  | observeCleanForSync rid other =>
    obtain ⟨-, _, _, -, -, -, rfl⟩ := next
    exact .kept _
  | applyRead rid =>
    obtain ⟨-, _, _, -, -, rfl⟩ := next
    exact .kept _
  | applyWrite rid =>
    obtain ⟨-, other, data, elem, requested, stored, rfl⟩ := next
    by_cases isKey : key = other
    · subst isKey
      simpa [stored] using PageEffect.written elem data ⟨rid, rfl, requested⟩
    · simpa [IMap.update_eq_ite, isKey] using PageEffect.kept (s.store key)

theorem store_of_crash (next : NextStep s s' .crashOp step) : s'.store = crashStore s.store := by
  cases step with
  | crash => exact next.store
  | stutter | persist | doHavoc | observeCleanForSync | applyRead | applyWrite => cases next.1
  | newTicket | consumeStub | newSyncTicket | newHavocTicket => obtain ⟨_, _, ⟨⟩, _⟩ := next
  | consumeSyncStub => obtain ⟨_, ⟨⟩, _⟩ := next
  | consumeHavocStub => obtain ⟨_, _, _, ⟨⟩, _⟩ := next

theorem syncReqs_of_start {keys : Finset Nat}
    (next : NextStep s s' (.start rid (.syncInput keys)) step) :
    s'.syncReqs.lookup rid = some keys := by
  cases step with
  | crash => cases next.isCrash
  | stutter | persist | doHavoc | observeCleanForSync | applyRead | applyWrite => cases next.1
  | newSyncTicket =>
    obtain ⟨_, _, ⟨⟩, -, rfl⟩ := next
    simp
  | newTicket =>
    obtain ⟨_, _, isStart, ⟨_, _, isWrite⟩ | ⟨_, isRead⟩, -⟩ := next
    · cases isStart
      cases isWrite
    · cases isStart
      cases isRead
  | consumeStub | newHavocTicket => obtain ⟨_, _, ⟨⟩, _⟩ := next
  | consumeSyncStub => obtain ⟨_, ⟨⟩, _⟩ := next
  | consumeHavocStub => obtain ⟨_, _, _, ⟨⟩, _⟩ := next

/-- No answer to a sync request is kept among the stubs. -/
def NoSyncStub (s : Variables) : Prop := ∀ rid, s.stubs.lookup rid ≠ some .syncOutput

theorem noSyncStub_inductive : abstractCacheSteps.Inductive NoSyncStub where
  init initial rid := by simp [initial.stubs]
  next {s s' label} holds next rid := by
    obtain ⟨_, step⟩ := label
    have holdsAt := holds rid
    cases step with
    | crash => simp [next.stubs]
    | stutter =>
      obtain ⟨-, rfl⟩ := next
      exact holdsAt
    | persist =>
      obtain ⟨-, _, -, rfl⟩ := next
      exact holdsAt
    | newTicket =>
      obtain ⟨_, _, -, -, -, rfl⟩ := next
      exact holdsAt
    | consumeStub =>
      obtain ⟨_, _, -, -, rfl⟩ := next
      rw [FiniteMap.lookup_erase]
      split
      · simp
      · exact holdsAt
    | newSyncTicket | newHavocTicket =>
      obtain ⟨_, _, -, -, rfl⟩ := next
      exact holdsAt
    | consumeSyncStub =>
      obtain ⟨_, -, -, rfl⟩ := next
      exact holdsAt
    | consumeHavocStub =>
      obtain ⟨_, _, _, -, -, rfl⟩ := next
      exact holdsAt
    | doHavoc =>
      obtain ⟨-, _, -, same, -⟩ := next
      rw [same]
      exact holdsAt
    | observeCleanForSync =>
      obtain ⟨-, _, _, -, -, -, rfl⟩ := next
      exact holdsAt
    | applyRead =>
      obtain ⟨-, _, _, -, -, rfl⟩ := next
      rw [FiniteMap.lookup_insert]
      split
      · simp
      · exact holdsAt
    | applyWrite =>
      obtain ⟨-, _, _, _, -, -, rfl⟩ := next
      rw [FiniteMap.lookup_insert]
      split
      · simp
      · exact holdsAt

theorem syncReqs_of_end (noSyncStub : NoSyncStub s)
    (next : NextStep s s' (.endOp rid .syncOutput) step) : s.syncReqs.lookup rid = some ∅ := by
  cases step with
  | crash => cases next.isCrash
  | stutter | persist | doHavoc | observeCleanForSync | applyRead | applyWrite => cases next.1
  | consumeSyncStub =>
    obtain ⟨_, ⟨⟩, isEmpty, -⟩ := next
    exact isEmpty
  | consumeStub =>
    obtain ⟨_, _, ⟨⟩, isStub, -⟩ := next
    exact (noSyncStub _ isStub).elim
  | newTicket | newSyncTicket | newHavocTicket => obtain ⟨_, _, ⟨⟩, _⟩ := next
  | consumeHavocStub => obtain ⟨_, _, _, ⟨⟩, _⟩ := next

/-- A page stays in a pending sync request unless it is seen clean. -/
theorem pending_or_clean {keys : Finset Nat} (next : NextStep s s' op step)
    (notStart : ∀ input, op ≠ .start rid input) (notCrash : op ≠ .crashOp)
    (pending : s.syncReqs.lookup rid = some keys) (member : key ∈ keys) :
    (∃ keys', s'.syncReqs.lookup rid = some keys' ∧ key ∈ keys') ∨
      ∃ value, s.store key = some ⟨value, value⟩ := by
  cases step with
  | crash => exact (notCrash next.isCrash).elim
  | stutter =>
    obtain ⟨-, rfl⟩ := next
    exact Or.inl ⟨keys, pending, member⟩
  | persist =>
    obtain ⟨-, _, -, rfl⟩ := next
    exact Or.inl ⟨keys, pending, member⟩
  | newTicket =>
    obtain ⟨_, _, -, -, -, rfl⟩ := next
    exact Or.inl ⟨keys, pending, member⟩
  | consumeStub | newHavocTicket =>
    obtain ⟨_, _, -, -, rfl⟩ := next
    exact Or.inl ⟨keys, pending, member⟩
  | newSyncTicket =>
    obtain ⟨other, _, rfl, -, rfl⟩ := next
    have isOther : rid ≠ other := by
      rintro rfl
      exact notStart _ rfl
    exact Or.inl ⟨keys, by simp [isOther, pending], member⟩
  | consumeSyncStub =>
    obtain ⟨other, -, isEmpty, rfl⟩ := next
    have isOther : rid ≠ other := by
      rintro rfl
      obtain rfl := Option.mem_unique pending isEmpty
      exact Finset.notMem_empty key member
    exact Or.inl ⟨keys, by simp [isOther, pending], member⟩
  | consumeHavocStub =>
    obtain ⟨_, _, _, -, -, rfl⟩ := next
    exact Or.inl ⟨keys, pending, member⟩
  | doHavoc =>
    obtain ⟨-, _, -, same, -⟩ := next
    exact Or.inl ⟨keys, by rw [same]; exact pending, member⟩
  | observeCleanForSync other seen =>
    obtain ⟨-, keys', ⟨value, ephemeral⟩, requested, stored, clean, rfl⟩ := next
    obtain rfl : value = ephemeral := clean
    by_cases isSeen : key = seen
    · exact Or.inr ⟨value, isSeen ▸ stored⟩
    · by_cases isRid : rid = other
      · subst isRid
        obtain rfl := Option.mem_unique pending requested
        exact Or.inl ⟨keys.erase seen, by simp, by simp [isSeen, member]⟩
      · exact Or.inl ⟨keys, by simp [isRid, pending], member⟩
  | applyRead =>
    obtain ⟨-, _, _, -, -, rfl⟩ := next
    exact Or.inl ⟨keys, pending, member⟩
  | applyWrite =>
    obtain ⟨-, _, _, _, -, -, rfl⟩ := next
    exact Or.inl ⟨keys, pending, member⟩

section Runs

variable {run : abstractCacheSteps.Behavior} {first last : Nat}

/-- Before a sync request ends, each of its pages has been clean at some time after the
request was started. -/
theorem exists_clean {keys : Finset Nat} (before : first < last) (inRun : last < run.length)
    (started : (run.labels first).1 = .start rid (.syncInput keys)) (member : key ∈ keys)
    (ended : (run.labels last).1 = .endOp rid .syncOutput)
    (noRestart : ∀ t, first < t → t < last → ∀ input, (run.labels t).1 ≠ .start rid input)
    (noCrash : ∀ t, first < t → t < last → (run.labels t).1 ≠ .crashOp) :
    ∃ clean, first < clean ∧ clean < last ∧
      ∃ value, (run.states clean).store key = some ⟨value, value⟩ := by
  by_contra neverClean
  have pending : ∀ t, first + 1 ≤ t → t ≤ last →
      ∃ keys', (run.states t).syncReqs.lookup rid = some keys' ∧ key ∈ keys' := by
    intro t atLeast
    induction t, atLeast using Nat.le_induction with
    | base =>
      intro _
      have next := run.steps first (by omega)
      change NextStep _ _ (run.labels first).1 (run.labels first).2 at next
      rw [started] at next
      exact ⟨keys, syncReqs_of_start next, member⟩
    | succ t after ih =>
      intro atMost
      obtain ⟨keys', stillPending, member'⟩ := ih (by omega)
      obtain kept | clean := pending_or_clean (run.steps t (by omega))
        (noRestart t (by omega) (by omega)) (noCrash t (by omega) (by omega)) stillPending member'
      · exact kept
      · exact (neverClean ⟨t, by omega, by omega, clean⟩).elim
  obtain ⟨keys', stillPending, member'⟩ := pending last (by omega) le_rfl
  have next := run.steps last inRun
  change NextStep _ _ (run.labels last).1 (run.labels last).2 at next
  rw [ended] at next
  have isEmpty := syncReqs_of_end (noSyncStub_inductive.holds run inRun.le) next
  obtain rfl := Option.mem_unique stillPending isEmpty
  exact Finset.notMem_empty key member'

section

variable (noHavoc : ∀ t < run.length, ¬ HavocsKey (run.states t) (run.labels t).2 key) {t : Nat}
  (after : first ≤ t) (inRun : t ≤ run.length)

include noHavoc after inRun

/-- After a page has been clean, the value that survives a crash is one that could be read
since then. -/
theorem persistent_was_ephemeral {value : Value}
    (clean : (run.states first).store key = some ⟨value, value⟩) :
    ∃ elem, (run.states t).store key = some elem ∧ ∃ seen persistent, first ≤ seen ∧ seen ≤ t ∧
      (run.states seen).store key = some ⟨persistent, elem.persistent⟩ := by
  induction t, after using Nat.le_induction with
  | base => exact ⟨_, clean, first, value, le_rfl, le_rfl, clean⟩
  | succ t after ih =>
    obtain ⟨elem, stored, seen, persistent, atLeast, _, wasSeen⟩ := ih (by omega)
    have effect := nextStep_page (run.steps t (by omega)) (noHavoc t (by omega))
    rw [stored] at effect
    generalize (run.states (t + 1)).store key = page at effect
    cases effect with
    | kept => exact ⟨elem, rfl, seen, persistent, atLeast, by omega, wasSeen⟩
    | persisted =>
      exact ⟨_, rfl, t, elem.persistent, after, by omega, stored⟩
    | crashed | written => exact ⟨_, rfl, seen, persistent, atLeast, by omega, wasSeen⟩

variable
  (noWrite : ∀ u, first ≤ u → u < t → ∀ data, ¬ WritesKey (run.states u) (run.labels u).2 key data)

include noWrite

/-- A value stays readable as long as the page is not written and nothing crashes. -/
theorem ephemeral_kept {elem : Elem} (stored : (run.states first).store key = some elem)
    (noCrash : ∀ u, first ≤ u → u < t → (run.labels u).1 ≠ .crashOp) :
    ∃ persistent, (run.states t).store key = some ⟨persistent, elem.ephemeral⟩ := by
  induction t, after using Nat.le_induction with
  | base => exact ⟨elem.persistent, stored⟩
  | succ t after ih =>
    obtain ⟨persistent, stored'⟩ := ih (by omega) (fun u ge lt => noWrite u ge (by omega))
      (fun u ge lt => noCrash u ge (by omega))
    have effect := nextStep_page (run.steps t (by omega)) (noHavoc t (by omega))
    rw [stored'] at effect
    generalize (run.states (t + 1)).store key = page at effect
    cases effect with
    | kept => exact ⟨persistent, rfl⟩
    | persisted => exact ⟨elem.ephemeral, rfl⟩
    | crashed _ isCrash => exact (noCrash t after (by omega) isCrash).elim
    | written _ data writes => exact (noWrite t after (by omega) data writes).elim

theorem clean_kept {value : Value} (clean : (run.states first).store key = some ⟨value, value⟩) :
    (run.states t).store key = some ⟨value, value⟩ := by
  induction t, after using Nat.le_induction with
  | base => exact clean
  | succ t after ih =>
    have stored := ih (by omega) (fun u ge lt => noWrite u ge (by omega))
    have effect := nextStep_page (run.steps t (by omega)) (noHavoc t (by omega))
    rw [stored] at effect
    generalize (run.states (t + 1)).store key = page at effect
    cases effect with
    | kept | persisted | crashed => rfl
    | written _ data writes => exact (noWrite t after (by omega) data writes).elim

end

end Runs

/-- After a sync of a page has ended, a crash brings back a value that could be read since the sync
was started.  So a value that could be read then is not lost unless the page is written again. -/
theorem sync_durable (run : abstractCacheSteps.Behavior) (key : Nat) (rid : RequestId)
    (keys : Finset Nat) (first last crash : Nat)
    (noHavoc : ∀ t < run.length, ¬ HavocsKey (run.states t) (run.labels t).2 key)
    (started : (run.labels first).1 = .start rid (.syncInput keys)) (member : key ∈ keys)
    (before : first < last) (ended : (run.labels last).1 = .endOp rid .syncOutput)
    (noRestart : ∀ t, first < t → t < last → ∀ input, (run.labels t).1 ≠ .start rid input)
    (noCrash : ∀ t, first < t → t < last → (run.labels t).1 ≠ .crashOp)
    (later : last < crash) (inRun : crash < run.length)
    (crashed : (run.labels crash).1 = .crashOp) :
    (∃ seen persistent value, first ≤ seen ∧ seen ≤ crash ∧
      (run.states seen).store key = some ⟨persistent, value⟩ ∧
      (run.states (crash + 1)).store key = some ⟨value, value⟩) ∧
    (∀ persistent value, (run.states first).store key = some ⟨persistent, value⟩ →
      (∀ t, first ≤ t → t < crash →
        ∀ data, ¬ WritesKey (run.states t) (run.labels t).2 key data) →
      (run.states (crash + 1)).store key = some ⟨value, value⟩) ∧
    ∀ written value, written < first →
      WritesKey (run.states written) (run.labels written).2 key value →
      (∀ t, written < t → t < first → (run.labels t).1 ≠ .crashOp) →
      (∀ t, written < t → t < crash →
        ∀ data, ¬ WritesKey (run.states t) (run.labels t).2 key data) →
      (run.states (crash + 1)).store key = some ⟨value, value⟩ := by
  obtain ⟨clean, afterStart, _, cleanValue, isClean⟩ :=
    exists_clean before (by omega) started member ended noRestart noCrash
  have crashNext := run.steps crash inRun
  change NextStep _ _ (run.labels crash).1 (run.labels crash).2 at crashNext
  rw [crashed] at crashNext
  have storeEq := congrFun (store_of_crash crashNext) key
  have neverLost : ∀ persistent value, (run.states first).store key = some ⟨persistent, value⟩ →
      (∀ t, first ≤ t → t < crash →
        ∀ data, ¬ WritesKey (run.states t) (run.labels t).2 key data) →
      (run.states (crash + 1)).store key = some ⟨value, value⟩ := by
    intro persistent value stored noWrite
    have noCrashYet : ∀ u, first ≤ u → u < clean → (run.labels u).1 ≠ .crashOp := by
      intro u ge lt isCrash
      obtain isStart | isLater := ge.eq_or_lt
      · rw [← isStart, started] at isCrash
        cases isCrash
      · exact noCrash u isLater (by omega) isCrash
    obtain ⟨_, stillReadable⟩ := ephemeral_kept noHavoc afterStart.le (by omega)
      (fun u ge lt => noWrite u ge (by omega)) stored noCrashYet
    obtain ⟨-, rfl⟩ : _ ∧ cleanValue = value := by
      simpa using isClean.symm.trans stillReadable
    have atCrash := clean_kept noHavoc (by omega) inRun.le
      (fun u ge lt => noWrite u (by omega) lt) isClean
    rw [storeEq, crashStore, atCrash]
    rfl
  refine ⟨?_, neverLost, ?_⟩
  · obtain ⟨elem, stored, seen, persistent, _, atMost, wasSeen⟩ :=
      persistent_was_ephemeral noHavoc (show clean ≤ crash by omega) inRun.le isClean
    refine ⟨seen, persistent, elem.persistent, by omega, atMost, wasSeen, ?_⟩
    rw [storeEq, crashStore, stored]
    rfl
  · rintro written value isBefore ⟨_, isWrite, requested⟩ noCrashBefore noWrite
    have writeNext := run.steps written (by omega)
    change NextStep _ _ (run.labels written).1 (run.labels written).2 at writeNext
    rw [isWrite] at writeNext
    obtain ⟨-, key', data, elem, requested', -, writtenEq⟩ := writeNext
    obtain ⟨rfl, rfl⟩ : key = key' ∧ value = data := by
      simpa using requested.symm.trans requested'
    have stored : (run.states (written + 1)).store key = some (writeElem elem value) := by
      rw [writtenEq]
      simp
    obtain ⟨persistent, stillReadable⟩ := ephemeral_kept noHavoc isBefore (by omega)
      (fun u ge lt => noWrite u (by omega) (by omega)) stored
      (fun u ge lt => noCrashBefore u (by omega) lt)
    exact neverLost persistent value stillReadable fun t ge lt => noWrite t (by omega) lt

/-- The value of one page is not yet durable. -/
def dirtyState : Variables :=
  ⟨IMap.empty.update 5 ⟨[1], [2]⟩, .empty, .empty, .empty, .empty⟩

def pendingState : Variables :=
  { dirtyState with syncReqs := dirtyState.syncReqs.insert 0 {5} }

def persistedState : Variables :=
  { pendingState with store := pendingState.store.update 5 (persistElem ⟨[1], [2]⟩) }

def observedState : Variables :=
  { persistedState with syncReqs := persistedState.syncReqs.insert 0 (Finset.erase {5} 5) }

def endedState : Variables :=
  { observedState with syncReqs := observedState.syncReqs.erase 0 }

def syncStates : Nat → Variables
  | 0 => dirtyState
  | 1 => pendingState
  | 2 => persistedState
  | 3 => observedState
  | 4 => endedState
  | _ => { endedState with store := crashStore endedState.store }

def syncLabels : Nat → Op × Step
  | 0 => (.start 0 (.syncInput {5}), .newSyncTicket)
  | 1 => (.internalOp, .persist 5)
  | 2 => (.internalOp, .observeCleanForSync 0 5)
  | 3 => (.endOp 0 .syncOutput, .consumeSyncStub)
  | _ => (.crashOp, .crash)

def syncRun : abstractCacheSteps.Behavior where
  length := 5
  states := syncStates
  labels := syncLabels
  starts := ⟨rfl, rfl⟩
  steps
    | 0, _ => ⟨0, {5}, rfl, rfl, rfl⟩
    | 1, _ => ⟨rfl, ⟨[1], [2]⟩, by simp [syncStates, pendingState, dirtyState], rfl⟩
    | 2, _ => ⟨rfl, {5}, persistElem ⟨[1], [2]⟩, by simp [syncStates, persistedState, pendingState],
        by simp [syncStates, persistedState], rfl, rfl⟩
    | 3, _ => ⟨0, rfl, by simp [syncStates, observedState], rfl⟩
    | 4, _ => ⟨rfl, rfl, rfl, rfl⟩

/-- The value that was readable when the sync was started survives the crash. -/
theorem sync_durable_persisted : (syncRun.states 5).store 5 = some ⟨[2], [2]⟩ := by
  have noWrite : ∀ t data, ¬ WritesKey (syncRun.states t) (syncRun.labels t).2 5 data := by
    rintro (_ | _ | _ | _ | t) data ⟨_, ⟨⟩, _⟩
  have noHavoc : ∀ t < syncRun.length, ¬ HavocsKey (syncRun.states t) (syncRun.labels t).2 5 := by
    rintro (_ | _ | _ | _ | t) - ⟨_, ⟨⟩, _⟩
  have between : ∀ t, 0 < t → t < 3 → (syncRun.labels t).1 = .internalOp := by
    rintro (_ | _ | _ | t) positive below
    · omega
    · rfl
    · rfl
    · omega
  obtain ⟨-, readable, -⟩ := sync_durable syncRun 5 0 {5} 0 3 4 noHavoc rfl (by simp) (by decide)
    rfl (fun t gt lt input => by simp [between t gt lt]) (fun t gt lt => by simp [between t gt lt])
    (by decide) (by decide) rfl
  exact readable [1] [2] (by simp [syncRun, syncStates, dirtyState]) fun t _ _ => noWrite t

end VerifiedBetrfs.AbstractCache
