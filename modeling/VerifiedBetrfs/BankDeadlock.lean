import VerifiedBetrfs.BankTransfer
import Mathlib.Data.Fintype.Order

/-!
# Transfers that wait for each other

Some concurrent transfers can come to wait for each other exactly if their sources and
destinations form a cycle.
-/

namespace VerifiedBetrfs.BankImplementation

open Function (update update_of_ne update_self)

variable {Thread Account : Type} [DecidableEq Thread] [DecidableEq Account]

/-- Every thread is at the start of its call. -/
def startState (shared : Shared Account) (calls : Thread → TransferCall Account) :
    State Thread Account :=
  ⟨shared, fun thread => .acquireSource (calls thread)⟩

/-- One thread takes its next step. -/
def ThreadStep (s s' : State Thread Account) : Prop :=
  ∃ thread, perform s (.run thread) = some s'

def ReachedFrom (s s' : State Thread Account) : Prop := Relation.ReflTransGen ThreadStep s s'

def Returned (pc : Pc Account) : Prop := ∃ success, pc = .transferred success

def CanStep (s : State Thread Account) (thread : Thread) : Prop :=
  (step s.shared (s.pc thread)).isSome

/-- As long as some call has not returned, one such call can take its next
step. -/
def DeadlockFree (shared : Shared Account) (calls : Thread → TransferCall Account) : Prop :=
  ∀ s, ReachedFrom (startState shared calls) s → (∃ thread, ¬ Returned (s.pc thread)) →
    ∃ thread, ¬ Returned (s.pc thread) ∧ CanStep s thread

/-- Some call holds the lock of the first account while it waits for that of the
second. -/
def WaitsFor (calls : Thread → TransferCall Account) (account account' : Account) : Prop :=
  ∃ thread, (calls thread).source = account ∧ (calls thread).dest = account'

/-- Nothing is locked and the tokens agree with the balances. -/
structure Fresh [Fintype Account] (shared : Shared Account) : Prop where
  unlocked : ∀ account, shared.locked account = false
  tokens : shared.token = shared.balance
  bank : Bank.Inv shared.balance

section Blocked

/-- The thread is inside its call or has returned from it. -/
def InCall (call : TransferCall Account) (pc : Pc Account) : Prop :=
  pc.call? = some call ∨ Returned pc

variable {shared : Shared Account} {pc : Pc Account} {call : TransferCall Account}

theorem inCall_step {shared' : Shared Account} {pc' : Pc Account}
    (isStep : step shared pc = some (shared', pc')) (inCall : InCall call pc)
    (inRange : pc' ≠ .outOfRange) : InCall call pc' := by
  rcases inCall with isCall | ⟨_, rfl⟩
  · cases pc with
    | acquireSource | acquireDest =>
      obtain ⟨_, _, ⟨⟩⟩ := Option.map_eq_some_iff.mp isStep
      exact Or.inl isCall
    | takeSource | takeDest | giveSource | unlockSource | giveDest =>
      cases isStep
      exact Or.inl isCall
    | update call' sourceBalance destBalance =>
      rw [step] at isStep
      split at isStep
      · split at isStep
        · cases isStep
          exact Or.inl isCall
        · cases isStep
          exact absurd rfl inRange
      · cases isStep
        exact Or.inl isCall
    | unlockDest =>
      cases isStep
      exact Or.inr ⟨_, rfl⟩
    | _ => cases isCall
  · cases isStep

/-- A thread inside a call is stopped by a lock only. -/
theorem blocked_cases (isCall : pc.call? = some call) (blocked : step shared pc = none) :
    (pc = .acquireSource call ∧ shared.locked call.source = true) ∨
      ∃ sourceBalance, pc = .acquireDest call sourceBalance ∧
        shared.locked call.dest = true := by
  have isLocked : ∀ {account}, acquire shared account = none → shared.locked account = true := by
    intro account failed
    rw [acquire] at failed
    by_contra unlocked
    rw [if_neg unlocked] at failed
    cases failed
  cases pc with
  | acquireSource call' =>
    cases isCall
    exact Or.inl ⟨rfl, isLocked (Option.map_eq_none_iff.mp blocked)⟩
  | acquireDest call' sourceBalance =>
    cases isCall
    exact Or.inr ⟨sourceBalance, rfl, isLocked (Option.map_eq_none_iff.mp blocked)⟩
  | update call' sourceBalance destBalance =>
    rw [step] at blocked
    split at blocked
    · split at blocked <;> cases blocked
    · cases blocked
  | takeSource | takeDest | giveSource | unlockSource | giveDest | unlockDest => cases blocked
  | _ => cases isCall

end Blocked

section Reached

variable [Fintype Account] {shared : Shared Account} {calls : Thread → TransferCall Account}
  {s s' : State Thread Account}

/-- What holds in every reached state. -/
structure Running (calls : Thread → TransferCall Account) (s : State Thread Account) : Prop where
  inv : Inv s
  inCall : ∀ thread, InCall (calls thread) (s.pc thread)

omit [DecidableEq Thread] in
theorem running_startState (fresh : Fresh shared)
    (distinct : ∀ thread, (calls thread).source ≠ (calls thread).dest) :
    Running calls (startState shared calls) := by
  refine ⟨⟨⟨fresh.tokens ▸ fresh.bank, fun account _ => by rw [startState, fresh.tokens],
    Bank.balance_le fresh.bank⟩, ?_, nofun, ?_⟩, fun thread => Or.inl rfl⟩
  · intro thread
    refine ⟨?_, nofun, nofun, nofun, nofun, nofun⟩
    rintro _ ⟨⟩
    exact distinct thread
  · intro account isLocked
    rw [startState, fresh.unlocked] at isLocked
    cases isLocked

theorem running_step (running : Running calls s) (isStep : ThreadStep s s') : Running calls s' := by
  obtain ⟨thread, performed⟩ := isStep
  have valid : (Action.run thread : Action Thread Account).Valid := trivial
  have inv := inv_perform running.inv valid performed
  obtain ⟨⟨_, _⟩, isOwn, rfl⟩ := Option.map_eq_some_iff.mp performed
  refine ⟨inv, fun other => ?_⟩
  have inRange := (inv.threads other).inRange
  dsimp only at inRange ⊢
  by_cases same : other = thread
  · subst same
    rw [update_self] at inRange ⊢
    exact inCall_step isOwn (running.inCall other) inRange
  · rw [update_of_ne same]
    exact running.inCall other

theorem running_reached (running : Running calls s) (reached : ReachedFrom s s') :
    Running calls s' := by
  induction reached with
  | refl => exact running
  | tail _ isStep ih => exact running_step ih isStep

omit [DecidableEq Thread] in
/-- If no call that is left can take a step, every locked account waits for
another one. -/
theorem exists_waitsFor (running : Running calls s)
    (blocked : ∀ thread, ¬ Returned (s.pc thread) → ¬ CanStep s thread) {account : Account}
    (isLocked : s.shared.locked account = true) :
    ∃ account', s.shared.locked account' = true ∧ WaitsFor calls account account' := by
  obtain ⟨thread, isHeld⟩ := running.inv.holder account isLocked
  have notReturned : ¬ Returned (s.pc thread) := by
    rintro ⟨_, returned⟩
    rw [returned] at isHeld
    cases isHeld
  have isCall := (running.inCall thread).resolve_right notReturned
  have noStep := Option.not_isSome_iff_eq_none.mp (blocked thread notReturned)
  rcases blocked_cases isCall noStep with ⟨isPc, _⟩ | ⟨_, isPc, destLocked⟩
  · rw [isPc] at isHeld
    cases isHeld
  · rw [isPc] at isHeld
    exact ⟨_, destLocked, thread, (List.mem_singleton.mp isHeld).symm, rfl⟩

theorem deadlockFree_of_acyclic (fresh : Fresh shared)
    (distinct : ∀ thread, (calls thread).source ≠ (calls thread).dest)
    (acyclic : ∀ account, ¬ Relation.TransGen (WaitsFor calls) account account) :
    DeadlockFree shared calls := by
  intro s reached unfinished
  have running := running_reached (running_startState fresh distinct) reached
  by_contra! blocked
  obtain ⟨thread, notReturned⟩ := unfinished
  have isCall := (running.inCall thread).resolve_right notReturned
  have noStep := Option.not_isSome_iff_eq_none.mp (blocked thread notReturned)
  have someLocked : ∃ account, s.shared.locked account = true := by
    rcases blocked_cases isCall noStep with ⟨_, isLocked⟩ | ⟨_, _, isLocked⟩
    · exact ⟨_, isLocked⟩
    · exact ⟨_, isLocked⟩
  let waitedFor : Account → Account → Prop := fun account' account =>
    Relation.TransGen (WaitsFor calls) account account'
  have irreflexive : Std.Irrefl waitedFor := ⟨acyclic⟩
  have wellFounded : WellFounded waitedFor := Finite.wellFounded_of_trans_of_irrefl waitedFor
  -- A locked account that waits for no other locked account.
  obtain ⟨account, isLocked, last⟩ :=
    wellFounded.has_min { account | s.shared.locked account = true } someLocked
  obtain ⟨account', isLocked', waits⟩ := exists_waitsFor running blocked isLocked
  exact last account' isLocked' (Relation.TransGen.single waits)

end Reached

section Cycle

/-- A bound on the number of steps a thread has left. -/
def Pc.stepsLeft : Pc Account → Nat
  | acquireSource _ => 9
  | takeSource _ => 8
  | acquireDest _ _ => 7
  | takeDest _ _ => 6
  | update _ _ _ => 5
  | giveSource _ _ _ _ => 4
  | unlockSource _ _ _ => 3
  | giveDest _ _ _ => 2
  | unlockDest _ _ => 1
  | acquireAccount _ => 5
  | takeAccount _ => 4
  | checkBound _ _ => 3
  | giveAccount _ _ => 2
  | unlockAccount _ _ => 1
  | _ => 0

theorem stepsLeft_step {shared shared' : Shared Account} {pc pc' : Pc Account}
    (isStep : step shared pc = some (shared', pc')) : pc'.stepsLeft < pc.stepsLeft := by
  cases pc with
  | acquireSource | acquireDest | acquireAccount =>
    obtain ⟨_, _, ⟨⟩⟩ := Option.map_eq_some_iff.mp isStep
    simp [Pc.stepsLeft]
  | update call sourceBalance destBalance =>
    rw [step] at isStep
    split at isStep
    · split at isStep <;> cases isStep <;> simp [Pc.stepsLeft]
    · cases isStep
      simp [Pc.stepsLeft]
  | checkBound account balance =>
    rw [step] at isStep
    split at isStep <;> cases isStep <;> simp [Pc.stepsLeft]
  | idle | transferred | outOfRange | bounded | assertionFailed => cases isStep
  | _ =>
    cases isStep
    simp [Pc.stepsLeft]

theorem exists_exhausted [Fintype Thread] (s : State Thread Account) :
    ∃ s', ReachedFrom s s' ∧ ∀ thread, ¬ CanStep s' thread := by
  induction isTotal : ∑ thread, (s.pc thread).stepsLeft using Nat.strong_induction_on
    generalizing s with
  | _ total ih =>
    by_cases exhausted : ∀ thread, ¬ CanStep s thread
    · exact ⟨s, Relation.ReflTransGen.refl, exhausted⟩
    · push Not at exhausted
      obtain ⟨thread, canStep⟩ := exhausted
      obtain ⟨⟨shared, pc⟩, isStep⟩ := Option.isSome_iff_exists.mp canStep
      have performed : perform s (.run thread) =
          some ⟨shared, update s.pc thread pc⟩ := by
        rw [perform, isStep]
        rfl
      have less : ∑ other, (update s.pc thread pc other).stepsLeft < total := by
        rw [← isTotal]
        refine Finset.sum_lt_sum (fun other _ => ?_) ⟨thread, Finset.mem_univ thread, ?_⟩
        · by_cases same : other = thread
          · rw [same, update_self]
            exact (stepsLeft_step isStep).le
          · rw [update_of_ne same]
        · rw [update_self]
          exact stepsLeft_step isStep
      obtain ⟨s', reached, exhausted⟩ := ih _ less ⟨shared, update s.pc thread pc⟩ rfl
      exact ⟨s', Relation.ReflTransGen.head ⟨thread, performed⟩ reached, exhausted⟩

variable {shared : Shared Account} {calls : Thread → TransferCall Account}

/-- The chosen calls for some accounts have locked their sources. -/
def lockedState (shared : Shared Account) (calls : Thread → TransferCall Account)
    (chosen : Account → Thread) (accounts : Finset Account) : State Thread Account where
  shared := { shared with locked := fun account => decide (account ∈ accounts) }
  pc := fun thread =>
    if (calls thread).source ∈ accounts ∧ chosen (calls thread).source = thread then
      .acquireDest (calls thread) (shared.balance (calls thread).source)
    else .acquireSource (calls thread)

theorem reached_lockedState (unlocked : ∀ account, shared.locked account = false)
    {chosen : Account → Thread} {accounts : Finset Account}
    (source : ∀ account ∈ accounts, (calls (chosen account)).source = account) :
    ReachedFrom (startState shared calls) (lockedState shared calls chosen accounts) := by
  induction accounts using Finset.induction_on with
  | empty =>
    have same : lockedState shared calls chosen ∅ = startState shared calls := by
      have isShared : (fun _ => false) = shared.locked := (funext unlocked).symm
      simp [lockedState, startState, isShared]
    rw [same]
    exact Relation.ReflTransGen.refl
  | insert account accounts fresh ih =>
    have earlier := ih fun other member => source other (Finset.mem_insert_of_mem member)
    have isSource := source account (Finset.mem_insert_self account accounts)
    have atStart : (lockedState shared calls chosen accounts).pc (chosen account) =
        .acquireSource (calls (chosen account)) := by
      rw [lockedState]
      dsimp only
      rw [if_neg]
      rw [isSource]
      exact fun chosenBefore => fresh chosenBefore.1
    have first : perform (lockedState shared calls chosen accounts) (.run (chosen account)) =
        some ⟨lock (lockedState shared calls chosen accounts).shared account,
          update (lockedState shared calls chosen accounts).pc (chosen account)
            (.takeSource (calls (chosen account)))⟩ := by
      rw [perform, atStart, step, acquire, isSource, if_neg (by simp [lockedState, fresh])]
      rfl
    have second : perform ⟨lock (lockedState shared calls chosen accounts).shared account,
          update (lockedState shared calls chosen accounts).pc (chosen account)
            (.takeSource (calls (chosen account)))⟩ (.run (chosen account)) =
        some (lockedState shared calls chosen (insert account accounts)) := by
      rw [perform]
      dsimp only
      rw [update_self, step, Option.map_some, Function.update_idem]
      congr 2
      · refine congrArg (fun locked => { shared with locked := locked }) (funext fun other => ?_)
        by_cases same : other = account
        · simp [lockedState, same]
        · simp [lockedState, same]
      · funext thread
        by_cases same : thread = chosen account
        · subst same
          simp [lockedState, isSource, lock]
        · have notChosen : ¬ ((calls thread).source = account ∧
              chosen (calls thread).source = thread) :=
            fun isChosen => same (isChosen.2.symm.trans (congrArg chosen isChosen.1))
          rw [update_of_ne same]
          simp only [lockedState, Finset.mem_insert]
          congr 1
          refine propext ⟨fun isChosen => ⟨Or.inr isChosen.1, isChosen.2⟩, fun isChosen => ?_⟩
          rcases isChosen.1 with here | before
          · exact absurd ⟨here, isChosen.2⟩ notChosen
          · exact ⟨before, isChosen.2⟩
    exact (earlier.tail ⟨_, first⟩).tail ⟨_, second⟩

/-- The chosen calls for some accounts hold their sources and wait for their
destinations. -/
structure WaitInCycle (calls : Thread → TransferCall Account) (chosen : Account → Thread)
    (accounts : Finset Account) (s : State Thread Account) : Prop where
  waiting : ∀ account ∈ accounts, ∃ sourceBalance,
    s.pc (chosen account) = .acquireDest (calls (chosen account)) sourceBalance
  locked : ∀ account ∈ accounts, s.shared.locked account = true

variable {chosen : Account → Thread} {accounts : Finset Account}

theorem waitInCycle_lockedState
    (source : ∀ account ∈ accounts, (calls (chosen account)).source = account) :
    WaitInCycle calls chosen accounts (lockedState shared calls chosen accounts) := by
  constructor
  · intro account member
    refine ⟨shared.balance account, ?_⟩
    rw [lockedState]
    dsimp only
    rw [source account member, if_pos ⟨member, rfl⟩]
  · intro account member
    exact decide_eq_true member

variable [Fintype Account] {s s' : State Thread Account}

section

variable (running : Running calls s)
  (source : ∀ account ∈ accounts, (calls (chosen account)).source = account)
  (dest : ∀ account ∈ accounts, (calls (chosen account)).dest ∈ accounts)
  (waits : WaitInCycle calls chosen accounts s)

include running source dest waits

/-- If the destinations are among the accounts too, the wait never ends. -/
theorem waitInCycle_step (isStep : ThreadStep s s') : WaitInCycle calls chosen accounts s' := by
  obtain ⟨thread, performed⟩ := isStep
  obtain ⟨⟨_, pc'⟩, isOwn, rfl⟩ := Option.map_eq_some_iff.mp performed
  have effect := step_effect (running.inv.threads thread) running.inv.shared isOwn
  have notChosen : ∀ account ∈ accounts, chosen account ≠ thread := by
    rintro account member rfl
    obtain ⟨sourceBalance, isPc⟩ := waits.waiting account member
    rw [isPc, step, acquire, if_pos (waits.locked _ (dest account member))] at isOwn
    cases isOwn
  constructor
  · intro account member
    dsimp only
    rw [update_of_ne (notChosen account member)]
    exact waits.waiting account member
  · intro account member
    have isLocked := waits.locked account member
    obtain ⟨sourceBalance, isPc⟩ := waits.waiting account member
    have isHeld : account ∈ (s.pc (chosen account)).held := by
      rw [isPc, Pc.held, source account member]
      exact List.mem_cons_self
    have notHeld : account ∉ (s.pc thread).held := fun here =>
      notChosen account member (running.inv.exclusive _ _ account isHeld here)
    have notAcquired : account ∉ pc'.held := by
      intro acquired
      rw [effect.acquired account acquired notHeld] at isLocked
      cases isLocked
    rw [(effect.frame account notHeld).2.2 notAcquired, isLocked]

theorem waitInCycle_reached (reached : ReachedFrom s s') :
    WaitInCycle calls chosen accounts s' := by
  induction reached with
  | refl => exact waits
  | tail before isStep ih =>
    exact waitInCycle_step (running_reached running before) source dest ih isStep

end

omit [DecidableEq Thread] [DecidableEq Account] in
theorem exists_chosen {account : Account}
    (cycle : Relation.TransGen (WaitsFor calls) account account) :
    ∃ (chosen : Account → Thread) (accounts : Finset Account), account ∈ accounts ∧
      (∀ other ∈ accounts, (calls (chosen other)).source = other) ∧
      ∀ other ∈ accounts, (calls (chosen other)).dest ∈ accounts := by
  classical
  let accounts : Finset Account := Finset.univ.filter fun other =>
    Relation.TransGen (WaitsFor calls) account other ∧
      Relation.TransGen (WaitsFor calls) other account
  have next : ∀ other, ∃ thread, other ∈ accounts →
      (calls thread).source = other ∧ (calls thread).dest ∈ accounts := by
    obtain ⟨_, ⟨someThread, _⟩, _⟩ := Relation.TransGen.head'_iff.mp cycle
    intro other
    by_cases member : other ∈ accounts
    · obtain ⟨forth, back⟩ := (Finset.mem_filter.mp member).2
      obtain ⟨_, ⟨thread, isSource, isDest⟩, rest⟩ := Relation.TransGen.head'_iff.mp back
      refine ⟨thread, fun _ => ⟨isSource, Finset.mem_filter.mpr ⟨Finset.mem_univ _, ?_, ?_⟩⟩⟩
      · exact forth.tail ⟨thread, isSource, rfl⟩
      · rw [isDest]
        exact Relation.TransGen.trans_right rest cycle
    · exact ⟨someThread, fun present => absurd present member⟩
  choose chosen isNext using next
  exact ⟨chosen, accounts, Finset.mem_filter.mpr ⟨Finset.mem_univ _, cycle, cycle⟩,
    fun other member => (isNext other member).1, fun other member => (isNext other member).2⟩

end Cycle

/-- Concurrent calls never block each other exactly if their sources and
destinations form no cycle. -/
theorem deadlockFree_iff [Fintype Thread] [Fintype Account] {shared : Shared Account}
    {calls : Thread → TransferCall Account} (fresh : Fresh shared)
    (distinct : ∀ thread, (calls thread).source ≠ (calls thread).dest) :
    DeadlockFree shared calls ↔
      ∀ account, ¬ Relation.TransGen (WaitsFor calls) account account := by
  refine ⟨fun deadlockFree account cycle => ?_, deadlockFree_of_acyclic fresh distinct⟩
  obtain ⟨chosen, accounts, member, source, dest⟩ := exists_chosen cycle
  have running := running_startState fresh distinct
  have toLocked : ReachedFrom (startState shared calls)
      (lockedState shared calls chosen accounts) := reached_lockedState fresh.unlocked source
  obtain ⟨s, reached, exhausted⟩ := exists_exhausted (lockedState shared calls chosen accounts)
  have waits := waitInCycle_reached (running_reached running toLocked) source dest
    (waitInCycle_lockedState source) reached
  have unfinished : ¬ Returned (s.pc (chosen account)) := by
    rintro ⟨_, isReturned⟩
    obtain ⟨_, isPc⟩ := waits.waiting account member
    rw [isPc] at isReturned
    cases isReturned
  obtain ⟨thread, _, canStep⟩ :=
    deadlockFree s (toLocked.trans reached) ⟨chosen account, unfinished⟩
  exact exhausted thread canStep

/-- A transfer of one coin between the first two accounts, and one back. -/
def thereAndBack : Bool → TransferCall (Fin Bank.numberOfAccounts)
  | false => ⟨account 0, account 1, 1⟩
  | true => ⟨account 1, account 0, 1⟩

theorem fresh_richStart : Fresh richStart.shared :=
  { initial_richStart with }

/-- After each of the two calls has locked its source, both wait for ever. -/
theorem not_deadlockFree_thereAndBack :
    Fresh richStart.shared ∧ (∀ thread, (thereAndBack thread).source ≠ (thereAndBack thread).dest) ∧
      ¬ DeadlockFree richStart.shared thereAndBack := by
  refine ⟨fresh_richStart, by decide, fun deadlockFree => ?_⟩
  have source : ∀ account ∈ ({0, 1} : Finset (Fin Bank.numberOfAccounts)),
      (thereAndBack (account ≠ 0)).source = account := by decide
  have reached := reached_lockedState fresh_richStart.unlocked source
  obtain ⟨thread, _, canStep⟩ := deadlockFree _ reached ⟨false, by
    rintro ⟨_, isReturned⟩
    cases isReturned⟩
  have blocked : ∀ thread, ¬ CanStep (lockedState richStart.shared thereAndBack
      (fun account => account ≠ 0) {0, 1}) thread := by
    unfold CanStep
    decide
  exact blocked thread canStep

/-- Transfers to accounts with larger numbers do not block each other. -/
def upwards : Bool → TransferCall (Fin Bank.numberOfAccounts)
  | false => ⟨account 0, account 1, 1⟩
  | true => ⟨account 1, account 2, 1⟩

theorem deadlockFree_upwards : DeadlockFree richStart.shared upwards := by
  refine (deadlockFree_iff fresh_richStart (by decide)).mpr fun account cycle => ?_
  have increasing : ∀ account account', WaitsFor upwards account account' → account < account' := by
    unfold WaitsFor
    decide
  have less : ∀ account', Relation.TransGen (WaitsFor upwards) account account' →
      account < account' := by
    intro account' path
    induction path with
    | single waits => exact increasing _ _ waits
    | tail _ waits ih => exact ih.trans (increasing _ _ waits)
  exact lt_irrefl account (less account cycle)

end VerifiedBetrfs.BankImplementation
