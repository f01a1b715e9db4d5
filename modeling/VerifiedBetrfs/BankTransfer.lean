import Mathlib.Algebra.BigOperators.Ring.Finset
import Mathlib.Algebra.Order.BigOperators.Group.Finset
import Mathlib.Data.Fintype.BigOperators

/-!
# Transfers between bank accounts

A transfer locks its two accounts one after the other.  Threads interleave, and the ghost tokens of
the accounts make up the abstract bank, in which a transfer is one step.
-/

namespace VerifiedBetrfs

open Function (update update_apply update_of_ne update_self)

namespace Bank

abbrev numberOfAccounts : Nat := 7

def fixedTotalMoney : Nat := 300

/-- A transfer, as the state machine sees it. -/
structure AccountTransfer (Account : Type) where
  sourceAccount : Account
  destAccount : Account
  money : Nat

variable {Account : Type} [DecidableEq Account]

/-- The step of the state machine for a transfer. -/
structure Transfer (balances balances' : Account → Nat) (transfer : AccountTransfer Account) :
    Prop where
  distinct : transfer.sourceAccount ≠ transfer.destAccount
  enough : transfer.money ≤ balances transfer.sourceAccount
  moved : balances' = update
    (update balances transfer.sourceAccount
      (balances transfer.sourceAccount - transfer.money))
    transfer.destAccount (balances transfer.destAccount + transfer.money)

variable [Fintype Account]

/-- The tokens are a bank, and each thread holds what its place says. -/
def Inv (balances : Account → Nat) : Prop := ∑ account, balances account = fixedTotalMoney

theorem sum_update (balances : Account → Nat) (account : Account) (value : Nat) :
    (∑ other, update balances account value other) + balances account =
      (∑ other, balances other) + value := by
  rw [← Finset.add_sum_erase _ _ (Finset.mem_univ account),
    ← Finset.add_sum_erase _ balances (Finset.mem_univ account), update_self]
  have others : ∑ other ∈ Finset.univ.erase account, update balances account value other =
      ∑ other ∈ Finset.univ.erase account, balances other := by
    refine Finset.sum_congr rfl fun other member => ?_
    rw [update_of_ne (Finset.ne_of_mem_erase member)]
  omega

theorem transfer_preservesInv {balances balances' : Account → Nat}
    {transfer : AccountTransfer Account} (inv : Inv balances)
    (step : Transfer balances balances' transfer) : Inv balances' := by
  have taken := sum_update balances transfer.sourceAccount
    (balances transfer.sourceAccount - transfer.money)
  have given := sum_update (update balances transfer.sourceAccount
    (balances transfer.sourceAccount - transfer.money)) transfer.destAccount
    (balances transfer.destAccount + transfer.money)
  rw [update_of_ne step.distinct.symm] at given
  have enough := step.enough
  rw [Inv] at inv ⊢
  rw [step.moved]
  omega

omit [DecidableEq Account] in
theorem balance_le {balances : Account → Nat} (inv : Inv balances) (account : Account) :
    balances account ≤ fixedTotalMoney := by
  rw [← inv]
  exact Finset.single_le_sum (fun _ _ => Nat.zero_le _) (Finset.mem_univ account)

end Bank

namespace BankImplementation

variable {Account : Type}

/-- A conversion to the non-negative 64-bit type. -/
def nat64 (i : Int) : Option Nat :=
  if 0 ≤ i ∧ i.toNat < 0x8000000000000000 then some i.toNat else none

/-- The locks and the contents of the mutexes, and the ghost balances of the
tokens. -/
structure Shared (Account : Type) where
  locked : Account → Bool
  balance : Account → Nat
  token : Account → Nat

/-- The arguments of `TryAccountTransfer`. -/
structure TransferCall (Account : Type) where
  source : Account
  dest : Account
  amount : Nat

/-- Where a thread is, with the values of its local variables. -/
inductive Pc (Account : Type) where
  | idle
  -- `TryAccountTransfer`
  | acquireSource (call : TransferCall Account)
  | takeSource (call : TransferCall Account)
  | acquireDest (call : TransferCall Account) (sourceBalance : Nat)
  | takeDest (call : TransferCall Account) (sourceBalance : Nat)
  | update (call : TransferCall Account) (sourceBalance destBalance : Nat)
  | giveSource (call : TransferCall Account) (newSourceBalance newDestBalance : Nat)
      (success : Bool)
  | unlockSource (call : TransferCall Account) (newDestBalance : Nat) (success : Bool)
  | giveDest (call : TransferCall Account) (newDestBalance : Nat) (success : Bool)
  | unlockDest (call : TransferCall Account) (success : Bool)
  | transferred (success : Bool)
  | outOfRange
  -- `AssertAccountIsNotTooRich`
  | acquireAccount (account : Account)
  | takeAccount (account : Account)
  | checkBound (account : Account) (balance : Nat)
  | giveAccount (account : Account) (balance : Nat)
  | unlockAccount (account : Account) (balance : Nat)
  | bounded (balance : Nat)
  | assertionFailed

/-- The balances after a transfer, computed in the 64-bit type. -/
def newBalances (sourceBalance destBalance amount : Nat) : Option (Nat × Nat) := do
  let a ← nat64 sourceBalance
  let b ← nat64 destBalance
  let c ← nat64 amount
  let d ← nat64 ((a : Int) - c)
  let e ← nat64 ((b : Int) + c)
  return (d, e)

section Steps

variable [DecidableEq Account]

/-- The ghost transfer between the tokens of two accounts. -/
def doTransfer (token : Account → Nat) (call : TransferCall Account) : Account → Nat :=
  update (update token call.source (token call.source - call.amount))
    call.dest (token call.dest + call.amount)

section

variable (shared : Shared Account) (account : Account)

def lock : Shared Account := { shared with locked := update shared.locked account true }

/-- The compare-and-set of a mutex.  A thread that finds the mutex locked goes on
trying. -/
def acquire : Option (Shared Account) :=
  if shared.locked account then none else some (lock shared account)

def give (balance : Nat) : Shared Account :=
  { shared with balance := update shared.balance account balance }

def unlock : Shared Account := { shared with locked := update shared.locked account false }

end

/-- The next action of a thread, if it has one and does not wait for a lock. -/
def step (shared : Shared Account) : Pc Account → Option (Shared Account × Pc Account)
  | .idle => none
  | .acquireSource call => (acquire shared call.source).map fun shared =>
    (shared, .takeSource call)
  | .takeSource call => some (shared, .acquireDest call (shared.balance call.source))
  | .acquireDest call sourceBalance => (acquire shared call.dest).map fun shared =>
    (shared, .takeDest call sourceBalance)
  | .takeDest call sourceBalance =>
    some (shared, .update call sourceBalance (shared.balance call.dest))
  | .update call sourceBalance destBalance =>
    if call.amount ≤ sourceBalance then
      match newBalances sourceBalance destBalance call.amount with
      | some (newSourceBalance, newDestBalance) =>
        some ({ shared with token := doTransfer shared.token call },
          .giveSource call newSourceBalance newDestBalance true)
      | none => some (shared, .outOfRange)
    else
      some (shared, .giveSource call sourceBalance destBalance false)
  | .giveSource call newSourceBalance newDestBalance success =>
    some (give shared call.source newSourceBalance, .unlockSource call newDestBalance success)
  | .unlockSource call newDestBalance success =>
    some (unlock shared call.source, .giveDest call newDestBalance success)
  | .giveDest call newDestBalance success =>
    some (give shared call.dest newDestBalance, .unlockDest call success)
  | .unlockDest call success => some (unlock shared call.dest, .transferred success)
  | .transferred _ | .outOfRange => none
  | .acquireAccount account => (acquire shared account).map fun shared =>
    (shared, .takeAccount account)
  | .takeAccount account => some (shared, .checkBound account (shared.balance account))
  | .checkBound account balance =>
    some (shared, if balance ≤ 300 then .giveAccount account balance else .assertionFailed)
  | .giveAccount account balance =>
    some (give shared account balance, .unlockAccount account balance)
  | .unlockAccount account balance => some (unlock shared account, .bounded balance)
  | .bounded _ | .assertionFailed => none

section

variable (shared : Shared Account) (account other : Account)

include shared account other

@[simp]
theorem locked_lock :
    (lock shared account).locked other = if other = account then true else shared.locked other :=
  update_apply shared.locked account true other

@[simp]
theorem balance_give (balance : Nat) : (give shared account balance).balance other =
      if other = account then balance else shared.balance other :=
  update_apply shared.balance account balance other

@[simp]
theorem locked_unlock : (unlock shared account).locked other =
      if other = account then false else shared.locked other :=
  update_apply shared.locked account false other

end

theorem acquire_eq_some {shared shared' : Shared Account} {account : Account} :
    acquire shared account = some shared' ↔
      shared.locked account = false ∧ shared' = lock shared account := by
  rw [acquire]
  cases isLocked : shared.locked account
  · simp [eq_comm]
  · simp

end Steps

namespace Pc

/-- The accounts whose locks a thread holds. -/
def held : Pc Account → List Account
  | takeSource call | acquireDest call _ => [call.source]
  | takeDest call _ => [call.source, call.dest]
  | update call _ _ => [call.source, call.dest]
  | giveSource call _ _ _ => [call.source, call.dest]
  | unlockSource call _ _ => [call.source, call.dest]
  | giveDest call _ _ | unlockDest call _ => [call.dest]
  | takeAccount account => [account]
  | checkBound account _ => [account]
  | giveAccount account _ => [account]
  | unlockAccount account _ => [account]
  | _ => []

/-- The balances that a thread has in its local variables. -/
def copies : Pc Account → List (Account × Nat)
  | acquireDest call sourceBalance | takeDest call sourceBalance => [(call.source, sourceBalance)]
  | update call sourceBalance destBalance =>
    [(call.source, sourceBalance), (call.dest, destBalance)]
  | giveSource call newSourceBalance newDestBalance _ =>
    [(call.source, newSourceBalance), (call.dest, newDestBalance)]
  | unlockSource call newDestBalance _ => [(call.dest, newDestBalance)]
  | giveDest call newDestBalance _ => [(call.dest, newDestBalance)]
  | checkBound account balance | giveAccount account balance => [(account, balance)]
  | _ => []

/-- The call of a transfer that has not returned. -/
def call? : Pc Account → Option (TransferCall Account)
  | acquireSource call => some call
  | takeSource call => some call
  | acquireDest call _ => some call
  | takeDest call _ => some call
  | update call _ _ => some call
  | giveSource call _ _ _ => some call
  | unlockSource call _ _ => some call
  | giveDest call _ _ => some call
  | unlockDest call _ => some call
  | _ => none

/-- A transfer that has written the source and not yet the destination. -/
def BetweenUpdates : Pc Account → Prop
  | unlockSource _ _ success | giveDest _ _ success => success = true
  | _ => False

variable [DecidableEq Account]

/-- What a thread has yet to add to the contents of a mutex. -/
def pending : Pc Account → Account → Int
  | giveSource call _ _ true, account =>
    (if account = call.dest then (call.amount : Int) else 0) -
      (if account = call.source then (call.amount : Int) else 0)
  | unlockSource call _ true, account => if account = call.dest then call.amount else 0
  | giveDest call _ true, account => if account = call.dest then call.amount else 0
  | _, _ => 0

end Pc

section Invariant

variable [DecidableEq Account] [Fintype Account] {sourceBalance destBalance : Nat}

/-- What a thread knows about the accounts it holds. -/
structure ThreadInv (shared : Shared Account) (pc : Pc Account) : Prop where
  distinct : ∀ call ∈ pc.call?, call.source ≠ call.dest
  locked : ∀ account ∈ pc.held, shared.locked account = true
  contents : ∀ account ∈ pc.held,
    (shared.token account : Int) = shared.balance account + pc.pending account
  copies : ∀ copy ∈ pc.copies, copy.2 = shared.token copy.1
  inRange : pc ≠ .outOfRange
  asserted : pc ≠ .assertionFailed

/-- What is known about the accounts that nobody holds, and about all accounts. -/
structure SharedInv (shared : Shared Account) : Prop where
  bank : Bank.Inv shared.token
  free : ∀ account, shared.locked account = false →
    shared.balance account = shared.token account
  bounded : ∀ account, shared.balance account ≤ Bank.fixedTotalMoney

/-- What one action of a thread does. -/
structure StepEffect (shared shared' : Shared Account) (pc pc' : Pc Account) : Prop where
  thread : ThreadInv shared' pc'
  bank : shared'.token = shared.token ∨
    ∃ transfer, Bank.Transfer shared.token shared'.token transfer
  frame : ∀ account, account ∉ pc.held → shared'.balance account = shared.balance account ∧
    shared'.token account = shared.token account ∧
    (account ∉ pc'.held → shared'.locked account = shared.locked account)
  acquired : ∀ account ∈ pc'.held, account ∉ pc.held → shared.locked account = false
  released : ∀ account ∈ pc.held, account ∉ pc'.held → shared'.locked account = false ∧
    shared'.balance account = shared'.token account
  bounded : ∀ account, shared'.balance account ≤ Bank.fixedTotalMoney

theorem nat64_natCast {n : Nat} (small : n < 0x8000000000000000) : nat64 n = some n := by
  rw [nat64, Int.toNat_natCast, if_pos ⟨Int.natCast_nonneg n, small⟩]

theorem newBalances_eq {amount : Nat} (enough : amount ≤ sourceBalance)
    (sourceBound : sourceBalance < 0x8000000000000000)
    (destBound : destBalance + amount < 0x8000000000000000) :
    newBalances sourceBalance destBalance amount =
      some (sourceBalance - amount, destBalance + amount) := by
  have difference : nat64 ((sourceBalance : Int) - amount) = some (sourceBalance - amount) := by
    rw [← Int.natCast_sub enough, nat64_natCast (by omega)]
  have sum : nat64 ((destBalance : Int) + amount) = some (destBalance + amount) := by
    rw [← Int.natCast_add, nat64_natCast destBound]
  simp only [newBalances, nat64_natCast sourceBound,
    nat64_natCast (by omega : destBalance < 0x8000000000000000),
    nat64_natCast (by omega : amount < 0x8000000000000000), difference, sum,
    Option.bind_eq_bind, Option.bind_some, Option.pure_def]

variable {shared shared' : Shared Account} {pc pc' : Pc Account} {account : Account}

section

variable (threadInv : ThreadInv shared pc)

include threadInv

omit [Fintype Account] in
theorem ThreadInv.balance_eq (member : account ∈ pc.held) (settled : pc.pending account = 0) :
    shared.balance account = shared.token account := by
  have contents := threadInv.contents account member
  rw [settled, add_zero] at contents
  exact (Int.ofNat_inj.mp contents).symm

section

variable (sharedInv : SharedInv shared) (inRange : pc' ≠ .outOfRange)
  (asserted : pc' ≠ .assertionFailed)

include sharedInv inRange asserted

theorem effect_acquire (isAcquire : acquire shared account = some shared')
    (held : pc'.held = pc.held ++ [account]) (settled : ∀ other, pc.pending other = 0)
    (settled' : ∀ other, pc'.pending other = 0) (copies : pc'.copies = pc.copies)
    (call : pc'.call? = pc.call?) : StepEffect shared shared' pc pc' := by
  obtain ⟨free, rfl⟩ := acquire_eq_some.mp isAcquire
  refine ⟨⟨call ▸ threadInv.distinct, ?_, ?_, copies ▸ threadInv.copies, inRange, asserted⟩,
    Or.inl rfl, ?_, ?_, ?_, sharedInv.bounded⟩
  · intro other member
    rw [held, List.mem_append, List.mem_singleton] at member
    rw [locked_lock]
    split
    · rfl
    · exact threadInv.locked other (member.resolve_right (by assumption))
  · intro other member
    rw [held, List.mem_append, List.mem_singleton] at member
    rw [settled', add_zero]
    rcases member with old | rfl
    · exact congrArg Nat.cast (threadInv.balance_eq old (settled other)).symm
    · exact congrArg Nat.cast (sharedInv.free other free).symm
  · intro other _
    refine ⟨rfl, rfl, fun notHeld => ?_⟩
    rw [held, List.mem_append, List.mem_singleton, not_or] at notHeld
    rw [locked_lock, if_neg notHeld.2]
  · intro other member notHeld
    rw [held, List.mem_append, List.mem_singleton] at member
    rw [member.resolve_left notHeld]
    exact free
  · intro other member notHeld
    rw [held] at notHeld
    exact absurd (List.mem_append_left _ member) notHeld

theorem effect_take (held : pc'.held = pc.held) (present : account ∈ pc.held)
    (settled : ∀ other, pc.pending other = 0) (settled' : ∀ other, pc'.pending other = 0)
    (copies : pc'.copies = pc.copies ++ [(account, shared.balance account)])
    (call : pc'.call? = pc.call?) : StepEffect shared shared pc pc' := by
  refine ⟨⟨call ▸ threadInv.distinct, held ▸ threadInv.locked, ?_, ?_, inRange, asserted⟩,
    Or.inl rfl, fun other _ => ⟨rfl, rfl, fun _ => rfl⟩, ?_, ?_, sharedInv.bounded⟩
  · intro other member
    rw [held] at member
    rw [settled', add_zero, threadInv.balance_eq member (settled other)]
  · intro copy member
    rw [copies, List.mem_append, List.mem_singleton] at member
    rcases member with old | rfl
    · exact threadInv.copies copy old
    · exact threadInv.balance_eq present (settled account)
  · exact fun other member notHeld => absurd (held ▸ member) notHeld
  · exact fun other member notHeld => absurd (held.symm ▸ member) notHeld

variable (others : ∀ other, other ≠ account → pc'.pending other = pc.pending other)
  (copies : pc'.copies ⊆ pc.copies)

include others copies

theorem effect_give {value : Nat} (held : pc'.held = pc.held) (present : account ∈ pc.held)
    (isCopy : (account, value) ∈ pc.copies) (settled : pc'.pending account = 0)
    (call : pc'.call? = pc.call?) : StepEffect shared (give shared account value) pc pc' := by
  have isToken : value = shared.token account := threadInv.copies _ isCopy
  refine ⟨⟨call ▸ threadInv.distinct, held ▸ threadInv.locked, ?_,
    fun copy member => threadInv.copies copy (copies member), inRange, asserted⟩,
    Or.inl rfl, ?_, ?_, ?_, ?_⟩
  · intro other member
    rw [held] at member
    rw [balance_give]
    split_ifs with same
    · rw [same, settled, add_zero]
      exact congrArg Nat.cast isToken.symm
    · rw [others other same]
      exact threadInv.contents other member
  · intro other notHeld
    have differ : other ≠ account := fun same => notHeld (same ▸ present)
    exact ⟨by rw [balance_give, if_neg differ], rfl, fun _ => rfl⟩
  · exact fun other member notHeld => absurd (held ▸ member) notHeld
  · exact fun other member notHeld => absurd (held.symm ▸ member) notHeld
  · intro other
    rw [balance_give]
    split
    · rw [isToken]
      exact Bank.balance_le sharedInv.bank account
    · exact sharedInv.bounded other

theorem effect_unlock (held : ∀ other, other ∈ pc.held ↔ other ∈ pc'.held ∨ other = account)
    (notHeld : account ∉ pc'.held) (settled : pc.pending account = 0)
    (call : ∀ call ∈ pc'.call?, call ∈ pc.call?) :
    StepEffect shared (unlock shared account) pc pc' := by
  have stillHeld : ∀ other ∈ pc'.held, other ≠ account ∧ other ∈ pc.held := by
    intro other member
    exact ⟨fun same => notHeld (same ▸ member), (held other).mpr (Or.inl member)⟩
  refine ⟨⟨fun c isCall => threadInv.distinct c (call c isCall), ?_, ?_,
    fun copy member => threadInv.copies copy (copies member), inRange, asserted⟩,
    Or.inl rfl, ?_, ?_, ?_, sharedInv.bounded⟩
  · intro other member
    obtain ⟨differ, before⟩ := stillHeld other member
    rw [locked_unlock, if_neg differ]
    exact threadInv.locked other before
  · intro other member
    obtain ⟨differ, before⟩ := stillHeld other member
    rw [others other differ]
    exact threadInv.contents other before
  · intro other notBefore
    have differ : other ≠ account := fun same => notBefore ((held other).mpr (Or.inr same))
    exact ⟨rfl, rfl, fun _ => by rw [locked_unlock, if_neg differ]⟩
  · exact fun other member notBefore => absurd (stillHeld other member).2 notBefore
  · intro other member notAfter
    obtain rfl := ((held other).mp member).resolve_left notAfter
    exact ⟨by rw [locked_unlock, if_pos rfl], threadInv.balance_eq member settled⟩

end

end

theorem effect_update (sharedInv : SharedInv shared) {call : TransferCall Account}
    (threadInv : ThreadInv shared (.update call sourceBalance destBalance))
    (isStep : step shared (.update call sourceBalance destBalance) = some (shared', pc')) :
    StepEffect shared shared' (.update call sourceBalance destBalance) pc' := by
  have distinct : call.source ≠ call.dest := threadInv.distinct call rfl
  have isSource : sourceBalance = shared.token call.source := threadInv.copies _ List.mem_cons_self
  have isDest : destBalance = shared.token call.dest :=
    threadInv.copies _ (List.mem_cons_of_mem _ List.mem_cons_self)
  have contents : ∀ account ∈ [call.source, call.dest],
      (shared.token account : Int) = shared.balance account + 0 := threadInv.contents
  rw [step] at isStep
  by_cases enough : call.amount ≤ sourceBalance
  · have sourceBound := Bank.balance_le sharedInv.bank call.source
    have destBound := Bank.balance_le sharedInv.bank call.dest
    rw [Bank.fixedTotalMoney] at sourceBound destBound
    rw [if_pos enough, newBalances_eq enough (by omega) (by omega)] at isStep
    cases isStep
    have token : ∀ account, doTransfer shared.token call account =
        if account = call.dest then shared.token call.dest + call.amount
        else if account = call.source then shared.token call.source - call.amount
        else shared.token account := by
      intro account
      rw [doTransfer, update_apply, update_apply]
    refine ⟨⟨threadInv.distinct, threadInv.locked, ?_, ?_, nofun, nofun⟩,
      Or.inr ⟨⟨call.source, call.dest, call.amount⟩, distinct, isSource ▸ enough, rfl⟩, ?_,
      fun _ => absurd, fun _ => absurd, sharedInv.bounded⟩
    · intro account member
      have before := contents account member
      dsimp only [Pc.pending]
      rw [token]
      rcases List.mem_pair.mp member with rfl | rfl
      · rw [if_neg distinct, if_pos rfl, if_neg distinct, if_pos rfl]
        omega
      · rw [if_pos rfl, if_pos rfl, if_neg distinct.symm]
        omega
    · intro copy member
      dsimp only
      rw [token]
      rcases List.mem_pair.mp member with rfl | rfl
      · rw [if_neg distinct, if_pos rfl, isSource]
      · rw [if_pos rfl, isDest]
    · intro account notHeld
      have notDest : account ≠ call.dest := fun same => notHeld (by rw [same]; simp [Pc.held])
      have notSource : account ≠ call.source :=
        fun same => notHeld (by rw [same]; simp [Pc.held])
      refine ⟨rfl, ?_, fun _ => rfl⟩
      dsimp only
      rw [token, if_neg notDest, if_neg notSource]
  · rw [if_neg enough] at isStep
    cases isStep
    exact ⟨⟨threadInv.distinct, threadInv.locked, contents, threadInv.copies, nofun, nofun⟩,
      Or.inl rfl, fun _ _ => ⟨rfl, rfl, fun _ => rfl⟩,
      fun _ => absurd, fun _ => absurd, sharedInv.bounded⟩

theorem step_effect (threadInv : ThreadInv shared pc) (sharedInv : SharedInv shared)
    (isStep : step shared pc = some (shared', pc')) : StepEffect shared shared' pc pc' := by
  cases pc with
  | idle => cases isStep
  | acquireSource call | acquireDest call sourceBalance | acquireAccount account =>
    obtain ⟨shared'', isAcquire, ⟨⟩⟩ := Option.map_eq_some_iff.mp isStep
    exact effect_acquire threadInv sharedInv nofun nofun isAcquire rfl (fun _ => rfl)
      (fun _ => rfl) rfl rfl
  | takeSource call | takeAccount account =>
    cases isStep
    exact effect_take threadInv sharedInv nofun nofun rfl List.mem_cons_self (fun _ => rfl)
      (fun _ => rfl) rfl rfl
  | takeDest call sourceBalance =>
    cases isStep
    exact effect_take threadInv sharedInv nofun nofun rfl
      (List.mem_cons_of_mem _ List.mem_cons_self) (fun _ => rfl) (fun _ => rfl) rfl rfl
  | update call sourceBalance destBalance => exact effect_update sharedInv threadInv isStep
  | giveSource call newSourceBalance newDestBalance success =>
    cases isStep
    have distinct : call.source ≠ call.dest := threadInv.distinct call rfl
    refine effect_give threadInv sharedInv (by nofun) (by nofun) ?_ (List.subset_cons_self _ _)
      rfl List.mem_cons_self List.mem_cons_self ?_ rfl
    · intro other differ
      cases success with
      | false => rfl
      | true => simp [Pc.pending, differ]
    · cases success with
      | false => rfl
      | true => exact if_neg distinct
  | unlockSource call newDestBalance success =>
    cases isStep
    have distinct : call.source ≠ call.dest := threadInv.distinct call rfl
    refine effect_unlock threadInv sharedInv nofun nofun ?_ (List.Subset.refl _) ?_
      (by simp [Pc.held, distinct]) ?_ (fun _ isCall => isCall)
    · intro other _
      cases success <;> rfl
    · intro other
      simp [Pc.held, or_comm]
    · cases success with
      | false => rfl
      | true => exact if_neg distinct
  | giveDest call newDestBalance success =>
    cases isStep
    refine effect_give threadInv sharedInv (by nofun) (by nofun) ?_ (List.nil_subset _) rfl
      List.mem_cons_self List.mem_cons_self rfl rfl
    intro other differ
    cases success with
    | false => rfl
    | true => exact (if_neg differ).symm
  | unlockDest call success | unlockAccount account balance =>
    cases isStep
    exact effect_unlock threadInv sharedInv nofun nofun (fun _ _ => rfl) (List.Subset.refl _)
      (by simp [Pc.held]) (by simp [Pc.held]) rfl nofun
  | transferred success | outOfRange => cases isStep
  | checkBound account balance =>
    have isToken : balance = shared.token account := threadInv.copies _ List.mem_cons_self
    have bound := Bank.balance_le sharedInv.bank account
    rw [step, if_pos (isToken ▸ bound)] at isStep
    cases isStep
    exact ⟨⟨nofun, threadInv.locked, threadInv.contents, threadInv.copies, nofun, nofun⟩,
      Or.inl rfl, fun _ _ => ⟨rfl, rfl, fun _ => rfl⟩,
      fun _ => absurd, fun _ => absurd, sharedInv.bounded⟩
  | giveAccount account balance =>
    cases isStep
    refine effect_give threadInv sharedInv (by nofun) (by nofun) ?_ (List.nil_subset _) rfl
      List.mem_cons_self List.mem_cons_self rfl rfl
    exact fun _ _ => rfl
  | bounded balance | assertionFailed => cases isStep

end Invariant

/-- The methods of the bank. -/
inductive Call (Account : Type) where
  | tryAccountTransfer (call : TransferCall Account)
  | assertAccountIsNotTooRich (account : Account)

namespace Call

/-- What the caller promises. -/
def Valid : Call Account → Prop
  | tryAccountTransfer call => call.source ≠ call.dest
  | assertAccountIsNotTooRich _ => True

def start : Call Account → Pc Account
  | tryAccountTransfer call => .acquireSource call
  | assertAccountIsNotTooRich account => .acquireAccount account

end Call

/-- What the threads share, and where each thread is. -/
structure State (Thread Account : Type) where
  shared : Shared Account
  pc : Thread → Pc Account

/-- A thread makes a call, takes a step or returns. -/
inductive Action (Thread Account : Type) where
  | call (thread : Thread) (call : Call Account)
  | run (thread : Thread)
  | ret (thread : Thread)

/-- The actions in which a thread begins or ends a call. -/
def Action.Delimits {Thread : Type} (thread : Thread) : Action Thread Account → Prop
  | call other _ => other = thread
  | run _ => False
  | ret other => other = thread

/-- The arguments of a call are as its contract asks for. -/
def Action.Valid {Thread : Type} : Action Thread Account → Prop
  | call _ c => c.Valid
  | run _ | ret _ => True

section Threads

variable {Thread : Type} [DecidableEq Thread] [DecidableEq Account]

/-- What an action does, if it is possible. -/
def perform (s : State Thread Account) : Action Thread Account → Option (State Thread Account)
  | .call thread call =>
    match s.pc thread with
    | .idle => some { s with pc := update s.pc thread call.start }
    | _ => none
  | .run thread => (step s.shared (s.pc thread)).map fun (shared, pc) =>
    ⟨shared, update s.pc thread pc⟩
  | .ret thread =>
    match s.pc thread with
    | .transferred _ => some { s with pc := update s.pc thread .idle }
    | .bounded _ => some { s with pc := update s.pc thread .idle }
    | _ => none

def runs (s : State Thread Account) (actions : List (Action Thread Account)) :
    Option (State Thread Account) :=
  actions.foldlM perform s

variable [Fintype Account]

/-- No call is running, and the bank has its money. -/
structure Initial (s : State Thread Account) : Prop where
  idle : ∀ thread, s.pc thread = .idle
  unlocked : ∀ account, s.shared.locked account = false
  tokens : s.shared.token = s.shared.balance
  bank : Bank.Inv s.shared.balance

structure Inv (s : State Thread Account) : Prop where
  shared : SharedInv s.shared
  threads : ∀ thread, ThreadInv s.shared (s.pc thread)
  exclusive : ∀ thread thread' account, account ∈ (s.pc thread).held →
    account ∈ (s.pc thread').held → thread = thread'
  holder : ∀ account, s.shared.locked account = true → ∃ thread, account ∈ (s.pc thread).held

variable {s s' : State Thread Account} {pc pc' : Pc Account} {shared shared' : Shared Account}
  {thread : Thread} {action : Action Thread Account}

omit [DecidableEq Thread] in
theorem inv_of_initial (initial : Initial s) : Inv s := by
  have nothing : ∀ thread, (s.pc thread).held = [] := by
    intro thread
    rw [initial.idle]
    rfl
  refine ⟨⟨initial.tokens ▸ initial.bank, fun account _ => by rw [initial.tokens],
    Bank.balance_le initial.bank⟩, fun thread => ?_, ?_, ?_⟩
  · rw [initial.idle]
    exact ⟨nofun, nofun, nofun, nofun, nofun, nofun⟩
  · intro thread thread' account member
    rw [nothing] at member
    cases member
  · intro account isLocked
    rw [initial.unlocked] at isLocked
    cases isLocked

omit [DecidableEq Account] [Fintype Account] in
theorem held_of_copy {copy : Account × Nat} (member : copy ∈ pc.copies) : copy.1 ∈ pc.held := by
  cases pc <;> simp only [Pc.copies, Pc.held, List.mem_cons, List.not_mem_nil, or_false] at member ⊢
  all_goals grind

omit [Fintype Account] in
/-- An action of one thread leaves the accounts of the others as they are. -/
theorem threadInv_frame {other : Pc Account} (effect : StepEffect shared shared' pc pc')
    (threadInv : ThreadInv shared other) (apart : ∀ account ∈ other.held, account ∉ pc.held) :
    ThreadInv shared' other := by
  refine { threadInv with locked := ?_, contents := ?_, copies := ?_ }
  · intro account member
    have isLocked := threadInv.locked account member
    have notAcquired : account ∉ pc'.held := by
      intro acquired
      rw [effect.acquired account acquired (apart account member)] at isLocked
      cases isLocked
    rw [(effect.frame account (apart account member)).2.2 notAcquired, isLocked]
  · intro account member
    obtain ⟨balance, token, -⟩ := effect.frame account (apart account member)
    rw [balance, token]
    exact threadInv.contents account member
  · intro copy member
    rw [(effect.frame copy.1 (apart copy.1 (held_of_copy member))).2.1]
    exact threadInv.copies copy member

theorem sharedInv_of_effect (effect : StepEffect shared shared' pc pc')
    (sharedInv : SharedInv shared) : SharedInv shared' := by
  refine ⟨?_, ?_, effect.bounded⟩
  · rcases effect.bank with same | ⟨_, isTransfer⟩
    · rw [same]
      exact sharedInv.bank
    · exact Bank.transfer_preservesInv sharedInv.bank isTransfer
  · intro account unlocked
    have notHeld : account ∉ pc'.held := by
      intro member
      rw [effect.thread.locked account member] at unlocked
      cases unlocked
    by_cases before : account ∈ pc.held
    · exact (effect.released account before notHeld).2
    · obtain ⟨balance, token, isLocked⟩ := effect.frame account before
      rw [balance, token]
      exact sharedInv.free account (isLocked notHeld ▸ unlocked)

theorem inv_run (inv : Inv s) (isStep : step s.shared (s.pc thread) = some (shared, pc)) :
    Inv ⟨shared, update s.pc thread pc⟩ := by
  have effect := step_effect (inv.threads thread) inv.shared isStep
  have apart : ∀ other, other ≠ thread → ∀ account ∈ (s.pc other).held,
      account ∉ (s.pc thread).held ∧ account ∉ pc.held := by
    intro other differ account member
    have notBefore : account ∉ (s.pc thread).held :=
      fun here => differ (inv.exclusive other thread account member here)
    refine ⟨notBefore, fun acquired => ?_⟩
    have isLocked := (inv.threads other).locked account member
    rw [effect.acquired account acquired notBefore] at isLocked
    cases isLocked
  refine ⟨sharedInv_of_effect effect inv.shared, ?_, ?_, ?_⟩
  · refine (Function.forall_update_iff _ fun _ => ThreadInv shared).mpr ⟨effect.thread, ?_⟩
    intro other differ
    exact threadInv_frame effect (inv.threads other)
      fun account member => (apart other differ account member).1
  · intro first second account
    dsimp only
    by_cases isFirst : first = thread
    · by_cases isSecond : second = thread
      · exact fun _ _ => isFirst.trans isSecond.symm
      · rw [isFirst, update_self, update_of_ne isSecond]
        exact fun here there => absurd here (apart second isSecond account there).2
    · rw [update_of_ne isFirst]
      by_cases isSecond : second = thread
      · rw [isSecond, update_self]
        exact fun there here => absurd here (apart first isFirst account there).2
      · rw [update_of_ne isSecond]
        exact inv.exclusive first second account
  · intro account isLocked
    dsimp only at isLocked ⊢
    by_cases after : account ∈ pc.held
    · exact ⟨thread, by rw [update_self]; exact after⟩
    have notBefore : account ∉ (s.pc thread).held := by
      intro before
      rw [(effect.released account before after).1] at isLocked
      cases isLocked
    rw [(effect.frame account notBefore).2.2 after] at isLocked
    obtain ⟨holder, member⟩ := inv.holder account isLocked
    have differ : holder ≠ thread := fun same => notBefore (same ▸ member)
    exact ⟨holder, by rw [update_of_ne differ]; exact member⟩

/-- A thread that holds no lock goes to another place where it holds none. -/
theorem inv_goto (inv : Inv s) (before : (s.pc thread).held = [])
    (threadInv : ThreadInv s.shared pc) (after : pc.held = []) :
    Inv { s with pc := update s.pc thread pc } := by
  have sameHeld : ∀ other, (update s.pc thread pc other).held = (s.pc other).held := by
    intro other
    by_cases same : other = thread
    · rw [same, update_self, after, before]
    · rw [update_of_ne same]
  refine ⟨inv.shared, ?_, ?_, ?_⟩
  · exact (Function.forall_update_iff _ fun _ => ThreadInv s.shared).mpr
      ⟨threadInv, fun other _ => inv.threads other⟩
  · intro first second account
    rw [sameHeld, sameHeld]
    exact inv.exclusive first second account
  · intro account isLocked
    obtain ⟨holder, member⟩ := inv.holder account isLocked
    refine ⟨holder, ?_⟩
    rw [sameHeld]
    exact member

omit [Fintype Account] in
theorem perform_cases (isStep : perform s action = some s') :
    (∃ thread call, action = .call thread call ∧ s.pc thread = .idle ∧
      s' = { s with pc := update s.pc thread call.start }) ∨
    (∃ thread shared pc, action = .run thread ∧
      step s.shared (s.pc thread) = some (shared, pc) ∧
      s' = ⟨shared, update s.pc thread pc⟩) ∨
    ∃ thread, action = .ret thread ∧ ((∃ success, s.pc thread = .transferred success) ∨
        ∃ balance, s.pc thread = .bounded balance) ∧
      s' = { s with pc := update s.pc thread .idle } := by
  cases action with
  | call thread call =>
    rw [perform] at isStep
    split at isStep
    · cases isStep
      exact Or.inl ⟨thread, call, rfl, by assumption, rfl⟩
    · cases isStep
  | run thread =>
    obtain ⟨⟨shared, pc⟩, isStep', ⟨⟩⟩ := Option.map_eq_some_iff.mp isStep
    exact Or.inr (Or.inl ⟨thread, shared, pc, rfl, isStep', rfl⟩)
  | ret thread =>
    rw [perform] at isStep
    split at isStep
    · cases isStep
      exact Or.inr (Or.inr ⟨thread, rfl, Or.inl ⟨_, by assumption⟩, rfl⟩)
    · cases isStep
      exact Or.inr (Or.inr ⟨thread, rfl, Or.inr ⟨_, by assumption⟩, rfl⟩)
    · cases isStep

theorem inv_perform (inv : Inv s) (valid : action.Valid) (isStep : perform s action = some s') :
    Inv s' := by
  rcases perform_cases isStep with ⟨thread, call, rfl, isIdle, rfl⟩ |
    ⟨thread, _, _, rfl, isOwn, rfl⟩ | ⟨thread, rfl, isReturned, rfl⟩
  · refine inv_goto inv (by rw [isIdle]; rfl) ?_ (by cases call <;> rfl)
    cases call with
    | tryAccountTransfer call =>
      refine ⟨?_, nofun, nofun, nofun, nofun, nofun⟩
      rintro _ ⟨⟩
      exact valid
    | assertAccountIsNotTooRich account => exact ⟨nofun, nofun, nofun, nofun, nofun, nofun⟩
  · exact inv_run inv isOwn
  · refine inv_goto inv ?_ ⟨nofun, nofun, nofun, nofun, nofun, nofun⟩ rfl
    rcases isReturned with ⟨_, isPc⟩ | ⟨_, isPc⟩
    · rw [isPc]
      rfl
    · rw [isPc]
      rfl

theorem inv_runs {actions : List (Action Thread Account)} (inv : Inv s)
    (valid : ∀ action ∈ actions, action.Valid) (ran : runs s actions = some s') : Inv s' := by
  induction actions generalizing s with
  | nil =>
    cases ran
    exact inv
  | cons action actions ih =>
    obtain ⟨_, isStep, rest⟩ := Option.bind_eq_some_iff.mp ran
    rw [List.forall_mem_cons] at valid
    exact ih (inv_perform inv valid.1 isStep) valid.2 rest

end Threads

section Conservation

variable {Thread : Type} [DecidableEq Thread] [DecidableEq Account] [Fintype Account]
  {s s' : State Thread Account} {pc pc' : Pc Account} {success : Bool}
  {shared shared' : Shared Account} {actions : List (Action Thread Account)}

omit [Fintype Account] in
theorem held_of_pending {account : Account} (owed : pc.pending account ≠ 0) :
    account ∈ pc.held := by
  cases pc with
  | giveSource call _ _ success | unlockSource call _ success | giveDest call _ success =>
    cases success <;> simp only [Pc.pending, Pc.held, List.mem_cons] at owed ⊢ <;> grind
  | _ => exact absurd rfl owed

theorem sum_pending (settled : ¬ pc.BetweenUpdates) : ∑ account, pc.pending account = 0 := by
  cases pc with
  | giveSource call _ _ success =>
    cases success with
    | false => exact Finset.sum_const_zero
    | true =>
      simp only [Pc.pending, Finset.sum_sub_distrib, Finset.sum_ite_eq', Finset.mem_univ,
        if_true, sub_self]
  | unlockSource call _ success | giveDest call _ success =>
    cases success with
    | false => exact Finset.sum_const_zero
    | true => exact absurd rfl settled
  | _ => exact Finset.sum_const_zero

omit [DecidableEq Thread] in
/-- The contents of a mutex and what the threads have yet to add make up the
token. -/
theorem token_eq [Fintype Thread] (inv : Inv s) (account : Account) :
    (s.shared.token account : Int) =
      s.shared.balance account + ∑ thread, (s.pc thread).pending account := by
  by_cases isHeld : ∃ thread, account ∈ (s.pc thread).held
  · obtain ⟨thread, member⟩ := isHeld
    rw [Finset.sum_eq_single thread]
    · exact (inv.threads thread).contents account member
    · intro other _ differ
      by_contra owed
      exact differ (inv.exclusive other thread account (held_of_pending owed) member)
    · exact fun absent => absurd (Finset.mem_univ thread) absent
  · have nobody : ∀ thread, (s.pc thread).pending account = 0 := by
      intro thread
      by_contra owed
      exact isHeld ⟨thread, held_of_pending owed⟩
    have unlocked : s.shared.locked account = false := by
      by_contra isLocked
      exact isHeld (inv.holder account (Bool.eq_true_of_not_eq_false isLocked))
    rw [Finset.sum_eq_zero fun thread _ => nobody thread, add_zero,
      inv.shared.free account unlocked]

omit [DecidableEq Thread] in
theorem sum_balance [Fintype Thread] (inv : Inv s)
    (settled : ∀ thread, ¬ (s.pc thread).BetweenUpdates) :
    ∑ account, s.shared.balance account = Bank.fixedTotalMoney := by
  have owed : ∑ account, ∑ thread, (s.pc thread).pending account = 0 := by
    rw [Finset.sum_comm]
    exact Finset.sum_eq_zero fun thread _ => sum_pending (settled thread)
  have total : (∑ account, (s.shared.token account : Int)) =
      ∑ account, (s.shared.balance account : Int) := by
    rw [Finset.sum_congr rfl fun account _ => token_eq inv account, Finset.sum_add_distrib, owed,
      add_zero]
  rw [← Nat.cast_sum, ← Nat.cast_sum] at total
  exact (Int.ofNat_inj.mp total).symm.trans inv.shared.bank

/-- The outcome of a transfer that has checked the balance of the source. -/
def Pc.success? : Pc Account → Option Bool
  | giveSource _ _ _ success | unlockSource _ _ success | giveDest _ _ success
  | unlockDest _ success | transferred success => some success
  | _ => none

omit [Fintype Account] in
theorem success?_step (isStep : step shared pc = some (shared', pc'))
    (decided : pc.success? = some success) : pc'.success? = some success := by
  cases pc with
  | giveSource | unlockSource | giveDest | unlockDest =>
    cases isStep
    exact decided
  | transferred => cases isStep
  | _ => cases decided

omit [Fintype Account] in
theorem balance_step (threadInv : ThreadInv shared pc)
    (isStep : step shared pc = some (shared', pc')) (noSuccess : pc.success? ≠ some true) :
    shared'.balance = shared.balance := by
  have rewritten : ∀ {account value}, account ∈ pc.held → pc.pending account = 0 →
      (account, value) ∈ pc.copies → (give shared account value).balance = shared.balance := by
    intro account value member settled isCopy
    have isToken : value = shared.token account := threadInv.copies _ isCopy
    exact Function.update_eq_self_iff.mpr (isToken.trans (threadInv.balance_eq member settled).symm)
  cases pc with
  | acquireSource | acquireDest | acquireAccount =>
    obtain ⟨_, isAcquire, ⟨⟩⟩ := Option.map_eq_some_iff.mp isStep
    rw [(acquire_eq_some.mp isAcquire).2]
    rfl
  | takeSource | takeDest | takeAccount | checkBound | unlockSource | unlockDest | unlockAccount =>
    cases isStep
    rfl
  | update call sourceBalance destBalance =>
    rw [step] at isStep
    split at isStep
    · split at isStep <;> cases isStep <;> rfl
    · cases isStep
      rfl
  | giveSource call newSourceBalance newDestBalance success
  | giveDest call newDestBalance success =>
    cases isStep
    cases success with
    | false => exact rewritten List.mem_cons_self rfl List.mem_cons_self
    | true => exact absurd rfl noSuccess
  | giveAccount account balance =>
    cases isStep
    exact rewritten List.mem_cons_self rfl List.mem_cons_self
  | idle | transferred | outOfRange | bounded | assertionFailed => cases isStep

omit [Fintype Account] in
theorem success?_runs {thread : Thread} (during : ∀ action ∈ actions, ¬ action.Delimits thread)
    (ran : runs s actions = some s') (decided : (s.pc thread).success? = some success) :
    (s'.pc thread).success? = some success := by
  induction actions generalizing s with
  | nil =>
    cases ran
    exact decided
  | cons action actions ih =>
    obtain ⟨_, isStep, rest⟩ := Option.bind_eq_some_iff.mp ran
    rw [List.forall_mem_cons] at during
    refine ih during.2 rest ?_
    rcases perform_cases isStep with ⟨other, _, rfl, _, rfl⟩ |
      ⟨other, _, _, rfl, isOwn, rfl⟩ | ⟨other, rfl, _, rfl⟩
    · have differ : thread ≠ other := fun same => during.1 same.symm
      dsimp only
      rw [update_of_ne differ]
      exact decided
    · dsimp only
      by_cases same : thread = other
      · subst same
        rw [update_self]
        exact success?_step isOwn decided
      · rw [update_of_ne same]
        exact decided
    · have differ : thread ≠ other := fun same => during.1 same.symm
      dsimp only
      rw [update_of_ne differ]
      exact decided

/-- Whatever the threads do, the balances stay in range, their sum is kept unless a transfer is half
done, nothing fails, and a transfer that returns false changes no balance. -/
theorem bank_conservation [Fintype Thread] {s s' : State Thread (Fin Bank.numberOfAccounts)}
    {actions : List (Action Thread (Fin Bank.numberOfAccounts))} (initial : Initial s)
    (valid : ∀ action ∈ actions, action.Valid) (ran : runs s actions = some s') :
    (∀ account, s'.shared.balance account < 0x8000000000000000) ∧
    ((∀ thread, ¬ (s'.pc thread).BetweenUpdates) →
      ∑ account, s'.shared.balance account = ∑ account, s.shared.balance account) ∧
    (∀ thread, s'.pc thread ≠ .outOfRange ∧ s'.pc thread ≠ .assertionFailed) ∧
    ∀ thread first rest before after, actions = first ++ .run thread :: rest →
      runs s first = some before → perform before (.run thread) = some after →
      (∀ action ∈ rest, ¬ action.Delimits thread) → s'.pc thread = .transferred false →
      after.shared.balance = before.shared.balance := by
  have inv := inv_runs (inv_of_initial initial) valid ran
  refine ⟨?_, ?_, ?_, ?_⟩
  · intro account
    exact lt_of_le_of_lt (inv.shared.bounded account) (by decide)
  · intro settled
    rw [sum_balance inv settled]
    exact initial.bank.symm
  · intro thread
    exact ⟨(inv.threads thread).inRange, (inv.threads thread).asserted⟩
  · rintro thread first rest before after rfl ranFirst isStep during returned
    rw [runs, List.foldlM_append] at ran
    obtain ⟨_, isMiddle, ranRest⟩ := Option.bind_eq_some_iff.mp ran
    obtain rfl := Option.some.inj (isMiddle.symm.trans ranFirst)
    rw [List.foldlM_cons, isStep] at ranRest
    rw [List.forall_mem_append] at valid
    have invBefore := inv_runs (inv_of_initial initial) valid.1 ranFirst
    have noSuccess : (after.pc thread).success? ≠ some true := by
      intro success
      have final := success?_runs during ranRest success
      rw [returned] at final
      cases final
    obtain ⟨⟨_, _⟩, isOwn, rfl⟩ := Option.map_eq_some_iff.mp isStep
    dsimp only at noSuccess ⊢
    rw [update_self] at noSuccess
    exact balance_step (invBefore.threads thread) isOwn
      fun success => noSuccess (success?_step isOwn success)

/-- The account with the given number. -/
def account (number : Nat) : Fin Bank.numberOfAccounts := Fin.ofNat _ number

/-- All the money is on the first account. -/
def richStart : State Bool (Fin Bank.numberOfAccounts) where
  shared :=
    { locked := fun _ => false
      balance := fun id => if id = account 0 then Bank.fixedTotalMoney else 0
      token := fun id => if id = account 0 then Bank.fixedTotalMoney else 0 }
  pc := fun _ => .idle

theorem initial_richStart : Initial richStart where
  idle := fun _ => rfl
  unlocked := fun _ => rfl
  tokens := rfl
  bank := by
    unfold Bank.Inv
    decide

/-- Two transfers in turns: one that fails and one that waits for its locks. -/
def twoTransfers : List (Action Bool (Fin Bank.numberOfAccounts)) :=
  [.call false (.tryAccountTransfer ⟨account 1, account 0, 5⟩),
    .call true (.tryAccountTransfer ⟨account 0, account 2, 100⟩)] ++
  List.replicate 9 (.run false) ++ List.replicate 6 (.run true)

theorem bank_conservation_twoTransfers : ∃ s', runs richStart twoTransfers = some s' ∧
    s'.pc false = .transferred false ∧ (s'.pc true).BetweenUpdates ∧
    ∀ account, s'.shared.balance account < 0x8000000000000000 := by
  obtain ⟨s', ran⟩ := Option.isSome_iff_exists.mp
    (by decide : (runs richStart twoTransfers).isSome = true)
  have valid : ∀ action ∈ twoTransfers, action.Valid := by
    simp [twoTransfers, Action.Valid, Call.Valid, account]
  have conserved := bank_conservation initial_richStart valid ran
  refine ⟨s', ran, ?_, ?_, conserved.1⟩
  · cases ran
    rfl
  · cases ran
    rfl

end Conservation

end BankImplementation

end VerifiedBetrfs
