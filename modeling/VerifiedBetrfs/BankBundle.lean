import VerifiedBetrfs.BankTransfer

/-!
# The generated code of the transfers

The transfers as compiled to C++: numbers have 32 bits, and the check of the balance is always true.
-/

namespace VerifiedBetrfs

open Function (update update_eq_self update_of_ne update_self)

variable {Account : Type} [DecidableEq Account]

namespace BankImplementation

/-- One thread runs to its end, if it does so within the given number of steps. -/
def runAlone (shared : Shared Account) : Nat → Pc Account → Option (Shared Account × Bool)
  | _, .transferred success => some (shared, success)
  | 0, _ => none
  | steps + 1, pc => (step shared pc).bind fun (shared, pc) => runAlone shared steps pc

/-- The outcome of a transfer and the balances after it. -/
def tryAccountTransfer (balance : Account → Nat) (call : TransferCall Account) :
    Option (Bool × (Account → Nat)) :=
  (runAlone ⟨fun _ => false, balance, balance⟩ 9 (.acquireSource call)).map
    fun (shared, success) => (success, shared.balance)

variable {call : TransferCall Account} {balance : Account → Nat}

theorem tryAccountTransfer_self (same : call.source = call.dest) :
    tryAccountTransfer balance call = none := by
  simp [tryAccountTransfer, runAlone, step, acquire, lock, same]

theorem tryAccountTransfer_refused (distinct : call.source ≠ call.dest)
    (refused : balance call.source < call.amount) :
    tryAccountTransfer balance call = some (false, balance) := by
  have notEnough : ¬ call.amount ≤ balance call.source := not_le.mpr refused
  simp [tryAccountTransfer, runAlone, step, acquire, lock, give, unlock, distinct.symm, notEnough]

theorem tryAccountTransfer_done (distinct : call.source ≠ call.dest)
    (enough : call.amount ≤ balance call.source)
    (sourceBound : balance call.source < 0x8000000000000000)
    (destBound : balance call.dest + call.amount < 0x8000000000000000) :
    tryAccountTransfer balance call = some (true, update
      (update balance call.source (balance call.source - call.amount))
      call.dest (balance call.dest + call.amount)) := by
  simp [tryAccountTransfer, runAlone, step, acquire, lock, give, unlock, distinct.symm, enough,
    newBalances_eq enough sourceBound destBound]

end BankImplementation

namespace BankBundle

open BankImplementation (TransferCall)

/-- The mutexes of the accounts and what they hold. -/
structure AccountSeq (Account : Type) where
  locked : Account → Bool
  balance : Account → Int32

section

variable (accountSeq : AccountSeq Account)

/-- The compare-and-set loop of a mutex, which never ends if the mutex is locked. -/
def acquire (account : Account) : Option (Int32 × AccountSeq Account) :=
  if accountSeq.locked account then none
  else some (accountSeq.balance account,
    { accountSeq with locked := Function.update accountSeq.locked account true })

/-- The mutex is unlocked with a new balance. -/
def release (account : Account) (balance : Int32) : AccountSeq Account where
  locked := Function.update accountSeq.locked account false
  balance := Function.update accountSeq.balance account balance

/-- The generated code of a transfer. -/
def tryAccountTransfer (source dest : Account)
    (amount : Int32) : Option (Bool × AccountSeq Account) := do
  let (sourceBalance, accountSeq) ← acquire accountSeq source
  let (destBalance, accountSeq) ← acquire accountSeq dest
  let (success, newSourceBalance, newDestBalance) :=
    if true || amount ≤ sourceBalance then
      let a : Int64 := sourceBalance.toInt64
      let b : Int64 := destBalance.toInt64
      let c : Int64 := amount.toInt64
      let d := a - c
      let e := b + c
      (true, d.toInt32, e.toInt32)
    else
      (false, sourceBalance, destBalance)
  let accountSeq := release accountSeq source newSourceBalance
  let accountSeq := release accountSeq dest newDestBalance
  return (success, accountSeq)

end

def ofBalances (balance : Account → Nat) : AccountSeq Account where
  locked := fun _ => false
  balance := fun account => Int32.ofNat (balance account)

theorem tryAccountTransfer_self {accountSeq : AccountSeq Account} (account : Account)
    (amount : Int32) : tryAccountTransfer accountSeq account account amount = none := by
  by_cases locked : accountSeq.locked account = true <;> simp [tryAccountTransfer, acquire, locked]

theorem tryAccountTransfer_ofBalances (balance : Account → Nat) {source dest : Account}
    (distinct : source ≠ dest) (amount : Int32) :
    ∃ locked, tryAccountTransfer (ofBalances balance) source dest amount = some (true,
      { locked
        balance := update (update (ofBalances balance).balance source
          ((Int32.ofNat (balance source)).toInt64 - amount.toInt64).toInt32) dest
          ((Int32.ofNat (balance dest)).toInt64 + amount.toInt64).toInt32 }) := by
  simp [tryAccountTransfer, acquire, release, ofBalances, distinct.symm]

/-- Run alone, the generated code and the method have the same outcome and leave the same
balances. -/
def Agrees (balance : Account → Nat) (call : TransferCall Account) : Prop :=
  (tryAccountTransfer (ofBalances balance) call.source call.dest (Int32.ofNat call.amount)).map
      (fun (success, accountSeq) => (success, fun account => (accountSeq.balance account).toInt)) =
    (BankImplementation.tryAccountTransfer balance call).map
      (fun (success, balance) => (success, fun account => (balance account : Int)))

/-- The difference is computed with 64 bits and fits into 32 bits. -/
theorem toInt_newSourceBalance {sourceBalance amount : Nat} (sourceFits : sourceBalance < 2 ^ 31)
    (amountFits : amount < 2 ^ 31) :
    ((Int32.ofNat sourceBalance).toInt64 - (Int32.ofNat amount).toInt64).toInt32.toInt =
      (sourceBalance : Int) - amount := by
  have wide : ((Int32.ofNat sourceBalance).toInt64 - (Int32.ofNat amount).toInt64).toInt =
      (sourceBalance : Int) - amount := by
    rw [Int64.toInt_sub, Int32.toInt_toInt64, Int32.toInt_toInt64,
      Int32.toInt_ofNat_of_lt sourceFits, Int32.toInt_ofNat_of_lt amountFits]
    exact Int.bmod_eq_of_le (by omega) (by omega)
  rw [Int64.toInt_toInt32, wide]
  exact Int.bmod_eq_of_le (by omega) (by omega)

/-- The sum is computed with 64 bits, and then cut off to 32 bits. -/
theorem toInt_newDestBalance {destBalance amount : Nat} (destFits : destBalance < 2 ^ 31)
    (amountFits : amount < 2 ^ 31) :
    ((Int32.ofNat destBalance).toInt64 + (Int32.ofNat amount).toInt64).toInt32.toInt =
      ((destBalance : Int) + amount).bmod (2 ^ 32) := by
  have wide : ((Int32.ofNat destBalance).toInt64 + (Int32.ofNat amount).toInt64).toInt =
      (destBalance : Int) + amount := by
    rw [Int64.toInt_add, Int32.toInt_toInt64, Int32.toInt_toInt64,
      Int32.toInt_ofNat_of_lt destFits, Int32.toInt_ofNat_of_lt amountFits]
    exact Int.bmod_eq_of_le (by omega) (by omega)
  rw [Int64.toInt_toInt32, wide]

theorem map_tryAccountTransfer {balance : Account → Nat} {call : TransferCall Account}
    (distinct : call.source ≠ call.dest) (balanceFits : ∀ account, balance account < 2 ^ 31)
    (amountFits : call.amount < 2 ^ 31) :
    (tryAccountTransfer (ofBalances balance) call.source call.dest (Int32.ofNat call.amount)).map
      (fun (success, accountSeq) => (success, fun account => (accountSeq.balance account).toInt)) =
    some (true, update (update (fun account => (balance account : Int))
      call.source ((balance call.source : Int) - call.amount))
      call.dest (((balance call.dest : Int) + call.amount).bmod (2 ^ 32))) := by
  obtain ⟨_, ran⟩ := tryAccountTransfer_ofBalances balance distinct (Int32.ofNat call.amount)
  rw [ran]
  simp only [Option.map_some, Option.some.injEq, Prod.mk.injEq, true_and]
  ext account
  by_cases isDest : account = call.dest
  · subst isDest
    simp only [update_self]
    exact toInt_newDestBalance (balanceFits _) amountFits
  · by_cases isSource : account = call.source
    · subst isSource
      simp only [update_of_ne isDest, update_self]
      exact toInt_newSourceBalance (balanceFits _) amountFits
    · simp only [update_of_ne isDest, update_of_ne isSource]
      exact Int32.toInt_ofNat_of_lt (balanceFits account)

theorem agrees_iff (balance : Account → Nat) (call : TransferCall Account)
    (balanceFits : ∀ account, balance account < 2 ^ 31) (amountFits : call.amount < 2 ^ 31) :
    Agrees balance call ↔ call.source = call.dest ∨
      (call.amount ≤ balance call.source ∧ balance call.dest + call.amount < 2 ^ 31) := by
  by_cases same : call.source = call.dest
  · have neither : Agrees balance call := by
      rw [Agrees, BankImplementation.tryAccountTransfer_self same, ← same, tryAccountTransfer_self]
      rfl
    exact iff_of_true neither (Or.inl same)
  have sourceFits := balanceFits call.source
  have destFits := balanceFits call.dest
  rw [Agrees, map_tryAccountTransfer same balanceFits amountFits, or_iff_right same]
  by_cases enough : call.amount ≤ balance call.source
  · rw [BankImplementation.tryAccountTransfer_done same enough (by omega) (by omega)]
    simp only [Option.map_some, Option.some.injEq, Prod.mk.injEq, true_and, enough]
    constructor
    · intro sameBalances
      have atDest := congrFun sameBalances call.dest
      simp only [Function.update_self, Nat.cast_add] at atDest
      have low := Int.bmod_lt (x := (balance call.dest : Int) + call.amount)
        (m := 2 ^ 32) (by omega)
      omega
    · intro sumFits
      have unchanged : ((balance call.dest : Int) + call.amount).bmod (2 ^ 32) =
          (balance call.dest : Int) + call.amount :=
        Int.bmod_eq_of_le (by omega) (by omega)
      rw [unchanged]
      ext account
      by_cases isDest : account = call.dest
      · subst isDest
        simp
      · by_cases isSource : account = call.source
        · subst isSource
          simp [isDest, enough]
        · simp [isDest, isSource]
  · rw [BankImplementation.tryAccountTransfer_refused same (not_le.mp enough)]
    simp [enough]

/-- An account with enough money pays another. -/
theorem agrees_funded : Agrees (fun _ : Bool => 5) ⟨false, true, 3⟩ :=
  (agrees_iff (fun _ => 5) ⟨false, true, 3⟩ (by decide) (by decide)).mpr (by decide)

/-- A transfer out of an empty account: the method refuses it, and the generated
code makes a debt of it. -/
theorem not_agrees_unfunded : ¬ Agrees (fun _ : Bool => 0) ⟨false, true, 1⟩ := by
  intro agrees
  rw [Agrees, map_tryAccountTransfer (by decide) (by decide) (by decide),
    BankImplementation.tryAccountTransfer_refused (by decide) (by decide)] at agrees
  simp at agrees

end BankBundle

end VerifiedBetrfs
