import VerifiedBetrfs.KeyType
import Mathlib.Algebra.Group.Action.Defs
import Mathlib.Algebra.Divisibility.Basic

/-!
# Messages

A message defines the value of a key or is a delta that modifies what older messages define.
-/

namespace VerifiedBetrfs

universe u v

/-- A message over values `V` and deltas `D`. -/
inductive MessageOf (V : Type u) (D : Type v) where
  | define (value : V)
  | update (delta : D)
deriving DecidableEq

namespace MessageOf

variable {V : Type u} {D : Type v} [Monoid D] [MulAction D V]

/-- The message that has the effect of the older message followed by the newer
one. -/
def merge : MessageOf V D → MessageOf V D → MessageOf V D
  | .define newvalue, _ => .define newvalue
  | .update newdelta, .update olddelta => .update (newdelta * olddelta)
  | .update delta, .define value => .define (delta • value)

def identityMessage : MessageOf V D := .update 1

instance : Monoid (MessageOf V D) where
  mul := merge
  one := identityMessage
  mul_assoc a b c := by
    cases a <;> cases b <;> cases c <;>
      simp [HMul.hMul, merge] <;>
      first
        | exact mul_assoc _ _ _
        | exact mul_smul _ _ _
  one_mul a := by
    cases a with
    | define value => exact congrArg define (one_smul D value)
    | update delta => exact congrArg update (one_mul delta)
  mul_one a := by
    cases a with
    | define value => rfl
    | update delta => exact congrArg update (mul_one delta)

theorem mul_eq_merge (a b : MessageOf V D) : a * b = merge a b := rfl

@[simp]
theorem define_mul (value : V) (message : MessageOf V D) :
    define value * message = define value := rfl

/-- Once a message defines a value, extending it changes nothing. -/
theorem eq_define_of_dvd {value : V} {message : MessageOf V D}
    (extends' : define value ∣ message) : message = define value := by
  obtain ⟨_, rfl⟩ := extends'
  rfl

/-- Whether a message defines a value. -/
def IsDefine : MessageOf V D → Prop
  | .define _ => True
  | .update _ => False

theorem IsDefine.mul {message : MessageOf V D} (newer : MessageOf V D)
    (defines : message.IsDefine) : (newer * message).IsDefine := by
  cases newer <;> cases message <;> trivial

end MessageOf

/-- The store has no deltas besides the one that does nothing. -/
inductive Delta where
  | noDelta
deriving DecidableEq

instance : Monoid Delta where
  mul _ _ := .noDelta
  one := .noDelta
  mul_assoc _ _ _ := rfl
  one_mul _ := rfl
  mul_one _ := rfl

instance : MulAction Delta Value where
  smul _ value := value
  one_smul _ := rfl
  mul_smul _ _ _ := rfl

/-- The messages of the store. -/
abbrev Message := MessageOf Value Delta

namespace ValueMessage

def nopDelta : Delta := .noDelta

def identityMessage : Message := .update nopDelta

def defineDefault : Message := .define ValueType.defaultValue

instance : Inhabited Message := ⟨identityMessage⟩

theorem one_def : (1 : Message) = identityMessage := rfl

end ValueMessage

end VerifiedBetrfs
