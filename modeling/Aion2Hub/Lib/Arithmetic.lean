/-
Aion2Hub/Lib/Arithmetic.lean

Code that computes with numbers, with and without rounding.

A program over a type with `Arithmetic` runs on JavaScript's numbers
(`Number`), where every operation rounds, and on `Exact`, where none does.
What is true of the second is what the program would compute if numbers were
rationals.
-/
import Aion2Hub.Lib.Js

/-- The operations of the arithmetic, and its values for stored numbers and
for what is not a number. -/
class Arithmetic (α : Type) extends Zero α, Add α, Sub α, Mul α, Div α where
  ofNumber : Number → α
  nan : α
  lt : α → α → Bool

instance : Arithmetic Number where
  zero := 0
  add := Number.add
  sub := Number.sub
  mul := Number.mul
  div := Number.div
  ofNumber x := x
  nan := .nan
  lt := Number.lt

/-- A rational number, or what is not a number. -/
inductive Exact where
  | rat (q : ℚ)
  | nan
  deriving DecidableEq

namespace Exact

/-- Apply an operation on rationals. -/
def lift₂ (f : ℚ → ℚ → ℚ) : Exact → Exact → Exact
  | rat a, rat b => rat (f a b)
  | _, _ => nan

/-- There is no infinity: dividing by zero yields no number, and the infinite
values of `Number` are none. -/
instance : Arithmetic Exact where
  zero := rat 0
  add := lift₂ (· + ·)
  sub := lift₂ (· - ·)
  mul := lift₂ (· * ·)
  div a b := if b = rat 0 then nan else lift₂ (· / ·) a b
  ofNumber
    | .fin q => rat q
    | _ => nan
  nan := nan
  lt
    | rat a, rat b => a < b
    | _, _ => false

variable {a b c : ℚ}

@[simp] theorem rat_add : rat a + rat b = rat (a + b) := rfl

@[simp] theorem rat_sub : rat a - rat b = rat (a - b) := rfl

@[simp] theorem rat_mul : rat a * rat b = rat (a * b) := rfl

theorem rat_div (hb : b ≠ 0) : rat a / rat b = rat (a / b) := by
  show (if rat b = rat 0 then nan else rat (a / b)) = _
  rw [if_neg fun h => hb (Exact.rat.inj h)]

theorem zero_eq : (0 : Exact) = rat 0 := rfl

@[simp] theorem lt_rat : Arithmetic.lt (rat a) (rat b) = decide (a < b) := rfl

@[simp] theorem ofNumber_fin : (Arithmetic.ofNumber (.fin a) : Exact) = rat a := rfl

theorem nan_add (x : Exact) : nan + x = nan := rfl

theorem add_nan (x : Exact) : x + nan = nan := by cases x <;> rfl

theorem mul_nan (x : Exact) : x * nan = nan := by cases x <;> rfl

instance : AddCommMonoid Exact where
  add_assoc x y z := by
    cases x <;> cases y <;> cases z <;> try rfl
    exact congrArg rat (add_assoc _ _ _)
  zero_add x := by
    cases x
    · exact congrArg rat (zero_add _)
    · rfl
  add_zero x := by
    cases x
    · exact congrArg rat (add_zero _)
    · rfl
  add_comm x y := by
    cases x <;> cases y <;> try rfl
    exact congrArg rat (add_comm _ _)
  nsmul := nsmulRec

end Exact
