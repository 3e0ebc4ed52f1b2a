/-
Aion2Hub/Lib/Aggregate.lean

SUM and AVG.

While all values are integers their sum is kept in 64 bits.  With the first
value that is none, or that does not fit any more, it goes on in doubles, which
keep apart what each addition loses.  A sum of integers that has left the 64
bits is an error of SUM, but not of AVG.
-/
import Aion2Hub.Lib.Search
import Mathlib.Algebra.Order.BigOperators.Group.List

namespace Sql

/-! ### Compensated sums -/

/-- A sum in doubles, and what it has lost. -/
structure Doubles where
  sum : Number
  lost : Number

def magnitude (x : Number) : Number := if Number.lt x 0 then Number.neg x else x

def Doubles.add (d : Doubles) (x : Number) : Doubles :=
  let sum := Number.add d.sum x
  let lost :=
    if Number.lt (magnitude x) (magnitude d.sum) then Number.add (Number.sub d.sum sum) x
    else Number.add (Number.sub x sum) d.sum
  ⟨sum, Number.add d.lost lost⟩

/-- From here on an integer is added in two parts. -/
def large (n : ℤ) : Prop := n ≤ -2 ^ 52 ∨ 2 ^ 52 ≤ n

instance : DecidablePred large := fun n => inferInstanceAs (Decidable (n ≤ -2 ^ 52 ∨ 2 ^ 52 ≤ n))

def Doubles.addInt (d : Doubles) (n : ℤ) : Doubles :=
  if large n then (d.add (.ofInt (n - n.tmod 16384))).add (.ofInt (n.tmod 16384))
  else d.add (.ofInt n)

def Doubles.ofInt (n : ℤ) : Doubles :=
  if large n then ⟨.ofInt (n - n.tmod 16384), .ofInt (n.tmod 16384)⟩ else ⟨.ofInt n, 0⟩

def Doubles.result (d : Doubles) : Number :=
  if d.lost.isFinite then Number.add d.sum d.lost else d.sum

/-! ### SUM and AVG -/

/-- What has been gathered of the values; the flag says that a sum of integers
has left the 64 bits. -/
inductive Gathered where
  | ints (sum : ℤ)
  | doubles (d : Doubles) (overflow : Bool)

def Gathered.step : Gathered → Number → Gathered
  | .ints sum, x =>
      match mustBeInt x with
      | .ok n =>
          if -2 ^ 63 ≤ sum + n ∧ sum + n < 2 ^ 63 then .ints (sum + n)
          else .doubles ((Doubles.ofInt sum).addInt n) true
      | .error _ => .doubles ((Doubles.ofInt sum).add x) false
  | .doubles d overflow, x =>
      match mustBeInt x with
      | .ok n => .doubles (d.addInt n) overflow
      | .error _ => .doubles (d.add x) false

def gather (xs : List Number) : Gathered := xs.foldl Gathered.step (.ints 0)

/-- SUM; NaN stands for NULL. -/
def Gathered.sum : Gathered → Except String Number
  | .ints n => .ok (.ofInt n)
  | .doubles d false => .ok d.result
  | .doubles _ true => .error "integer overflow"

/-- AVG of that many values. -/
def Gathered.avg (g : Gathered) (count : ℕ) : Number :=
  match g with
  | .ints n => Number.div (Number.toDouble n) (.ofInt count)
  | .doubles d _ => Number.div d.result (.ofInt count)

/-- `a < b` in ORDER BY, where NULL comes first. -/
def below (a b : Number) : Bool := if a = .nan then b ≠ .nan else Number.lt a b

/-- Natural numbers whose sum has 64 bits are added exactly. -/
theorem gather_map_ofInt {l : List ℤ} (hl : ∀ n ∈ l, 0 ≤ n) (hsum : l.sum < 2 ^ 63) :
    gather (l.map Number.ofInt) = .ints l.sum := by
  have hloop : ∀ acc : ℤ, 0 ≤ acc → acc + l.sum < 2 ^ 63 →
      (l.map Number.ofInt).foldl Gathered.step (.ints acc) = .ints (acc + l.sum) := by
    induction l with
    | nil =>
        intro acc _ _
        rw [List.sum_nil, add_zero]
        rfl
    | cons n l ih =>
        intro acc h₀ h₁
        obtain ⟨hn, hl⟩ := List.forall_mem_cons.mp hl
        have hrest : 0 ≤ l.sum := List.sum_nonneg hl
        rw [List.sum_cons] at h₁ hsum ⊢
        have hint : mustBeInt (Number.ofInt n) = .ok n := mustBeInt_ofInt (by omega) (by omega)
        have hstep : Gathered.step (.ints acc) (.ofInt n) = .ints (acc + n) := by
          rw [Gathered.step, hint]
          exact if_pos ⟨by omega, by omega⟩
        rw [List.map_cons, List.foldl_cons, hstep,
          ih hl (by omega) (acc + n) (by omega) (by omega), add_assoc]
  have h := hloop 0 le_rfl (by omega)
  rwa [zero_add] at h

end Sql
