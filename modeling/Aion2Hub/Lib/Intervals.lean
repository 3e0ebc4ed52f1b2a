/-
Aion2Hub/Lib/Intervals.lean

Items that each take some time, from a start up to but without a stop.

The lengths of the items add up to the number of items that run, summed over
all instants (`sum_lengths`); so if at most `k` run at any instant, the lengths
add up to at most `k` times the whole span (`sum_lengths_le`).  Items that are
spread over some owners, and of which those of one owner never overlap, run at
most one for each owner (`length_running_le`).
-/
import Mathlib.Algebra.BigOperators.Ring.Finset
import Mathlib.Algebra.Order.BigOperators.Group.Finset
import Mathlib.Algebra.Order.Ring.Int
import Mathlib.Data.Fintype.Card
import Mathlib.Data.Int.ConditionallyCompleteOrder
import Mathlib.Data.Int.Interval
import Mathlib.Tactic.Linarith
import Mathlib.Tactic.Ring

namespace Intervals

variable {ι κ : Type} (start stop : ι → ℤ)

/-- The items of a list that run at the instant `x`. -/
def running (x : ℤ) (l : List ι) : List ι := l.filter fun i => decide (start i ≤ x ∧ x < stop i)

/-- One of two items is over when the other starts. -/
def Apart (i j : ι) : Prop := stop i ≤ start j ∨ stop j ≤ start i

variable {start stop}

theorem mem_running {x : ℤ} {l : List ι} {i : ι} :
    i ∈ running start stop x l ↔ i ∈ l ∧ start i ≤ x ∧ x < stop i := by
  simp [running]

theorem Apart.symm {i j : ι} (h : Apart start stop i j) : Apart start stop j i := Or.symm h

/-- Two items that run at one instant are not apart. -/
theorem not_apart_of_running {x : ℤ} {l : List ι} {i j : ι} (hi : i ∈ running start stop x l)
    (hj : j ∈ running start stop x l) : ¬ Apart start stop i j := by
  obtain ⟨-, hi, hi'⟩ := mem_running.mp hi
  obtain ⟨-, hj, hj'⟩ := mem_running.mp hj
  rintro (h | h) <;> omega

/-! ### Lengths -/

/-- The length of an item is the number of instants at which it runs. -/
theorem length_eq_sum {lo hi : ℤ} {i : ι} (h : lo ≤ start i ∧ start i ≤ stop i ∧ stop i ≤ hi) :
    stop i - start i =
      ∑ x ∈ Finset.Ico lo hi, if start i ≤ x ∧ x < stop i then (1 : ℤ) else 0 := by
  have hfilter : (Finset.Ico lo hi).filter (fun x => start i ≤ x ∧ x < stop i) =
      Finset.Ico (start i) (stop i) := by
    ext x
    simp only [Finset.mem_filter, Finset.mem_Ico]
    omega
  rw [Finset.sum_boole, hfilter, Int.card_Ico]
  omega

theorem sum_lengths {lo hi : ℤ} {l : List ι}
    (h : ∀ i ∈ l, lo ≤ start i ∧ start i ≤ stop i ∧ stop i ≤ hi) :
    (l.map fun i => stop i - start i).sum =
      ∑ x ∈ Finset.Ico lo hi, ((running start stop x l).length : ℤ) := by
  induction l with
  | nil => simp [running]
  | cons i l ih =>
      have hlength : ∀ x, ((running start stop x (i :: l)).length : ℤ) =
          (if start i ≤ x ∧ x < stop i then (1 : ℤ) else 0) + (running start stop x l).length := by
        intro x
        simp only [running, List.filter_cons, decide_eq_true_eq]
        split
        · rw [List.length_cons]
          push_cast
          ring
        · rw [zero_add]
      rw [List.map_cons, List.sum_cons, ih fun j hj => h j (List.mem_cons_of_mem i hj),
        length_eq_sum (h i List.mem_cons_self), ← Finset.sum_add_distrib]
      exact Finset.sum_congr rfl fun x _ => (hlength x).symm

/-- Where at most `k` items run at a time, they take at most `k` times the
span. -/
theorem sum_lengths_le {lo hi : ℤ} {l : List ι} {k : ℕ} (hspan : lo ≤ hi)
    (h : ∀ i ∈ l, lo ≤ start i ∧ start i ≤ stop i ∧ stop i ≤ hi)
    (hk : ∀ x, (running start stop x l).length ≤ k) :
    (l.map fun i => stop i - start i).sum ≤ k * (hi - lo) := by
  have hsum : ∑ x ∈ Finset.Ico lo hi, ((running start stop x l).length : ℤ) ≤
      ∑ _x ∈ Finset.Ico lo hi, (k : ℤ) := by
    apply Finset.sum_le_sum
    intro x _
    exact_mod_cast hk x
  rw [Finset.sum_const, Int.card_Ico, nsmul_eq_mul, Int.toNat_of_nonneg (by omega)] at hsum
  rw [sum_lengths h]
  linarith

/-! ### Owners -/

/-- If items of one owner never overlap, at most one for each owner runs. -/
theorem length_running_le [Fintype κ] {l : List ι} (hl : l.Nodup) (owner : ι → κ)
    (h : ∀ i ∈ l, ∀ j ∈ l, i ≠ j → owner i = owner j → Apart start stop i j) (x : ℤ) :
    (running start stop x l).length ≤ Fintype.card κ := by
  have hinj : ((running start stop x l).map owner).Nodup := by
    apply List.Nodup.map_on
    · intro i hi j hj howner
      by_contra hne
      exact not_apart_of_running hi hj
        (h i (mem_running.mp hi).1 j (mem_running.mp hj).1 hne howner)
    · exact hl.filter _
  have hlength := hinj.length_le_card
  rwa [List.length_map] at hlength

end Intervals
