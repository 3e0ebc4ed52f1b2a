/-
Aion2Hub/Lib/Cycle.lean

Cycles on the time line: instants spaced by a fixed length.

A cycle cuts the integers into half-open windows of equal length.  `start x`
is the beginning of the window of `x` and `next x` its end.  Calendar code
reaches the beginning of a window in many ways (set the clock and step back,
shift the clock and round down); `start_unique` says that whoever finds a
point of the cycle in the right window has found `start x`.
-/
import Mathlib.Algebra.Order.Ring.Int
import Mathlib.Tactic.Common

/-- The points `phase + k * length`. -/
structure PeriodCycle where
  length : ℤ
  phase : ℤ
  pos : 0 < length

namespace PeriodCycle

variable (c : PeriodCycle) {x y s : ℤ}

/-- The last point of the cycle that is not after `x`. -/
def start (x : ℤ) : ℤ := x - (x - c.phase) % c.length

/-- The first point of the cycle after `x`. -/
def next (x : ℤ) : ℤ := c.start x + c.length

/-- A point of the cycle. -/
def On (s : ℤ) : Prop := c.length ∣ s - c.phase

theorem start_le (x : ℤ) : c.start x ≤ x := by
  have := Int.emod_nonneg (x - c.phase) c.pos.ne'
  unfold start
  omega

theorem lt_next (x : ℤ) : x < c.next x := by
  have := Int.emod_lt_of_pos (x - c.phase) c.pos
  unfold next start
  omega

theorem on_start (x : ℤ) : c.On (c.start x) := by
  refine ⟨(x - c.phase) / c.length, ?_⟩
  have := Int.emod_add_mul_ediv (x - c.phase) c.length
  unfold start
  omega

theorem on_next (x : ℤ) : c.On (c.next x) := by
  obtain ⟨k, hk⟩ := c.on_start x
  refine ⟨k + 1, ?_⟩
  rw [mul_add, mul_one, ← hk]
  unfold next
  omega

/-- **The point of the cycle in the window of `x` is its start.** -/
theorem start_unique (hs : c.On s) (hle : s ≤ x) (hlt : x < s + c.length) : c.start x = s := by
  obtain ⟨k, hk⟩ := hs
  have hmod : (x - c.phase) % c.length = x - s := by
    rw [show x - c.phase = x - s + c.length * k by omega, Int.add_mul_emod_self_left]
    exact Int.emod_eq_of_lt (by omega) (by omega)
  unfold start
  omega

theorem start_of_on (h : c.On s) : c.start s = s :=
  c.start_unique h le_rfl (by have := c.pos; omega)

/-- A point of the cycle after `x`, but at most one length after, is the
end of the window, and the point before it is the start. -/
theorem start_of_lt (hs : c.On s) (hlt : x < s) (hnear : s ≤ x + c.length) :
    c.start x = s - c.length := by
  refine c.start_unique ?_ (by omega) (by omega)
  obtain ⟨k, hk⟩ := hs
  exact ⟨k - 1, by rw [mul_sub, ← hk, mul_one]; omega⟩

theorem next_of_lt (hs : c.On s) (hlt : x < s) (hnear : s ≤ x + c.length) : c.next x = s := by
  rw [next, c.start_of_lt hs hlt hnear, sub_add_cancel]

/-- Instants of one window have one start. -/
theorem start_eq (hle : c.start x ≤ y) (hlt : y < c.next x) : c.start y = c.start x :=
  c.start_unique (c.on_start x) hle hlt

theorem start_mono (h : x ≤ y) : c.start x ≤ c.start y := by
  by_contra hlt
  have hy : c.start x = c.start y :=
    c.start_eq (by have := c.start_le x; omega) (by have := c.lt_next y; have := c.start_le x; omega)
  omega

/-- At a later instant the start is the same exactly as long as the next
point has not come. -/
theorem start_eq_iff (h : x ≤ y) : c.start y = c.start x ↔ y < c.next x := by
  refine ⟨fun heq => ?_, c.start_eq ((c.start_le x).trans h)⟩
  have := c.lt_next y
  unfold next at this ⊢
  omega

@[simp] theorem start_next (x : ℤ) : c.start (c.next x) = c.next x := c.start_of_on (c.on_next x)

theorem start_lt_next (x : ℤ) : c.start x < c.next x := lt_of_le_of_lt (c.start_le x) (c.lt_next x)

end PeriodCycle
