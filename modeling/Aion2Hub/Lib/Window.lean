/-
Aion2Hub/Lib/Window.lean

Counting events in a sliding window: at the time `now`, the live events of a
list are those less than `w` before it.

As time goes on, the live events stay the same until the oldest of them runs
out (`live_until`); at that time those as old as the oldest are gone, and no
other (`live_expired`).
-/
import Mathlib.Algebra.Order.Ring.Int
import Mathlib.Data.List.Basic

namespace Window

variable {α : Type} (time : α → ℤ) (w : ℤ)

/-- The events after `now - w`. -/
def live (now : ℤ) (l : List α) : List α := l.filter fun a => decide (now - w < time a)

/-- The events later than `a`. -/
def laterThan (a : α) (l : List α) : List α := l.filter fun b => decide (time a < time b)

variable {time w} {now now' : ℤ} {l : List α} {a : α}

theorem mem_live : a ∈ live time w now l ↔ a ∈ l ∧ now - w < time a := by
  rw [live, List.mem_filter, decide_eq_true_iff]

/-- Nothing becomes live by waiting. -/
theorem live_later (h : now ≤ now') :
    live time w now' l = (live time w now l).filter fun a => decide (now' - w < time a) := by
  rw [live, live, List.filter_filter]
  refine List.filter_congr fun a _ => ?_
  rw [← Bool.decide_and, decide_eq_decide]
  exact ⟨fun hlt => ⟨hlt, by omega⟩, And.left⟩

/-- **Until the oldest live event runs out, the live events stay.** -/
theorem live_until (hmin : ∀ b ∈ live time w now l, time a ≤ time b) (h₀ : now ≤ now')
    (h₁ : now' < time a + w) : live time w now' l = live time w now l := by
  rw [live_later h₀, List.filter_eq_self]
  intro b hb
  have := hmin b hb
  exact decide_eq_true (by omega)

/-- **When the oldest live event runs out, the later ones are left.** -/
theorem live_expired (ha : a ∈ live time w now l) :
    live time w (time a + w) l = laterThan time a (live time w now l) := by
  have hlt := (mem_live.mp ha).2
  have hle : now ≤ time a + w := by omega
  rw [live_later hle, laterThan]
  refine List.filter_congr fun b _ => ?_
  rw [add_sub_cancel_right]

/-- There are fewer of them. -/
theorem length_laterThan_lt (ha : a ∈ l) : (laterThan time a l).length < l.length :=
  List.length_filter_lt_length_iff_exists.mpr ⟨a, ha, by simp⟩

end Window
