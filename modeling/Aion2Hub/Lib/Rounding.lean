/-
Aion2Hub/Lib/Rounding.lean

How far rounding moves a number, and what `Math.ceil` makes of a quotient.

Up to `2 ^ 41` a double is so close that a quotient of integers, with a divisor
up to 4096, is not rounded across an integer; so the number of pages that hold
so many rows is computed exactly (`ceil_div`).
-/
import Aion2Hub.Lib.Js
import Mathlib.Tactic.Linarith
import Mathlib.Tactic.Positivity
import Mathlib.Algebra.Order.Floor.Ring

namespace Number

/-- `Math.ceil`. -/
def ceil : Number → Number
  | .fin q => .fin ⌈q⌉
  | x => x

/-- Rounding moves a number by at most a half. -/
theorem abs_roundEven_sub_le (q : ℚ) : |(roundEven q : ℚ) - q| ≤ 1 / 2 := by
  have hfloor : (⌊q⌋ : ℚ) ≤ q := Int.floor_le q
  have hlt : q < ⌊q⌋ + 1 := Int.lt_floor_add_one q
  rw [abs_le]
  unfold roundEven
  split_ifs <;> push_cast <;> constructor <;> linarith

/-- Below `2 ^ 41` a double is less than `1 / 4096` away. -/
theorem toDouble_near {q : ℚ} (h₀ : 0 < q) (h₁ : q < 2 ^ 41) :
    ∃ x, toDouble q = .fin x ∧ |x - q| ≤ 1 / 8192 := by
  have hlog : Int.log 2 |q| < 41 := by
    apply (Int.lt_zpow_iff_log_lt (by norm_num) (abs_pos.mpr h₀.ne')).mp
    rw [abs_of_pos h₀]
    exact_mod_cast h₁
  -- below 2 ^ 41 doubles are at most 2 ^ -12 apart
  have hulp : ulp q ≤ 1 / 4096 := by
    have hexp : max (Int.log 2 |q|) (-1022) - 52 ≤ -12 := by omega
    calc ulp q ≤ (2 : ℚ) ^ (-12 : ℤ) := zpow_le_zpow_right₀ (by norm_num) hexp
      _ = 1 / 4096 := by norm_num
  have hpos : 0 < ulp q := ulp_pos q
  have hnear : |(roundEven (q / ulp q) : ℚ) * ulp q - q| ≤ 1 / 8192 := by
    have hmul : (roundEven (q / ulp q) : ℚ) * ulp q - q =
        ((roundEven (q / ulp q) : ℚ) - q / ulp q) * ulp q := by
      rw [sub_mul, div_mul_cancel₀ q hpos.ne']
    rw [hmul, abs_mul, abs_of_pos hpos]
    have hhalf := abs_roundEven_sub_le (q / ulp q)
    calc |(roundEven (q / ulp q) : ℚ) - q / ulp q| * ulp q ≤ 1 / 2 * (1 / 4096) :=
          mul_le_mul hhalf hulp hpos.le (by norm_num)
      _ = 1 / 8192 := by norm_num
  obtain ⟨hlo, hhi⟩ := abs_le.mp hnear
  have hbig : (2 : ℚ) ^ 42 < 2 ^ 1024 := pow_lt_pow_right₀ (by norm_num) (by norm_num)
  refine ⟨_, ?_, hnear⟩
  rw [toDouble]
  generalize (2 : ℚ) ^ 1024 = big at hbig
  rw [if_neg (by linarith), if_neg (by linarith)]

/-- The number of pages is computed exactly. -/
theorem ceil_div {a b : ℤ} (ha : 0 ≤ a) (ha' : a < 2 ^ 41) (hb : 0 < b) (hb' : b ≤ 4096) :
    ceil (div (ofInt a) (ofInt b)) = ofInt ⌈(a : ℚ) / b⌉ := by
  have hbq : (0 : ℚ) < b := by exact_mod_cast hb
  have hdiv : div (ofInt a) (ofInt b) = toDouble ((a : ℚ) / b) := by
    rw [ofInt, ofInt, div, if_neg hbq.ne']
  rw [hdiv]
  obtain ⟨k, r, hr₀, hr₁, rfl⟩ : ∃ k r : ℤ, 0 ≤ r ∧ r < b ∧ a = b * k + r :=
    ⟨a / b, a % b, Int.emod_nonneg a hb.ne', Int.emod_lt_of_pos a hb, (Int.mul_ediv_add_emod a b).symm⟩
  have hk : 0 ≤ k := by
    by_contra hneg
    nlinarith
  have hk' : k < 2 ^ 41 := by nlinarith
  have hquotient : ((b * k + r : ℤ) : ℚ) / b = k + r / b := by
    push_cast
    field_simp
  rw [hquotient]
  rcases eq_or_lt_of_le hr₀ with rfl | hr
  · have habs : |k| ≤ 2 ^ 53 := by
      rw [abs_of_nonneg hk]
      omega
    rw [Int.cast_zero, zero_div, add_zero, toDouble_intCast habs, Int.ceil_intCast]
    show ofInt ⌈(k : ℚ)⌉ = ofInt k
    rw [Int.ceil_intCast]
  · -- the quotient is far enough from both integers around it
    have hunit : (1 : ℚ) / 4096 ≤ 1 / b :=
      one_div_le_one_div_of_le hbq (by exact_mod_cast hb')
    have hlow : (1 : ℚ) / b ≤ r / b := by
      gcongr
      exact_mod_cast hr
    have hhigh : (r : ℚ) / b + 1 / b ≤ 1 := by
      rw [← add_div, div_le_one hbq]
      exact_mod_cast hr₁
    have hkq : (0 : ℚ) ≤ k := by exact_mod_cast hk
    have hkq' : (k : ℚ) + 1 ≤ 2 ^ 41 := by exact_mod_cast hk'
    obtain ⟨x, hx, hnear⟩ := toDouble_near (q := k + r / b) (by linarith) (by linarith)
    obtain ⟨hlo, hhi⟩ := abs_le.mp hnear
    rw [hx]
    have hceil : ∀ y : ℚ, (k : ℚ) < y → y ≤ k + 1 → ⌈y⌉ = k + 1 := by
      intro y hy hy'
      apply Int.ceil_eq_iff.mpr
      push_cast
      exact ⟨by linarith, hy'⟩
    show ofInt ⌈x⌉ = _
    rw [hceil x (by linarith) (by linarith), hceil _ (by linarith) (by linarith)]

end Number
