/-
Aion2Hub/Lib/Js.lean

The JavaScript values a program that reads JSON works on.

`Number` is the type of numbers.  A finite number is kept as a rational, which
is exact for every double; `toDouble` is the rounding to the nearest double
that each arithmetic operation ends with.  Negative zero is identified with
zero: no operation used here can tell them apart.

`Js` is the type of the values that `JSON.parse` returns or that travel
between processes.  A missing property is `none`, so `get` is property
access on any value, `undefined` included, and the readers below are the
idiom `typeof x === "…" ? x : fallback`.
-/
import Mathlib.Algebra.Order.Floor.Ring
import Mathlib.Data.Int.Log
import Mathlib.Data.Rat.Floor
import Mathlib.Tactic.Linarith
import Mathlib.Tactic.NormNum
import Mathlib.Tactic.Positivity
import Mathlib.Tactic.FieldSimp

/-! ### Numbers -/

/-- A JavaScript number. -/
inductive Number where
  | fin (q : ℚ)
  | posInf
  | negInf
  | nan
  deriving DecidableEq

namespace Number

instance : OfNat Number n := ⟨.fin (n : ℚ)⟩

/-- The number of an integer. -/
def ofInt (n : ℤ) : Number := .fin n

/-- `Number.isFinite`. -/
def isFinite : Number → Bool
  | .fin _ => true
  | _ => false

/-- The rational number that a finite number is. -/
def value : Number → ℚ
  | .fin q => q
  | _ => 0

theorem eq_value {x : Number} (h : x.isFinite = true) : x = .fin x.value := by
  cases x with
  | fin q => rfl
  | _ => cases h

/-- Round to the nearest integer, ties to even. -/
def roundEven (q : ℚ) : ℤ :=
  if q - ⌊q⌋ < 1 / 2 then ⌊q⌋
  else if 1 / 2 < q - ⌊q⌋ then ⌊q⌋ + 1
  else if ⌊q⌋ % 2 = 0 then ⌊q⌋
  else ⌊q⌋ + 1

/-- The distance between neighbouring doubles around `q`. -/
def ulp (q : ℚ) : ℚ := (2 : ℚ) ^ (max (Int.log 2 |q|) (-1022) - 52)

/-- The double nearest to `q`. -/
def toDouble (q : ℚ) : Number :=
  if (2 : ℚ) ^ 1024 ≤ roundEven (q / ulp q) * ulp q then .posInf
  else if roundEven (q / ulp q) * ulp q ≤ -(2 : ℚ) ^ 1024 then .negInf
  else .fin (roundEven (q / ulp q) * ulp q)

/-- The infinity with the sign of `q`, NaN for zero. -/
def infOf (q : ℚ) : Number := if 0 < q then .posInf else if q < 0 then .negInf else .nan

def neg : Number → Number
  | .fin q => .fin (-q)
  | .posInf => .negInf
  | .negInf => .posInf
  | .nan => .nan

def add : Number → Number → Number
  | .fin a, .fin b => toDouble (a + b)
  | .nan, _ => .nan
  | _, .nan => .nan
  | .posInf, .negInf => .nan
  | .negInf, .posInf => .nan
  | .posInf, _ => .posInf
  | _, .posInf => .posInf
  | .negInf, _ => .negInf
  | _, .negInf => .negInf

def sub (a b : Number) : Number := add a (neg b)

def mul : Number → Number → Number
  | .fin a, .fin b => toDouble (a * b)
  | .nan, _ => .nan
  | _, .nan => .nan
  | .fin a, .posInf => infOf a
  | .fin a, .negInf => infOf (-a)
  | .posInf, .fin b => infOf b
  | .negInf, .fin b => infOf (-b)
  | .posInf, .posInf => .posInf
  | .negInf, .negInf => .posInf
  | .posInf, .negInf => .negInf
  | .negInf, .posInf => .negInf

def div : Number → Number → Number
  | .fin a, .fin b => if b = 0 then infOf a else toDouble (a / b)
  | .fin _, .posInf => 0
  | .fin _, .negInf => 0
  | .posInf, .fin b => if b < 0 then .negInf else .posInf
  | .negInf, .fin b => if b < 0 then .posInf else .negInf
  | _, _ => .nan

/-- `a < b`; false when one of them is NaN. -/
def lt : Number → Number → Bool
  | .fin a, .fin b => a < b
  | .fin _, .posInf => true
  | .negInf, .fin _ => true
  | .negInf, .posInf => true
  | _, _ => false

/-- `a <= b`; false when one of them is NaN. -/
def le : Number → Number → Bool
  | .nan, _ => false
  | _, .nan => false
  | a, b => a = b || lt a b

/-- `Math.floor`. -/
def floor : Number → Number
  | .fin q => .fin ⌊q⌋
  | x => x

/-- `Math.round`: to the nearest integer, ties upwards. -/
def round : Number → Number
  | .fin q => .fin ⌊q + 1 / 2⌋
  | x => x

/-- `Math.max(lo, x)` for a number `lo` that is not NaN. -/
def atLeast (lo x : Number) : Number :=
  match x with
  | .nan => .nan
  | x => if lt x lo then lo else x

/-- `Math.min(hi, x)` for a number `hi` that is not NaN. -/
def atMost (hi x : Number) : Number :=
  match x with
  | .nan => .nan
  | x => if lt hi x then hi else x

/-- `ToIntegerOrInfinity` on a rational: towards zero. -/
def truncate (q : ℚ) : ℤ := if 0 ≤ q then ⌊q⌋ else ⌈q⌉

/-- `a % b`, with the sign of `a`. -/
def mod : Number → Number → Number
  | .fin a, .fin b => if b = 0 then .nan else .fin (a - b * truncate (a / b))
  | .fin a, .posInf => .fin a
  | .fin a, .negInf => .fin a
  | _, _ => .nan

/-- What a statement stores for a number: NULL for NaN. -/
def bind : Number → Option Number
  | .nan => none
  | x => some x

theorem bind_of_isFinite {x : Number} (h : x.isFinite = true) : x.bind = some x := by
  rw [eq_value h]
  rfl

/-! ### Comparing finite numbers -/

theorem lt_fin_iff {a b : ℚ} : lt (.fin a) (.fin b) = true ↔ a < b := decide_eq_true_iff

theorem le_fin_iff {a b : ℚ} : le (.fin a) (.fin b) = true ↔ a ≤ b := by
  show (decide (fin a = fin b) || decide (a < b)) = true ↔ a ≤ b
  rw [Bool.or_eq_true, decide_eq_true_iff, decide_eq_true_iff, fin.injEq, le_iff_eq_or_lt]

theorem le_fin_eq_false_iff {a b : ℚ} : le (.fin a) (.fin b) = false ↔ b < a := by
  rw [← not_le, ← le_fin_iff, Bool.not_eq_true]

theorem toDouble_ne_nan (q : ℚ) : toDouble q ≠ .nan := by
  unfold toDouble
  split_ifs <;> nofun

/-! ### Arithmetic on integers is exact -/

theorem roundEven_intCast (n : ℤ) : roundEven (n : ℚ) = n := by
  unfold roundEven
  rw [Int.floor_intCast, sub_self, if_pos (by norm_num)]

theorem ulp_pos (q : ℚ) : 0 < ulp q := zpow_pos (by norm_num) _

/-- Up to `2 ^ 53` in size, an integer is a multiple of its unit in the last
place. -/
theorem exists_mul_ulp {n : ℤ} (h : |n| ≤ 2 ^ 53) : ∃ m : ℤ, (n : ℚ) / ulp n = m := by
  rcases eq_or_ne n 0 with rfl | hn
  · exact ⟨0, by simp⟩
  have habs : (|n| : ℤ) = n.natAbs := Int.abs_eq_natAbs n
  have hpos : n.natAbs ≠ 0 := Int.natAbs_ne_zero.mpr hn
  have hle : n.natAbs ≤ 2 ^ 53 := by
    have : (n.natAbs : ℤ) ≤ 2 ^ 53 := habs ▸ h
    exact_mod_cast this
  have hlog : Int.log 2 |(n : ℚ)| = (Nat.log 2 n.natAbs : ℤ) := by
    rw [← Int.cast_abs, habs, Int.cast_natCast, Int.log_natCast]
  have hexp : max (Int.log 2 |(n : ℚ)|) (-1022) - 52 = (Nat.log 2 n.natAbs : ℤ) - 52 := by
    rw [hlog, max_eq_left (by omega)]
  rcases Nat.lt_or_ge (Nat.log 2 n.natAbs) 53 with hlt | hge
  · -- the unit is `2 ^ (e - 52)` with `e ≤ 52`: dividing by it multiplies by a power of two
    refine ⟨n * 2 ^ (52 - Nat.log 2 n.natAbs), ?_⟩
    have he : (Nat.log 2 n.natAbs : ℤ) - 52 = -((52 - Nat.log 2 n.natAbs : ℕ) : ℤ) := by omega
    rw [ulp, hexp, he, zpow_neg, zpow_natCast, div_inv_eq_mul]
    push_cast
    ring
  · -- the only integer left is `2 ^ 53`, up to its sign
    have h53 : n.natAbs = 2 ^ 53 := by
      have := Nat.pow_le_of_le_log hpos hge
      omega
    have he : (Nat.log 2 n.natAbs : ℤ) - 52 = 1 := by
      rw [h53, Nat.log_pow (by norm_num)]
      norm_num
    rw [ulp, hexp, he, zpow_one]
    rcases Int.natAbs_eq n with hs | hs <;> rw [hs, h53]
    · exact ⟨2 ^ 52, by norm_num⟩
    · exact ⟨-2 ^ 52, by norm_num⟩

/-- Integers up to `2 ^ 53` in size are doubles. -/
theorem toDouble_intCast {n : ℤ} (h : |n| ≤ 2 ^ 53) : toDouble (n : ℚ) = ofInt n := by
  obtain ⟨m, hm⟩ := exists_mul_ulp h
  have hval : (roundEven ((n : ℚ) / ulp n) : ℚ) * ulp n = n := by
    rw [hm, roundEven_intCast, ← hm, div_mul_cancel₀ _ (ulp_pos n).ne']
  have hbound : |(n : ℚ)| ≤ 2 ^ 53 := by exact_mod_cast h
  have hbig : (2 : ℚ) ^ 53 < 2 ^ 1024 := pow_lt_pow_right₀ (by norm_num) (by norm_num)
  obtain ⟨hlo, hhi⟩ := abs_le.mp hbound
  unfold toDouble ofInt
  rw [hval, if_neg (not_le.mpr (hhi.trans_lt hbig)),
    if_neg (not_le.mpr ((neg_lt_neg hbig).trans_le hlo))]

theorem add_ofInt {a b : ℤ} (h : |a + b| ≤ 2 ^ 53) :
    add (ofInt a) (ofInt b) = ofInt (a + b) := by
  rw [← toDouble_intCast h, Int.cast_add]
  rfl

theorem sub_ofInt {a b : ℤ} (h : |a - b| ≤ 2 ^ 53) :
    sub (ofInt a) (ofInt b) = ofInt (a - b) := by
  rw [← toDouble_intCast h, Int.cast_sub, sub_eq_add_neg]
  rfl

theorem mul_ofInt {a b : ℤ} (h : |a * b| ≤ 2 ^ 53) :
    mul (ofInt a) (ofInt b) = ofInt (a * b) := by
  rw [← toDouble_intCast h, Int.cast_mul]
  rfl

@[simp] theorem truncate_intCast (n : ℤ) : truncate (n : ℚ) = n := by
  unfold truncate
  split <;> simp

/-- Rounding does not leave a range with integer ends. -/
theorem abs_roundEven_le {q : ℚ} {m : ℤ} (h : |q| ≤ m) : |roundEven q| ≤ m := by
  obtain ⟨hlo, hhi⟩ := abs_le.mp h
  have hfloor : ⌊q⌋ ≤ m := Int.cast_le.mp ((Int.floor_le q).trans hhi)
  have hle : roundEven q ≤ m := by
    rcases hfloor.eq_or_lt with heq | hlt
    · have hint : q - ⌊q⌋ < 1 / 2 := by
        rw [heq]
        linarith
      rw [roundEven, if_pos hint, heq]
    · unfold roundEven
      split_ifs <;> omega
  have hge : -m ≤ roundEven q := by
    have hfl : -m ≤ ⌊q⌋ := Int.le_floor.mpr (by push_cast; exact hlo)
    unfold roundEven
    split_ifs <;> omega
  exact abs_le.mpr ⟨hge, hle⟩

/-- Below `2 ^ 53` in size, rounding to a double does not leave a range with
integer ends. -/
theorem toDouble_bounded {q : ℚ} {n : ℤ} (h : |q| ≤ n) (hn : n < 2 ^ 53) :
    ∃ x, toDouble q = .fin x ∧ |x| ≤ n := by
  have hlog : Int.log 2 |q| < 53 := by
    rcases eq_or_ne q 0 with rfl | hq
    · rw [abs_zero, Int.log_zero_right]
      norm_num
    · refine (Int.lt_zpow_iff_log_lt (by norm_num) (abs_pos.mpr hq)).mp ?_
      exact h.trans_lt (by exact_mod_cast hn)
  -- the unit in the last place is `1 / 2 ^ k`, so `n` is a multiple of it
  obtain ⟨k, hk⟩ : ∃ k : ℕ, max (Int.log 2 |q|) (-1022) - 52 = -(k : ℤ) :=
    ⟨(52 - max (Int.log 2 |q|) (-1022)).toNat, by omega⟩
  have hulp : ulp q * 2 ^ k = 1 := by
    rw [ulp, hk, zpow_neg, zpow_natCast, inv_mul_cancel₀ (by positivity)]
  have hdiv : q / ulp q = q * 2 ^ k := by
    rw [div_eq_iff (ulp_pos q).ne', mul_assoc, mul_comm ((2 : ℚ) ^ k), hulp, mul_one]
  have hround : |roundEven (q / ulp q)| ≤ n * 2 ^ k := by
    refine abs_roundEven_le ?_
    rw [hdiv, abs_mul, abs_of_pos (by positivity : (0 : ℚ) < 2 ^ k)]
    push_cast
    exact mul_le_mul_of_nonneg_right h (by positivity)
  have hval : |(roundEven (q / ulp q) : ℚ) * ulp q| ≤ n := by
    rw [abs_mul, abs_of_pos (ulp_pos q), ← Int.cast_abs]
    calc ((|roundEven (q / ulp q)| : ℤ) : ℚ) * ulp q
        ≤ ((n * 2 ^ k : ℤ) : ℚ) * ulp q :=
          mul_le_mul_of_nonneg_right (Int.cast_le.mpr hround) (ulp_pos q).le
      _ = n := by
          push_cast
          rw [mul_assoc, mul_comm ((2 : ℚ) ^ k), hulp, mul_one]
  have hbig : (n : ℚ) < 2 ^ 1024 :=
    lt_trans (by exact_mod_cast hn : (n : ℚ) < 2 ^ 53) (pow_lt_pow_right₀ (by norm_num) (by norm_num))
  obtain ⟨hlo, hhi⟩ := abs_le.mp hval
  refine ⟨_, ?_, hval⟩
  unfold toDouble
  rw [if_neg (not_le.mpr (hhi.trans_lt hbig)), if_neg (not_le.mpr ((neg_lt_neg hbig).trans_le hlo))]

/-- Rounding to a double does not leave a range with powers of two as ends. -/
theorem toDouble_le_pow {q : ℚ} {k : ℕ} (h : |q| < 2 ^ k) (hpos : 0 < k) (hk : k < 1024) :
    ∃ x, toDouble q = .fin x ∧ |x| ≤ 2 ^ k := by
  have hlog : Int.log 2 |q| < k := by
    rcases eq_or_ne q 0 with rfl | hq
    · rw [abs_zero, Int.log_zero_right]
      exact_mod_cast hpos
    · apply (Int.lt_zpow_iff_log_lt (by norm_num) (abs_pos.mpr hq)).mp
      rw [zpow_natCast]
      exact_mod_cast h
  obtain ⟨e, he⟩ : ∃ e, max (Int.log 2 |q|) (-1022) = e := ⟨_, rfl⟩
  have hlt : |q| < (2 : ℚ) ^ (e + 1) := by
    have hself : |q| < ((2 : ℕ) : ℚ) ^ (Int.log 2 |q| + 1) :=
      Int.lt_zpow_succ_log_self (by norm_num) |q|
    rw [Nat.cast_ofNat] at hself
    apply hself.trans_le
    exact zpow_le_zpow_right₀ (by norm_num) (by omega)
  have hulp : (2 : ℚ) ^ (53 : ℤ) * ulp q = 2 ^ (e + 1) := by
    rw [ulp, he, ← zpow_add₀ (by norm_num)]
    congr 1
    ring
  have hround : |roundEven (q / ulp q)| ≤ 2 ^ 53 := by
    apply abs_roundEven_le
    rw [abs_div, abs_of_pos (ulp_pos q), div_le_iff₀ (ulp_pos q)]
    exact hlt.le.trans_eq (by rw [← hulp]; norm_num)
  have hval : |(roundEven (q / ulp q) : ℚ) * ulp q| ≤ 2 ^ k := by
    rw [abs_mul, abs_of_pos (ulp_pos q), ← Int.cast_abs]
    calc ((|roundEven (q / ulp q)| : ℤ) : ℚ) * ulp q
        ≤ (2 : ℚ) ^ (53 : ℤ) * ulp q := by
          apply mul_le_mul_of_nonneg_right _ (ulp_pos q).le
          exact_mod_cast hround
      _ = 2 ^ (e + 1) := hulp
      _ ≤ (2 : ℚ) ^ (k : ℤ) := zpow_le_zpow_right₀ (by norm_num) (by omega)
      _ = 2 ^ k := zpow_natCast 2 k
  have hbig : (2 : ℚ) ^ k < 2 ^ 1024 := pow_lt_pow_right₀ (by norm_num) hk
  obtain ⟨hlo, hhi⟩ := abs_le.mp hval
  refine ⟨_, ?_, hval⟩
  unfold toDouble
  rw [if_neg (not_le.mpr (hhi.trans_lt hbig)), if_neg (not_le.mpr ((neg_lt_neg hbig).trans_le hlo))]
/-- A fraction with a power of two below and less than `2 ^ 53` above is a
double. -/
theorem toDouble_dyadic {q : ℚ} {k : ℕ} {a : ℤ} (hq : q * 2 ^ k = a) (ha : |a| < 2 ^ 53)
    (hk : k ≤ 1074) : toDouble q = .fin q := by
  rcases eq_or_ne q 0 with rfl | hne
  · have hzero := toDouble_intCast (n := 0) (by norm_num)
    rwa [Int.cast_zero] at hzero
  have hpow : (0 : ℚ) < 2 ^ k := by positivity
  have hlt : |q| < 2 ^ 53 := by
    have habs : |q| * 2 ^ k < 2 ^ 53 := by
      rw [← abs_of_pos hpow, ← abs_mul, hq, ← Int.cast_abs]
      exact_mod_cast ha
    have hone : (1 : ℚ) ≤ 2 ^ k := one_le_pow₀ (by norm_num)
    exact lt_of_le_of_lt (le_mul_of_one_le_right (abs_nonneg q) hone) habs
  have hlog : Int.log 2 |q| < 53 - (k : ℤ) := by
    refine (Int.lt_zpow_iff_log_lt (by norm_num) (abs_pos.mpr hne)).mp ?_
    rw [Nat.cast_ofNat, zpow_sub₀ (by norm_num), zpow_natCast, lt_div_iff₀ hpow,
      ← abs_of_pos hpow, ← abs_mul, hq, ← Int.cast_abs]
    exact_mod_cast ha
  obtain ⟨j, hj⟩ : ∃ j : ℕ, max (Int.log 2 |q|) (-1022) - 52 = -((k + j : ℕ) : ℤ) :=
    ⟨(-(k : ℤ) - (max (Int.log 2 |q|) (-1022) - 52)).toNat, by omega⟩
  have hulp : ulp q = (2 ^ (k + j))⁻¹ := by
    rw [ulp, hj, zpow_neg, zpow_natCast]
  have hdiv : q / ulp q = ((a * 2 ^ j : ℤ) : ℚ) := by
    rw [hulp, div_inv_eq_mul, pow_add, ← mul_assoc, hq]
    push_cast
    ring
  have hval : (roundEven (q / ulp q) : ℚ) * ulp q = q := by
    rw [hdiv, roundEven_intCast, ← hdiv, div_mul_cancel₀ _ (ulp_pos q).ne']
  have hbig : (2 : ℚ) ^ 53 < 2 ^ 1024 := pow_lt_pow_right₀ (by norm_num) (by norm_num)
  obtain ⟨hlo, hhi⟩ := abs_lt.mp hlt
  unfold toDouble
  rw [hval, if_neg (not_le.mpr (hhi.trans hbig)), if_neg (not_le.mpr ((neg_lt_neg hbig).trans hlo))]

/-- A number that JavaScript can hold: not every rational is a double. -/
def IsDouble : Number → Prop
  | .fin q => toDouble q = .fin q
  | _ => True

instance (x : Number) : Decidable (IsDouble x) := by
  cases x with
  | fin q => exact inferInstanceAs (Decidable (toDouble q = .fin q))
  | _ => exact .isTrue trivial

/-- A double from 1 to `2 ^ 53` is a fraction of this kind. -/
theorem exists_dyadic {m : ℚ} (hm : IsDouble (.fin m)) (h₁ : 1 ≤ m) (h₂ : m < 2 ^ 53) :
    ∃ (k : ℕ) (a : ℤ), k ≤ 52 ∧ m * 2 ^ k = a ∧ 0 ≤ a ∧ a < 2 ^ 53 := by
  have hpos : (0 : ℚ) < m := lt_of_lt_of_le one_pos h₁
  have habs : |m| = m := abs_of_pos hpos
  have hlog₀ : 0 ≤ Int.log 2 |m| := by
    rw [habs, ← Int.zpow_le_iff_le_log (by norm_num) hpos]
    simpa using h₁
  have hlog₁ : Int.log 2 |m| < 53 := by
    rw [habs]
    refine (Int.lt_zpow_iff_log_lt (by norm_num) hpos).mp ?_
    exact_mod_cast h₂
  obtain ⟨k, hk⟩ : ∃ k : ℕ, max (Int.log 2 |m|) (-1022) - 52 = -(k : ℤ) :=
    ⟨(52 - Int.log 2 |m|).toNat, by omega⟩
  have hulp : ulp m * 2 ^ k = 1 := by
    rw [ulp, hk, zpow_neg, zpow_natCast, inv_mul_cancel₀ (by positivity)]
  have hval : (roundEven (m / ulp m) : ℚ) * ulp m = m := by
    have hround : toDouble m = .fin m := hm
    unfold toDouble at hround
    split_ifs at hround
    exact Number.fin.inj hround
  have hmk : m * 2 ^ k = roundEven (m / ulp m) := by
    nth_rewrite 1 [← hval]
    rw [mul_assoc, hulp, mul_one]
  refine ⟨k, roundEven (m / ulp m), by omega, hmk, ?_, ?_⟩
  · have : (0 : ℚ) ≤ roundEven (m / ulp m) := hmk ▸ by positivity
    exact_mod_cast this
  · have hlt : m * 2 ^ k < 2 ^ 53 := by
      have hz : m < (2 : ℚ) ^ (Int.log 2 |m| + 1) := by
        rw [habs]
        exact Int.lt_zpow_succ_log_self (by norm_num) m
      have hexp : (2 : ℚ) ^ (Int.log 2 |m| + 1) * 2 ^ k = 2 ^ 53 := by
        rw [← zpow_natCast, ← zpow_add₀ (by norm_num), show Int.log 2 |m| + 1 + (k : ℤ) = 53 by omega]
        norm_num
      exact hexp ▸ mul_lt_mul_of_pos_right hz (by positivity)
    rw [hmk] at hlt
    exact_mod_cast hlt

/-- A double is a fraction with a power of two below. -/
theorem exists_scaled {q : ℚ} (hq : IsDouble (.fin q)) : ∃ (k : ℕ) (r : ℤ), q * 2 ^ k = r := by
  have hval : (roundEven (q / ulp q) : ℚ) * ulp q = q := by
    have hround : toDouble q = .fin q := hq
    unfold toDouble at hround
    split_ifs at hround
    exact Number.fin.inj hround
  obtain ⟨e, he⟩ : ∃ e : ℤ, ulp q = 2 ^ e := ⟨_, rfl⟩
  refine ⟨(-e).toNat, roundEven (q / ulp q) * 2 ^ e.toNat, ?_⟩
  have hpow : (2 : ℚ) ^ e * 2 ^ (-e).toNat = 2 ^ e.toNat := by
    rw [← zpow_natCast, ← zpow_natCast, ← zpow_add₀ (by norm_num)]
    congr 1
    omega
  nth_rewrite 1 [← hval]
  rw [he, mul_assoc, hpow]
  push_cast
  rfl

theorem roundEven_nonpos {q : ℚ} (h : q ≤ 0) : roundEven q ≤ 0 := by
  rcases h.eq_or_lt with rfl | hlt
  · have hzero := roundEven_intCast 0
    rw [Int.cast_zero] at hzero
    exact hzero.le
  · have hfloor : ⌊q⌋ < 0 := Int.floor_lt.mpr (by exact_mod_cast hlt)
    unfold roundEven
    split_ifs <;> omega

/-- What is not positive is cut off at zero, whatever it rounds to. -/
theorem atLeast_toDouble_of_nonpos {q : ℚ} (h : q ≤ 0) : atLeast 0 (toDouble q) = 0 := by
  have hdiv : q / ulp q ≤ 0 := div_nonpos_of_nonpos_of_nonneg h (ulp_pos q).le
  have hval : (roundEven (q / ulp q) : ℚ) * ulp q ≤ 0 :=
    mul_nonpos_of_nonpos_of_nonneg (by exact_mod_cast roundEven_nonpos hdiv) (ulp_pos q).le
  have hbig : (0 : ℚ) < 2 ^ 1024 := by positivity
  unfold toDouble
  rw [if_neg (not_le.mpr (hval.trans_lt hbig))]
  split_ifs
  · rfl
  · show (if lt (.fin _) (.fin _) = true then (0 : Number) else .fin _) = 0
    rcases hval.eq_or_lt with heq | hlt
    · rw [heq]
      rfl
    · rw [if_pos (lt_fin_iff.mpr (by simpa using hlt))]

/-- The remainder of a natural number. -/
theorem mod_ofInt {a b : ℤ} (ha : 0 ≤ a) (hb : 0 < b) :
    mod (ofInt a) (ofInt b) = ofInt (a % b) := by
  have hq : (0 : ℚ) ≤ a / b := div_nonneg (Int.cast_nonneg ha) (Int.cast_nonneg hb.le)
  have hfloor : truncate ((a : ℚ) / b) = a / b := by
    lift b to ℕ using hb.le
    rw [truncate, if_pos hq, Int.cast_natCast, Rat.floor_intCast_div_natCast]
  have hne : (b : ℚ) ≠ 0 := by exact_mod_cast hb.ne'
  show (if (b : ℚ) = 0 then nan else fin ((a : ℚ) - b * truncate ((a : ℚ) / b))) = fin ((a % b : ℤ) : ℚ)
  rw [if_neg hne, hfloor, Int.emod_def]
  push_cast
  rfl

theorem lt_ofInt (a b : ℤ) : lt (ofInt a) (ofInt b) = decide (a < b) := by
  show decide ((a : ℚ) < b) = decide (a < b)
  simp only [Int.cast_lt]

theorem atLeast_ofInt (lo a : ℤ) : atLeast (ofInt lo) (ofInt a) = ofInt (max lo a) := by
  show (if lt (ofInt a) (ofInt lo) = true then ofInt lo else ofInt a) = _
  rw [lt_ofInt]
  rcases lt_or_ge a lo with h | h
  · rw [max_eq_left h.le, if_pos (decide_eq_true h)]
  · rw [max_eq_right h, if_neg (by simpa using h)]

/-- `Math.max(0, Math.floor(x))` of a finite number. -/
theorem atLeast_floor_of_finite {x : Number} (h : x.isFinite = true) :
    atLeast 0 (floor x) = ofInt (max 0 ⌊x.value⌋) := by
  have hzero : (0 : Number) = ofInt 0 := congrArg Number.fin (by norm_num)
  rw [eq_value h, hzero]
  exact atLeast_ofInt 0 _

theorem atMost_ofInt (hi a : ℤ) : atMost (ofInt hi) (ofInt a) = ofInt (min hi a) := by
  show (if lt (ofInt hi) (ofInt a) = true then ofInt hi else ofInt a) = _
  rw [lt_ofInt]
  rcases lt_or_ge hi a with h | h
  · rw [min_eq_left h.le, if_pos (decide_eq_true h)]
  · rw [min_eq_right h, if_neg (by simpa using h)]

end Number

/-! ### Strings -/

namespace Text

/-- The white space and line terminators that `String.prototype.trim`
removes. -/
def isSpace (c : Char) : Bool :=
  c.toNat ∈ [0x9, 0xA, 0xB, 0xC, 0xD, 0x20, 0xA0, 0x1680, 0x2000, 0x2001, 0x2002, 0x2003, 0x2004,
    0x2005, 0x2006, 0x2007, 0x2008, 0x2009, 0x200A, 0x2028, 0x2029, 0x202F, 0x205F, 0x3000, 0xFEFF]

/-- Drop white space at both ends of a list of characters. -/
def trimList (l : List Char) : List Char :=
  ((l.dropWhile isSpace).reverse.dropWhile isSpace).reverse

/-- `String.prototype.trim`. -/
def trim (s : String) : String := String.ofList (trimList s.toList)

theorem dropWhile_eq_self_of_head {p : Char → Bool} {l : List Char}
    (h : ∀ c, l.head? = some c → p c = false) : l.dropWhile p = l := by
  cases l with
  | nil => rfl
  | cons c l => rw [List.dropWhile_cons_of_neg (by simp [h c rfl])]

theorem head?_dropWhile {p : Char → Bool} {l : List Char} {c : Char}
    (h : (l.dropWhile p).head? = some c) : p c = false := by
  have := List.head?_dropWhile_not p l
  rw [h] at this
  simpa using this

/-- The first character that is left is still the first after the other end
has been trimmed. -/
theorem head?_trimList {l : List Char} {c : Char} (h : (trimList l).head? = some c) :
    isSpace c = false := by
  obtain ⟨pre, hpre⟩ := List.dropWhile_suffix isSpace (l := (l.dropWhile isSpace).reverse)
  have hsplit : l.dropWhile isSpace = trimList l ++ pre.reverse := by
    rw [trimList, ← List.reverse_append, hpre, List.reverse_reverse]
  refine head?_dropWhile (l := l) (c := c) ?_
  rw [hsplit, List.head?_append, h]
  rfl

theorem trimList_trimList (l : List Char) : trimList (trimList l) = trimList l := by
  have h₁ : (trimList l).dropWhile isSpace = trimList l :=
    dropWhile_eq_self_of_head fun c hc => head?_trimList hc
  have h₂ : (trimList l).reverse.dropWhile isSpace = (trimList l).reverse := by
    refine dropWhile_eq_self_of_head fun c hc => ?_
    rw [trimList, List.reverse_reverse] at hc
    exact head?_dropWhile hc
  rw [trimList, h₁, h₂, List.reverse_reverse]

@[simp] theorem trim_trim (s : String) : trim (trim s) = trim s := by
  rw [trim, trim, String.toList_ofList, trimList_trimList]

/-- A text is trimmed when it neither begins nor ends with white space. -/
theorem trimList_eq_self {l : List Char} (hhead : ∀ c, l.head? = some c → isSpace c = false)
    (hlast : ∀ c, l.getLast? = some c → isSpace c = false) : trimList l = l := by
  have hback : l.reverse.dropWhile isSpace = l.reverse := by
    refine dropWhile_eq_self_of_head fun c hc => hlast c ?_
    rwa [List.head?_reverse] at hc
  rw [trimList, dropWhile_eq_self_of_head hhead, hback, List.reverse_reverse]

theorem trim_eq_self {s : String} (hhead : ∀ c, s.toList.head? = some c → isSpace c = false)
    (hlast : ∀ c, s.toList.getLast? = some c → isSpace c = false) : trim s = s := by
  rw [trim, trimList_eq_self hhead hlast, String.ofList_toList]

/-- So does a trimmed text begin. -/
theorem head_of_trim_eq {s : String} (h : trim s = s) {c : Char} (hc : s.toList.head? = some c) :
    isSpace c = false := by
  have hlist := congrArg String.toList h
  rw [trim, String.toList_ofList] at hlist
  rw [← hlist] at hc
  exact head?_trimList hc

/-- The text before the first separator is determined by the whole. -/
theorem eq_of_append_cons {c : Char} {u v a b : List Char} (hu : c ∉ u) (hv : c ∉ v)
    (h : u ++ c :: a = v ++ c :: b) : u = v ∧ a = b := by
  induction u generalizing v with
  | nil =>
      cases v with
      | nil => exact ⟨rfl, (List.cons.inj h).2⟩
      | cons d v =>
          have hd : c = d := (List.cons.inj h).1
          exact absurd (hd ▸ List.mem_cons_self) hv
  | cons d u ih =>
      cases v with
      | nil =>
          have hd : d = c := (List.cons.inj h).1
          exact absurd (hd ▸ List.mem_cons_self) hu
      | cons e v =>
          obtain ⟨rfl, hrest⟩ := List.cons.inj h
          obtain ⟨rfl, hab⟩ := ih (fun hc => hu (List.mem_cons_of_mem d hc))
            (fun hc => hv (List.mem_cons_of_mem d hc)) hrest
          exact ⟨rfl, hab⟩

end Text

/-! ### Values -/

/-- A JavaScript value without functions: `null`, a primitive, an array or an
object with its own properties. -/
inductive Js where
  | null
  | bool (b : Bool)
  | num (n : Number)
  | str (s : String)
  | arr (elems : List Js)
  | obj (fields : List (String × Js))

namespace Js

/-- `typeof v === "object"` and `v` is not `null`. -/
def isObject : Js → Bool
  | .arr _ => true
  | .obj _ => true
  | _ => false

/-- Property access; `none` is `undefined`. -/
def get (v : Js) (key : String) : Option Js :=
  match v with
  | .obj fields => fields.lookup key
  | _ => none

/-- `v && typeof v === "object" ? v : {}`. -/
def asRecord : Option Js → Js
  | some v => if v.isObject then v else .obj []
  | none => .obj []

/-- `Array.isArray(v) ? v : []`. -/
def asArray : Option Js → List Js
  | some (.arr elems) => elems
  | _ => []

/-- The string `v` is, if it is one. -/
def asString : Option Js → Option String
  | some (.str s) => some s
  | _ => none

/-- The number `v` is, if it is one. -/
def asNumber : Option Js → Option Number
  | some (.num n) => some n
  | _ => none

/-- `Boolean(v)`. -/
def truthy : Option Js → Bool
  | none => false
  | some .null => false
  | some (.bool b) => b
  | some (.num n) => n ≠ .fin 0 && n ≠ .nan
  | some (.str s) => s ≠ ""
  | some (.arr _) => true
  | some (.obj _) => true

mutual

/-- `JSON.parse(JSON.stringify(v))`: a number that is not finite becomes
`null`. -/
def serialise : Js → Js
  | .null => .null
  | .bool b => .bool b
  | .num (.fin q) => .num (.fin q)
  | .num _ => .null
  | .str s => .str s
  | .arr elems => .arr (serialiseList elems)
  | .obj fields => .obj (serialiseFields fields)

def serialiseList : List Js → List Js
  | [] => []
  | v :: vs => serialise v :: serialiseList vs

def serialiseFields : List (String × Js) → List (String × Js)
  | [] => []
  | (k, v) :: fields => (k, serialise v) :: serialiseFields fields

end

@[simp] theorem serialise_null : serialise .null = .null := by rw [serialise]

@[simp] theorem serialise_bool (b : Bool) : serialise (.bool b) = .bool b := by rw [serialise]

@[simp] theorem serialise_str (s : String) : serialise (.str s) = .str s := by rw [serialise]

@[simp] theorem serialise_arr (elems : List Js) :
    serialise (.arr elems) = .arr (serialiseList elems) := by rw [serialise]

@[simp] theorem serialise_obj (fields : List (String × Js)) :
    serialise (.obj fields) = .obj (serialiseFields fields) := by rw [serialise]

@[simp] theorem serialiseFields_nil : serialiseFields [] = [] := by rw [serialiseFields]

@[simp] theorem serialiseFields_cons (k : String) (v : Js) (fields : List (String × Js)) :
    serialiseFields ((k, v) :: fields) = (k, serialise v) :: serialiseFields fields := by
  rw [serialiseFields]

theorem serialise_num {x : Number} (h : x.isFinite = true) : serialise (.num x) = .num x := by
  cases x with
  | fin q => rw [serialise]
  | posInf => cases h
  | negInf => cases h
  | nan => cases h

mutual

/-- Serialising twice is serialising once. -/
theorem serialise_serialise : ∀ v : Js, serialise (serialise v) = serialise v
  | .null => rfl
  | .bool _ => rfl
  | .num (.fin _) => rfl
  | .num .posInf => rfl
  | .num .negInf => rfl
  | .num .nan => rfl
  | .str _ => rfl
  | .arr elems => by simp only [serialise, serialiseList_serialiseList elems]
  | .obj fields => by simp only [serialise, serialiseFields_serialiseFields fields]

theorem serialiseList_serialiseList :
    ∀ vs : List Js, serialiseList (serialiseList vs) = serialiseList vs
  | [] => rfl
  | v :: vs => by
      simp only [serialiseList, serialise_serialise v, serialiseList_serialiseList vs]

theorem serialiseFields_serialiseFields :
    ∀ fs : List (String × Js), serialiseFields (serialiseFields fs) = serialiseFields fs
  | [] => rfl
  | (k, v) :: fs => by
      simp only [serialiseFields, serialise_serialise v, serialiseFields_serialiseFields fs]

end

/-- A list of values none of which changes does not change. -/
theorem serialiseList_map {α : Type} {f : α → Js} {l : List α}
    (h : ∀ a ∈ l, serialise (f a) = f a) : serialiseList (l.map f) = l.map f := by
  induction l with
  | nil => rfl
  | cons a l ih =>
      rw [List.map_cons, serialiseList, h a List.mem_cons_self,
        ih fun b hb => h b (List.mem_cons_of_mem a hb)]

end Js
