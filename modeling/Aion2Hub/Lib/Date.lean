/-
Aion2Hub/Lib/Date.lean

The part of ECMAScript's `Date` that period arithmetic uses.

A time value is an integer number of milliseconds since the epoch, and a
`Date` is an `Option ℤ` where `none` is an invalid date.  Local time is a
parameter (`Zone`): two functions between instants and local times, about
which nothing is assumed here.  `ofDay` and `makeDay` are the proleptic
Gregorian calendar on day numbers; months count from 0, as in JavaScript.

The main facts are that the calendar date determines the day
(`makeDay_ofDay`, hence `ofDay_injective`), that `setDate(getDate() + k)`
moves by exactly `k` days whatever the month (`makeDay_ofDay_add`), and that
dates are ordered like days (`ofDay_lt`).
-/
import Aion2Hub.Lib.Js
import Mathlib.Data.String.Basic

/-! ### The calendar -/

namespace Calendar

/-- A calendar date; January is month 0. -/
structure Civil where
  year : ℤ
  month : ℤ
  day : ℤ
  deriving DecidableEq

/-- Days from 1 March of year 0 to 1 March of year `y`. -/
def yearStart (y : ℤ) : ℤ := 365 * y + y / 4 - y / 100 + y / 400

/-- Days from 1 March to the first of the `mp`-th month after March. -/
def monthStart (mp : ℤ) : ℤ := (153 * mp + 2) / 5

/-- The year that begins on 1 March, and the day in it. -/
def marchYear (z : ℤ) : ℤ × ℤ :=
  let d := z + 719468
  let r := d % 146097
  let n100 := min 3 (r / 36524)
  let r₁ := r - 36524 * n100
  let r₂ := r₁ % 1461
  let n1 := min 3 (r₂ / 365)
  (400 * (d / 146097) + 100 * n100 + 4 * (r₁ / 1461) + n1, r₂ - 365 * n1)

/-- The date of a day number. -/
def ofDay (z : ℤ) : Civil :=
  let p := marchYear z
  let mp := (5 * p.2 + 2) / 153
  let m := 12 * p.1 + mp + 2
  ⟨m / 12, m % 12, p.2 - monthStart mp + 1⟩

/-- `MakeDay`: the day number of a date whose month and day may be out of
range. -/
def makeDay (year month day : ℤ) : ℤ :=
  let m := 12 * year + month - 2
  yearStart (m / 12) + monthStart (m % 12) - 719468 + day - 1

/-- `WeekDay`, with Sunday as 0. -/
def weekDay (z : ℤ) : ℤ := (z + 4) % 7

/-- The mixed-radix digits behind `marchYear`: 400 years, centuries, leap
cycles, years and days.  The fourth century and the fourth year of a cycle
are the long ones. -/
theorem marchYear_digits (z : ℤ) : ∃ a b c e doy, marchYear z = (400 * a + 100 * b + 4 * c + e, doy) ∧
    z + 719468 = 146097 * a + 36524 * b + 1461 * c + 365 * e + doy ∧
    (0 ≤ b ∧ b ≤ 3) ∧ (0 ≤ c ∧ c ≤ 24) ∧ (0 ≤ e ∧ e ≤ 3) ∧ 0 ≤ doy ∧ doy ≤ 365 ∧
    (e < 3 → doy ≤ 364) ∧ (b < 3 → 1461 * c + 365 * e + doy < 36524) := by
  have hr : 0 ≤ (z + 719468) % 146097 ∧ (z + 719468) % 146097 < 146097 := by omega
  have hz : z + 719468 = 146097 * ((z + 719468) / 146097) + (z + 719468) % 146097 := by omega
  simp only [marchYear]
  generalize (z + 719468) / 146097 = a at hz ⊢
  generalize (z + 719468) % 146097 = r at hz hr ⊢
  have hb : 0 ≤ min 3 (r / 36524) ∧ min 3 (r / 36524) ≤ 3 ∧
      0 ≤ r - 36524 * min 3 (r / 36524) ∧ r - 36524 * min 3 (r / 36524) ≤ 36524 ∧
      (min 3 (r / 36524) < 3 → r - 36524 * min 3 (r / 36524) < 36524) := by omega
  generalize min 3 (r / 36524) = b at hb ⊢
  have hc : r - 36524 * b = 1461 * ((r - 36524 * b) / 1461) + (r - 36524 * b) % 1461 := by omega
  have hc' : 0 ≤ (r - 36524 * b) / 1461 ∧ (r - 36524 * b) / 1461 ≤ 24 ∧
      0 ≤ (r - 36524 * b) % 1461 ∧ (r - 36524 * b) % 1461 < 1461 := by omega
  generalize (r - 36524 * b) / 1461 = c at hc hc' ⊢
  generalize (r - 36524 * b) % 1461 = r₂ at hc hc' ⊢
  have he : 0 ≤ min 3 (r₂ / 365) ∧ min 3 (r₂ / 365) ≤ 3 ∧ 0 ≤ r₂ - 365 * min 3 (r₂ / 365) ∧
      r₂ - 365 * min 3 (r₂ / 365) ≤ 365 ∧
      (min 3 (r₂ / 365) < 3 → r₂ - 365 * min 3 (r₂ / 365) ≤ 364) := by omega
  generalize min 3 (r₂ / 365) = e at he ⊢
  refine ⟨a, b, c, e, r₂ - 365 * e, rfl, ?_, ?_, ?_, ?_, ?_, ?_, ?_, ?_⟩ <;> omega

theorem marchYear_spec (z : ℤ) :
    z = yearStart (marchYear z).1 + (marchYear z).2 - 719468 ∧
      0 ≤ (marchYear z).2 ∧ (marchYear z).2 ≤ 365 := by
  obtain ⟨a, b, c, e, doy, hm, hz, hb, hc, he, h₀, h₁, -, -⟩ := marchYear_digits z
  have h4 : (400 * a + 100 * b + 4 * c + e) / 4 = 100 * a + 25 * b + c := by omega
  have h100 : (400 * a + 100 * b + 4 * c + e) / 100 = 4 * a + b := by omega
  have h400 : (400 * a + 100 * b + 4 * c + e) / 400 = a := by omega
  simp only [hm, yearStart, h4, h100, h400]
  omega

theorem monthIndex_range {doy : ℤ} (h₀ : 0 ≤ doy) (h₁ : doy ≤ 365) :
    0 ≤ (5 * doy + 2) / 153 ∧ (5 * doy + 2) / 153 ≤ 11 := by
  omega

/-- The date of a day leads back to the day, also after any shift of the
day of the month. -/
theorem makeDay_ofDay_add (z k : ℤ) :
    makeDay (ofDay z).year (ofDay z).month ((ofDay z).day + k) = z + k := by
  obtain ⟨hz, h₀, h₁⟩ := marchYear_spec z
  obtain ⟨hm₀, hm₁⟩ := monthIndex_range h₀ h₁
  simp only [makeDay, ofDay]
  generalize (5 * (marchYear z).2 + 2) / 153 = mp at hm₀ hm₁ ⊢
  generalize (marchYear z).1 = y at hz ⊢
  have hy : (12 * ((12 * y + mp + 2) / 12) + (12 * y + mp + 2) % 12 - 2) / 12 = y := by omega
  have hmp : (12 * ((12 * y + mp + 2) / 12) + (12 * y + mp + 2) % 12 - 2) % 12 = mp := by omega
  rw [hy, hmp]
  omega

theorem makeDay_ofDay (z : ℤ) : makeDay (ofDay z).year (ofDay z).month (ofDay z).day = z := by
  have := makeDay_ofDay_add z 0
  rwa [add_zero, add_zero] at this

theorem ofDay_injective {z z' : ℤ} (h : ofDay z = ofDay z') : z = z' := by
  rw [← makeDay_ofDay z, h, makeDay_ofDay]

theorem ofDay_range (z : ℤ) :
    0 ≤ (ofDay z).month ∧ (ofDay z).month ≤ 11 ∧ 1 ≤ (ofDay z).day ∧ (ofDay z).day ≤ 31 := by
  obtain ⟨-, h₀, h₁⟩ := marchYear_spec z
  simp only [ofDay, monthStart]
  omega

/-- The March-based year and the day in it are ordered like days. -/
theorem marchYear_lt {z z' : ℤ} (h : z < z') :
    (marchYear z).1 < (marchYear z').1 ∨
      (marchYear z).1 = (marchYear z').1 ∧ (marchYear z).2 < (marchYear z').2 := by
  obtain ⟨a, b, c, e, doy, hm, hz, hb, hc, he, h₀, h₁, h₂, h₃⟩ := marchYear_digits z
  obtain ⟨a', b', c', e', doy', hm', hz', hb', hc', he', h₀', h₁', h₂', h₃'⟩ := marchYear_digits z'
  simp only [hm, hm']
  omega

/-- Dates are ordered like days: by year, then month, then day. -/
theorem ofDay_lt {z z' : ℤ} (h : z < z') :
    (ofDay z).year < (ofDay z').year ∨
      (ofDay z).year = (ofDay z').year ∧
        ((ofDay z).month < (ofDay z').month ∨
          (ofDay z).month = (ofDay z').month ∧ (ofDay z).day < (ofDay z').day) := by
  obtain ⟨-, h₀, h₁⟩ := marchYear_spec z
  obtain ⟨-, h₀', h₁'⟩ := marchYear_spec z'
  have hlt := marchYear_lt h
  simp only [ofDay, monthStart]
  generalize (marchYear z).1 = y at *
  generalize (marchYear z').1 = y' at *
  generalize (marchYear z).2 = d at *
  generalize (marchYear z').2 = d' at *
  omega

end Calendar

/-! ### Decimal fields -/

namespace Decimal

/-- The character of a decimal digit. -/
def digit (n : ℕ) : Char := Char.ofNat (48 + n % 10)

/-- The last `w` decimal digits of `n`, padded with zeros. -/
def fixed : ℕ → ℕ → List Char
  | 0, _ => []
  | w + 1, n => fixed w (n / 10) ++ [digit n]

@[simp] theorem length_fixed (w n : ℕ) : (fixed w n).length = w := by
  induction w generalizing n with
  | zero => rfl
  | succ w ih => simp [fixed, ih]

theorem digit_lt {m n : ℕ} (h : m % 10 < n % 10) : digit m < digit n := by
  have key : ∀ b < 10, ∀ a < b, Char.ofNat (48 + a) < Char.ofNat (48 + b) := by decide
  exact key _ (Nat.mod_lt _ (by norm_num)) _ h

/-- A difference at the front decides. -/
theorem append_lt_append {u v : List Char} (huv : u < v) (hlen : u.length = v.length)
    (w w' : List Char) : u ++ w < v ++ w' := by
  induction u generalizing v with
  | nil =>
      cases v with
      | nil => exact absurd huv (List.lt_irrefl [])
      | cons b v => simp at hlen
  | cons a u ih =>
      cases v with
      | nil => simp at hlen
      | cons b v =>
          rw [List.cons_append, List.cons_append, List.cons_lt_cons_iff]
          rcases List.cons_lt_cons_iff.mp huv with h | ⟨rfl, h⟩
          · exact .inl h
          · exact .inr ⟨rfl, ih h (by simpa using hlen)⟩

/-- After an equal front the rest decides. -/
theorem append_lt_append_left (u : List Char) {w w' : List Char} (h : w < w') :
    u ++ w < u ++ w' := by
  induction u with
  | nil => exact h
  | cons a u ih => exact List.cons_lt_cons_iff.mpr (.inr ⟨rfl, ih⟩)

/-- Padded numbers are ordered like numbers. -/
theorem fixed_lt {w a b : ℕ} (hb : b < 10 ^ w) (h : a < b) : fixed w a < fixed w b := by
  induction w generalizing a b with
  | zero => omega
  | succ w ih =>
      rw [fixed, fixed]
      rw [pow_succ] at hb
      rcases Nat.lt_or_ge (a / 10) (b / 10) with hlt | hge
      · exact append_lt_append (ih (by omega) hlt) (by simp) _ _
      · have heq : a / 10 = b / 10 := by omega
        rw [heq]
        refine append_lt_append_left _ (List.cons_lt_cons_iff.mpr (.inl (digit_lt ?_)))
        omega

/-- One field of a fixed format: it decides, or it is equal and the rest
does. -/
theorem fixed_append_lt {w a b : ℕ} (hb : b < 10 ^ w) {u v : List Char}
    (h : a < b ∨ a = b ∧ u < v) : fixed w a ++ u < fixed w b ++ v := by
  rcases h with h | ⟨rfl, h⟩
  · exact append_lt_append (fixed_lt hb h) (by simp) _ _
  · exact append_lt_append_left _ h

end Decimal

/-! ### Date objects -/

/-- A time zone: local time of an instant, and the instant of a local
time. -/
structure Zone where
  localTime : ℤ → ℤ
  utc : ℤ → ℤ

/-- The zone with a fixed offset, in milliseconds. -/
def Zone.fixed (offset : ℤ) : Zone := ⟨fun t => t + offset, fun t => t - offset⟩

namespace Date

def msPerDay : ℤ := 86400000

/-- The largest time value. -/
def maxTime : ℤ := 8640000000000000

/-- A time value that a `Date` can hold. -/
def Valid (t : ℤ) : Prop := |t| ≤ maxTime

instance (t : ℤ) : Decidable (Valid t) := inferInstanceAs (Decidable (_ ≤ _))

/-- `TimeClip` on an integer. -/
def timeClip (t : ℤ) : Option ℤ := if Valid t then some t else none

/-- `new Date(x)` for a number `x`. -/
def ofNum : Number → Option ℤ
  | .fin q => if |q| ≤ maxTime then some (Number.truncate q) else none
  | _ => none

theorem timeClip_of_valid {t : ℤ} (h : Valid t) : timeClip t = some t := if_pos h

theorem ofNum_ofInt (t : ℤ) : ofNum (Number.ofInt t) = timeClip t := by
  have hiff : |(t : ℚ)| ≤ (maxTime : ℚ) ↔ Valid t := by
    rw [Valid, ← Int.cast_abs, Int.cast_le]
  simp only [ofNum, Number.ofInt, timeClip, Number.truncate_intCast, hiff]

/-- The local calendar date. -/
def civil (z : Zone) (t : ℤ) : Calendar.Civil := Calendar.ofDay (z.localTime t / msPerDay)

/-- `d.getDay()`. -/
def getDay (z : Zone) (t : ℤ) : ℤ := Calendar.weekDay (z.localTime t / msPerDay)

/-- `d.setHours(hour, minute, 0, 0)`. -/
def setHours (z : Zone) (d : Option ℤ) (hour minute : ℤ) : Option ℤ :=
  d.bind fun t => timeClip
    (z.utc (z.localTime t / msPerDay * msPerDay + (hour * 3600000 + minute * 60000)))

/-- `d.setDate(x)` for an integer `x`. -/
def setDate (z : Zone) (d : Option ℤ) (x : ℤ → ℤ) : Option ℤ :=
  d.bind fun t => timeClip
    (z.utc (Calendar.makeDay (civil z t).year (civil z t).month (x (civil z t).day) * msPerDay
      + z.localTime t % msPerDay))

/-- `d.setDate(x)` for any number `x`; an infinite one makes the date
invalid. -/
def setDateTo (z : Zone) (d : Option ℤ) (x : ℤ → Number) : Option ℤ :=
  d.bind fun t => match x (civil z t).day with
    | .fin q => setDate z (some t) fun _ => Number.truncate q
    | _ => none

/-- `d.getHours()`. -/
def getHours (z : Zone) (t : ℤ) : ℤ := z.localTime t % msPerDay / 3600000

/-- `d.setHours(hour)`, which keeps the time within the hour. -/
def setHour (z : Zone) (d : Option ℤ) (hour : ℤ → ℤ) : Option ℤ :=
  d.bind fun t => timeClip (z.utc (z.localTime t / msPerDay * msPerDay +
    (hour (getHours z t) * 3600000 + z.localTime t % 3600000)))

/-- With integers it is the plain `setDate`. -/
theorem setDateTo_ofInt {z : Zone} {t : ℤ} {x : ℤ → Number} {y : ℤ → ℤ}
    (h : ∀ day, 1 ≤ day → day ≤ 31 → x day = Number.ofInt (y day)) :
    setDateTo z (some t) x = setDate z (some t) y := by
  obtain ⟨-, -, h₁, h₂⟩ := Calendar.ofDay_range (z.localTime t / msPerDay)
  show (match x (civil z t).day with | .fin q => _ | _ => none) = _
  rw [h (civil z t).day h₁ h₂]
  show setDate z (some t) (fun _ => Number.truncate ((y (civil z t).day : ℤ) : ℚ)) = _
  rw [Number.truncate_intCast]
  rfl

/-! ### A fixed offset -/

/-- With a fixed offset, setting the clock moves within the local day. -/
theorem setHours_fixed (o t hour minute : ℤ) : setHours (.fixed o) (some t) hour minute =
    timeClip ((t + o) / msPerDay * msPerDay + (hour * 3600000 + minute * 60000) - o) := rfl

/-- With a fixed offset, moving the day of the month by `k` moves the instant
by `k` days. -/
theorem setDate_fixed (o t k : ℤ) :
    setDate (.fixed o) (some t) (fun x => x + k) = timeClip (t + k * msPerDay) := by
  let c := Calendar.ofDay ((t + o) / msPerDay)
  show timeClip (Calendar.makeDay c.year c.month (c.day + k) * msPerDay + (t + o) % msPerDay - o) = _
  have hday : ((t + o) / msPerDay + k) * msPerDay + (t + o) % msPerDay - o = t + k * msPerDay := by
    unfold msPerDay
    omega
  rw [Calendar.makeDay_ofDay_add, hday]

theorem setDate_fixed_sub (o t k : ℤ) :
    setDate (.fixed o) (some t) (fun x => x - k) = timeClip (t - k * msPerDay) := by
  have h := setDate_fixed o t (-k)
  rwa [neg_mul, ← sub_eq_add_neg] at h

/-- With a fixed offset, moving the hour by `k` moves the instant by `k`
hours. -/
theorem setHour_fixed (o t k : ℤ) :
    setHour (.fixed o) (some t) (fun x => x + k) = timeClip (t + k * 3600000) := by
  show timeClip ((t + o) / msPerDay * msPerDay +
    (((t + o) % msPerDay / 3600000 + k) * 3600000 + (t + o) % 3600000) - o) = _
  congr 1
  unfold msPerDay
  omega

theorem setHour_fixed_sub (o t k : ℤ) :
    setHour (.fixed o) (some t) (fun x => x - k) = timeClip (t - k * 3600000) := by
  have h := setHour_fixed o t (-k)
  rwa [neg_mul, ← sub_eq_add_neg] at h

/-- The instants from `back` days before `t` to `ahead` days after it are
dates. -/
def Inside (back ahead t : ℤ) : Prop := Valid (t - back * msPerDay) ∧ Valid (t + ahead * msPerDay)

instance (back ahead t : ℤ) : Decidable (Inside back ahead t) :=
  inferInstanceAs (Decidable (_ ∧ _))

theorem Inside.valid {back ahead t u : ℤ} (h : Inside back ahead t)
    (hlo : t - back * msPerDay ≤ u) (hhi : u ≤ t + ahead * msPerDay) : Valid u := by
  have hl := (abs_le.mp h.1).1
  have hr := (abs_le.mp h.2).2
  exact abs_le.mpr ⟨hl.trans hlo, hhi.trans hr⟩

theorem Inside.timeClip {back ahead t u : ℤ} (h : Inside back ahead t)
    (hlo : t - back * msPerDay ≤ u) (hhi : u ≤ t + ahead * msPerDay) :
    timeClip u = some u := timeClip_of_valid (h.valid hlo hhi)

theorem Inside.shrink {back ahead b a t : ℤ} (h : Inside back ahead t) (hb : 0 ≤ b ∧ b ≤ back)
    (ha : 0 ≤ a ∧ a ≤ ahead) : Inside b a t := by
  have hday : 0 ≤ msPerDay := by decide
  have hback : b * msPerDay ≤ back * msPerDay := mul_le_mul_of_nonneg_right hb.2 hday
  have hahead : a * msPerDay ≤ ahead * msPerDay := mul_le_mul_of_nonneg_right ha.2 hday
  have hb₀ := mul_nonneg hb.1 hday
  have ha₀ := mul_nonneg ha.1 hday
  have hb₁ := hb₀.trans hback
  have ha₁ := ha₀.trans hahead
  exact ⟨h.valid (by omega) (by omega), h.valid (by omega) (by omega)⟩

/-! ### ISO strings -/

/-- The year of an ISO string: four digits, or a sign and six. -/
def yearChars (y : ℤ) : List Char :=
  if 0 ≤ y ∧ y ≤ 9999 then Decimal.fixed 4 y.toNat
  else (if y < 0 then '-' else '+') :: Decimal.fixed 6 y.natAbs

/-- `-MM-DD`, followed by what comes next. -/
def monthDayChars (c : Calendar.Civil) (rest : List Char) : List Char :=
  '-' :: (Decimal.fixed 2 (c.month + 1).toNat ++ '-' :: (Decimal.fixed 2 c.day.toNat ++ rest))

/-- `THH:mm:ss.sssZ` of the milliseconds of a day. -/
def timeChars (ms : ℤ) : List Char :=
  'T' :: (Decimal.fixed 2 (ms / 3600000).toNat ++ ':' ::
    (Decimal.fixed 2 (ms / 60000 % 60).toNat ++ ':' ::
      (Decimal.fixed 2 (ms / 1000 % 60).toNat ++ '.' ::
        (Decimal.fixed 3 (ms % 1000).toNat ++ ['Z']))))

def isoChars (t : ℤ) : List Char :=
  yearChars (Calendar.ofDay (t / msPerDay)).year ++
    monthDayChars (Calendar.ofDay (t / msPerDay)) (timeChars (t % msPerDay))

/-- `toISOString` of a valid date. -/
def isoString (t : ℤ) : String := String.ofList (isoChars t)

/-- What ISO strings are written with. -/
def isoAlphabet : List Char :=
  ['0', '1', '2', '3', '4', '5', '6', '7', '8', '9', '+', '-', ':', '.', 'T', 'Z']

theorem fixed_subset (w n : ℕ) : Decimal.fixed w n ⊆ isoAlphabet := by
  have hdigit : ∀ k < 10, Char.ofNat (48 + k) ∈ isoAlphabet := by decide
  induction w generalizing n with
  | zero => exact List.nil_subset _
  | succ w ih =>
      refine List.append_subset.mpr ⟨ih (n / 10), List.cons_subset.mpr ⟨?_, List.nil_subset _⟩⟩
      exact hdigit _ (Nat.mod_lt _ (by norm_num))

theorem isoChars_subset (t : ℤ) : isoChars t ⊆ isoAlphabet := by
  have hyear : ∀ y, yearChars y ⊆ isoAlphabet := by
    intro y
    unfold yearChars
    split
    · exact fixed_subset _ _
    · refine List.cons_subset.mpr ⟨?_, fixed_subset _ _⟩
      split <;> decide
  simp only [isoChars, monthDayChars, timeChars, List.append_subset, List.cons_subset]
  exact ⟨hyear _, by decide, fixed_subset _ _, by decide, fixed_subset _ _, by decide,
    fixed_subset _ _, by decide, fixed_subset _ _, by decide, fixed_subset _ _, by decide,
    fixed_subset _ _, by decide, List.nil_subset _⟩

/-- `d.toISOString()`, which throws on an invalid date. -/
def toISOString : Option ℤ → Except String String
  | some t => .ok (isoString t)
  | none => .error "Invalid time value"

/-- Instants of the years 0 to 9999. -/
def FourDigitYear (t : ℤ) : Prop :=
  0 ≤ (Calendar.ofDay (t / msPerDay)).year ∧ (Calendar.ofDay (t / msPerDay)).year ≤ 9999

instance (t : ℤ) : Decidable (FourDigitYear t) := inferInstanceAs (Decidable (_ ∧ _))

theorem FourDigitYear.valid {t : ℤ} (h : FourDigitYear t) : Valid t := by
  obtain ⟨hyear, hyear'⟩ := h
  obtain ⟨m₀, m₁, d₀, d₁⟩ := Calendar.ofDay_range (t / msPerDay)
  have hday := Calendar.makeDay_ofDay (t / msPerDay)
  simp only [Calendar.makeDay, Calendar.yearStart, Calendar.monthStart] at hday
  generalize (Calendar.ofDay (t / msPerDay)).year = y at hyear hyear' hday
  generalize (Calendar.ofDay (t / msPerDay)).month = m at m₀ m₁ hday
  have hmarch : -1 ≤ (12 * y + m - 2) / 12 ∧ (12 * y + m - 2) / 12 ≤ 10000 := by omega
  have hmonth : 0 ≤ (12 * y + m - 2) % 12 ∧ (12 * y + m - 2) % 12 ≤ 11 := by omega
  generalize (12 * y + m - 2) / 12 = y' at hmarch hday
  generalize (12 * y + m - 2) % 12 = m' at hmonth hday
  have hbound : -800000 ≤ t / msPerDay ∧ t / msPerDay ≤ 3000000 := by omega
  unfold msPerDay at hbound
  refine abs_le.mpr ⟨?_, ?_⟩ <;> unfold maxTime <;> omega

/-- Times of day are ordered like their milliseconds: each field decides, or
it is equal and the rest does. -/
theorem timeChars_lt {ms ms' : ℤ} (h₀ : 0 ≤ ms) (h₁ : ms' < msPerDay) (h : ms < ms') :
    timeChars ms < timeChars ms' := by
  unfold msPerDay at h₁
  have hsplit : ms / 3600000 < ms' / 3600000 ∨ ms / 3600000 = ms' / 3600000 ∧
      (ms / 60000 % 60 < ms' / 60000 % 60 ∨ ms / 60000 % 60 = ms' / 60000 % 60 ∧
        (ms / 1000 % 60 < ms' / 1000 % 60 ∨ ms / 1000 % 60 = ms' / 1000 % 60 ∧
          ms % 1000 < ms' % 1000)) := by omega
  refine List.cons_lt_cons_iff.mpr (.inr ⟨rfl, ?_⟩)
  refine Decimal.fixed_append_lt (by omega) (hsplit.imp (by omega) ?_)
  rintro ⟨hs, hsplit⟩
  refine ⟨by omega, List.cons_lt_cons_iff.mpr (.inr ⟨rfl, ?_⟩)⟩
  refine Decimal.fixed_append_lt (by omega) (hsplit.imp (by omega) ?_)
  rintro ⟨hs, hsplit⟩
  refine ⟨by omega, List.cons_lt_cons_iff.mpr (.inr ⟨rfl, ?_⟩)⟩
  refine Decimal.fixed_append_lt (by omega) (hsplit.imp (by omega) ?_)
  rintro ⟨hs, hs'⟩
  refine ⟨by omega, List.cons_lt_cons_iff.mpr (.inr ⟨rfl, ?_⟩)⟩
  exact Decimal.fixed_append_lt (by omega) (.inl (by omega))

/-- A later month or day decides, or the rest does. -/
theorem monthDayChars_lt {c c' : Calendar.Civil} (hm : 0 ≤ c.month) (hd : 1 ≤ c.day)
    (hm' : 0 ≤ c'.month ∧ c'.month ≤ 11) (hd' : 1 ≤ c'.day ∧ c'.day ≤ 31) {u v : List Char}
    (h : c.month < c'.month ∨ c.month = c'.month ∧ (c.day < c'.day ∨ c.day = c'.day ∧ u < v)) :
    monthDayChars c u < monthDayChars c' v := by
  refine List.cons_lt_cons_iff.mpr (.inr ⟨rfl, ?_⟩)
  refine Decimal.fixed_append_lt (by omega) (h.imp (by omega) ?_)
  rintro ⟨hs, h⟩
  refine ⟨by omega, List.cons_lt_cons_iff.mpr (.inr ⟨rfl, ?_⟩)⟩
  refine Decimal.fixed_append_lt (by omega) (h.imp (by omega) ?_)
  rintro ⟨hs, h⟩
  exact ⟨by omega, h⟩

/-- **ISO strings are ordered like instants** within the years of four
digits. -/
theorem isoString_lt {t t' : ℤ} (hy : FourDigitYear t) (hy' : FourDigitYear t') (h : t < t') :
    isoString t < isoString t' := by
  have hms : 0 ≤ t % msPerDay ∧ t' % msPerDay < msPerDay := by unfold msPerDay; omega
  obtain ⟨m₀, -, d₀, -⟩ := Calendar.ofDay_range (t / msPerDay)
  obtain ⟨m₀', m₁', d₀', d₁'⟩ := Calendar.ofDay_range (t' / msPerDay)
  have hrest : t / msPerDay = t' / msPerDay →
      timeChars (t % msPerDay) < timeChars (t' % msPerDay) := fun heq =>
    timeChars_lt hms.1 hms.2 (by unfold msPerDay at heq ⊢; omega)
  unfold FourDigitYear at hy hy'
  rw [String.lt_iff_toList_lt, isoString, isoString, String.toList_ofList, String.toList_ofList,
    isoChars, isoChars, yearChars, yearChars, if_pos hy, if_pos hy']
  obtain ⟨y₀, y₁⟩ := hy
  obtain ⟨y₀', y₁'⟩ := hy'
  refine Decimal.fixed_append_lt (by omega) ?_
  rcases lt_or_ge (t / msPerDay) (t' / msPerDay) with hlt | hge
  · refine (Calendar.ofDay_lt hlt).imp (by omega) ?_
    rintro ⟨hs, hmd⟩
    refine ⟨by omega, monthDayChars_lt m₀ d₀ ⟨m₀', m₁'⟩ ⟨d₀', d₁'⟩ (hmd.imp_right ?_)⟩
    exact fun ⟨hs, hd⟩ => ⟨hs, .inl hd⟩
  · have heq : t / msPerDay = t' / msPerDay := by unfold msPerDay at hge ⊢; omega
    rw [heq] at hrest ⊢
    exact .inr ⟨rfl, monthDayChars_lt m₀' d₀' ⟨m₀', m₁'⟩ ⟨d₀', d₁'⟩
      (.inr ⟨rfl, .inr ⟨rfl, hrest rfl⟩⟩)⟩

theorem isoString_lt_iff {t t' : ℤ} (hy : FourDigitYear t) (hy' : FourDigitYear t') :
    isoString t < isoString t' ↔ t < t' := by
  refine ⟨fun h => ?_, isoString_lt hy hy'⟩
  rcases lt_trichotomy t t' with hlt | rfl | hgt
  · exact hlt
  · exact absurd h (String.lt_irrefl _)
  · exact absurd (String.lt_trans h (isoString_lt hy' hy hgt)) (String.lt_irrefl _)

end Date
