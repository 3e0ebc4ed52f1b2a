/-
Aion2Hub/Lib/Host.lean

What a JavaScript program takes from the host it runs on: the local time
zone, `Date.parse` on arbitrary strings and `String.prototype.toLowerCase`.
Beyond the format that `toISOString` writes, parsing is up to the host, so a
`Host` only promises that it reads back its own output and never returns an
invalid time.

`parseIso` reads exactly the format of `toISOString`; with it there is a host
for every zone (`Host.iso`), which concrete runs are evaluated on.
-/
import Aion2Hub.Lib.Date

/-! ### Reading digits -/

namespace Decimal

/-- The number that a list of decimal digits denotes. -/
def value (l : List Char) : ℕ := l.foldl (fun n c => 10 * n + (c.toNat - 48)) 0

theorem digit_toNat (n : ℕ) : (digit n).toNat = 48 + n % 10 := by
  have key : ∀ k < 10, (Char.ofNat (48 + k)).toNat = 48 + k := by decide
  exact key _ (Nat.mod_lt _ (by norm_num))

theorem value_append_singleton (l : List Char) (c : Char) :
    value (l ++ [c]) = 10 * value l + (c.toNat - 48) := by
  rw [value, List.foldl_append]
  rfl

/-- Reading back the last `w` digits. -/
theorem value_fixed (w n : ℕ) : value (fixed w n) = n % 10 ^ w := by
  induction w generalizing n with
  | zero => rw [pow_zero, Nat.mod_one]; rfl
  | succ w ih =>
      rw [fixed, value_append_singleton, ih, digit_toNat, Nat.add_sub_cancel_left, pow_succ,
        mul_comm (10 ^ w) 10, Nat.mod_mul]
      ring

/-- The field of width `w` in front of a list. -/
theorem take_fixed_append (w n : ℕ) (l : List Char) : (fixed w n ++ l).take w = fixed w n := by
  rw [List.take_append_of_le_length (by simp), List.take_of_length_le (by simp)]

theorem drop_fixed_append (w n : ℕ) (l : List Char) : (fixed w n ++ l).drop w = l := by
  rw [List.drop_append_of_le_length (by simp), List.drop_of_length_le (by simp), List.nil_append]

end Decimal

namespace Date

/-! ### Reading ISO strings -/

/-- The year in front of an ISO string, and what follows it. -/
def isoYear : List Char → ℤ × List Char
  | '+' :: l => ((Decimal.value (l.take 6) : ℤ), l.drop 6)
  | '-' :: l => (-(Decimal.value (l.take 6) : ℤ), l.drop 6)
  | l => ((Decimal.value (l.take 4) : ℤ), l.drop 4)

/-- Numbers of the given widths, each after one separator. -/
def fields : List ℕ → List Char → List ℤ
  | [], _ => []
  | w :: ws, l => (Decimal.value ((l.drop 1).take w) : ℤ) :: fields ws ((l.drop 1).drop w)

/-- The instant of a year and the fields after it: month, day, hours,
minutes, seconds, milliseconds. -/
def ofFields (year : ℤ) : List ℤ → ℤ
  | [month, day, h, m, s, ms] =>
      Calendar.makeDay year (month - 1) day * msPerDay + (h * 3600000 + m * 60000 + s * 1000 + ms)
  | _ => 0

/-- The instant whose `toISOString` the string is, if there is one. -/
def parseIso (s : String) : Option ℤ :=
  let p := isoYear s.toList
  let t := ofFields p.1 (fields [2, 2, 2, 2, 2, 3] p.2)
  if Valid t ∧ isoString t = s then some t else none

theorem parseIso_valid {s : String} {t : ℤ} (h : parseIso s = some t) : Valid t := by
  unfold parseIso at h
  dsimp only at h
  split at h
  · rename_i hc
    exact Option.some.inj h ▸ hc.1
  · cases h

/-- A valid time is less than a million years away. -/
theorem year_of_valid {t : ℤ} (h : Valid t) :
    -999999 ≤ (Calendar.ofDay (t / msPerDay)).year ∧
      (Calendar.ofDay (t / msPerDay)).year ≤ 999999 := by
  have hday : -100000001 ≤ t / msPerDay ∧ t / msPerDay ≤ 100000000 := by
    have := abs_le.mp h
    unfold maxTime at this
    unfold msPerDay
    omega
  obtain ⟨hz, h₀, h₁⟩ := Calendar.marchYear_spec (t / msPerDay)
  simp only [Calendar.ofDay]
  unfold Calendar.yearStart at hz
  omega

theorem isoYear_yearChars {y : ℤ} (h₀ : -999999 ≤ y) (h₁ : y ≤ 999999) (l : List Char) :
    isoYear (yearChars y ++ l) = (y, l) := by
  unfold yearChars
  split
  · rename_i hy
    have hhead : ∃ c u, Decimal.fixed 4 y.toNat = c :: u ∧ c ≠ '+' ∧ c ≠ '-' := by
      have key : ∀ k < 10, Char.ofNat (48 + k) ≠ '+' ∧ Char.ofNat (48 + k) ≠ '-' := by decide
      exact ⟨_, _, rfl, key _ (Nat.mod_lt _ (by norm_num))⟩
    have hval : ((Decimal.fixed 4 y.toNat ++ l).take 4, (Decimal.fixed 4 y.toNat ++ l).drop 4) =
        (Decimal.fixed 4 y.toNat, l) := by
      rw [Decimal.take_fixed_append, Decimal.drop_fixed_append]
    have hnum : ((Decimal.value (Decimal.fixed 4 y.toNat) : ℕ) : ℤ) = y := by
      rw [Decimal.value_fixed, Nat.mod_eq_of_lt (by omega)]
      omega
    obtain ⟨c, u, hcu, hplus, hminus⟩ := hhead
    rw [hcu] at hval hnum ⊢
    rw [List.cons_append, isoYear]
    · rw [← List.cons_append]
      rw [Prod.mk.injEq] at hval
      rw [hval.1, hval.2, hnum]
    · exact fun l' h => hplus (List.cons.inj h).1
    · exact fun l' h => hminus (List.cons.inj h).1
  · rename_i hy
    have hnum : ((Decimal.value (Decimal.fixed 6 y.natAbs) : ℕ) : ℤ) = y.natAbs := by
      rw [Decimal.value_fixed, Nat.mod_eq_of_lt (by omega)]
    split
    · rename_i hneg
      rw [List.cons_append, isoYear, Decimal.take_fixed_append, Decimal.drop_fixed_append, hnum]
      rw [Prod.mk.injEq]
      exact ⟨by omega, rfl⟩
    · rename_i hneg
      rw [List.cons_append, isoYear, Decimal.take_fixed_append, Decimal.drop_fixed_append, hnum]
      rw [Prod.mk.injEq]
      exact ⟨by omega, rfl⟩

theorem fields_cons {w : ℕ} {x : ℤ} (h₀ : 0 ≤ x) (h₁ : x < 10 ^ w) (ws : List ℕ) (ch : Char)
    (l : List Char) :
    fields (w :: ws) (ch :: (Decimal.fixed w x.toNat ++ l)) = x :: fields ws l := by
  have hlt : x.toNat < 10 ^ w := by
    zify
    rwa [Int.toNat_of_nonneg h₀]
  rw [fields, List.drop_one, List.tail_cons, Decimal.take_fixed_append, Decimal.drop_fixed_append,
    Decimal.value_fixed, Nat.mod_eq_of_lt hlt, Int.toNat_of_nonneg h₀]

/-- The fields written by `monthDayChars` and `timeChars`. -/
theorem fields_chars {c : Calendar.Civil} {ms : ℤ} (hc : 0 ≤ c.month ∧ c.month ≤ 11)
    (hd : 1 ≤ c.day ∧ c.day ≤ 31) (h₀ : 0 ≤ ms) (h₁ : ms < msPerDay) :
    fields [2, 2, 2, 2, 2, 3] (monthDayChars c (timeChars ms)) =
      [c.month + 1, c.day, ms / 3600000, ms / 60000 % 60, ms / 1000 % 60, ms % 1000] := by
  unfold msPerDay at h₁
  rw [monthDayChars, timeChars, fields_cons (by omega) (by omega), fields_cons (by omega) (by omega),
    fields_cons (by omega) (by omega), fields_cons (by omega) (by omega),
    fields_cons (by omega) (by omega), fields_cons (by omega) (by omega)]
  rfl

/-- **`parseIso` inverts `toISOString`.** -/
theorem parseIso_isoString {t : ℤ} (h : Valid t) : parseIso (isoString t) = some t := by
  obtain ⟨m₀, m₁, d₀, d₁⟩ := Calendar.ofDay_range (t / msPerDay)
  obtain ⟨y₀, y₁⟩ := year_of_valid h
  have hms : 0 ≤ t % msPerDay ∧ t % msPerDay < msPerDay := by unfold msPerDay; omega
  have hback : ofFields (isoYear (isoString t).toList).1
      (fields [2, 2, 2, 2, 2, 3] (isoYear (isoString t).toList).2) = t := by
    rw [isoString, String.toList_ofList, isoChars, isoYear_yearChars y₀ y₁,
      fields_chars ⟨m₀, m₁⟩ ⟨d₀, d₁⟩ hms.1 hms.2]
    simp only [ofFields, add_sub_cancel_right, Calendar.makeDay_ofDay]
    unfold msPerDay at hms ⊢
    omega
  rw [parseIso, hback, if_pos ⟨h, rfl⟩]

end Date

/-! ### Hosts -/

/-- The parts of the runtime that differ from host to host. -/
structure Host where
  zone : Zone
  parseDate : String → Option ℤ
  toLowerCase : String → String
  parse_iso : ∀ t, Date.Valid t → parseDate (Date.isoString t) = some t
  parse_valid : ∀ s t, parseDate s = some t → Date.Valid t

/-- The host of a zone that reads ISO strings only. -/
def Host.iso (zone : Zone) : Host where
  zone := zone
  parseDate := Date.parseIso
  toLowerCase := String.toLower
  parse_iso := fun _ h => Date.parseIso_isoString h
  parse_valid := fun _ _ h => Date.parseIso_valid h
