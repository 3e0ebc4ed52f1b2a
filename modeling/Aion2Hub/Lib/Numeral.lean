/-
Aion2Hub/Lib/Numeral.lean

`Number(text)`: the numerals of JavaScript.

A numeral is read as an exact rational first and rounded once.  White space
around it does not matter, the empty text is zero, and what is no numeral is
`NaN`.  The decimal digits of a natural number are read back (`toNumber_repr`).
-/
import Mathlib.Data.List.TakeWhile
import Aion2Hub.Lib.Text

namespace Text

/-- `10 ^ exponent`, with a sign. -/
def decimalExponent : List Char → Option ℤ
  | [] => some 0
  | e :: rest =>
      if e = 'e' ∨ e = 'E' then
        let negative := rest.head? = some '-'
        let digits := if negative ∨ rest.head? = some '+' then rest.tail else rest
        if digits ≠ [] ∧ digits.all Char.isDigit then
          some (if negative then -(Nat.ofDigitChars 10 digits 0 : ℤ) else Nat.ofDigitChars 10 digits 0)
        else none
      else none

/-- `StrUnsignedDecimalLiteral`. -/
def unsignedDecimal (l : List Char) : Number :=
  let whole := l.takeWhile Char.isDigit
  let rest := l.dropWhile Char.isDigit
  let point := rest.head? = some '.'
  let fraction := if point then rest.tail.takeWhile Char.isDigit else []
  let rest := if point then rest.tail.dropWhile Char.isDigit else rest
  if l = "Infinity".toList then .posInf
  else if whole = [] ∧ fraction = [] then .nan
  else match decimalExponent rest with
    | none => .nan
    | some e =>
        Number.toDouble (Nat.ofDigitChars 10 (whole ++ fraction) 0 * (10 : ℚ) ^ (e - fraction.length))

/-- The value of a digit in a base up to 36. -/
def digitValue (c : Char) : ℕ :=
  if c.isDigit then c.toNat - 48
  else if c.isUpper then c.toNat - 55
  else if c.isLower then c.toNat - 87
  else 36

/-- `NonDecimalIntegerLiteral`, after its prefix. -/
def inBase (base : ℕ) (l : List Char) : Number :=
  if l ≠ [] ∧ l.all (fun c => digitValue c < base) then
    Number.toDouble (l.foldl (fun n c => base * n + digitValue c) 0 : ℕ)
  else .nan

/-- `StringToNumber`, on the characters without white space around them. -/
def numeral (l : List Char) : Number :=
  let sign := l.take 1
  let marker := l.take 2
  if l = [] then 0
  else if marker = ['0', 'x'] ∨ marker = ['0', 'X'] then inBase 16 (l.drop 2)
  else if marker = ['0', 'o'] ∨ marker = ['0', 'O'] then inBase 8 (l.drop 2)
  else if marker = ['0', 'b'] ∨ marker = ['0', 'B'] then inBase 2 (l.drop 2)
  else if sign = ['-'] then (unsignedDecimal (l.drop 1)).neg
  else if sign = ['+'] then unsignedDecimal (l.drop 1)
  else unsignedDecimal l

/-- `Number(text)`. -/
def toNumber (s : String) : Number := numeral (trimList s.toList)

/-! ### Decimal digits -/

theorem isSpace_of_isDigit {c : Char} (h : c.isDigit = true) : isSpace c = false := by
  rw [Char.isDigit, Bool.and_eq_true, decide_eq_true_iff, decide_eq_true_iff] at h
  obtain ⟨hlow, hhigh⟩ := h
  have hlow' : 48 ≤ c.toNat := UInt32.le_iff_toNat_le.mp hlow
  have hhigh' : c.toNat ≤ 57 := UInt32.le_iff_toNat_le.mp hhigh
  rw [isSpace, decide_eq_false_iff_not]
  simp only [List.mem_cons, List.not_mem_nil, or_false]
  omega

theorem isDigit_of_mem_repr {n : ℕ} {c : Char} (h : c ∈ (Nat.repr n).toList) : c.isDigit = true := by
  rw [Nat.toList_repr] at h
  exact Nat.isDigit_of_mem_toDigits (by decide) (by decide) h

theorem plain_repr (n : ℕ) : Text.Plain (Nat.repr n) := fun h =>
  absurd (isDigit_of_mem_repr h) (by decide)

theorem toList_repr_ne_nil (n : ℕ) : (Nat.repr n).toList ≠ [] := by
  rw [Nat.toList_repr]
  exact Nat.toDigits_ne_nil

/-- Only digits: the number they denote, rounded. -/
theorem unsignedDecimal_digits {l : List Char} (hne : l ≠ []) (h : ∀ c ∈ l, c.isDigit = true) :
    unsignedDecimal l = Number.toDouble (Nat.ofDigitChars 10 l 0 : ℕ) := by
  have htake : l.takeWhile Char.isDigit = l := List.takeWhile_eq_self_iff.mpr h
  have hdrop : l.dropWhile Char.isDigit = [] := List.dropWhile_eq_nil_iff.mpr h
  have hinf : l ≠ "Infinity".toList := by
    rintro rfl
    exact absurd (h 'I' (by decide)) (by decide)
  have hwhole : ¬ (l = [] ∧ True) := fun hnil => hne hnil.1
  have hvalue : (Nat.ofDigitChars 10 (l ++ []) 0 : ℚ) * (10 : ℚ) ^ ((0 : ℤ) - ([] : List Char).length) =
      (Nat.ofDigitChars 10 l 0 : ℕ) := by
    rw [List.append_nil, List.length_nil, Nat.cast_zero, sub_zero, zpow_zero, mul_one]
  rw [← hvalue, unsignedDecimal]
  simp only [htake, hdrop, List.head?_nil, reduceCtorEq, if_false]
  rw [if_neg hinf, if_neg hwhole, decimalExponent]

/-- A numeral of digits is decimal. -/
theorem numeral_digits {l : List Char} (hne : l ≠ []) (h : ∀ c ∈ l, c.isDigit = true) :
    numeral l = Number.toDouble (Nat.ofDigitChars 10 l 0 : ℕ) := by
  have hmarker : ∀ c, c.isDigit = false → l.take 2 ≠ ['0', c] := by
    intro c hc heq
    have hmem : c ∈ l := List.mem_of_mem_take (heq ▸ by simp : c ∈ l.take 2)
    exact absurd (h c hmem) (by simp [hc])
  have hsign : ∀ c, c.isDigit = false → l.take 1 ≠ [c] := by
    intro c hc heq
    have hmem : c ∈ l := List.mem_of_mem_take (heq ▸ by simp : c ∈ l.take 1)
    exact absurd (h c hmem) (by simp [hc])
  rw [numeral, if_neg hne, if_neg (not_or.mpr ⟨hmarker 'x' rfl, hmarker 'X' rfl⟩),
    if_neg (not_or.mpr ⟨hmarker 'o' rfl, hmarker 'O' rfl⟩),
    if_neg (not_or.mpr ⟨hmarker 'b' rfl, hmarker 'B' rfl⟩), if_neg (hsign '-' rfl),
    if_neg (hsign '+' rfl), unsignedDecimal_digits hne h]

/-- A natural number that a double holds is read back from its digits. -/
theorem toNumber_repr {n : ℕ} (h : n ≤ 2 ^ 53) : toNumber (Nat.repr n) = Number.ofInt n := by
  have hdigits : ∀ c ∈ (Nat.repr n).toList, c.isDigit = true := fun c hc => isDigit_of_mem_repr hc
  have htrim : trimList (Nat.repr n).toList = (Nat.repr n).toList :=
    trimList_eq_self (fun c hc => isSpace_of_isDigit (hdigits c (List.mem_of_head? hc)))
      fun c hc => isSpace_of_isDigit (hdigits c (List.mem_of_getLast? hc))
  rw [toNumber, htrim, numeral_digits (toList_repr_ne_nil n) hdigits, Nat.toList_repr,
    Nat.ofDigitChars_ten_toDigits]
  exact Number.toDouble_intCast (n := n) (by rw [abs_of_nonneg (Int.natCast_nonneg n)]; exact_mod_cast h)

end Text
