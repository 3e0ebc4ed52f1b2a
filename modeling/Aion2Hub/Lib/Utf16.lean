/-
Aion2Hub/Lib/Utf16.lean

The order of strings in JavaScript.

JavaScript compares strings by their UTF-16 code units, a database by their
bytes, which is the order of the code points.  The two differ where a code
point above U+FFFF meets one between U+E000 and U+FFFF; with an ASCII text on
one side they agree (`unitsLe_iff`).
-/
import Mathlib.Data.String.Basic
import Mathlib.Tactic.Common

namespace Utf16

/-- One code unit, or the two surrogates of a code point above U+FFFF. -/
def ofChar (c : Char) : List ℕ :=
  if c.toNat < 0x10000 then [c.toNat]
  else [0xD800 + (c.toNat - 0x10000) / 0x400, 0xDC00 + (c.toNat - 0x10000) % 0x400]

def ofChars (l : List Char) : List ℕ := l.flatMap ofChar

/-- The order of sequences of code units. -/
def unitsLe : List ℕ → List ℕ → Bool
  | [], _ => true
  | _ :: _, [] => false
  | a :: as, b :: bs => a < b || a == b && unitsLe as bs

/-- `a <= b`. -/
def le (a b : String) : Bool := unitsLe (ofChars a.toList) (ofChars b.toList)

/-- The text consists of ASCII characters. -/
def Ascii (l : List Char) : Prop := ∀ c ∈ l, c.toNat < 128

theorem ofChar_of_ascii {c : Char} (h : c.toNat < 128) : ofChar c = [c.toNat] := by
  unfold ofChar
  rw [if_pos (by omega)]

/-- The first code unit is an ASCII character only if the code point is. -/
theorem ofChar_head (c : Char) : ∃ u us, ofChar c = u :: us ∧ (u < 128 ↔ c.toNat < 128) ∧
    (u < 128 → ofChar c = [c.toNat] ∧ u = c.toNat) := by
  by_cases h : c.toNat < 0x10000
  · have hunits : ofChar c = [c.toNat] := by
      unfold ofChar
      rw [if_pos h]
    exact ⟨c.toNat, [], hunits, Iff.rfl, fun _ => ⟨hunits, rfl⟩⟩
  · have hunits : ofChar c =
        [0xD800 + (c.toNat - 0x10000) / 0x400, 0xDC00 + (c.toNat - 0x10000) % 0x400] := by
      unfold ofChar
      rw [if_neg h]
    refine ⟨_, _, hunits, ?_, ?_⟩
    · constructor <;> intro hlt <;> omega
    · intro hlt
      omega

theorem char_lt_iff {c d : Char} : c < d ↔ c.toNat < d.toNat := Iff.rfl

theorem char_eq_iff {c d : Char} : c = d ↔ c.toNat = d.toNat := by
  constructor
  · rintro rfl
    rfl
  · intro h
    rw [← Char.ofNat_toNat c, ← Char.ofNat_toNat d, h]

theorem unitsLe_ofChars_iff {a b : List Char} (ha : Ascii a) :
    unitsLe (ofChars a) (ofChars b) = true ↔ ¬ b < a := by
  induction a generalizing b with
  | nil =>
      have hnil : ofChars [] = [] := rfl
      rw [hnil]
      simp [unitsLe]
  | cons c a ih =>
      have hc : c.toNat < 128 := ha c List.mem_cons_self
      have hrest := fun b => ih (b := b) fun d hd => ha d (List.mem_cons_of_mem c hd)
      have hcons : ofChars (c :: a) = c.toNat :: ofChars a := by
        show ofChar c ++ ofChars a = _
        rw [ofChar_of_ascii hc]
        rfl
      cases b with
      | nil =>
          rw [hcons]
          have hnil : ofChars [] = [] := rfl
          rw [hnil]
          simp [unitsLe]
      | cons d b =>
          obtain ⟨u, us, hu, hascii, hsame⟩ := ofChar_head d
          have hd : ofChars (d :: b) = u :: (us ++ ofChars b) := by
            show ofChar d ++ ofChars b = _
            rw [hu]
            rfl
          rw [hcons, hd, List.cons_lt_cons_iff, char_lt_iff, char_eq_iff]
          by_cases hlt : u < 128
          · obtain ⟨hone, rfl⟩ := hsame hlt
            rw [hone] at hu
            cases hu
            simp only [unitsLe, List.nil_append, Bool.or_eq_true, decide_eq_true_eq,
              Bool.and_eq_true, beq_iff_eq, hrest]
            by_cases hba : b < a
            · simp only [hba, not_true, and_false, or_false, and_true]
              omega
            · simp only [hba, not_false_eq_true, and_true, and_false, or_false]
              omega
          · -- a code unit beyond ASCII is greater, and so is the code point
            have hbeyond : ¬ d.toNat < 128 := fun h => hlt (hascii.mpr h)
            simp only [unitsLe, Bool.or_eq_true, decide_eq_true_eq, Bool.and_eq_true, beq_iff_eq]
            omega

theorem le_iff {a b : String} (ha : Ascii a.toList) : le a b = true ↔ a ≤ b := by
  have hlt : b < a ↔ b.toList < a.toList := String.lt_iff_toList_lt
  rw [← not_lt, hlt]
  exact unitsLe_ofChars_iff ha

end Utf16
