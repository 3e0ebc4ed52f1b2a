/-
Aion2Hub/Lib/Percent.lean

Texts in addresses: UTF-8, percent escapes, and the fields of a query.

`component` is `encodeURIComponent`, and `parseFields` is the parser behind
`URLSearchParams`: it splits at `&` and `=`, reads `+` as a blank, resolves the
escapes and decodes the bytes, with a replacement character where they are not
UTF-8.  A byte is a natural number.

Main results: decoding undoes encoding (`decode_encode`), and a field whose
value was written by `component` is read back, whatever the value is
(`parseFields_component`).
-/
import Mathlib.Data.List.SplitOn
import Mathlib.Tactic.Common
import Mathlib.Tactic.IntervalCases

namespace Percent

/-! ### UTF-8 -/

def encodeChar (c : Char) : List ℕ :=
  let n := c.toNat
  if n < 0x80 then [n]
  else if n < 0x800 then [0xC0 + n / 0x40, 0x80 + n % 0x40]
  else if n < 0x10000 then [0xE0 + n / 0x1000, 0x80 + n / 0x40 % 0x40, 0x80 + n % 0x40]
  else [0xF0 + n / 0x40000, 0x80 + n / 0x1000 % 0x40, 0x80 + n / 0x40 % 0x40, 0x80 + n % 0x40]

def encode (l : List Char) : List ℕ := l.flatMap encodeChar

/-- A character of which bytes are missing: its code point so far, how many
bytes are missing, and the bounds of the next one. -/
structure Partial where
  codePoint : ℕ
  needed : ℕ
  lower : ℕ
  upper : ℕ

/-- What a byte between characters is. -/
inductive Lead where
  | char (c : Char)
  | more (p : Partial)
  | error

def lead (b : ℕ) : Lead :=
  if b < 0x80 then .char (Char.ofNat b)
  else if 0xC2 ≤ b ∧ b < 0xE0 then .more ⟨b - 0xC0, 1, 0x80, 0xBF⟩
  else if 0xE0 ≤ b ∧ b < 0xF0 then
    .more ⟨b - 0xE0, 2, if b = 0xE0 then 0xA0 else 0x80, if b = 0xED then 0x9F else 0xBF⟩
  else if 0xF0 ≤ b ∧ b < 0xF5 then
    .more ⟨b - 0xF0, 3, if b = 0xF0 then 0x90 else 0x80, if b = 0xF4 then 0x8F else 0xBF⟩
  else .error

def replacement : Char := Char.ofNat 0xFFFD

/-- The decoder.  A byte that does not continue a character is read again,
after the replacement of what was missing its end. -/
def decodeFrom : Option Partial → List ℕ → List Char
  | none, [] => []
  | some _, [] => [replacement]
  | none, b :: bs =>
      match lead b with
      | .char c => c :: decodeFrom none bs
      | .more p => decodeFrom (some p) bs
      | .error => replacement :: decodeFrom none bs
  | some p, b :: bs =>
      if p.lower ≤ b ∧ b ≤ p.upper then
        let codePoint := p.codePoint * 0x40 + (b - 0x80)
        if p.needed = 1 then Char.ofNat codePoint :: decodeFrom none bs
        else decodeFrom (some ⟨codePoint, p.needed - 1, 0x80, 0xBF⟩) bs
      else
        replacement :: match lead b with
          | .char c => c :: decodeFrom none bs
          | .more p => decodeFrom (some p) bs
          | .error => replacement :: decodeFrom none bs

def decode (bs : List ℕ) : List Char := decodeFrom none bs

theorem decodeFrom_char {b : ℕ} {c : Char} (h : lead b = .char c) (bs : List ℕ) :
    decodeFrom none (b :: bs) = c :: decodeFrom none bs := by
  rw [decodeFrom, h]

theorem decodeFrom_more {b : ℕ} {p : Partial} (h : lead b = .more p) (bs : List ℕ) :
    decodeFrom none (b :: bs) = decodeFrom (some p) bs := by
  rw [decodeFrom, h]

/-- A byte within the bounds, with more to come. -/
theorem decodeFrom_within {b n k lo hi : ℕ} (hlo : lo ≤ b) (hhi : b ≤ hi) (bs : List ℕ) :
    decodeFrom (some ⟨n, k + 2, lo, hi⟩) (b :: bs) =
      decodeFrom (some ⟨n * 0x40 + (b - 0x80), k + 1, 0x80, 0xBF⟩) bs := by
  rw [decodeFrom, if_pos ⟨hlo, hhi⟩]
  rfl

/-- The last byte of a character. -/
theorem decodeFrom_last {b n lo hi : ℕ} (hlo : lo ≤ b) (hhi : b ≤ hi) (bs : List ℕ) :
    decodeFrom (some ⟨n, 1, lo, hi⟩) (b :: bs) =
      Char.ofNat (n * 0x40 + (b - 0x80)) :: decodeFrom none bs := by
  rw [decodeFrom, if_pos ⟨hlo, hhi⟩]
  rfl

/-- A code point is not a surrogate. -/
theorem toNat_range (c : Char) : c.toNat < 0xD800 ∨ 0xDFFF < c.toNat ∧ c.toNat < 0x110000 :=
  c.valid

theorem decodeFrom_encodeChar (c : Char) (bs : List ℕ) :
    decodeFrom none (encodeChar c ++ bs) = c :: decodeFrom none bs := by
  have hrange := toNat_range c
  unfold encodeChar
  dsimp only
  split
  · rename_i hn
    have hlead : lead c.toNat = .char c := by
      rw [lead, if_pos hn, Char.ofNat_toNat]
    exact decodeFrom_char hlead bs
  · split
    · -- two bytes
      have hlead : lead (0xC0 + c.toNat / 0x40) = .more ⟨c.toNat / 0x40, 1, 0x80, 0xBF⟩ := by
        rw [lead, if_neg (by omega), if_pos (by omega), Nat.add_sub_cancel_left]
      show decodeFrom none ((0xC0 + c.toNat / 0x40) :: (0x80 + c.toNat % 0x40) :: bs) = _
      rw [decodeFrom_more hlead, decodeFrom_last (by omega) (by omega)]
      have hpoint : c.toNat / 0x40 * 0x40 + (0x80 + c.toNat % 0x40 - 0x80) = c.toNat := by omega
      rw [hpoint, Char.ofNat_toNat]
    · split
      · -- three bytes; the bounds of the second keep out short forms and surrogates
        have hlead : lead (0xE0 + c.toNat / 0x1000) = .more ⟨c.toNat / 0x1000, 2,
            if 0xE0 + c.toNat / 0x1000 = 0xE0 then 0xA0 else 0x80,
            if 0xE0 + c.toNat / 0x1000 = 0xED then 0x9F else 0xBF⟩ := by
          rw [lead, if_neg (by omega), if_neg (by omega), if_pos (by omega),
            Nat.add_sub_cancel_left]
        show decodeFrom none ((0xE0 + c.toNat / 0x1000) :: (0x80 + c.toNat / 0x40 % 0x40) ::
          (0x80 + c.toNat % 0x40) :: bs) = _
        rw [decodeFrom_more hlead, decodeFrom_within (k := 0), decodeFrom_last]
        · have hpoint : (c.toNat / 0x1000 * 0x40 + (0x80 + c.toNat / 0x40 % 0x40 - 0x80)) * 0x40 +
              (0x80 + c.toNat % 0x40 - 0x80) = c.toNat := by omega
          rw [hpoint, Char.ofNat_toNat]
        · omega
        · omega
        · split <;> omega
        · split <;> omega
      · -- four bytes; those of the second keep out short forms and what is too large
        have hlead : lead (0xF0 + c.toNat / 0x40000) = .more ⟨c.toNat / 0x40000, 3,
            if 0xF0 + c.toNat / 0x40000 = 0xF0 then 0x90 else 0x80,
            if 0xF0 + c.toNat / 0x40000 = 0xF4 then 0x8F else 0xBF⟩ := by
          rw [lead, if_neg (by omega), if_neg (by omega), if_neg (by omega), if_pos (by omega),
            Nat.add_sub_cancel_left]
        show decodeFrom none ((0xF0 + c.toNat / 0x40000) :: (0x80 + c.toNat / 0x1000 % 0x40) ::
          (0x80 + c.toNat / 0x40 % 0x40) :: (0x80 + c.toNat % 0x40) :: bs) = _
        rw [decodeFrom_more hlead, decodeFrom_within (k := 1), decodeFrom_within (k := 0),
          decodeFrom_last]
        · have hpoint : ((c.toNat / 0x40000 * 0x40 + (0x80 + c.toNat / 0x1000 % 0x40 - 0x80)) * 0x40 +
              (0x80 + c.toNat / 0x40 % 0x40 - 0x80)) * 0x40 + (0x80 + c.toNat % 0x40 - 0x80) =
              c.toNat := by omega
          rw [hpoint, Char.ofNat_toNat]
        · omega
        · omega
        · omega
        · omega
        · split <;> omega
        · split <;> omega

/-- Decoding undoes encoding. -/
theorem decode_encode (l : List Char) : decode (encode l) = l := by
  induction l with
  | nil => rfl
  | cons c l ih =>
      show decodeFrom none (encodeChar c ++ encode l) = c :: l
      rw [decodeFrom_encodeChar]
      exact congrArg (c :: ·) ih

/-! ### Escapes -/

/-- A hexadecimal digit in upper case. -/
def hexDigit (n : ℕ) : Char := Char.ofNat (if n < 10 then 48 + n else 55 + n)

/-- The value of the byte of a hexadecimal digit. -/
def hexValue (b : ℕ) : Option ℕ :=
  if 48 ≤ b ∧ b < 58 then some (b - 48)
  else if 65 ≤ b ∧ b < 71 then some (b - 55)
  else if 97 ≤ b ∧ b < 103 then some (b - 87)
  else none

def escapeByte (b : ℕ) : List Char := ['%', hexDigit (b / 16), hexDigit (b % 16)]

def escapeChar (c : Char) : List Char := (encodeChar c).flatMap escapeByte

/-- The code points of the marks that `encodeURIComponent` leaves alone: the
apostrophe, `-`, `_`, `.`, `!`, `~`, `*` and both parentheses. -/
def marks : List ℕ := [39, 45, 95, 46, 33, 126, 42, 40, 41]

def unescaped (c : Char) : Bool := c.isAlphanum || marks.contains c.toNat

/-- `encodeURIComponent`. -/
def component (s : String) : String :=
  String.ofList (s.toList.flatMap fun c => if unescaped c then [c] else escapeChar c)

/-- An escape is a byte, anything else is itself. -/
def unescape : List ℕ → List ℕ
  | [] => []
  | [b] => [b]
  | [b, b'] => [b, b']
  | b :: b₁ :: b₂ :: bs =>
      if b = 37 then
        match hexValue b₁, hexValue b₂ with
        | some x, some y => (16 * x + y) :: unescape bs
        | _, _ => b :: unescape (b₁ :: b₂ :: bs)
      else b :: unescape (b₁ :: b₂ :: bs)

/-! ### Fields -/

/-- The text before the first `=` and the text after it. -/
def splitField (bs : List ℕ) : List ℕ × List ℕ :=
  (bs.takeWhile (· ≠ 61), (bs.dropWhile (· ≠ 61)).drop 1)

/-- `+` is a blank. -/
def readText (bs : List ℕ) : String :=
  String.ofList (decode (unescape (bs.map fun b => if b = 43 then 32 else b)))

/-- The fields of a query. -/
def parseFields (query : String) : List (String × String) :=
  ((encode query.toList).splitOn 38).filterMap fun bs =>
    if bs = [] then none
    else
      let field := splitField bs
      some (readText field.1, readText field.2)

/-! ### Reading an escaped text -/

theorem unescape_cons {b : ℕ} (h : b ≠ 37) (bs : List ℕ) : unescape (b :: bs) = b :: unescape bs := by
  match bs with
  | [] => rfl
  | [b'] => rfl
  | b₁ :: b₂ :: bs => rw [unescape, if_neg h]

theorem hexValue_hexDigit {n : ℕ} (h : n < 16) : hexValue (hexDigit n).toNat = some n := by
  interval_cases n <;> rfl

/-- An escape is resolved. -/
theorem unescape_escapeByte {b : ℕ} (h : b < 256) (bs : List ℕ) :
    unescape ((escapeByte b).map Char.toNat ++ bs) = b :: unescape bs := by
  show unescape (37 :: (hexDigit (b / 16)).toNat :: (hexDigit (b % 16)).toNat :: bs) = _
  rw [unescape, if_pos rfl, hexValue_hexDigit (by omega), hexValue_hexDigit (by omega)]
  show (16 * (b / 16) + b % 16) :: unescape bs = _
  rw [Nat.div_add_mod]

theorem unescape_flatMap {l : List ℕ} (h : ∀ b ∈ l, b < 256) (bs : List ℕ) :
    unescape ((l.flatMap escapeByte).map Char.toNat ++ bs) = l ++ unescape bs := by
  induction l with
  | nil => rfl
  | cons b l ih =>
      obtain ⟨hb, hl⟩ := List.forall_mem_cons.mp h
      rw [List.flatMap_cons, List.map_append, List.append_assoc, unescape_escapeByte hb, ih hl]
      rfl

theorem encodeChar_lt (c : Char) : ∀ b ∈ encodeChar c, b < 256 := by
  have hrange := toNat_range c
  intro b hb
  unfold encodeChar at hb
  dsimp only at hb
  split at hb
  · simp only [List.mem_singleton] at hb
    omega
  · split at hb
    · simp only [List.mem_cons, List.not_mem_nil, or_false] at hb
      omega
    · split at hb <;>
      · simp only [List.mem_cons, List.not_mem_nil, or_false] at hb
        omega

/-! ### Escaped texts are plain -/

/-- What `component` writes: characters that stay as they are in an address. -/
def Plain (c : Char) : Prop := unescaped c = true ∨ c = '%'

/-- The code points of plain characters. -/
theorem Plain.toNat {c : Char} (h : Plain c) : c.toNat = 33 ∨ c.toNat = 37 ∨
    39 ≤ c.toNat ∧ c.toNat ≤ 42 ∨ c.toNat = 45 ∨ c.toNat = 46 ∨ 48 ≤ c.toNat ∧ c.toNat ≤ 57 ∨
    65 ≤ c.toNat ∧ c.toNat ≤ 90 ∨ c.toNat = 95 ∨ 97 ≤ c.toNat ∧ c.toNat ≤ 122 ∨
    c.toNat = 126 := by
  rcases h with h | rfl
  · rcases Bool.or_eq_true _ _ ▸ h with hletter | hmark
    · change ((decide (c.val ≥ 'A'.val ∧ c.val ≤ 'Z'.val) ||
        (decide (c.val ≥ 'a'.val) && decide (c.val ≤ 'z'.val))) ||
        (decide (c.val ≥ '0'.val) && decide (c.val ≤ '9'.val))) = true at hletter
      simp only [Bool.or_eq_true, Bool.and_eq_true, decide_eq_true_eq, ge_iff_le,
        UInt32.le_iff_toNat_le] at hletter
      have hval : c.val.toNat = c.toNat := rfl
      simp only [hval] at hletter
      have hconst : 'A'.val.toNat = 65 ∧ 'Z'.val.toNat = 90 ∧ 'a'.val.toNat = 97 ∧
          'z'.val.toNat = 122 ∧ '0'.val.toNat = 48 ∧ '9'.val.toNat = 57 := by decide
      omega
    · simp only [marks, List.contains_eq_mem, decide_eq_true_eq, List.mem_cons, List.not_mem_nil,
        or_false] at hmark
      omega
  · right
    left
    rfl

theorem unescaped_hexDigit {n : ℕ} (h : n < 16) : unescaped (hexDigit n) = true := by
  interval_cases n <;> rfl

/-- Only plain characters are written. -/
theorem plain_of_mem_component {s : String} {c : Char} (h : c ∈ (component s).toList) :
    Plain c := by
  rw [component, String.toList_ofList] at h
  obtain ⟨d, -, hc⟩ := List.mem_flatMap.mp h
  split at hc
  · rename_i hd
    obtain rfl := List.mem_singleton.mp hc
    exact .inl hd
  · obtain ⟨b, hb, hc⟩ := List.mem_flatMap.mp hc
    have hbyte : b < 256 := encodeChar_lt d b hb
    simp only [escapeByte, List.mem_cons, List.not_mem_nil, or_false] at hc
    rcases hc with rfl | rfl | rfl
    · exact .inr rfl
    · exact .inl (unescaped_hexDigit (by omega))
    · exact .inl (unescaped_hexDigit (by omega))

/-- ASCII characters are their own bytes. -/
theorem encode_of_plain {l : List Char} (h : ∀ c ∈ l, c.toNat < 0x80) :
    encode l = l.map Char.toNat := by
  induction l with
  | nil => rfl
  | cons c l ih =>
      obtain ⟨hc, hl⟩ := List.forall_mem_cons.mp h
      show encodeChar c ++ encode l = _
      rw [encodeChar, ih hl, if_pos hc]
      rfl

/-! ### Reading back -/

/-- Resolving the escapes of an escaped text gives its bytes. -/
theorem unescape_component (s : String) :
    unescape ((component s).toList.map Char.toNat) = encode s.toList := by
  rw [component, String.toList_ofList]
  induction s.toList with
  | nil => rfl
  | cons c l ih =>
      rw [List.flatMap_cons, List.map_append]
      show _ = encodeChar c ++ encode l
      split
      · rename_i hc
        have hplain := (Plain.toNat (.inl hc) : _)
        have hne : c.toNat ≠ 37 := by
          intro h37
          have hpercent : c = '%' := by
            rw [← Char.ofNat_toNat c, h37]
          rw [hpercent] at hc
          exact absurd hc (by decide)
        rw [encodeChar, if_pos (by omega)]
        show unescape (c.toNat :: _) = c.toNat :: _
        rw [unescape_cons hne]
        exact congrArg (c.toNat :: ·) ih
      · rw [escapeChar, unescape_flatMap (encodeChar_lt c), ih]

theorem readText_component (s : String) : readText ((component s).toList.map Char.toNat) = s := by
  have hplus : ∀ b ∈ (component s).toList.map Char.toNat, b ≠ 43 := by
    intro b hb
    obtain ⟨c, hc, rfl⟩ := List.mem_map.mp hb
    have hplain := (plain_of_mem_component hc).toNat
    omega
  have hmap : ((component s).toList.map Char.toNat).map (fun b => if b = 43 then 32 else b) =
      (component s).toList.map Char.toNat := by
    nth_rewrite 2 [← List.map_id ((component s).toList.map Char.toNat)]
    apply List.map_congr_left
    intro b hb
    exact if_neg (hplus b hb)
  rw [readText, hmap, unescape_component, decode_encode, String.ofList_toList]

/-- A field whose value was escaped is read back. -/
theorem parseFields_component {name : String} (hname : component name = name) (s : String) :
    parseFields (name ++ "=" ++ component s) = [(name, s)] := by
  -- encoded text has neither of the bytes that separate fields and names
  have hplain : ∀ {t : String}, ∀ b ∈ (component t).toList.map Char.toNat,
      b < 0x80 ∧ b ≠ 38 ∧ b ≠ 61 := by
    intro t b hb
    obtain ⟨c, hc, rfl⟩ := List.mem_map.mp hb
    have hc := (plain_of_mem_component hc).toNat
    omega
  have htext : (name ++ "=" ++ component s).toList =
      (component name).toList ++ '=' :: (component s).toList := by
    rw [String.toList_append, String.toList_append, hname]
    simp
  have hbytes : encode (name ++ "=" ++ component s).toList =
      (component name).toList.map Char.toNat ++ 61 :: (component s).toList.map Char.toNat := by
    rw [encode_of_plain, htext, List.map_append]
    · rfl
    · intro c hc
      rw [htext] at hc
      rcases List.mem_append.mp hc with hc | hc
      · exact (hplain _ (List.mem_map_of_mem hc)).1
      · rcases List.mem_cons.mp hc with rfl | hc
        · decide
        · exact (hplain _ (List.mem_map_of_mem hc)).1
  have hsplit : 38 ∉ (component name).toList.map Char.toNat ++
      61 :: (component s).toList.map Char.toNat := by
    intro h
    rcases List.mem_append.mp h with h | h
    · exact (hplain _ h).2.1 rfl
    · rcases List.mem_cons.mp h with h | h
      · exact absurd h (by decide)
      · exact (hplain _ h).2.1 rfl
  have hstop : ∀ b ∈ (component name).toList.map Char.toNat, (decide (b ≠ 61)) = true :=
    fun b hb => decide_eq_true (hplain b hb).2.2
  have hfield : splitField ((component name).toList.map Char.toNat ++
      61 :: (component s).toList.map Char.toNat) =
      ((component name).toList.map Char.toNat, (component s).toList.map Char.toNat) := by
    rw [splitField, List.takeWhile_append_of_pos hstop, List.dropWhile_append_of_pos hstop]
    simp
  rw [parseFields, hbytes, List.splitOn_eq_singleton hsplit, List.filterMap_cons, if_neg (by simp)]
  dsimp only
  rw [hfield, readText_component, readText_component]
  rfl

end Percent
