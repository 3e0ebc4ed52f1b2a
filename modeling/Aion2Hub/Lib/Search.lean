/-
Aion2Hub/Lib/Search.lean

The parts of a query that can fail in the middle: LIKE with ESCAPE, LIMIT and
OFFSET.

LIKE looks at its escape expression for each row that it is asked about, so a
bad one is only noticed when there is a row.  LIMIT and OFFSET are converted to
64-bit integers before the first row.
-/
import Aion2Hub.Lib.Query
import Aion2Hub.Lib.Js
import Mathlib.Data.List.Infix

namespace Sql

/-! ### LIKE -/

/-- LIKE does not tell A from a, but ä from Ä. -/
def foldCase (c : Char) : Char := if 'A' ≤ c ∧ c ≤ 'Z' then Char.ofNat (c.toNat + 32) else c

inductive LikeToken where
  | anyText
  | anyChar
  | char (c : Char)
  deriving DecidableEq

/-- The tokens of a pattern; a pattern that ends with the escape character
matches nothing. -/
def likeTokens (escape : Char) : List Char → Option (List LikeToken)
  | [] => some []
  | [c] =>
      if c = escape then none
      else some [if c = '%' then .anyText else if c = '_' then .anyChar else .char c]
  | c :: d :: pattern =>
      if c = escape then (likeTokens escape pattern).map (.char d :: ·)
      else
        (likeTokens escape (d :: pattern)).map
          ((if c = '%' then .anyText else if c = '_' then .anyChar else .char c) :: ·)

def matchTokens : List LikeToken → List Char → Bool
  | [], s => s.isEmpty
  | .anyText :: tokens, s => s.tails.any (matchTokens tokens)
  | .anyChar :: _, [] => false
  | .anyChar :: tokens, _ :: s => matchTokens tokens s
  | .char _ :: _, [] => false
  | .char c :: tokens, d :: s => foldCase c == foldCase d && matchTokens tokens s

/-- `value LIKE pattern ESCAPE escape`. -/
def like (value pattern escape : String) : Except String Bool :=
  match escape.toList with
  | [c] => .ok ((likeTokens c pattern.toList).any fun tokens => matchTokens tokens value.toList)
  | _ => .error "ESCAPE expression must be a single character"

/-- An escape expression that is not one character: LIKE fails. -/
theorem like_error {escape : String} (h : escape.toList.length ≠ 1) (value pattern : String) :
    like value pattern escape = .error "ESCAPE expression must be a single character" := by
  unfold like
  split
  · rename_i c hc
    exact absurd (congrArg List.length hc) h
  · rfl

/-- The text occurs in the other, whatever the case of A to Z. -/
def ContainsText (text value : String) : Prop :=
  text.toList.map foldCase <:+: value.toList.map foldCase

instance (text value : String) : Decidable (ContainsText text value) :=
  inferInstanceAs (Decidable (_ <:+: _))

/-! ### LIMIT and OFFSET -/

/-- The integer that a number stands for in LIMIT or OFFSET. -/
def mustBeInt (x : Number) : Except String ℤ :=
  match x with
  | .fin q =>
      if q = ⌊q⌋ ∧ -(2 : ℚ) ^ 63 < q ∧ q < 2 ^ 63 then .ok ⌊q⌋ else .error "datatype mismatch"
  | _ => .error "datatype mismatch"

/-- LIMIT `limit` OFFSET `offset`, for numbers that are not negative. -/
def slice {ρ : Type} (limit offset : ℤ) (rows : List ρ) : List ρ :=
  (rows.drop offset.toNat).take limit.toNat

theorem mustBeInt_ofInt {n : ℤ} (h₀ : -2 ^ 63 < n) (h₁ : n < 2 ^ 63) :
    mustBeInt (.ofInt n) = .ok n := by
  have hlo : -(2 : ℚ) ^ 63 < n := by exact_mod_cast h₀
  have hhi : (n : ℚ) < 2 ^ 63 := by exact_mod_cast h₁
  show (if (n : ℚ) = ⌊(n : ℚ)⌋ ∧ _ ∧ _ then Except.ok ⌊(n : ℚ)⌋ else _) = _
  rw [Int.floor_intCast, if_pos ⟨rfl, hlo, hhi⟩]

/-! ### Conditions that can fail -/

variable {T : Type} {Row : T → Type}

/-- The rows on which the condition holds. -/
def filterRows {ρ : Type} (p : ρ → Except String Bool) : List ρ → Except String (List ρ)
  | [] => .ok []
  | r :: rows =>
      match p r, filterRows p rows with
      | .ok b, .ok kept => .ok (if b then r :: kept else kept)
      | .ok _, .error e => .error e
      | .error e, _ => .error e

/-- SELECT * FROM `t` WHERE `p` ORDER BY `before` LIMIT `limit` OFFSET
`offset`, for a condition that can fail on a row. -/
def Schema.selectWhere (S : Schema T Row) (t : T) (p : Row t → Except String Bool)
    (before : Row t → Row t → Bool) (limit offset : ℤ) : Exec (Conn Row) (List (Row t)) := fun c =>
  ((filterRows p (c.db t)).map fun rows =>
    (slice limit offset (orderBy before rows)).map (S.read t), c)

/-- SELECT COUNT(1) FROM `t` WHERE `p`. -/
def Schema.countWhere (_ : Schema T Row) (t : T) (p : Row t → Except String Bool) :
    Exec (Conn Row) ℕ := fun c =>
  ((filterRows p (c.db t)).map List.length, c)

variable {ρ : Type} {p : ρ → Except String Bool} {rows : List ρ}

/-- Where the condition does not fail, it is a condition. -/
theorem filterRows_ok {q : ρ → Bool} (h : ∀ r ∈ rows, p r = .ok (q r)) :
    filterRows p rows = .ok (rows.filter q) := by
  induction rows with
  | nil => rfl
  | cons r rows ih =>
      rw [filterRows, h r List.mem_cons_self, ih fun r' hr' => h r' (List.mem_cons_of_mem r hr'),
        List.filter_cons]

/-- A row on which the condition fails is enough. -/
theorem filterRows_error {r : ρ} (hr : r ∈ rows) {e : String} (he : p r = .error e) :
    ∃ e, filterRows p rows = .error e := by
  induction rows with
  | nil => cases hr
  | cons r' rows ih =>
      rw [filterRows]
      rcases List.mem_cons.mp hr with rfl | hrest
      · rw [he]
        exact ⟨e, rfl⟩
      · obtain ⟨e', hrest'⟩ := ih hrest
        rw [hrest']
        cases p r' with
        | error e'' => exact ⟨e'', rfl⟩
        | ok b => exact ⟨e', rfl⟩

end Sql
