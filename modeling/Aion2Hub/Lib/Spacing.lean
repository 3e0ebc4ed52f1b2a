/-
Aion2Hub/Lib/Spacing.lean

Rewriting the white space of a text: capping runs of characters, and working
line by line.

`capRuns p r k` leaves of every run of characters with `p` at most `k`, all of
them `r`: with `k = 1` it is `replaceAll(/[p]+/g, r)`, and a run of three or
more newlines becomes two with `k = 2`.
-/
import Mathlib.Data.List.TakeWhile
import Aion2Hub.Lib.Text

namespace Text

/-! ### Runs -/

/-- The characters without more than `k` of a run; the number counts those of
the run that have been kept before. -/
def capRuns (p : Char → Bool) (r : Char) (k : ℕ) : ℕ → List Char → List Char
  | _, [] => []
  | n, c :: l =>
      if p c then
        if n < k then r :: capRuns p r k (n + 1) l else capRuns p r k n l
      else c :: capRuns p r k 0 l

section

variable {p : Char → Bool} {r : Char} {k n : ℕ} {l l' : List Char}

/-- How many of a run have been kept at the end of a text. -/
def runAfter (p : Char → Bool) (k : ℕ) : ℕ → List Char → ℕ
  | n, [] => n
  | n, c :: l => if p c then runAfter p k (if n < k then n + 1 else n) l else runAfter p k 0 l

theorem runAfter_le (h : n ≤ k) (l : List Char) : runAfter p k n l ≤ k := by
  induction l generalizing n with
  | nil => exact h
  | cons c l ih =>
      rw [runAfter]
      split
      · apply ih
        split <;> omega
      · exact ih (Nat.zero_le k)

theorem capRuns_append (l l' : List Char) : capRuns p r k n (l ++ l') =
    capRuns p r k n l ++ capRuns p r k (runAfter p k n l) l' := by
  induction l generalizing n with
  | nil => rfl
  | cons c l ih =>
      rw [List.cons_append, capRuns, capRuns, runAfter]
      by_cases hc : p c = true
      · by_cases hn : n < k
        · rw [if_pos hc, if_pos hn, if_pos hc, if_pos hn, if_pos hc, if_pos hn, ih, List.cons_append]
        · rw [if_pos hc, if_neg hn, if_pos hc, if_neg hn, if_pos hc, if_neg hn, ih]
      · rw [if_neg hc, if_neg hc, if_neg hc, ih, List.cons_append]

/-- Another character ends a run. -/
theorem capRuns_append_cons {c : Char} (hc : p c = false) (l l' : List Char) :
    capRuns p r k n (l ++ c :: l') = capRuns p r k n l ++ c :: capRuns p r k 0 l' := by
  rw [capRuns_append, capRuns, if_neg (by simp [hc])]

/-- Of a long enough run the same is left, however long it is. -/
theorem capRuns_run {b : List Char} (hb : ∀ c ∈ b, p c = true) (hn : n ≤ k)
    (hlen : k ≤ n + b.length) (l : List Char) :
    capRuns p r k n (b ++ l) = List.replicate (k - n) r ++ capRuns p r k k l := by
  induction b generalizing n with
  | nil =>
      obtain rfl : n = k := Nat.le_antisymm hn hlen
      rw [Nat.sub_self]
      rfl
  | cons c b ih =>
      obtain ⟨hc, hrest⟩ := List.forall_mem_cons.mp hb
      rw [List.length_cons] at hlen
      rw [List.cons_append, capRuns, if_pos hc]
      by_cases hlt : n < k
      · have hsub : k - n = (k - (n + 1)) + 1 := by omega
        rw [if_pos hlt, ih hrest hlt (by omega), hsub, List.replicate_succ, List.cons_append]
      · rw [if_neg hlt, ih hrest hn (by omega)]

/-- Runs of length at least `k` are interchangeable. -/
theorem capRuns_congr {b b' : List Char} (hb : ∀ c ∈ b, p c = true) (hb' : ∀ c ∈ b', p c = true)
    (hlen : k ≤ b.length) (hlen' : k ≤ b'.length) (l l' : List Char) :
    capRuns p r k 0 (l ++ b ++ l') = capRuns p r k 0 (l ++ b' ++ l') := by
  have hle : runAfter p k 0 l ≤ k := runAfter_le (Nat.zero_le k) l
  rw [List.append_assoc, List.append_assoc, capRuns_append l, capRuns_append l,
    capRuns_run hb hle (by omega), capRuns_run hb' hle (by omega)]

theorem mem_capRuns {c : Char} (h : c ∈ capRuns p r k n l) : c = r ∨ c ∈ l ∧ p c = false := by
  induction l generalizing n with
  | nil => exact absurd h List.not_mem_nil
  | cons d l ih =>
      have hlift : ∀ {m}, c ∈ capRuns p r k m l → c = r ∨ c ∈ d :: l ∧ p c = false := by
        intro m hm
        exact (ih hm).imp_right fun ⟨hmem, hp⟩ => ⟨List.mem_cons_of_mem d hmem, hp⟩
      rw [capRuns] at h
      split at h
      · split at h
        · rcases List.mem_cons.mp h with heq | hrest
          · exact .inl heq
          · exact hlift hrest
        · exact hlift h
      · rename_i hd
        rcases List.mem_cons.mp h with rfl | hrest
        · exact .inr ⟨List.mem_cons_self, by simpa using hd⟩
        · exact hlift hrest

/-- No run is longer than `k`. -/
def RunsAtMost (p : Char → Bool) (k : ℕ) (l : List Char) : Prop :=
  ∀ b, b <:+: l → (∀ c ∈ b, p c = true) → b.length ≤ k

theorem RunsAtMost.of_isInfix (h : RunsAtMost p k l) (hl : l' <:+: l) : RunsAtMost p k l' :=
  fun b hb hp => h b (hb.trans hl) hp

/-- Another character separates runs. -/
theorem runsAtMost_append_cons {c : Char} (hc : p c = false) (h : RunsAtMost p k l)
    (h' : RunsAtMost p k l') : RunsAtMost p k (l ++ c :: l') := by
  induction l with
  | nil =>
      intro b hb hp
      rcases List.infix_cons_iff.mp hb with hfront | hinner
      · rcases List.prefix_cons_iff.mp hfront with rfl | ⟨b', rfl, -⟩
        · exact Nat.zero_le k
        · exact absurd (hp c List.mem_cons_self) (by simp [hc])
      · exact h' b hinner hp
  | cons a l ih =>
      intro b hb hp
      rcases List.infix_cons_iff.mp hb with hfront | hinner
      · -- a run at the front does not reach the separator
        have hinitial : b <+: a :: l := by
          rcases List.prefix_or_prefix_of_prefix hfront (List.prefix_append (a :: l) (c :: l')) with
            hle | hle
          · exact hle
          · obtain ⟨t, rfl⟩ := hle
            cases t with
            | nil => simp
            | cons d t =>
                have hd : d = c := by
                  obtain ⟨u, hu⟩ := hfront
                  have hu' : (a :: l) ++ d :: (t ++ u) = (a :: l) ++ c :: l' := by simpa using hu
                  exact (List.cons.inj (List.append_cancel_left hu')).1
                exact absurd (hp d (by simp)) (by simp [hd, hc])
        exact h b hinitial.isInfix hp
      · exact ih (h.of_isInfix (List.suffix_cons a l).isInfix) b hinner hp

/-- At the front of what is left the run goes on, and no run is too long. -/
theorem capRuns_bounded (hn : n ≤ k) (l : List Char) :
    (∀ b, b <+: capRuns p r k n l → (∀ c ∈ b, p c = true) → b.length ≤ k - n) ∧
      RunsAtMost p k (capRuns p r k n l) := by
  induction l generalizing n with
  | nil =>
      constructor
      · intro b hb _
        rw [List.prefix_nil.mp hb]
        exact Nat.zero_le _
      · intro b hb _
        rw [List.infix_nil.mp hb]
        exact Nat.zero_le _
  | cons c l ih =>
      rw [capRuns]
      by_cases hc : p c = true
      · by_cases hlt : n < k
        · obtain ⟨hfront, hall⟩ := ih (Nat.succ_le_of_lt hlt)
          have hinitial : ∀ b, b <+: r :: capRuns p r k (n + 1) l → (∀ c ∈ b, p c = true) →
              b.length ≤ k - n := by
            intro b hb hp
            rcases List.prefix_cons_iff.mp hb with rfl | ⟨b', rfl, hb'⟩
            · exact Nat.zero_le _
            · have := hfront b' hb' fun d hd => hp d (List.mem_cons_of_mem r hd)
              rw [List.length_cons]
              omega
          rw [if_pos hc, if_pos hlt]
          refine ⟨hinitial, fun b hb hp => ?_⟩
          rcases List.infix_cons_iff.mp hb with hb | hb
          · exact (hinitial b hb hp).trans (Nat.sub_le k n)
          · exact hall b hb hp
        · rw [if_pos hc, if_neg hlt]
          exact ih hn
      · obtain ⟨-, hall⟩ := ih (Nat.zero_le k)
        have hinitial : ∀ b, b <+: c :: capRuns p r k 0 l → (∀ c ∈ b, p c = true) → b = [] := by
          intro b hb hp
          rcases List.prefix_cons_iff.mp hb with rfl | ⟨b', rfl, -⟩
          · rfl
          · exact absurd (hp c List.mem_cons_self) hc
        rw [if_neg hc]
        refine ⟨fun b hb hp => ?_, fun b hb hp => ?_⟩
        · rw [hinitial b hb hp]
          exact Nat.zero_le _
        · rcases List.infix_cons_iff.mp hb with hb | hb
          · rw [hinitial b hb hp]
            exact Nat.zero_le k
          · exact hall b hb hp

theorem runsAtMost_capRuns (l : List Char) : RunsAtMost p k (capRuns p r k 0 l) :=
  (capRuns_bounded (Nat.zero_le k) l).2

/-- A text with short runs of `r` is left alone. -/
theorem capRuns_eq_self (hr : ∀ c ∈ l, p c = true → c = r) (h : RunsAtMost p k l) :
    capRuns p r k 0 l = l := by
  have hgo : ∀ (l : List Char) (n : ℕ), n ≤ k → (∀ c ∈ l, p c = true → c = r) → RunsAtMost p k l →
      (∀ b, b <+: l → (∀ c ∈ b, p c = true) → b.length ≤ k - n) → capRuns p r k n l = l := by
    intro l
    induction l with
    | nil => exact fun n _ _ _ _ => rfl
    | cons c l ih =>
        intro n hn hr hruns hfront
        obtain ⟨hrc, hrl⟩ := List.forall_mem_cons.mp hr
        have hrest : RunsAtMost p k l := hruns.of_isInfix (List.suffix_cons c l).isInfix
        rw [capRuns]
        by_cases hc : p c = true
        · have hlt : n < k := by
            have hone := hfront [c] (List.prefix_append [c] l) fun d hd => by
              rw [List.mem_singleton.mp hd]
              exact hc
            rw [List.length_singleton] at hone
            omega
          rw [if_pos hc, if_pos hlt, ← hrc hc]
          congr 1
          rw [hrc hc]
          apply ih (n + 1) hlt hrl hrest
          intro b hb hp
          have hlonger := hfront (c :: b) (List.prefix_cons_inj c |>.mpr hb) fun d hd =>
            (List.mem_cons.mp hd).elim (fun heq => heq ▸ hc) (hp d)
          rw [List.length_cons] at hlonger
          omega
        · rw [if_neg hc]
          congr 1
          apply ih 0 (Nat.zero_le k) hrl hrest
          exact fun b hb hp => hrest b hb.isInfix hp
  apply hgo l 0 (Nat.zero_le k) hr h
  exact fun b hb hp => h b hb.isInfix hp

/-- A run that has not begun yet hides none of the other characters. -/
theorem initial_of_capRuns {q : Char → Bool} (hr : p r = false) (hk : 0 < k) {b : List Char}
    (hb : b <+: capRuns q r k 0 l) (hp : ∀ c ∈ b, p c = true) : b <+: l := by
  induction l generalizing b with
  | nil => exact hb
  | cons c l ih =>
      rw [capRuns] at hb
      by_cases hc : q c = true
      · rw [if_pos hc, if_pos hk] at hb
        rcases List.prefix_cons_iff.mp hb with rfl | ⟨b', rfl, -⟩
        · exact List.nil_prefix
        · exact absurd (hp r List.mem_cons_self) (by simp [hr])
      · rw [if_neg hc] at hb
        rcases List.prefix_cons_iff.mp hb with rfl | ⟨b', rfl, hb'⟩
        · exact List.nil_prefix
        · exact (List.prefix_cons_inj c).mpr (ih hb' fun d hd => hp d (List.mem_cons_of_mem c hd))

/-- Capping the runs of one kind joins no runs of another. -/
theorem RunsAtMost.capRuns {q : Char → Bool} {m : ℕ} (h : RunsAtMost p m l) (hr : p r = false)
    (hk : 0 < k) : RunsAtMost p m (capRuns q r k n l) := by
  induction l generalizing n with
  | nil => exact h
  | cons c l ih =>
      have hrest : RunsAtMost p m l := h.of_isInfix (List.suffix_cons c l).isInfix
      rw [Text.capRuns]
      by_cases hc : q c = true
      · rw [if_pos hc]
        split
        · exact runsAtMost_append_cons (l := []) hr (h.of_isInfix List.nil_infix) (ih hrest)
        · exact ih hrest
      · rw [if_neg hc]
        intro b hb hp
        rcases List.infix_cons_iff.mp hb with hfront | hinner
        · -- the run at the front is one of the text
          rcases List.prefix_cons_iff.mp hfront with rfl | ⟨b', rfl, hb'⟩
          · exact Nat.zero_le m
          · have hin := initial_of_capRuns hr hk hb' fun d hd => hp d (List.mem_cons_of_mem c hd)
            exact h _ ((List.prefix_cons_inj c).mpr hin).isInfix hp
        · exact ih hrest b hinner hp

end

/-! ### Line by line -/

/-- Every text is one line, or a line and the text after its newline. -/
theorem lines_induction {P : List Char → Prop} (hlast : ∀ l, '\n' ∉ l → P l)
    (hcons : ∀ l rest, '\n' ∉ l → P rest → P (l ++ '\n' :: rest)) (text : List Char) : P text := by
  obtain ⟨lines, rest, hlines, hrest, rfl⟩ := exists_lines text
  induction lines with
  | nil => exact hlast rest hrest
  | cons l lines ih =>
      obtain ⟨hl, hlines⟩ := List.forall_mem_cons.mp hlines
      have hjoin : joinLines (l :: lines) ++ rest = l.toList ++ '\n' :: (joinLines lines ++ rest) := by
        simp [joinLines]
      rw [hjoin]
      exact hcons _ _ hl (ih hlines)

/-- `s.split("\n").map(f).join("\n")`, on characters. -/
def mapLines (f : List Char → List Char) (text : List Char) : List Char :=
  ['\n'].intercalate ((text.splitOn '\n').map f)

theorem mapLines_of_notMem (f : List Char → List Char) {l : List Char} (h : '\n' ∉ l) :
    mapLines f l = f l := by
  rw [mapLines, List.splitOn_eq_singleton h]
  simp

theorem mapLines_append_cons (f : List Char → List Char) (l rest : List Char) :
    mapLines f (l ++ '\n' :: rest) = mapLines f l ++ '\n' :: mapLines f rest := by
  have hjoin : ∀ a b : List (List Char), a ≠ [] → b ≠ [] →
      ['\n'].intercalate (a ++ b) = ['\n'].intercalate a ++ '\n' :: ['\n'].intercalate b := by
    intro a b ha hb
    induction a with
    | nil => exact absurd rfl ha
    | cons x a ih =>
        obtain ⟨y, b', rfl⟩ := List.exists_cons_of_ne_nil hb
        cases a with
        | nil => simp
        | cons z a =>
            rw [List.cons_append, List.cons_append, List.intercalate_cons_cons,
              List.intercalate_cons_cons, ← List.cons_append, ih (List.cons_ne_nil z a)]
            simp
  rw [mapLines, List.splitOn_append_cons_self, List.map_append, hjoin]
  · rfl
  · simp
  · simp

/-- Line-by-line rewriting acts on each line. -/
theorem mapLines_cons (f : List Char → List Char) {l : List Char} (h : '\n' ∉ l)
    (rest : List Char) : mapLines f (l ++ '\n' :: rest) = f l ++ '\n' :: mapLines f rest := by
  rw [mapLines_append_cons, mapLines_of_notMem f h]

/-- The text of lines that are joined. -/
theorem toList_intercalate (lines : List String) :
    ("\n".intercalate lines).toList = ['\n'].intercalate (lines.map String.toList) := by
  induction lines with
  | nil => rfl
  | cons l lines ih =>
      cases lines with
      | nil => simp
      | cons l' lines =>
          rw [String.intercalate_cons_cons, String.toList_append, String.toList_append, ih,
            List.map_cons, List.map_cons, List.map_cons, List.intercalate_cons_cons]
          rfl

/-! ### White space at the ends of lines -/

/-- `String.prototype.trimEnd`, on characters. -/
def trimEndList (l : List Char) : List Char := (l.reverse.dropWhile isSpace).reverse

def trimEnd (s : String) : String := String.ofList (trimEndList s.toList)

theorem trimEndList_isPrefix (l : List Char) : trimEndList l <+: l := by
  obtain ⟨dropped, h⟩ := List.dropWhile_suffix isSpace (l := l.reverse)
  refine ⟨dropped.reverse, ?_⟩
  rw [trimEndList, ← List.reverse_append, h, List.reverse_reverse]

/-- White space at the end goes. -/
theorem trimEndList_append {l b : List Char} (hb : ∀ c ∈ b, isSpace c = true) :
    trimEndList (l ++ b) = trimEndList l := by
  have hdrop : (b.reverse ++ l.reverse).dropWhile isSpace = l.reverse.dropWhile isSpace := by
    apply List.dropWhile_append_of_pos
    intro c hc
    exact hb c (List.mem_reverse.mp hc)
  rw [trimEndList, List.reverse_append, hdrop, trimEndList]

/-- Trimming ends at a character that is no white space. -/
theorem trimEndList_append_of_mem {l b : List Char} {c : Char} (hc : c ∈ b)
    (hspace : isSpace c = false) : trimEndList (l ++ b) = l ++ trimEndList b := by
  have hdrop : (b.reverse ++ l.reverse).dropWhile isSpace =
      b.reverse.dropWhile isSpace ++ l.reverse := by
    have hne : b.reverse.dropWhile isSpace ≠ [] := by
      intro hnil
      have hall := List.dropWhile_eq_nil_iff.mp hnil c (List.mem_reverse.mpr hc)
      exact absurd hall (by simp [hspace])
    rw [List.dropWhile_append]
    cases h : b.reverse.dropWhile isSpace with
    | nil => exact absurd h hne
    | cons d l => rfl
  rw [trimEndList, List.reverse_append, hdrop, List.reverse_append, List.reverse_reverse, trimEndList]

theorem trimList_of_head {l : List Char} (h : ∀ c, l.head? = some c → isSpace c = false) :
    trimList l = trimEndList l := by
  rw [trimList, dropWhile_eq_self_of_head h, trimEndList]

theorem getLast?_trimEndList {l : List Char} {c : Char} (h : (trimEndList l).getLast? = some c) :
    isSpace c = false := by
  rw [trimEndList, List.getLast?_reverse] at h
  exact head?_dropWhile h

theorem trimEndList_eq_self {l : List Char} (h : ∀ c, l.getLast? = some c → isSpace c = false) :
    trimEndList l = l := by
  rw [trimEndList, dropWhile_eq_self_of_head, List.reverse_reverse]
  intro c hc
  exact h c (by rwa [List.head?_reverse] at hc)

/-- What stands before a newline is no white space but a newline. -/
def LineEndsTrimmed (l : List Char) : Prop :=
  ∀ c, [c, '\n'] <:+: l → c = '\n' ∨ isSpace c = false

theorem LineEndsTrimmed.of_isInfix {l l' : List Char} (h : LineEndsTrimmed l) (hl : l' <:+: l) :
    LineEndsTrimmed l' := fun c hc => h c (hc.trans hl)

/-- A newline stands after the last character before it. -/
theorem newline_after_last {c : Char} {l rest : List Char} (hl : '\n' ∉ l)
    (h : [c, '\n'] <:+: l ++ '\n' :: rest) :
    l.getLast? = some c ∨ [c, '\n'] <:+: '\n' :: rest := by
  induction l with
  | nil => exact .inr h
  | cons a l ih =>
      have hrest : '\n' ∉ l := fun hmem => hl (List.mem_cons_of_mem a hmem)
      rcases List.infix_cons_iff.mp h with hfront | hinner
      · obtain ⟨rfl, htail⟩ := List.cons_prefix_cons.mp hfront
        cases l with
        | nil => exact .inl rfl
        | cons b l =>
            obtain ⟨rfl, -⟩ := List.cons_prefix_cons.mp htail
            exact absurd List.mem_cons_self hrest
      · rcases ih hrest hinner with hlast | hback
        · left
          rw [List.getLast?_cons, hlast]
          rfl
        · exact .inr hback

theorem lineEndsTrimmed_mapLines (text : List Char) : LineEndsTrimmed (mapLines trimEndList text) := by
  induction text using lines_induction with
  | hlast l hl =>
      intro c hc
      rw [mapLines_of_notMem _ hl] at hc
      have hmem : '\n' ∈ trimEndList l := hc.subset (by simp)
      exact absurd ((trimEndList_isPrefix l).subset hmem) hl
  | hcons l rest hl ih =>
      intro c hc
      rw [mapLines_cons _ hl] at hc
      have hl' : '\n' ∉ trimEndList l := fun hmem => hl ((trimEndList_isPrefix l).subset hmem)
      rcases newline_after_last hl' hc with hlast | hrest
      · exact .inr (getLast?_trimEndList hlast)
      · rcases List.infix_cons_iff.mp hrest with hfront | hinner
        · obtain ⟨rfl, -⟩ := List.cons_prefix_cons.mp hfront
          exact .inl rfl
        · exact ih c hinner

/-- Dropping newlines of a run makes no new ends of lines. -/
theorem LineEndsTrimmed.capRuns {l : List Char} (h : LineEndsTrimmed l) (n : ℕ) :
    LineEndsTrimmed (capRuns (· = '\n') '\n' 2 n l) := by
  induction l generalizing n with
  | nil => exact h
  | cons c l ih =>
      have hrest := h.of_isInfix (List.suffix_cons c l).isInfix
      rw [Text.capRuns]
      by_cases hc : c = '\n'
      · rw [if_pos (decide_eq_true hc)]
        split
        · intro d hd
          rcases List.infix_cons_iff.mp hd with hfront | hinner
          · exact .inl (List.cons_prefix_cons.mp hfront).1
          · exact ih hrest _ d hinner
        · exact ih hrest n
      · rw [if_neg (by simpa using hc)]
        intro d hd
        rcases List.infix_cons_iff.mp hd with hfront | hinner
        · obtain ⟨rfl, hnext⟩ := List.cons_prefix_cons.mp hfront
          apply h
          cases l with
          | nil => cases List.prefix_nil.mp hnext
          | cons e l =>
              -- the next character is the newline itself
              have he : e = '\n' := by
                rw [Text.capRuns] at hnext
                by_contra hne
                rw [if_neg (by simpa using hne)] at hnext
                exact hne (List.cons_prefix_cons.mp hnext).1.symm
              subst he
              exact ⟨[], l, rfl⟩
        · exact ih hrest 0 d hinner

/-- The lines of a text, trimmed at their ends and joined again. -/
theorem toList_trimLines (s : String) :
    ("\n".intercalate ((split s).map trimEnd)).toList = mapLines trimEndList s.toList := by
  have hline : String.toList ∘ trimEnd ∘ String.ofList = trimEndList := by
    funext l
    simp [trimEnd]
  rw [toList_intercalate, split, List.map_map, List.map_map, Function.comp_assoc, hline, mapLines]

theorem splitOn_newline_cons {l : List Char} (hl : '\n' ∉ l) (rest : List Char) :
    (l ++ '\n' :: rest).splitOn '\n' = l :: rest.splitOn '\n' := by
  rw [List.splitOn_append_cons_self, List.splitOn_eq_singleton hl]
  rfl

/-- Text that is added continues the last line. -/
theorem splitOn_append (a b : List Char) : (a ++ b).splitOn '\n' =
    (a.splitOn '\n').dropLast ++ ((a.splitOn '\n').getLast?.getD [] ++ b).splitOn '\n' := by
  induction a using lines_induction with
  | hlast l hl => rw [List.splitOn_eq_singleton hl]; rfl
  | hcons l rest hl ih =>
      obtain ⟨x, xs, hx⟩ := List.exists_cons_of_ne_nil (List.splitOn_ne_nil '\n' rest)
      rw [List.append_assoc, List.cons_append, splitOn_newline_cons hl, splitOn_newline_cons hl, ih, hx]
      rw [List.dropLast_cons_cons, List.cons_append, List.getLast?_cons_cons]

theorem split_append (a b : String) :
    split (a ++ b) = (split a).dropLast ++ split ((split a).getLast?.getD "" ++ b) := by
  have hlast : ((split a).getLast?.getD "").toList = (a.toList.splitOn '\n').getLast?.getD [] := by
    rw [split, List.getLast?_map]
    cases (a.toList.splitOn '\n').getLast? with
    | none => rfl
    | some l => exact String.toList_ofList
  rw [split, String.toList_append, splitOn_append, List.map_append, ← hlast, split, split,
    String.toList_append, List.map_dropLast]

/-- No line has a newline in it. -/
theorem notMem_of_mem_splitOn {text l : List Char} (h : l ∈ text.splitOn '\n') : '\n' ∉ l := by
  induction text using lines_induction with
  | hlast l' hl' =>
      rw [List.splitOn_eq_singleton hl'] at h
      rwa [List.mem_singleton.mp h]
  | hcons l' rest hl' ih =>
      rw [splitOn_newline_cons hl'] at h
      rcases List.mem_cons.mp h with rfl | hrest
      · exact hl'
      · exact ih hrest

theorem notMem_getLast_split (s : String) : '\n' ∉ ((split s).getLast?.getD "").toList := by
  rw [split, List.getLast?_map]
  cases h : (s.toList.splitOn '\n').getLast? with
  | none => exact List.not_mem_nil
  | some l =>
      rw [Option.map_some, Option.getD_some, String.toList_ofList]
      exact notMem_of_mem_splitOn (List.mem_of_getLast? h)

theorem split_ne_nil (s : String) : split s ≠ [] := by
  rw [split]
  simp

/-- Then every line is trimmed, if the last one is. -/
theorem LineEndsTrimmed.lines {text : List Char} (h : LineEndsTrimmed text)
    (hlast : ∀ c, text.getLast? = some c → isSpace c = false) :
    ∀ l ∈ text.splitOn '\n', trimEndList l = l := by
  induction text using lines_induction with
  | hlast l hl =>
      intro l' hl'
      rw [List.splitOn_eq_singleton hl] at hl'
      obtain rfl := List.mem_singleton.mp hl'
      exact trimEndList_eq_self hlast
  | hcons l rest hl ih =>
      intro l' hl'
      rw [splitOn_newline_cons hl] at hl'
      rcases List.mem_cons.mp hl' with rfl | hrest
      · apply trimEndList_eq_self
        intro c hc
        obtain ⟨front, rfl⟩ := List.getLast?_eq_some_iff.mp hc
        rcases h c ⟨front, rest, by simp⟩ with rfl | hspace
        · exact absurd (by simp) hl
        · exact hspace
      · have hsuffix : rest <:+ l ++ '\n' :: rest := ⟨l ++ ['\n'], by simp⟩
        refine ih (h.of_isInfix hsuffix.isInfix) (fun c hc => hlast c ?_) l' hrest
        obtain ⟨front, rfl⟩ := List.getLast?_eq_some_iff.mp hc
        rw [List.getLast?_append, List.getLast?_cons, hc]
        rfl

theorem mapLines_eq_self {f : List Char → List Char} {text : List Char}
    (h : ∀ l ∈ text.splitOn '\n', f l = l) : mapLines f text = text := by
  induction text using lines_induction with
  | hlast l hl =>
      rw [mapLines_of_notMem f hl]
      apply h
      rw [List.splitOn_eq_singleton hl]
      exact List.mem_singleton_self l
  | hcons l rest hl ih =>
      rw [splitOn_newline_cons hl] at h
      obtain ⟨hl', hrest⟩ := List.forall_mem_cons.mp h
      rw [mapLines_cons f hl, hl', ih hrest]

section

variable {f : List Char → List Char} (hf : ∀ l, f l <+: l)

include hf

/-- Cutting lines off adds no characters. -/
theorem mem_mapLines {c : Char} {text : List Char} (h : c ∈ mapLines f text) : c ∈ text := by
  induction text using lines_induction with
  | hlast l hl =>
      rw [mapLines_of_notMem f hl] at h
      exact (hf l).subset h
  | hcons l rest hl ih =>
      rw [mapLines_cons f hl] at h
      rcases List.mem_append.mp h with hfront | hback
      · exact List.mem_append_left _ ((hf l).subset hfront)
      · rcases List.mem_cons.mp hback with rfl | hrest
        · simp
        · exact List.mem_append_right _ (List.mem_cons_of_mem _ (ih hrest))

/-- Nor does it join runs. -/
theorem RunsAtMost.mapLines {p : Char → Bool} {k : ℕ} (hp : p '\n' = false) {text : List Char}
    (h : RunsAtMost p k text) : RunsAtMost p k (mapLines f text) := by
  induction text using lines_induction with
  | hlast l hl =>
      rw [mapLines_of_notMem f hl]
      exact h.of_isInfix (hf l).isInfix
  | hcons l rest hl ih =>
      have hsuffix : rest <:+ l ++ '\n' :: rest := ⟨l ++ ['\n'], by simp⟩
      have hfront := (h.of_isInfix (List.prefix_append l _).isInfix).of_isInfix (hf l).isInfix
      rw [mapLines_cons f hl]
      exact runsAtMost_append_cons hp hfront (ih (h.of_isInfix hsuffix.isInfix))

end

/-- White space at the end of the last line goes. -/
theorem mapLines_trimEndList_append {l b : List Char}
    (hb : ∀ c ∈ b, isSpace c = true ∧ c ≠ '\n') :
    mapLines trimEndList (l ++ b) = mapLines trimEndList l := by
  have hn : '\n' ∉ b := fun h => (hb _ h).2 rfl
  induction l using lines_induction with
  | hlast l hl =>
      rw [mapLines_of_notMem _ (by simp [hl, hn]), mapLines_of_notMem _ hl]
      exact trimEndList_append fun c hc => (hb c hc).1
  | hcons l rest hl ih =>
      rw [List.append_assoc, List.cons_append, mapLines_cons _ hl, mapLines_cons _ hl, ih]

/-- And so it does at the end of any other line. -/
theorem mapLines_trimEndList_before {l b rest : List Char}
    (hb : ∀ c ∈ b, isSpace c = true ∧ c ≠ '\n') (hrest : rest = [] ∨ rest.head? = some '\n') :
    mapLines trimEndList (l ++ b ++ rest) = mapLines trimEndList (l ++ rest) := by
  rcases hrest with rfl | hhead
  · rw [List.append_nil, List.append_nil, mapLines_trimEndList_append hb]
  · obtain ⟨rest', rfl⟩ := List.head?_eq_some_iff.mp hhead
    rw [mapLines_append_cons, mapLines_append_cons, mapLines_trimEndList_append hb]

/-- A run of newlines is kept. -/
theorem mapLines_replicate {f : List Char → List Char} (hf : f [] = []) (m : ℕ)
    (l : List Char) :
    mapLines f (List.replicate m '\n' ++ l) = List.replicate m '\n' ++ mapLines f l := by
  induction m with
  | zero => rfl
  | succ m ih =>
      have hnil : mapLines f ([] ++ '\n' :: (List.replicate m '\n' ++ l)) =
          f [] ++ '\n' :: mapLines f (List.replicate m '\n' ++ l) := mapLines_cons f (by simp) _
      rw [List.replicate_succ, List.cons_append, List.cons_append, ← ih]
      simpa [hf] using hnil

/-! ### Newlines -/

/-- Carriage returns before a newline go. -/
def dropReturns : List Char → List Char
  | [] => []
  | c :: l => if c = '\r' ∧ l.head? = some '\n' then dropReturns l else c :: dropReturns l

/-- Every line end becomes a newline. -/
def unixNewlines (l : List Char) : List Char :=
  (dropReturns l).map fun c => if '\r' = c then '\n' else c

theorem replaceChars_crlf (l : List Char) :
    replaceChars ['\r', '\n'] ['\n'] 0 l = dropReturns l := by
  induction l with
  | nil => rfl
  | cons c l ih =>
      rw [replaceChars, dropReturns]
      by_cases hc : c = '\r'
      · cases l with
        | nil => simp [hc, List.isPrefixOf, replaceChars, dropReturns]
        | cons d l =>
            by_cases hd : d = '\n'
            · subst hc hd
              -- the newline itself is no carriage return
              have hnl : dropReturns ('\n' :: l) = '\n' :: dropReturns l := rfl
              have hih : replaceChars ['\r', '\n'] ['\n'] 0 ('\n' :: l) =
                  '\n' :: replaceChars ['\r', '\n'] ['\n'] 0 l := by
                rw [replaceChars, if_neg (by simp [List.isPrefixOf])]
              rw [hih, hnl] at ih
              simpa [List.isPrefixOf, replaceChars, hnl] using ih
            · simpa [hc, List.isPrefixOf, Ne.symm hd, hd] using ih
      · simpa [hc, List.isPrefixOf, Ne.symm hc] using ih

theorem toList_normalizeNewlines (s : String) :
    (normalizeNewlines s).toList = unixNewlines s.toList := by
  show (String.ofList (replaceChars ['\r'] ['\n'] 0
    (String.ofList (replaceChars ['\r', '\n'] ['\n'] 0 s.toList)).toList)).toList = _
  rw [String.toList_ofList, String.toList_ofList, replaceChars_map, replaceChars_crlf, unixNewlines]

/-- A cut that does not go through a line end. -/
theorem dropReturns_append {u v : List Char}
    (h : ¬ (u.getLast? = some '\r' ∧ v.head? = some '\n')) :
    dropReturns (u ++ v) = dropReturns u ++ dropReturns v := by
  induction u with
  | nil => rfl
  | cons c u ih =>
      cases u with
      | nil =>
          have hc : ¬ (c = '\r' ∧ v.head? = some '\n') := by simpa using h
          have hone : dropReturns [c] = [c] := by simp [dropReturns]
          rw [List.singleton_append, dropReturns, if_neg hc, hone, List.singleton_append]
      | cons d u =>
          have hrest := ih (by simpa [List.getLast?_cons_cons] using h)
          rw [List.cons_append, dropReturns, dropReturns, hrest, List.cons_append, List.head?_cons,
            List.head?_cons]
          split <;> rfl

theorem unixNewlines_append {u v : List Char}
    (h : ¬ (u.getLast? = some '\r' ∧ v.head? = some '\n')) :
    unixNewlines (u ++ v) = unixNewlines u ++ unixNewlines v := by
  rw [unixNewlines, dropReturns_append h, List.map_append, unixNewlines, unixNewlines]

/-- What stands before a newline does not act on what is after it. -/
theorem exists_unixNewlines (u : List Char) :
    ∃ front, ∀ v, unixNewlines (u ++ '\n' :: v) = front ++ '\n' :: unixNewlines v := by
  rcases List.eq_nil_or_concat u with rfl | ⟨u', c, rfl⟩
  · exact ⟨[], fun v => rfl⟩
  · by_cases hc : c = '\r'
    · refine ⟨unixNewlines u', fun v => ?_⟩
      subst hc
      have hcut : ¬ (u'.getLast? = some '\r' ∧ ('\r' :: '\n' :: v).head? = some '\n') := by simp
      rw [List.concat_eq_append, List.append_assoc, List.singleton_append, unixNewlines_append hcut]
      rfl
    · refine ⟨unixNewlines (u'.concat c), fun v => ?_⟩
      apply unixNewlines_append
      simp [hc]

theorem unixNewlines_of_notMem {l : List Char} (h : '\r' ∉ l) : unixNewlines l = l := by
  have hdrop : dropReturns l = l := by
    induction l with
    | nil => rfl
    | cons c l ih =>
        have hc : ¬ (c = '\r' ∧ l.head? = some '\n') := fun ⟨hc, _⟩ => h (hc ▸ List.mem_cons_self)
        rw [dropReturns, if_neg hc, ih fun hmem => h (List.mem_cons_of_mem c hmem)]
  have hmap : l.map (fun c => if '\r' = c then '\n' else c) = l.map id := by
    apply List.map_congr_left
    intro c hc
    have hne : '\r' ≠ c := by
      rintro rfl
      exact h hc
    rw [if_neg hne, id]
  rw [unixNewlines, hdrop, hmap, List.map_id]

/-- A line end is a newline afterwards. -/
theorem head?_unixNewlines {l : List Char} (h : l.head? = some '\n' ∨ l.head? = some '\r') :
    (unixNewlines l).head? = some '\n' := by
  rcases h with h | h
  · obtain ⟨l', rfl⟩ := List.head?_eq_some_iff.mp h
    rfl
  · obtain ⟨l', rfl⟩ := List.head?_eq_some_iff.mp h
    cases l' with
    | nil => rfl
    | cons c l' =>
        by_cases hc : c = '\n'
        · subst hc
          rfl
        · rw [unixNewlines, dropReturns, if_neg (by simp [hc])]
          rfl

theorem notMem_unixNewlines (l : List Char) : '\r' ∉ unixNewlines l := by
  intro h
  obtain ⟨c, -, hc⟩ := List.mem_map.mp h
  split at hc
  · exact absurd hc (by decide)
  · rename_i hne
    exact hne hc.symm

theorem unixNewlines_replicate (m : ℕ) (v : List Char) :
    unixNewlines (List.replicate m '\n' ++ v) = List.replicate m '\n' ++ unixNewlines v := by
  have hcut : ¬ ((List.replicate m '\n').getLast? = some '\r' ∧ v.head? = some '\n') := by
    rintro ⟨hlast, -⟩
    exact absurd (List.eq_of_mem_replicate (List.mem_of_getLast? hlast)) (by decide)
  have hmem : '\r' ∉ List.replicate m '\n' := fun h => absurd (List.eq_of_mem_replicate h) (by decide)
  rw [unixNewlines_append hcut, unixNewlines_of_notMem hmem]

theorem trimList_isInfix (l : List Char) : trimList l <:+: l := by
  rw [trimList]
  exact (trimEndList_isPrefix _).isInfix.trans (List.dropWhile_suffix isSpace).isInfix

end Text
