/-
Aion2Hub/Notices/Normalize.lean

The text of a notice as it is compared (apps/desktop/src/main/notices/normalize.ts;
apps/worker/src/notices/normalize.ts has the same functions).

The passes run one after the other:

    newlines, no-break spaces, runs of blanks, ends of lines, runs of
    newlines, both ends

What they give is a normal form (`Normal`): no pass brings back what an
earlier one has removed, and a text that has the form is left alone.  `Edit` says
which changes of a text are only changes of its spacing; the normal form, and
with it the content hash, is the same before and after.
-/
import Mathlib.Logic.Relation
import Aion2Hub.Lib.Spacing

namespace Hub

open Text

/-! ### The source -/

/-- `[ \t]`. -/
def isBlank (c : Char) : Bool := c = ' ' || c = '\t'

def normalizeWhitespace (value : String) : String :=
  let spaced := replaceAll "\u00a0" " " value
  let single := String.ofList (capRuns isBlank ' ' 1 0 spaced.toList)
  let lines := "\n".intercalate ((split single).map trimEnd)
  trim (String.ofList (capRuns (· = '\n') '\n' 2 0 lines.toList))

/-- What `normalizeNoticeHtmlToText` makes of the text of a page. -/
def noticeText (text : String) : String := normalizeWhitespace (normalizeNewlines text)

/-- `contentHash` of `normalizeAndHashNoticeHtml`. -/
def contentHash (sha256Hex : String → String) (text : String) : String := sha256Hex (noticeText text)

/-! ### On characters -/

def plainSpace (c : Char) : Char := if '\u00a0' = c then ' ' else c

/-- The passes before the newlines are counted. -/
def trimmedLines (l : List Char) : List Char :=
  mapLines trimEndList (capRuns isBlank ' ' 1 0 (l.map plainSpace))

def normalizeChars (l : List Char) : List Char :=
  trimList (capRuns (· = '\n') '\n' 2 0 (trimmedLines l))

theorem toList_normalizeWhitespace (value : String) :
    (normalizeWhitespace value).toList = normalizeChars value.toList := by
  have hspaced : (replaceAll "\u00a0" " " value).toList = value.toList.map plainSpace := by
    show (String.ofList (replaceChars ['\u00a0'] [' '] 0 value.toList)).toList = _
    rw [String.toList_ofList, replaceChars_map]
    rfl
  rw [normalizeWhitespace, trim, String.toList_ofList, String.toList_ofList, toList_trimLines,
    String.toList_ofList, hspaced]
  rfl

theorem toList_noticeText (text : String) :
    (noticeText text).toList = normalizeChars (unixNewlines text.toList) := by
  rw [noticeText, toList_normalizeWhitespace, toList_normalizeNewlines]

/-! ### The normal form -/

/-- What a normalised text looks like. -/
structure Normal (text : List Char) : Prop where
  noReturn : '\r' ∉ text
  noTab : '\t' ∉ text
  noNbsp : '\u00a0' ∉ text
  noDouble : ¬ [' ', ' '] <:+: text
  line : ∀ l ∈ text.splitOn '\n', trimEndList l = l
  noGap : ¬ ['\n', '\n', '\n'] <:+: text
  ends : trimList text = text

theorem mem_trimmedLines {c : Char} {l : List Char} (h : c ∈ trimmedLines l) :
    c = ' ' ∨ c ∈ l ∧ isBlank c = false ∧ c ≠ '\u00a0' := by
  rcases mem_capRuns (mem_mapLines trimEndList_isPrefix h) with rfl | ⟨hmem, hblank⟩
  · exact .inl rfl
  · obtain ⟨d, hd, rfl⟩ := List.mem_map.mp hmem
    rw [plainSpace] at hblank ⊢
    split
    · exact .inl rfl
    · rename_i hne
      rw [if_neg hne] at hblank
      exact .inr ⟨hd, hblank, Ne.symm hne⟩

theorem mem_normalizeChars {c : Char} {l : List Char} (h : c ∈ normalizeChars l) :
    c = ' ' ∨ c = '\n' ∨ c ∈ l ∧ isBlank c = false ∧ c ≠ '\u00a0' := by
  rcases mem_capRuns ((trimList_isInfix _).subset h) with rfl | ⟨hmem, -⟩
  · exact .inr (.inl rfl)
  · exact (mem_trimmedLines hmem).imp_right .inr

/-- The passes compose to the normal form. -/
theorem normal_normalizeChars {l : List Char} (hl : '\r' ∉ l) : Normal (normalizeChars l) where
  noReturn := by
    intro h
    rcases mem_normalizeChars h with heq | heq | ⟨hmem, -⟩
    · exact absurd heq (by decide)
    · exact absurd heq (by decide)
    · exact hl hmem
  noTab := by
    intro h
    rcases mem_normalizeChars h with heq | heq | ⟨-, hblank, -⟩
    · exact absurd heq (by decide)
    · exact absurd heq (by decide)
    · exact absurd hblank (by decide)
  noNbsp := by
    intro h
    rcases mem_normalizeChars h with heq | heq | ⟨-, -, hne⟩
    · exact absurd heq (by decide)
    · exact absurd heq (by decide)
    · exact hne rfl
  noDouble := by
    intro h
    have hnewline : isBlank '\n' = false := rfl
    have hlines : RunsAtMost isBlank 1 (trimmedLines l) :=
      (runsAtMost_capRuns _).mapLines trimEndList_isPrefix hnewline
    have hcapped : RunsAtMost isBlank 1 (capRuns (· = '\n') '\n' 2 0 (trimmedLines l)) :=
      hlines.capRuns hnewline Nat.zero_lt_two
    have hlength := hcapped _ (h.trans (trimList_isInfix _)) (by simp [isBlank])
    exact absurd hlength (by decide)
  line := by
    have htrimmed : LineEndsTrimmed (normalizeChars l) :=
      ((lineEndsTrimmed_mapLines _).capRuns 0).of_isInfix (trimList_isInfix _)
    apply htrimmed.lines
    intro c hc
    rw [normalizeChars, trimList, List.getLast?_reverse] at hc
    exact head?_dropWhile hc
  noGap := by
    intro h
    have hlength := runsAtMost_capRuns _ _ (h.trans (trimList_isInfix _)) (by simp)
    exact absurd hlength (by decide)
  ends := trimList_trimList _

/-- A text in normal form is left alone. -/
theorem Normal.normalizeChars_eq {l : List Char} (h : Normal l) : normalizeChars l = l := by
  have hplain : l.map plainSpace = l.map id := by
    apply List.map_congr_left
    intro c hc
    have hne : '\u00a0' ≠ c := by
      rintro rfl
      exact h.noNbsp hc
    rw [plainSpace, if_neg hne, id]
  have hblank : ∀ c ∈ l, isBlank c = true → c = ' ' := by
    intro c hc hb
    rcases Bool.or_eq_true_iff.mp hb with hspace | htab
    · exact of_decide_eq_true hspace
    · rw [of_decide_eq_true htab] at hc
      exact absurd hc h.noTab
  have hsingle : RunsAtMost isBlank 1 l := by
    intro b hb hp
    rcases b with - | ⟨c, - | ⟨d, b⟩⟩
    · exact Nat.zero_le 1
    · exact Nat.le_refl 1
    · obtain rfl := hblank c (hb.subset (by simp)) (hp c (by simp))
      obtain rfl := hblank d (hb.subset (by simp)) (hp d (by simp))
      exact absurd ((List.prefix_append [' ', ' '] b).isInfix.trans hb) h.noDouble
  have hgap : RunsAtMost (fun c => decide (c = '\n')) 2 l := by
    intro b hb hp
    rcases b with - | ⟨c, - | ⟨d, - | ⟨e, b⟩⟩⟩
    · exact Nat.zero_le 2
    · exact Nat.le_succ 1
    · exact Nat.le_refl 2
    · obtain rfl := of_decide_eq_true (hp c (by simp))
      obtain rfl := of_decide_eq_true (hp d (by simp))
      obtain rfl := of_decide_eq_true (hp e (by simp))
      exact absurd ((List.prefix_append ['\n', '\n', '\n'] b).isInfix.trans hb) h.noGap
  have hnewline : ∀ c ∈ l, decide (c = '\n') = true → c = '\n' := fun c _ hc => of_decide_eq_true hc
  rw [normalizeChars, trimmedLines, hplain, List.map_id, capRuns_eq_self hblank hsingle,
    mapLines_eq_self h.line, capRuns_eq_self hnewline hgap, h.ends]

theorem normal_noticeText (text : String) : Normal (noticeText text).toList := by
  rw [toList_noticeText]
  exact normal_normalizeChars (notMem_unixNewlines _)

theorem noticeText_noticeText (text : String) : noticeText (noticeText text) = noticeText text := by
  have h := normal_noticeText text
  apply String.toList_inj.mp
  rw [toList_noticeText, unixNewlines_of_notMem h.noReturn, h.normalizeChars_eq]

/-! ### Changes of the spacing -/

/-- A space, a tab or a no-break space. -/
def isSpacing (c : Char) : Bool := isBlank c || c = '\u00a0'

/-- Between these two texts, `e` is one line end. -/
inductive LineEnd (u v : List Char) : List Char → Prop
  | lf : u.getLast? ≠ some '\r' → LineEnd u v ['\n']
  | crlf : LineEnd u v ['\r', '\n']
  | cr : v.head? ≠ some '\n' → LineEnd u v ['\r']

/-- A change of the spacing of a text: another line end, other spaces and tabs
for some, trailing blanks of a line, or newlines of a run that stays a run. -/
inductive Edit : List Char → List Char → Prop
  | lineEnd {u v e e'} : LineEnd u v e → LineEnd u v e' → Edit (u ++ e ++ v) (u ++ e' ++ v)
  | blanks {u v b b'} : b ≠ [] → b' ≠ [] → (∀ c ∈ b, isSpacing c = true) →
      (∀ c ∈ b', isSpacing c = true) → Edit (u ++ b ++ v) (u ++ b' ++ v)
  | trailing {u v b} : (∀ c ∈ b, isSpace c = true ∧ c ≠ '\n' ∧ c ≠ '\r') →
      (v = [] ∨ v.head? = some '\n' ∨ v.head? = some '\r') →
      -- a carriage return before it would become part of the line end
      ¬ (u.getLast? = some '\r' ∧ v.head? = some '\n') → Edit (u ++ b ++ v) (u ++ v)
  | newlines {u v m n} : 2 ≤ m → 2 ≤ n →
      Edit (u ++ List.replicate m '\n' ++ v) (u ++ List.replicate n '\n' ++ v)

/-- The texts differ only in their spacing. -/
def SameText : List Char → List Char → Prop := Relation.EqvGen Edit

theorem unixNewlines_lineEnd {u v e : List Char} (h : LineEnd u v e) :
    unixNewlines (u ++ e ++ v) = unixNewlines u ++ '\n' :: unixNewlines v := by
  cases h with
  | lf hu =>
      rw [List.append_assoc, unixNewlines_append fun hcut => hu hcut.1]
      rfl
  | crlf =>
      rw [List.append_assoc, unixNewlines_append (by simp)]
      rfl
  | cr hv =>
      rw [unixNewlines_append fun hcut => hv hcut.2, unixNewlines_append (by simp), List.append_assoc]
      rfl

/-- Characters that are no line ends stand for themselves. -/
theorem unixNewlines_between {u v b : List Char} (hb : ∀ c ∈ b, c ≠ '\n' ∧ c ≠ '\r')
    (hcut : ¬ (u.getLast? = some '\r' ∧ (b ++ v).head? = some '\n')) :
    unixNewlines (u ++ b ++ v) = unixNewlines u ++ b ++ unixNewlines v := by
  have hreturn : '\r' ∉ b := fun h => (hb _ h).2 rfl
  have hlast : ¬ (b.getLast? = some '\r' ∧ v.head? = some '\n') := by
    rintro ⟨hl, -⟩
    exact hreturn (List.mem_of_getLast? hl)
  rw [List.append_assoc, unixNewlines_append hcut, unixNewlines_append hlast,
    unixNewlines_of_notMem hreturn, List.append_assoc]

theorem normalizeChars_blanks {u v b b' : List Char} (hne : b ≠ []) (hne' : b' ≠ [])
    (hb : ∀ c ∈ b, isSpacing c = true) (hb' : ∀ c ∈ b', isSpacing c = true) :
    normalizeChars (u ++ b ++ v) = normalizeChars (u ++ b' ++ v) := by
  have hblank : ∀ x : List Char, (∀ c ∈ x, isSpacing c = true) →
      ∀ c ∈ x.map plainSpace, isBlank c = true := by
    intro x hx c hc
    obtain ⟨d, hd, rfl⟩ := List.mem_map.mp hc
    rw [plainSpace]
    split
    · rfl
    · rename_i hnbsp
      have := hx d hd
      rw [isSpacing, decide_eq_false (Ne.symm hnbsp), Bool.or_false] at this
      exact this
  have hlength : ∀ x : List Char, x ≠ [] → 1 ≤ (x.map plainSpace).length := by
    intro x hx
    rw [List.length_map]
    exact List.length_pos_iff.mpr hx
  rw [normalizeChars, normalizeChars, trimmedLines, trimmedLines, List.map_append, List.map_append,
    List.map_append, List.map_append,
    capRuns_congr (hblank b hb) (hblank b' hb') (hlength b hne) (hlength b' hne')]

theorem isSpace_plainSpace {c : Char} (h : isSpace c = true ∧ c ≠ '\n') :
    isSpace (plainSpace c) = true ∧ plainSpace c ≠ '\n' := by
  rw [plainSpace]
  split
  · decide
  · exact h

theorem normalizeChars_trailing {u v b : List Char} (hb : ∀ c ∈ b, isSpace c = true ∧ c ≠ '\n')
    (hv : v = [] ∨ v.head? = some '\n') :
    normalizeChars (u ++ b ++ v) = normalizeChars (u ++ v) := by
  have hspaces : ∀ n, ∀ c ∈ capRuns isBlank ' ' 1 n (b.map plainSpace),
      isSpace c = true ∧ c ≠ '\n' := by
    intro n c hc
    rcases mem_capRuns hc with rfl | ⟨hmem, -⟩
    · decide
    · obtain ⟨d, hd, rfl⟩ := List.mem_map.mp hmem
      exact isSpace_plainSpace (hb d hd)
  have hlines : trimmedLines (u ++ b ++ v) = trimmedLines (u ++ v) := by
    rw [trimmedLines, trimmedLines, List.map_append, List.map_append, List.map_append]
    rcases hv with rfl | hhead
    · rw [List.map_nil, List.append_nil, List.append_nil, capRuns_append,
        mapLines_trimEndList_append (hspaces _)]
    · obtain ⟨v', rfl⟩ := List.head?_eq_some_iff.mp hhead
      have hmap : ('\n' :: v').map plainSpace = '\n' :: v'.map plainSpace := rfl
      rw [hmap, capRuns_append_cons rfl, capRuns_append_cons rfl, capRuns_append,
        mapLines_trimEndList_before (hspaces _) (.inr rfl)]
  rw [normalizeChars, hlines, normalizeChars]

theorem trimmedLines_newlines (u v : List Char) (m : ℕ) :
    trimmedLines (u ++ '\n' :: (List.replicate m '\n' ++ v)) =
      trimmedLines u ++ '\n' :: (List.replicate m '\n' ++ trimmedLines v) := by
  have hrun : ∀ m, capRuns isBlank ' ' 1 0 ((List.replicate m '\n' ++ v).map plainSpace) =
      List.replicate m '\n' ++ capRuns isBlank ' ' 1 0 (v.map plainSpace) := by
    intro m
    induction m with
    | zero => rfl
    | succ m ih =>
        rw [List.replicate_succ, List.cons_append, List.cons_append, ← ih]
        exact capRuns_append_cons (c := '\n') rfl [] _
  have hmap : ∀ w : List Char, ('\n' :: w).map plainSpace = '\n' :: w.map plainSpace := fun w => rfl
  rw [trimmedLines, List.map_append, hmap, capRuns_append_cons rfl, hrun, mapLines_append_cons,
    mapLines_replicate rfl]
  rfl

theorem normalizeChars_newlines (u v : List Char) {m n : ℕ} (hm : 1 ≤ m) (hn : 1 ≤ n) :
    normalizeChars (u ++ '\n' :: (List.replicate m '\n' ++ v)) =
      normalizeChars (u ++ '\n' :: (List.replicate n '\n' ++ v)) := by
  have hrun : ∀ k, 1 ≤ k → capRuns (fun c => decide (c = '\n')) '\n' 2 0
      (trimmedLines u ++ '\n' :: (List.replicate k '\n' ++ trimmedLines v)) =
      capRuns (fun c => decide (c = '\n')) '\n' 2 0
        (trimmedLines u ++ List.replicate 2 '\n' ++ trimmedLines v) := by
    intro k hk
    have hall : ∀ j, ∀ c ∈ List.replicate j '\n', decide (c = '\n') = true :=
      fun j c hc => decide_eq_true (List.eq_of_mem_replicate hc)
    have hlong := capRuns_congr (r := '\n') (k := 2) (hall (k + 1)) (hall 2)
      (by rw [List.length_replicate]; omega) (by rw [List.length_replicate])
      (trimmedLines u) (trimmedLines v)
    rw [List.append_assoc, List.replicate_succ] at hlong
    exact hlong
  rw [normalizeChars, normalizeChars, trimmedLines_newlines, trimmedLines_newlines, hrun m hm, hrun n hn]

/-- A change of the spacing does not change the normal form. -/
theorem noticeText_edit {l l' : List Char} (h : Edit l l') :
    normalizeChars (unixNewlines l) = normalizeChars (unixNewlines l') := by
  cases h with
  | lineEnd he he' => rw [unixNewlines_lineEnd he, unixNewlines_lineEnd he']
  | @blanks u v b b' hne hne' hb hb' =>
      have hline : ∀ x : List Char, (∀ c ∈ x, isSpacing c = true) → ∀ c ∈ x, c ≠ '\n' ∧ c ≠ '\r' := by
        intro x hx c hc
        constructor
        · rintro rfl
          exact absurd (hx _ hc) (by decide)
        · rintro rfl
          exact absurd (hx _ hc) (by decide)
      have hcut : ∀ x : List Char, x ≠ [] → (∀ c ∈ x, isSpacing c = true) →
          ¬ (u.getLast? = some '\r' ∧ (x ++ v).head? = some '\n') := by
        rintro x hx hall ⟨-, hhead⟩
        obtain ⟨c, x', rfl⟩ := List.exists_cons_of_ne_nil hx
        exact (hline _ hall c List.mem_cons_self).1 (Option.some.inj hhead)
      rw [unixNewlines_between (hline b hb) (hcut b hne hb),
        unixNewlines_between (hline b' hb') (hcut b' hne' hb'), normalizeChars_blanks hne hne' hb hb']
  | @trailing u v b hb hv hcut =>
      have hcut' : ¬ (u.getLast? = some '\r' ∧ (b ++ v).head? = some '\n') := by
        rintro ⟨hlast, hhead⟩
        cases b with
        | nil => exact hcut ⟨hlast, hhead⟩
        | cons c b => exact (hb c List.mem_cons_self).2.1 (Option.some.inj hhead)
      have hrest : unixNewlines v = [] ∨ (unixNewlines v).head? = some '\n' := by
        rcases hv with rfl | hhead
        · exact .inl rfl
        · exact .inr (head?_unixNewlines hhead)
      rw [unixNewlines_between (fun c hc => (hb c hc).2) hcut', unixNewlines_append hcut]
      exact normalizeChars_trailing (fun c hc => ⟨(hb c hc).1, (hb c hc).2.1⟩) hrest
  | @newlines u v m n hm hn =>
      obtain ⟨m, rfl⟩ := Nat.exists_eq_add_of_le' hm
      obtain ⟨n, rfl⟩ := Nat.exists_eq_add_of_le' hn
      obtain ⟨front, hfront⟩ := exists_unixNewlines u
      have hrun : ∀ k, unixNewlines (u ++ List.replicate (k + 2) '\n' ++ v) =
          front ++ '\n' :: (List.replicate (k + 1) '\n' ++ unixNewlines v) := by
        intro k
        rw [List.append_assoc, List.replicate_succ, List.cons_append, hfront, unixNewlines_replicate]
      rw [hrun, hrun, normalizeChars_newlines front _ (Nat.le_add_left 1 m) (Nat.le_add_left 1 n)]

theorem noticeText_eq_of_sameText {x y : String} (h : SameText x.toList y.toList) :
    noticeText x = noticeText y := by
  have hchars : ∀ {l l'}, SameText l l' →
      normalizeChars (unixNewlines l) = normalizeChars (unixNewlines l') := by
    intro l l' h
    induction h with
    | rel _ _ h => exact noticeText_edit h
    | refl _ => rfl
    | symm _ _ _ ih => exact ih.symm
    | trans _ _ _ _ _ ih ih' => exact ih.trans ih'
  apply String.toList_inj.mp
  rw [toList_noticeText, toList_noticeText, hchars h]

/-- **The text of a notice is in normal form**, stays as it is when it is
normalised again, and does not depend on the spacing of the article; so neither
does the content hash. -/
theorem noticeText_normalForm (sha256Hex : String → String) :
    (∀ x, Normal (noticeText x).toList ∧ noticeText (noticeText x) = noticeText x) ∧
      ∀ x y, SameText x.toList y.toList → contentHash sha256Hex x = contentHash sha256Hex y := by
  refine ⟨fun x => ⟨normal_noticeText x, noticeText_noticeText x⟩, fun x y h => ?_⟩
  rw [contentHash, contentHash, noticeText_eq_of_sameText h]

/-- Blanks before a line end, several blanks between two words and a Windows
line end make no difference. -/
theorem noticeText_normalForm_example :
    contentHash id "a \t b \r\nc" = contentHash id "a b\nc" := by
  apply (noticeText_normalForm id).2
  have hend : Edit "a \t b \r\nc".toList "a \t b \nc".toList :=
    .lineEnd (u := "a \t b ".toList) (v := ['c']) .crlf (.lf (by decide))
  have htrail : Edit "a \t b \nc".toList "a \t b\nc".toList :=
    .trailing (u := "a \t b".toList) (v := "\nc".toList) (b := [' ']) (by simp [isSpace])
      (.inr (.inl rfl)) (by simp)
  have hblanks : Edit (['a'] ++ " \t ".toList ++ "b\nc".toList) (['a'] ++ [' '] ++ "b\nc".toList) :=
    .blanks (by simp) (by simp) (by simp [isSpacing, isBlank]) (by simp [isSpacing, isBlank])
  exact .trans _ _ _ (.rel _ _ hend) (.trans _ _ _ (.rel _ _ htrail) (.rel _ _ hblanks))

end Hub
