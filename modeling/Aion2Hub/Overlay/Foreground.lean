/-
Aion2Hub/Overlay/Foreground.lean

The feed of foreground windows (apps/desktop/src/main/overlay/foregroundWatcher.ts).

A script prints one line per change,

    pid \t title \t processName

and its output comes in chunks that may end anywhere.  The last line of what
has come is kept until the rest of it comes (`feed_lines`), so the calls of
`onChange` depend on the lines alone.  A line is trimmed before it is split:
with an empty process name the tab before it goes, with a blank title as well
both do, and the record is dropped (`parseForegroundLine_text`).
-/
import Aion2Hub.Lib.Numeral
import Aion2Hub.Lib.Spacing

namespace Hub.Overlay

open Text

/-! ### The source -/

structure ForegroundInfo where
  pid : Number
  title : String
  processName : Option String

def parseForegroundLine (line : String) : Option ForegroundInfo :=
  let trimmed := trim (replaceAll "\r" "" line)
  if trimmed = "" then none
  else
    let parts := (trimmed.toList.splitOn '\t').map String.ofList
    if parts.length < 2 then none
    else
      let pid := toNumber (parts.getD 0 "")
      if ¬ pid.isFinite ∨ Number.le pid 0 then none
      else
        let title := parts.getD 1 ""
        -- a part that is missing and one that is empty count alike
        let processName := parts.getD 2 ""
        some ⟨pid, title, if processName = "" then none else some processName⟩

/-- `flush`: what is kept, and what `onChange` is called with. -/
def flush (data : String) (chunks : List String) : List String × List ForegroundInfo :=
  let joined := String.join (chunks ++ [data])
  let lines := split joined
  ([lines.getLast?.getD ""], lines.dropLast.filterMap parseForegroundLine)

/-- The calls of `onChange` for the data of a stream, one chunk after the
other. -/
def feed : List String → List String → List ForegroundInfo
  | _, [] => []
  | chunks, data :: rest => (flush data chunks).2 ++ feed (flush data chunks).1 rest

/-! ### What the script prints -/

/-- A record of the script; `pid` is a `uint`, and line ends and tabs in the
title have been replaced. -/
structure Record where
  pid : ℕ
  title : String
  processName : String
  pid_pos : 0 < pid
  pid_lt : pid < 2 ^ 32
  title_plain : ∀ c ∈ title.toList, c ≠ '\t' ∧ c ≠ '\r' ∧ c ≠ '\n'
  processName_plain : ∀ c ∈ processName.toList, c ≠ '\t' ∧ c ≠ '\r' ∧ c ≠ '\n'

inductive LineEnding where
  | lf
  | crlf

/-- What stands before the newline. -/
def LineEnding.mark : LineEnding → String
  | .lf => ""
  | .crlf => "\r"

def Record.text (r : Record) : String :=
  Nat.repr r.pid ++ "\t" ++ r.title ++ "\t" ++ r.processName

/-- The output for records, each with its line end. -/
def printed (records : List (Record × LineEnding)) : String :=
  String.join (records.map fun p => p.1.text ++ p.2.mark ++ "\n")

/-! ### Chunks -/

/-- The calls are those of the lines that are complete, however the text is
cut. -/
theorem feed_lines {chunks : List String} (h : '\n' ∉ (String.join chunks).toList)
    (data : List String) :
    feed chunks data =
      (split (String.join chunks ++ String.join data)).dropLast.filterMap parseForegroundLine := by
  induction data generalizing chunks with
  | nil =>
      have hone : split (String.join chunks ++ String.join []) = [String.join chunks] := by
        rw [String.join_nil, String.append_empty, split, List.splitOn_eq_singleton h]
        exact congrArg (· :: []) String.ofList_toList
      rw [hone]
      rfl
  | cons d data ih =>
      have hone : ∀ s, String.join [s] = s := by simp
      have hjoined : String.join (chunks ++ [d]) = String.join chunks ++ d := by
        rw [String.join_append, hone]
      have hcarry := hone ((split (String.join chunks ++ d)).getLast?.getD "")
      rw [feed, flush, hjoined]
      dsimp only
      rw [ih (by rw [hcarry]; exact notMem_getLast_split _), hcarry, ← List.filterMap_append,
        String.join_cons, ← String.append_assoc, split_append (String.join chunks ++ d),
        List.dropLast_append_of_ne_nil (split_ne_nil _)]

theorem toList_text (r : Record) : r.text.toList = (Nat.repr r.pid).toList ++
    '\t' :: (r.title.toList ++ '\t' :: r.processName.toList) := by
  simp [Record.text]

theorem notMem_repr {c : Char} (hc : c.isDigit = false) (n : ℕ) : c ∉ (Nat.repr n).toList := by
  intro h
  exact absurd (isDigit_of_mem_repr h) (by simp [hc])

/-- There are no line ends in a record. -/
theorem notMem_text (r : Record) : '\r' ∉ r.text.toList ∧ '\n' ∉ r.text.toList := by
  have htitle := r.title_plain
  have hname := r.processName_plain
  rw [toList_text]
  constructor
  · intro h
    rcases List.mem_append.mp h with hpid | hrest
    · exact notMem_repr rfl r.pid hpid
    · rcases List.mem_append.mp (List.mem_of_ne_of_mem (by decide) hrest) with ht | hp
      · exact (htitle _ ht).2.1 rfl
      · exact (hname _ (List.mem_of_ne_of_mem (by decide) hp)).2.1 rfl
  · intro h
    rcases List.mem_append.mp h with hpid | hrest
    · exact notMem_repr rfl r.pid hpid
    · rcases List.mem_append.mp (List.mem_of_ne_of_mem (by decide) hrest) with ht | hp
      · exact (htitle _ ht).2.2 rfl
      · exact (hname _ (List.mem_of_ne_of_mem (by decide) hp)).2.2 rfl

theorem mem_mark {c : Char} {ending : LineEnding} (h : c ∈ ending.mark.toList) : c = '\r' := by
  cases ending with
  | lf => simp [LineEnding.mark] at h
  | crlf => simpa [LineEnding.mark] using h

theorem split_printed (records : List (Record × LineEnding)) :
    split (printed records) = records.map (fun p => p.1.text ++ p.2.mark) ++ [""] := by
  apply split_of_linesOf
  constructor
  · have hline : (fun p : Record × LineEnding => (p.1.text ++ p.2.mark).toList ++ ['\n']) =
        fun p => (p.1.text ++ p.2.mark ++ "\n").toList := by
      funext p
      simp
    rw [printed, String.toList_join, joinLines, List.flatMap_map, List.flatMap_map, hline]
  · intro l hl
    obtain ⟨⟨r, ending⟩, -, rfl⟩ := List.mem_map.mp hl
    rw [String.toList_append]
    intro hmem
    rcases List.mem_append.mp hmem with htext | hmark
    · exact (notMem_text r).2 htext
    · exact absurd (mem_mark hmark) (by decide)

/-! ### Lines -/

def blank (s : String) : Bool := s.toList.all isSpace

/-- What `onChange` is called with for a record, if it is. -/
def Record.decoded (r : Record) : Option ForegroundInfo :=
  if blank r.processName then
    if blank r.title then none else some ⟨Number.ofInt r.pid, trimEnd r.title, none⟩
  else some ⟨Number.ofInt r.pid, r.title, some (trimEnd r.processName)⟩

/-- The parts of a line decide what is parsed. -/
theorem parseForegroundLine_parts {line : String} {pid : ℕ} {rest : List (List Char)}
    (hpos : 0 < pid) (hlt : pid < 2 ^ 32)
    (h : (trim (replaceAll "\r" "" line)).toList.splitOn '\t' = (Nat.repr pid).toList :: rest) :
    parseForegroundLine line = if rest = [] then none else
      some ⟨Number.ofInt pid, (rest.map String.ofList).getD 0 "",
        if (rest.map String.ofList).getD 1 "" = "" then none
        else some ((rest.map String.ofList).getD 1 "")⟩ := by
  have hne : trim (replaceAll "\r" "" line) ≠ "" := by
    intro hempty
    rw [hempty] at h
    exact toList_repr_ne_nil pid (List.cons.inj h).1.symm
  have hpid : toNumber (Nat.repr pid) = Number.ofInt pid := toNumber_repr (by omega)
  have hfinite : ¬ (¬ (Number.ofInt (pid : ℤ)).isFinite = true ∨
      Number.le (Number.ofInt pid) 0 = true) := by
    rintro (hinf | hle)
    · exact hinf rfl
    · have hzero : ((pid : ℤ) : ℚ) ≤ 0 := Number.le_fin_iff.mp hle
      have hnonpos : (pid : ℤ) ≤ 0 := by exact_mod_cast hzero
      omega
  rw [parseForegroundLine]
  simp only [if_neg hne, h, List.map_cons, String.ofList_toList, List.length_cons, List.length_map]
  cases rest with
  | nil => rfl
  | cons title rest =>
      have hlength : ¬ (title :: rest).length + 1 < 2 := by
        rw [List.length_cons]
        omega
      rw [if_neg hlength, if_neg (List.cons_ne_nil _ _), List.getD_cons_zero, hpid, if_neg hfinite]
      rfl

/-- The carriage return of a line end is removed. -/
theorem replaceAll_return (r : Record) (ending : LineEnding) :
    replaceAll "\r" "" (r.text ++ ending.mark) = r.text := by
  have hkeep : ∀ l : List Char, '\r' ∉ l →
      (l.flatMap fun d => if '\r' = d then [] else [d]) = l := by
    intro l hl
    induction l with
    | nil => rfl
    | cons c l ih =>
        have hc : '\r' ≠ c := fun heq => hl (heq ▸ List.mem_cons_self)
        rw [List.flatMap_cons, if_neg hc, ih fun hmem => hl (List.mem_cons_of_mem c hmem)]
        rfl
  have hmark : (ending.mark.toList.flatMap fun d => if '\r' = d then [] else [d]) = [] := by
    cases ending <;> rfl
  show String.ofList (replaceChars ['\r'] [] 0 (r.text ++ ending.mark).toList) = r.text
  rw [replaceChars_singleton, String.toList_append, List.flatMap_append, hmark, List.append_nil,
    hkeep _ (notMem_text r).1, String.ofList_toList]

theorem getLast?_repr {n : ℕ} {c : Char} (h : (Nat.repr n).toList.getLast? = some c) :
    isSpace c = false := isSpace_of_isDigit (isDigit_of_mem_repr (List.mem_of_getLast? h))

theorem blank_iff {s : String} : blank s = true ↔ ∀ c ∈ s.toList, isSpace c = true :=
  List.all_eq_true

theorem exists_of_not_blank {s : String} (h : ¬ blank s = true) :
    ∃ c ∈ s.toList, isSpace c = false := by
  by_contra hnone
  apply h
  rw [blank_iff]
  intro c hc
  by_contra hspace
  exact hnone ⟨c, hc, by simpa using hspace⟩

/-- A record begins with its first digit, so only its end is trimmed. -/
theorem trim_text (r : Record) : (trim r.text).toList = trimEndList r.text.toList := by
  rw [trim, String.toList_ofList]
  apply trimList_of_head
  intro c hc
  obtain ⟨d, l, hd⟩ := List.exists_cons_of_ne_nil (toList_repr_ne_nil r.pid)
  rw [toList_text, hd] at hc
  obtain rfl : d = c := Option.some.inj hc
  exact isSpace_of_isDigit (isDigit_of_mem_repr (hd ▸ List.mem_cons_self))

/-- What is left of a record when it has been trimmed. -/
theorem trimEndList_text (r : Record) : (trimEndList r.text.toList).splitOn '\t' =
    (Nat.repr r.pid).toList ::
      if blank r.processName then
        if blank r.title then [] else [trimEndList r.title.toList]
      else [r.title.toList, trimEndList r.processName.toList] := by
  have htab : '\t' ∉ (Nat.repr r.pid).toList := notMem_repr rfl r.pid
  have htitle : '\t' ∉ r.title.toList := fun h => (r.title_plain _ h).1 rfl
  have hname : '\t' ∉ r.processName.toList := fun h => (r.processName_plain _ h).1 rfl
  have hcut : ∀ {l : List Char}, '\t' ∉ l → '\t' ∉ trimEndList l :=
    fun hl hmem => hl ((trimEndList_isPrefix _).subset hmem)
  have hsplit : ∀ {l : List Char} (rest : List Char), '\t' ∉ l →
      (l ++ '\t' :: rest).splitOn '\t' = l :: rest.splitOn '\t' := by
    intro l rest hl
    rw [List.splitOn_append_cons_self, List.splitOn_eq_singleton hl]
    rfl
  rw [toList_text]
  by_cases hblank : blank r.processName = true
  · -- the second tab goes with the blank name
    have htail : ∀ c ∈ '\t' :: r.processName.toList, isSpace c = true := by
      intro c hc
      rcases List.mem_cons.mp hc with rfl | hmem
      · decide
      · exact blank_iff.mp hblank c hmem
    rw [if_pos hblank, ← List.cons_append, ← List.append_assoc, trimEndList_append htail]
    by_cases hblank' : blank r.title = true
    · have htail' : ∀ c ∈ '\t' :: r.title.toList, isSpace c = true := by
        intro c hc
        rcases List.mem_cons.mp hc with rfl | hmem
        · decide
        · exact blank_iff.mp hblank' c hmem
      rw [if_pos hblank', trimEndList_append htail', trimEndList_eq_self fun c hc => getLast?_repr hc,
        List.splitOn_eq_singleton htab]
    · obtain ⟨c, hc, hspace⟩ := exists_of_not_blank hblank'
      have hcons : (Nat.repr r.pid).toList ++ '\t' :: r.title.toList =
          ((Nat.repr r.pid).toList ++ ['\t']) ++ r.title.toList := by simp
      rw [if_neg hblank', hcons, trimEndList_append_of_mem hc hspace, List.append_assoc,
        List.singleton_append, hsplit _ htab, List.splitOn_eq_singleton (hcut htitle)]
  · obtain ⟨c, hc, hspace⟩ := exists_of_not_blank hblank
    have hcons : (Nat.repr r.pid).toList ++ '\t' :: (r.title.toList ++ '\t' :: r.processName.toList) =
        ((Nat.repr r.pid).toList ++ '\t' :: (r.title.toList ++ ['\t'])) ++ r.processName.toList := by
      simp
    have hback : ∀ l : List Char, ((Nat.repr r.pid).toList ++ '\t' :: (r.title.toList ++ ['\t'])) ++ l =
        (Nat.repr r.pid).toList ++ '\t' :: (r.title.toList ++ '\t' :: l) := by simp
    rw [if_neg hblank, hcons, trimEndList_append_of_mem hc hspace, hback, hsplit _ htab,
      hsplit _ htitle, List.splitOn_eq_singleton (hcut hname)]

theorem ofList_trimEndList (s : String) : String.ofList (trimEndList s.toList) = trimEnd s := rfl

theorem trimEnd_ne_empty {s : String} (h : ¬ blank s = true) : trimEnd s ≠ "" := by
  intro hempty
  obtain ⟨c, hc, hspace⟩ := exists_of_not_blank h
  have hnil : trimEndList s.toList = [] := by
    rw [← String.toList_ofList (l := trimEndList s.toList), ofList_trimEndList, hempty]
    rfl
  have hdrop : s.toList.reverse.dropWhile isSpace = [] := by
    rw [← List.reverse_eq_nil_iff]
    exact hnil
  have hall := List.dropWhile_eq_nil_iff.mp hdrop c (List.mem_reverse.mpr hc)
  exact absurd hall (by simp [hspace])

/-- What the parser makes of a line of the script. -/
theorem parseForegroundLine_text (r : Record) (ending : LineEnding) :
    parseForegroundLine (r.text ++ ending.mark) = r.decoded := by
  have htrim : (trim (replaceAll "\r" "" (r.text ++ ending.mark))).toList =
      trimEndList r.text.toList := by
    rw [replaceAll_return, trim_text]
  have hparts := trimEndList_text r
  rw [← htrim] at hparts
  rw [parseForegroundLine_parts r.pid_pos r.pid_lt hparts, Record.decoded]
  by_cases hblank : blank r.processName = true
  · rw [if_pos hblank, if_pos hblank]
    by_cases hblank' : blank r.title = true
    · rw [if_pos hblank', if_pos hblank', if_pos rfl]
    · rw [if_neg hblank', if_neg hblank', if_neg (List.cons_ne_nil _ _)]
      rfl
  · rw [if_neg hblank, if_neg hblank, if_neg (List.cons_ne_nil _ _)]
    simp only [List.map_cons, List.map_nil, List.getD_cons_zero, List.getD_cons_succ,
      ofList_trimEndList, String.ofList_toList, if_neg (trimEnd_ne_empty hblank)]

/-- The calls for the output of the script, however it is cut. -/
theorem feed_printed (records : List (Record × LineEnding)) {data : List String}
    (h : String.join data = printed records) :
    feed [] data = records.filterMap fun p => p.1.decoded := by
  have hparse : (parseForegroundLine ∘ fun p : Record × LineEnding => p.1.text ++ p.2.mark) =
      fun p => p.1.decoded := by
    funext p
    rw [Function.comp_apply, parseForegroundLine_text]
  rw [feed_lines (by simp) data, String.join_nil, String.empty_append, h, split_printed,
    List.dropLast_concat, List.filterMap_map, hparse]

/-! ### Exact decoding -/

/-- The record as it should be reported: with an empty process name the title
stands at the end of its line. -/
def Record.reported (r : Record) : ForegroundInfo where
  pid := Number.ofInt r.pid
  title := if r.processName = "" then trimEnd r.title else r.title
  processName := if r.processName = "" then none else some r.processName

/-- The process name ends with no white space, and if it is empty the title is
not blank. -/
structure Record.Kept (r : Record) : Prop where
  name : trimEnd r.processName = r.processName
  title : r.processName = "" → blank r.title = false

theorem blank_empty : blank "" = true := rfl

theorem decoded_eq_reported_iff (r : Record) : r.decoded = some r.reported ↔ r.Kept := by
  rw [Record.decoded, Record.reported]
  by_cases hempty : r.processName = ""
  · have htrim : trimEnd r.processName = r.processName := by
      rw [hempty]
      rfl
    rw [if_pos hempty, if_pos hempty, if_pos (hempty ▸ blank_empty)]
    constructor
    · intro h
      refine ⟨htrim, fun _ => ?_⟩
      by_contra hblank
      rw [if_pos (by simpa using hblank)] at h
      cases h
    · intro h
      rw [if_neg (by simp [h.title hempty])]
  · rw [if_neg hempty, if_neg hempty]
    by_cases hblank : blank r.processName = true
    · rw [if_pos hblank]
      apply iff_of_false
      · intro h
        split at h
        · exact absurd h (Option.some_ne_none _).symm
        · exact absurd (congrArg ForegroundInfo.processName (Option.some.inj h)).symm
            (Option.some_ne_none _)
      · -- a blank name is trimmed to nothing
        intro h
        have hnil : trimEndList r.processName.toList = [] :=
          trimEndList_append (l := []) (blank_iff.mp hblank)
        have hname := h.name
        rw [← ofList_trimEndList, hnil] at hname
        exact hempty hname.symm
    · rw [if_neg hblank, Option.some_inj, ForegroundInfo.mk.injEq, Option.some_inj]
      constructor
      · exact fun h => ⟨h.2.2, fun h' => absurd h' hempty⟩
      · exact fun h => ⟨rfl, rfl, h.name⟩

/-- Dropping nothing is the only way to get everything. -/
theorem filterMap_eq_map_iff {α β : Type} {f : α → Option β} {g : α → β} {l : List α} :
    l.filterMap f = l.map g ↔ ∀ a ∈ l, f a = some (g a) := by
  induction l with
  | nil => simp
  | cons a l ih =>
      rw [List.map_cons, List.forall_mem_cons]
      cases h : f a with
      | none =>
          rw [List.filterMap_cons_none h]
          apply iff_of_false
          · intro heq
            have hlength := congrArg List.length heq
            have hle := List.length_filterMap_le f l
            rw [List.length_cons, List.length_map] at hlength
            omega
          · exact fun hall => Option.some_ne_none _ hall.1.symm
      | some b =>
          rw [List.filterMap_cons_some h, List.cons.injEq, ih, Option.some_inj]

/-- **The feed is decoded exactly, if and only if every record is kept**:
whatever the chunks, the calls are the records in their order. -/
theorem feed_exact_iff (records : List (Record × LineEnding)) (data : List String)
    (h : String.join data = printed records) :
    feed [] data = records.map (fun p => p.1.reported) ↔ ∀ p ∈ records, p.1.Kept := by
  rw [feed_printed records h, filterMap_eq_map_iff]
  simp only [decoded_eq_reported_iff]

def game : Record where
  pid := 4242
  title := "AION2"
  processName := "AION2"
  pid_pos := by decide
  pid_lt := by decide
  title_plain := by simp
  processName_plain := by simp

/-- A cut in the title, and one in the line end. -/
theorem feed_exact_game :
    feed [] ["4242\tAI", "ON2\tAION2\r", "\n"] = [game.reported] := by
  apply (feed_exact_iff [(game, .crlf)] _ rfl).mpr
  intro p hp
  rw [List.mem_singleton.mp hp]
  exact ⟨rfl, fun h => absurd h (by decide)⟩

/-- A window without a title, of a process whose name is not known. -/
def untitled : Record where
  pid := 4
  title := ""
  processName := ""
  pid_pos := by decide
  pid_lt := by decide
  title_plain := by simp
  processName_plain := by simp

/-- Its line is trimmed to the number alone, and the record is dropped. -/
theorem feed_untitled : feed [] [printed [(untitled, .lf)]] ≠ [untitled.reported] := by
  have hjoin : String.join [printed [(untitled, .lf)]] = printed [(untitled, .lf)] := by simp
  rw [feed_printed _ hjoin]
  exact List.cons_ne_nil _ _ ∘ Eq.symm

end Hub.Overlay
