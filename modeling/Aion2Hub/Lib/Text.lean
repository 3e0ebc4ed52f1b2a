/-
Aion2Hub/Lib/Text.lean

Replacing in texts and splitting them into lines.

`replaceAll` is the replacement of every occurrence of a text, from the left
and without overlaps.  `LinesOf` says which lines a text consists of, each
ended by a newline; a text that ends with one has exactly one such list of
lines (`exists_linesOf`, `LinesOf.unique`), and splitting finds it
(`split_of_linesOf`).  A text that passes through C is cut at its first U+0000
(`cut`); one without (`Plain`) is not.
-/
import Aion2Hub.Lib.Js
import Mathlib.Data.List.TakeWhile

namespace Text

/-! ### Replacing -/

/-- The loop of `replaceAll` on characters; the number counts the characters
of a match that are still to be skipped. -/
def replaceChars (pattern replacement : List Char) : ℕ → List Char → List Char
  | _, [] => []
  | k + 1, _ :: l => replaceChars pattern replacement k l
  | 0, c :: l =>
      if pattern.isPrefixOf (c :: l) then
        replacement ++ replaceChars pattern replacement (pattern.length - 1) l
      else c :: replaceChars pattern replacement 0 l

/-- `s.replaceAll(pattern, replacement)` for a pattern that is not empty. -/
def replaceAll (pattern replacement s : String) : String :=
  String.ofList (replaceChars pattern.toList replacement.toList 0 s.toList)

/-- A single character is replaced wherever it is. -/
theorem replaceChars_singleton (c : Char) (r l : List Char) :
    replaceChars [c] r 0 l = l.flatMap fun d => if c = d then r else [d] := by
  induction l with
  | nil => rfl
  | cons d l ih =>
      have hprefix : [c].isPrefixOf (d :: l) = (c == d) := by simp [List.isPrefixOf]
      rw [replaceChars, hprefix, List.flatMap_cons, List.length_singleton, ih]
      by_cases h : c = d
      · simp [h]
      · simp [h]

/-- A character that is replaced by another one. -/
theorem replaceChars_map (c r : Char) (l : List Char) :
    replaceChars [c] [r] 0 l = l.map fun d => if c = d then r else d := by
  rw [replaceChars_singleton]
  induction l with
  | nil => rfl
  | cons d l ih =>
      rw [List.flatMap_cons, ih, List.map_cons]
      by_cases h : c = d
      · simp [h]
      · simp [h]

/-- Nothing is replaced where the first character of the pattern does not
occur. -/
theorem replaceChars_of_notMem {c : Char} {p r l : List Char} (h : c ∉ l) :
    replaceChars (c :: p) r 0 l = l := by
  induction l with
  | nil => rfl
  | cons d l ih =>
      have hne : c ≠ d := fun heq => h (heq ▸ List.mem_cons_self)
      have hprefix : (c :: p).isPrefixOf (d :: l) = false := by simp [List.isPrefixOf, hne]
      rw [replaceChars, hprefix, if_neg (by simp), ih fun hc => h (List.mem_cons_of_mem d hc)]

/-! ### Newlines -/

/-- `value.replaceAll("\r\n", "\n").replaceAll("\r", "\n")`. -/
def normalizeNewlines (value : String) : String :=
  replaceAll "\r" "\n" (replaceAll "\r\n" "\n" value)

theorem notMem_normalizeNewlines (value : String) : '\r' ∉ (normalizeNewlines value).toList := by
  intro h
  rw [normalizeNewlines, replaceAll, String.toList_ofList] at h
  rw [show "\r".toList = ['\r'] from rfl, replaceChars_singleton] at h
  obtain ⟨c, -, hc⟩ := List.mem_flatMap.mp h
  split at hc
  · exact absurd hc (by decide)
  · rename_i hne
    exact hne (List.mem_singleton.mp hc)

theorem normalizeNewlines_of_notMem {value : String} (h : '\r' ∉ value.toList) :
    normalizeNewlines value = value := by
  have hpair : replaceAll "\r\n" "\n" value = value := by
    rw [replaceAll, show "\r\n".toList = ['\r', '\n'] from rfl, replaceChars_of_notMem h,
      String.ofList_toList]
  rw [normalizeNewlines, hpair, replaceAll, show "\r".toList = ['\r'] from rfl,
    replaceChars_of_notMem h, String.ofList_toList]

/-! ### Lines -/

/-- The lines, each ended by a newline. -/
def joinLines (lines : List String) : List Char := lines.flatMap fun l => l.toList ++ ['\n']

theorem joinLines_append (lines lines' : List String) :
    joinLines (lines ++ lines') = joinLines lines ++ joinLines lines' :=
  List.flatMap_append

/-- The text consists of these lines. -/
structure LinesOf (text : List Char) (lines : List String) : Prop where
  join : joinLines lines = text
  line : ∀ l ∈ lines, '\n' ∉ l.toList

theorem LinesOf.append {text text' : List Char} {lines lines' : List String}
    (h : LinesOf text lines) (h' : LinesOf text' lines') :
    LinesOf (text ++ text') (lines ++ lines') := by
  refine ⟨by rw [joinLines_append, h.join, h'.join], fun l hl => ?_⟩
  rcases List.mem_append.mp hl with hl | hl
  · exact h.line l hl
  · exact h'.line l hl

/-- `s.split("\n")`. -/
def split (s : String) : List String := (s.toList.splitOn '\n').map String.ofList

theorem splitOn_joinLines {lines : List String} (h : ∀ l ∈ lines, '\n' ∉ l.toList) :
    (joinLines lines).splitOn '\n' = lines.map String.toList ++ [[]] := by
  induction lines with
  | nil => rfl
  | cons l lines ih =>
      have hl : '\n' ∉ l.toList := h l List.mem_cons_self
      have hcons : joinLines (l :: lines) = l.toList ++ '\n' :: joinLines lines := by
        simp [joinLines]
      rw [hcons, List.splitOn_append_cons_self, List.splitOn_eq_singleton hl,
        ih fun l' hl' => h l' (List.mem_cons_of_mem l hl')]
      rfl

/-- Splitting finds the lines, and an empty text after the last newline. -/
theorem split_of_linesOf {s : String} {lines : List String} (h : LinesOf s.toList lines) :
    split s = lines ++ [""] := by
  rw [split, ← h.join, splitOn_joinLines h.line, List.map_append, List.map_map]
  have hid : lines.map (String.ofList ∘ String.toList) = lines := by
    simp [Function.comp_def, String.ofList_toList]
  rw [hid]
  rfl

theorem LinesOf.unique {text : List Char} {lines lines' : List String} (h : LinesOf text lines)
    (h' : LinesOf text lines') : lines = lines' := by
  have hs : LinesOf (String.ofList text).toList lines := by rwa [String.toList_ofList]
  have hs' : LinesOf (String.ofList text).toList lines' := by rwa [String.toList_ofList]
  exact List.append_cancel_right ((split_of_linesOf hs).symm.trans (split_of_linesOf hs'))

/-- Every text is made of lines and of a rest without a newline. -/
theorem exists_lines (text : List Char) :
    ∃ lines rest, (∀ l ∈ lines, '\n' ∉ String.toList l) ∧ '\n' ∉ rest ∧
      joinLines lines ++ rest = text := by
  induction text with
  | nil => exact ⟨[], [], by simp, by simp, rfl⟩
  | cons c text ih =>
      obtain ⟨lines, rest, hlines, hrest, heq⟩ := ih
      by_cases hc : c = '\n'
      · refine ⟨"" :: lines, rest, ?_, hrest, ?_⟩
        · simpa using hlines
        · simp [joinLines, hc, ← heq]
      · cases lines with
        | nil => exact ⟨[], c :: rest, by simp, by simp [Ne.symm hc, hrest], by simpa [joinLines] using heq⟩
        | cons l lines =>
            refine ⟨String.ofList (c :: l.toList) :: lines, rest, ?_, hrest, ?_⟩
            · intro l' hl'
              rcases List.mem_cons.mp hl' with rfl | hl'
              · rw [String.toList_ofList]
                simpa [Ne.symm hc] using hlines l List.mem_cons_self
              · exact hlines l' (List.mem_cons_of_mem l hl')
            · simp [joinLines, ← heq]

/-- A text that ends with a newline consists of lines. -/
theorem exists_linesOf {text : List Char} (h : text.getLast? = some '\n') :
    ∃ lines, LinesOf text lines := by
  obtain ⟨lines, rest, hlines, hrest, rfl⟩ := exists_lines text
  cases rest using List.reverseRecOn with
  | nil => exact ⟨lines, (List.append_nil _).symm, hlines⟩
  | append_singleton rest c =>
      rw [← List.append_assoc, List.getLast?_append] at h
      obtain rfl : c = '\n' := by simpa using h
      simp at hrest

/-! ### C strings -/

/-- What is left of a text that is handed over as a C string: the part before
its first U+0000. -/
def cut (s : String) : String := String.ofList (s.toList.takeWhile (· != '\x00'))

/-- The text holds no U+0000. -/
def Plain (s : String) : Prop := '\x00' ∉ s.toList

instance : DecidablePred Plain := fun s => inferInstanceAs (Decidable ('\x00' ∉ s.toList))

theorem plain_cut (s : String) : Plain (cut s) := by
  intro h
  rw [cut, String.toList_ofList] at h
  exact absurd (List.mem_takeWhile_imp h) (by decide)

theorem Plain.cut {s : String} (h : Plain s) : cut s = s := by
  have hall : ∀ c ∈ s.toList, (c != '\x00') = true := fun c hc =>
    bne_iff_ne.mpr fun heq => h (heq ▸ hc)
  rw [Text.cut, List.takeWhile_eq_self_iff.mpr hall, String.ofList_toList]

theorem cut_eq_self_iff {s : String} : cut s = s ↔ Plain s :=
  ⟨fun h => h ▸ plain_cut s, Plain.cut⟩

theorem plain_append {s t : String} : Plain (s ++ t) ↔ Plain s ∧ Plain t := by
  simp [Plain, String.toList_append]

/-- A text is trimmed by taking characters away. -/
theorem Plain.trim {s : String} (h : Plain s) : Plain (trim s) := by
  intro hmem
  rw [Text.trim, String.toList_ofList, trimList] at hmem
  have hstart := (List.dropWhile_suffix _).subset (List.mem_reverse.mp hmem)
  exact h ((List.dropWhile_suffix _).subset (List.mem_reverse.mp hstart))

@[simp] theorem cut_cut (s : String) : cut (cut s) = cut s := (plain_cut s).cut

end Text
