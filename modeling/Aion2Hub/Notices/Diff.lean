/-
Aion2Hub/Notices/Diff.lean

`notices/diff.ts` of the desktop and of the worker (the two files are the
same): a line diff as blocks of lines.

`diffLines` comes from a package, so it is a parameter; `DiffsLines` says what
is relied on.  Every change carries whole lines, so splitting it gives back
these lines, and the loop puts them into blocks without losing or inventing
one (`rebuilds_buildLineDiffJson`).
-/
import Aion2Hub.Lib.Spacing

namespace Hub

open Text

/-! ### The diff -/

inductive DiffType where
  | same
  | added
  | removed
  deriving DecidableEq

structure NoticeLineDiffBlock where
  type : DiffType
  lines : List String
  deriving DecidableEq

/-- A change of the diff package. -/
structure Change where
  value : String
  added : Bool
  removed : Bool
  deriving DecidableEq

/-- The parts between newlines, without the empty one at the end. -/
def splitLines (value : String) : List String :=
  let parts := split (normalizeNewlines value)
  if parts.getLast? = some "" then parts.dropLast else parts

def ensureTrailingNewline (value : String) : String :=
  let normalized := normalizeNewlines value
  if normalized.toList.getLast? = some '\n' then normalized else normalized ++ "\n"

/-- `change.added ? "added" : change.removed ? "removed" : "same"`. -/
def Change.type (change : Change) : DiffType :=
  if change.added then .added else if change.removed then .removed else .same

/-- Lines are put into the last block if it has their type. -/
def pushLines (blocks : List NoticeLineDiffBlock) (type : DiffType) (lines : List String) :
    List NoticeLineDiffBlock :=
  match blocks.getLast? with
  | some last =>
      if last.type = type then blocks.dropLast ++ [{ last with lines := last.lines ++ lines }]
      else blocks ++ [⟨type, lines⟩]
  | none => blocks ++ [⟨type, lines⟩]

/-- One round of the loop over the changes. -/
def pushChange (blocks : List NoticeLineDiffBlock) (change : Change) : List NoticeLineDiffBlock :=
  let lines := splitLines change.value
  if lines.length = 0 then blocks else pushLines blocks change.type lines

def buildLineDiffJson (diffLines : String → String → List Change) (fromText toText : String) :
    List NoticeLineDiffBlock :=
  (diffLines (ensureTrailingNewline fromText) (ensureTrailingNewline toText)).foldl pushChange []

/-! ### What is relied on, and what is wanted -/

/-- The text ends with a newline. -/
def Terminated (s : String) : Prop := s.toList.getLast? = some '\n'

/-- What the package promises for texts that end with a newline. -/
structure DiffsLines (diffLines : String → String → List Change) : Prop where
  whole : ∀ a b, Terminated a → Terminated b → ∀ change ∈ diffLines a b,
    ∃ lines, LinesOf change.value.toList lines
  exclusive : ∀ a b, Terminated a → Terminated b → ∀ change ∈ diffLines a b,
    ¬ (change.added = true ∧ change.removed = true)
  old : ∀ a b, Terminated a → Terminated b →
    ((diffLines a b).filter (!·.added)).flatMap (·.value.toList) = a.toList
  new : ∀ a b, Terminated a → Terminated b →
    ((diffLines a b).filter (!·.removed)).flatMap (·.value.toList) = b.toList
  unchanged : ∀ a, Terminated a → diffLines a a = [⟨a, false, false⟩]

/-- The lines of the blocks that are not of a type. -/
def linesWithout (type : DiffType) (blocks : List NoticeLineDiffBlock) : List String :=
  (blocks.filter (·.type ≠ type)).flatMap (·.lines)

/-- The text with Unix newlines, the last line too. -/
def unixLines (text : String) : List Char :=
  let unix := unixNewlines text.toList
  if unix.getLast? = some '\n' then unix else unix ++ ['\n']

/-- The blocks give back the lines of both texts. -/
structure Rebuilds (fromText toText : String) (blocks : List NoticeLineDiffBlock) : Prop where
  old : LinesOf (unixLines fromText) (linesWithout .added blocks)
  new : LinesOf (unixLines toText) (linesWithout .removed blocks)
  nonempty : ∀ b ∈ blocks, b.lines ≠ []
  merged : blocks.IsChain fun b b' => b.type ≠ b'.type
  unchanged : unixLines fromText = unixLines toText → ∀ b ∈ blocks, b.type = .same

/-! ### Texts -/

theorem toList_ensureTrailingNewline (value : String) :
    (ensureTrailingNewline value).toList = unixLines value := by
  unfold ensureTrailingNewline unixLines
  dsimp only
  rw [toList_normalizeNewlines]
  split
  · exact toList_normalizeNewlines value
  · rw [String.toList_append, toList_normalizeNewlines]
    rfl

theorem notMem_ensureTrailingNewline (value : String) :
    '\r' ∉ (ensureTrailingNewline value).toList := by
  unfold ensureTrailingNewline
  dsimp only
  split
  · exact notMem_normalizeNewlines value
  · rw [String.toList_append, List.mem_append]
    rintro (h | h)
    · exact notMem_normalizeNewlines value h
    · exact absurd h (by decide)

theorem terminated_ensureTrailingNewline (value : String) :
    Terminated (ensureTrailingNewline value) := by
  unfold Terminated ensureTrailingNewline
  dsimp only
  split
  · assumption
  · rw [String.toList_append, List.getLast?_append]
    rfl

/-- A change made of lines is split into these lines. -/
theorem splitLines_of_linesOf {value : String} {lines : List String} (h : LinesOf value.toList lines)
    (hcr : '\r' ∉ value.toList) : splitLines value = lines := by
  unfold splitLines
  dsimp only
  rw [normalizeNewlines_of_notMem hcr, split_of_linesOf h, List.getLast?_append]
  show (if some "" = some "" then _ else _) = _
  rw [if_pos rfl, List.dropLast_concat]

/-! ### Blocks -/

theorem pushLines_nil (type : DiffType) (lines : List String) :
    pushLines [] type lines = [⟨type, lines⟩] :=
  rfl

theorem pushLines_concat (init : List NoticeLineDiffBlock) (last : NoticeLineDiffBlock)
    (type : DiffType) (lines : List String) :
    pushLines (init ++ [last]) type lines =
      if last.type = type then init ++ [{ last with lines := last.lines ++ lines }]
      else init ++ [last] ++ [⟨type, lines⟩] := by
  unfold pushLines
  rw [List.getLast?_append, List.dropLast_concat]
  rfl

theorem linesWithout_append (type : DiffType) (blocks blocks' : List NoticeLineDiffBlock) :
    linesWithout type (blocks ++ blocks') =
      linesWithout type blocks ++ linesWithout type blocks' := by
  rw [linesWithout, List.filter_append, List.flatMap_append]
  rfl

theorem linesWithout_singleton (type : DiffType) (b : NoticeLineDiffBlock) :
    linesWithout type [b] = if b.type = type then [] else b.lines := by
  by_cases h : b.type = type <;> simp [linesWithout, h]

/-- The lines go to the end, whether or not there is a block for them. -/
theorem linesWithout_pushLines (type : DiffType) (blocks : List NoticeLineDiffBlock)
    (type' : DiffType) (lines : List String) :
    linesWithout type (pushLines blocks type' lines) =
      linesWithout type blocks ++ if type' = type then [] else lines := by
  cases blocks using List.reverseRecOn with
  | nil => exact linesWithout_singleton type ⟨type', lines⟩
  | append_singleton init last =>
      rw [pushLines_concat]
      split
      · rename_i heq
        rw [linesWithout_append, linesWithout_append, linesWithout_singleton,
          linesWithout_singleton, heq]
        split <;> simp
      · rw [linesWithout_append, linesWithout_singleton]

/-- Blocks that are not empty and do not repeat the type of the one before. -/
structure Alternating (blocks : List NoticeLineDiffBlock) : Prop where
  nonempty : ∀ b ∈ blocks, b.lines ≠ []
  merged : blocks.IsChain fun b b' => b.type ≠ b'.type

theorem Alternating.pushLines {blocks : List NoticeLineDiffBlock} (h : Alternating blocks)
    {type : DiffType} {lines : List String} (hlines : lines ≠ []) :
    Alternating (pushLines blocks type lines) := by
  cases blocks using List.reverseRecOn with
  | nil => exact ⟨by simpa [pushLines_nil] using hlines, List.isChain_singleton _⟩
  | append_singleton init last =>
      rw [pushLines_concat]
      split
      · -- the last block grows and keeps its type
        refine ⟨fun b hb => ?_, ?_⟩
        · rcases List.mem_append.mp hb with hb | hb
          · exact h.nonempty b (List.mem_append_left _ hb)
          · obtain rfl := List.mem_singleton.mp hb
            simp [hlines]
        · have hchain := h.merged
          rw [List.isChain_append] at hchain ⊢
          refine ⟨hchain.1, List.isChain_singleton _, fun x hx y hy => ?_⟩
          obtain rfl : _ = y := by simpa using hy
          exact hchain.2.2 x hx last rfl
      · rename_i hne
        refine ⟨fun b hb => ?_, ?_⟩
        · rcases List.mem_append.mp hb with hb | hb
          · exact h.nonempty b hb
          · obtain rfl := List.mem_singleton.mp hb
            exact hlines
        · rw [List.isChain_append]
          refine ⟨h.merged, List.isChain_singleton _, fun x hx y hy => ?_⟩
          obtain rfl : _ = y := by simpa using hy
          obtain rfl : last = x := by simpa using hx
          exact hne

/-! ### The loop -/

/-- What the loop makes of changes whose lines are known. -/
theorem foldl_pushChange {changes : List Change} {blocks : List NoticeLineDiffBlock}
    (h : Alternating blocks) :
    Alternating (changes.foldl pushChange blocks) ∧
      ∀ type, linesWithout type (changes.foldl pushChange blocks) =
        linesWithout type blocks ++
          (changes.filter (·.type ≠ type)).flatMap fun c => splitLines c.value := by
  induction changes generalizing blocks with
  | nil => exact ⟨h, fun type => by simp⟩
  | cons change changes ih =>
      have hone : Alternating (pushChange blocks change) ∧
          ∀ type, linesWithout type (pushChange blocks change) = linesWithout type blocks ++
            if change.type = type then [] else splitLines change.value := by
        unfold pushChange
        dsimp only
        split
        · rename_i hlen
          refine ⟨h, fun type => ?_⟩
          rw [List.length_eq_zero_iff.mp hlen]
          simp
        · rename_i hlen
          refine ⟨h.pushLines fun hnil => hlen (by rw [hnil]; rfl), fun type => ?_⟩
          exact linesWithout_pushLines type blocks change.type (splitLines change.value)
      rw [List.foldl_cons]
      obtain ⟨hwell, hlines⟩ := ih hone.1
      refine ⟨hwell, fun type => ?_⟩
      rw [hlines, hone.2, List.append_assoc]
      by_cases htype : change.type = type <;> simp [htype]

/-- Changes made of lines, of which those of one type are left out. -/
theorem linesOf_changes {changes : List Change}
    (hlines : ∀ c ∈ changes, LinesOf c.value.toList (splitLines c.value)) (p : Change → Bool) :
    LinesOf ((changes.filter p).flatMap (·.value.toList))
      ((changes.filter p).flatMap fun c => splitLines c.value) := by
  induction changes with
  | nil => exact ⟨rfl, by simp⟩
  | cons c changes ih =>
      have hrest := ih fun d hd => hlines d (List.mem_cons_of_mem c hd)
      by_cases hp : p c = true
      · rw [List.filter_cons_of_pos hp, List.flatMap_cons, List.flatMap_cons]
        exact (hlines c List.mem_cons_self).append hrest
      · rwa [List.filter_cons_of_neg hp]

/-- **The blocks rebuild both texts.** -/
theorem rebuilds_buildLineDiffJson {diffLines : String → String → List Change}
    (h : DiffsLines diffLines) (fromText toText : String) :
    Rebuilds fromText toText (buildLineDiffJson diffLines fromText toText) := by
  let a := ensureTrailingNewline fromText
  let b := ensureTrailingNewline toText
  have ha : Terminated a := terminated_ensureTrailingNewline fromText
  have hb : Terminated b := terminated_ensureTrailingNewline toText
  have hold := h.old a b ha hb
  have hnew := h.new a b ha hb
  -- every change is a part of one of the texts
  have hcr : ∀ c ∈ diffLines a b, '\r' ∉ c.value.toList := by
    intro c hc hmem
    by_cases hadded : c.added = true
    · have hremoved : c.removed = false := by
        simpa using fun hr => h.exclusive a b ha hb c hc ⟨hadded, hr⟩
      refine notMem_ensureTrailingNewline toText (hnew ▸ ?_)
      exact List.mem_flatMap.mpr ⟨c, List.mem_filter.mpr ⟨hc, by simp [hremoved]⟩, hmem⟩
    · refine notMem_ensureTrailingNewline fromText (hold ▸ ?_)
      exact List.mem_flatMap.mpr ⟨c, List.mem_filter.mpr ⟨hc, by simpa using hadded⟩, hmem⟩
  have hlines : ∀ c ∈ diffLines a b, LinesOf c.value.toList (splitLines c.value) := by
    intro c hc
    obtain ⟨lines, hl⟩ := h.whole a b ha hb c hc
    rwa [splitLines_of_linesOf hl (hcr c hc)]
  have hnotAdded : ∀ c ∈ diffLines a b, decide (c.type ≠ .added) = !c.added := by
    intro c _
    unfold Change.type
    cases c.added <;> cases c.removed <;> rfl
  have hnotRemoved : ∀ c ∈ diffLines a b, decide (c.type ≠ .removed) = !c.removed := by
    intro c hc
    have hex := h.exclusive a b ha hb c hc
    unfold Change.type
    cases hadded : c.added <;> cases hremoved : c.removed <;> simp_all
  have hempty : Alternating [] := ⟨by simp, List.isChain_nil⟩
  obtain ⟨hwell, hwithout⟩ := @foldl_pushChange (diffLines a b) [] hempty
  refine ⟨?_, ?_, hwell.nonempty, hwell.merged, fun heq => ?_⟩
  · have hlist := linesOf_changes hlines (!·.added)
    rw [hold] at hlist
    rw [← toList_ensureTrailingNewline]
    show LinesOf a.toList (linesWithout .added ((diffLines a b).foldl pushChange []))
    rw [hwithout .added, List.filter_congr hnotAdded]
    exact hlist
  · have hlist := linesOf_changes hlines (!·.removed)
    rw [hnew] at hlist
    rw [← toList_ensureTrailingNewline]
    show LinesOf b.toList (linesWithout .removed ((diffLines a b).foldl pushChange []))
    rw [hwithout .removed, List.filter_congr hnotRemoved]
    exact hlist
  · -- a single change, which is not marked
    have hsame : a = b := by
      apply String.toList_inj.mp
      rw [toList_ensureTrailingNewline, toList_ensureTrailingNewline]
      exact heq
    have hsingle : diffLines a b = [⟨a, false, false⟩] := by
      rw [← hsame]
      exact h.unchanged a ha
    intro block hblock
    have hblocks : block ∈ pushChange [] ⟨a, false, false⟩ := by
      have hmem : block ∈ (diffLines a b).foldl pushChange [] := hblock
      rwa [hsingle, List.foldl_cons, List.foldl_nil] at hmem
    unfold pushChange at hblocks
    generalize splitLines a = lines at hblocks
    dsimp only at hblocks
    split at hblocks
    · cases hblocks
    · obtain rfl := List.mem_singleton.mp hblocks
      rfl

/-- What the package returns for one pair of texts; for others, all of the
old text and all of the new one. -/
def oneLineDiff (a b : String) : List Change :=
  if a = b then [⟨a, false, false⟩]
  else if a = "a\nb\nc\n" ∧ b = "a\nb2\nc\n" then
    [⟨"a\n", false, false⟩, ⟨"b\n", false, true⟩, ⟨"b2\n", true, false⟩, ⟨"c\n", false, false⟩]
  else [⟨a, false, true⟩, ⟨b, true, false⟩]

theorem diffsLines_oneLineDiff : DiffsLines oneLineDiff := by
  have hcases : ∀ a b, Terminated a → Terminated b →
      (∀ c ∈ oneLineDiff a b, Terminated c.value ∧ ¬ (c.added = true ∧ c.removed = true)) ∧
        ((oneLineDiff a b).filter (!·.added)).flatMap (·.value.toList) = a.toList ∧
        ((oneLineDiff a b).filter (!·.removed)).flatMap (·.value.toList) = b.toList := by
    intro a b ha hb
    unfold oneLineDiff
    split
    · rename_i heq
      subst heq
      simp [ha]
    · split
      · rename_i heq
        obtain ⟨rfl, rfl⟩ := heq
        refine ⟨fun c hc => ?_, rfl, rfl⟩
        simp only [List.mem_cons, List.not_mem_nil, or_false] at hc
        rcases hc with rfl | rfl | rfl | rfl <;> exact ⟨rfl, by decide⟩
      · simp [ha, hb]
  refine ⟨fun a b ha hb c hc => ?_, fun a b ha hb c hc => ?_, fun a b ha hb => ?_,
    fun a b ha hb => ?_, fun a ha => if_pos rfl⟩
  · exact exists_linesOf ((hcases a b ha hb).1 c hc).1
  · exact ((hcases a b ha hb).1 c hc).2
  · exact (hcases a b ha hb).2.1
  · exact (hcases a b ha hb).2.2

theorem rebuilds_oneLineDiff :
    Rebuilds "a\nb\nc" "a\r\nb2\r\nc" (buildLineDiffJson oneLineDiff "a\nb\nc" "a\r\nb2\r\nc") :=
  rebuilds_buildLineDiffJson diffsLines_oneLineDiff _ _

end Hub
