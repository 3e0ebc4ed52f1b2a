/-
Aion2Hub/Notices/Archive.lean

What is kept of a notice: its snapshots, one for each text that has ever been
fetched, and its diffs, one for each change that has been noticed.

Both programs that sync notices store an article in the same way, in tables of
their own.  An `ArticleView` is what such tables hold of one article, with
times of any kind, and `ArticleView.fetch` is what a fetch makes of it.  The
snapshots and diffs are a record of the texts in the sense of `Lib/Sightings`
(`Archived.fetch`); so which diff is shown as the latest can be read off the
texts that were fetched (`Archived.follows_iff`).
-/
import Mathlib.Order.Defs.LinearOrder
import Aion2Hub.Lib.Aligned
import Aion2Hub.Lib.Js
import Aion2Hub.Lib.Sightings

namespace Hub

/-! ### Articles -/

structure SnapshotView (τ : Type) where
  id : String
  fetchedAt : τ
  contentHash : String
  normalizedText : String

structure DiffView (τ : Type) where
  fromSnapshotId : String
  toSnapshotId : String
  diffJson : Js
  createdAt : τ

/-- The snapshots and diffs of an article, in the order of insertion. -/
structure Archive (τ : Type) where
  snapshots : List (SnapshotView τ)
  diffs : List (DiffView τ)

/-- What is stored of an article. -/
structure ArticleView (τ : Type) where
  url : String
  title : String
  publishedAt : Option String
  archive : Archive τ

/-- What a fetched article says, with its text as it is stored. -/
structure Content where
  url : String
  title : String
  publishedAt : Option String
  text : String

/-- What is drawn to store a fetched article. -/
structure Marks (τ : Type) where
  snapshotId : String
  fetchedAt : τ
  diffedAt : τ

section

variable {τ : Type}

def Archive.empty : Archive τ := ⟨[], []⟩

def Archive.latestSnapshot (a : Archive τ) : Option (SnapshotView τ) := a.snapshots.getLast?

def Archive.latestDiff (a : Archive τ) : Option (DiffView τ) := a.diffs.getLast?

def Archive.withHash (a : Archive τ) (contentHash : String) : Option (SnapshotView τ) :=
  a.snapshots.find? fun s => s.contentHash == contentHash

/-- The id of the snapshot with this hash, which may be a new one. -/
def Archive.snapshotId (a : Archive τ) (contentHash newId : String) : String :=
  ((a.withHash contentHash).map (·.id)).getD newId

/-- A text is stored once. -/
def Archive.addSnapshot (a : Archive τ) (contentHash text : String) (marks : Marks τ) :
    List (SnapshotView τ) :=
  match a.withHash contentHash with
  | some _ => a.snapshots
  | none => a.snapshots ++ [⟨marks.snapshotId, marks.fetchedAt, contentHash, text⟩]

/-- The diff is from the one snapshot to the other. -/
def DiffView.joins (fromId toId : String) (d : DiffView τ) : Bool :=
  d.fromSnapshotId == fromId && d.toSnapshotId == toId

/-- A diff between two snapshots is stored once; its lines are replaced. -/
def addDiff (diffs : List (DiffView τ)) (fromId toId : String) (json : Js) (createdAt : τ) :
    List (DiffView τ) :=
  if diffs.any (DiffView.joins fromId toId) then
    diffs.map fun d => if d.joins fromId toId then { d with diffJson := json } else d
  else diffs ++ [⟨fromId, toId, json, createdAt⟩]

/-- A change is noticed if the latest snapshot has another text. -/
def noticeChange (hash : String → String) (json : String → String → Js)
    (before : Option (SnapshotView τ)) (diffs : List (DiffView τ)) (text toId : String)
    (diffedAt : τ) : List (DiffView τ) :=
  match before with
  | none => diffs
  | some before =>
      if before.contentHash = hash text then diffs
      else if before.id = toId then diffs
      else addDiff diffs before.id toId (json before.normalizedText text) diffedAt

/-- A text is fetched. -/
def Archive.add (hash : String → String) (json : String → String → Js) (a : Archive τ)
    (text : String) (marks : Marks τ) : Archive τ where
  snapshots := a.addSnapshot (hash text) text marks
  diffs := noticeChange hash json a.latestSnapshot a.diffs text
    (a.snapshotId (hash text) marks.snapshotId) marks.diffedAt

/-- The article after a fetch. -/
def ArticleView.fetch (hash : String → String) (json : String → String → Js)
    (v : Option (ArticleView τ)) (c : Content) (marks : Marks τ) : ArticleView τ where
  url := c.url
  title := c.title
  publishedAt := c.publishedAt
  archive := ((v.map (·.archive)).getD Archive.empty).add hash json c.text marks

end

/-! ### Records -/

section

variable {τ : Type} [LinearOrder τ] {hash : String → String} {json : String → String → Js}
variable {a : Archive τ} {texts : List String} {text : String} {marks : Marks τ}

/-- A diff is that of a change. -/
def DiffOf (json : String → String → Js) (snapshots : List (SnapshotView τ)) (d : DiffView τ)
    (p : String × String) : Prop :=
  (∃ s ∈ snapshots, s.id = d.fromSnapshotId ∧ s.normalizedText = p.1) ∧
    (∃ s ∈ snapshots, s.id = d.toSnapshotId ∧ s.normalizedText = p.2) ∧ d.diffJson = json p.1 p.2

/-- The snapshots are those of the texts, in the order of their times. -/
structure KeptSnapshots (hash : String → String) (snapshots : List (SnapshotView τ))
    (texts : List String) : Prop where
  seen : snapshots.map (·.normalizedText) = (Sightings.record texts).seen
  hashes : ∀ s ∈ snapshots, s.contentHash = hash s.normalizedText
  ids : (snapshots.map (·.id)).Nodup
  times : snapshots.Pairwise fun s s' => s.fetchedAt < s'.fetchedAt

/-- The snapshots and diffs are the record of the texts. -/
structure Kept (hash : String → String) (json : String → String → Js) (a : Archive τ)
    (texts : List String) : Prop extends KeptSnapshots hash a.snapshots texts where
  changes : List.Forall₂ (DiffOf json a.snapshots) a.diffs (Sightings.record texts).changes
  diffTimes : a.diffs.Pairwise fun d d' => d.createdAt < d'.createdAt

/-- No two of the texts have the same hash. -/
def HashTells (hash : String → String) (texts : List String) : Prop :=
  ∀ t ∈ texts, ∀ t' ∈ texts, hash t = hash t' → t = t'

theorem kept_empty : Kept hash json (Archive.empty : Archive τ) [] where
  seen := rfl
  hashes := fun _ h => absurd h List.not_mem_nil
  ids := List.nodup_nil
  times := List.Pairwise.nil
  changes := .nil
  diffTimes := List.Pairwise.nil

section

variable {snapshots : List (SnapshotView τ)} {s s' : SnapshotView τ}

theorem KeptSnapshots.mem_seen (h : KeptSnapshots hash snapshots texts) :
    text ∈ texts ↔ ∃ s ∈ snapshots, s.normalizedText = text := by
  rw [← Sightings.mem_seen_record, ← h.seen, List.mem_map]

theorem KeptSnapshots.latest (h : KeptSnapshots hash snapshots texts) :
    snapshots.getLast?.map (·.normalizedText) = (Sightings.record texts).latest := by
  rw [Sightings.latest, ← h.seen, List.getLast?_map]

theorem KeptSnapshots.latestHash (h : KeptSnapshots hash snapshots texts) :
    snapshots.getLast?.map (·.contentHash) = (Sightings.record texts).latest.map hash := by
  rw [← h.latest, Option.map_map]
  cases hlast : snapshots.getLast? with
  | none => rfl
  | some s => exact congrArg some (h.hashes s (List.mem_of_getLast? hlast))

/-- A snapshot is known by its text. -/
theorem KeptSnapshots.eq_of_text (h : KeptSnapshots hash snapshots texts) (hs : s ∈ snapshots)
    (hs' : s' ∈ snapshots) (ht : s.normalizedText = s'.normalizedText) : s = s' := by
  have hnodup : (snapshots.map (·.normalizedText)).Nodup := by
    rw [h.seen]
    exact (Sightings.sound_record texts).seen
  exact List.inj_on_of_nodup_map hnodup hs hs' ht

/-- And by its id. -/
theorem KeptSnapshots.eq_of_id (h : KeptSnapshots hash snapshots texts) (hs : s ∈ snapshots)
    (hs' : s' ∈ snapshots) (hid : s.id = s'.id) : s = s' :=
  List.inj_on_of_nodup_map h.ids hs hs' hid

end

/-- The last diff is that of the last change. -/
theorem Kept.latestDiff (h : Kept hash json a texts) : Option.Rel (DiffOf json a.snapshots)
    a.latestDiff (Sightings.record texts).changes.getLast? :=
  h.changes.getLast?

/-- The snapshot with the hash of a text has that text. -/
theorem Kept.withHash_some (h : Kept hash json a texts) (hhash : HashTells hash (texts ++ [text]))
    {s : SnapshotView τ} (hs : a.withHash (hash text) = some s) :
    s ∈ a.snapshots ∧ s.normalizedText = text := by
  have hmem : s ∈ a.snapshots := List.mem_of_find?_eq_some hs
  have hsame : s.contentHash = hash text := by simpa using List.find?_some hs
  rw [h.hashes s hmem] at hsame
  have hseen : s.normalizedText ∈ texts := h.mem_seen.mpr ⟨s, hmem, rfl⟩
  refine ⟨hmem, ?_⟩
  apply hhash
  · exact List.mem_append_left _ hseen
  · exact List.mem_append_right _ List.mem_cons_self
  · exact hsame

theorem Kept.withHash_none (h : Kept hash json a texts) (hs : a.withHash (hash text) = none) :
    text ∉ texts := by
  intro htext
  obtain ⟨s, hmem, rfl⟩ := h.mem_seen.mp htext
  have hne := List.find?_eq_none.mp hs s hmem
  rw [h.hashes s hmem] at hne
  exact hne (beq_self_eq_true _)

/-- What is drawn has not been drawn before. -/
structure Marks.Fresh (marks : Marks τ) (a : Archive τ) : Prop where
  id : ∀ s ∈ a.snapshots, s.id ≠ marks.snapshotId
  time : ∀ s ∈ a.snapshots, s.fetchedAt < marks.fetchedAt
  diffTime : ∀ d ∈ a.diffs, d.createdAt < marks.diffedAt

theorem Kept.addSnapshot (h : Kept hash json a texts) (hhash : HashTells hash (texts ++ [text]))
    (hfresh : marks.Fresh a) :
    KeptSnapshots hash (a.addSnapshot (hash text) text marks) (texts ++ [text]) := by
  have hseen : (Sightings.record (texts ++ [text])).seen =
      insertNew (Sightings.record texts).seen text := by
    rw [Sightings.record_concat]
    rfl
  rw [Archive.addSnapshot]
  cases hs : a.withHash (hash text) with
  -- the text is known, and nothing is added
  | some s =>
      obtain ⟨hmem, htext⟩ := h.withHash_some hhash hs
      refine ⟨?_, h.hashes, h.ids, h.times⟩
      rw [hseen, insertNew_of_mem]
      · exact h.seen
      · exact Sightings.mem_seen_record.mpr (h.mem_seen.mpr ⟨s, hmem, htext⟩)
  | none =>
      -- the text is new, and so are the id and the time of its snapshot
      have hnew : text ∉ (Sightings.record texts).seen := fun hmem =>
        h.withHash_none hs (Sightings.mem_seen_record.mp hmem)
      constructor
      · rw [hseen, insertNew_of_notMem hnew, List.map_append, h.seen]
        rfl
      · intro s hs
        rcases List.mem_append.mp hs with hold | hnew
        · exact h.hashes s hold
        · obtain rfl := List.mem_singleton.mp hnew
          rfl
      · rw [List.map_append]
        apply List.nodup_append.mpr
        refine ⟨h.ids, List.nodup_singleton _, ?_⟩
        rintro id hid id' hid' rfl
        obtain ⟨s, hs, rfl⟩ := List.mem_map.mp hid
        exact hfresh.id s hs (List.mem_singleton.mp hid')
      · apply List.pairwise_append.mpr
        refine ⟨h.times, List.pairwise_singleton _ _, ?_⟩
        intro s hs s' hs'
        obtain rfl := List.mem_singleton.mp hs'
        exact hfresh.time s hs

omit [LinearOrder τ] in
theorem mem_addSnapshot {s : SnapshotView τ} {contentHash : String} (hs : s ∈ a.snapshots) :
    s ∈ a.addSnapshot contentHash text marks := by
  rw [Archive.addSnapshot]
  split
  · exact hs
  · exact List.mem_append_left _ hs

/-- The snapshot that is reported has the fetched text. -/
theorem Kept.exists_snapshotId (h : Kept hash json a texts)
    (hhash : HashTells hash (texts ++ [text])) (marks : Marks τ) :
    ∃ s ∈ a.addSnapshot (hash text) text marks,
      s.id = a.snapshotId (hash text) marks.snapshotId ∧ s.normalizedText = text := by
  rw [Archive.addSnapshot, Archive.snapshotId]
  cases hs : a.withHash (hash text) with
  | some s =>
      obtain ⟨hmem, htext⟩ := h.withHash_some hhash hs
      exact ⟨s, hmem, rfl, htext⟩
  | none => exact ⟨_, List.mem_append_right _ List.mem_cons_self, rfl, rfl⟩

/-! ### Diffs -/

section

variable {snapshots : List (SnapshotView τ)} {before after : SnapshotView τ} {d : DiffView τ}
variable {diffs : List (DiffView τ)} {changes : List (String × String)} {p : String × String}

/-- A diff joins two snapshots just when it is of the change between their
texts. -/
theorem KeptSnapshots.joins_iff (h : KeptSnapshots hash snapshots texts) (hbefore : before ∈ snapshots)
    (hto : after ∈ snapshots) (hd : DiffOf json snapshots d p) :
    d.joins before.id after.id = true ↔ p = (before.normalizedText, after.normalizedText) := by
  obtain ⟨⟨s, hs, hfrom, htext⟩, ⟨s', hs', hto', htext'⟩, -⟩ := hd
  rw [DiffView.joins, Bool.and_eq_true, beq_iff_eq, beq_iff_eq, ← hfrom, ← hto']
  constructor
  · rintro ⟨hid, hid'⟩
    obtain rfl := h.eq_of_id hs hbefore hid
    obtain rfl := h.eq_of_id hs' hto hid'
    exact Prod.ext htext.symm htext'.symm
  · rintro rfl
    exact ⟨congrArg _ (h.eq_of_text hs hbefore htext), congrArg _ (h.eq_of_text hs' hto htext')⟩

/-- A diff is added just when its change is new. -/
theorem KeptSnapshots.addDiff (h : KeptSnapshots hash snapshots texts) (hbefore : before ∈ snapshots)
    (hto : after ∈ snapshots) (hdiffs : List.Forall₂ (DiffOf json snapshots) diffs changes)
    (createdAt : τ) :
    List.Forall₂ (DiffOf json snapshots)
      (addDiff diffs before.id after.id (json before.normalizedText after.normalizedText) createdAt)
      (insertNew changes (before.normalizedText, after.normalizedText)) := by
  have hjoins := fun d p (hd : DiffOf json snapshots d p) => h.joins_iff hbefore hto hd
  rw [Hub.addDiff]
  split
  · rename_i hany
    obtain ⟨d, hd, hjoin⟩ := List.any_eq_true.mp hany
    obtain ⟨p, hp, hdp⟩ := hdiffs.exists_right hd
    rw [insertNew_of_mem ((hjoins d p hdp).mp hjoin ▸ hp)]
    -- the lines are replaced by themselves
    have hsame : (diffs.map fun d => if d.joins before.id after.id then
        { d with diffJson := json before.normalizedText after.normalizedText } else d) = diffs := by
      conv_rhs => rw [← List.map_id diffs]
      apply List.map_congr_left
      intro d hd
      obtain ⟨p, -, hdp⟩ := hdiffs.exists_right hd
      split
      · rename_i hjoin
        obtain rfl := (hjoins d p hdp).mp hjoin
        rw [← hdp.2.2]
        rfl
      · rfl
    rw [hsame]
    exact hdiffs
  · rename_i hany
    rw [insertNew_of_notMem]
    · apply List.rel_append hdiffs
      exact .cons ⟨⟨before, hbefore, rfl, rfl⟩, ⟨after, hto, rfl, rfl⟩, rfl⟩ .nil
    · intro hp
      obtain ⟨d, hd, hdp⟩ := hdiffs.exists_left hp
      exact hany (List.any_eq_true.mpr ⟨d, hd, (hjoins d _ hdp).mpr rfl⟩)

theorem pairwise_addDiff {fromId toId : String} {json : Js} {createdAt : τ}
    (h : diffs.Pairwise fun d d' => d.createdAt < d'.createdAt)
    (hlater : ∀ d ∈ diffs, d.createdAt < createdAt) :
    (addDiff diffs fromId toId json createdAt).Pairwise fun d d' => d.createdAt < d'.createdAt := by
  rw [addDiff]
  split
  · apply List.pairwise_map.mpr
    apply h.imp
    intro d d' hlt
    split <;> split <;> exact hlt
  · apply List.pairwise_append.mpr
    refine ⟨h, List.pairwise_singleton _ _, ?_⟩
    intro d hd d' hd'
    obtain rfl := List.mem_singleton.mp hd'
    exact hlater d hd

end

theorem Kept.addChange (h : Kept hash json a texts) (hhash : HashTells hash (texts ++ [text]))
    (hfresh : marks.Fresh a) :
    List.Forall₂ (DiffOf json (a.addSnapshot (hash text) text marks))
      (a.add hash json text marks).diffs (Sightings.record (texts ++ [text])).changes := by
  have hsnapshots := h.addSnapshot hhash hfresh
  obtain ⟨after, hafter, hid, rfl⟩ := h.exists_snapshotId hhash marks
  have hold : List.Forall₂ (DiffOf json (a.addSnapshot (hash after.normalizedText)
      after.normalizedText marks)) a.diffs (Sightings.record texts).changes := by
    apply h.changes.imp
    rintro d p ⟨⟨s, hs, hfrom⟩, ⟨s', hs', hto⟩, hjson⟩
    exact ⟨⟨s, mem_addSnapshot hs, hfrom⟩, ⟨s', mem_addSnapshot hs', hto⟩, hjson⟩
  have hlatest : a.latestSnapshot.map (·.normalizedText) = (Sightings.record texts).latest := h.latest
  rw [Sightings.record_concat, Archive.add]
  cases hbefore : a.latestSnapshot with
  | none =>
      rw [hbefore] at hlatest
      rw [Sightings.changes_see_of_none hlatest.symm]
      exact hold
  | some before =>
      rw [hbefore] at hlatest
      have hmem : before ∈ a.snapshots := List.mem_of_getLast? hbefore
      have hchanges := Sightings.changes_see_of_latest (x := after.normalizedText) hlatest.symm
      dsimp only [noticeChange] at hchanges ⊢
      rw [hchanges, h.hashes before hmem]
      by_cases htext : before.normalizedText = after.normalizedText
      · rw [if_pos htext, if_pos (congrArg hash htext)]
        exact hold
      · -- another text has another hash, and is in another snapshot
        have hne : hash before.normalizedText ≠ hash after.normalizedText := fun hsame =>
          htext (hhash _ (List.mem_append_left _ (h.mem_seen.mpr ⟨before, hmem, rfl⟩)) _
            (List.mem_append_right _ List.mem_cons_self) hsame)
        have hids : before.id ≠ a.snapshotId (hash after.normalizedText) marks.snapshotId := fun hsame =>
          htext (congrArg _ (hsnapshots.eq_of_id (mem_addSnapshot hmem) hafter (hsame.trans hid.symm)))
        rw [if_neg htext, if_neg hne, if_neg hids, ← hid]
        exact hsnapshots.addDiff (mem_addSnapshot hmem) hafter hold marks.diffedAt

/-- **A fetch adds its text to the record.** -/
theorem Kept.add (h : Kept hash json a texts) (hhash : HashTells hash (texts ++ [text]))
    (hfresh : marks.Fresh a) : Kept hash json (a.add hash json text marks) (texts ++ [text]) := by
  refine ⟨h.addSnapshot hhash hfresh, h.addChange hhash hfresh, ?_⟩
  rw [Archive.add]
  dsimp only [noticeChange]
  split
  · exact h.diffTimes
  · split
    · exact h.diffTimes
    · split
      · exact h.diffTimes
      · exact pairwise_addDiff h.diffTimes hfresh.diffTime

/-! ### Articles over time -/

variable {v : ArticleView τ} {contents : List Content} {c : Content}

def ArticleView.Shows (v : ArticleView τ) (c : Content) : Prop :=
  v.url = c.url ∧ v.title = c.title ∧ v.publishedAt = c.publishedAt

/-- What is stored of an article is the record of what has been fetched of it. -/
inductive Archived (hash : String → String) (json : String → String → Js) :
    Option (ArticleView τ) → List Content → Prop
  | unseen : Archived hash json none []
  | seen {v : ArticleView τ} {contents : List Content} {c : Content} (shows : v.Shows c)
      (kept : Kept hash json v.archive ((contents ++ [c]).map (·.text))) :
      Archived hash json (some v) (contents ++ [c])

theorem Archived.kept {v : Option (ArticleView τ)} (h : Archived hash json v contents) :
    Kept hash json ((v.map (·.archive)).getD Archive.empty) (contents.map (·.text)) := by
  cases h with
  | unseen => exact kept_empty
  | seen _ kept => exact kept

theorem Archived.fetch {v : Option (ArticleView τ)} (h : Archived hash json v contents)
    (hhash : HashTells hash ((contents ++ [c]).map (·.text)))
    (hfresh : marks.Fresh ((v.map (·.archive)).getD Archive.empty)) :
    Archived hash json (some (ArticleView.fetch hash json v c marks)) (contents ++ [c]) := by
  rw [List.map_append] at hhash
  apply Archived.seen
  · exact ⟨rfl, rfl, rfl⟩
  · rw [List.map_append]
    exact h.kept.add hhash hfresh

/-- A fetch of what has just been fetched adds nothing to the record. -/
theorem record_again {texts : List String} (hlast : texts.getLast? = some text) :
    Sightings.record (texts ++ [text]) = Sightings.record texts := by
  obtain ⟨init, rfl⟩ := List.getLast?_eq_some_iff.mp hlast
  rw [Sightings.record_concat, Sightings.record_concat, Sightings.see_see]

/-- Two programs show the same article: the same data, the same texts in the same
order, and diffs of the same changes. -/
structure ArticleView.Agrees {τ' : Type} (json : String → String → Js) (v : ArticleView τ)
    (v' : ArticleView τ') : Prop where
  url : v.url = v'.url
  title : v.title = v'.title
  publishedAt : v.publishedAt = v'.publishedAt
  snapshots : v.archive.snapshots.map (fun s => (s.contentHash, s.normalizedText)) =
    v'.archive.snapshots.map fun s => (s.contentHash, s.normalizedText)
  diffs : ∃ changes, List.Forall₂ (DiffOf json v.archive.snapshots) v.archive.diffs changes ∧
    List.Forall₂ (DiffOf json v'.archive.snapshots) v'.archive.diffs changes

theorem KeptSnapshots.map_eq {snapshots : List (SnapshotView τ)} (h : KeptSnapshots hash snapshots texts) :
    snapshots.map (fun s => (s.contentHash, s.normalizedText)) =
      (Sightings.record texts).seen.map fun t => (hash t, t) := by
  rw [← h.seen, List.map_map]
  apply List.map_congr_left
  intro s hs
  exact Prod.ext (h.hashes s hs) rfl

theorem Archived.agrees {τ' : Type} [LinearOrder τ'] {v : Option (ArticleView τ)}
    {v' : Option (ArticleView τ')} {contents' : List Content} (h : Archived hash json v contents)
    (h' : Archived hash json v' contents') (hlast : contents.getLast? = contents'.getLast?)
    (hrecord : Sightings.record (contents.map (·.text)) = Sightings.record (contents'.map (·.text))) :
    Option.Rel (ArticleView.Agrees json) v v' := by
  cases h with
  | unseen =>
      obtain rfl := List.getLast?_eq_none_iff.mp hlast.symm
      generalize hnil : ([] : List Content) = contents' at h'
      cases h' with
      | unseen => exact .none
      | seen _ _ => exact absurd hnil.symm (by simp)
  | seen shows kept =>
      rename_i v init c
      rw [List.getLast?_concat] at hlast
      cases h' with
      | unseen => cases hlast
      | seen shows' kept' =>
          rename_i v' init' c'
          rw [List.getLast?_concat] at hlast
          obtain rfl := Option.some.inj hlast
          refine .some ⟨?_, ?_, ?_, ?_, ?_⟩
          · exact shows.1.trans shows'.1.symm
          · exact shows.2.1.trans shows'.2.1.symm
          · exact shows.2.2.trans shows'.2.2.symm
          · rw [kept.map_eq, kept'.map_eq, hrecord]
          · exact ⟨_, kept.changes, hrecord ▸ kept'.changes⟩

/-! ### The latest snapshot and the latest diff -/

/-- Nothing new has been seen since `x` was seen for the first time. -/
def Newest (l : List String) (x : String) : Prop :=
  ∃ u w, l = u ++ x :: w ∧ x ∉ u ∧ ∀ y ∈ w, y ∈ u ++ [x]

theorem KeptSnapshots.change_eq {snapshots : List (SnapshotView τ)} {d : DiffView τ}
    {p p' : String × String} (h : KeptSnapshots hash snapshots texts)
    (hd : DiffOf json snapshots d p) (hd' : DiffOf json snapshots d p') : p = p' := by
  obtain ⟨⟨s, hs, hfrom, htext⟩, ⟨t, ht, hto, htext'⟩, -⟩ := hd
  obtain ⟨⟨s', hs', hfrom', hsame⟩, ⟨t', ht', hto', hsame'⟩, -⟩ := hd'
  obtain rfl := h.eq_of_id hs hs' (hfrom.trans hfrom'.symm)
  obtain rfl := h.eq_of_id ht ht' (hto.trans hto'.symm)
  exact Prod.ext (htext.symm.trans hsame) (htext'.symm.trans hsame')

theorem Kept.latestDiff_iff (h : Kept hash json a texts) (p : String × String) :
    (∃ d, a.latestDiff = some d ∧ DiffOf json a.snapshots d p) ↔
      (Sightings.record texts).changes.getLast? = some p := by
  have hlast := h.changes.getLast?
  rw [Archive.latestDiff]
  constructor
  · rintro ⟨d, hd, hdp⟩
    rw [hd] at hlast
    cases hchange : (Sightings.record texts).changes.getLast? with
    | none =>
        rw [hchange] at hlast
        cases hlast
    | some p' =>
        rw [hchange] at hlast
        cases hlast with
        | some hdp' => rw [h.change_eq hdp' hdp]
  · intro hp
    rw [hp] at hlast
    cases hd : a.diffs.getLast? with
    | none =>
        rw [hd] at hlast
        cases hlast
    | some d =>
        rw [hd] at hlast
        cases hlast with
        | some hdp => exact ⟨d, rfl, hdp⟩

/-- The latest snapshot is that of the text after which nothing new was
fetched. -/
theorem Kept.latestSnapshot_iff (h : Kept hash json a texts) (t : String) :
    a.latestSnapshot.map (·.normalizedText) = some t ↔ Newest texts t := by
  have hlatest : a.latestSnapshot.map (·.normalizedText) = (Sightings.record texts).latest := h.latest
  rw [hlatest]
  exact Sightings.latest_record_iff texts t

/-- **When the latest diff is the last change**: an article that had the text
`p` and has had the text `q` since is shown with `q` and the diff from `p` just
when `q` is new and nothing was new after `p`. -/
theorem Kept.follows_iff {u : List String} {p q : String} {k : ℕ} (hpq : p ≠ q)
    (h : Kept hash json a (u ++ [p] ++ List.replicate (k + 1) q)) :
    (a.latestSnapshot.map (·.normalizedText) = some q ∧
      ∃ d, a.latestDiff = some d ∧ DiffOf json a.snapshots d (p, q)) ↔
    q ∉ u ++ [p] ∧ Newest (u ++ [p]) p := by
  have hlatest : a.latestSnapshot.map (·.normalizedText) = _ := h.latest
  rw [h.latestDiff_iff, hlatest, Sightings.record_follows_iff u hpq k, Sightings.latest_record_iff]
  rfl

end

end Hub
