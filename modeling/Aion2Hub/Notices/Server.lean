/-
Aion2Hub/Notices/Server.lean

The routes of a notice on the API server (apps/api/src/routes/notices.ts), which
reads what the worker stores.

A sync of the worker may fail at any request and at the calls that come before
an item is written, and a dry run stores nothing.  In every state that its runs
lead to, the server knows each article whose item has been written by its id,
with the data of the last detail, and with the last change in the record of its
texts; the snapshots of that change are found (`served_of_worked`).
-/
import Aion2Hub.Notices.Agreement

namespace Hub.Worker

open Sql Exec

/-! ### The routes -/

/-- A body, the code 404, or an exception. -/
inductive Reply (α : Type) where
  | body (a : α)
  | notFound
  | failed

structure SnapshotSummary where
  id : String
  fetchedAt : ℤ
  contentHash : String

def NoticeSnapshot.summary (s : NoticeSnapshot) : SnapshotSummary := ⟨s.id, s.fetchedAt, s.contentHash⟩

structure NoticeBody where
  item : NoticeItem
  latestSnapshot : Option SnapshotSummary

structure DiffBody where
  id : String
  createdAt : ℤ
  diffJson : Js
  fromSnapshot : SnapshotSummary
  toSnapshot : SnapshotSummary

def Repo.findItem (repo : Repo) (id : String) : Option NoticeItem := repo.items.find? (·.id == id)

def Repo.findSnapshot (repo : Repo) (id : String) : Option NoticeSnapshot :=
  repo.snapshots.find? (·.id == id)

def Repo.latestSnapshot (repo : Repo) (itemId : String) : Option NoticeSnapshot :=
  (orderBy (desc (·.fetchedAt) anyOrder) (snapshotsOf repo itemId)).head?

def Repo.latestDiff (repo : Repo) (itemId : String) : Option NoticeDiff :=
  (orderBy (desc (·.createdAt) anyOrder) (diffsOf repo itemId)).head?

/-- A diff with the two snapshots that it refers to. -/
def Repo.withSnapshots (repo : Repo) (d : NoticeDiff) : Option DiffBody := do
  let fromSnapshot ← repo.findSnapshot d.fromSnapshotId
  let toSnapshot ← repo.findSnapshot d.toSnapshotId
  pure ⟨d.id, d.createdAt, d.diffJson, fromSnapshot.summary, toSnapshot.summary⟩

/-- `GET /notices/:id`. -/
def getNotice (repo : Repo) (id : String) : Reply NoticeBody :=
  if id = "" then .failed
  else
    match repo.findItem id with
    | none => .notFound
    | some item => .body ⟨item, (repo.latestSnapshot id).map (·.summary)⟩

/-- `GET /notices/:id/diff`. -/
def getNoticeDiff (repo : Repo) (id : String) : Reply (Option DiffBody) :=
  if id = "" then .failed
  else
    match repo.findItem id with
    | none => .notFound
    | some _ =>
        match repo.latestDiff id with
        | none => .body none
        | some d =>
            match repo.withSnapshots d with
            | none => .failed -- a reference that leads nowhere
            | some body => .body (some body)

/-! ### Runs of the worker -/

/-- The board answers with the article that it is asked for. -/
def AnswersAsked (round : Round) : Prop := ∀ board articleId detail,
  fetchArticleDetail (round.article board articleId) board articleId = .ok detail →
    detail.id = articleId

/-- Once an item is written, its snapshot and its diff are. -/
def Rejects.Early (rejects : Rejects) : Prop :=
  ∀ n, rejects n .upsertSnapshot = none ∧ rejects n .upsertDiff = none

/-- What the runs of the worker lead to, whether they get through or not. -/
inductive Worked (env : SyncEnv) (draws : ℕ → ArticleDraws) : SyncState → Prop
  | start : Worked env draws ⟨Repo.empty, []⟩
  | sync {w : SyncState} (h : Worked env draws w) (options : SyncNoticesOptions) {rejects : Rejects}
      (hrejects : rejects.Early) {round : Round} (hround : AnswersAsked round) :
      Worked env draws (syncNotices env draws options false rejects round w).2
  | dryRun {w : SyncState} (h : Worked env draws w) (options : SyncNoticesOptions) (rejects : Rejects)
      (round : Round) : Worked env draws (syncNotices env draws options true rejects round w).2

/-- The routes of an article whose contents have been stored. -/
structure Serves (env : SyncEnv) (repo : Repo) (item : NoticeItem) (contents : List Content) :
    Prop where
  content : ∃ c, contents.getLast? = some c ∧ item.url = c.url ∧ item.title = c.title ∧
    item.publishedAt.map Date.isoString = c.publishedAt
  notice : ∃ snapshot, getNotice repo item.id = .body ⟨item, snapshot⟩ ∧
    snapshot.map (·.contentHash) =
      (Sightings.record (contents.map (·.text))).latest.map env.sha256Hex
  diff : ∃ body, getNoticeDiff repo item.id = .body body ∧
    body.map (fun d => (d.fromSnapshot.contentHash, d.toSnapshot.contentHash, d.diffJson)) =
      (Sightings.record (contents.map (·.text))).changes.getLast?.map fun p =>
        (env.sha256Hex p.1, env.sha256Hex p.2, storedJson env p.1 p.2)

section

variable {env : SyncEnv} {draws : ℕ → ArticleDraws} {rejects : Rejects} {round : Round}
variable {source : NoticeSource} {w : SyncState} {repo : Repo} {item : NoticeItem}
  {contents : List Content} {n : ℕ}

/-! ### What a run keeps -/

/-- What an article keeps a run keeps. -/
theorem keeps_syncNotices {I : SyncState → Prop} {dryRun : Bool}
    (h : ∀ source info totals,
      Keeps I (syncArticle env draws dryRun rejects round source info totals))
    (options : SyncNoticesOptions) : Keeps I (syncNotices env draws options dryRun rejects round) := by
  have harticles : ∀ source metas totals,
      Keeps I (syncArticles env draws dryRun rejects round source metas totals) := by
    intro source metas
    induction metas with
    | nil => exact fun _ => Keeps.pure
    | cons info metas ih => exact fun totals => (h source info totals).bind ih
  have hmetas : ∀ source, Keeps I (awaitMetas round options.latest source) := by
    intro source
    apply keeps_of_apply
    intro w hw
    rw [awaitMetas, ofExcept_apply]
    exact hw
  -- the induction is on the sources; inside, it was on the list of each
  have hsources : ∀ sources totals,
      Keeps I (syncSources env draws dryRun rejects round options.latest sources totals) := by
    intro sources
    induction sources with
    | nil => exact fun _ => Keeps.pure
    | cons source sources ih =>
        exact fun totals => (hmetas source).bind fun metas => (harticles source metas _).bind ih
  exact hsources _ _

theorem awaitDetail_apply (info : PlayncArticleMeta) : awaitDetail round source info.id w =
    (fetchArticleDetail (round.article (sourceToAlias source) info.id) (sourceToAlias source) info.id,
      w) := by
  rw [awaitDetail]
  exact ofExcept_apply _ _

theorem keeps_syncArticle (hrejects : rejects.Early) (hround : AnswersAsked round)
    (source : NoticeSource) (info : PlayncArticleMeta) (totals : SyncTotals) :
    Keeps (Filed env draws) (syncArticle env draws false rejects round source info totals) := by
  apply keeps_of_apply
  intro w hw
  have hlength : (Exec.gets fun s : SyncState => s.stored.length) w = (.ok w.stored.length, w) := rfl
  have hawait : awaitDetail round source info.id w = _ := awaitDetail_apply info
  rw [syncArticle]
  cases hlatest : rejects w.stored.length .findLatestSnapshot with
  | some e =>
      rw [if_neg Bool.false_ne_true, bind_of_error (callRepo_error hlatest _)]
      exact hw
  | none =>
  rw [if_neg Bool.false_ne_true, bind_of_ok (callRepo_ok hlatest _)]
  show Filed env draws (((Exec.gets fun s : SyncState => s.stored.length) >>= _) w).2
  rw [bind_of_ok hlength]
  cases hanswer : fetchArticleDetail (round.article (sourceToAlias source) info.id)
      (sourceToAlias source) info.id with
  | error e =>
      rw [hanswer] at hawait
      rw [bind_of_error hawait]
      exact hw
  | ok detail =>
  rw [hanswer] at hawait
  rw [bind_of_ok hawait, if_neg Bool.false_ne_true]
  cases hitem : rejects w.stored.length .upsertItem with
  | some e =>
      rw [store_rejected hitem]
      exact hw
  | none =>
      obtain ⟨totals', hstore⟩ := store_ok hitem (hrejects _).1 (hrejects _).2
        (draws w.stored.length) (w.repo.findLatestSnapshot source info.id) detail totals
      -- the snapshot was looked up under the id that was asked for, the item is stored under the one
      -- that was answered
      have hfiled := filed_store hw source detail
      rw [hround _ _ _ hanswer] at hfiled
      rw [hstore]
      exact hfiled

theorem keeps_dry_syncArticle (before : SyncState) (source : NoticeSource)
    (info : PlayncArticleMeta) (totals : SyncTotals) :
    Keeps (fun w => w = before) (syncArticle env draws true rejects round source info totals) := by
  apply Keeps.pure.bind
  intro _
  apply Keeps.gets.bind
  intro _
  apply Keeps.bind
  · apply keeps_of_apply
    intro w hw
    rw [awaitDetail_apply]
    exact hw
  · exact fun _ => Keeps.pure

/-- **A dry run stores nothing.** -/
theorem dryRun_snd (options : SyncNoticesOptions) (rejects : Rejects) (round : Round) (w : SyncState) :
    (syncNotices env draws options true rejects round w).2 = w :=
  (keeps_syncNotices (keeps_dry_syncArticle w) options).apply rfl

theorem filed_of_worked (h : Worked env draws w) : Filed env draws w := by
  induction h with
  | start =>
      intro _
      refine ⟨⟨⟨.nil, .nil, ?_⟩, ⟨.nil, ?_, ?_⟩, ⟨?_, ?_⟩⟩, fun _ _ => .unseen⟩
      all_goals exact fun _ h => absurd h List.not_mem_nil
  | sync _ options hrejects hround ih =>
      exact (keeps_syncNotices (keeps_syncArticle hrejects hround) options).apply ih
  | dryRun _ options rejects round ih =>
      rw [dryRun_snd]
      exact ih

/-! ### What is read -/

/-- The first row with the key of a row is that row, if keys differ. -/
theorem find?_of_pairwise {ρ κ : Type} [BEq κ] [LawfulBEq κ] {f : ρ → κ} {rows : List ρ}
    (h : rows.Pairwise fun r r' => f r ≠ f r') {r : ρ} (hr : r ∈ rows) :
    rows.find? (fun r' => f r' == f r) = some r := by
  cases hfind : rows.find? (fun r' => f r' == f r) with
  | none => exact absurd (beq_self_eq_true (f r)) (List.find?_eq_none.mp hfind r hr)
  | some r' =>
      have hmem := List.mem_of_find?_eq_some hfind
      have hkey := List.find?_some hfind
      rw [eq_of_pairwise h hmem hr (eq_of_beq hkey)]

theorem findItem_eq (h : ItemsSound draws n repo) (hitem : item ∈ repo.items) :
    repo.findItem item.id = some item :=
  find?_of_pairwise h.ids hitem

/-- A snapshot of an archive is found under its id. -/
theorem findSnapshot_eq (h : SnapshotsSound draws n repo) {itemId : String} {s : SnapshotView ℤ}
    (hs : s ∈ (archiveOf repo itemId).snapshots) :
    ∃ r, repo.findSnapshot s.id = some r ∧ viewSnapshot r = s := by
  obtain ⟨r, hr, rfl⟩ := List.mem_map.mp hs
  exact ⟨r, find?_of_pairwise h.ids (List.mem_filter.mp hr).1, rfl⟩

variable {texts : List String}

theorem diffs_inOrder_of_kept
    (h : Kept env.sha256Hex (storedJson env) (archiveOf repo item.id) texts) :
    (diffsOf repo item.id).Pairwise fun d d' => d.createdAt < d'.createdAt := by
  have htimes : ((diffsOf repo item.id).map viewDiff).Pairwise fun d d' =>
    d.createdAt < d'.createdAt := h.diffTimes
  rw [List.pairwise_map] at htimes
  exact htimes

/-- The latest snapshot is that of the text that was written down last. -/
theorem latestSnapshot_of_kept
    (h : Kept env.sha256Hex (storedJson env) (archiveOf repo item.id) texts) :
    (repo.latestSnapshot item.id).map (·.contentHash) =
      (Sightings.record texts).latest.map env.sha256Hex := by
  have hview : (archiveOf repo item.id).snapshots.getLast? =
      (snapshotsOf repo item.id).getLast?.map viewSnapshot := List.getLast?_map
  rw [Repo.latestSnapshot, head?_orderBy_desc (inOrder_of_kept h), ← h.latestHash, hview,
    Option.map_map]
  rfl

/-- The latest diff is that of the last change. -/
theorem latestDiff_of_kept
    (h : Kept env.sha256Hex (storedJson env) (archiveOf repo item.id) texts) :
    Option.Rel (DiffOf (storedJson env) (archiveOf repo item.id).snapshots)
      ((repo.latestDiff item.id).map viewDiff) (Sightings.record texts).changes.getLast? := by
  have hview : (archiveOf repo item.id).latestDiff = (diffsOf repo item.id).getLast?.map viewDiff :=
    List.getLast?_map
  rw [Repo.latestDiff, head?_orderBy_desc (diffs_inOrder_of_kept h), ← hview]
  exact h.latestDiff

/-- The snapshots of a diff are found, and have the hashes of its texts. -/
theorem withSnapshots_of_kept (hsound : SnapshotsSound draws n repo)
    (h : Kept env.sha256Hex (storedJson env) (archiveOf repo item.id) texts) {d : NoticeDiff}
    {p : String × String}
    (hd : DiffOf (storedJson env) (archiveOf repo item.id).snapshots (viewDiff d) p) :
    ∃ body, repo.withSnapshots d = some body ∧
      (body.fromSnapshot.contentHash, body.toSnapshot.contentHash, body.diffJson) =
        (env.sha256Hex p.1, env.sha256Hex p.2, storedJson env p.1 p.2) := by
  -- the two snapshots are in the archive of the item, and so among all that are stored
  obtain ⟨⟨s, hs, hsid, hstext⟩, ⟨t, ht, htid, httext⟩, hjson⟩ := hd
  obtain ⟨fromSnapshot, hfrom, rfl⟩ := findSnapshot_eq hsound hs
  obtain ⟨toSnapshot, hto, rfl⟩ := findSnapshot_eq hsound ht
  rw [hsid] at hfrom
  rw [htid] at hto
  have hfromHash : fromSnapshot.contentHash = env.sha256Hex p.1 := hstext ▸ h.hashes _ hs
  have htoHash : toSnapshot.contentHash = env.sha256Hex p.2 := httext ▸ h.hashes _ ht
  refine ⟨⟨d.id, d.createdAt, d.diffJson, fromSnapshot.summary, toSnapshot.summary⟩, ?_, ?_⟩
  · show (repo.findSnapshot (viewDiff d).fromSnapshotId).bind _ = _
    rw [hfrom, Option.bind_some]
    show (repo.findSnapshot (viewDiff d).toSnapshotId).bind _ = _
    rw [hto]
    rfl
  · show (fromSnapshot.contentHash, toSnapshot.contentHash, (viewDiff d).diffJson) = _
    rw [hfromHash, htoHash, hjson]

theorem getNotice_of_kept (hitems : ItemsSound draws n repo) (hitem : item ∈ repo.items)
    (hid : item.id ≠ "")
    (h : Kept env.sha256Hex (storedJson env) (archiveOf repo item.id) texts) :
    ∃ snapshot, getNotice repo item.id = .body ⟨item, snapshot⟩ ∧
      snapshot.map (·.contentHash) = (Sightings.record texts).latest.map env.sha256Hex := by
  refine ⟨(repo.latestSnapshot item.id).map (·.summary), ?_, ?_⟩
  · rw [getNotice, if_neg hid, findItem_eq hitems hitem]
  · rw [← latestSnapshot_of_kept h, Option.map_map]
    rfl

theorem getNoticeDiff_of_kept (hsound : Sound draws n repo) (hitem : item ∈ repo.items)
    (hid : item.id ≠ "")
    (h : Kept env.sha256Hex (storedJson env) (archiveOf repo item.id) texts) :
    ∃ body, getNoticeDiff repo item.id = .body body ∧
      body.map (fun d => (d.fromSnapshot.contentHash, d.toSnapshot.contentHash, d.diffJson)) =
        (Sightings.record texts).changes.getLast?.map fun p =>
          (env.sha256Hex p.1, env.sha256Hex p.2, storedJson env p.1 p.2) := by
  have hlatest := latestDiff_of_kept h
  rw [getNoticeDiff, if_neg hid, findItem_eq hsound.items hitem]
  -- no diff and no change, or a diff of the last change
  generalize (Sightings.record texts).changes.getLast? = change at hlatest ⊢
  cases hd : repo.latestDiff item.id with
  | none =>
      rw [hd] at hlatest
      cases hlatest
      exact ⟨none, rfl, rfl⟩
  | some d =>
      rw [hd] at hlatest
      cases hlatest with
      | some hdiff =>
          obtain ⟨body, hbody, hserved⟩ := withSnapshots_of_kept hsound.snapshots h hdiff
          refine ⟨some body, ?_, congrArg some hserved⟩
          dsimp only
          rw [hbody]

/-- **The server serves what was stored**: in every state that the worker's runs
lead to, each article whose item was written has this item, and its routes
answer with its last data and with the last change in the record of its texts. -/
theorem served_of_worked (h : Worked env draws w) (hdraws : Drawn draws w.stored.length)
    (hhash : ∀ source externalId,
      HashTells env.sha256Hex ((contentsOf env w.stored source externalId).map (·.text)))
    {detail : PlayncArticleDetail} (hstored : (source, detail) ∈ w.stored) :
    ∃ item, itemOf w.repo source detail.id = some item ∧
      Serves env w.repo item (contentsOf env w.stored source detail.id) := by
  obtain ⟨hsound, harchived⟩ := filed_of_worked h ⟨hdraws, hhash⟩
  have hcontent : contentOf env detail ∈ contentsOf env w.stored source detail.id := by
    apply List.mem_map.mpr
    refine ⟨(source, detail), List.mem_filter.mpr ⟨hstored, ?_⟩, rfl⟩
    rw [beq_self_eq_true, beq_self_eq_true, Bool.and_self]
  have harticle := harchived source detail.id
  generalize contentsOf env w.stored source detail.id = contents at harticle hcontent ⊢
  cases hitem : itemOf w.repo source detail.id with
  -- an article without an item has no contents
  | none =>
      rw [articleOf, hitem] at harticle
      cases harticle
      exact absurd hcontent List.not_mem_nil
  | some item =>
      obtain ⟨hmem, -, -⟩ := itemOf_mem hitem
      obtain ⟨k, -, hdrawn⟩ := hsound.items.drawn item hmem
      -- the id was drawn, so the server does not refuse it
      have hid : item.id ≠ "" := hdrawn ▸ (draws k).item.ne
      rw [articleOf, hitem] at harticle
      have hkept := harticle.kept
      refine ⟨item, rfl, ?_, getNotice_of_kept hsound.items hmem hid hkept,
        getNoticeDiff_of_kept hsound hmem hid hkept⟩
      cases harticle with
      | seen shows _ => exact ⟨_, List.getLast?_concat, shows⟩

end

/-! ### A notice that is edited, with a dry run and a rejected call -/

theorem answersAsked_datedArticle (date html : String) : AnswersAsked (datedArticle date html) := by
  intro board articleId detail h
  obtain rfl := Except.ok.inj h
  rfl

/-- The database does not write items. -/
def rejectItems (_ : ℕ) : RepoCall → Option String
  | .upsertItem => some "connection lost"
  | _ => none

/-- The worker reads a notice, runs dry, fails to write its item after an edit,
and writes it in the next run. -/
def workerEdited : SyncState :=
  let before :=
    (syncNotices plainEnv countedDraws noticeOptions false (fun _ _ => none) firstRound ⟨Repo.empty, []⟩).2
  let dry := (syncNotices plainEnv countedDraws noticeOptions true (fun _ _ => none) editedRound before).2
  let rejected := (syncNotices plainEnv countedDraws noticeOptions false rejectItems editedRound dry).2
  (syncNotices plainEnv countedDraws noticeOptions false (fun _ _ => none) editedRound rejected).2

theorem worked_edited : Worked plainEnv countedDraws workerEdited := by
  have hfirst : Worked plainEnv countedDraws (syncNotices plainEnv countedDraws noticeOptions false
      (fun _ _ => none) firstRound ⟨Repo.empty, []⟩).2 :=
    Worked.start.sync _ (fun _ => ⟨rfl, rfl⟩) (answersAsked_datedArticle _ _)
  exact ((hfirst.dryRun _ _ _).sync _ (fun _ => ⟨rfl, rfl⟩) (answersAsked_datedArticle _ _)).sync _
    (fun _ => ⟨rfl, rfl⟩) (answersAsked_datedArticle _ _)

theorem served_of_worked_edited : ∃ item, itemOf workerEdited.repo .notice "1" = some item ∧
    Serves plainEnv workerEdited.repo item (contentsOf plainEnv workerEdited.stored .notice "1") := by
  have hlength : workerEdited.stored.length = 2 := by decide +kernel
  have hfirst : workerEdited.stored.head?.map (fun p => (p.1, p.2.id)) = some (.notice, "1") := by
    decide +kernel
  obtain ⟨⟨source, detail⟩, hhead, hkey⟩ := Option.map_eq_some_iff.mp hfirst
  obtain ⟨rfl, hid⟩ := Prod.mk.inj hkey
  have hserved := served_of_worked worked_edited
    (hlength ▸ ⟨by decide +kernel, by decide +kernel, by decide +kernel⟩)
    (hashTells_of_plainTexts (plainTexts_of_oldNew (by decide +kernel))) (List.mem_of_head? hhead)
  rw [hid] at hserved
  exact hserved

end Hub.Worker
