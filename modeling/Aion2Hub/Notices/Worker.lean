/-
Aion2Hub/Notices/Worker.lean

`syncNotices` of the worker (apps/worker/src/notices/sync.ts) and its repository
(apps/worker/src/notices/repo.ts), on the tables of packages/db/prisma/schema.prisma.

The worker fetches every article that is listed, in every sync.  Its tables
hold what the desktop app holds, with times as numbers; and what it does with an
article is the same fetch (`Repo.store_spec`), as far as the database rejects
none of its calls.
-/
import Aion2Hub.Lib.Query
import Aion2Hub.Notices.History

namespace Hub.Worker

open Sql Exec

/-! ### The repository -/

structure NoticeItem where
  id : String
  source : NoticeSource
  externalId : String
  url : String
  title : String
  publishedAt : Option ℤ

structure NoticeSnapshot where
  id : String
  noticeItemId : String
  fetchedAt : ℤ
  contentHash : String
  normalizedText : String

structure NoticeDiff where
  id : String
  noticeItemId : String
  fromSnapshotId : String
  toSnapshotId : String
  diffJson : Js
  createdAt : ℤ

structure Repo where
  items : List NoticeItem
  snapshots : List NoticeSnapshot
  diffs : List NoticeDiff

def Repo.empty : Repo := ⟨[], [], []⟩

/-- The key `source_externalId`. -/
def NoticeItem.isAt (source : NoticeSource) (externalId : String) (r : NoticeItem) : Bool :=
  r.source == source && r.externalId == externalId

/-- The key `noticeItemId_contentHash`. -/
def NoticeSnapshot.isAt (itemId contentHash : String) (r : NoticeSnapshot) : Bool :=
  r.noticeItemId == itemId && r.contentHash == contentHash

/-- The key `fromSnapshotId_toSnapshotId`. -/
def NoticeDiff.isAt (fromId toId : String) (r : NoticeDiff) : Bool :=
  r.fromSnapshotId == fromId && r.toSnapshotId == toId

def Repo.findLatestSnapshot (repo : Repo) (source : NoticeSource) (externalId : String) :
    Option NoticeSnapshot :=
  (orderBy (desc (·.fetchedAt) anyOrder) (repo.snapshots.filter fun s =>
    repo.items.any fun r => r.isAt source externalId && r.id == s.noticeItemId)).head?

structure ItemInput where
  source : NoticeSource
  externalId : String
  url : String
  title : String
  publishedAt : Option ℤ

def Repo.upsertItem (repo : Repo) (input : ItemInput) (id : String) : String × Repo :=
  match repo.items.find? (NoticeItem.isAt input.source input.externalId) with
  | some item =>
      (item.id, { repo with
        items := repo.items.map fun r => if r.isAt input.source input.externalId then
          { r with url := input.url, title := input.title, publishedAt := input.publishedAt } else r })
  | none =>
      (id, { repo with
        items := repo.items ++
          [⟨id, input.source, input.externalId, input.url, input.title, input.publishedAt⟩] })

/-- The id of the snapshot. -/
def Repo.upsertSnapshot (repo : Repo) (input : SnapshotInput) (draw : Draw) : String × Repo :=
  match repo.snapshots.find? (NoticeSnapshot.isAt input.noticeItemId input.contentHash) with
  | some snapshot => (snapshot.id, repo)
  | none =>
      (draw.id, { repo with
        snapshots := repo.snapshots ++
          [⟨draw.id, input.noticeItemId, draw.now, input.contentHash, input.normalizedText⟩] })

/-- A diff is stored as JSON. -/
def Repo.upsertDiff (repo : Repo) (input : DiffInput) (draw : Draw) : Repo :=
  if repo.diffs.any (NoticeDiff.isAt input.fromSnapshotId input.toSnapshotId) then
    { repo with
      diffs := repo.diffs.map fun r => if r.isAt input.fromSnapshotId input.toSnapshotId then
        { r with diffJson := Js.serialise input.diffJson } else r }
  else
    { repo with
      diffs := repo.diffs ++ [⟨draw.id, input.noticeItemId, input.fromSnapshotId, input.toSnapshotId,
        Js.serialise input.diffJson, draw.now⟩] }

/-! ### The loop -/

structure SyncTotals where
  sources : ℕ
  metasFetched : ℕ
  itemsUpserted : ℕ
  snapshotsUpserted : ℕ
  diffsUpserted : ℕ
  deriving DecidableEq

/-- The repository, and the details whose item has been written. -/
structure SyncState where
  repo : Repo
  stored : List (NoticeSource × PlayncArticleDetail)

abbrev Sync (α : Type) : Type := Exec SyncState α

/-- The calls of `NoticeSyncRepo`. -/
inductive RepoCall where
  | findLatestSnapshot
  | upsertItem
  | upsertSnapshot
  | upsertDiff
  deriving DecidableEq

/-- The calls that the database rejects in a sync, told apart by the number of
items that have been written before. -/
abbrev Rejects : Type := ℕ → RepoCall → Option String

/-- A call that is rejected has written nothing. -/
def callRepo {α : Type} (rejects : Rejects) (call : RepoCall) (f : Repo → α × Repo) : Sync α :=
  fun s =>
    match rejects s.stored.length call with
    | some e => (.error e, s)
    | none => (.ok (f s.repo).1, { s with repo := (f s.repo).2 })

def awaitMetas (round : Round) (options : PlayncLatestOptions) (source : NoticeSource) :
    Sync (List PlayncArticleMeta) :=
  let board := sourceToAlias source
  ofExcept (fetchLatestArticleMetas (round.server board) board options []).1

def awaitDetail (round : Round) (source : NoticeSource) (articleId : String) :
    Sync PlayncArticleDetail :=
  let board := sourceToAlias source
  ofExcept (fetchArticleDetail (round.article board articleId) board articleId)

/-- `publishedAtIso ? new Date(publishedAtIso) : null`. -/
def publishedAt (env : SyncEnv) (detail : PlayncArticleDetail) : Option ℤ :=
  (parseIsoDate env.host (detail.publishedAt.or detail.postedAt)).bind env.host.parseDate

/-- The diff from the latest snapshot, which may be the stored one. -/
def storeChange (env : SyncEnv) (draw : Draw) (rejects : Rejects)
    (itemId normalizedText contentHash : String) (existingLatest : Option NoticeSnapshot)
    (snapshotId : String) (totals : SyncTotals) : Sync SyncTotals :=
  match existingLatest with
  | none => pure totals
  | some existing =>
      if existing.contentHash = contentHash then pure totals
      else if existing.id = snapshotId then pure totals
      else do
        callRepo rejects .upsertDiff fun repo => ((), repo.upsertDiff ⟨itemId, existing.id, snapshotId,
          diffJson env existing.normalizedText normalizedText⟩ draw)
        pure { totals with diffsUpserted := totals.diffsUpserted + 1 }

/-- What is done with a detail, outside a dry run. -/
def store (env : SyncEnv) (draws : ArticleDraws) (rejects : Rejects) (source : NoticeSource)
    (existingLatest : Option NoticeSnapshot) (detail : PlayncArticleDetail) (totals : SyncTotals) :
    Sync SyncTotals := do
  let normalizedText := normalizeNoticeHtmlToText env detail.contentHtml
  let contentHash := env.sha256Hex normalizedText
  let itemId ← callRepo rejects .upsertItem fun repo => repo.upsertItem
    ⟨source, detail.id, detail.url, detail.title, publishedAt env detail⟩ draws.item.id
  modify fun s => { s with stored := s.stored ++ [(source, detail)] }
  let totals := { totals with itemsUpserted := totals.itemsUpserted + 1 }
  let snapshotId ← callRepo rejects .upsertSnapshot fun repo =>
    repo.upsertSnapshot ⟨itemId, contentHash, normalizedText⟩ draws.snapshot
  let totals := { totals with snapshotsUpserted := totals.snapshotsUpserted + 1 }
  storeChange env draws.diff rejects itemId normalizedText contentHash existingLatest snapshotId totals

/-- One round of the inner loop. -/
def syncArticle (env : SyncEnv) (draws : ℕ → ArticleDraws) (dryRun : Bool) (rejects : Rejects)
    (round : Round) (source : NoticeSource) (info : PlayncArticleMeta) (totals : SyncTotals) :
    Sync SyncTotals := do
  let existingLatest ←
    if dryRun then pure none
    else callRepo rejects .findLatestSnapshot fun repo => (repo.findLatestSnapshot source info.id, repo)
  let n ← gets fun s => s.stored.length
  let detail ← awaitDetail round source info.id
  if dryRun then pure totals
  else store env (draws n) rejects source existingLatest detail totals

def syncArticles (env : SyncEnv) (draws : ℕ → ArticleDraws) (dryRun : Bool) (rejects : Rejects)
    (round : Round) (source : NoticeSource) : List PlayncArticleMeta → SyncTotals → Sync SyncTotals
  | [], totals => pure totals
  | info :: metas, totals => do
      let totals ← syncArticle env draws dryRun rejects round source info totals
      syncArticles env draws dryRun rejects round source metas totals

def syncSources (env : SyncEnv) (draws : ℕ → ArticleDraws) (dryRun : Bool) (rejects : Rejects)
    (round : Round) (options : PlayncLatestOptions) :
    List NoticeSource → SyncTotals → Sync SyncTotals
  | [], totals => pure totals
  | source :: sources, totals => do
      let metas ← awaitMetas round options source
      let totals := { totals with metasFetched := totals.metasFetched + metas.length }
      let totals ← syncArticles env draws dryRun rejects round source metas totals
      syncSources env draws dryRun rejects round options sources totals

def syncNotices (env : SyncEnv) (draws : ℕ → ArticleDraws) (options : SyncNoticesOptions)
    (dryRun : Bool) (rejects : Rejects) (round : Round) : Sync SyncTotals :=
  syncSources env draws dryRun rejects round options.latest options.sources
    ⟨options.sources.length, 0, 0, 0, 0⟩

/-! ### Storing, if no call is rejected -/

/-- What `storeChange` makes of the repository. -/
def Repo.storeChange (repo : Repo) (env : SyncEnv) (draw : Draw)
    (itemId normalizedText contentHash : String) (existingLatest : Option NoticeSnapshot)
    (snapshotId : String) : Repo :=
  match existingLatest with
  | none => repo
  | some existing =>
      if existing.contentHash = contentHash then repo
      else if existing.id = snapshotId then repo
      else repo.upsertDiff ⟨itemId, existing.id, snapshotId,
        diffJson env existing.normalizedText normalizedText⟩ draw

/-- What `store` makes of it. -/
def Repo.store (repo : Repo) (env : SyncEnv) (draws : ArticleDraws) (source : NoticeSource)
    (existingLatest : Option NoticeSnapshot) (detail : PlayncArticleDetail) : Repo :=
  let normalizedText := normalizeNoticeHtmlToText env detail.contentHtml
  let contentHash := env.sha256Hex normalizedText
  let item := repo.upsertItem
    ⟨source, detail.id, detail.url, detail.title, publishedAt env detail⟩ draws.item.id
  let snapshot := item.2.upsertSnapshot ⟨item.1, contentHash, normalizedText⟩ draws.snapshot
  snapshot.2.storeChange env draws.diff item.1 normalizedText contentHash existingLatest snapshot.1

section

variable {env : SyncEnv} {rejects : Rejects} {s : SyncState} {source : NoticeSource}

theorem callRepo_ok {α : Type} {call : RepoCall} (h : rejects s.stored.length call = none)
    (f : Repo → α × Repo) :
    callRepo rejects call f s = (.ok (f s.repo).1, { s with repo := (f s.repo).2 }) := by
  rw [callRepo, h]

theorem callRepo_error {α : Type} {call : RepoCall} {e : String}
    (h : rejects s.stored.length call = some e) (f : Repo → α × Repo) :
    callRepo rejects call f s = (.error e, s) := by
  rw [callRepo, h]

variable (env) in
theorem storeChange_ok (hdiff : rejects s.stored.length .upsertDiff = none) (draw : Draw)
    (itemId text contentHash : String) (existingLatest : Option NoticeSnapshot) (snapshotId : String)
    (totals : SyncTotals) :
    ∃ totals', storeChange env draw rejects itemId text contentHash existingLatest snapshotId totals s =
      (.ok totals', { s with
        repo := s.repo.storeChange env draw itemId text contentHash existingLatest snapshotId }) := by
  cases existingLatest with
  | none => exact ⟨_, rfl⟩
  | some existing =>
      rw [storeChange, Repo.storeChange]
      split
      · exact ⟨_, rfl⟩
      split
      · exact ⟨_, rfl⟩
      · exact ⟨_, bind_of_ok (callRepo_ok hdiff _)⟩

/-- Without a rejected call a detail is stored. -/
theorem store_ok (hitem : rejects s.stored.length .upsertItem = none)
    (hsnapshot : rejects (s.stored.length + 1) .upsertSnapshot = none)
    (hdiff : rejects (s.stored.length + 1) .upsertDiff = none) (draws : ArticleDraws)
    (existingLatest : Option NoticeSnapshot) (detail : PlayncArticleDetail) (totals : SyncTotals) :
    ∃ totals', store env draws rejects source existingLatest detail totals s =
      (.ok totals', ⟨s.repo.store env draws source existingLatest detail,
        s.stored ++ [(source, detail)]⟩) := by
  have hlength : (s.stored ++ [(source, detail)]).length = s.stored.length + 1 := List.length_append
  rw [← hlength] at hsnapshot hdiff
  let text := normalizeNoticeHtmlToText env detail.contentHtml
  let item := s.repo.upsertItem
    ⟨source, detail.id, detail.url, detail.title, publishedAt env detail⟩ draws.item.id
  let snapshot := item.2.upsertSnapshot ⟨item.1, env.sha256Hex text, text⟩ draws.snapshot
  have hwritten : callRepo rejects .upsertSnapshot (fun repo =>
      repo.upsertSnapshot ⟨item.1, env.sha256Hex text, text⟩ draws.snapshot)
      ⟨item.2, s.stored ++ [(source, detail)]⟩ =
        (.ok snapshot.1, ⟨snapshot.2, s.stored ++ [(source, detail)]⟩) := callRepo_ok hsnapshot _
  obtain ⟨totals', hchange⟩ := storeChange_ok env (s := ⟨snapshot.2, s.stored ++ [(source, detail)]⟩)
    hdiff draws.diff item.1 text (env.sha256Hex text) existingLatest snapshot.1 { totals with
      itemsUpserted := totals.itemsUpserted + 1
      snapshotsUpserted := totals.snapshotsUpserted + 1 }
  refine ⟨totals', ?_⟩
  rw [store]
  refine (bind_of_ok (callRepo_ok hitem _)).trans ?_
  exact (bind_of_ok rfl).trans ((bind_of_ok hwritten).trans hchange)

/-- If the item is rejected, nothing is stored. -/
theorem store_rejected {e : String} (hitem : rejects s.stored.length .upsertItem = some e)
    (draws : ArticleDraws) (existingLatest : Option NoticeSnapshot) (detail : PlayncArticleDetail)
    (totals : SyncTotals) :
    store env draws rejects source existingLatest detail totals s = (.error e, s) := by
  rw [store]
  exact bind_of_error (callRepo_error hitem _)

variable {s' : SyncState} {totals totals' : SyncTotals}

/-- A call that returns has not been rejected. -/
theorem callRepo_eq_ok {α : Type} {call : RepoCall} {f : Repo → α × Repo} {a : α}
    (h : callRepo rejects call f s = (.ok a, s')) :
    (f s.repo).1 = a ∧ { s with repo := (f s.repo).2 } = s' := by
  rw [callRepo] at h
  split at h
  · cases h
  · obtain ⟨ha, hs⟩ := Prod.mk.inj h
    exact ⟨Except.ok.inj ha, hs⟩

theorem storeChange_eq_ok {draw : Draw} {itemId text contentHash : String}
    {existingLatest : Option NoticeSnapshot} {snapshotId : String}
    (h : storeChange env draw rejects itemId text contentHash existingLatest snapshotId totals s =
      (.ok totals', s')) :
    { s with repo := s.repo.storeChange env draw itemId text contentHash existingLatest snapshotId } =
      s' := by
  cases existingLatest with
  | none =>
      cases h
      rfl
  | some existing =>
      rw [storeChange] at h
      rw [Repo.storeChange]
      split at h
      · rename_i hhash
        cases h
        rw [if_pos hhash]
      split at h
      · rename_i hhash hids
        cases h
        rw [if_neg hhash, if_pos hids]
      · rename_i hhash hids
        obtain ⟨_, s₁, hcall, hrest⟩ := bind_eq_ok h
        obtain ⟨-, rfl⟩ := callRepo_eq_ok hcall
        cases hrest
        rw [if_neg hhash, if_neg hids]

/-- A detail that has been stored has been stored as a whole. -/
theorem store_eq_ok {draws : ArticleDraws} {existingLatest : Option NoticeSnapshot}
    {detail : PlayncArticleDetail}
    (h : store env draws rejects source existingLatest detail totals s = (.ok totals', s')) :
    ⟨s.repo.store env draws source existingLatest detail, s.stored ++ [(source, detail)]⟩ = s' := by
  rw [store] at h
  obtain ⟨itemId, s₁, hitem, hrest⟩ := bind_eq_ok h
  obtain ⟨rfl, rfl⟩ := callRepo_eq_ok hitem
  obtain ⟨_, s₂, hnoted, hrest⟩ := bind_eq_ok hrest
  cases hnoted
  obtain ⟨snapshotId, s₃, hsnapshot, hrest⟩ := bind_eq_ok hrest
  obtain ⟨rfl, rfl⟩ := callRepo_eq_ok hsnapshot
  exact storeChange_eq_ok hrest

end

/-! ### Reading an article -/

def itemOf (repo : Repo) (source : NoticeSource) (externalId : String) : Option NoticeItem :=
  repo.items.find? (NoticeItem.isAt source externalId)

def snapshotsOf (repo : Repo) (itemId : String) : List NoticeSnapshot :=
  repo.snapshots.filter fun s => s.noticeItemId == itemId

def diffsOf (repo : Repo) (itemId : String) : List NoticeDiff :=
  repo.diffs.filter fun d => d.noticeItemId == itemId

def viewSnapshot (s : NoticeSnapshot) : SnapshotView ℤ :=
  ⟨s.id, s.fetchedAt, s.contentHash, s.normalizedText⟩

def viewDiff (d : NoticeDiff) : DiffView ℤ :=
  ⟨d.fromSnapshotId, d.toSnapshotId, d.diffJson, d.createdAt⟩

def archiveOf (repo : Repo) (itemId : String) : Archive ℤ :=
  ⟨(snapshotsOf repo itemId).map viewSnapshot, (diffsOf repo itemId).map viewDiff⟩

def articleOf (repo : Repo) (source : NoticeSource) (externalId : String) : Option (ArticleView ℤ) :=
  (itemOf repo source externalId).map fun r =>
    ⟨r.url, r.title, r.publishedAt.map Date.isoString, archiveOf repo r.id⟩

/-! ### What is drawn -/

/-- The first `n` draws have new ids, and times that go on. -/
structure Drawn (draws : ℕ → ArticleDraws) (n : ℕ) : Prop where
  items : ∀ k < n, ∀ j < k, (draws j).item.id ≠ (draws k).item.id
  snapshots : ∀ k < n, ∀ j < k, (draws j).snapshot.id ≠ (draws k).snapshot.id ∧
    (draws j).snapshot.now < (draws k).snapshot.now
  diffs : ∀ k < n, ∀ j < k, (draws j).diff.now < (draws k).diff.now

/-- The repository holds what the first `n` draws have been used for. -/
structure ItemsSound (draws : ℕ → ArticleDraws) (n : ℕ) (repo : Repo) : Prop where
  ids : repo.items.Pairwise fun r r' => r.id ≠ r'.id
  keys : repo.items.Pairwise fun r r' => (r.source, r.externalId) ≠ (r'.source, r'.externalId)
  drawn : ∀ r ∈ repo.items, ∃ k < n, r.id = (draws k).item.id

structure SnapshotsSound (draws : ℕ → ArticleDraws) (n : ℕ) (repo : Repo) : Prop where
  ids : repo.snapshots.Pairwise fun s s' => s.id ≠ s'.id
  drawn : ∀ s ∈ repo.snapshots,
    ∃ k < n, s.id = (draws k).snapshot.id ∧ s.fetchedAt = (draws k).snapshot.now
  item : ∀ s ∈ repo.snapshots, ∃ r ∈ repo.items, r.id = s.noticeItemId

structure DiffsSound (draws : ℕ → ArticleDraws) (n : ℕ) (repo : Repo) : Prop where
  drawn : ∀ d ∈ repo.diffs, ∃ k < n, d.createdAt = (draws k).diff.now
  snapshot : ∀ d ∈ repo.diffs,
    ∃ s ∈ repo.snapshots, s.id = d.fromSnapshotId ∧ s.noticeItemId = d.noticeItemId

structure Sound (draws : ℕ → ArticleDraws) (n : ℕ) (repo : Repo) : Prop where
  items : ItemsSound draws n repo
  snapshots : SnapshotsSound draws n repo
  diffs : DiffsSound draws n repo

/-- The snapshots of an article are in the order of their times. -/
def InOrder (repo : Repo) (itemId : String) : Prop :=
  (snapshotsOf repo itemId).Pairwise fun s s' => s.fetchedAt < s'.fetchedAt

def marksOf (draws : ArticleDraws) : Marks ℤ :=
  ⟨draws.snapshot.id, draws.snapshot.now, draws.diff.now⟩

section

variable {env : SyncEnv} {draws : ℕ → ArticleDraws} {n : ℕ} {repo : Repo}
variable {source : NoticeSource} {externalId : String}

theorem Drawn.mono (h : Drawn draws n) {m : ℕ} (hm : m ≤ n) : Drawn draws m where
  items := fun k hk => h.items k (hk.trans_le hm)
  snapshots := fun k hk => h.snapshots k (hk.trans_le hm)
  diffs := fun k hk => h.diffs k (hk.trans_le hm)

@[simp] theorem isAt_iff {r : NoticeItem} :
    r.isAt source externalId = true ↔ r.source = source ∧ r.externalId = externalId := by
  rw [NoticeItem.isAt, Bool.and_eq_true, beq_iff_eq, beq_iff_eq]

theorem itemOf_mem {r : NoticeItem} (h : itemOf repo source externalId = some r) :
    r ∈ repo.items ∧ r.source = source ∧ r.externalId = externalId :=
  ⟨List.mem_of_find?_eq_some h, isAt_iff.mp (List.find?_some h)⟩

/-- Rows that differ in what they differ in pairwise are one row if they agree in it. -/
theorem eq_of_pairwise {ρ κ : Type} {f : ρ → κ} {rows : List ρ}
    (h : rows.Pairwise fun r r' => f r ≠ f r') {r r' : ρ} (hr : r ∈ rows) (hr' : r' ∈ rows)
    (hf : f r = f r') : r = r' :=
  List.inj_on_of_nodup_map (List.pairwise_map.mpr h) hr hr' hf

/-- The latest snapshot of the item at the key. -/
theorem findLatestSnapshot_eq (h : ItemsSound draws n repo)
    (horder : ∀ r, itemOf repo source externalId = some r → InOrder repo r.id) :
    repo.findLatestSnapshot source externalId =
      (itemOf repo source externalId).bind fun r => (snapshotsOf repo r.id).getLast? := by
  rw [Repo.findLatestSnapshot]
  cases hitem : itemOf repo source externalId with
  | none =>
      have hnone : ∀ r ∈ repo.items, ¬ r.isAt source externalId = true := List.find?_eq_none.mp hitem
      rw [List.filter_eq_nil_iff.mpr]
      · rfl
      · intro s _ hany
        obtain ⟨r, hr, hmatch⟩ := List.any_eq_true.mp hany
        exact hnone r hr (Bool.and_eq_true_iff.mp hmatch).1
  | some item =>
      obtain ⟨hmem, hsource, hexternal⟩ := itemOf_mem hitem
      have hfilter : (repo.snapshots.filter fun s => repo.items.any fun r =>
          r.isAt source externalId && r.id == s.noticeItemId) = snapshotsOf repo item.id := by
        apply List.filter_congr
        intro s _
        rw [Bool.eq_iff_iff, List.any_eq_true, beq_iff_eq]
        constructor
        · rintro ⟨r, hr, hmatch⟩
          rw [Bool.and_eq_true, isAt_iff, beq_iff_eq] at hmatch
          obtain ⟨⟨hs, he⟩, hid⟩ := hmatch
          obtain rfl : r = item := eq_of_pairwise h.keys hr hmem
            (Prod.ext (hs.trans hsource.symm) (he.trans hexternal.symm))
          exact hid.symm
        · intro hid
          refine ⟨item, hmem, ?_⟩
          rw [Bool.and_eq_true, isAt_iff, beq_iff_eq]
          exact ⟨⟨hsource, hexternal⟩, hid.symm⟩
      rw [hfilter, head?_orderBy_desc (horder item hitem), Option.bind_some]

/-! ### Items -/

/-- What an upsert of an item does. -/
structure ItemUpserted (repo repo' : Repo) (input : ItemInput) (newId itemId : String) : Prop where
  item : ∃ r, itemOf repo' input.source input.externalId = some r ∧ r.id = itemId ∧
    r.url = input.url ∧ r.title = input.title ∧ r.publishedAt = input.publishedAt
  id : itemId = ((itemOf repo input.source input.externalId).map (·.id)).getD newId
  others : ∀ source externalId, (source, externalId) ≠ (input.source, input.externalId) →
    itemOf repo' source externalId = itemOf repo source externalId
  kept : ∀ r ∈ repo.items, ∃ r' ∈ repo'.items, r'.id = r.id
  snapshots : repo'.snapshots = repo.snapshots
  diffs : repo'.diffs = repo.diffs

theorem upsertItem_known (h : ItemsSound draws n repo) {input : ItemInput} {e : NoticeItem}
    (hitem : itemOf repo input.source input.externalId = some e) (newId : String) :
    ItemUpserted repo (repo.upsertItem input newId).2 input newId (repo.upsertItem input newId).1 ∧
      ItemsSound draws (n + 1) (repo.upsertItem input newId).2 := by
  let new (r : NoticeItem) : NoticeItem :=
    { r with url := input.url, title := input.title, publishedAt := input.publishedAt }
  let f (r : NoticeItem) : NoticeItem :=
    if r.isAt input.source input.externalId then new r else r
  have hrun : repo.upsertItem input newId = (e.id, { repo with items := repo.items.map f }) := by
    rw [itemOf] at hitem
    rw [Repo.upsertItem, hitem]
  have hf : ∀ r, (f r).id = r.id ∧ (f r).source = r.source ∧ (f r).externalId = r.externalId := by
    intro r
    dsimp only [f]
    split <;> exact ⟨rfl, rfl, rfl⟩
  have hitems : ∀ source externalId, itemOf { repo with items := repo.items.map f } source externalId =
      (itemOf repo source externalId).map f := by
    intro source externalId
    rw [itemOf, List.find?_map, itemOf]
    congr 2
    funext r
    rw [Function.comp_apply, NoticeItem.isAt, (hf r).2.1, (hf r).2.2]
    rfl
  rw [hrun]
  refine ⟨⟨⟨new e, ?_, rfl, rfl, rfl, rfl⟩, ?_, ?_, ?_, rfl, rfl⟩, ?_, ?_, ?_⟩
  · rw [hitems, hitem, Option.map_some]
    exact congrArg some (if_pos (List.find?_some hitem))
  · rw [hitem]
    rfl
  · intro source externalId hother
    rw [hitems]
    cases hr : itemOf repo source externalId with
    | none => rfl
    | some r =>
        obtain ⟨-, rfl, rfl⟩ := itemOf_mem hr
        refine congrArg some (if_neg fun hsame => hother ?_)
        obtain ⟨hsource, hexternal⟩ := isAt_iff.mp hsame
        exact Prod.ext hsource hexternal
  · intro r hr
    exact ⟨f r, List.mem_map_of_mem hr, (hf r).1⟩
  · apply List.pairwise_map.mpr
    apply h.ids.imp
    intro r r' hne
    rwa [(hf r).1, (hf r').1]
  · apply List.pairwise_map.mpr
    apply h.keys.imp
    intro r r' hne
    rwa [(hf r).2.1, (hf r').2.1, (hf r).2.2, (hf r').2.2]
  · intro r hr
    obtain ⟨q, hq, rfl⟩ := List.mem_map.mp hr
    obtain ⟨k, hk, hid⟩ := h.drawn q hq
    exact ⟨k, hk.trans n.lt_succ_self, (hf q).1.trans hid⟩

theorem upsertItem_new (h : ItemsSound draws n repo) (hdraws : Drawn draws (n + 1)) {input : ItemInput}
    (hitem : itemOf repo input.source input.externalId = none) :
    ItemUpserted repo (repo.upsertItem input (draws n).item.id).2 input (draws n).item.id
        (repo.upsertItem input (draws n).item.id).1 ∧
      ItemsSound draws (n + 1) (repo.upsertItem input (draws n).item.id).2 := by
  let row : NoticeItem :=
    ⟨(draws n).item.id, input.source, input.externalId, input.url, input.title, input.publishedAt⟩
  have hrun : repo.upsertItem input (draws n).item.id =
      ((draws n).item.id, { repo with items := repo.items ++ [row] }) := by
    rw [itemOf] at hitem
    rw [Repo.upsertItem, hitem]
  have hnew : ∀ r ∈ repo.items, r.id ≠ row.id ∧
      (r.source, r.externalId) ≠ (row.source, row.externalId) := by
    intro r hr
    constructor
    · obtain ⟨k, hk, hid⟩ := h.drawn r hr
      rw [hid]
      exact hdraws.items n n.lt_succ_self k hk
    · intro hsame
      exact List.find?_eq_none.mp hitem r hr (isAt_iff.mpr (Prod.mk.inj hsame))
  have hitems : ∀ source externalId, itemOf { repo with items := repo.items ++ [row] } source
      externalId = (itemOf repo source externalId).or
        (if row.isAt source externalId then some row else none) := by
    intro source externalId
    rw [itemOf, List.find?_append, itemOf, List.find?_singleton]
  rw [hrun]
  refine ⟨⟨⟨row, ?_, rfl, rfl, rfl, rfl⟩, ?_, ?_, ?_, rfl, rfl⟩, ?_, ?_, ?_⟩
  · have hrow : row.isAt input.source input.externalId = true := isAt_iff.mpr ⟨rfl, rfl⟩
    rw [hitems, hitem, if_pos hrow]
    rfl
  · rw [hitem]
    rfl
  · intro source externalId hother
    rw [hitems, if_neg, Option.or_none]
    intro hsame
    obtain ⟨rfl, rfl⟩ := isAt_iff.mp hsame
    exact hother rfl
  · intro r hr
    exact ⟨r, List.mem_append_left _ hr, rfl⟩
  · apply List.pairwise_append.mpr
    refine ⟨h.ids, List.pairwise_singleton _ _, ?_⟩
    intro r hr r' hr'
    obtain rfl := List.mem_singleton.mp hr'
    exact (hnew r hr).1
  · apply List.pairwise_append.mpr
    refine ⟨h.keys, List.pairwise_singleton _ _, ?_⟩
    intro r hr r' hr'
    obtain rfl := List.mem_singleton.mp hr'
    exact (hnew r hr).2
  · intro r hr
    rcases List.mem_append.mp hr with hold | hadded
    · obtain ⟨k, hk, hid⟩ := h.drawn r hold
      exact ⟨k, hk.trans n.lt_succ_self, hid⟩
    · obtain rfl := List.mem_singleton.mp hadded
      exact ⟨n, n.lt_succ_self, rfl⟩

theorem upsertItem_spec (h : ItemsSound draws n repo) (hdraws : Drawn draws (n + 1))
    (input : ItemInput) :
    ItemUpserted repo (repo.upsertItem input (draws n).item.id).2 input (draws n).item.id
        (repo.upsertItem input (draws n).item.id).1 ∧
      ItemsSound draws (n + 1) (repo.upsertItem input (draws n).item.id).2 := by
  cases hitem : itemOf repo input.source input.externalId with
  | some e => exact upsertItem_known h hitem _
  | none => exact upsertItem_new h hdraws hitem

/-! ### Snapshots -/

/-- What an upsert of a snapshot does. -/
structure SnapshotUpserted (repo repo' : Repo) (input : SnapshotInput) (draw : Draw) (id : String) :
    Prop where
  id : id = (archiveOf repo input.noticeItemId).snapshotId input.contentHash draw.id
  snapshots : ∀ diffedAt, (snapshotsOf repo' input.noticeItemId).map viewSnapshot =
    (archiveOf repo input.noticeItemId).addSnapshot input.contentHash input.normalizedText
      ⟨draw.id, draw.now, diffedAt⟩
  others : ∀ itemId, itemId ≠ input.noticeItemId → snapshotsOf repo' itemId = snapshotsOf repo itemId
  kept : ∀ s ∈ repo.snapshots, s ∈ repo'.snapshots
  items : repo'.items = repo.items
  diffs : repo'.diffs = repo.diffs

theorem withHash_archiveOf (repo : Repo) (itemId contentHash : String) :
    (archiveOf repo itemId).withHash contentHash =
      (repo.snapshots.find? (NoticeSnapshot.isAt itemId contentHash)).map viewSnapshot := by
  rw [Archive.withHash, archiveOf]
  dsimp only
  rw [List.find?_map, snapshotsOf, List.find?_filter]
  congr 2
  funext r
  rw [Bool.decide_and, Bool.decide_eq_true, Bool.decide_eq_true]
  rfl

theorem mem_snapshotsOf {itemId : String} {s : NoticeSnapshot} :
    s ∈ snapshotsOf repo itemId ↔ s ∈ repo.snapshots ∧ s.noticeItemId = itemId := by
  rw [snapshotsOf, List.mem_filter, beq_iff_eq]

theorem upsertSnapshot_spec (h : SnapshotsSound draws n repo) (hdraws : Drawn draws (n + 1))
    {input : SnapshotInput} (hitem : ∃ r ∈ repo.items, r.id = input.noticeItemId) :
    SnapshotUpserted repo (repo.upsertSnapshot input (draws n).snapshot).2 input (draws n).snapshot
        (repo.upsertSnapshot input (draws n).snapshot).1 ∧
      SnapshotsSound draws (n + 1) (repo.upsertSnapshot input (draws n).snapshot).2 := by
  have hhash := withHash_archiveOf repo input.noticeItemId input.contentHash
  have hold : ∀ s ∈ repo.snapshots,
      ∃ k < n + 1, s.id = (draws k).snapshot.id ∧ s.fetchedAt = (draws k).snapshot.now := by
    intro s hs
    obtain ⟨k, hk, hid⟩ := h.drawn s hs
    exact ⟨k, hk.trans n.lt_succ_self, hid⟩
  rw [Repo.upsertSnapshot]
  cases hs : repo.snapshots.find? (NoticeSnapshot.isAt input.noticeItemId input.contentHash) with
  | some s =>
      rw [hs] at hhash
      refine ⟨⟨?_, ?_, fun _ _ => rfl, fun _ h => h, rfl, rfl⟩, h.ids, hold, h.item⟩
      · rw [Archive.snapshotId, hhash]
        rfl
      · intro diffedAt
        rw [Archive.addSnapshot, hhash]
        rfl
  | none =>
      rw [hs] at hhash
      let row : NoticeSnapshot := ⟨(draws n).snapshot.id, input.noticeItemId, (draws n).snapshot.now,
        input.contentHash, input.normalizedText⟩
      have hsnapshots : ∀ itemId,
          snapshotsOf { repo with snapshots := repo.snapshots ++ [row] } itemId =
            snapshotsOf repo itemId ++ if input.noticeItemId = itemId then [row] else [] := by
        intro itemId
        rw [snapshotsOf, List.filter_append, snapshotsOf, List.filter_cons, List.filter_nil]
        congr 1
        simp only [beq_iff_eq]
        rfl
      refine ⟨⟨?_, ?_, ?_, ?_, rfl, rfl⟩, ?_, ?_, ?_⟩
      · rw [Archive.snapshotId, hhash]
        rfl
      · intro diffedAt
        rw [Archive.addSnapshot, hhash]
        show (snapshotsOf { repo with snapshots := repo.snapshots ++ [row] } _).map _ = _
        rw [hsnapshots, if_pos rfl, List.map_append]
        rfl
      · intro itemId hother
        show snapshotsOf { repo with snapshots := repo.snapshots ++ [row] } _ = _
        rw [hsnapshots, if_neg hother.symm, List.append_nil]
      · intro s hs
        exact List.mem_append_left _ hs
      · apply List.pairwise_append.mpr
        refine ⟨h.ids, List.pairwise_singleton _ _, ?_⟩
        intro s hs s' hs'
        obtain rfl := List.mem_singleton.mp hs'
        obtain ⟨k, hk, hid, -⟩ := h.drawn s hs
        rw [hid]
        exact (hdraws.snapshots n n.lt_succ_self k hk).1
      · intro s hs
        rcases List.mem_append.mp hs with hin | hnew
        · exact hold s hin
        · obtain rfl := List.mem_singleton.mp hnew
          exact ⟨n, n.lt_succ_self, rfl, rfl⟩
      · intro s hs
        rcases List.mem_append.mp hs with hin | hnew
        · exact h.item s hin
        · obtain rfl := List.mem_singleton.mp hnew
          exact hitem

/-! ### Diffs -/

/-- What an upsert of a diff does. -/
structure DiffUpserted (repo repo' : Repo) (input : DiffInput) (draw : Draw) : Prop where
  diffs : (diffsOf repo' input.noticeItemId).map viewDiff =
    addDiff ((diffsOf repo input.noticeItemId).map viewDiff) input.fromSnapshotId
      input.toSnapshotId (Js.serialise input.diffJson) draw.now
  others : ∀ itemId, itemId ≠ input.noticeItemId → diffsOf repo' itemId = diffsOf repo itemId
  items : repo'.items = repo.items
  snapshots : repo'.snapshots = repo.snapshots

theorem mem_diffsOf {itemId : String} {d : NoticeDiff} :
    d ∈ diffsOf repo itemId ↔ d ∈ repo.diffs ∧ d.noticeItemId = itemId := by
  rw [diffsOf, List.mem_filter, beq_iff_eq]

theorem DiffsSound.succ (h : DiffsSound draws n repo) : DiffsSound draws (n + 1) repo := by
  refine ⟨?_, h.snapshot⟩
  intro d hd
  obtain ⟨k, hk, htime⟩ := h.drawn d hd
  exact ⟨k, hk.trans n.lt_succ_self, htime⟩

theorem upsertDiff_spec (h : DiffsSound draws n repo)
    (hsnapshots : repo.snapshots.Pairwise fun s s' => s.id ≠ s'.id) (input : DiffInput)
    (hfrom : ∃ s ∈ repo.snapshots, s.id = input.fromSnapshotId ∧
      s.noticeItemId = input.noticeItemId) :
    DiffUpserted repo (repo.upsertDiff input (draws n).diff) input (draws n).diff ∧
      DiffsSound draws (n + 1) (repo.upsertDiff input (draws n).diff) := by
  -- a diff that starts from a snapshot of an article is a diff of the article
  have hitem : ∀ d ∈ repo.diffs, d.isAt input.fromSnapshotId input.toSnapshotId = true →
      d.noticeItemId = input.noticeItemId := by
    intro d hd hat
    rw [NoticeDiff.isAt, Bool.and_eq_true, beq_iff_eq, beq_iff_eq] at hat
    obtain ⟨s, hs, hid, hof⟩ := h.snapshot d hd
    obtain ⟨s', hs', hid', hof'⟩ := hfrom
    obtain rfl : s = s' := eq_of_pairwise hsnapshots hs hs' (hid.trans (hat.1.trans hid'.symm))
    rw [← hof, hof']
  have hany : ((diffsOf repo input.noticeItemId).map viewDiff).any
      (DiffView.joins input.fromSnapshotId input.toSnapshotId) =
        repo.diffs.any (NoticeDiff.isAt input.fromSnapshotId input.toSnapshotId) := by
    rw [Bool.eq_iff_iff, List.any_map, List.any_eq_true, List.any_eq_true]
    constructor
    · rintro ⟨d, hd, hat⟩
      exact ⟨d, (mem_diffsOf.mp hd).1, hat⟩
    · rintro ⟨d, hd, hat⟩
      exact ⟨d, mem_diffsOf.mpr ⟨hd, hitem d hd hat⟩, hat⟩
  rw [Repo.upsertDiff]
  by_cases hknown : repo.diffs.any (NoticeDiff.isAt input.fromSnapshotId input.toSnapshotId) = true
  · rw [if_pos hknown]
    let f (r : NoticeDiff) : NoticeDiff := if r.isAt input.fromSnapshotId input.toSnapshotId then
      { r with diffJson := Js.serialise input.diffJson } else r
    have hf : ∀ r, (f r).noticeItemId = r.noticeItemId ∧ (f r).fromSnapshotId = r.fromSnapshotId ∧
        (f r).createdAt = r.createdAt := by
      intro r
      dsimp only [f]
      split <;> exact ⟨rfl, rfl, rfl⟩
    have hdiffs : ∀ itemId, diffsOf { repo with diffs := repo.diffs.map f } itemId =
        (diffsOf repo itemId).map f := by
      intro itemId
      rw [diffsOf, List.filter_map, diffsOf]
      congr 2
      funext r
      rw [Function.comp_apply, (hf r).1]
    refine ⟨⟨?_, ?_, rfl, rfl⟩, ?_, ?_⟩
    · show (diffsOf { repo with diffs := repo.diffs.map f } _).map _ = _
      rw [addDiff, if_pos (hany.trans hknown), hdiffs, List.map_map, List.map_map]
      apply List.map_congr_left
      intro r _
      show viewDiff (f r) = if r.isAt _ _ then _ else viewDiff r
      dsimp only [f]
      split <;> rfl
    · intro itemId hother
      show diffsOf { repo with diffs := repo.diffs.map f } _ = _
      rw [hdiffs]
      conv_rhs => rw [← List.map_id (diffsOf repo itemId)]
      apply List.map_congr_left
      intro r hr
      obtain ⟨hrmem, hof⟩ := mem_diffsOf.mp hr
      exact if_neg fun hat => hother (hof.symm.trans (hitem r hrmem hat))
    · intro d hd
      obtain ⟨q, hq, rfl⟩ := List.mem_map.mp hd
      obtain ⟨k, hk, htime⟩ := h.drawn q hq
      exact ⟨k, hk.trans n.lt_succ_self, (hf q).2.2.trans htime⟩
    · intro d hd
      obtain ⟨q, hq, rfl⟩ := List.mem_map.mp hd
      show ∃ s ∈ repo.snapshots, s.id = (f q).fromSnapshotId ∧ s.noticeItemId = (f q).noticeItemId
      rw [(hf q).1, (hf q).2.1]
      exact h.snapshot q hq
  · rw [if_neg hknown]
    let row : NoticeDiff := ⟨(draws n).diff.id, input.noticeItemId, input.fromSnapshotId,
      input.toSnapshotId, Js.serialise input.diffJson, (draws n).diff.now⟩
    have hdiffs : ∀ itemId, diffsOf { repo with diffs := repo.diffs ++ [row] } itemId =
        diffsOf repo itemId ++ if input.noticeItemId = itemId then [row] else [] := by
      intro itemId
      rw [diffsOf, List.filter_append, diffsOf, List.filter_cons, List.filter_nil]
      congr 1
      simp only [beq_iff_eq]
      rfl
    refine ⟨⟨?_, ?_, rfl, rfl⟩, ?_, ?_⟩
    · show (diffsOf { repo with diffs := repo.diffs ++ [row] } _).map _ = _
      rw [addDiff, if_neg (fun hsome => hknown (hany.symm.trans hsome)), hdiffs, if_pos rfl,
        List.map_append]
      rfl
    · intro itemId hother
      show diffsOf { repo with diffs := repo.diffs ++ [row] } _ = _
      rw [hdiffs, if_neg hother.symm, List.append_nil]
    · intro d hd
      rcases List.mem_append.mp hd with hin | hnew
      · exact h.succ.drawn d hin
      · obtain rfl := List.mem_singleton.mp hnew
        exact ⟨n, n.lt_succ_self, rfl⟩
    · intro d hd
      rcases List.mem_append.mp hd with hin | hnew
      · exact h.snapshot d hin
      · obtain rfl := List.mem_singleton.mp hnew
        exact hfrom

/-! ### Storing a detail -/

/-- What noticing a change does. -/
structure ChangeStored (env : SyncEnv) (draw : Draw) (itemId text snapshotId : String)
    (before : Option NoticeSnapshot) (repo repo' : Repo) : Prop where
  diffs : (diffsOf repo' itemId).map viewDiff =
    noticeChange env.sha256Hex (storedJson env) (before.map viewSnapshot)
      ((diffsOf repo itemId).map viewDiff) text snapshotId draw.now
  others : ∀ itemId', itemId' ≠ itemId → diffsOf repo' itemId' = diffsOf repo itemId'
  items : repo'.items = repo.items
  snapshots : repo'.snapshots = repo.snapshots

theorem Repo.storeChange_spec (h : DiffsSound draws n repo)
    (hsnapshots : repo.snapshots.Pairwise fun s s' => s.id ≠ s'.id) {itemId text : String}
    {before : Option NoticeSnapshot} (hbefore : ∀ s ∈ before, s ∈ snapshotsOf repo itemId)
    (snapshotId : String) :
    ChangeStored env (draws n).diff itemId text snapshotId before repo
        (repo.storeChange env (draws n).diff itemId text (env.sha256Hex text) before snapshotId) ∧
      DiffsSound draws (n + 1) (repo.storeChange env (draws n).diff itemId text (env.sha256Hex text)
        before snapshotId) := by
  cases before with
  | none => exact ⟨⟨rfl, fun _ _ => rfl, rfl, rfl⟩, h.succ⟩
  | some before =>
      rw [Repo.storeChange]
      by_cases hhash : before.contentHash = env.sha256Hex text
      · rw [if_pos hhash]
        exact ⟨⟨(if_pos hhash).symm, fun _ _ => rfl, rfl, rfl⟩, h.succ⟩
      · rw [if_neg hhash]
        by_cases hids : before.id = snapshotId
        · rw [if_pos hids]
          exact ⟨⟨((if_neg hhash).trans (if_pos hids)).symm, fun _ _ => rfl, rfl, rfl⟩, h.succ⟩
        · rw [if_neg hids]
          obtain ⟨hmem, hitem⟩ := mem_snapshotsOf.mp (hbefore before rfl)
          obtain ⟨hup, hsound⟩ := upsertDiff_spec h hsnapshots ⟨itemId, before.id, snapshotId,
            diffJson env before.normalizedText text⟩ ⟨before, hmem, rfl, hitem⟩
          refine ⟨⟨?_, hup.others, hup.items, hup.snapshots⟩, hsound⟩
          rw [hup.diffs]
          exact ((if_neg hhash).trans (if_neg hids)).symm

/-- An item that is not there has no snapshots and no diffs. -/
theorem Sound.archiveOf_new (h : Sound draws n repo) {itemId : String}
    (hnew : ∀ r ∈ repo.items, r.id ≠ itemId) : archiveOf repo itemId = Archive.empty := by
  have hsnapshots : snapshotsOf repo itemId = [] := by
    apply List.filter_eq_nil_iff.mpr
    intro s hs hitem
    obtain ⟨r, hr, hid⟩ := h.snapshots.item s hs
    exact hnew r hr (hid.trans (beq_iff_eq.mp hitem))
  have hdiffs : diffsOf repo itemId = [] := by
    apply List.filter_eq_nil_iff.mpr
    intro d hd hitem
    obtain ⟨s, hs, -, hsame⟩ := h.diffs.snapshot d hd
    obtain ⟨r, hr, hid⟩ := h.snapshots.item s hs
    exact hnew r hr (hid.trans (hsame.trans (beq_iff_eq.mp hitem)))
  rw [archiveOf, hsnapshots, hdiffs]
  rfl

theorem Sound.fresh (h : Sound draws n repo) (hdraws : Drawn draws (n + 1)) (itemId : String) :
    (marksOf (draws n)).Fresh (archiveOf repo itemId) where
  id := by
    intro v hv
    obtain ⟨s, hs, rfl⟩ := List.mem_map.mp hv
    obtain ⟨k, hk, hid, -⟩ := h.snapshots.drawn s (mem_snapshotsOf.mp hs).1
    show s.id ≠ _
    rw [hid]
    exact (hdraws.snapshots n n.lt_succ_self k hk).1
  time := by
    intro v hv
    obtain ⟨s, hs, rfl⟩ := List.mem_map.mp hv
    obtain ⟨k, hk, -, htime⟩ := h.snapshots.drawn s (mem_snapshotsOf.mp hs).1
    show s.fetchedAt < _
    rw [htime]
    exact (hdraws.snapshots n n.lt_succ_self k hk).2
  diffTime := by
    intro v hv
    obtain ⟨d, hd, rfl⟩ := List.mem_map.mp hv
    obtain ⟨k, hk, htime⟩ := h.diffs.drawn d (mem_diffsOf.mp hd).1
    show d.createdAt < _
    rw [htime]
    exact hdraws.diffs n n.lt_succ_self k hk

/-- The date that is stored is the one that the detail says. -/
theorem publishedAt_isoString (detail : PlayncArticleDetail) :
    (publishedAt env detail).map Date.isoString = (contentOf env detail).publishedAt := by
  rw [publishedAt, contentOf, parseIsoDate]
  dsimp only
  cases htime : (nonEmpty (detail.publishedAt.or detail.postedAt)).bind env.host.parseDate with
  | none => rfl
  | some t =>
      obtain ⟨value, -, hparse⟩ := Option.bind_eq_some_iff.mp htime
      rw [Option.map_some, Option.bind_some, env.host.parse_iso t (env.host.parse_valid value t hparse)]
      rfl

/-- What storing a detail does. -/
structure Stored (env : SyncEnv) (draws : ArticleDraws) (source : NoticeSource)
    (detail : PlayncArticleDetail) (repo repo' : Repo) : Prop where
  article : articleOf repo' source detail.id =
    some (ArticleView.fetch env.sha256Hex (storedJson env) (articleOf repo source detail.id)
      (contentOf env detail) (marksOf draws))
  others : ∀ source' externalId, (source', externalId) ≠ (source, detail.id) →
    articleOf repo' source' externalId = articleOf repo source' externalId

theorem ItemUpserted.snapshotsOf_eq {repo' : Repo} {input : ItemInput} {newId itemId : String}
    (h : ItemUpserted repo repo' input newId itemId) {id : String} :
    snapshotsOf repo' id = snapshotsOf repo id := by
  rw [snapshotsOf, h.snapshots]
  rfl

theorem ItemUpserted.diffsOf_eq {repo' : Repo} {input : ItemInput} {newId itemId : String}
    (h : ItemUpserted repo repo' input newId itemId) {id : String} :
    diffsOf repo' id = diffsOf repo id := by
  rw [diffsOf, h.diffs]
  rfl

theorem SnapshotsSound.of_upsertItem {repo' : Repo} {input : ItemInput} {newId itemId : String}
    (h : SnapshotsSound draws n repo) (hitem : ItemUpserted repo repo' input newId itemId) :
    SnapshotsSound draws n repo' := by
  rw [show repo' = { repo' with snapshots := repo.snapshots } by rw [← hitem.snapshots]]
  refine ⟨h.ids, h.drawn, ?_⟩
  intro s hs
  obtain ⟨q, hq, hid⟩ := h.item s hs
  obtain ⟨q', hq', hsame⟩ := hitem.kept q hq
  exact ⟨q', hq', hsame.trans hid⟩

/-- Diffs stay sound while no snapshot goes. -/
theorem DiffsSound.of_same {repo' : Repo} (h : DiffsSound draws n repo)
    (hdiffs : repo'.diffs = repo.diffs) (hkept : ∀ s ∈ repo.snapshots, s ∈ repo'.snapshots) :
    DiffsSound draws n repo' := by
  rw [show repo' = { repo' with diffs := repo.diffs } by rw [← hdiffs]]
  refine ⟨h.drawn, ?_⟩
  intro d hd
  obtain ⟨s, hs, hid⟩ := h.snapshot d hd
  exact ⟨s, hkept s hs, hid⟩

/-- The item that is upserted is the one that was there, or it has nothing yet. -/
theorem ItemUpserted.before {repo' : Repo} {input : ItemInput} {itemId : String}
    (hitem : ItemUpserted repo repo' input (draws n).item.id itemId) (h : Sound draws n repo)
    (hdraws : Drawn draws (n + 1))
    (horder : ∀ r, itemOf repo input.source input.externalId = some r → InOrder repo r.id) :
    archiveOf repo itemId =
        ((articleOf repo input.source input.externalId).map (·.archive)).getD Archive.empty ∧
      repo.findLatestSnapshot input.source input.externalId = (snapshotsOf repo itemId).getLast? := by
  have hid := hitem.id
  rw [articleOf, findLatestSnapshot_eq h.items horder]
  cases he : itemOf repo input.source input.externalId with
  | some e =>
      rw [he] at hid
      rw [show itemId = e.id from hid]
      exact ⟨rfl, rfl⟩
  | none =>
      rw [he] at hid
      have hnew : ∀ q ∈ repo.items, q.id ≠ itemId := by
        intro q hq hsame
        obtain ⟨k, hk, hqid⟩ := h.items.drawn q hq
        exact hdraws.items n n.lt_succ_self k hk (hqid.symm.trans (hsame.trans hid))
      have hempty := h.archiveOf_new hnew
      refine ⟨hempty, ?_⟩
      rw [List.map_eq_nil_iff.mp (congrArg (·.snapshots) hempty)]
      rfl

/-- **To store a detail is to fetch an article.** -/
theorem Repo.store_spec (env : SyncEnv) (hdraws : Drawn draws (n + 1)) (h : Sound draws n repo)
    {detail : PlayncArticleDetail}
    (horder : ∀ r, itemOf repo source detail.id = some r → InOrder repo r.id) :
    Stored env (draws n) source detail repo
        (repo.store env (draws n) source (repo.findLatestSnapshot source detail.id) detail) ∧
      Sound draws (n + 1)
        (repo.store env (draws n) source (repo.findLatestSnapshot source detail.id) detail) := by
  let text := normalizeNoticeHtmlToText env detail.contentHtml
  let input : ItemInput := ⟨source, detail.id, detail.url, detail.title, publishedAt env detail⟩
  let item := repo.upsertItem input (draws n).item.id
  obtain ⟨hitem, hitems₁⟩ : ItemUpserted repo item.2 input (draws n).item.id item.1 ∧
    ItemsSound draws (n + 1) item.2 := upsertItem_spec h.items hdraws input
  obtain ⟨r, hr, hrid, hurl, htitle, hpublished⟩ := hitem.item
  obtain ⟨hrmem, hrsource, hrexternal⟩ := itemOf_mem hr
  have hsnapshots₁ : SnapshotsSound draws n item.2 := h.snapshots.of_upsertItem hitem
  have hbefore : archiveOf repo item.1 =
      ((articleOf repo source detail.id).map (·.archive)).getD Archive.empty ∧
      repo.findLatestSnapshot source detail.id = (snapshotsOf repo item.1).getLast? :=
    hitem.before h hdraws horder
  let snapshot := item.2.upsertSnapshot ⟨item.1, env.sha256Hex text, text⟩ (draws n).snapshot
  obtain ⟨hsnapshot, hsnapshots₂⟩ : SnapshotUpserted item.2 snapshot.2
      ⟨item.1, env.sha256Hex text, text⟩ (draws n).snapshot snapshot.1 ∧
    SnapshotsSound draws (n + 1) snapshot.2 := upsertSnapshot_spec hsnapshots₁ hdraws ⟨r, hrmem, hrid⟩
  have hdiffs₂ : DiffsSound draws n snapshot.2 :=
    h.diffs.of_same (hsnapshot.diffs.trans hitem.diffs) fun s hs =>
      hsnapshot.kept s (hitem.snapshots ▸ hs)
  have hmem : ∀ s ∈ repo.findLatestSnapshot source detail.id, s ∈ snapshotsOf snapshot.2 item.1 := by
    intro s hs
    rw [hbefore.2] at hs
    obtain ⟨hs, hof⟩ := mem_snapshotsOf.mp (List.mem_of_getLast? hs)
    exact mem_snapshotsOf.mpr ⟨hsnapshot.kept s (hitem.snapshots ▸ hs), hof⟩
  let change := snapshot.2.storeChange env (draws n).diff item.1 text (env.sha256Hex text)
    (repo.findLatestSnapshot source detail.id) snapshot.1
  obtain ⟨hchange, hdiffs₃⟩ : ChangeStored env (draws n).diff item.1 text snapshot.1
      (repo.findLatestSnapshot source detail.id) snapshot.2 change ∧
    DiffsSound draws (n + 1) change := Repo.storeChange_spec hdiffs₂ hsnapshots₂.ids hmem _
  have hitems : change.items = item.2.items := hchange.items.trans hsnapshot.items
  have hitemOf : ∀ source externalId, itemOf change source externalId =
      itemOf item.2 source externalId := by
    intro source externalId
    rw [itemOf, hitems]
    rfl
  show Stored env (draws n) source detail repo change ∧ Sound draws (n + 1) change
  refine ⟨⟨?_, ?_⟩, ⟨?_, ?_, hdiffs₃⟩⟩
  · have harchive : archiveOf change item.1 =
        (archiveOf repo item.1).add env.sha256Hex (storedJson env) text (marksOf (draws n)) := by
      have hsame : archiveOf item.2 item.1 = archiveOf repo item.1 := by
        rw [archiveOf, hitem.snapshotsOf_eq, hitem.diffsOf_eq]
        rfl
      have hdiffsSame : diffsOf snapshot.2 item.1 = diffsOf repo item.1 := by
        rw [diffsOf, hsnapshot.diffs]
        exact hitem.diffsOf_eq
      have hids := hsnapshot.id
      have hadded := hsnapshot.snapshots (draws n).diff.now
      rw [hsame] at hids hadded
      rw [archiveOf, hchange.diffs, snapshotsOf, hchange.snapshots, Archive.add, hbefore.2, hids,
        hdiffsSame, Archive.latestSnapshot]
      refine congrArg₂ Archive.mk hadded ?_
      rw [archiveOf, List.getLast?_map]
      rfl
    rw [articleOf, hitemOf, hr, Option.map_some, hrid, harchive, hurl, htitle, hpublished,
      publishedAt_isoString, ArticleView.fetch, ← hbefore.1]
    rfl
  · intro source' externalId hother
    have hsame : itemOf change source' externalId = itemOf repo source' externalId :=
      (hitemOf _ _).trans (hitem.others source' externalId hother)
    rw [articleOf, articleOf, hsame]
    cases hq : itemOf repo source' externalId with
    | none => rfl
    | some q =>
        obtain ⟨hqmem, rfl, rfl⟩ := itemOf_mem ((hitem.others source' externalId hother).trans hq)
        have hne : q.id ≠ item.1 := by
          intro hid
          obtain rfl : q = r := eq_of_pairwise hitems₁.ids hqmem hrmem (hid.trans hrid.symm)
          exact hother (congrArg₂ Prod.mk hrsource hrexternal)
        have harchive : archiveOf change q.id = archiveOf repo q.id := by
          have hdiffsSame : diffsOf snapshot.2 q.id = diffsOf repo q.id := by
            rw [diffsOf, hsnapshot.diffs]
            exact hitem.diffsOf_eq
          have hsnapshotsSame := (hsnapshot.others q.id hne).trans hitem.snapshotsOf_eq
          rw [archiveOf, hchange.others q.id hne, snapshotsOf, hchange.snapshots, hdiffsSame]
          exact congrArg₂ Archive.mk (congrArg _ hsnapshotsSame) rfl
        rw [Option.map_some, Option.map_some, harchive]
  · rw [show change = { change with items := item.2.items } by rw [← hitems]]
    exact ⟨hitems₁.ids, hitems₁.keys, hitems₁.drawn⟩
  · have hsnapshots : change.snapshots = snapshot.2.snapshots := hchange.snapshots
    rw [show change = { change with items := snapshot.2.items, snapshots := snapshot.2.snapshots } by
      rw [← hchange.items, ← hsnapshots]]
    exact ⟨hsnapshots₂.ids, hsnapshots₂.drawn, hsnapshots₂.item⟩

end

end Hub.Worker
