/-
Aion2Hub/Notices/History.lean

The notice tables of the desktop app are a record of what has been fetched.

To store a detail is to fetch it in the sense of `Notices/Archive`
(`storeDetail_ok`).  So after any number of syncs, whether they succeed or
fail, and whatever other handlers do meanwhile, every article is stored with the
record of its texts (`archived_of_synced`).
-/
import Aion2Hub.Notices.Stored
import Aion2Hub.Storage.Footprint

namespace Hub

open Sql Exec

/-! ### Details as fetches -/

def storedStamp (env : SyncEnv) (draws : ArticleDraws) (metaUpdatedAt : Option String)
    (detail : PlayncArticleDetail) : String :=
  (metaUpdatedAt.or (parseIsoDate env.host detail.updatedAt)).getD (stamp draws.item.now)

/-- What a detail says. -/
def contentOf (env : SyncEnv) (detail : PlayncArticleDetail) : Content where
  url := detail.url
  title := detail.title
  publishedAt := parseIsoDate env.host (detail.publishedAt.or detail.postedAt)
  text := normalizeNoticeHtmlToText env detail.contentHtml

/-- The lines of a diff, as they are stored. -/
def storedJson (env : SyncEnv) (fromText toText : String) : Js :=
  Js.serialise (diffJson env fromText toText)

def marksOf (draws : ArticleDraws) : Marks String :=
  ⟨draws.snapshot.id, stamp draws.snapshot.now, stamp draws.diff.now⟩

structure NoticesSound (draws : ℕ → ArticleDraws) (n : ℕ) (db : Db Row) : Prop where
  items : ItemsSound draws n db
  snapshots : SnapshotsSound draws n db
  diffs : DiffsSound draws n db

/-- The snapshots of an article are in the order of their times. -/
def InOrder (db : Db Row) (itemId : String) : Prop :=
  (snapshotsOf db itemId).Pairwise fun s s' => s.fetchedAt < s'.fetchedAt

section

variable {env : SyncEnv} {draws : ℕ → ArticleDraws} {n : ℕ} {db db' : Db Row} {c : Conn}

theorem getLatestSnapshot_apply {itemId : String} (h : InOrder c.db itemId)
    (hwhole : ∀ s ∈ snapshotsOf c.db itemId, schema.Whole .noticeSnapshot s) :
    getLatestSnapshot itemId c = (.ok (snapshotsOf c.db itemId).getLast?, c) := by
  have hrows : ∀ s ∈ orderBy (desc (·.fetchedAt) anyOrder) (snapshotsOf c.db itemId),
      schema.Whole .noticeSnapshot s := fun s hs => hwhole s ((orderBy_perm _ _).mem_iff.mp hs)
  show (Except.ok ((orderBy (desc (·.fetchedAt) anyOrder) (snapshotsOf c.db itemId)).map
    (schema.read .noticeSnapshot)).head?, c) = _
  rw [Schema.map_read hrows, head?_orderBy_desc h]

theorem latestSnapshot_archiveOf (itemId : String) :
    (archiveOf db itemId).latestSnapshot = (snapshotsOf db itemId).getLast?.map viewSnapshot := by
  rw [Archive.latestSnapshot, archiveOf, List.getLast?_map]

theorem DiffsSound.succ (h : DiffsSound draws n db) : DiffsSound draws (n + 1) db := by
  refine ⟨h.distinct, ?_, h.snapshot, h.toId⟩
  intro d hd
  obtain ⟨k, hk, hid⟩ := h.drawn d hd
  exact ⟨k, hk.trans n.lt_succ_self, hid⟩

theorem NoticesSound.whole (h : NoticesSound draws n db) {itemId : String} :
    (∀ s ∈ snapshotsOf db itemId, schema.Whole .noticeSnapshot s) ∧
      ∀ d ∈ diffsOf db itemId, schema.Whole .noticeDiff d :=
  ⟨fun _ hs => h.snapshots.whole h.items (mem_snapshotsOf.mp hs).1,
    fun _ hd => h.diffs.whole h.items h.snapshots (mem_diffsOf.mp hd).1⟩

/-- An item that is not there has no snapshots and no diffs. -/
theorem NoticesSound.archiveOf_new (h : NoticesSound draws n db) {itemId : String}
    (hnew : ¬ schema.hasKey db .noticeItem itemId) : archiveOf db itemId = Archive.empty := by
  have hsnapshots : snapshotsOf db itemId = [] := by
    apply List.filter_eq_nil_iff.mpr
    intro s hs hitem
    exact hnew (beq_iff_eq.mp hitem ▸ h.snapshots.item s hs)
  have hdiffs : diffsOf db itemId = [] := by
    apply List.filter_eq_nil_iff.mpr
    intro d hd hitem
    obtain ⟨s, hs, -, hsame⟩ := h.diffs.snapshot d hd
    exact hnew (beq_iff_eq.mp hitem ▸ hsame ▸ h.snapshots.item s hs)
  rw [archiveOf, hsnapshots, hdiffs]
  rfl

/-- What is drawn for the next detail is new. -/
theorem NoticesSound.fresh (h : NoticesSound draws n db) (hdraws : Drawn draws (n + 1))
    (itemId : String) : (marksOf (draws n)).Fresh (archiveOf db itemId) where
  id := by
    intro v hv
    obtain ⟨s, hs, rfl⟩ := List.mem_map.mp hv
    exact h.snapshots.id_ne hdraws (mem_snapshotsOf.mp hs).1
  time := by
    intro v hv
    obtain ⟨s, hs, rfl⟩ := List.mem_map.mp hv
    obtain ⟨k, hk, -, htime⟩ := h.snapshots.drawn s (mem_snapshotsOf.mp hs).1
    show s.fetchedAt < _
    rw [htime]
    exact (hdraws.snapshots n n.lt_succ_self k hk).2
  diffTime := by
    intro v hv
    obtain ⟨d, hd, rfl⟩ := List.mem_map.mp hv
    obtain ⟨k, hk, -, htime⟩ := h.diffs.drawn d (mem_diffsOf.mp hd).1
    show d.createdAt < _
    rw [htime]
    exact (hdraws.diffs n n.lt_succ_self k hk).2

/-! ### Storing a text -/

theorem DiffsSound.of_snapshot {input : SnapshotInput} {draw : Draw} {up : Upserted}
    (hup : SnapshotUpserted db db' input draw up) (h : DiffsSound draws n db) :
    DiffsSound draws n db' := by
  have htable : db' .noticeDiff = db .noticeDiff := hup.tables .noticeDiff (by decide)
  refine ⟨?_, ?_, ?_, ?_⟩
  · rw [htable]
    exact h.distinct
  · intro d hd
    rw [htable] at hd
    exact h.drawn d hd
  · intro d hd
    rw [htable] at hd
    obtain ⟨s, hs, hid⟩ := h.snapshot d hd
    exact ⟨s, hup.kept s hs, hid⟩
  · intro d hd
    rw [htable] at hd
    obtain ⟨s, hs, hid⟩ := h.toId d hd
    exact ⟨s, hup.kept s hs, hid⟩

theorem SnapshotsSound.of_diff {input : DiffInput} {draw : Draw}
    (hup : DiffUpserted db db' input draw) (h : SnapshotsSound draws n db) :
    SnapshotsSound draws n db' := by
  have htable : db' .noticeSnapshot = db .noticeSnapshot := hup.tables .noticeSnapshot (by decide)
  refine ⟨?_, ?_, ?_, ?_⟩
  · rw [htable]
    exact h.distinct
  · intro s hs
    rw [htable] at hs
    exact h.drawn s hs
  · intro s hs
    rw [htable] at hs
    rw [Schema.hasKey, hup.tables .noticeItem (by decide)]
    exact h.item s hs
  · rw [htable]
    exact h.texts

/-- What noticing a change does. -/
structure ChangeStored (env : SyncEnv) (draw : Draw) (itemId text snapshotId : String)
    (before : Option NoticeSnapshot) (db db' : Db Row) : Prop where
  diffs : (diffsOf db' itemId).map viewDiff =
    noticeChange env.sha256Hex (storedJson env) (before.map viewSnapshot)
      ((diffsOf db itemId).map viewDiff) text snapshotId (stamp draw.now)
  others : ∀ itemId', itemId' ≠ itemId → diffsOf db' itemId' = diffsOf db itemId'
  tables : ∀ t, t ≠ .noticeDiff → db' t = db t

theorem storeChange_ok (env : SyncEnv) (hdraws : Drawn draws (n + 1))
    (hsnapshots : SnapshotsSound draws (n + 1) c.db) (hdiffs : DiffsSound draws n c.db) (text : String) {itemId snapshotId : String}
    (hitem : schema.hasKey c.db .noticeItem itemId)
    (hid : schema.hasKey c.db .noticeSnapshot snapshotId) {before : Option NoticeSnapshot}
    (hbefore : ∀ s ∈ before, s ∈ snapshotsOf c.db itemId) (totals : SyncTotals) : ∃ totals' db',
      storeChange env (draws n).diff itemId text (env.sha256Hex text) before snapshotId totals c =
        (.ok totals', { c with db := db' }) ∧
      ChangeStored env (draws n).diff itemId text snapshotId before c.db db' ∧
      SnapshotsSound draws (n + 1) db' ∧ DiffsSound draws (n + 1) db' := by
  cases before with
  | none =>
      exact ⟨totals, c.db, rfl, ⟨rfl, fun _ _ => rfl, fun _ _ => rfl⟩, hsnapshots, hdiffs.succ⟩
  | some before =>
      rw [storeChange]
      by_cases hhash : before.contentHash = env.sha256Hex text
      · rw [if_pos hhash]
        refine ⟨totals, c.db, rfl, ⟨?_, fun _ _ => rfl, fun _ _ => rfl⟩, hsnapshots, hdiffs.succ⟩
        exact (if_pos hhash).symm
      · rw [if_neg hhash]
        by_cases hids : before.id = snapshotId
        · rw [if_pos hids]
          refine ⟨totals, c.db, rfl, ⟨?_, fun _ _ => rfl, fun _ _ => rfl⟩, hsnapshots,
            hdiffs.succ⟩
          exact ((if_neg hhash).trans (if_pos hids)).symm
        · rw [if_neg hids]
          obtain ⟨hmem, hbeforeItem⟩ := mem_snapshotsOf.mp (hbefore before rfl)
          have hfits : DiffInput.Fits ⟨itemId, before.id, snapshotId,
              diffJson env before.normalizedText text⟩ c.db :=
            ⟨hitem, ⟨before, hmem, rfl, hbeforeItem⟩, hid⟩
          obtain ⟨up, db', hrun, hup, hdiffs'⟩ := upsertDiff_ok hdiffs hdraws hsnapshots.distinct hfits
          refine ⟨_, db', bind_of_ok hrun, ⟨?_, hup.others, hup.tables⟩,
            hsnapshots.of_diff hup, hdiffs'⟩
          rw [hup.diffs]
          exact ((if_neg hhash).trans (if_neg hids)).symm

/-- What storing a text does. -/
structure TextStored (env : SyncEnv) (draws : ArticleDraws) (itemId text : String)
    (db db' : Db Row) : Prop where
  archive : archiveOf db' itemId =
    (archiveOf db itemId).add env.sha256Hex (storedJson env) text (marksOf draws)
  others : ∀ itemId', itemId' ≠ itemId → archiveOf db' itemId' = archiveOf db itemId'
  items : db' .noticeItem = db .noticeItem

/-- **To store a text is to fetch it.** -/
theorem storeText_ok (env : SyncEnv) (hdraws : Drawn draws (n + 1))
    (hitems : ItemsSound draws (n + 1) c.db) (hsnapshots : SnapshotsSound draws n c.db)
    (hdiffs : DiffsSound draws n c.db) {itemId : String} (hitem : schema.hasKey c.db .noticeItem itemId)
    (horder : InOrder c.db itemId) {contentHtml : String}
    (hplain : Text.Plain (normalizeNoticeHtmlToText env contentHtml)) (totals : SyncTotals) :
    ∃ totals' db',
      storeText env (draws n) itemId contentHtml totals c = (.ok totals', { c with db := db' }) ∧
      TextStored env (draws n) itemId (normalizeNoticeHtmlToText env contentHtml) c.db db' ∧
      SnapshotsSound draws (n + 1) db' ∧ DiffsSound draws (n + 1) db' := by
  let text := normalizeNoticeHtmlToText env contentHtml
  let input : SnapshotInput := ⟨itemId, env.sha256Hex text, text⟩
  obtain ⟨up, db₁, hrun, hup, hsnapshots₁⟩ :=
    upsertSnapshot_ok hsnapshots hdraws input hitem ⟨env.plain_sha256Hex text, hplain⟩
  have hitem₁ : schema.hasKey db₁ .noticeItem itemId := by
    rw [Schema.hasKey, hup.tables .noticeItem (by decide)]
    exact hitem
  obtain ⟨s, hs, hid⟩ := hup.there
  have hid₁ : schema.hasKey db₁ .noticeSnapshot up.id := ⟨s, (mem_snapshotsOf.mp hs).1, hid⟩
  have hbefore : ∀ s ∈ (snapshotsOf c.db itemId).getLast?, s ∈ snapshotsOf db₁ itemId := by
    intro s hs
    obtain ⟨hmem, hitem⟩ := mem_snapshotsOf.mp (List.mem_of_getLast? hs)
    exact mem_snapshotsOf.mpr ⟨hup.kept s hmem, hitem⟩
  obtain ⟨totals', db', hchange, hstored, hsnapshots', hdiffs'⟩ :=
    storeChange_ok (c := { c with db := db₁ }) env hdraws hsnapshots₁
      (hdiffs.of_snapshot hup) text hitem₁ hid₁ hbefore
      { totals with snapshotsInserted := totals.snapshotsInserted + if up.inserted then 1 else 0 }
  change ChangeStored _ _ _ _ _ _ db₁ db' at hstored
  refine ⟨totals', db', ?_, ⟨?_, ?_, ?_⟩, hsnapshots', hdiffs'⟩
  · have hwhole : ∀ s ∈ snapshotsOf c.db itemId, schema.Whole .noticeSnapshot s := fun s hs =>
      hsnapshots.whole hitems (mem_snapshotsOf.mp hs).1
    rw [storeText, bind_of_ok (getLatestSnapshot_apply horder hwhole)]
    exact (bind_of_ok hrun).trans hchange
  · have hdiffsOf : diffsOf db₁ itemId = diffsOf c.db itemId := by
      rw [diffsOf, hup.tables .noticeDiff (by decide)]
      rfl
    rw [archiveOf, hstored.diffs, snapshotsOf, hstored.tables .noticeSnapshot (by decide), Archive.add,
      latestSnapshot_archiveOf, hdiffsOf, hup.id]
    exact congrArg₂ Archive.mk (hup.snapshots (stamp (draws n).diff.now)) rfl
  · intro itemId' hother
    rw [archiveOf, hstored.others itemId' hother, snapshotsOf,
      hstored.tables .noticeSnapshot (by decide), diffsOf, hup.tables .noticeDiff (by decide)]
    exact congrArg₂ Archive.mk (congrArg _ (hup.others itemId' hother)) rfl
  · exact (hstored.tables .noticeItem (by decide)).trans (hup.tables .noticeItem (by decide))

/-! ### Storing a detail -/

/-- What storing a detail does. -/
structure DetailStored (env : SyncEnv) (draws : ArticleDraws) (source : NoticeSource)
    (metaUpdatedAt : Option String) (detail : PlayncArticleDetail) (db db' : Db Row) : Prop where
  article : articleOf db' source detail.id =
    some (ArticleView.fetch env.sha256Hex (storedJson env) (articleOf db source detail.id)
      (contentOf env detail) (marksOf draws))
  stamp : (itemOf db' source detail.id).map (·.updatedAt) =
    some (storedStamp env draws metaUpdatedAt detail)
  others : ∀ source' externalId, (source', externalId) ≠ (source, detail.id) →
    itemOf db' source' externalId = itemOf db source' externalId ∧
      articleOf db' source' externalId = articleOf db source' externalId

section

variable {db db' : Db Row} {input : NoticeInput} {draw : Draw} {itemId : String}

theorem ItemUpserted.archiveOf_eq (h : ItemUpserted db db' input draw itemId) {id : String} :
    archiveOf db' id = archiveOf db id := by
  rw [archiveOf, snapshotsOf, h.tables .noticeSnapshot (by decide), diffsOf,
    h.tables .noticeDiff (by decide)]
  rfl

theorem SnapshotsSound.of_item (h : SnapshotsSound draws n db)
    (hup : ItemUpserted db db' input draw itemId) : SnapshotsSound draws n db' := by
  have htable : db' .noticeSnapshot = db .noticeSnapshot := hup.tables .noticeSnapshot (by decide)
  refine ⟨?_, ?_, ?_, ?_⟩
  · rw [htable]
    exact h.distinct
  · rw [htable]
    exact h.drawn
  · intro s hs
    rw [htable] at hs
    exact hup.kept _ (h.item s hs)
  · rw [htable]
    exact h.texts

theorem DiffsSound.of_item (h : DiffsSound draws n db)
    (hup : ItemUpserted db db' input draw itemId) : DiffsSound draws n db' := by
  have hsnapshots : db' .noticeSnapshot = db .noticeSnapshot :=
    hup.tables .noticeSnapshot (by decide)
  have htable : db' .noticeDiff = db .noticeDiff := hup.tables .noticeDiff (by decide)
  refine ⟨?_, ?_, ?_, ?_⟩
  · rw [htable]
    exact h.distinct
  · rw [htable]
    exact h.drawn
  · rw [htable, hsnapshots]
    exact h.snapshot
  · intro d hd
    rw [htable] at hd
    rw [Schema.hasKey, hsnapshots]
    exact h.toId d hd

/-- The item that is upserted is the one that was there, or it has nothing yet. -/
theorem ItemUpserted.before (hup : ItemUpserted db db' input (draws n).item itemId)
    (h : NoticesSound draws n db) (hdraws : Drawn draws (n + 1))
    (horder : ∀ r, itemOf db input.source input.externalId = some r → InOrder db r.id) :
    InOrder db itemId ∧ archiveOf db itemId =
      ((articleOf db input.source input.externalId).map (·.archive)).getD Archive.empty := by
  have hid := hup.id
  rw [articleOf]
  cases he : itemOf db input.source input.externalId with
  | some e =>
      rw [he] at hid
      obtain rfl : itemId = e.id := hid
      exact ⟨horder e he, rfl⟩
  | none =>
      rw [he] at hid
      have hnew : ¬ schema.hasKey db .noticeItem itemId := by
        rintro ⟨q, hq, hqid⟩
        exact h.items.id_ne hdraws hq (hqid.trans hid)
      have hempty := h.archiveOf_new hnew
      refine ⟨?_, hempty⟩
      have hnone : snapshotsOf db itemId = [] := List.map_eq_nil_iff.mp (congrArg (·.snapshots) hempty)
      rw [InOrder, hnone]
      exact List.Pairwise.nil

end

/-- **To store a detail is to fetch an article.** -/
theorem storeDetail_ok (env : SyncEnv) (hdraws : Drawn draws (n + 1)) (h : NoticesSound draws n c.db)
    {source : NoticeSource} {detail : PlayncArticleDetail}
    (horder : ∀ r, itemOf c.db source detail.id = some r → InOrder c.db r.id)
    (hplain : Text.Plain (contentOf env detail).text) (metaUpdatedAt : Option String)
    (totals : SyncTotals) : ∃ totals' db',
      storeDetail env (draws n) source metaUpdatedAt detail totals c =
        (.ok totals', { c with db := db' }) ∧
      DetailStored env (draws n) source metaUpdatedAt detail c.db db' ∧
      NoticesSound draws (n + 1) db' := by
  let input : NoticeInput := ⟨source, detail.id, detail.url, detail.title,
    parseIsoDate env.host (detail.publishedAt.or detail.postedAt),
    metaUpdatedAt.or (parseIsoDate env.host detail.updatedAt)⟩
  obtain ⟨itemId, db₁, hrun, hup, hitems₁⟩ := upsertNoticeItem_ok h.items hdraws input
  obtain ⟨r, hr, hrid, hurl, htitle, hpublished, hupdated⟩ := hup.item
  obtain ⟨hrmem, hrsource, hrexternal⟩ := itemOf_mem hr
  have hbefore : InOrder c.db itemId ∧ archiveOf c.db itemId =
      ((articleOf c.db source detail.id).map (·.archive)).getD Archive.empty :=
    hup.before h hdraws horder
  have horder₁ : InOrder db₁ itemId := by
    rw [InOrder, snapshotsOf, hup.tables .noticeSnapshot (by decide)]
    exact hbefore.1
  obtain ⟨totals', db', htext, hstored, hsnapshots', hdiffs'⟩ :=
    storeText_ok (c := { c with db := db₁ }) env hdraws hitems₁ (h.snapshots.of_item hup)
      (h.diffs.of_item hup) ⟨r, hrmem, hrid⟩ horder₁ hplain
      { totals with itemsUpserted := totals.itemsUpserted + 1 }
  change TextStored _ _ _ _ db₁ db' at hstored
  have hitemOf : ∀ source externalId, itemOf db' source externalId = itemOf db₁ source externalId := by
    intro source externalId
    rw [itemOf, hstored.items]
    rfl
  refine ⟨totals', db', ?_, ⟨?_, ?_, ?_⟩, ⟨?_, ?_⟩, hsnapshots', hdiffs'⟩
  · exact (bind_of_ok hrun).trans htext
  · rw [articleOf, hitemOf, hr, Option.map_some, ArticleView.fetch, ← hbefore.2, ← hup.archiveOf_eq, hrid,
      hstored.archive, hurl, htitle, hpublished]
    rfl
  · rw [hitemOf, hr, Option.map_some, hupdated]
    rfl
  · intro source' externalId hother
    have hsame : itemOf db' source' externalId = itemOf c.db source' externalId :=
      (hitemOf _ _).trans (hup.others source' externalId hother)
    refine ⟨hsame, ?_⟩
    rw [articleOf, articleOf, hsame]
    cases hq : itemOf c.db source' externalId with
    | none => rfl
    | some q =>
        obtain ⟨hqmem, rfl, rfl⟩ := itemOf_mem ((hup.others source' externalId hother).trans hq)
        have hne : q.id ≠ itemId := by
          intro hid
          obtain rfl : q = r := hitems₁.distinct.eq_of_key hqmem hrmem (hid.trans hrid.symm)
          exact hother (congrArg₂ Prod.mk hrsource hrexternal)
        rw [Option.map_some, Option.map_some, hstored.others q.id hne, hup.archiveOf_eq]
  · rw [hstored.items]
    exact hitems₁.distinct
  · intro q hq
    rw [hstored.items] at hq
    exact hitems₁.drawn q hq

/-! ### Syncs -/

/-- What has been fetched of an article, in order. -/
def contentsOf (env : SyncEnv) (fetched : List (NoticeSource × PlayncArticleDetail))
    (source : NoticeSource) (externalId : String) : List Content :=
  (fetched.filter fun p => p.1 == source && p.2.id == externalId).map fun p => contentOf env p.2

def IsNotice (t : Table) : Prop := t = .noticeItem ∨ t = .noticeSnapshot ∨ t = .noticeDiff

/-- The handlers that run meanwhile leave the notice tables alone. -/
def Round.Quiet (round : Round) : Prop :=
  ∀ board articleId c t, IsNotice t → (round.meanwhile board articleId c).db t = c.db t

/-- The states that are reached from a database without notices by syncs, and
by other handlers between them. -/
inductive Synced (env : SyncEnv) (draws : ℕ → ArticleDraws) : SyncState → Prop
  | start {c : Conn} (hc : ∀ t, IsNotice t → c.db t = []) : Synced env draws ⟨c, []⟩
  | sync {s : SyncState} (h : Synced env draws s) (options : SyncNoticesOptions) {round : Round}
      (hround : round.Quiet) : Synced env draws (syncNotices env draws options round s).2
  | other {s : SyncState} (h : Synced env draws s) {c : Conn}
      (hc : ∀ t, IsNotice t → c.db t = s.conn.db t) : Synced env draws ⟨c, s.fetched⟩

/-- The texts that have been fetched hold no U+0000. -/
def PlainTexts (env : SyncEnv) (fetched : List (NoticeSource × PlayncArticleDetail)) : Prop :=
  ∀ p ∈ fetched, Text.Plain (contentOf env p.2).text

/-- As far as what is drawn is new, texts are read as they are stored and hashes
tell them apart, every article is stored with the record of its texts. -/
def Filed (env : SyncEnv) (draws : ℕ → ArticleDraws) (s : SyncState) : Prop :=
  Drawn draws s.fetched.length → PlainTexts env s.fetched →
  (∀ source externalId,
    HashTells env.sha256Hex ((contentsOf env s.fetched source externalId).map (·.text))) →
  NoticesSound draws s.fetched.length s.conn.db ∧
  ∀ source externalId, Archived env.sha256Hex (storedJson env)
    (articleOf s.conn.db source externalId) (contentsOf env s.fetched source externalId)

theorem contentsOf_concat (fetched : List (NoticeSource × PlayncArticleDetail)) (source : NoticeSource)
    (detail : PlayncArticleDetail) (source' : NoticeSource) (externalId : String) :
    contentsOf env (fetched ++ [(source, detail)]) source' externalId =
      contentsOf env fetched source' externalId ++
        if (source', externalId) = (source, detail.id) then [contentOf env detail] else [] := by
  rw [contentsOf, List.filter_append, List.map_append, contentsOf, List.filter_cons, List.filter_nil]
  congr 1
  by_cases hsame : (source', externalId) = (source, detail.id)
  · obtain ⟨rfl, rfl⟩ := Prod.mk.inj hsame
    rw [if_pos hsame, if_pos]
    · rfl
    · rw [beq_self_eq_true, beq_self_eq_true]
      rfl
  · rw [if_neg hsame, if_neg]
    · rfl
    · rw [Bool.and_eq_true, beq_iff_eq, beq_iff_eq]
      rintro ⟨rfl, rfl⟩
      exact hsame rfl

theorem NoticesSound.congr (h : NoticesSound draws n db) (htables : ∀ t, IsNotice t → db' t = db t) :
    NoticesSound draws n db' := by
  have hitem : db' .noticeItem = db .noticeItem := htables _ (.inl rfl)
  have hsnapshot : db' .noticeSnapshot = db .noticeSnapshot := htables _ (.inr (.inl rfl))
  have hdiff : db' .noticeDiff = db .noticeDiff := htables _ (.inr (.inr rfl))
  refine ⟨⟨?_, ?_⟩, ⟨?_, ?_, ?_, ?_⟩, ⟨?_, ?_, ?_, ?_⟩⟩
  · rw [hitem]
    exact h.items.distinct
  · rw [hitem]
    exact h.items.drawn
  · rw [hsnapshot]
    exact h.snapshots.distinct
  · rw [hsnapshot]
    exact h.snapshots.drawn
  · intro s hs
    rw [hsnapshot] at hs
    rw [Schema.hasKey, hitem]
    exact h.snapshots.item s hs
  · rw [hsnapshot]
    exact h.snapshots.texts
  · rw [hdiff]
    exact h.diffs.distinct
  · rw [hdiff]
    exact h.diffs.drawn
  · rw [hdiff, hsnapshot]
    exact h.diffs.snapshot
  · intro d hd
    rw [hdiff] at hd
    rw [Schema.hasKey, hsnapshot]
    exact h.diffs.toId d hd

theorem articleOf_congr (htables : ∀ t, IsNotice t → db' t = db t) (source : NoticeSource)
    (externalId : String) : articleOf db' source externalId = articleOf db source externalId := by
  have hitem : db' .noticeItem = db .noticeItem := htables _ (.inl rfl)
  have hsnapshot : db' .noticeSnapshot = db .noticeSnapshot := htables _ (.inr (.inl rfl))
  have hdiff : db' .noticeDiff = db .noticeDiff := htables _ (.inr (.inr rfl))
  unfold articleOf archiveOf itemOf snapshotsOf diffsOf
  rw [hitem, hsnapshot, hdiff]

/-- Other handlers do not disturb the record. -/
theorem Filed.congr {fetched : List (NoticeSource × PlayncArticleDetail)} {c' : Conn}
    (h : Filed env draws ⟨c, fetched⟩) (htables : ∀ t, IsNotice t → c'.db t = c.db t) :
    Filed env draws ⟨c', fetched⟩ := by
  intro hdraws hplain hhash
  obtain ⟨hsound, harchived⟩ := h hdraws hplain hhash
  refine ⟨hsound.congr htables, ?_⟩
  intro source externalId
  rw [articleOf_congr htables]
  exact harchived source externalId

theorem inOrder_of_kept {hash : String → String} {json : String → String → Js} {itemId : String}
    {texts : List String} (h : Kept hash json (archiveOf db itemId) texts) : InOrder db itemId := by
  have htimes : ((snapshotsOf db itemId).map viewSnapshot).Pairwise fun s s' =>
    s.fetchedAt < s'.fetchedAt := h.times
  have horder := List.pairwise_map.mp htimes
  exact horder

theorem diffs_inOrder_of_kept {hash : String → String} {json : String → String → Js} {itemId : String}
    {texts : List String} (h : Kept hash json (archiveOf db itemId) texts) :
    (diffsOf db itemId).Pairwise fun d d' => d.createdAt < d'.createdAt := by
  have htimes : ((diffsOf db itemId).map viewDiff).Pairwise fun d d' => d.createdAt < d'.createdAt :=
    h.diffTimes
  have horder := List.pairwise_map.mp htimes
  exact horder

/-- To ask whether an article is unchanged changes nothing. -/
theorem isUnchanged_ok (c : Conn) (source : NoticeSource) (articleId : String)
    (metaUpdatedAt : Option String) :
    ∃ unchanged, isUnchanged source articleId metaUpdatedAt c = (.ok unchanged, c) := by
  have hread : getNoticeItemByExternalId source articleId c =
      (.ok (((itemOf c.db source articleId).map (schema.read .noticeItem)).map fun r =>
        (r.id, r.updatedAt)), c) := rfl
  rw [isUnchanged, bind_of_ok hread]
  cases itemOf c.db source articleId with
  | none => exact ⟨false, rfl⟩
  | some r =>
      cases metaUpdatedAt with
      | none => exact ⟨false, rfl⟩
      | some metaUpdatedAt =>
          rw [Option.map_some, Option.map_some]
          dsimp only
          split
          · exact ⟨_, rfl⟩
          · exact ⟨false, rfl⟩

/-- **A detail that is stored is recorded.** -/
theorem Filed.storeDetail {fetched : List (NoticeSource × PlayncArticleDetail)}
    (h : Filed env draws ⟨c, fetched⟩) (source : NoticeSource) (metaUpdatedAt : Option String)
    (detail : PlayncArticleDetail) (totals : SyncTotals) :
    Filed env draws (onDb (storeDetail env (draws fetched.length) source metaUpdatedAt detail totals)
      ⟨c, fetched ++ [(source, detail)]⟩).2 := by
  intro hdraws hplain hhash
  change Drawn draws (fetched ++ [(source, detail)]).length at hdraws
  change PlainTexts env (fetched ++ [(source, detail)]) at hplain
  rw [List.length_append] at hdraws
  have hhash' : ∀ source' externalId, HashTells env.sha256Hex
      ((contentsOf env (fetched ++ [(source, detail)]) source' externalId).map (·.text)) := hhash
  have hbefore : ∀ source' externalId,
      HashTells env.sha256Hex ((contentsOf env fetched source' externalId).map (·.text)) := by
    intro source' externalId t ht t' ht'
    have hmore := hhash' source' externalId
    rw [contentsOf_concat, List.map_append] at hmore
    exact hmore t (List.mem_append_left _ ht) t' (List.mem_append_left _ ht')
  obtain ⟨hsound, harchived⟩ := h (hdraws.mono (Nat.le_succ _))
    (fun p hp => hplain p (List.mem_append_left _ hp)) hbefore
  have htext : Text.Plain (contentOf env detail).text :=
    hplain (source, detail) (List.mem_append_right _ List.mem_cons_self)
  have horder : ∀ r, itemOf c.db source detail.id = some r → InOrder c.db r.id := by
    intro r hr
    have hkept := (harchived source detail.id).kept
    dsimp only at hkept
    rw [articleOf, hr] at hkept
    exact inOrder_of_kept hkept
  obtain ⟨totals', db', hrun, hstored, hsound'⟩ :=
    storeDetail_ok (c := c) env hdraws hsound horder htext metaUpdatedAt totals
  have hstate : (onDb (Hub.storeDetail env (draws fetched.length) source metaUpdatedAt detail totals)
      ⟨c, fetched ++ [(source, detail)]⟩).2 = ⟨{ c with db := db' }, fetched ++ [(source, detail)]⟩ := by
    rw [onDb, hrun]
  rw [hstate]
  constructor
  · show NoticesSound draws (fetched ++ [(source, detail)]).length db'
    rw [List.length_append]
    exact hsound'
  · intro source' externalId
    show Archived _ _ (articleOf db' source' externalId) (contentsOf env (fetched ++ _) _ _)
    have hmore := hhash' source' externalId
    rw [contentsOf_concat] at hmore ⊢
    by_cases hsame : (source', externalId) = (source, detail.id)
    · obtain ⟨rfl, rfl⟩ := Prod.mk.inj hsame
      rw [if_pos rfl] at hmore ⊢
      rw [hstored.article]
      apply (harchived source' detail.id).fetch hmore
      dsimp only
      rw [articleOf]
      cases itemOf c.db source' detail.id with
      | none => exact ⟨fun _ h => absurd h List.not_mem_nil, fun _ h => absurd h List.not_mem_nil,
          fun _ h => absurd h List.not_mem_nil⟩
      | some r => exact hsound.fresh hdraws r.id
    · rw [if_neg hsame, List.append_nil, (hstored.others source' externalId hsame).2]
      exact harchived source' externalId

theorem keeps_syncArticle {round : Round} (hround : round.Quiet) (source : NoticeSource)
    (info : PlayncArticleMeta) (totals : SyncTotals) :
    Keeps (Filed env draws) (syncArticle env draws round source info totals) := by
  have hread : Keeps (Filed env draws)
      (onDb (isUnchanged source info.id (effectiveUpdatedAt env.host info))) := by
    apply keeps_of_apply
    intro s hs
    obtain ⟨unchanged, hok⟩ :=
      isUnchanged_ok s.conn source info.id (effectiveUpdatedAt env.host info)
    rw [onDb, hok]
    exact hs
  apply hread.bind
  intro unchanged
  split
  · exact Keeps.pure
  · apply keeps_of_apply
    intro s hs
    -- what other handlers do while the detail is awaited
    have hs' := hs.congr (hround (sourceToAlias source) (some info.id) s.conn)
    have hlength : (Exec.gets fun s : SyncState => s.fetched.length) s = (.ok s.fetched.length, s) := rfl
    rw [bind_of_ok hlength]
    cases hanswer : fetchArticleDetail (round.article (sourceToAlias source) info.id)
        (sourceToAlias source) info.id with
    | error e =>
        have hawait : awaitDetail round source info.id s = (.error e,
            ⟨round.meanwhile (sourceToAlias source) (some info.id) s.conn, s.fetched⟩) := by
          rw [awaitDetail, hanswer]
        rw [bind_of_error hawait]
        exact hs'
    | ok detail =>
        have hawait : awaitDetail round source info.id s = (.ok detail,
            ⟨round.meanwhile (sourceToAlias source) (some info.id) s.conn,
              s.fetched ++ [(source, detail)]⟩) := by
          rw [awaitDetail, hanswer]
        rw [bind_of_ok hawait]
        exact hs'.storeDetail source _ detail _

theorem keeps_syncArticles {round : Round} (hround : round.Quiet) (source : NoticeSource)
    (metas : List PlayncArticleMeta) (totals : SyncTotals) :
    Keeps (Filed env draws) (syncArticles env draws round source metas totals) := by
  induction metas generalizing totals with
  | nil => exact Keeps.pure
  | cons info metas ih =>
      apply (keeps_syncArticle hround source info totals).bind
      intro totals
      exact ih totals

theorem keeps_awaitMetas {round : Round} (hround : round.Quiet) (options : PlayncLatestOptions)
    (source : NoticeSource) : Keeps (Filed env draws) (awaitMetas round options source) := by
  apply keeps_of_apply
  intro s hs
  exact hs.congr (hround _ _ _)

theorem keeps_syncSources {round : Round} (hround : round.Quiet) (options : PlayncLatestOptions)
    (sources : List NoticeSource) (totals : SyncTotals) :
    Keeps (Filed env draws) (syncSources env draws round options sources totals) := by
  induction sources generalizing totals with
  | nil => exact Keeps.pure
  | cons source sources ih =>
      apply (keeps_awaitMetas hround options source).bind
      intro metas
      apply (keeps_syncArticles hround source metas _).bind
      intro totals
      exact ih totals

theorem filed_of_synced {s : SyncState} (h : Synced env draws s) : Filed env draws s := by
  induction h with
  | start hc =>
      rename_i c
      intro _ _ _
      have hitem : c.db .noticeItem = [] := hc _ (.inl rfl)
      have hsnapshot : c.db .noticeSnapshot = [] := hc _ (.inr (.inl rfl))
      have hdiff : c.db .noticeDiff = [] := hc _ (.inr (.inr rfl))
      refine ⟨⟨⟨?_, ?_⟩, ⟨?_, ?_, ?_, ?_⟩, ⟨?_, ?_, ?_, ?_⟩⟩, ?_⟩
      all_goals dsimp only
      · rw [hitem]
        exact List.Pairwise.nil
      · simp [hitem]
      · rw [hsnapshot]
        exact List.Pairwise.nil
      · simp [hsnapshot]
      · simp [hsnapshot]
      · simp [hsnapshot]
      · rw [hdiff]
        exact List.Pairwise.nil
      · simp [hdiff]
      · simp [hdiff]
      · simp [hdiff]
      · intro source externalId
        rw [articleOf, itemOf, hitem]
        exact .unseen
  | sync _ options hround ih => exact (keeps_syncSources hround _ _ _).apply ih
  | other _ hc ih => exact ih.congr hc

/-- **After any run every article is stored with the record of its texts.** -/
theorem archived_of_synced {s : SyncState} (h : Synced env draws s)
    (hdraws : Drawn draws s.fetched.length) (hplain : PlainTexts env s.fetched)
    (hhash : ∀ source externalId,
      HashTells env.sha256Hex ((contentsOf env s.fetched source externalId).map (·.text)))
    (source : NoticeSource) (externalId : String) :
    Archived env.sha256Hex (storedJson env) (articleOf s.conn.db source externalId)
      (contentsOf env s.fetched source externalId) :=
  (filed_of_synced h hdraws hplain hhash).2 source externalId

theorem closed_notices : schema.Closed IsNotice := by
  rintro t (rfl | rfl | rfl) fk hfk
  · exact absurd hfk List.not_mem_nil
  · obtain rfl := List.mem_singleton.mp hfk
    exact .inl rfl
  · rcases List.mem_cons.mp hfk with rfl | hfk
    · exact .inl rfl
    · rcases List.mem_cons.mp hfk with rfl | hfk
      · exact .inr (.inl rfl)
      · obtain rfl := List.mem_singleton.mp hfk
        exact .inr (.inl rfl)

/-- Every operation of the app that does not store notices is such a handler. -/
theorem Synced.op {s : SyncState} (h : Synced env draws s) {op : Op}
    (hop : ∀ t ∈ op.writes, ¬ IsNotice t) (host : Host) :
    Synced env draws ⟨(op.run host s.conn).2, s.fetched⟩ :=
  h.other fun t ht => (leaves_run closed_notices hop).same s.conn t ht

/-! ### What is shown of an article -/

theorem getLatestDiff_apply {itemId : String}
    (h : (diffsOf c.db itemId).Pairwise fun d d' => d.createdAt < d'.createdAt)
    (hwhole : ∀ d ∈ diffsOf c.db itemId, schema.Whole .noticeDiff d) :
    getLatestDiff itemId c = (.ok (diffsOf c.db itemId).getLast?, c) := by
  have hrows : ∀ d ∈ orderBy (desc (·.createdAt) anyOrder) (diffsOf c.db itemId),
      schema.Whole .noticeDiff d := fun d hd => hwhole d ((orderBy_perm _ _).mem_iff.mp hd)
  show (Except.ok ((orderBy (desc (·.createdAt) anyOrder) (diffsOf c.db itemId)).map
    (schema.read .noticeDiff)).head?, c) = _
  rw [Schema.map_read hrows, head?_orderBy_desc h]

/-- **When the latest diff is the last change**: an article that had the text
`p` and has had the text `q` since is shown with `q` and the diff from `p` to `q`
just when `q` had never been fetched before, and nothing else was new after `p`. -/
theorem follows_of_synced {s : SyncState} (h : Synced env draws s)
    (hdraws : Drawn draws s.fetched.length) (hplain : PlainTexts env s.fetched)
    (hhash : ∀ source externalId,
      HashTells env.sha256Hex ((contentsOf env s.fetched source externalId).map (·.text)))
    {source : NoticeSource} {externalId : String} {u : List String} {p q : String} {k : ℕ}
    (hpq : p ≠ q) (htexts : (contentsOf env s.fetched source externalId).map (·.text) =
      u ++ [p] ++ List.replicate (k + 1) q) :
    ∃ item, itemOf s.conn.db source externalId = some item ∧
      ((∃ snapshot diff, getLatestSnapshot item.id s.conn = (.ok (some snapshot), s.conn) ∧
          snapshot.normalizedText = q ∧ getLatestDiff item.id s.conn = (.ok (some diff), s.conn) ∧
          DiffOf (storedJson env) (archiveOf s.conn.db item.id).snapshots (viewDiff diff) (p, q)) ↔
        q ∉ u ++ [p] ∧ Newest (u ++ [p]) p) := by
  obtain ⟨hsound, hfiled⟩ := filed_of_synced h hdraws hplain hhash
  have harchived := hfiled source externalId
  have hkept := harchived.kept
  rw [htexts] at hkept
  cases hitem : itemOf s.conn.db source externalId with
  | none =>
      rw [articleOf, hitem] at harchived
      generalize contentsOf env s.fetched source externalId = contents at harchived htexts
      cases harchived
      have hlength := congrArg List.length htexts
      simp at hlength
  | some item =>
      rw [articleOf, hitem] at hkept
      change Kept _ _ (archiveOf s.conn.db item.id) _ at hkept
      refine ⟨item, rfl, ?_⟩
      rw [← hkept.follows_iff hpq, getLatestSnapshot_apply (inOrder_of_kept hkept) hsound.whole.1,
        getLatestDiff_apply (diffs_inOrder_of_kept hkept) hsound.whole.2,
        latestSnapshot_archiveOf, Archive.latestDiff, archiveOf, List.getLast?_map]
      constructor
      · rintro ⟨snapshot, diff, hsnapshot, rfl, hdiff, hof⟩
        obtain ⟨hsnapshot, -⟩ := Prod.mk.inj hsnapshot
        obtain ⟨hdiff, -⟩ := Prod.mk.inj hdiff
        rw [Except.ok.inj hsnapshot, Except.ok.inj hdiff]
        exact ⟨rfl, viewDiff diff, rfl, hof⟩
      · rintro ⟨htext, d, hd, hof⟩
        obtain ⟨snapshot, hsnapshot, htext⟩ := Option.map_eq_some_iff.mp htext
        obtain ⟨row, hrow, rfl⟩ := Option.map_eq_some_iff.mp hsnapshot
        obtain ⟨diff, hdiff, rfl⟩ := Option.map_eq_some_iff.mp hd
        exact ⟨row, diff, by rw [hrow], htext, by rw [hdiff], hof⟩

end

/-! ### An edited notice -/

/-- A board with one article. -/
def oneArticle (html : String) : Round where
  server _ _ request :=
    match request with
    | .noticeArticle _ => .ok (.obj [("noticesList", .arr [])])
    | .moreArticle _ _ _ => .ok (.obj [("contentList", .arr [article "1"]), ("hasMore", .bool false)])
  article _ id := .ok (.obj [("article",
    .obj [("contentMeta", article id), ("content", .obj [("content", .str html)])])])
  meanwhile _ _ c := c

def plainEnv : SyncEnv where
  host := Host.iso (Zone.fixed 0)
  rootText := id
  sha256Hex := Text.cut
  diffLines a b := [⟨a, false, true⟩, ⟨b, true, false⟩]
  plain_sha256Hex := Text.plain_cut

def countedDraws (k : ℕ) : ArticleDraws := ⟨nthDraw k k, nthDraw k k, nthDraw k k⟩

/-- A sync before the edit and one after it. -/
def edited : SyncState :=
  ["old", "new"].foldl
    (fun s html => (syncNotices plainEnv countedDraws ⟨[.notice], ⟨1, 18, true⟩⟩ (oneArticle html) s).2)
    ⟨⟨fun _ => [], true, none⟩, []⟩

theorem synced_edited : Synced plainEnv countedDraws edited :=
  ((Synced.start fun _ _ => rfl).sync _ fun _ _ _ _ _ => rfl).sync _ fun _ _ _ _ _ => rfl

/-- Texts that hold no U+0000 are told apart by the cut. -/
theorem hashTells_of_plainTexts {fetched : List (NoticeSource × PlayncArticleDetail)}
    (h : PlainTexts plainEnv fetched) (source : NoticeSource) (externalId : String) :
    HashTells plainEnv.sha256Hex ((contentsOf plainEnv fetched source externalId).map (·.text)) := by
  have hplain : ∀ t ∈ (contentsOf plainEnv fetched source externalId).map (·.text),
      Text.cut t = t := by
    intro t ht
    obtain ⟨content, hcontent, rfl⟩ := List.mem_map.mp ht
    obtain ⟨p, hp, rfl⟩ := List.mem_map.mp hcontent
    exact (h p (List.mem_filter.mp hp).1).cut
  intro t ht t' ht' hsame
  exact (hplain t ht).symm.trans (Eq.trans hsame (hplain t' ht'))

theorem drawn_edited : Drawn countedDraws edited.fetched.length := by
  have hlength : edited.fetched.length = 2 := by decide +kernel
  rw [hlength]
  refine ⟨?_, ?_, ?_⟩ <;> decide +kernel

theorem plainTexts_of_oldNew {fetched : List (NoticeSource × PlayncArticleDetail)}
    (h : ∀ p ∈ fetched, (contentOf plainEnv p.2).text = "old" ∨ (contentOf plainEnv p.2).text = "new") :
    PlainTexts plainEnv fetched := by
  intro p hp
  rcases h p hp with htext | htext
  · rw [htext]
    decide
  · rw [htext]
    decide

theorem plainTexts_edited : PlainTexts plainEnv edited.fetched :=
  plainTexts_of_oldNew (by decide +kernel)

theorem hashTells_edited (source : NoticeSource) (externalId : String) : HashTells
    plainEnv.sha256Hex ((contentsOf plainEnv edited.fetched source externalId).map (·.text)) :=
  hashTells_of_plainTexts plainTexts_edited source externalId

theorem archived_edited : Archived plainEnv.sha256Hex (storedJson plainEnv)
    (articleOf edited.conn.db .notice "1") (contentsOf plainEnv edited.fetched .notice "1") :=
  archived_of_synced synced_edited drawn_edited plainTexts_edited hashTells_edited .notice "1"

theorem follows_edited : ∃ item, itemOf edited.conn.db .notice "1" = some item ∧
    ((∃ snapshot diff, getLatestSnapshot item.id edited.conn = (.ok (some snapshot), edited.conn) ∧
        snapshot.normalizedText = "new" ∧
        getLatestDiff item.id edited.conn = (.ok (some diff), edited.conn) ∧
        DiffOf (storedJson plainEnv) (archiveOf edited.conn.db item.id).snapshots (viewDiff diff)
          ("old", "new")) ↔
      "new" ∉ [] ++ ["old"] ∧ Newest ([] ++ ["old"]) "old") :=
  follows_of_synced synced_edited drawn_edited plainTexts_edited hashTells_edited (u := []) (k := 0)
    (by decide) (by decide +kernel)

end Hub
