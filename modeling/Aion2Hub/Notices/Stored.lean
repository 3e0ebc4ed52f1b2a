/-
Aion2Hub/Notices/Stored.lean

What the notice tables hold of an article, and what the three upserts of a sync
do to it.

`articleOf` reads an article from the tables.  Each upsert is accepted as long
as what it draws is new (`Drawn`); it does to the article what the matching
part of `ArticleView.fetch` does, and leaves all other articles alone.
-/
import Aion2Hub.Lib.Frame
import Aion2Hub.Lib.Load
import Aion2Hub.Lib.Query
import Aion2Hub.Notices.Archive
import Aion2Hub.Notices.Sync

namespace Hub

open Sql Exec

/-! ### Reading an article -/

section

variable (db : Db Row)

def itemOf (source : NoticeSource) (externalId : String) : Option NoticeItem :=
  (db .noticeItem).find? fun r => r.source == source && r.externalId == externalId

def snapshotsOf (itemId : String) : List NoticeSnapshot :=
  (db .noticeSnapshot).filter fun r => r.noticeItemId == itemId

def diffsOf (itemId : String) : List NoticeDiff :=
  (db .noticeDiff).filter fun r => r.noticeItemId == itemId

def viewSnapshot (s : NoticeSnapshot) : SnapshotView String :=
  ⟨s.id, s.fetchedAt, s.contentHash, s.normalizedText⟩

def viewDiff (d : NoticeDiff) : DiffView String :=
  ⟨d.fromSnapshotId, d.toSnapshotId, d.diffJson, d.createdAt⟩

def archiveOf (itemId : String) : Archive String :=
  ⟨(snapshotsOf db itemId).map viewSnapshot, (diffsOf db itemId).map viewDiff⟩

def articleOf (source : NoticeSource) (externalId : String) : Option (ArticleView String) :=
  (itemOf db source externalId).map fun r => ⟨r.url, r.title, r.publishedAt, archiveOf db r.id⟩

end

/-! ### What is drawn -/

/-- The first `n` draws have new ids, and times that go on. -/
structure Drawn (draws : ℕ → ArticleDraws) (n : ℕ) : Prop where
  items : ∀ k < n, ∀ j < k, (draws j).item.id ≠ (draws k).item.id
  snapshots : ∀ k < n, ∀ j < k, (draws j).snapshot.id ≠ (draws k).snapshot.id ∧
    stamp (draws j).snapshot.now < stamp (draws k).snapshot.now
  diffs : ∀ k < n, ∀ j < k, (draws j).diff.id ≠ (draws k).diff.id ∧
    stamp (draws j).diff.now < stamp (draws k).diff.now

/-- The tables hold what the first `n` draws have been used for. -/
structure ItemsSound (draws : ℕ → ArticleDraws) (n : ℕ) (db : Db Row) : Prop where
  distinct : schema.DistinctRows .noticeItem (db .noticeItem)
  drawn : ∀ r : NoticeItem, r ∈ db .noticeItem → ∃ k < n, r.id = (draws k).item.id

structure SnapshotsSound (draws : ℕ → ArticleDraws) (n : ℕ) (db : Db Row) : Prop where
  distinct : schema.DistinctRows .noticeSnapshot (db .noticeSnapshot)
  drawn : ∀ s : NoticeSnapshot, s ∈ db .noticeSnapshot →
    ∃ k < n, s.id = (draws k).snapshot.id ∧ s.fetchedAt = stamp (draws k).snapshot.now
  item : ∀ s : NoticeSnapshot, s ∈ db .noticeSnapshot → schema.hasKey db .noticeItem s.noticeItemId
  texts : ∀ s : NoticeSnapshot, s ∈ db .noticeSnapshot →
    Text.Plain s.contentHash ∧ Text.Plain s.normalizedText

structure DiffsSound (draws : ℕ → ArticleDraws) (n : ℕ) (db : Db Row) : Prop where
  distinct : schema.DistinctRows .noticeDiff (db .noticeDiff)
  drawn : ∀ d : NoticeDiff, d ∈ db .noticeDiff →
    ∃ k < n, d.id = (draws k).diff.id ∧ d.createdAt = stamp (draws k).diff.now
  /-- A diff belongs to the article of the snapshot that it starts from. -/
  snapshot : ∀ d : NoticeDiff, d ∈ db .noticeDiff →
    ∃ s : NoticeSnapshot, s ∈ db .noticeSnapshot ∧ s.id = d.fromSnapshotId ∧
      s.noticeItemId = d.noticeItemId
  toId : ∀ d : NoticeDiff, d ∈ db .noticeDiff → schema.hasKey db .noticeSnapshot d.toSnapshotId

section

variable {draws : ℕ → ArticleDraws} {n : ℕ} {db db' : Db Row} {c : Conn}

theorem Drawn.mono (h : Drawn draws n) {m : ℕ} (hm : m ≤ n) : Drawn draws m where
  items := fun k hk => h.items k (hk.trans_le hm)
  snapshots := fun k hk => h.snapshots k (hk.trans_le hm)
  diffs := fun k hk => h.diffs k (hk.trans_le hm)

theorem ItemsSound.id_ne (h : ItemsSound draws n db) (hdraws : Drawn draws (n + 1)) {r : NoticeItem}
    (hr : r ∈ db .noticeItem) : r.id ≠ (draws n).item.id := by
  obtain ⟨k, hk, hid⟩ := h.drawn r hr
  rw [hid]
  exact hdraws.items n n.lt_succ_self k hk

theorem ItemsSound.plain_key (h : ItemsSound draws n db) {itemId : String}
    (hitem : schema.hasKey db .noticeItem itemId) : Text.Plain itemId := by
  obtain ⟨r, hr, rfl⟩ := hitem
  obtain ⟨k, -, hid⟩ := h.drawn r hr
  exact (hid ▸ (draws k).item.plain : Text.Plain r.id)

/-- The id of a stored item is read as it is. -/
theorem ItemsSound.readId (h : ItemsSound draws n db) {r : NoticeItem} (hr : r ∈ db .noticeItem) :
    nonEmpty (some (schema.read .noticeItem r).id) = some r.id := by
  obtain ⟨k, -, hid⟩ := h.drawn r hr
  have hread : (schema.read .noticeItem r).id = r.id := (h.plain_key ⟨r, hr, rfl⟩).cut
  rw [hread]
  exact nonEmpty_some (hid ▸ (draws k).item.ne)

/-! ### Items -/

/-- What an upsert of an item does. -/
structure ItemUpserted (db db' : Db Row) (input : NoticeInput) (draw : Draw) (itemId : String) :
    Prop where
  item : ∃ r, itemOf db' input.source input.externalId = some r ∧ r.id = itemId ∧ r.url = input.url ∧
    r.title = input.title ∧ r.publishedAt = input.publishedAt ∧
    r.updatedAt = input.updatedAt.getD (stamp draw.now)
  id : itemId = ((itemOf db input.source input.externalId).map (·.id)).getD draw.id
  others : ∀ source externalId, (source, externalId) ≠ (input.source, input.externalId) →
    itemOf db' source externalId = itemOf db source externalId
  kept : ∀ k, schema.hasKey db .noticeItem k → schema.hasKey db' .noticeItem k
  tables : ∀ t, t ≠ .noticeItem → db' t = db t

theorem itemOf_mem {source : NoticeSource} {externalId : String} {r : NoticeItem}
    (h : itemOf db source externalId = some r) :
    r ∈ db .noticeItem ∧ r.source = source ∧ r.externalId = externalId := by
  have hp := List.find?_some h
  rw [Bool.and_eq_true, beq_iff_eq, beq_iff_eq] at hp
  exact ⟨List.mem_of_find?_eq_some h, hp⟩

/-- The item is there: it gets the new data. -/
theorem upsertNoticeItem_known (h : ItemsSound draws n c.db)
    {input : NoticeInput} {e : NoticeItem}
    (hitem : itemOf c.db input.source input.externalId = some e) : ∃ db',
      upsertNoticeItem input (draws n).item c = (.ok e.id, { c with db := db' }) ∧
      ItemUpserted c.db db' input (draws n).item e.id ∧ ItemsSound draws (n + 1) db' := by
  obtain ⟨hmem, hsource, hexternal⟩ := itemOf_mem hitem
  let new (r : NoticeItem) : NoticeItem :=
    { r with
      url := input.url
      title := input.title
      publishedAt := input.publishedAt
      updatedAt := input.updatedAt.getD (stamp (draws n).item.now) }
  let f (r : NoticeItem) : NoticeItem := if r.id == e.id then new r else r
  let after : List (Row .noticeItem) := (c.db .noticeItem).map f
  have hread : schema.selectOne .noticeItem
      (fun r => r.source == input.source && r.externalId == input.externalId) c =
      (.ok ((itemOf c.db input.source input.externalId).map (schema.read .noticeItem)), c) := rfl
  have hupdate : schema.update .noticeItem (fun r => r.id == e.id) new c =
      (.ok (), { c with db := c.db.set .noticeItem after }) := by
    apply update_fits
    · intro r
      rfl
    · intro u hu r
      obtain rfl := List.mem_singleton.mp hu
      rfl
    · exact h.distinct
  have hid : ∀ r : NoticeItem, (f r).id = r.id := by
    intro r
    dsimp only [f]
    split <;> rfl
  have hitems : ∀ source externalId, itemOf (c.db.set .noticeItem after) source externalId =
      (itemOf c.db source externalId).map f := by
    intro source externalId
    rw [itemOf, Db.set_self, List.find?_map, itemOf]
    congr 2
    funext r
    dsimp only [f, Function.comp_apply]
    split <;> rfl
  refine ⟨c.db.set .noticeItem after, ?_, ⟨?_, ?_, ?_, ?_, ?_⟩, ?_, ?_⟩
  · dsimp only [upsertNoticeItem]
    rw [bind_of_ok hread, hitem, Option.map_some, Option.map_some, h.readId hmem]
    exact bind_of_ok hupdate
  · refine ⟨new e, ?_, rfl, rfl, rfl, rfl, rfl⟩
    rw [hitems, hitem, Option.map_some]
    exact congrArg some (if_pos (beq_self_eq_true e.id))
  · rw [hitem]
    rfl
  · intro source externalId hother
    rw [hitems]
    cases hr : itemOf c.db source externalId with
    | none => rfl
    | some r =>
        obtain ⟨hrmem, rfl, rfl⟩ := itemOf_mem hr
        refine congrArg some (if_neg fun hsame => hother ?_)
        obtain rfl : r = e := h.distinct.eq_of_key hrmem hmem (beq_iff_eq.mp hsame)
        rw [hsource, hexternal]
  · rintro k ⟨r, hr, rfl⟩
    refine ⟨f r, ?_, hid r⟩
    rw [Db.set_self]
    exact List.mem_map_of_mem hr
  · intro t ht
    exact Db.set_of_ne c.db ht after
  · have hkeeps : Keeps (fun c : Conn => schema.DistinctRows .noticeItem (c.db .noticeItem))
        (schema.update .noticeItem (fun r => r.id == e.id) new) := keeps_distinct_update
    have hafter := hkeeps.apply h.distinct
    rwa [hupdate] at hafter
  · intro r hr
    rw [Db.set_self] at hr
    obtain ⟨q, hq, rfl⟩ := List.mem_map.mp hr
    obtain ⟨k, hk, hqk⟩ := h.drawn q hq
    exact ⟨k, hk.trans n.lt_succ_self, (hid q).trans hqk⟩

theorem NoticeSource.text_injective {s s' : NoticeSource} (h : s.text = s'.text) : s = s' := by
  cases s <;> cases s' <;> first | rfl | exact absurd h (by decide)

/-- The item is new. -/
theorem upsertNoticeItem_new (h : ItemsSound draws n c.db) (hdraws : Drawn draws (n + 1))
    {input : NoticeInput} (hitem : itemOf c.db input.source input.externalId = none) : ∃ db',
      upsertNoticeItem input (draws n).item c = (.ok (draws n).item.id, { c with db := db' }) ∧
      ItemUpserted c.db db' input (draws n).item (draws n).item.id ∧ ItemsSound draws (n + 1) db' := by
  let row : Row .noticeItem :=
    ⟨(draws n).item.id, input.source, input.externalId, input.url, input.title, input.publishedAt,
      stamp (draws n).item.now, input.updatedAt.getD (stamp (draws n).item.now)⟩
  have hread : schema.selectOne .noticeItem
      (fun r => r.source == input.source && r.externalId == input.externalId) c =
      (.ok ((itemOf c.db input.source input.externalId).map (schema.read .noticeItem)), c) := rfl
  have hconflict : ¬ (c.db .noticeItem).any (schema.conflicts .noticeItem row) = true := by
    intro hany
    obtain ⟨r, hr, hsame⟩ := List.any_eq_true.mp hany
    rcases conflicts_iff.mp hsame with hkey | ⟨u, hu, hunique⟩
    · exact h.id_ne hdraws hr hkey.symm
    · obtain rfl := List.mem_singleton.mp hu
      obtain ⟨hsource, hrest⟩ := List.cons.inj hunique
      obtain ⟨hexternal, -⟩ := List.cons.inj hrest
      apply List.find?_eq_none.mp hitem r hr
      rw [Bool.and_eq_true, beq_iff_eq, beq_iff_eq]
      exact ⟨(NoticeSource.text_injective hsource).symm, hexternal.symm⟩
  have hinsert : schema.insert .abort .noticeItem row c =
      (.ok (), { c with db := c.db.set .noticeItem (c.db .noticeItem ++ [row]) }) :=
    insert_fits hconflict fun _ fk hfk => absurd hfk List.not_mem_nil
  have hitems : ∀ source externalId,
      itemOf (c.db.set .noticeItem (c.db .noticeItem ++ [row])) source externalId =
        (itemOf c.db source externalId).or
          (if row.source = source ∧ row.externalId = externalId then some row else none) := by
    intro source externalId
    rw [itemOf, Db.set_self, List.find?_append, itemOf, List.find?_singleton]
    simp only [Bool.and_eq_true, beq_iff_eq]
  refine ⟨c.db.set .noticeItem (c.db .noticeItem ++ [row]), ?_, ⟨?_, ?_, ?_, ?_, ?_⟩, ?_, ?_⟩
  · dsimp only [upsertNoticeItem]
    rw [bind_of_ok hread, hitem]
    exact bind_of_ok hinsert
  · refine ⟨row, ?_, rfl, rfl, rfl, rfl, rfl⟩
    rw [hitems, hitem, if_pos ⟨rfl, rfl⟩]
    rfl
  · rw [hitem]
    rfl
  · intro source externalId hother
    rw [hitems, if_neg, Option.or_none]
    rintro ⟨rfl, rfl⟩
    exact hother rfl
  · rintro k ⟨r, hr, rfl⟩
    refine ⟨r, ?_, rfl⟩
    rw [Db.set_self]
    exact List.mem_append_left _ hr
  · intro t ht
    exact Db.set_of_ne c.db ht _
  · rw [Db.set_self]
    exact distinctRows_append h.distinct hconflict
  · intro r hr
    rw [Db.set_self] at hr
    rcases List.mem_append.mp hr with hold | hnew
    · obtain ⟨k, hk, hid⟩ := h.drawn r hold
      exact ⟨k, hk.trans n.lt_succ_self, hid⟩
    · obtain rfl := List.mem_singleton.mp hnew
      exact ⟨n, n.lt_succ_self, rfl⟩

theorem upsertNoticeItem_ok (h : ItemsSound draws n c.db) (hdraws : Drawn draws (n + 1))
    (input : NoticeInput) : ∃ itemId db',
      upsertNoticeItem input (draws n).item c = (.ok itemId, { c with db := db' }) ∧
      ItemUpserted c.db db' input (draws n).item itemId ∧ ItemsSound draws (n + 1) db' := by
  cases hitem : itemOf c.db input.source input.externalId with
  | some e => exact ⟨e.id, upsertNoticeItem_known h hitem⟩
  | none => exact ⟨(draws n).item.id, upsertNoticeItem_new h hdraws hitem⟩

/-! ### Snapshots -/

theorem SnapshotsSound.id_ne (h : SnapshotsSound draws n db) (hdraws : Drawn draws (n + 1))
    {s : NoticeSnapshot} (hs : s ∈ db .noticeSnapshot) : s.id ≠ (draws n).snapshot.id := by
  obtain ⟨k, hk, hid, -⟩ := h.drawn s hs
  rw [hid]
  exact (hdraws.snapshots n n.lt_succ_self k hk).1

theorem SnapshotsSound.plain_key (h : SnapshotsSound draws n db) {snapshotId : String}
    (hsnapshot : schema.hasKey db .noticeSnapshot snapshotId) : Text.Plain snapshotId := by
  obtain ⟨s, hs, rfl⟩ := hsnapshot
  obtain ⟨k, -, hid, -⟩ := h.drawn s hs
  exact (hid ▸ (draws k).snapshot.plain : Text.Plain s.id)

/-- The id of a stored snapshot is read as it is. -/
theorem SnapshotsSound.readId (h : SnapshotsSound draws n db) {s : NoticeSnapshot}
    (hs : s ∈ db .noticeSnapshot) : (schema.read .noticeSnapshot s).id = s.id ∧ s.id ≠ "" := by
  obtain ⟨k, -, hid, -⟩ := h.drawn s hs
  exact ⟨(h.plain_key ⟨s, hs, rfl⟩).cut, hid ▸ (draws k).snapshot.ne⟩

/-- A stored snapshot is read as it is. -/
theorem SnapshotsSound.whole {m : ℕ} (h : SnapshotsSound draws n db) (hitems : ItemsSound draws m db)
    {s : NoticeSnapshot} (hs : s ∈ db .noticeSnapshot) : schema.Whole .noticeSnapshot s := by
  obtain ⟨k, -, -, htime⟩ := h.drawn s hs
  obtain ⟨hhash, htext⟩ := h.texts s hs
  have hid : Text.cut s.id = s.id := (h.plain_key ⟨s, hs, rfl⟩).cut
  have hitem : Text.cut s.noticeItemId = s.noticeItemId := (hitems.plain_key (h.item s hs)).cut
  have hfetched : Text.cut s.fetchedAt = s.fetchedAt := by
    rw [htime]
    exact cut_stamp _
  show NoticeSnapshot.mk (Text.cut s.id) (Text.cut s.noticeItemId) (Text.cut s.fetchedAt)
    (Text.cut s.contentHash) (Text.cut s.normalizedText) = s
  rw [hid, hitem, hfetched, hhash.cut, htext.cut]

/-- What an upsert of a snapshot does. -/
structure SnapshotUpserted (db db' : Db Row) (input : SnapshotInput) (draw : Draw) (up : Upserted) :
    Prop where
  id : up.id = (archiveOf db input.noticeItemId).snapshotId input.contentHash draw.id
  snapshots : ∀ diffedAt, (snapshotsOf db' input.noticeItemId).map viewSnapshot =
    (archiveOf db input.noticeItemId).addSnapshot input.contentHash input.normalizedText
      ⟨draw.id, stamp draw.now, diffedAt⟩
  others : ∀ itemId, itemId ≠ input.noticeItemId → snapshotsOf db' itemId = snapshotsOf db itemId
  kept : ∀ s : NoticeSnapshot, s ∈ db .noticeSnapshot → s ∈ db' .noticeSnapshot
  there : ∃ s ∈ snapshotsOf db' input.noticeItemId, s.id = up.id
  tables : ∀ t, t ≠ .noticeSnapshot → db' t = db t

/-- The stored snapshot of an article with this hash. -/
def snapshotOf (db : Db Row) (itemId contentHash : String) : Option NoticeSnapshot :=
  (db .noticeSnapshot).find? fun r => r.noticeItemId == itemId && r.contentHash == contentHash

theorem withHash_archiveOf (db : Db Row) (itemId contentHash : String) :
    (archiveOf db itemId).withHash contentHash =
      (snapshotOf db itemId contentHash).map viewSnapshot := by
  rw [Archive.withHash, archiveOf]
  dsimp only
  rw [List.find?_map, snapshotsOf, List.find?_filter, snapshotOf]
  congr 2
  funext r
  rw [Bool.decide_and, Bool.decide_eq_true, Bool.decide_eq_true]
  rfl

theorem mem_snapshotsOf {itemId : String} {s : NoticeSnapshot} :
    s ∈ snapshotsOf db itemId ↔ s ∈ db .noticeSnapshot ∧ s.noticeItemId = itemId := by
  rw [snapshotsOf, List.mem_filter, beq_iff_eq]

/-- The text is there. -/
theorem upsertSnapshot_known (h : SnapshotsSound draws n c.db)
    {input : SnapshotInput} {s : NoticeSnapshot}
    (hs : snapshotOf c.db input.noticeItemId input.contentHash = some s) :
    upsertSnapshot input (draws n).snapshot c = (.ok ⟨s.id, Text.cut s.fetchedAt, false⟩, c) ∧
      SnapshotUpserted c.db c.db input (draws n).snapshot ⟨s.id, Text.cut s.fetchedAt, false⟩ := by
  have hread : schema.selectOne .noticeSnapshot
      (fun r => r.noticeItemId == input.noticeItemId && r.contentHash == input.contentHash) c =
      (.ok ((snapshotOf c.db input.noticeItemId input.contentHash).map
        (schema.read .noticeSnapshot)), c) := rfl
  have hmem : s ∈ c.db .noticeSnapshot := List.mem_of_find?_eq_some hs
  have hp := List.find?_some hs
  rw [Bool.and_eq_true, beq_iff_eq, beq_iff_eq] at hp
  obtain ⟨hid, hne⟩ := h.readId hmem
  have hfilter : (some (schema.read .noticeSnapshot s)).filter (·.id ≠ "") =
      some (schema.read .noticeSnapshot s) :=
    if_pos (decide_eq_true (hid ▸ hne))
  have hhash := withHash_archiveOf c.db input.noticeItemId input.contentHash
  rw [hs] at hhash
  constructor
  · rw [upsertSnapshot, bind_of_ok hread, hs, Option.map_some, hfilter]
    show (Except.ok (⟨(schema.read .noticeSnapshot s).id, _, false⟩ : Upserted), c) = _
    rw [hid]
    rfl
  · constructor
    · rw [Archive.snapshotId, hhash]
      rfl
    · intro diffedAt
      rw [Archive.addSnapshot, hhash]
      rfl
    · intro itemId _
      rfl
    · intro s hs
      exact hs
    · exact ⟨s, mem_snapshotsOf.mpr ⟨hmem, hp.1⟩, rfl⟩
    · intro t _
      rfl

/-- The text is new. -/
theorem upsertSnapshot_new (h : SnapshotsSound draws n c.db) (hdraws : Drawn draws (n + 1))
    {input : SnapshotInput} (hitem : schema.hasKey c.db .noticeItem input.noticeItemId)
    (hplain : Text.Plain input.contentHash ∧ Text.Plain input.normalizedText)
    (hs : snapshotOf c.db input.noticeItemId input.contentHash = none) : ∃ up db',
      upsertSnapshot input (draws n).snapshot c = (.ok up, { c with db := db' }) ∧
      SnapshotUpserted c.db db' input (draws n).snapshot up ∧ SnapshotsSound draws (n + 1) db' := by
  let row : Row .noticeSnapshot :=
    ⟨(draws n).snapshot.id, input.noticeItemId, stamp (draws n).snapshot.now, input.contentHash,
      input.normalizedText⟩
  have hread : schema.selectOne .noticeSnapshot
      (fun r => r.noticeItemId == input.noticeItemId && r.contentHash == input.contentHash) c =
      (.ok ((snapshotOf c.db input.noticeItemId input.contentHash).map
        (schema.read .noticeSnapshot)), c) := rfl
  have hconflict : ¬ (c.db .noticeSnapshot).any (schema.conflicts .noticeSnapshot row) = true := by
    intro hany
    obtain ⟨r, hr, hsame⟩ := List.any_eq_true.mp hany
    rcases conflicts_iff.mp hsame with hkey | ⟨u, hu, hunique⟩
    · exact h.id_ne hdraws hr hkey.symm
    · obtain rfl := List.mem_singleton.mp hu
      obtain ⟨hitem, hrest⟩ := List.cons.inj hunique
      obtain ⟨hhash, -⟩ := List.cons.inj hrest
      apply List.find?_eq_none.mp hs r hr
      rw [Bool.and_eq_true, beq_iff_eq, beq_iff_eq]
      exact ⟨hitem.symm, hhash.symm⟩
  have hinsert : schema.insert .abort .noticeSnapshot row c =
      (.ok (), { c with db := c.db.set .noticeSnapshot (c.db .noticeSnapshot ++ [row]) }) := by
    apply insert_fits hconflict
    intro _ fk hfk k hk
    obtain rfl := List.mem_singleton.mp hfk
    obtain rfl := Option.mem_some_iff.mp hk
    exact hitem
  have hhash := withHash_archiveOf c.db input.noticeItemId input.contentHash
  rw [hs] at hhash
  have hsnapshots : ∀ itemId,
      snapshotsOf (c.db.set .noticeSnapshot (c.db .noticeSnapshot ++ [row])) itemId =
        snapshotsOf c.db itemId ++ if input.noticeItemId = itemId then [row] else [] := by
    intro itemId
    rw [snapshotsOf, Db.set_self, List.filter_append, snapshotsOf, List.filter_cons, List.filter_nil]
    congr 1
    simp only [beq_iff_eq]
    rfl
  refine ⟨⟨row.id, row.fetchedAt, true⟩, c.db.set .noticeSnapshot (c.db .noticeSnapshot ++ [row]), ?_,
    ⟨?_, ?_, ?_, ?_, ?_, ?_⟩, ?_, ?_, ?_, ?_⟩
  · rw [upsertSnapshot, bind_of_ok hread, hs]
    exact bind_of_ok hinsert
  · rw [Archive.snapshotId, hhash]
    rfl
  · intro diffedAt
    rw [Archive.addSnapshot, hhash, hsnapshots, if_pos rfl, List.map_append]
    rfl
  · intro itemId hother
    rw [hsnapshots, if_neg hother.symm, List.append_nil]
  · intro s hs
    rw [Db.set_self]
    exact List.mem_append_left _ hs
  · refine ⟨row, ?_, rfl⟩
    rw [hsnapshots, if_pos rfl]
    exact List.mem_append_right _ List.mem_cons_self
  · intro t ht
    exact Db.set_of_ne c.db ht _
  · rw [Db.set_self]
    exact distinctRows_append h.distinct hconflict
  · intro s hs
    rw [Db.set_self] at hs
    rcases List.mem_append.mp hs with hold | hnew
    · obtain ⟨k, hk, hid⟩ := h.drawn s hold
      exact ⟨k, hk.trans n.lt_succ_self, hid⟩
    · obtain rfl := List.mem_singleton.mp hnew
      exact ⟨n, n.lt_succ_self, rfl, rfl⟩
  · intro s hs
    rw [Db.set_self] at hs
    rw [Schema.hasKey, Db.set_of_ne c.db (by decide)]
    rcases List.mem_append.mp hs with hold | hnew
    · exact h.item s hold
    · obtain rfl := List.mem_singleton.mp hnew
      exact hitem
  · intro s hs
    rw [Db.set_self] at hs
    rcases List.mem_append.mp hs with hold | hnew
    · exact h.texts s hold
    · obtain rfl := List.mem_singleton.mp hnew
      exact hplain

theorem upsertSnapshot_ok (h : SnapshotsSound draws n c.db) (hdraws : Drawn draws (n + 1))
    (input : SnapshotInput) (hitem : schema.hasKey c.db .noticeItem input.noticeItemId)
    (hplain : Text.Plain input.contentHash ∧ Text.Plain input.normalizedText) : ∃ up db',
      upsertSnapshot input (draws n).snapshot c = (.ok up, { c with db := db' }) ∧
      SnapshotUpserted c.db db' input (draws n).snapshot up ∧ SnapshotsSound draws (n + 1) db' := by
  cases hs : snapshotOf c.db input.noticeItemId input.contentHash with
  | some s =>
      obtain ⟨hrun, hup⟩ := upsertSnapshot_known h hs
      refine ⟨_, c.db, hrun, hup, h.distinct, ?_, h.item, h.texts⟩
      intro s hs
      obtain ⟨k, hk, hid⟩ := h.drawn s hs
      exact ⟨k, hk.trans n.lt_succ_self, hid⟩
  | none => exact upsertSnapshot_new h hdraws hitem hplain hs

/-! ### Diffs -/

theorem DiffsSound.id_ne (h : DiffsSound draws n db) (hdraws : Drawn draws (n + 1)) {d : NoticeDiff}
    (hd : d ∈ db .noticeDiff) : d.id ≠ (draws n).diff.id := by
  obtain ⟨k, hk, hid, -⟩ := h.drawn d hd
  rw [hid]
  exact (hdraws.diffs n n.lt_succ_self k hk).1

/-- The id of a stored diff is read as it is. -/
theorem DiffsSound.readId (h : DiffsSound draws n db) {d : NoticeDiff} (hd : d ∈ db .noticeDiff) :
    nonEmpty (some (schema.read .noticeDiff d).id) = some d.id := by
  obtain ⟨k, -, hid, -⟩ := h.drawn d hd
  have hread : (schema.read .noticeDiff d).id = d.id :=
    (hid ▸ (draws k).diff.plain : Text.Plain d.id).cut
  rw [hread]
  exact nonEmpty_some (hid ▸ (draws k).diff.ne)

/-- A stored diff is read as it is. -/
theorem DiffsSound.whole {m k : ℕ} (h : DiffsSound draws n db) (hitems : ItemsSound draws m db)
    (hsnapshots : SnapshotsSound draws k db) {d : NoticeDiff} (hd : d ∈ db .noticeDiff) :
    schema.Whole .noticeDiff d := by
  obtain ⟨j, -, hid, htime⟩ := h.drawn d hd
  obtain ⟨s, hs, hfrom, hsame⟩ := h.snapshot d hd
  have hid' : Text.cut d.id = d.id := (hid ▸ (draws j).diff.plain : Text.Plain d.id).cut
  have hitem : Text.cut d.noticeItemId = d.noticeItemId :=
    (hsame ▸ hitems.plain_key (hsnapshots.item s hs)).cut
  have hfrom' : Text.cut d.fromSnapshotId = d.fromSnapshotId :=
    (hsnapshots.plain_key ⟨s, hs, hfrom⟩).cut
  have hto : Text.cut d.toSnapshotId = d.toSnapshotId := (hsnapshots.plain_key (h.toId d hd)).cut
  have hcreated : Text.cut d.createdAt = d.createdAt := by
    rw [htime]
    exact cut_stamp _
  show NoticeDiff.mk (Text.cut d.id) (Text.cut d.noticeItemId) (Text.cut d.fromSnapshotId)
    (Text.cut d.toSnapshotId) d.diffJson (Text.cut d.createdAt) = d
  rw [hid', hitem, hfrom', hto, hcreated]

/-- What an upsert of a diff does. -/
structure DiffUpserted (db db' : Db Row) (input : DiffInput) (draw : Draw) : Prop where
  diffs : (diffsOf db' input.noticeItemId).map viewDiff =
    addDiff ((diffsOf db input.noticeItemId).map viewDiff) input.fromSnapshotId
      input.toSnapshotId (Js.serialise input.diffJson) (stamp draw.now)
  others : ∀ itemId, itemId ≠ input.noticeItemId → diffsOf db' itemId = diffsOf db itemId
  tables : ∀ t, t ≠ .noticeDiff → db' t = db t

/-- The references of a diff that is to be stored. -/
structure DiffInput.Fits (input : DiffInput) (db : Db Row) : Prop where
  item : schema.hasKey db .noticeItem input.noticeItemId
  fromId : ∃ s : NoticeSnapshot, s ∈ db .noticeSnapshot ∧ s.id = input.fromSnapshotId ∧
    s.noticeItemId = input.noticeItemId
  toId : schema.hasKey db .noticeSnapshot input.toSnapshotId

theorem mem_diffsOf {itemId : String} {d : NoticeDiff} :
    d ∈ diffsOf db itemId ↔ d ∈ db .noticeDiff ∧ d.noticeItemId = itemId := by
  rw [diffsOf, List.mem_filter, beq_iff_eq]

/-- The stored diff between two snapshots. -/
def diffBetween (db : Db Row) (fromId toId : String) : Option NoticeDiff :=
  (db .noticeDiff).find? fun r => r.fromSnapshotId == fromId && r.toSnapshotId == toId

/-- A diff that starts from a snapshot of an article is a diff of the article. -/
theorem DiffsSound.item_eq (h : DiffsSound draws n db)
    (hsnapshots : schema.DistinctRows .noticeSnapshot (db .noticeSnapshot)) {input : DiffInput}
    (hfits : input.Fits db) {d : NoticeDiff} (hd : d ∈ db .noticeDiff)
    (hfrom : d.fromSnapshotId = input.fromSnapshotId) : d.noticeItemId = input.noticeItemId := by
  obtain ⟨s, hs, hid, hitem⟩ := h.snapshot d hd
  obtain ⟨s', hs', hid', hitem'⟩ := hfits.fromId
  obtain rfl : s = s' := hsnapshots.eq_of_key hs hs' (hid.trans (hfrom.trans hid'.symm))
  rw [← hitem, hitem']

/-- The change is known: its lines are replaced. -/
theorem upsertDiff_known (h : DiffsSound draws n c.db)
    (hsnapshots : schema.DistinctRows .noticeSnapshot (c.db .noticeSnapshot)) {input : DiffInput}
    (hfits : input.Fits c.db) {d : NoticeDiff}
    (hd : diffBetween c.db input.fromSnapshotId input.toSnapshotId = some d) : ∃ db',
      upsertDiff input (draws n).diff c = (.ok (d.id, false), { c with db := db' }) ∧
      DiffUpserted c.db db' input (draws n).diff ∧ DiffsSound draws (n + 1) db' := by
  have hmem : d ∈ c.db .noticeDiff := List.mem_of_find?_eq_some hd
  have hjoins := List.find?_some hd
  rw [Bool.and_eq_true, beq_iff_eq, beq_iff_eq] at hjoins
  let new (r : NoticeDiff) : NoticeDiff := { r with diffJson := Js.serialise input.diffJson }
  let f (r : NoticeDiff) : NoticeDiff := if r.id == d.id then new r else r
  let after : List (Row .noticeDiff) := (c.db .noticeDiff).map f
  have hread : schema.selectOne .noticeDiff
      (fun r => r.fromSnapshotId == input.fromSnapshotId && r.toSnapshotId == input.toSnapshotId) c =
      (.ok ((diffBetween c.db input.fromSnapshotId input.toSnapshotId).map
        (schema.read .noticeDiff)), c) := rfl
  have hupdate : schema.update .noticeDiff (fun r => r.id == d.id) new c =
      (.ok (), { c with db := c.db.set .noticeDiff after }) := by
    apply update_fits
    · intro r
      rfl
    · intro u hu r
      obtain rfl := List.mem_singleton.mp hu
      rfl
    · exact h.distinct
  have hf : ∀ r : NoticeDiff, (f r).id = r.id ∧ (f r).noticeItemId = r.noticeItemId ∧
      (f r).fromSnapshotId = r.fromSnapshotId ∧ (f r).createdAt = r.createdAt ∧
      (f r).toSnapshotId = r.toSnapshotId := by
    intro r
    dsimp only [f]
    split <;> exact ⟨rfl, rfl, rfl, rfl, rfl⟩
  have hdiffs : ∀ itemId, diffsOf (c.db.set .noticeDiff after) itemId =
      (diffsOf c.db itemId).map f := by
    intro itemId
    rw [diffsOf, Db.set_self, List.filter_map, diffsOf]
    congr 2
    funext r
    rw [Function.comp_apply, (hf r).2.1]
  -- of the rows, it is the one that joins the two snapshots
  have hone : ∀ r : NoticeDiff, r ∈ c.db .noticeDiff →
      (r.id == d.id) = (viewDiff r).joins input.fromSnapshotId input.toSnapshotId := by
    intro r hr
    rw [Bool.eq_iff_iff, DiffView.joins, Bool.and_eq_true, beq_iff_eq, beq_iff_eq, beq_iff_eq]
    constructor
    · intro hid
      obtain rfl : r = d := h.distinct.eq_of_key hr hmem hid
      exact hjoins
    · rintro ⟨hfrom, hto⟩
      have hconflict : schema.conflicts .noticeDiff r d = true :=
        conflicts_iff.mpr (.inr ⟨_, List.mem_cons_self,
          congrArg₂ (fun a b => [a, b]) (hfrom.trans hjoins.1.symm) (hto.trans hjoins.2.symm)⟩)
      rw [h.distinct.eq_of_conflicts hr hmem hconflict]
  refine ⟨c.db.set .noticeDiff after, ?_, ⟨?_, ?_, ?_⟩, ?_, ?_, ?_, ?_⟩
  · rw [upsertDiff, bind_of_ok hread, hd, Option.map_some, Option.map_some, h.readId hmem]
    exact bind_of_ok hupdate
  · have hany : ((diffsOf c.db input.noticeItemId).map viewDiff).any
        (DiffView.joins input.fromSnapshotId input.toSnapshotId) = true := by
      refine List.any_eq_true.mpr ⟨viewDiff d, List.mem_map_of_mem (mem_diffsOf.mpr ⟨hmem, ?_⟩), ?_⟩
      · exact h.item_eq hsnapshots hfits hmem hjoins.1
      · exact (hone d hmem).symm.trans (beq_self_eq_true d.id)
    rw [addDiff, if_pos hany, hdiffs, List.map_map, List.map_map]
    apply List.map_congr_left
    intro r hr
    have hjoin := hone r (mem_diffsOf.mp hr).1
    show viewDiff (f r) = if (viewDiff r).joins _ _ then _ else viewDiff r
    rw [← hjoin]
    dsimp only [f]
    split <;> rfl
  · intro itemId hother
    rw [hdiffs]
    conv_rhs => rw [← List.map_id (diffsOf c.db itemId)]
    apply List.map_congr_left
    intro r hr
    obtain ⟨hrmem, hitem⟩ := mem_diffsOf.mp hr
    refine if_neg fun hsame => hother ?_
    obtain rfl : r = d := h.distinct.eq_of_key hrmem hmem (beq_iff_eq.mp hsame)
    rw [← hitem]
    exact h.item_eq hsnapshots hfits hmem hjoins.1
  · intro t ht
    exact Db.set_of_ne c.db ht after
  · have hkeeps : Keeps (fun c : Conn => schema.DistinctRows .noticeDiff (c.db .noticeDiff))
        (schema.update .noticeDiff (fun r => r.id == d.id) new) := keeps_distinct_update
    have hafter := hkeeps.apply h.distinct
    rwa [hupdate] at hafter
  · intro r hr
    rw [Db.set_self] at hr
    obtain ⟨q, hq, rfl⟩ := List.mem_map.mp hr
    obtain ⟨k, hk, hid, htime⟩ := h.drawn q hq
    exact ⟨k, hk.trans n.lt_succ_self, (hf q).1.trans hid, (hf q).2.2.2.1.trans htime⟩
  · intro r hr
    rw [Db.set_self] at hr
    obtain ⟨q, hq, rfl⟩ := List.mem_map.mp hr
    rw [Db.set_of_ne c.db (by decide), (hf q).2.1, (hf q).2.2.1]
    exact h.snapshot q hq
  · intro r hr
    rw [Db.set_self] at hr
    obtain ⟨q, hq, rfl⟩ := List.mem_map.mp hr
    rw [Schema.hasKey, Db.set_of_ne c.db (by decide), (hf q).2.2.2.2]
    exact h.toId q hq

/-- The change is new. -/
theorem upsertDiff_new (h : DiffsSound draws n c.db) (hdraws : Drawn draws (n + 1))
    {input : DiffInput} (hfits : input.Fits c.db)
    (hd : diffBetween c.db input.fromSnapshotId input.toSnapshotId = none) : ∃ db',
      upsertDiff input (draws n).diff c = (.ok ((draws n).diff.id, true), { c with db := db' }) ∧
      DiffUpserted c.db db' input (draws n).diff ∧
      DiffsSound draws (n + 1) db' := by
  let row : Row .noticeDiff :=
    ⟨(draws n).diff.id, input.noticeItemId, input.fromSnapshotId, input.toSnapshotId,
      Js.serialise input.diffJson, stamp (draws n).diff.now⟩
  have hread : schema.selectOne .noticeDiff
      (fun r => r.fromSnapshotId == input.fromSnapshotId && r.toSnapshotId == input.toSnapshotId) c =
      (.ok ((diffBetween c.db input.fromSnapshotId input.toSnapshotId).map
        (schema.read .noticeDiff)), c) := rfl
  have hnone : ∀ r : NoticeDiff, r ∈ c.db .noticeDiff →
      (viewDiff r).joins input.fromSnapshotId input.toSnapshotId = false := fun r hr =>
    Bool.eq_false_iff.mpr (List.find?_eq_none.mp hd r hr)
  have hconflict : ¬ (c.db .noticeDiff).any (schema.conflicts .noticeDiff row) = true := by
    intro hany
    obtain ⟨r, hr, hsame⟩ := List.any_eq_true.mp hany
    rcases conflicts_iff.mp hsame with hkey | ⟨u, hu, hunique⟩
    · exact h.id_ne hdraws hr hkey.symm
    · obtain rfl := List.mem_singleton.mp hu
      obtain ⟨hfrom, hrest⟩ := List.cons.inj hunique
      obtain ⟨hto, -⟩ := List.cons.inj hrest
      apply List.find?_eq_none.mp hd r hr
      rw [Bool.and_eq_true, beq_iff_eq, beq_iff_eq]
      exact ⟨hfrom.symm, hto.symm⟩
  have hinsert : schema.insert .abort .noticeDiff row c =
      (.ok (), { c with db := c.db.set .noticeDiff (c.db .noticeDiff ++ [row]) }) := by
    apply insert_fits hconflict
    intro _ fk hfk k hk
    obtain ⟨s, hs, hid, -⟩ := hfits.fromId
    rcases List.mem_cons.mp hfk with rfl | hfk
    · obtain rfl := Option.mem_some_iff.mp hk
      exact hfits.item
    · rcases List.mem_cons.mp hfk with rfl | hfk
      · obtain rfl := Option.mem_some_iff.mp hk
        exact ⟨s, hs, hid⟩
      · obtain rfl := List.mem_singleton.mp hfk
        obtain rfl := Option.mem_some_iff.mp hk
        exact hfits.toId
  have hdiffs : ∀ itemId, diffsOf (c.db.set .noticeDiff (c.db .noticeDiff ++ [row])) itemId =
      diffsOf c.db itemId ++ if input.noticeItemId = itemId then [row] else [] := by
    intro itemId
    rw [diffsOf, Db.set_self, List.filter_append, diffsOf, List.filter_cons, List.filter_nil]
    congr 1
    simp only [beq_iff_eq]
    rfl
  refine ⟨c.db.set .noticeDiff (c.db .noticeDiff ++ [row]), ?_, ⟨?_, ?_, ?_⟩, ?_, ?_, ?_, ?_⟩
  · rw [upsertDiff, bind_of_ok hread, hd]
    exact bind_of_ok hinsert
  · have hany : ¬ ((diffsOf c.db input.noticeItemId).map viewDiff).any
        (DiffView.joins input.fromSnapshotId input.toSnapshotId) = true := by
      intro hany
      obtain ⟨v, hv, hjoin⟩ := List.any_eq_true.mp hany
      obtain ⟨r, hr, rfl⟩ := List.mem_map.mp hv
      rw [hnone r (mem_diffsOf.mp hr).1] at hjoin
      cases hjoin
    rw [addDiff, if_neg hany, hdiffs, if_pos rfl, List.map_append]
    rfl
  · intro itemId hother
    rw [hdiffs, if_neg hother.symm, List.append_nil]
  · intro t ht
    exact Db.set_of_ne c.db ht _
  · rw [Db.set_self]
    exact distinctRows_append h.distinct hconflict
  · intro r hr
    rw [Db.set_self] at hr
    rcases List.mem_append.mp hr with hold | hnew
    · obtain ⟨k, hk, hid⟩ := h.drawn r hold
      exact ⟨k, hk.trans n.lt_succ_self, hid⟩
    · obtain rfl := List.mem_singleton.mp hnew
      exact ⟨n, n.lt_succ_self, rfl, rfl⟩
  · intro r hr
    rw [Db.set_self] at hr
    rw [Db.set_of_ne c.db (by decide)]
    rcases List.mem_append.mp hr with hold | hnew
    · exact h.snapshot r hold
    · obtain rfl := List.mem_singleton.mp hnew
      exact hfits.fromId
  · intro r hr
    rw [Db.set_self] at hr
    rw [Schema.hasKey, Db.set_of_ne c.db (by decide)]
    rcases List.mem_append.mp hr with hold | hnew
    · exact h.toId r hold
    · obtain rfl := List.mem_singleton.mp hnew
      exact hfits.toId

theorem upsertDiff_ok (h : DiffsSound draws n c.db) (hdraws : Drawn draws (n + 1))
    (hsnapshots : schema.DistinctRows .noticeSnapshot (c.db .noticeSnapshot)) {input : DiffInput}
    (hfits : input.Fits c.db) : ∃ up db',
      upsertDiff input (draws n).diff c = (.ok up, { c with db := db' }) ∧
      DiffUpserted c.db db' input (draws n).diff ∧ DiffsSound draws (n + 1) db' := by
  cases hd : diffBetween c.db input.fromSnapshotId input.toSnapshotId with
  | some d => exact ⟨_, upsertDiff_known h hsnapshots hfits hd⟩
  | none => exact ⟨_, upsertDiff_new h hdraws hfits hd⟩

end

end Hub
