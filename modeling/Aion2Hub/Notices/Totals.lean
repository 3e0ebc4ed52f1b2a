/-
Aion2Hub/Notices/Totals.lean

The totals that a sync reports are those of what it has done.

A sync that succeeds has skipped or fetched every article that the boards list,
has stored every detail it has fetched, and counts a snapshot or a diff just
when there is a new row (`totals_of_sync`).
-/
import Aion2Hub.Notices.History

namespace Hub

open Sql Exec

/-! ### The rows that are added -/

section

variable {c d : Conn}

theorem leaves_upsertNoticeItem {F : Table → Prop} {input : NoticeInput} {draw : Draw}
    (h : ¬ F .noticeItem) : Leaves F (upsertNoticeItem input draw) := by
  refine Leaves.gets.bind fun existing => ?_
  split
  · exact (leaves_update h).bind fun _ => Leaves.pure
  · exact (leaves_insert_abort h).bind fun _ => Leaves.pure

theorem upsertNoticeItem_tables {input : NoticeInput} {draw : Draw} {itemId : String}
    (h : upsertNoticeItem input draw c = (.ok itemId, d)) {t : Table} (ht : t ≠ .noticeItem) :
    d.db t = c.db t :=
  (leaves_upsertNoticeItem (F := (· = t)) ht.symm).of_ok h rfl

/-- A snapshot is reported as inserted just when there is a new row. -/
theorem upsertSnapshot_counts {input : SnapshotInput} {draw : Draw} {up : Upserted}
    (h : upsertSnapshot input draw c = (.ok up, d)) :
    (d.db .noticeSnapshot).length = (c.db .noticeSnapshot).length + (if up.inserted then 1 else 0) ∧
      d.db .noticeDiff = c.db .noticeDiff := by
  obtain ⟨existing, c₁, hread, hrest⟩ := bind_eq_ok h
  obtain rfl : c = c₁ := congrArg Prod.snd hread
  generalize existing.filter (fun r : NoticeSnapshot => r.id ≠ "") = found at hrest
  cases found with
  | some row =>
    cases hrest
    exact ⟨rfl, rfl⟩
  | none =>
    obtain ⟨u, d₁, hinsert, hpure⟩ := bind_eq_ok hrest
    cases hpure
    exact ⟨length_insert hinsert, insert_of_ne hinsert (by decide)⟩

/-- A diff is reported as inserted just when there is a new row. -/
theorem upsertDiff_counts {input : DiffInput} {draw : Draw} {up : String × Bool}
    (h : upsertDiff input draw c = (.ok up, d)) :
    (d.db .noticeDiff).length = (c.db .noticeDiff).length + (if up.2 then 1 else 0) ∧
      d.db .noticeSnapshot = c.db .noticeSnapshot := by
  obtain ⟨existing, c₁, hread, hrest⟩ := bind_eq_ok h
  obtain rfl : c = c₁ := congrArg Prod.snd hread
  generalize nonEmpty (existing.map fun r : NoticeDiff => r.id) = found at hrest
  cases found with
  | some diffId =>
    obtain ⟨u, d₁, hupdate, hpure⟩ := bind_eq_ok hrest
    cases hpure
    exact ⟨length_update hupdate, update_of_ne hupdate (by decide)⟩
  | none =>
    obtain ⟨u, d₁, hinsert, hpure⟩ := bind_eq_ok hrest
    cases hpure
    exact ⟨length_insert hinsert, insert_of_ne hinsert (by decide)⟩

end

/-- What is counted while a detail is stored: the two tables grow by what is
added to their totals. -/
structure Counts (totals totals' : SyncTotals) (db db' : Db Row) : Prop where
  sources : totals'.sources = totals.sources
  metasFetched : totals'.metasFetched = totals.metasFetched
  detailsFetched : totals'.detailsFetched = totals.detailsFetched
  skipped : totals'.skipped = totals.skipped
  items : totals'.itemsUpserted = totals.itemsUpserted
  snapshots : totals'.snapshotsInserted + (db .noticeSnapshot).length =
    totals.snapshotsInserted + (db' .noticeSnapshot).length
  diffs : totals'.diffsInserted + (db .noticeDiff).length =
    totals.diffsInserted + (db' .noticeDiff).length

section

variable {env : SyncEnv} {c d : Conn} {totals totals' : SyncTotals}

theorem Counts.refl (totals : SyncTotals) (db : Db Row) : Counts totals totals db db :=
  ⟨rfl, rfl, rfl, rfl, rfl, rfl, rfl⟩

theorem counts_storeChange {draw : Draw} {itemId text hash snapshotId : String}
    {before : Option NoticeSnapshot}
    (h : storeChange env draw itemId text hash before snapshotId totals c = (.ok totals', d)) :
    Counts totals totals' c.db d.db := by
  unfold storeChange at h
  split at h
  · cases h
    exact Counts.refl _ _
  · split at h
    · cases h
      exact Counts.refl _ _
    · split at h
      · cases h
        exact Counts.refl _ _
      · obtain ⟨up, d₁, hdiff, h⟩ := bind_eq_ok h
        cases h
        obtain ⟨hdiffs, hsnapshots⟩ := upsertDiff_counts hdiff
        refine ⟨rfl, rfl, rfl, rfl, rfl, ?_, ?_⟩
        · rw [hsnapshots]
        · rw [hdiffs]
          dsimp only
          omega

theorem counts_storeText {draws : ArticleDraws} {itemId contentHtml : String}
    (h : storeText env draws itemId contentHtml totals c = (.ok totals', d)) :
    Counts totals totals' c.db d.db := by
  obtain ⟨before, c₁, hread, hrest⟩ := bind_eq_ok h
  obtain rfl : c₁ = c := (congrArg Prod.snd hread).symm
  obtain ⟨up, c₂, hsnapshot, hchanged⟩ := bind_eq_ok hrest
  obtain ⟨hsnapshots, hdiffs⟩ := upsertSnapshot_counts hsnapshot
  have hchange := counts_storeChange hchanged
  have hgrown := hchange.snapshots
  have hdiff := hchange.diffs
  rw [hdiffs] at hdiff
  refine ⟨hchange.sources, hchange.metasFetched, hchange.detailsFetched, hchange.skipped,
    hchange.items, ?_, hdiff⟩
  dsimp only at hgrown
  omega

theorem counts_storeDetail {draws : ArticleDraws} {source : NoticeSource}
    {metaUpdatedAt : Option String} {detail : PlayncArticleDetail}
    (h : storeDetail env draws source metaUpdatedAt detail totals c = (.ok totals', d)) :
    Counts { totals with itemsUpserted := totals.itemsUpserted + 1 } totals' c.db d.db := by
  obtain ⟨itemId, c₁, hitem, htext⟩ := bind_eq_ok h
  have hcounts := counts_storeText htext
  have hsnapshots := hcounts.snapshots
  have hdiffs := hcounts.diffs
  rw [upsertNoticeItem_tables hitem (by decide)] at hsnapshots hdiffs
  exact ⟨hcounts.sources, hcounts.metasFetched, hcounts.detailsFetched, hcounts.skipped,
    hcounts.items, hsnapshots, hdiffs⟩

end

/-! ### A sync -/

/-- A part of a sync has handled some of the listed articles, while others have
been listed. -/
structure Tallied (handled listed : ℕ) (totals totals' : SyncTotals) (s s' : SyncState) : Prop where
  fetched : s.fetched <+: s'.fetched
  sources : totals'.sources = totals.sources
  metas : totals'.metasFetched = totals.metasFetched + listed
  handled : totals'.detailsFetched + totals'.skipped =
    totals.detailsFetched + totals.skipped + handled
  details : totals'.detailsFetched + s.fetched.length = totals.detailsFetched + s'.fetched.length
  items : totals'.itemsUpserted + s.fetched.length = totals.itemsUpserted + s'.fetched.length
  snapshots : totals'.snapshotsInserted + (s.conn.db .noticeSnapshot).length =
    totals.snapshotsInserted + (s'.conn.db .noticeSnapshot).length
  diffs : totals'.diffsInserted + (s.conn.db .noticeDiff).length =
    totals.diffsInserted + (s'.conn.db .noticeDiff).length

section

variable {env : SyncEnv} {draws : ℕ → ArticleDraws} {s s' s'' : SyncState} {round : Round}
variable {totals totals' totals'' : SyncTotals} {i j m n : ℕ}

theorem Tallied.trans (h : Tallied i m totals totals' s s') (h' : Tallied j n totals' totals'' s' s'') :
    Tallied (i + j) (m + n) totals totals'' s s'' where
  fetched := h.fetched.trans h'.fetched
  sources := h'.sources.trans h.sources
  metas := by rw [h'.metas, h.metas, Nat.add_assoc]
  handled := by rw [h'.handled, h.handled, Nat.add_assoc]
  details := by have := h.details; have := h'.details; omega
  items := by have := h.items; have := h'.items; omega
  snapshots := by have := h.snapshots; have := h'.snapshots; omega
  diffs := by have := h.diffs; have := h'.diffs; omega

/-- Other handlers add no notices. -/
theorem tallied_of_tables (hfetched : s'.fetched = s.fetched)
    (htables : ∀ t, IsNotice t → s'.conn.db t = s.conn.db t) : Tallied 0 0 totals totals s s' where
  fetched := hfetched ▸ List.prefix_rfl
  sources := rfl
  metas := rfl
  handled := rfl
  details := by rw [hfetched]
  items := by rw [hfetched]
  snapshots := by rw [htables _ (.inr (.inl rfl))]
  diffs := by rw [htables _ (.inr (.inr rfl))]

/-- A listed article is skipped, or its detail is stored. -/
theorem tallied_syncArticle (hround : round.Quiet) {source : NoticeSource} {info : PlayncArticleMeta}
    (hrun : syncArticle env draws round source info totals s = (.ok totals', s')) :
    Tallied 1 0 totals totals' s s' := by
  obtain ⟨unchanged, s₁, hread, hrun⟩ := bind_eq_ok hrun
  obtain rfl : s₁ = s := by
    obtain ⟨asked, hok⟩ := isUnchanged_ok s.conn source info.id (effectiveUpdatedAt env.host info)
    rw [onDb, hok] at hread
    cases hread
    rfl
  cases unchanged with
  | true =>
      cases hrun
      exact ⟨List.prefix_rfl, rfl, rfl, rfl, rfl, rfl, rfl, rfl⟩
  | false =>
      obtain ⟨n, s₂, hlength, hrun⟩ := bind_eq_ok hrun
      cases hlength
      obtain ⟨detail, s₃, hawait, hrun⟩ := bind_eq_ok hrun
      -- what other handlers do while the detail is awaited
      let conn := round.meanwhile (sourceToAlias source) (some info.id) s₁.conn
      obtain rfl : s₃ = ⟨conn, s₁.fetched ++ [(source, detail)]⟩ := by
        rw [awaitDetail] at hawait
        split at hawait
        · cases hawait
          rfl
        · cases hawait
      have htables : ∀ t, IsNotice t → conn.db t = s₁.conn.db t := hround _ _ _
      have hresult := congrArg Prod.snd hrun
      have hfetched : s'.fetched = s₁.fetched ++ [(source, detail)] :=
        (congrArg SyncState.fetched hresult).symm
      have hreturned := congrArg Prod.fst hrun
      have hconn := congrArg SyncState.conn hresult
      have hstore : storeDetail env (draws s₁.fetched.length) source
          (effectiveUpdatedAt env.host info) detail
          { totals with detailsFetched := totals.detailsFetched + 1 } conn = (.ok totals', s'.conn) :=
        Prod.ext hreturned hconn
      obtain ⟨hsources, hmetas, hdetails, hskipped, hitems, hsnapshots, hdiffs⟩ :=
        counts_storeDetail hstore
      rw [htables _ (.inr (.inl rfl))] at hsnapshots
      rw [htables _ (.inr (.inr rfl))] at hdiffs
      have hlength : (s₁.fetched ++ [(source, detail)]).length = s₁.fetched.length + 1 :=
        List.length_append
      refine ⟨hfetched ▸ List.prefix_append _ _, hsources, hmetas, ?_, ?_, ?_, hsnapshots, hdiffs⟩
      all_goals
        dsimp only at hdetails hskipped hitems ⊢
        try rw [hfetched]
        omega

theorem tallied_syncArticles (hround : round.Quiet) {source : NoticeSource}
    {metas : List PlayncArticleMeta}
    (hrun : syncArticles env draws round source metas totals s = (.ok totals', s')) :
    Tallied metas.length 0 totals totals' s s' := by
  induction metas generalizing totals s with
  | nil =>
      cases hrun
      exact tallied_of_tables rfl fun _ _ => rfl
  | cons info metas ih =>
      obtain ⟨totals₁, s₁, hfirst, hrest⟩ := bind_eq_ok hrun
      rw [List.length_cons, Nat.add_comm]
      exact (tallied_syncArticle hround hfirst).trans (ih hrest)

theorem tallied_syncSources (hround : round.Quiet) {options : PlayncLatestOptions}
    {sources : List NoticeSource}
    (hrun : syncSources env draws round options sources totals s = (.ok totals', s')) :
    ∃ n, Tallied n n totals totals' s s' := by
  induction sources generalizing totals s with
  | nil =>
      cases hrun
      exact ⟨0, tallied_of_tables rfl fun _ _ => rfl⟩
  | cons source sources ih =>
      obtain ⟨metas, s₁, hlist, hrun⟩ := bind_eq_ok hrun
      obtain ⟨totals₂, s₂, harticles, hrest⟩ := bind_eq_ok hrun
      obtain ⟨n, htail⟩ := ih hrest
      have hmiddle := tallied_syncArticles hround harticles
      obtain rfl : s₁ = ⟨round.meanwhile (sourceToAlias source) none s.conn, s.fetched⟩ :=
        (congrArg Prod.snd hlist).symm
      have hhead : Tallied 0 metas.length totals
          { totals with metasFetched := totals.metasFetched + metas.length } s
          ⟨round.meanwhile (sourceToAlias source) none s.conn, s.fetched⟩ := by
        have hquiet : Tallied 0 0 totals totals s
            ⟨round.meanwhile (sourceToAlias source) none s.conn, s.fetched⟩ :=
          tallied_of_tables rfl (hround _ _ _)
        exact ⟨hquiet.fetched, rfl, rfl, rfl, hquiet.details, hquiet.items, hquiet.snapshots, hquiet.diffs⟩
      refine ⟨metas.length + n, ?_⟩
      have hall := (hhead.trans hmiddle).trans htail
      rwa [Nat.zero_add, Nat.add_zero] at hall

/-- What a sync that succeeds reports. -/
structure TotalsOf (options : SyncNoticesOptions) (totals : SyncTotals) (s s' : SyncState) : Prop where
  sources : totals.sources = options.sources.length
  metas : totals.metasFetched = totals.detailsFetched + totals.skipped
  details : s'.fetched.length = s.fetched.length + totals.detailsFetched
  items : totals.itemsUpserted = totals.detailsFetched
  snapshots : (s'.conn.db .noticeSnapshot).length =
    (s.conn.db .noticeSnapshot).length + totals.snapshotsInserted
  diffs : (s'.conn.db .noticeDiff).length = (s.conn.db .noticeDiff).length + totals.diffsInserted

/-- **The totals of a sync** are those of what it has done. -/
theorem totals_of_sync (hround : round.Quiet) {options : SyncNoticesOptions}
    (hrun : syncNotices env draws options round s = (.ok totals, s')) :
    TotalsOf options totals s s' := by
  obtain ⟨n, htallied⟩ := tallied_syncSources hround hrun
  obtain ⟨-, hsources, hmetas, hhandled, hdetails, hitems, hsnapshots, hdiffs⟩ := htallied
  constructor
  · exact hsources
  all_goals
    dsimp only at hmetas hhandled hdetails hitems hsnapshots hdiffs
    omega

end

theorem totals_edited : ∃ totals s',
    syncNotices plainEnv countedDraws ⟨[.notice], ⟨1, 18, true⟩⟩ (oneArticle "new") edited =
      (.ok totals, s') ∧ TotalsOf ⟨[.notice], ⟨1, 18, true⟩⟩ totals edited s' := by
  have hok : (syncNotices plainEnv countedDraws ⟨[.notice], ⟨1, 18, true⟩⟩ (oneArticle "new")
      edited).1.isOk = true := by decide +kernel
  rcases hrun : syncNotices plainEnv countedDraws ⟨[.notice], ⟨1, 18, true⟩⟩ (oneArticle "new") edited
    with ⟨e | totals, s'⟩
  · rw [hrun] at hok
    cases hok
  · exact ⟨totals, s', rfl, totals_of_sync (fun _ _ _ _ _ => rfl) hrun⟩

end Hub
