/-
Aion2Hub/Notices/Agreement.lean

The desktop app skips an article whose date is the stored one; the worker
fetches every article in every sync.  Both keep the same notices.

Skipping loses nothing as long as the date of an article tells what it says
(`Round.Tells`): what would be fetched is what was fetched last, and to see a
text again at once adds nothing to a record.  So the two programs, fed with the
same boards, stay linked (`linked_syncArticle` is the step), and what they store
of an article agrees (`agree_of_paired`).
-/
import Aion2Hub.Notices.Totals
import Aion2Hub.Notices.Worker

namespace Hub

open Sql Exec

/-! ### The worker keeps the record -/

namespace Worker

/-- What is drawn is new, and hashes tell the texts of an article apart. -/
structure Usable (env : SyncEnv) (draws : ℕ → ArticleDraws)
    (stored : List (NoticeSource × PlayncArticleDetail)) : Prop where
  drawn : Drawn draws stored.length
  hash : ∀ source externalId,
    HashTells env.sha256Hex ((contentsOf env stored source externalId).map (·.text))

/-- Every article is stored with the record of its texts. -/
def Filed (env : SyncEnv) (draws : ℕ → ArticleDraws) (w : SyncState) : Prop :=
  Usable env draws w.stored → Sound draws w.stored.length w.repo ∧
    ∀ source externalId, Archived env.sha256Hex (storedJson env)
      (articleOf w.repo source externalId) (contentsOf env w.stored source externalId)

section

variable {env : SyncEnv} {draws : ℕ → ArticleDraws} {rejects : Rejects} {round : Round}
variable {source : NoticeSource} {w w' : SyncState} {totals totals' : SyncTotals}

theorem Usable.before {stored stored' : List (NoticeSource × PlayncArticleDetail)}
    (h : Usable env draws stored') (hgrown : stored <+: stored') : Usable env draws stored where
  drawn := h.drawn.mono hgrown.length_le
  hash := by
    intro source externalId t ht t' ht'
    have hsub : ∀ t, t ∈ (contentsOf env stored source externalId).map (·.text) →
        t ∈ (contentsOf env stored' source externalId).map (·.text) := fun t ht =>
      (((hgrown.sublist.filter _).map _).map _).subset ht
    exact h.hash source externalId t (hsub t ht) t' (hsub t' ht')

/-- What a round of the inner loop does, when it succeeds. -/
theorem syncArticle_ok {info : PlayncArticleMeta}
    (h : syncArticle env draws false rejects round source info totals w = (.ok totals', w')) :
    ∃ detail, fetchArticleDetail (round.article (sourceToAlias source) info.id)
        (sourceToAlias source) info.id = .ok detail ∧
      w' = ⟨w.repo.store env (draws w.stored.length) source
        (w.repo.findLatestSnapshot source info.id) detail, w.stored ++ [(source, detail)]⟩ := by
  obtain ⟨latest, w₁, hlatest, h⟩ := bind_eq_ok h
  obtain ⟨rfl, rfl⟩ := callRepo_eq_ok hlatest
  obtain ⟨n, w₂, hlength, h⟩ := bind_eq_ok h
  cases hlength
  obtain ⟨detail, w₃, hawait, h⟩ := bind_eq_ok h
  rw [awaitDetail, ofExcept_apply] at hawait
  obtain ⟨hanswer, rfl⟩ := Prod.mk.inj hawait
  exact ⟨detail, hanswer, (store_eq_ok h).symm⟩

theorem stored_syncArticles {metas : List PlayncArticleMeta}
    (h : syncArticles env draws false rejects round source metas totals w = (.ok totals', w')) :
    w.stored <+: w'.stored := by
  induction metas generalizing totals w with
  | nil =>
      cases h
      exact List.prefix_rfl
  | cons info metas ih =>
      obtain ⟨totals₁, w₁, hfirst, hrest⟩ := bind_eq_ok h
      obtain ⟨detail, -, rfl⟩ := syncArticle_ok hfirst
      exact (List.prefix_append _ _).trans (ih hrest)

/-- What is listed, when the worker gets through. -/
theorem awaitMetas_ok {options : PlayncLatestOptions} {metas : List PlayncArticleMeta}
    (h : awaitMetas round options source w = (.ok metas, w')) :
    (fetchLatestArticleMetas (round.server (sourceToAlias source)) (sourceToAlias source) options
      []).1 = .ok metas ∧ w' = w := by
  rw [awaitMetas, ofExcept_apply] at h
  obtain ⟨hmetas, rfl⟩ := Prod.mk.inj h
  exact ⟨hmetas, rfl⟩

theorem stored_syncSources {options : PlayncLatestOptions} {sources : List NoticeSource}
    (h : syncSources env draws false rejects round options sources totals w = (.ok totals', w')) :
    w.stored <+: w'.stored := by
  induction sources generalizing totals w with
  | nil =>
      cases h
      exact List.prefix_rfl
  | cons source sources ih =>
      obtain ⟨metas, w₁, hlist, h⟩ := bind_eq_ok h
      obtain ⟨totals₂, w₂, harticles, hrest⟩ := bind_eq_ok h
      obtain ⟨-, rfl⟩ := awaitMetas_ok hlist
      exact (stored_syncArticles harticles).trans (ih hrest)

/-- The snapshots that are a record are in the order of their times. -/
theorem inOrder_of_kept {repo : Repo} {itemId : String} {texts : List String}
    (h : Kept env.sha256Hex (storedJson env) (archiveOf repo itemId) texts) : InOrder repo itemId := by
  have htimes : ((snapshotsOf repo itemId).map viewSnapshot).Pairwise fun s s' =>
    s.fetchedAt < s'.fetchedAt := h.times
  rw [List.pairwise_map] at htimes
  exact htimes

theorem filed_store (h : Filed env draws w) (source : NoticeSource) (detail : PlayncArticleDetail) :
    Filed env draws ⟨w.repo.store env (draws w.stored.length) source
      (w.repo.findLatestSnapshot source detail.id) detail, w.stored ++ [(source, detail)]⟩ := by
  intro husable
  obtain ⟨hsound, harchived⟩ := h (husable.before (List.prefix_append _ _))
  have hdrawn : Drawn draws (w.stored ++ [(source, detail)]).length := husable.drawn
  rw [List.length_append] at hdrawn
  have horder : ∀ r, itemOf w.repo source detail.id = some r → InOrder w.repo r.id := by
    intro r hr
    have hkept := (harchived source detail.id).kept
    rw [articleOf, hr] at hkept
    exact inOrder_of_kept hkept
  obtain ⟨hstored, hsound'⟩ := Repo.store_spec env hdrawn hsound horder
  constructor
  · show Sound draws (w.stored ++ [(source, detail)]).length _
    rw [List.length_append]
    exact hsound'
  -- the article that is stored gets one more content, the others stay
  · intro source' externalId
    show Archived _ _ (articleOf _ source' externalId) (contentsOf env (w.stored ++ _) _ _)
    have hhash : HashTells env.sha256Hex
        ((contentsOf env (w.stored ++ [(source, detail)]) source' externalId).map (·.text)) :=
      husable.hash source' externalId
    rw [contentsOf_concat] at hhash ⊢
    by_cases hsame : (source', externalId) = (source, detail.id)
    · obtain ⟨rfl, rfl⟩ := Prod.mk.inj hsame
      rw [if_pos rfl] at hhash ⊢
      rw [hstored.article]
      apply (harchived source' detail.id).fetch hhash
      rw [articleOf]
      cases itemOf w.repo source' detail.id with
      | none => exact ⟨fun _ h => absurd h List.not_mem_nil, fun _ h => absurd h List.not_mem_nil,
          fun _ h => absurd h List.not_mem_nil⟩
      | some r => exact hsound.fresh hdrawn r.id
    · rw [if_neg hsame, List.append_nil, hstored.others source' externalId hsame]
      exact harchived source' externalId

end

end Worker

/-! ### Side by side -/

/-- The date of a listed article tells what it says; the detail that is answered
is that of the article. -/
def Round.Tells (round : Round) (env : SyncEnv) (version : NoticeSource → String → String → Content)
    (source : NoticeSource) (info : PlayncArticleMeta) : Prop :=
  ∀ detail, fetchArticleDetail (round.article (sourceToAlias source) info.id) (sourceToAlias source)
      info.id = .ok detail →
    detail.id = info.id ∧ ∃ t, effectiveUpdatedAt env.host info = some t ∧
      contentOf env detail = version source info.id t

/-- Both programs have come to the same record, and the app knows the version of
what it fetched last. -/
structure Linked (env : SyncEnv) (version : NoticeSource → String → String → Content) (s : SyncState)
    (w : Worker.SyncState) : Prop where
  length : s.fetched.length ≤ w.stored.length
  record : ∀ source externalId,
    Sightings.record ((contentsOf env s.fetched source externalId).map (·.text)) =
      Sightings.record ((contentsOf env w.stored source externalId).map (·.text))
  last : ∀ source externalId, (contentsOf env s.fetched source externalId).getLast? =
    (contentsOf env w.stored source externalId).getLast?
  version : ∀ source externalId r, itemOf s.conn.db source externalId = some r →
    (contentsOf env s.fetched source externalId).getLast? =
      some (version source externalId (Text.cut r.updatedAt))

structure Together (env : SyncEnv) (draws draws' : ℕ → ArticleDraws)
    (version : NoticeSource → String → String → Content) (s : SyncState) (w : Worker.SyncState) :
    Prop where
  app : Filed env draws s
  worker : Worker.Filed env draws' w
  linked : Linked env version s w

section

variable {env : SyncEnv} {draws draws' : ℕ → ArticleDraws} {round : Round}
variable {version : NoticeSource → String → String → Content} {source : NoticeSource}
variable {info : PlayncArticleMeta} {s s' : SyncState} {w w' : Worker.SyncState}
variable {wt wt' : Worker.SyncTotals} {rejects : Worker.Rejects}

/-- Hashes that tell the texts of the worker apart tell those of the app apart. -/
theorem Linked.hash (h : Linked env version s w) {source : NoticeSource} {externalId : String}
    (hhash : HashTells env.sha256Hex ((contentsOf env w.stored source externalId).map (·.text))) :
    HashTells env.sha256Hex ((contentsOf env s.fetched source externalId).map (·.text)) := by
  intro t ht t' ht'
  have hsub : ∀ t, t ∈ (contentsOf env s.fetched source externalId).map (·.text) →
      t ∈ (contentsOf env w.stored source externalId).map (·.text) := by
    intro t ht
    rw [← Sightings.mem_seen_record, ← h.record, Sightings.mem_seen_record]
    exact ht
  exact hhash t (hsub t ht) t' (hsub t' ht')

/-- And so with texts that hold no U+0000. -/
theorem Linked.plainTexts (h : Linked env version s w) (hplain : PlainTexts env w.stored) :
    PlainTexts env s.fetched := by
  intro p hp
  have hcontent : contentOf env p.2 ∈ contentsOf env s.fetched p.1 p.2.id := by
    apply List.mem_map.mpr
    refine ⟨p, List.mem_filter.mpr ⟨hp, ?_⟩, rfl⟩
    rw [beq_self_eq_true, beq_self_eq_true, Bool.and_self]
  have htext : (contentOf env p.2).text ∈ (contentsOf env w.stored p.1 p.2.id).map (·.text) := by
    rw [← Sightings.mem_seen_record, ← h.record, Sightings.mem_seen_record]
    exact List.mem_map_of_mem hcontent
  obtain ⟨c, hc, hsame⟩ := List.mem_map.mp htext
  obtain ⟨q, hq, rfl⟩ := List.mem_map.mp hc
  rw [← hsame]
  exact hplain q (List.mem_filter.mp hq).1

/-- The article is skipped only if what is stored has its date. -/
theorem version_of_unchanged {c : Conn} {metaUpdatedAt : Option String}
    (h : (isUnchanged source info.id metaUpdatedAt c).1 = .ok true) :
    ∃ r, itemOf c.db source info.id = some r ∧ metaUpdatedAt = some (Text.cut r.updatedAt) := by
  have hread : getNoticeItemByExternalId source info.id c =
      (.ok (((itemOf c.db source info.id).map (schema.read .noticeItem)).map fun r =>
        (r.id, r.updatedAt)), c) := rfl
  rw [isUnchanged, bind_of_ok hread] at h
  cases hitem : itemOf c.db source info.id with
  | none =>
      rw [hitem] at h
      cases h
  | some r =>
      rw [hitem] at h
      cases metaUpdatedAt with
      | none => cases h
      | some t =>
          refine ⟨r, rfl, ?_⟩
          by_cases ht : Text.cut r.updatedAt = t
          · rw [ht]
          · have hno : (pure false : Prog Bool) c = (.ok false, c) := rfl
            have hne : ¬ NoticeItem.updatedAt (schema.read .noticeItem r) = t := ht
            rw [Option.map_some, Option.map_some] at h
            dsimp only at h
            rw [if_neg hne, hno] at h
            cases h

/-- An article that is skipped would have been fetched with what is there. -/
theorem Linked.skip (h : Linked env version s w) {detail : PlayncArticleDetail} {repo : Worker.Repo}
    {t : String} {r : NoticeItem} (hitem : itemOf s.conn.db source detail.id = some r)
    (ht : t = Text.cut r.updatedAt) (hcontent : contentOf env detail = version source detail.id t) :
    Linked env version s ⟨repo, w.stored ++ [(source, detail)]⟩ := by
  subst ht
  -- what the worker fetches again is what the app fetched last
  have hlast := h.version source detail.id r hitem
  rw [← hcontent] at hlast
  refine ⟨?_, ?_, ?_, h.version⟩
  · show _ ≤ (w.stored ++ [(source, detail)]).length
    rw [List.length_append]
    exact h.length.trans (Nat.le_succ _)
  · intro source' externalId
    show _ = Sightings.record ((contentsOf env (w.stored ++ [(source, detail)]) _ _).map _)
    rw [contentsOf_concat]
    by_cases hsame : (source', externalId) = (source, detail.id)
    · obtain ⟨rfl, rfl⟩ := Prod.mk.inj hsame
      rw [if_pos rfl, List.map_append, h.record]
      -- to see it again adds nothing to the record
      refine (record_again ?_).symm
      rw [List.getLast?_map, ← h.last, hlast]
      rfl
    · rw [if_neg hsame, List.append_nil]
      exact h.record source' externalId
  · intro source' externalId
    show _ = (contentsOf env (w.stored ++ [(source, detail)]) _ _).getLast?
    rw [contentsOf_concat]
    by_cases hsame : (source', externalId) = (source, detail.id)
    · obtain ⟨rfl, rfl⟩ := Prod.mk.inj hsame
      rw [if_pos rfl, List.getLast?_concat, hlast]
    · rw [if_neg hsame, List.append_nil]
      exact h.last source' externalId

/-- An article that both fetch is stored by both. -/
theorem Linked.fetch (h : Linked env version s w) {detail : PlayncArticleDetail} {repo : Worker.Repo}
    {c : Conn} {db' : Db Row} {draw : ArticleDraws} {t : String} (ht : Text.Plain t)
    (htables : ∀ t, IsNotice t → c.db t = s.conn.db t)
    (hstored : DetailStored env draw source (some t) detail c.db db')
    (hcontent : contentOf env detail = version source detail.id t) :
    Linked env version ⟨{ c with db := db' }, s.fetched ++ [(source, detail)]⟩
      ⟨repo, w.stored ++ [(source, detail)]⟩ := by
  refine ⟨?_, ?_, ?_, ?_⟩
  · show (s.fetched ++ [(source, detail)]).length ≤ (w.stored ++ [(source, detail)]).length
    rw [List.length_append, List.length_append]
    exact Nat.add_le_add_right h.length _
  · intro source' externalId
    show Sightings.record ((contentsOf env (s.fetched ++ _) _ _).map _) =
      Sightings.record ((contentsOf env (w.stored ++ _) _ _).map _)
    rw [contentsOf_concat, contentsOf_concat]
    by_cases hsame : (source', externalId) = (source, detail.id)
    · obtain ⟨rfl, rfl⟩ := Prod.mk.inj hsame
      rw [if_pos rfl, List.map_append, List.map_append, List.map_singleton, Sightings.record_concat,
        Sightings.record_concat, h.record]
    · rw [if_neg hsame, List.append_nil, List.append_nil]
      exact h.record source' externalId
  · intro source' externalId
    show (contentsOf env (s.fetched ++ _) _ _).getLast? = (contentsOf env (w.stored ++ _) _ _).getLast?
    rw [contentsOf_concat, contentsOf_concat]
    by_cases hsame : (source', externalId) = (source, detail.id)
    · obtain ⟨rfl, rfl⟩ := Prod.mk.inj hsame
      rw [if_pos rfl, List.getLast?_concat, List.getLast?_concat]
    · rw [if_neg hsame, List.append_nil, List.append_nil]
      exact h.last source' externalId
  · intro source' externalId r hr
    show (contentsOf env (s.fetched ++ _) _ _).getLast? = _
    change itemOf db' source' externalId = some r at hr
    rw [contentsOf_concat]
    by_cases hsame : (source', externalId) = (source, detail.id)
    · obtain ⟨rfl, rfl⟩ := Prod.mk.inj hsame
      -- the date of the fetched version is now the stored one
      have hstamp := hstored.stamp
      rw [hr] at hstamp
      have hupdated : r.updatedAt = t := Option.some.inj hstamp
      rw [if_pos rfl, List.getLast?_concat, hupdated, ht.cut, hcontent]
    · have hold : itemOf s.conn.db source' externalId = some r := by
        rw [← hr, (hstored.others source' externalId hsame).1, itemOf, itemOf,
          htables _ (.inl rfl)]
      rw [if_neg hsame, List.append_nil]
      exact h.version source' externalId r hold

theorem plain_effectiveUpdatedAt {t : String} (h : effectiveUpdatedAt env.host info = some t) :
    Text.Plain t := by
  have hiso : ∀ value, ∀ t ∈ parseIsoDate env.host value, Text.Plain t := by
    intro value t ht
    obtain ⟨time, -, rfl⟩ := Option.map_eq_some_iff.mp ht
    exact plain_stamp time
  rcases Option.or_eq_some_iff.mp h with h | ⟨-, h⟩
  · exact hiso _ t h
  · exact hiso _ t h

/-- **One article**: where the worker gets through, so does the app, and both
come to the same record. -/
theorem linked_syncArticle (hround : round.Quiet) (h : Together env draws draws' version s w)
    (htells : round.Tells env version source info)
    (hw : Worker.syncArticle env draws' false rejects round source info wt w = (.ok wt', w'))
    (hdraws : Drawn draws w'.stored.length) (hplain : PlainTexts env w'.stored)
    (husable : Worker.Usable env draws' w'.stored)
    (totals : SyncTotals) : ∃ totals' s',
      syncArticle env draws round source info totals s = (.ok totals', s') ∧
      Together env draws draws' version s' w' := by
  obtain ⟨detail, hanswer, rfl⟩ := Worker.syncArticle_ok hw
  obtain ⟨hid, t, ht, hcontent⟩ := htells detail hanswer
  rw [← hid] at hcontent
  have hworker := Worker.filed_store h.worker source detail
  rw [hid] at hworker
  have husable' : Worker.Usable env draws' w.stored := husable.before (List.prefix_append _ _)
  have hplain' : PlainTexts env w.stored := fun p hp => hplain p (List.mem_append_left _ hp)
  have hdraws' : Drawn draws (w.stored.length + 1) := by
    have hlength : (w.stored ++ [(source, detail)]).length = w.stored.length + 1 := List.length_append
    rw [← hlength]
    exact hdraws
  obtain ⟨unchanged, hread⟩ := isUnchanged_ok s.conn source info.id (effectiveUpdatedAt env.host info)
  have hreadDb : onDb (isUnchanged source info.id (effectiveUpdatedAt env.host info)) s =
      (.ok unchanged, s) := by rw [onDb, hread]
  cases unchanged with
  | true =>
      -- the app skips: the stored date is that of the list entry
      obtain ⟨r, hr, hdate⟩ := version_of_unchanged (congrArg Prod.fst hread)
      rw [← hid] at hr
      rw [ht] at hdate
      refine ⟨_, s, bind_of_ok hreadDb, h.app, hworker, ?_⟩
      exact h.linked.skip hr (Option.some.inj hdate) hcontent
  | false =>
      -- the app fetches as well; other handlers run while it waits
      let conn := round.meanwhile (sourceToAlias source) (some info.id) s.conn
      have htables : ∀ t, IsNotice t → conn.db t = s.conn.db t := hround _ _ _
      have hlength : (Exec.gets fun s : SyncState => s.fetched.length) s = (.ok s.fetched.length, s) :=
        rfl
      have hawait : awaitDetail round source info.id s =
          (.ok detail, ⟨conn, s.fetched ++ [(source, detail)]⟩) := by
        rw [awaitDetail, hanswer]
      have hfiled : Filed env draws ⟨conn, s.fetched⟩ := h.app.congr htables
      obtain ⟨hsound, harchived⟩ := hfiled (hdraws'.mono (h.linked.length.trans (Nat.le_succ _)))
        (h.linked.plainTexts hplain') fun source externalId => h.linked.hash (husable'.hash source externalId)
      have htext : Text.Plain (contentOf env detail).text :=
        hplain (source, detail) (List.mem_append_right _ List.mem_cons_self)
      have horder : ∀ r, itemOf conn.db source detail.id = some r → InOrder conn.db r.id := by
        intro r hr
        have hkept := (harchived source detail.id).kept
        dsimp only at hkept
        rw [articleOf, hr] at hkept
        exact inOrder_of_kept hkept
      obtain ⟨totals', db', hstore, hstored, -⟩ := storeDetail_ok (c := conn) env
        (hdraws'.mono (Nat.succ_le_succ h.linked.length)) hsound horder htext
        (effectiveUpdatedAt env.host info) { totals with detailsFetched := totals.detailsFetched + 1 }
      have hresult : onDb (storeDetail env (draws s.fetched.length) source
          (effectiveUpdatedAt env.host info) detail
          { totals with detailsFetched := totals.detailsFetched + 1 })
          ⟨conn, s.fetched ++ [(source, detail)]⟩ =
          (.ok totals', ⟨{ conn with db := db' }, s.fetched ++ [(source, detail)]⟩) := by
        rw [onDb, hstore]
      have hrecorded := hfiled.storeDetail source (effectiveUpdatedAt env.host info) detail
        { totals with detailsFetched := totals.detailsFetched + 1 }
      rw [hresult] at hrecorded
      refine ⟨totals', _, ?_, hrecorded, hworker, ?_⟩
      · refine (bind_of_ok hreadDb).trans ?_
        exact (bind_of_ok hlength).trans ((bind_of_ok hawait).trans hresult)
      · rw [ht] at hstored
        exact h.linked.fetch (plain_effectiveUpdatedAt ht) htables hstored hcontent

theorem linked_syncArticles (hround : round.Quiet) {metas : List PlayncArticleMeta}
    (h : Together env draws draws' version s w)
    (htells : ∀ info ∈ metas, round.Tells env version source info)
    (hw : Worker.syncArticles env draws' false rejects round source metas wt w = (.ok wt', w'))
    (hdraws : Drawn draws w'.stored.length) (hplain : PlainTexts env w'.stored)
    (husable : Worker.Usable env draws' w'.stored)
    (totals : SyncTotals) : ∃ totals' s',
      syncArticles env draws round source metas totals s = (.ok totals', s') ∧
      Together env draws draws' version s' w' := by
  induction metas generalizing s w wt totals with
  | nil =>
      cases hw
      exact ⟨totals, s, rfl, h⟩
  | cons info metas ih =>
      obtain ⟨wt₁, w₁, hfirst, hrest⟩ := bind_eq_ok hw
      have hgrown := Worker.stored_syncArticles hrest
      obtain ⟨totals₁, s₁, happ, h₁⟩ := linked_syncArticle hround h (htells info List.mem_cons_self) hfirst
        (hdraws.mono hgrown.length_le) (fun p hp => hplain p (hgrown.subset hp))
        (husable.before hgrown) totals
      obtain ⟨totals', s', happ', h'⟩ := ih h₁
        (fun info hinfo => htells info (List.mem_cons_of_mem _ hinfo)) hrest totals₁
      exact ⟨totals', s', (bind_of_ok happ).trans happ', h'⟩

/-- The dates of all articles that are listed tell what they say. -/
def Round.TellsAll (round : Round) (env : SyncEnv)
    (version : NoticeSource → String → String → Content) (options : PlayncLatestOptions)
    (sources : List NoticeSource) : Prop :=
  ∀ source ∈ sources, ∀ metas, (fetchLatestArticleMetas (round.server (sourceToAlias source))
    (sourceToAlias source) options []).1 = .ok metas →
      ∀ info ∈ metas, round.Tells env version source info

theorem linked_syncSources (hround : round.Quiet) {options : PlayncLatestOptions}
    {sources : List NoticeSource} (h : Together env draws draws' version s w)
    (htells : round.TellsAll env version options sources)
    (hw : Worker.syncSources env draws' false rejects round options sources wt w = (.ok wt', w'))
    (hdraws : Drawn draws w'.stored.length) (hplain : PlainTexts env w'.stored)
    (husable : Worker.Usable env draws' w'.stored)
    (totals : SyncTotals) : ∃ totals' s',
      syncSources env draws round options sources totals s = (.ok totals', s') ∧
      Together env draws draws' version s' w' := by
  induction sources generalizing s w wt totals with
  | nil =>
      cases hw
      exact ⟨totals, s, rfl, h⟩
  | cons source sources ih =>
      obtain ⟨metas, w₁, hlist, hw⟩ := bind_eq_ok hw
      obtain ⟨wt₂, w₂, harticles, hrest⟩ := bind_eq_ok hw
      obtain ⟨hmetas, rfl⟩ := Worker.awaitMetas_ok hlist
      have hgrown := Worker.stored_syncSources hrest
      let conn := round.meanwhile (sourceToAlias source) none s.conn
      have hlistApp : awaitMetas round options source s = (.ok metas, ⟨conn, s.fetched⟩) := by
        rw [awaitMetas, hmetas]
      have htables : ∀ t, IsNotice t → conn.db t = s.conn.db t := hround _ _ _
      -- while the lists are awaited the notice tables stay
      have h₁ : Together env draws draws' version ⟨conn, s.fetched⟩ w₁ := by
        refine ⟨h.app.congr htables, h.worker, h.linked.length, h.linked.record, h.linked.last, ?_⟩
        intro source externalId r hr
        change itemOf conn.db source externalId = some r at hr
        rw [itemOf, htables _ (.inl rfl)] at hr
        exact h.linked.version source externalId r hr
      obtain ⟨totals₂, s₂, happ, h₂⟩ := linked_syncArticles hround h₁
        (htells source List.mem_cons_self metas hmetas) harticles
        (hdraws.mono hgrown.length_le) (fun p hp => hplain p (hgrown.subset hp))
        (husable.before hgrown) { totals with metasFetched := totals.metasFetched + metas.length }
      obtain ⟨totals', s', happ', h'⟩ := ih h₂
        (fun source hsource => htells source (List.mem_cons_of_mem _ hsource)) hrest totals₂
      exact ⟨totals', s', (bind_of_ok hlistApp).trans ((bind_of_ok happ).trans happ'), h'⟩

/-- The app and the worker meet the same boards, and the worker gets through. -/
inductive Paired (env : SyncEnv) (draws draws' : ℕ → ArticleDraws)
    (version : NoticeSource → String → String → Content) : SyncState → Worker.SyncState → Prop
  | start {c : Conn} (hc : ∀ t, IsNotice t → c.db t = []) :
      Paired env draws draws' version ⟨c, []⟩ ⟨Worker.Repo.empty, []⟩
  | sync {s : SyncState} {w w' : Worker.SyncState} (h : Paired env draws draws' version s w)
      (options : SyncNoticesOptions) {round : Round} (hround : round.Quiet)
      (htells : round.TellsAll env version options.latest options.sources) {rejects : Worker.Rejects}
      {wt : Worker.SyncTotals}
      (hw : Worker.syncNotices env draws' options false rejects round w = (.ok wt, w')) :
      Paired env draws draws' version (syncNotices env draws options round s).2 w'

theorem together_of_paired (h : Paired env draws draws' version s w)
    (hdraws : Drawn draws w.stored.length) (hplain : PlainTexts env w.stored)
    (husable : Worker.Usable env draws' w.stored) : Together env draws draws' version s w := by
  induction h with
  | start hc =>
      refine ⟨filed_of_synced (.start hc), ?_, ?_⟩
      · intro _
        refine ⟨⟨⟨.nil, .nil, ?_⟩, ⟨.nil, ?_, ?_⟩, ⟨?_, ?_⟩⟩, fun _ _ => .unseen⟩
        all_goals exact fun _ h => absurd h List.not_mem_nil
      · refine ⟨Nat.le_refl 0, fun _ _ => rfl, fun _ _ => rfl, ?_⟩
        intro source externalId r hr
        have hmem := (itemOf_mem hr).1
        rw [hc _ (.inl rfl)] at hmem
        exact absurd hmem List.not_mem_nil
  | sync _ options hround htells hw ih =>
      have hgrown := Worker.stored_syncSources hw
      have hbefore := ih (hdraws.mono hgrown.length_le) (fun p hp => hplain p (hgrown.subset hp))
        (husable.before hgrown)
      obtain ⟨totals', s', happ, h'⟩ := linked_syncSources hround hbefore htells hw hdraws hplain husable
        ⟨options.sources.length, 0, 0, 0, 0, 0, 0⟩
      rw [syncNotices, happ]
      exact h'

/-- **Skipping loses nothing**: the app and the worker show the same articles. -/
theorem agree_of_paired (h : Paired env draws draws' version s w)
    (hdraws : Drawn draws w.stored.length) (hdraws' : Worker.Drawn draws' w.stored.length)
    (hplain : PlainTexts env w.stored) (hhash : ∀ source externalId,
      HashTells env.sha256Hex ((contentsOf env w.stored source externalId).map (·.text)))
    (source : NoticeSource) (externalId : String) :
    Option.Rel (ArticleView.Agrees (storedJson env)) (articleOf s.conn.db source externalId)
      (Worker.articleOf w.repo source externalId) := by
  obtain ⟨happ, hworker, hlinked⟩ := together_of_paired h hdraws hplain ⟨hdraws', hhash⟩
  have hfiled := happ (hdraws.mono hlinked.length) (hlinked.plainTexts hplain)
    fun source externalId => hlinked.hash (hhash source externalId)
  apply (hfiled.2 source externalId).agrees ((hworker ⟨hdraws', hhash⟩).2 source externalId)
  · exact hlinked.last source externalId
  · exact hlinked.record source externalId

end

/-! ### A notice that is edited once -/

/-- The entry of an article, with its date. -/
def dated (id date : String) : Js :=
  .obj [("id", .str id), ("title", .str ("Patch " ++ id)),
    ("timestamps", .obj [("updatedAt", .str date)])]

def datedArticle (date html : String) : Round where
  server _ _ request :=
    match request with
    | .noticeArticle _ => .ok (.obj [("noticesList", .arr [])])
    | .moreArticle _ _ _ =>
        .ok (.obj [("contentList", .arr [dated "1" date]), ("hasMore", .bool false)])
  article _ id := .ok (.obj [("article",
    .obj [("contentMeta", dated id date), ("content", .obj [("content", .str html)])])])
  meanwhile _ _ c := c

def datedMeta (date : String) : PlayncArticleMeta :=
  ⟨"1", "Patch 1", buildFallbackUrl .noticeKo "1", none, some date, none⟩

def firstRound : Round := datedArticle "2024-01-01T00:00:00.000Z" "old"

def editedRound : Round := datedArticle "2024-01-02T00:00:00.000Z" "new"

def noticeOptions : SyncNoticesOptions := ⟨[.notice], ⟨1, 18, true⟩⟩

def versions (source : NoticeSource) (id date : String) : Content :=
  ⟨buildFallbackUrl (sourceToAlias source) id, "Patch " ++ id, none,
    if date = "2024-01-01T00:00:00.000Z" then "old" else "new"⟩

theorem tellsAll_firstRound :
    firstRound.TellsAll plainEnv versions noticeOptions.latest noticeOptions.sources := by
  intro source hsource metas hmetas info hinfo detail hdetail
  obtain rfl := List.mem_singleton.mp hsource
  obtain rfl : [datedMeta "2024-01-01T00:00:00.000Z"] = metas := Except.ok.inj hmetas
  obtain rfl := List.mem_singleton.mp hinfo
  obtain rfl : { datedMeta "2024-01-01T00:00:00.000Z" with contentHtml := "old" } = detail :=
    Except.ok.inj hdetail
  refine ⟨rfl, "2024-01-01T00:00:00.000Z", by decide +kernel, ?_⟩
  have htext : normalizeNoticeHtmlToText plainEnv "old" = "old" := by decide +kernel
  rw [contentOf, htext]
  rfl

theorem tellsAll_editedRound :
    editedRound.TellsAll plainEnv versions noticeOptions.latest noticeOptions.sources := by
  intro source hsource metas hmetas info hinfo detail hdetail
  obtain rfl := List.mem_singleton.mp hsource
  obtain rfl : [datedMeta "2024-01-02T00:00:00.000Z"] = metas := Except.ok.inj hmetas
  obtain rfl := List.mem_singleton.mp hinfo
  obtain rfl : { datedMeta "2024-01-02T00:00:00.000Z" with contentHtml := "new" } = detail :=
    Except.ok.inj hdetail
  refine ⟨rfl, "2024-01-02T00:00:00.000Z", by decide +kernel, ?_⟩
  have htext : normalizeNoticeHtmlToText plainEnv "new" = "new" := by decide +kernel
  rw [contentOf, htext]
  rfl

def appSynced (rounds : List Round) : SyncState :=
  rounds.foldl (fun s round => (syncNotices plainEnv countedDraws noticeOptions round s).2)
    ⟨⟨fun _ => [], true, none⟩, []⟩

def workerSynced (rounds : List Round) : Worker.SyncState :=
  rounds.foldl (fun w round =>
    (Worker.syncNotices plainEnv countedDraws noticeOptions false (fun _ _ => none) round w).2)
    ⟨Worker.Repo.empty, []⟩

theorem workerSynced_ok (rounds : List Round) (round : Round)
    (h : (Worker.syncNotices plainEnv countedDraws noticeOptions false (fun _ _ => none) round
      (workerSynced rounds)).1.isOk = true) : ∃ wt,
    Worker.syncNotices plainEnv countedDraws noticeOptions false (fun _ _ => none) round
      (workerSynced rounds) = (.ok wt, workerSynced (rounds ++ [round])) := by
  have hnext : workerSynced (rounds ++ [round]) = (Worker.syncNotices plainEnv countedDraws
      noticeOptions false (fun _ _ => none) round (workerSynced rounds)).2 := by
    rw [workerSynced, List.foldl_append]
    rfl
  rw [hnext]
  rcases hrun : Worker.syncNotices plainEnv countedDraws noticeOptions false (fun _ _ => none) round
    (workerSynced rounds) with ⟨e | wt, w'⟩
  · rw [hrun] at h
    cases h
  · exact ⟨wt, rfl⟩

/-- The app skips the second sync. -/
theorem paired_edited : Paired plainEnv countedDraws countedDraws versions
    (appSynced [firstRound, firstRound, editedRound])
    (workerSynced [firstRound, firstRound, editedRound]) := by
  obtain ⟨wt₁, h₁⟩ := workerSynced_ok [] firstRound (by decide +kernel)
  obtain ⟨wt₂, h₂⟩ := workerSynced_ok [firstRound] firstRound (by decide +kernel)
  obtain ⟨wt₃, h₃⟩ := workerSynced_ok [firstRound, firstRound] editedRound (by decide +kernel)
  have hstart : Paired plainEnv countedDraws countedDraws versions (appSynced []) (workerSynced []) :=
    .start fun _ _ => rfl
  exact ((hstart.sync _ (fun _ _ _ _ _ => rfl) tellsAll_firstRound h₁).sync _
    (fun _ _ _ _ _ => rfl) tellsAll_firstRound h₂).sync _ (fun _ _ _ _ _ => rfl) tellsAll_editedRound h₃

theorem plainTexts_workerSynced :
    PlainTexts plainEnv (workerSynced [firstRound, firstRound, editedRound]).stored :=
  plainTexts_of_oldNew (by decide +kernel)

theorem agree_edited : (appSynced [firstRound, firstRound, editedRound]).fetched.length = 2 ∧
    (workerSynced [firstRound, firstRound, editedRound]).stored.length = 3 ∧
    Option.Rel (ArticleView.Agrees (storedJson plainEnv))
      (articleOf (appSynced [firstRound, firstRound, editedRound]).conn.db .notice "1")
      (Worker.articleOf (workerSynced [firstRound, firstRound, editedRound]).repo .notice "1") := by
  have hlength : (workerSynced [firstRound, firstRound, editedRound]).stored.length = 3 := by
    decide +kernel
  refine ⟨by decide +kernel, hlength, agree_of_paired paired_edited ?_ ?_ plainTexts_workerSynced
    (hashTells_of_plainTexts plainTexts_workerSynced) _ _⟩
  · rw [hlength]
    refine ⟨?_, ?_, ?_⟩ <;> decide +kernel
  · rw [hlength]
    refine ⟨?_, ?_, ?_⟩ <;> decide +kernel

end Hub
