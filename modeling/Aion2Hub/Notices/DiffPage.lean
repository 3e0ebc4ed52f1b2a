/-
Aion2Hub/Notices/DiffPage.lean

The page that shows the latest diff of a notice.

The link of the feed carries the id, the page asks for the notice and then for
its latest diff, and takes the stored JSON apart again.  What comes out at the
end of that way is what the syncs have fetched: the latest data of the article,
and the blocks of the last change in the record of its texts
(`diffPage_of_synced`).
-/
import Aion2Hub.Notices.Feed
import Aion2Hub.Notices.History

namespace Hub

open Sql Exec

/-! ### The calls -/

def getNotice (noticeItemId : String) : Prog (Option NoticeListItem) := do
  let row ← schema.selectOne .noticeItem fun r => r.id == noticeItemId
  pure (row.map asNoticeListItem)

/-- `typeof noticeId !== "string" || !noticeId` is a bad request. -/
def requireNoticeId (noticeId : Option Js) : Prog String :=
  Exec.ofOption "bad_request" (nonEmpty (Js.asString noticeId))

/-- `notices:get`. -/
def noticesGet (noticeId : Option Js) : Prog (Option NoticeListItem) := do
  let id ← requireNoticeId noticeId
  getNotice id

/-- `notices:getLatestDiff`. -/
def noticesGetLatestDiff (noticeId : Option Js) : Prog (Option NoticeDiff) := do
  let id ← requireNoticeId noticeId
  getLatestDiff id

def NoticeDiff.toJs (d : NoticeDiff) : Js :=
  .obj [("id", .str d.id), ("createdAt", .str d.createdAt), ("diffJson", d.diffJson),
    ("fromSnapshotId", .str d.fromSnapshotId), ("toSnapshotId", .str d.toSnapshotId)]

/-- An answer that may be `null`. -/
def orNull (o : Option Js) : Js := o.getD .null

namespace Renderer

/-! ### The page -/

structure LatestDiff where
  id : String
  createdAt : String
  diffJson : Option Js
  fromSnapshotId : String
  toSnapshotId : String

def asLatestDiff (value : Js) : Option LatestDiff := do
  guard value.isObject
  let id ← Js.asString (value.get "id")
  let createdAt ← Js.asString (value.get "createdAt")
  let fromSnapshotId ← Js.asString (value.get "fromSnapshotId")
  let toSnapshotId ← Js.asString (value.get "toSnapshotId")
  pure ⟨id, createdAt, value.get "diffJson", fromSnapshotId, toSnapshotId⟩

def asDiffType : Option Js → Option DiffType
  | some (.str "same") => some .same
  | some (.str "added") => some .added
  | some (.str "removed") => some .removed
  | _ => none

def asBlock (b : Js) : Option NoticeLineDiffBlock := do
  guard b.isObject
  let type ← asDiffType (b.get "type")
  match b.get "lines" with
  | some (.arr lines) => do
      let lines ← lines.mapM fun l => Js.asString (some l)
      pure ⟨type, lines⟩
  | _ => none

def asBlocks : Option Js → Option (List NoticeLineDiffBlock)
  | some (.arr blocks) => blocks.mapM asBlock
  | _ => none

structure DiffPage where
  item : Option NoticeListItem
  diff : Option LatestDiff
  error : Option String

/-- `load`, with the answers of both calls. -/
def DiffPage.load (rawItem rawDiff : Except String Js) : DiffPage :=
  match rawItem with
  | .error e => ⟨none, none, some (remoteError "notices:get" e)⟩
  | .ok rawItem =>
      match asNotice rawItem with
      | none => ⟨none, none, some "not_found"⟩
      | some item =>
          match rawDiff with
          | .error e => ⟨none, none, some (remoteError "notices:getLatestDiff" e)⟩
          | .ok rawDiff =>
              ⟨some item, if Js.truthy (some rawDiff) then asLatestDiff rawDiff else none, none⟩

/-- What stands below the head of the page. -/
inductive DiffShown where
  | noDiff
  | unexpectedShape
  | blocks (blocks : List NoticeLineDiffBlock)

def DiffPage.shown (p : DiffPage) : DiffShown :=
  match p.diff with
  | none => .noDiff
  | some diff =>
      match asBlocks diff.diffJson with
      | none => .unexpectedShape
      | some blocks => .blocks blocks

/-- The page of a notice. -/
def diffPage (conn : Conn) (id : String) : DiffPage :=
  let noticeId := some (Js.str id)
  DiffPage.load ((noticesGet noticeId conn).1.map fun i => orNull (i.map NoticeListItem.toJs))
    ((noticesGetLatestDiff noticeId conn).1.map fun d => orNull (d.map NoticeDiff.toJs))

/-- What a route shows of a notice. -/
def Route.diffPage (conn : Conn) : Route → Option DiffPage
  | .noticesDiff id => some (Renderer.diffPage conn id)
  | _ => none

/-! ### Reading the answers -/

theorem asBlock_toJs (b : NoticeLineDiffBlock) : asBlock b.toJs = some b := by
  obtain ⟨type, lines⟩ := b
  have hlines : (lines.map Js.str).mapM (fun l => Js.asString (some l)) = some lines :=
    mapM_map_self (f := fun l => Js.asString (some l)) (g := Js.str) (fun _ => rfl) lines
  cases type
  all_goals
    show (do
      let lines ← (lines.map Js.str).mapM fun l => Js.asString (some l)
      pure (⟨_, lines⟩ : NoticeLineDiffBlock)) = _
    rw [hlines]
    rfl

theorem serialise_block (b : NoticeLineDiffBlock) : Js.serialise b.toJs = b.toJs := by
  obtain ⟨type, lines⟩ := b
  have hlines : Js.serialiseList (lines.map Js.str) = lines.map Js.str :=
    Js.serialiseList_map fun l _ => Js.serialise_str l
  simp [NoticeLineDiffBlock.toJs, hlines]

/-- The page gets the blocks that the sync has computed. -/
theorem asBlocks_storedJson (env : SyncEnv) (fromText toText : String) :
    asBlocks (some (storedJson env fromText toText)) =
      some (buildLineDiffJson env.diffLines fromText toText) := by
  rw [storedJson, diffJson, Js.serialise_arr, Js.serialiseList_map fun b _ => serialise_block b]
  show ((buildLineDiffJson env.diffLines fromText toText).map NoticeLineDiffBlock.toJs).mapM
    asBlock = _
  exact mapM_map_self asBlock_toJs _

section

variable {env : SyncEnv} {draws : ℕ → ArticleDraws} {s : SyncState} {c : Conn}
variable {item : NoticeItem} {source : NoticeSource} {externalId : String}

theorem noticesGet_apply (hdistinct : schema.DistinctRows .noticeItem (c.db .noticeItem))
    (hitem : item ∈ c.db .noticeItem) (hid : item.id ≠ "") :
    (noticesGet (some (.str item.id)) c).1 = .ok (some (readNotice item)) := by
  have hfind : (c.db .noticeItem).find? (fun r => r.id == item.id) = some item := by
    cases hfound : (c.db .noticeItem).find? fun r => r.id == item.id with
    | none => exact absurd (List.find?_eq_none.mp hfound item hitem) (by simp)
    | some r =>
        have hkey : r.id = item.id := by simpa using List.find?_some hfound
        exact congrArg some
          (hdistinct.eq_of_key (List.mem_of_find?_eq_some hfound) hitem hkey)
  have hrequire : requireNoticeId (some (.str item.id)) c = (.ok item.id, c) := by
    show Exec.ofOption "bad_request" (nonEmpty (some item.id)) c = _
    rw [nonEmpty_some hid]
    rfl
  rw [noticesGet, bind_of_ok hrequire]
  show Except.ok ((((c.db .noticeItem).find? fun r => r.id == item.id).map
    (schema.read .noticeItem)).map asNoticeListItem) = _
  rw [hfind]
  rfl

theorem noticesGetLatestDiff_apply (hid : item.id ≠ "")
    (horder : (diffsOf c.db item.id).Pairwise fun d d' => d.createdAt < d'.createdAt)
    (hwhole : ∀ d ∈ diffsOf c.db item.id, schema.Whole .noticeDiff d) :
    (noticesGetLatestDiff (some (.str item.id)) c).1 = .ok (diffsOf c.db item.id).getLast? := by
  have hrequire : requireNoticeId (some (.str item.id)) c = (.ok item.id, c) := by
    show Exec.ofOption "bad_request" (nonEmpty (some item.id)) c = _
    rw [nonEmpty_some hid]
    rfl
  rw [noticesGetLatestDiff, bind_of_ok hrequire, getLatestDiff_apply horder hwhole]

/-- The last diff is that of the last change. -/
theorem getLast?_diffs {texts : List String}
    (h : Kept env.sha256Hex (storedJson env) (archiveOf c.db item.id) texts) :
    (diffsOf c.db item.id).getLast?.map (·.diffJson) =
      (Sightings.record texts).changes.getLast?.map fun p => storedJson env p.1 p.2 := by
  have hlast := h.latestDiff
  have hview : (archiveOf c.db item.id).latestDiff = (diffsOf c.db item.id).getLast?.map viewDiff :=
    List.getLast?_map
  rw [hview] at hlast
  cases hd : (diffsOf c.db item.id).getLast? with
  | none =>
      rw [hd] at hlast
      generalize (Sightings.record texts).changes.getLast? = change at hlast
      cases hlast
      rfl
  | some d =>
      rw [hd] at hlast
      generalize (Sightings.record texts).changes.getLast? = change at hlast
      cases hlast with
      | some hdiff => exact congrArg some hdiff.2.2

/-- The blocks of the last change in the record of the texts, if there is one. -/
def lastChange (env : SyncEnv) (texts : List String) : DiffShown :=
  match (Sightings.record texts).changes.getLast? with
  | none => .noDiff
  | some p => .blocks (buildLineDiffJson env.diffLines p.1 p.2)

theorem shown_diffPage {texts : List String}
    (hdistinct : schema.DistinctRows .noticeItem (c.db .noticeItem))
    (hitem : item ∈ c.db .noticeItem) (hid : item.id ≠ "")
    (hwhole : ∀ d ∈ diffsOf c.db item.id, schema.Whole .noticeDiff d)
    (h : Kept env.sha256Hex (storedJson env) (archiveOf c.db item.id) texts) :
    (diffPage c item.id).item = some (readNotice item) ∧
      (diffPage c item.id).error = none ∧ (diffPage c item.id).shown = lastChange env texts := by
  have hjson := getLast?_diffs h
  rw [diffPage, noticesGet_apply hdistinct hitem hid,
    noticesGetLatestDiff_apply hid (diffs_inOrder_of_kept h) hwhole, lastChange]
  show (DiffPage.load (.ok (readNotice item).toJs) _).item = _ ∧
    (DiffPage.load (.ok (readNotice item).toJs) _).error = _ ∧
    (DiffPage.load (.ok (readNotice item).toJs) _).shown = _
  -- the notice passes the check of the page; what remains is the diff
  rw [DiffPage.load, asNotice_toJs]
  cases hlast : (diffsOf c.db item.id).getLast? with
  | none =>
      rw [hlast] at hjson
      rw [Option.map_eq_none_iff.mp hjson.symm]
      exact ⟨rfl, rfl, rfl⟩
  | some d =>
      rw [hlast] at hjson
      obtain ⟨p, hp, hd⟩ := Option.map_eq_some_iff.mp hjson.symm
      rw [hp]
      refine ⟨rfl, rfl, ?_⟩
      show (match asBlocks (some d.diffJson) with
        | none => DiffShown.unexpectedShape
        | some blocks => .blocks blocks) = _
      have hstored : d.diffJson = storedJson env p.1 p.2 := hd.symm
      rw [hstored, asBlocks_storedJson]

/-- The titles and urls that have been fetched hold no U+0000. -/
def PlainHeads (fetched : List (NoticeSource × PlayncArticleDetail)) : Prop :=
  ∀ p ∈ fetched, Text.Plain p.2.url ∧ Text.Plain p.2.title

/-- A date that is stored is read as it is. -/
theorem nonEmpty_cut_parseIsoDate (host : Host) (value : Option String) :
    nonEmpty ((parseIsoDate host value).map Text.cut) = parseIsoDate host value := by
  rw [parseIsoDate]
  cases (nonEmpty value).bind host.parseDate with
  | none => rfl
  | some t =>
      show nonEmpty (some (Text.cut (stamp t))) = _
      rw [cut_stamp, nonEmpty_some (stamp_ne_empty t)]
      rfl

/-- The data of a content that is stored is read as it was fetched. -/
theorem readNotice_of_content {content : Content} (hheads : PlainHeads s.fetched)
    (hcontent : content ∈ contentsOf env s.fetched source externalId)
    (hshows : item.url = content.url ∧ item.title = content.title ∧
      item.publishedAt = content.publishedAt) :
    (readNotice item).url = content.url ∧ (readNotice item).title = content.title ∧
      (readNotice item).publishedAt = content.publishedAt := by
  obtain ⟨p, hp, rfl⟩ := List.mem_map.mp hcontent
  obtain ⟨hurl, htitle⟩ := hheads p (List.mem_filter.mp hp).1
  obtain ⟨hitemUrl, hitemTitle, hitemPublished⟩ := hshows
  refine ⟨?_, ?_, ?_⟩
  · show Text.cut item.url = _
    rw [hitemUrl]
    exact hurl.cut
  · show Text.cut item.title = _
    rw [hitemTitle]
    exact htitle.cut
  · show nonEmpty (item.publishedAt.map Text.cut) = _
    rw [hitemPublished]
    exact nonEmpty_cut_parseIsoDate _ _

/-- **The diff page shows what was fetched**: in every state that syncs and other
handlers lead to, the link of a notice opens a page with the data of the last
detail that was fetched of the article, and below it the blocks of the last
change in the record of its texts, or no diff if there has been no change. -/
theorem diffPage_of_synced (h : Synced env draws s) (hdraws : Drawn draws s.fetched.length)
    (hplain : PlainTexts env s.fetched) (hheads : PlainHeads s.fetched)
    (hhash : ∀ source externalId,
      HashTells env.sha256Hex ((contentsOf env s.fetched source externalId).map (·.text)))
    (hitem : itemOf s.conn.db source externalId = some item) :
    ∃ page shown, (parseRoute (locationHash (diffHref item.id))).diffPage s.conn = some page ∧
      page.item = some shown ∧ page.error = none ∧
      (∃ content, (contentsOf env s.fetched source externalId).getLast? = some content ∧
        shown.url = content.url ∧ shown.title = content.title ∧
        shown.publishedAt = content.publishedAt) ∧
      page.shown = lastChange env ((contentsOf env s.fetched source externalId).map (·.text)) := by
  obtain ⟨hsound, harchived⟩ := filed_of_synced h hdraws hplain hhash
  obtain ⟨hmem, -, -⟩ := itemOf_mem hitem
  -- the id was drawn, so the route does not drop it
  have hid : item.id ≠ "" := by
    obtain ⟨k, -, heq⟩ := hsound.items.drawn item hmem
    rw [heq]
    exact (draws k).item.ne
  have harticle := harchived source externalId
  rw [articleOf, hitem] at harticle
  refine ⟨diffPage s.conn item.id, readNotice item, ?_, ?_⟩
  · rw [parseRoute_diffHref hid]
    rfl
  · obtain ⟨hshown, herror, hdiff⟩ :=
      shown_diffPage hsound.items.distinct hmem hid hsound.whole.2 harticle.kept
    refine ⟨hshown, herror, ?_, hdiff⟩
    have hread : ∀ content ∈ contentsOf env s.fetched source externalId, item.url = content.url ∧
        item.title = content.title ∧ item.publishedAt = content.publishedAt →
        (readNotice item).url = content.url ∧ (readNotice item).title = content.title ∧
          (readNotice item).publishedAt = content.publishedAt :=
      fun _ hcontent => readNotice_of_content hheads hcontent
    generalize contentsOf env s.fetched source externalId = contents at harticle hread
    cases harticle with
    | seen shows _ =>
        exact ⟨_, List.getLast?_concat, hread _ (List.mem_append_right _ List.mem_cons_self) shows⟩

end

/-! ### The page of an edited notice -/

theorem diffPage_of_synced_edited : ∃ item page,
    itemOf edited.conn.db .notice "1" = some item ∧
      (parseRoute (locationHash (diffHref item.id))).diffPage edited.conn = some page ∧
      page.shown = lastChange plainEnv ["old", "new"] := by
  have hstored : (itemOf edited.conn.db .notice "1").isSome = true := by decide +kernel
  obtain ⟨item, hitem⟩ := Option.isSome_iff_exists.mp hstored
  have htexts : (contentsOf plainEnv edited.fetched .notice "1").map (·.text) = ["old", "new"] := by
    decide +kernel
  have hheads : PlainHeads edited.fetched := by
    have hfetched : edited.fetched.all fun p => decide (Text.Plain p.2.url ∧ Text.Plain p.2.title) := by
      decide +kernel
    intro p hp
    exact of_decide_eq_true (List.all_eq_true.mp hfetched p hp)
  obtain ⟨page, -, hpage, -, -, -, hshown⟩ := diffPage_of_synced synced_edited drawn_edited
    plainTexts_edited hheads hashTells_edited hitem
  rw [htexts] at hshown
  exact ⟨item, page, hitem, hpage, hshown⟩

end Renderer

end Hub
