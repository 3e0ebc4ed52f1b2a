/-
Aion2Hub/Notices/Sync.lean

`syncNotices` of the desktop app (apps/desktop/src/main/notices/sync.ts) and
`fetchArticleDetail` of `notices-client/plaync.ts`.

A sync asks the boards for their articles, and for the details of those that
have changed.  Its state is the database with the details that have been
fetched so far.  While an answer is awaited, other handlers may run and change
the database (`Round.meanwhile`); a failure ends the sync, but what it has
stored by then stays.
-/
import Aion2Hub.Lib.Host
import Aion2Hub.Notices.Client
import Aion2Hub.Notices.Diff
import Aion2Hub.Notices.Normalize
import Aion2Hub.Storage.Notices

namespace Hub

open Sql Text

/-! ### Details -/

structure PlayncArticleDetail extends PlayncArticleMeta where
  contentHtml : String

/-- The detail in the data that are answered, or the failure. -/
def fetchArticleDetail (answer : Except String Js) (board : PlayncBoardAlias) (articleId : String) :
    Except String PlayncArticleDetail := do
  let data ← answer
  if data matches .null then
    throw "Cannot read properties of null (reading 'article')"
  else
    let article := data.get "article"
    match toMeta board (article.bind (·.get "contentMeta")) with
    | none => throw ("unexpected PlayNC detail shape (missing meta) articleId=" ++ articleId)
    | some info =>
        match (article.bind (·.get "content")).bind (·.get "content") with
        | some (.str contentHtml) => pure { info with contentHtml := contentHtml }
        | _ => throw ("unexpected PlayNC detail shape (missing HTML) articleId=" ++ articleId)

/-! ### Texts -/

/-- What follows `<br\s*\/?>` without its first character. -/
def afterBreak : List Char → Option (List Char)
  | b :: r :: l =>
      if b.toLower = 'b' ∧ r.toLower = 'r' then
        match l.dropWhile isSpace with
        | '>' :: l => some l
        | '/' :: '>' :: l => some l
        | _ => none
      else none
  | _ => none

/-- `replaceAll(/<br\s*\/?>/gi, "\n")`, with enough fuel for the text. -/
def replaceBreaks : ℕ → List Char → List Char
  | _, [] => []
  | 0, l => l
  | n + 1, c :: l =>
      match (if c = '<' then afterBreak l else none) with
      | some l => '\n' :: replaceBreaks n l
      | none => c :: replaceBreaks n l

/-- What a sync relies on: the runtime, the text of an HTML page, SHA-256 in
hexadecimal digits and the diff package. -/
structure SyncEnv where
  host : Host
  rootText : String → String
  sha256Hex : String → String
  diffLines : String → String → List Change
  plain_sha256Hex : ∀ text, Plain (sha256Hex text)

def normalizeNoticeHtmlToText (env : SyncEnv) (contentHtml : String) : String :=
  let htmlWithBreaks := String.ofList (replaceBreaks contentHtml.length contentHtml.toList)
  noticeText (env.rootText htmlWithBreaks)

def DiffType.text : DiffType → String
  | .same => "same"
  | .added => "added"
  | .removed => "removed"

def NoticeLineDiffBlock.toJs (b : NoticeLineDiffBlock) : Js :=
  .obj [("type", .str b.type.text), ("lines", .arr (b.lines.map Js.str))]

/-- `buildLineDiffJson` as data. -/
def diffJson (env : SyncEnv) (fromText toText : String) : Js :=
  .arr ((buildLineDiffJson env.diffLines fromText toText).map NoticeLineDiffBlock.toJs)

def parseIsoDate (host : Host) (value : Option String) : Option String :=
  ((nonEmpty value).bind host.parseDate).map Date.isoString

def effectiveUpdatedAt (host : Host) (info : PlayncArticleMeta) : Option String :=
  (parseIsoDate host info.updatedAt).or (parseIsoDate host info.publishedAt)

/-- `SOURCE_TO_ALIAS`. -/
def sourceToAlias : NoticeSource → PlayncBoardAlias
  | .notice => .noticeKo
  | .update => .updateKo

/-! ### The loop -/

structure SyncNoticesOptions where
  sources : List NoticeSource
  latest : PlayncLatestOptions

structure SyncTotals where
  sources : ℕ
  metasFetched : ℕ
  detailsFetched : ℕ
  itemsUpserted : ℕ
  snapshotsInserted : ℕ
  diffsInserted : ℕ
  skipped : ℕ
  deriving DecidableEq

/-- What is drawn to store a detail. -/
structure ArticleDraws where
  item : Draw
  snapshot : Draw
  diff : Draw

/-- What a sync meets: the answers of the boards, and what other handlers do to
the database while it waits for a list of articles or for an article. -/
structure Round where
  server : PlayncBoardAlias → Server
  article : PlayncBoardAlias → String → Except String Js
  meanwhile : PlayncBoardAlias → Option String → Conn → Conn

/-- The database, and the details that have been fetched. -/
structure SyncState where
  conn : Conn
  fetched : List (NoticeSource × PlayncArticleDetail)

abbrev Sync (α : Type) : Type := Exec SyncState α

def onDb {α : Type} (m : Prog α) : Sync α := fun s =>
  ((m s.conn).1, { s with conn := (m s.conn).2 })

def awaitMetas (round : Round) (options : PlayncLatestOptions) (source : NoticeSource) :
    Sync (List PlayncArticleMeta) := fun s =>
  let board := sourceToAlias source
  ((fetchLatestArticleMetas (round.server board) board options []).1,
    { s with conn := round.meanwhile board none s.conn })

def awaitDetail (round : Round) (source : NoticeSource) (articleId : String) :
    Sync PlayncArticleDetail := fun s =>
  let board := sourceToAlias source
  let conn := round.meanwhile board (some articleId) s.conn
  match fetchArticleDetail (round.article board articleId) board articleId with
  | .ok detail => (.ok detail, ⟨conn, s.fetched ++ [(source, detail)]⟩)
  | .error e => (.error e, ⟨conn, s.fetched⟩)

/-- The article is stored as it was when it was last changed. -/
def isUnchanged (source : NoticeSource) (articleId : String) (metaUpdatedAt : Option String) :
    Prog Bool := do
  let existing ← getNoticeItemByExternalId source articleId
  match existing, metaUpdatedAt with
  | some (id, updatedAt), some metaUpdatedAt =>
      if updatedAt = metaUpdatedAt then do
        let latestSnapshot ← getLatestSnapshot id
        pure latestSnapshot.isSome
      else pure false
  | _, _ => pure false

/-- The diff from the latest snapshot, which may be the stored one. -/
def storeChange (env : SyncEnv) (draw : Draw) (itemId normalizedText contentHash : String)
    (before : Option NoticeSnapshot) (snapshotId : String) (totals : SyncTotals) :
    Prog SyncTotals :=
  match before with
  | none => pure totals
  | some before =>
      if before.contentHash = contentHash then pure totals
      else if before.id = snapshotId then pure totals
      else do
        let diff ← upsertDiff
          ⟨itemId, before.id, snapshotId, diffJson env before.normalizedText normalizedText⟩ draw
        pure { totals with diffsInserted := totals.diffsInserted + if diff.2 then 1 else 0 }

/-- The text of an article is stored. -/
def storeText (env : SyncEnv) (draws : ArticleDraws) (itemId contentHtml : String)
    (totals : SyncTotals) : Prog SyncTotals := do
  let before ← getLatestSnapshot itemId
  let normalizedText := normalizeNoticeHtmlToText env contentHtml
  let contentHash := env.sha256Hex normalizedText
  let snapshot ← upsertSnapshot ⟨itemId, contentHash, normalizedText⟩ draws.snapshot
  let totals := { totals with
    snapshotsInserted := totals.snapshotsInserted + if snapshot.inserted then 1 else 0 }
  storeChange env draws.diff itemId normalizedText contentHash before snapshot.id totals

/-- What is done with a detail. -/
def storeDetail (env : SyncEnv) (draws : ArticleDraws) (source : NoticeSource)
    (metaUpdatedAt : Option String) (detail : PlayncArticleDetail) (totals : SyncTotals) :
    Prog SyncTotals := do
  let publishedAt := parseIsoDate env.host (detail.publishedAt.or detail.postedAt)
  let updatedAt := metaUpdatedAt.or (parseIsoDate env.host detail.updatedAt)
  let itemId ← upsertNoticeItem
    ⟨source, detail.id, detail.url, detail.title, publishedAt, updatedAt⟩ draws.item
  storeText env draws itemId detail.contentHtml
    { totals with itemsUpserted := totals.itemsUpserted + 1 }

/-- One round of the inner loop. -/
def syncArticle (env : SyncEnv) (draws : ℕ → ArticleDraws) (round : Round) (source : NoticeSource)
    (info : PlayncArticleMeta) (totals : SyncTotals) : Sync SyncTotals := do
  let metaUpdatedAt := effectiveUpdatedAt env.host info
  let unchanged ← onDb (isUnchanged source info.id metaUpdatedAt)
  if unchanged then pure { totals with skipped := totals.skipped + 1 }
  else do
    let n ← Exec.gets fun s => s.fetched.length
    let detail ← awaitDetail round source info.id
    let totals := { totals with detailsFetched := totals.detailsFetched + 1 }
    onDb (storeDetail env (draws n) source metaUpdatedAt detail totals)

def syncArticles (env : SyncEnv) (draws : ℕ → ArticleDraws) (round : Round) (source : NoticeSource) :
    List PlayncArticleMeta → SyncTotals → Sync SyncTotals
  | [], totals => pure totals
  | info :: metas, totals => do
      let totals ← syncArticle env draws round source info totals
      syncArticles env draws round source metas totals

def syncSources (env : SyncEnv) (draws : ℕ → ArticleDraws) (round : Round)
    (options : PlayncLatestOptions) : List NoticeSource → SyncTotals → Sync SyncTotals
  | [], totals => pure totals
  | source :: sources, totals => do
      let metas ← awaitMetas round options source
      let totals := { totals with metasFetched := totals.metasFetched + metas.length }
      let totals ← syncArticles env draws round source metas totals
      syncSources env draws round options sources totals

/-- A detail that is the n-th to be fetched is stored with the n-th draws. -/
def syncNotices (env : SyncEnv) (draws : ℕ → ArticleDraws) (options : SyncNoticesOptions)
    (round : Round) : Sync SyncTotals :=
  syncSources env draws round options.latest options.sources
    ⟨options.sources.length, 0, 0, 0, 0, 0, 0⟩

end Hub
