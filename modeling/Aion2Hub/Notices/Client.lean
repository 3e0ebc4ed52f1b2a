/-
Aion2Hub/Notices/Client.lean

`notices-client/plaync.ts`: reading the article lists of a board.

A program sends requests to a server and keeps the requests it has sent as its
state; what the server answers may depend on all of them.  On a board that is
served page by page (`ServesBoard`) the pages that are read are a prefix of the
board (`morePages_ok`); on any server the loop sends one request per page at
most, and the map by id keeps every id once (`latestArticles`).
-/
import Aion2Hub.Lib.Exec
import Aion2Hub.Lib.Js
import Aion2Hub.Lib.OrderedMap
import Aion2Hub.Storage.BuildScore

namespace Hub

/-! ### Requests -/

inductive PlayncBoardAlias where
  | noticeKo
  | updateKo
  deriving DecidableEq

def PlayncBoardAlias.text : PlayncBoardAlias → String
  | .noticeKo => "notice_ko"
  | .updateKo => "update_ko"

/-- What the client asks for; the article before a page is sent as text. -/
inductive PlayncRequest where
  | noticeArticle (board : PlayncBoardAlias)
  | moreArticle (board : PlayncBoardAlias) (previousArticleId : String) (moreSize : ℕ)

/-- A request for a page of a list. -/
def PlayncRequest.isList : PlayncRequest → Bool
  | .noticeArticle _ => false
  | .moreArticle _ _ _ => true

/-- The data that are answered to a request after those that came before, or a
failure. -/
abbrev Server := List PlayncRequest → PlayncRequest → Except String Js

/-- A program that sends requests. -/
abbrev Web (α : Type) := Exec (List PlayncRequest) α

def fetchJson (server : Server) (request : PlayncRequest) : Web Js := fun sent =>
  (server sent request, sent ++ [request])

/-- `data.key`, which throws when the data are `null`. -/
def readKey (data : Js) (key : String) : Web (Option Js) :=
  match data with
  | .null => Exec.throw ("Cannot read properties of null (reading '" ++ key ++ "')")
  | data => pure (data.get key)

/-! ### Articles -/

structure PlayncArticleMeta where
  id : String
  title : String
  url : String
  postedAt : Option String
  updatedAt : Option String
  publishedAt : Option String
  deriving DecidableEq

/-- The characters that `encodeURIComponent` leaves alone. -/
def isUnreserved (c : Char) : Bool :=
  c.isAlphanum || c ∈ "-_.!~*'()".toList

def hexDigits (n : ℕ) : List Char := [Nat.digitChar (n / 16), Nat.digitChar (n % 16)].map Char.toUpper

def encodeURIComponent (s : String) : String :=
  String.ofList (s.toList.flatMap fun c =>
    if isUnreserved c then [c]
    else (String.utf8EncodeChar c).flatMap fun b => '%' :: hexDigits b.toNat)

def buildFallbackUrl (board : PlayncBoardAlias) (articleId : String) : String :=
  let name := match board with
    | .updateKo => "update"
    | .noticeKo => "notice"
  "https://aion2.plaync.com/ko-kr/board/" ++ name ++ "/view?articleId=" ++
    encodeURIComponent articleId

/-- The text before and after the first occurrence of the pattern. -/
def splitAtFirst (pattern : List Char) : List Char → Option (List Char × List Char)
  | [] => if pattern = [] then some ([], []) else none
  | c :: l =>
      if pattern <+: c :: l then some ([], (c :: l).drop pattern.length)
      else (splitAtFirst pattern l).map fun p => (c :: p.1, p.2)

/-- What `$` and the character stand for in the replacement text of
`String.prototype.replace`, when the pattern is a text. -/
def replacementPattern (before pattern after : List Char) (c : Char) : Option (List Char) :=
  if c = '$' then some ['$']
  else if c = '&' then some pattern
  else if c = Char.ofNat 96 then some before
  else if c = Char.ofNat 39 then some after
  else none

def expandReplacement (before pattern after : List Char) : List Char → List Char
  | '$' :: c :: l =>
      match replacementPattern before pattern after c with
      | some r => r ++ expandReplacement before pattern after l
      | none => '$' :: expandReplacement before pattern after (c :: l)
  | c :: l => c :: expandReplacement before pattern after l
  | [] => []

/-- `s.replace(pattern, replacement)`, if the pattern occurs. -/
def replaceFirst (pattern replacement s : String) : Option String :=
  (splitAtFirst pattern.toList s.toList).map fun p =>
    String.ofList
      (p.1 ++ expandReplacement p.1 pattern.toList p.2 replacement.toList ++ p.2)

def buildArticleUrl (urlPattern : Option Js) (board : PlayncBoardAlias) (articleId : String) :
    String :=
  ((Js.asString urlPattern).bind (replaceFirst "\x7barticleId\x7d" articleId)).getD
    (buildFallbackUrl board articleId)

/-- The fields of a list entry; `none` when it has no id or no title. -/
def toMeta (board : PlayncBoardAlias) (raw : Option Js) : Option PlayncArticleMeta := do
  let obj := Js.asRecord raw
  let timestamps := Js.asRecord (obj.get "timestamps")
  let categoryBoard := Js.asRecord (obj.get "categoryBoard")
  let id ← Js.asString (obj.get "id")
  let title ← Js.asString (obj.get "title")
  pure
    { id := id
      title := title
      url := buildArticleUrl (categoryBoard.get "boardUrlPattern") board id
      postedAt := requiredText (timestamps.get "postedAt")
      updatedAt := requiredText (timestamps.get "updatedAt")
      publishedAt := requiredText (timestamps.get "publishedAt") }

/-! ### Lists of articles -/

/-- The articles among the entries of a list of pinned ones. -/
def pinnedMetas (board : PlayncBoardAlias) (items : List Js) : List PlayncArticleMeta :=
  items.filterMap fun item => toMeta board ((Js.asRecord (some item)).get "articleMeta")

def fetchPinnedArticleMetas (server : Server) (board : PlayncBoardAlias) :
    Web (List PlayncArticleMeta) := do
  let data ← fetchJson server (.noticeArticle board)
  let list ← readKey data "noticesList"
  pure (pinnedMetas board (Js.asArray list))

/-- One page: its articles, and whether there are more.  Without a previous
article (0 in the source) the page is the first one. -/
def fetchMoreArticleMetas (server : Server) (board : PlayncBoardAlias)
    (previousArticleId : Option String) (moreSize : ℕ) : Web (List PlayncArticleMeta × Bool) := do
  let data ← fetchJson server (.moreArticle board (previousArticleId.getD "0") moreSize)
  let list ← readKey data "contentList"
  pure ((Js.asArray list).filterMap (fun raw => toMeta board (some raw)),
    Js.truthy (data.get "hasMore"))

structure PlayncLatestOptions where
  maxPages : ℕ
  pageSize : ℕ
  includePinned : Bool

/-- The loop over the pages, of which so many may still be read. -/
def morePages (server : Server) (board : PlayncBoardAlias) (pageSize : ℕ) :
    ℕ → Option String → OrderedMap String PlayncArticleMeta →
      Web (OrderedMap String PlayncArticleMeta)
  | 0, _, articles => pure articles
  | pages + 1, previousArticleId, articles => do
      let page ← fetchMoreArticleMetas server board previousArticleId pageSize
      let articles := articles.setAll (OrderedMap.byKey (·.id) page.1)
      if page.2 = false ∨ page.1 = [] then pure articles
      else
        morePages server board pageSize pages
          ((page.1.getLast?.map (·.id)).or previousArticleId) articles

def fetchLatestArticleMetas (server : Server) (board : PlayncBoardAlias)
    (options : PlayncLatestOptions) : Web (List PlayncArticleMeta) := do
  let pinned ← (if options.includePinned then fetchPinnedArticleMetas server board else pure [])
  let articles ← morePages server board options.pageSize options.maxPages none
    (OrderedMap.setAll [] (OrderedMap.byKey (·.id) pinned))
  pure articles.values

/-! ### Requests that are sent -/

/-- Whatever has been sent before, the program sends at most so many requests
for pages. -/
def ListsAtMost {α : Type} (n : ℕ) (m : Web α) : Prop :=
  ∀ sent, ∃ made, (m sent).2 = sent ++ made ∧ made.countP PlayncRequest.isList ≤ n

section

variable {α β : Type}

theorem ListsAtMost.of_unchanged {m : Web α} (h : ∀ sent, (m sent).2 = sent) : ListsAtMost 0 m :=
  fun sent => ⟨[], by rw [h, List.append_nil], Nat.le_refl 0⟩

theorem ListsAtMost.bind {n k : ℕ} {m : Web α} {f : α → Web β} (hm : ListsAtMost n m)
    (hf : ∀ a, ListsAtMost k (f a)) : ListsAtMost (n + k) (m >>= f) := by
  intro sent
  obtain ⟨made, hmade, hcount⟩ := hm sent
  rw [Exec.bind_apply]
  rcases hrun : m sent with ⟨result, sent'⟩
  rw [hrun] at hmade
  cases result with
  | error e => exact ⟨made, hmade, hcount.trans (Nat.le_add_right n k)⟩
  | ok a =>
      obtain ⟨made', hmade', hcount'⟩ := hf a sent'
      have hsent : sent' = sent ++ made := hmade
      refine ⟨made ++ made', ?_, ?_⟩
      · rw [← List.append_assoc, ← hsent]
        exact hmade'
      · rw [List.countP_append]
        exact Nat.add_le_add hcount hcount'

theorem listsAtMost_readKey (data : Js) (key : String) : ListsAtMost 0 (readKey data key) := by
  apply ListsAtMost.of_unchanged
  intro sent
  cases data <;> rfl

end

section

variable (server : Server) (board : PlayncBoardAlias)

theorem listsAtMost_fetchPinnedArticleMetas :
    ListsAtMost 0 (fetchPinnedArticleMetas server board) := by
  apply ListsAtMost.bind (n := 0) (k := 0)
  · exact fun sent => ⟨[.noticeArticle board], rfl, Nat.le_refl 0⟩
  · intro data
    apply ListsAtMost.bind (n := 0) (k := 0) (listsAtMost_readKey data "noticesList")
    exact fun list => .of_unchanged fun sent => rfl

theorem listsAtMost_fetchMoreArticleMetas (previousArticleId : Option String) (moreSize : ℕ) :
    ListsAtMost 1 (fetchMoreArticleMetas server board previousArticleId moreSize) := by
  apply ListsAtMost.bind (n := 1) (k := 0)
  · exact fun sent => ⟨[.moreArticle board (previousArticleId.getD "0") moreSize], rfl, Nat.le_refl 1⟩
  · intro data
    apply ListsAtMost.bind (n := 0) (k := 0) (listsAtMost_readKey data "contentList")
    exact fun list => .of_unchanged fun sent => rfl

/-- The loop sends one request for each page that it may read. -/
theorem listsAtMost_morePages (pageSize pages : ℕ) (previousArticleId : Option String)
    (articles : OrderedMap String PlayncArticleMeta) :
    ListsAtMost pages (morePages server board pageSize pages previousArticleId articles) := by
  induction pages generalizing previousArticleId articles with
  | zero => exact .of_unchanged fun sent => rfl
  | succ pages ih =>
      rw [morePages, Nat.add_comm]
      apply (listsAtMost_fetchMoreArticleMetas server board previousArticleId pageSize).bind
      intro page
      dsimp only
      split
      · intro sent
        exact ⟨[], (List.append_nil sent).symm, Nat.zero_le pages⟩
      · exact ih _ _

theorem listsAtMost_fetchLatestArticleMetas (options : PlayncLatestOptions) :
    ListsAtMost options.maxPages (fetchLatestArticleMetas server board options) := by
  have hpinned : ListsAtMost 0
      (if options.includePinned then fetchPinnedArticleMetas server board else pure []) := by
    split
    · exact listsAtMost_fetchPinnedArticleMetas server board
    · exact .of_unchanged fun sent => rfl
  have hlist : ∀ pinned, ListsAtMost (options.maxPages + 0) (do
      let articles ← morePages server board options.pageSize options.maxPages none
        (OrderedMap.setAll [] (OrderedMap.byKey (·.id) pinned))
      pure articles.values) := by
    intro pinned
    apply (listsAtMost_morePages server board _ _ _ _).bind
    exact fun articles => .of_unchanged fun sent => rfl
  have h := hpinned.bind hlist
  rw [Nat.add_zero, Nat.zero_add] at h
  exact h

end

/-! ### Boards -/

/-- The data list the next articles of those that are left, and say whether
some remain. -/
structure IsPage (rest : List Js) (size : ℕ) (data : Js) : Prop where
  contentList : data.get "contentList" = some (.arr (rest.take size))
  hasMore : Js.truthy (data.get "hasMore") = decide (size < rest.length)

/-- After this article the server goes on with these. -/
def AnswersAfter (server : Server) (board : PlayncBoardAlias) (articleId : String)
    (rest : List Js) : Prop :=
  ∀ sent size, ∃ data, server sent (.moreArticle board articleId size) = .ok data ∧
    IsPage rest size data

/-- A time is a text among the timestamps that is not empty. -/
def HasTime (raw : Js) (key : String) (time : Option String) : Prop :=
  ∀ t, time = some t ↔ t ≠ "" ∧ ∃ timestamps,
    raw.get "timestamps" = some timestamps ∧ timestamps.get key = some (.str t)

/-- The entry has an id and a title, and these are its data. -/
structure IsArticle (board : PlayncBoardAlias) (raw : Js) (m : PlayncArticleMeta) : Prop where
  id : raw.get "id" = some (.str m.id)
  title : raw.get "title" = some (.str m.title)
  url : m.url =
    buildArticleUrl ((raw.get "categoryBoard").bind (·.get "boardUrlPattern")) board m.id
  postedAt : HasTime raw "postedAt" m.postedAt
  updatedAt : HasTime raw "updatedAt" m.updatedAt
  publishedAt : HasTime raw "publishedAt" m.publishedAt

/-- The server answers with the articles after the one that is named, and with
those from the start for 0. -/
structure ServesBoard (server : Server) (board : PlayncBoardAlias) (raws : List Js) : Prop where
  first : AnswersAfter server board "0" raws
  next : ∀ before raw rest m, raws = before ++ raw :: rest → IsArticle board raw m →
    AnswersAfter server board m.id rest

/-- The articles among the entries of a list of pinned ones. -/
inductive PinnedAmong (board : PlayncBoardAlias) : List Js → List PlayncArticleMeta → Prop
  | nil : PinnedAmong board [] []
  | article {item raw : Js} {m : PlayncArticleMeta} {items : List Js} {pinned : List PlayncArticleMeta}
      (hraw : item.get "articleMeta" = some raw) (hm : IsArticle board raw m)
      (h : PinnedAmong board items pinned) : PinnedAmong board (item :: items) (m :: pinned)
  | other {item : Js} {items : List Js} {pinned : List PlayncArticleMeta}
      (hnone : ∀ raw m, item.get "articleMeta" = some raw → ¬ IsArticle board raw m)
      (h : PinnedAmong board items pinned) : PinnedAmong board (item :: items) pinned

/-- The server lists these articles as pinned. -/
def Pins (server : Server) (board : PlayncBoardAlias) (pinned : List PlayncArticleMeta) : Prop :=
  ∀ sent, ∃ data items, server sent (.noticeArticle board) = .ok data ∧
    data.get "noticesList" = some (.arr items) ∧ PinnedAmong board items pinned

/-! ### Entries that are articles -/

theorem asRecord_get (v : Option Js) (key : String) :
    (Js.asRecord v).get key = v.bind (·.get key) := by
  cases v with
  | none => rfl
  | some v => cases v <;> rfl

theorem hasTime_requiredText (raw : Js) (key : String) :
    HasTime raw key (requiredText ((Js.asRecord (raw.get "timestamps")).get key)) := by
  intro t
  rw [asRecord_get, requiredText, nonEmpty, Option.filter_eq_some_iff]
  constructor
  · rintro ⟨htext, hne⟩
    have hvalue : (raw.get "timestamps").bind (·.get key) = some (.str t) := by
      cases hv : (raw.get "timestamps").bind (·.get key) with
      | none =>
          rw [hv] at htext
          cases htext
      | some v =>
          rw [hv] at htext
          cases v <;> cases htext
          rfl
    obtain ⟨timestamps, hraw, hkey⟩ := Option.bind_eq_some_iff.mp hvalue
    exact ⟨by simpa using hne, timestamps, hraw, hkey⟩
  · rintro ⟨hne, timestamps, hraw, hkey⟩
    rw [hraw, Option.bind_some, hkey]
    exact ⟨rfl, by simpa using hne⟩

theorem HasTime.unique {raw : Js} {key : String} {time time' : Option String}
    (h : HasTime raw key time) (h' : HasTime raw key time') : time = time' :=
  Option.ext fun t => (h t).trans (h' t).symm

/-- The entries that are read are those with an id and a title. -/
theorem toMeta_eq_some {board : PlayncBoardAlias} {raw : Js} {m : PlayncArticleMeta} :
    toMeta board (some raw) = some m ↔ IsArticle board raw m := by
  have hget : ∀ key, (Js.asRecord (some raw)).get key = raw.get key := asRecord_get (some raw)
  have htext : ∀ {v : Option Js} {t : String}, Js.asString v = some t → v = some (.str t) := by
    intro v t h
    rcases v with - | v
    · cases h
    · cases v <;> cases h
      rfl
  have hread : toMeta board (some raw) = (Js.asString (raw.get "id")).bind fun id =>
      (Js.asString (raw.get "title")).map fun title =>
        ⟨id, title, buildArticleUrl ((raw.get "categoryBoard").bind (·.get "boardUrlPattern")) board id,
          requiredText ((Js.asRecord (raw.get "timestamps")).get "postedAt"),
          requiredText ((Js.asRecord (raw.get "timestamps")).get "updatedAt"),
          requiredText ((Js.asRecord (raw.get "timestamps")).get "publishedAt")⟩ := by
    rw [toMeta]
    simp only [hget, asRecord_get]
    cases Js.asString (raw.get "id") with
    | none => rfl
    | some id => cases Js.asString (raw.get "title") <;> rfl
  rw [hread]
  constructor
  · intro h
    obtain ⟨id, hid, h⟩ := Option.bind_eq_some_iff.mp h
    obtain ⟨title, htitle, rfl⟩ := Option.map_eq_some_iff.mp h
    exact ⟨htext hid, htext htitle, rfl, hasTime_requiredText raw _, hasTime_requiredText raw _,
      hasTime_requiredText raw _⟩
  · intro h
    rw [h.id, h.title]
    show some _ = some m
    rw [Option.some_inj, ← h.url, (hasTime_requiredText raw "postedAt").unique h.postedAt,
      (hasTime_requiredText raw "updatedAt").unique h.updatedAt,
      (hasTime_requiredText raw "publishedAt").unique h.publishedAt]

theorem pinnedMetas_eq {board : PlayncBoardAlias} {items : List Js} {pinned : List PlayncArticleMeta}
    (h : PinnedAmong board items pinned) : pinnedMetas board items = pinned := by
  have hread : ∀ item, toMeta board ((Js.asRecord (some item)).get "articleMeta") =
      (item.get "articleMeta").bind fun raw => toMeta board (some raw) := by
    intro item
    rw [show (Js.asRecord (some item)).get "articleMeta" = item.get "articleMeta" from
      asRecord_get (some item) _]
    cases item.get "articleMeta" <;> rfl
  rw [pinnedMetas]
  simp only [hread]
  induction h with
  | nil => rfl
  | article hraw hm _ ih =>
      rw [List.filterMap_cons_some (by rw [hraw, Option.bind_some, toMeta_eq_some.mpr hm]), ih]
  | other hnone _ ih =>
      rw [List.filterMap_cons_none, ih]
      apply Option.bind_eq_none_iff.mpr
      intro raw hraw
      apply Option.eq_none_iff_forall_ne_some.mpr
      intro m hm
      exact hnone raw m hraw (toMeta_eq_some.mp hm)

/-- The entries are read as these articles. -/
def ReadAs (board : PlayncBoardAlias) (raws : List Js) (metas : List PlayncArticleMeta) : Prop :=
  raws.map (fun raw => toMeta board (some raw)) = metas.map some

section

variable {server : Server} {board : PlayncBoardAlias} {raws : List Js}
  {metas pinned : List PlayncArticleMeta}

theorem readAs_of_articles (h : List.Forall₂ (IsArticle board) raws metas) : ReadAs board raws metas := by
  induction h with
  | nil => rfl
  | cons hm _ ih =>
      rw [ReadAs, List.map_cons, List.map_cons, toMeta_eq_some.mpr hm, ih]

theorem ReadAs.take (h : ReadAs board raws metas) (n : ℕ) :
    ReadAs board (raws.take n) (metas.take n) := by
  rw [ReadAs, List.map_take, h, List.map_take]

theorem ReadAs.drop (h : ReadAs board raws metas) (n : ℕ) :
    ReadAs board (raws.drop n) (metas.drop n) := by
  rw [ReadAs, List.map_drop, h, List.map_drop]

theorem ReadAs.length_eq (h : ReadAs board raws metas) : raws.length = metas.length := by
  have hlen := congrArg List.length h
  rwa [List.length_map, List.length_map] at hlen

theorem ReadAs.filterMap_eq (h : ReadAs board raws metas) :
    raws.filterMap (fun raw => toMeta board (some raw)) = metas := by
  have hall := congrArg (List.filterMap id) h
  rw [List.filterMap_map, List.filterMap_map] at hall
  rw [Function.id_comp] at hall
  exact hall.trans List.filterMap_some

/-- The last article of a page, in its place on the board. -/
theorem ReadAs.split (h : ReadAs board raws metas) {k : ℕ} (hk : k < metas.length) :
    ∃ raw m, raws = raws.take k ++ raw :: raws.drop (k + 1) ∧ IsArticle board raw m ∧
      (metas.take (k + 1)).getLast? = some m := by
  have hkr : k < raws.length := h.length_eq.symm ▸ hk
  refine ⟨raws[k], metas[k], ?_, ?_, ?_⟩
  · rw [← List.drop_eq_getElem_cons hkr, List.take_append_drop]
  · have hat := congrArg (fun l => l[k]?) h
    simp only [List.getElem?_map, List.getElem?_eq_getElem hkr, List.getElem?_eq_getElem hk,
      Option.map_some, Option.some_inj] at hat
    exact toMeta_eq_some.mp hat
  · rw [List.take_add_one, List.getElem?_eq_getElem hk]
    exact List.getLast?_concat

theorem readKey_of_get {data v : Js} {key : String} (h : data.get key = some v)
    (sent : List PlayncRequest) : readKey data key sent = (.ok (some v), sent) := by
  cases data with
  | null => cases h
  | _ =>
      rw [← h]
      rfl

theorem fetchPinnedArticleMetas_ok (h : Pins server board pinned) (sent : List PlayncRequest) :
    ∃ sent', fetchPinnedArticleMetas server board sent = (.ok pinned, sent') := by
  obtain ⟨data, items, hanswer, hlist, hpinned⟩ := h sent
  rw [← pinnedMetas_eq hpinned]
  have hfetch : fetchJson server (.noticeArticle board) sent =
      (.ok data, sent ++ [.noticeArticle board]) := by rw [fetchJson, hanswer]
  rw [fetchPinnedArticleMetas, Exec.bind_of_ok hfetch, Exec.bind_of_ok (readKey_of_get hlist _)]
  exact ⟨_, rfl⟩

/-- A page is as many of the articles that are left. -/
theorem fetchMoreArticleMetas_ok {previousArticleId : Option String}
    (h : AnswersAfter server board (previousArticleId.getD "0") raws)
    (hmetas : ReadAs board raws metas) (size : ℕ) (sent : List PlayncRequest) :
    ∃ sent', fetchMoreArticleMetas server board previousArticleId size sent =
      (.ok (metas.take size, decide (size < metas.length)), sent') := by
  obtain ⟨data, hanswer, hpage⟩ := h sent size
  have hfetch : fetchJson server (.moreArticle board (previousArticleId.getD "0") size) sent =
      (.ok data, sent ++ [.moreArticle board (previousArticleId.getD "0") size]) := by
    rw [fetchJson, hanswer]
  rw [fetchMoreArticleMetas, Exec.bind_of_ok hfetch,
    Exec.bind_of_ok (readKey_of_get hpage.contentList _), hpage.hasMore, hmetas.length_eq]
  have hlist : (Js.asArray (some (.arr (raws.take size)))).filterMap
      (fun raw => toMeta board (some raw)) = metas.take size := (hmetas.take size).filterMap_eq
  rw [hlist]
  exact ⟨_, rfl⟩

/-- The loop sets the articles of as many pages, from where the board goes on
after the previous article. -/
theorem morePages_ok {size : ℕ} (hsize : 1 ≤ size) (pages : ℕ) (previousArticleId : Option String)
    (hfrom : AnswersAfter server board (previousArticleId.getD "0") raws)
    (hnext : ∀ before raw rest m, raws = before ++ raw :: rest →
      IsArticle board raw m → AnswersAfter server board m.id rest)
    (hmetas : ReadAs board raws metas) (articles : OrderedMap String PlayncArticleMeta)
    (sent : List PlayncRequest) :
    ∃ sent', morePages server board size pages previousArticleId articles sent =
      (.ok (articles.setAll (OrderedMap.byKey (·.id) (metas.take (pages * size)))), sent') := by
  induction pages generalizing previousArticleId raws metas articles sent with
  | zero =>
      rw [Nat.zero_mul, List.take_zero]
      exact ⟨sent, rfl⟩
  | succ pages ih =>
      obtain ⟨sent₁, hpage⟩ := fetchMoreArticleMetas_ok hfrom hmetas size sent
      rw [morePages, Exec.bind_of_ok hpage]
      dsimp only
      by_cases hmore : size < metas.length
      · -- a full page, and the board goes on after its last article
        obtain ⟨k, rfl⟩ : ∃ k, size = k + 1 := ⟨size - 1, (Nat.sub_add_cancel hsize).symm⟩
        obtain ⟨raw, m, hsplit, hraw, hlast⟩ := hmetas.split (Nat.lt_of_succ_lt hmore)
        have hgoes : ¬ (decide (k + 1 < metas.length) = false ∨ metas.take (k + 1) = []) := by
          rintro (hno | hnil)
          · exact absurd hmore (of_decide_eq_false hno)
          · rw [hnil] at hlast
            cases hlast
        have hcut : metas.take ((pages + 1) * (k + 1)) =
            metas.take (k + 1) ++ (metas.drop (k + 1)).take (pages * (k + 1)) := by
          rw [Nat.succ_mul, Nat.add_comm, List.take_add]
        have hnext' : ∀ before raw' rest m', raws.drop (k + 1) = before ++ raw' :: rest →
            IsArticle board raw' m' → AnswersAfter server board m'.id rest := by
          intro before raw' rest m' hrest
          apply hnext (raws.take (k + 1) ++ before)
          rw [List.append_assoc, ← hrest, List.take_append_drop]
        rw [if_neg hgoes, hlast, hcut, OrderedMap.byKey_append, OrderedMap.setAll_append]
        exact ih (some m.id) (hnext _ _ _ _ hsplit hraw) hnext' (hmetas.drop (k + 1)) _ sent₁
      · -- the last page
        have hdone : decide (size < metas.length) = false ∨ metas.take size = [] :=
          .inl (decide_eq_false hmore)
        have hall : metas.take ((pages + 1) * size) = metas.take size := by
          have hlen : metas.length ≤ size := Nat.le_of_not_lt hmore
          have hle : size ≤ (pages + 1) * size := Nat.le_mul_of_pos_left size (Nat.succ_pos pages)
          rw [List.take_of_length_le (hlen.trans hle), List.take_of_length_le hlen]
        rw [if_pos hdone, hall]
        exact ⟨sent₁, rfl⟩

end

/-! ### The map by id -/

/-- The map of the loop keeps every article under its id. -/
theorem keyed_morePages {server : Server} {board : PlayncBoardAlias} {size pages : ℕ}
    {previousArticleId : Option String} {articles articles' : OrderedMap String PlayncArticleMeta}
    {sent sent' : List PlayncRequest} (h : articles.Keyed (·.id))
    (hrun : morePages server board size pages previousArticleId articles sent =
      (.ok articles', sent')) : articles'.Keyed (·.id) := by
  induction pages generalizing previousArticleId articles sent with
  | zero =>
      cases hrun
      exact h
  | succ pages ih =>
      rw [morePages] at hrun
      obtain ⟨page, sent₁, -, hrest⟩ := Exec.bind_eq_ok hrun
      dsimp only at hrest
      split at hrest
      · cases hrest
        exact h.setAll page.1
      · exact ih (h.setAll page.1) hrest

/-- What is returned has no id twice, whatever the server answers. -/
theorem nodup_fetchLatestArticleMetas {server : Server} {board : PlayncBoardAlias}
    {options : PlayncLatestOptions} {articles : List PlayncArticleMeta}
    {sent sent' : List PlayncRequest}
    (h : fetchLatestArticleMetas server board options sent = (.ok articles, sent')) :
    (articles.map (·.id)).Nodup := by
  obtain ⟨pinned, sent₁, -, hrest⟩ := Exec.bind_eq_ok h
  obtain ⟨entries, sent₂, hpages, hvalues⟩ := Exec.bind_eq_ok hrest
  cases hvalues
  have hentries := keyed_morePages (OrderedMap.Keyed.nil.setAll pinned) hpages
  rw [hentries.map_values]
  exact hentries.nodup

/-! ### The newest articles -/

/-- The articles that are returned: the pinned ones, then the others that are
listed.  The data are those of the list, and of the last pinned entry for an
article that is not listed. -/
structure Latest (pinned listed articles : List PlayncArticleMeta) : Prop where
  ids : articles.map (·.id) = (pinned.map (·.id)).eraseDups ++
    (listed.map (·.id)).filter fun id => id ∉ pinned.map (·.id)
  nodup : (articles.map (·.id)).Nodup
  data : ∀ m ∈ articles, m ∈ listed ∨ m.id ∉ listed.map (·.id) ∧
    pinned.reverse.find? (fun p => p.id == m.id) = some m

theorem Latest.of_setAll {pinned listed : List PlayncArticleMeta}
    (hlisted : (listed.map (·.id)).Nodup) :
    Latest pinned listed (OrderedMap.setAll [] (OrderedMap.byKey (·.id) (pinned ++ listed))).values := by
  have hnil : OrderedMap.Keyed (fun m : PlayncArticleMeta => m.id) [] := .nil
  have hentries := hnil.setAll (pinned ++ listed)
  refine ⟨?_, ?_, ?_⟩
  · rw [hentries.map_values, OrderedMap.keys_setAll hnil.nodup, OrderedMap.keys_byKey,
      List.map_append]
    show (pinned.map (·.id) ++ listed.map (·.id)).eraseDups = _
    rw [List.eraseDups_append]
    congr 1
    have hothers : (listed.map (·.id)).removeAll (pinned.map (·.id)) =
        (listed.map (·.id)).filter fun id => id ∉ pinned.map (·.id) := by
      apply List.filter_congr
      intro id _
      rw [List.elem_eq_mem, decide_not]
    rw [hothers]
    exact OrderedMap.eraseDups_of_nodup (hlisted.filter _)
  · rw [hentries.map_values]
    exact hentries.nodup
  · intro m hm
    obtain ⟨⟨id, m'⟩, hmem, rfl⟩ := List.mem_map.mp hm
    have hid : id = m'.id := hentries.keyed _ hmem
    have hlookup := (OrderedMap.mem_iff_lookup hentries.nodup).mp hmem
    rw [OrderedMap.lookup_setAll, OrderedMap.reverse_byKey, OrderedMap.lookup_byKey,
      List.reverse_append, List.find?_append, List.lookup_nil, Option.or_none] at hlookup
    cases hfind : listed.reverse.find? (fun m => m.id == id) with
    | some l =>
        rw [hfind] at hlookup
        obtain rfl := Option.some.inj hlookup
        exact .inl (List.mem_reverse.mp (List.mem_of_find?_eq_some hfind))
    | none =>
        rw [hfind] at hlookup
        refine .inr ⟨?_, hid ▸ hlookup⟩
        intro hin
        obtain ⟨l, hl, hlid⟩ := List.mem_map.mp hin
        have hno := List.find?_eq_none.mp hfind l (List.mem_reverse.mpr hl)
        exact hno (beq_iff_eq.mpr (hlid.trans hid.symm))

/-- **Reading a board**: on any server at most one request per page is sent, and
no id is returned twice; on a board that is served page by page the articles
are the pinned ones and then the others of the first pages. -/
theorem latestArticles (server : Server) (board : PlayncBoardAlias) (options : PlayncLatestOptions) :
    ListsAtMost options.maxPages (fetchLatestArticleMetas server board options) ∧
      (∀ sent articles sent', fetchLatestArticleMetas server board options sent =
        (.ok articles, sent') → (articles.map (·.id)).Nodup) ∧
      ∀ raws metas pinned, 1 ≤ options.pageSize → List.Forall₂ (IsArticle board) raws metas →
        (metas.map (·.id)).Nodup → ServesBoard server board raws →
        (options.includePinned = true → Pins server board pinned) → ∀ sent,
        ∃ articles sent', fetchLatestArticleMetas server board options sent =
            (.ok articles, sent') ∧
          Latest (if options.includePinned then pinned else [])
            (metas.take (options.maxPages * options.pageSize)) articles := by
  refine ⟨listsAtMost_fetchLatestArticleMetas server board options,
    fun sent articles sent' h => nodup_fetchLatestArticleMetas h, ?_⟩
  intro raws metas pinned hsize hmetas hnodup hserves hpins sent
  obtain ⟨sent₁, hpinned⟩ : ∃ sent₁,
      (if options.includePinned then fetchPinnedArticleMetas server board else pure []) sent =
        (.ok (if options.includePinned then pinned else []), sent₁) := by
    split
    · rename_i hincluded
      exact fetchPinnedArticleMetas_ok (hpins hincluded) sent
    · exact ⟨sent, rfl⟩
  obtain ⟨sent₂, hpages⟩ := morePages_ok hsize options.maxPages none
    hserves.first hserves.next (readAs_of_articles hmetas)
    (OrderedMap.setAll [] (OrderedMap.byKey (·.id) (if options.includePinned then pinned else []))) sent₁
  rw [← OrderedMap.setAll_append, ← OrderedMap.byKey_append] at hpages
  refine ⟨_, sent₂, ?_, Latest.of_setAll (hnodup.sublist ((List.take_sublist _ _).map _))⟩
  rw [fetchLatestArticleMetas, Exec.bind_of_ok hpinned, Exec.bind_of_ok hpages]
  rfl

/-- An entry of a list. -/
def article (id : String) : Js := .obj [("id", .str id), ("title", .str ("Patch " ++ id))]

/-- The articles after one of them, newest first; number 1 is pinned. -/
def boardServer : Server
  | _, .noticeArticle _ =>
      .ok (.obj [("noticesList", .arr [.str "sticky", .obj [("articleMeta", article "1")]])])
  | _, .moreArticle _ previousArticleId size =>
      let rest := if previousArticleId = "0" then [article "2", article "1"]
        else if previousArticleId = "2" then [article "1"]
        else []
      .ok (.obj [("contentList", .arr (rest.take size)),
        ("hasMore", .bool (decide (size < rest.length)))])

theorem answersAfter_boardServer {articleId : String} {rest : List Js} {board : PlayncBoardAlias}
    (h : (if articleId = "0" then [article "2", article "1"]
      else if articleId = "2" then [article "1"] else []) = rest) :
    AnswersAfter boardServer board articleId rest := by
  subst h
  exact fun sent size => ⟨_, rfl, rfl, rfl⟩

def noticeMeta (id : String) : PlayncArticleMeta :=
  ⟨id, "Patch " ++ id, buildFallbackUrl .noticeKo id, none, none, none⟩

theorem isArticle_article (id : String) : IsArticle .noticeKo (article id) (noticeMeta id) :=
  toMeta_eq_some.mp rfl

/-- One page of one article is not the pinned one, which comes first. -/
theorem latestArticles_board :
    ∃ articles sent', fetchLatestArticleMetas boardServer .noticeKo ⟨1, 1, true⟩ [] =
        (.ok articles, sent') ∧ Latest [noticeMeta "1"] [noticeMeta "2"] articles := by
  have hserves : ServesBoard boardServer .noticeKo [article "2", article "1"] := by
    refine ⟨answersAfter_boardServer rfl, ?_⟩
    intro before raw rest m hsplit hraw
    have hid := hraw.id
    rcases before with - | ⟨b, - | ⟨b', before⟩⟩
    · cases hsplit
      rw [← show "2" = m.id from Js.str.inj (Option.some.inj hid)]
      exact answersAfter_boardServer rfl
    · cases hsplit
      rw [← show "1" = m.id from Js.str.inj (Option.some.inj hid)]
      exact answersAfter_boardServer rfl
    · cases before <;> cases hsplit
  have hpins : Pins boardServer .noticeKo [noticeMeta "1"] := by
    intro sent
    refine ⟨_, _, rfl, rfl, .other ?_ (.article rfl (isArticle_article "1") .nil)⟩
    intro raw m hraw
    cases hraw
  exact (latestArticles boardServer .noticeKo ⟨1, 1, true⟩).2.2 [article "2", article "1"]
    [noticeMeta "2", noticeMeta "1"] [noticeMeta "1"] (Nat.le_refl 1)
    (.cons (isArticle_article "2") (.cons (isArticle_article "1") .nil)) (by decide) hserves
    (fun _ => hpins) []

end Hub
