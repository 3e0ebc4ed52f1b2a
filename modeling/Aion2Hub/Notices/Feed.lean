/-
Aion2Hub/Notices/Feed.lean

The feed of the desktop app: the page that lists the notices, twenty at a time.

Every change of the filter or of the page sends a call, and the answers arrive
in the order of the calls, while the user goes on.  Whenever nothing is in
flight, the page shows the rows that its filter and its page number name,
however often both have changed before (`feed_of_run`); and turning the pages
until the button is disabled lists every notice of the source once, with a link
that leads to the diff of that notice (`feed_walk`).

A search text makes the call fail as soon as there is a notice to test, see
`Storage/Search`; the results here are about pages without one.
-/
import Aion2Hub.Lib.Rounding
import Aion2Hub.Renderer.Router
import Aion2Hub.Storage.Search

namespace Hub

open Sql Exec

/-! ### The call -/

/-- `source === "NOTICE" || source === "UPDATE"`. -/
def asNoticeSource : Option Js → Option NoticeSource
  | some (.str "NOTICE") => some .notice
  | some (.str "UPDATE") => some .update
  | _ => none

/-- `notices:list`. -/
def noticesList (input : Option Js) : Prog NoticesPage :=
  let obj := Js.asRecord input
  let q := nonEmpty (Js.asString (obj.get "q"))
  let page := (Js.asNumber (obj.get "page")).getD 1
  let pageSize := (Js.asNumber (obj.get "pageSize")).getD 20
  listNotices ⟨asNoticeSource (obj.get "source"), q, page, pageSize⟩

def nullable : Option String → Js
  | some s => .str s
  | none => .null

def NoticeListItem.toJs (i : NoticeListItem) : Js :=
  .obj [("id", .str i.id), ("source", .str i.source.text), ("externalId", .str i.externalId),
    ("url", .str i.url), ("title", .str i.title), ("publishedAt", nullable i.publishedAt),
    ("updatedAt", .str i.updatedAt)]

def NoticesPage.toJs (p : NoticesPage) : Js :=
  .obj [("page", .num p.page), ("pageSize", .num p.pageSize), ("total", .num (.ofInt p.total)),
    ("items", .arr (p.items.map NoticeListItem.toJs))]

namespace Renderer

structure NoticeListResponse where
  page : Number
  pageSize : Number
  total : Number
  items : List NoticeListItem

/-- A text or `null`. -/
def asNullable : Option Js → Option (Option String)
  | some .null => some none
  | some (.str s) => some (some s)
  | _ => none

/-- The fields that the feed and the diff page check of a notice. -/
def asNotice (it : Js) : Option NoticeListItem := do
  guard it.isObject
  let id ← Js.asString (it.get "id")
  let source ← asNoticeSource (it.get "source")
  let externalId ← Js.asString (it.get "externalId")
  let url ← Js.asString (it.get "url")
  let title ← Js.asString (it.get "title")
  let updatedAt ← Js.asString (it.get "updatedAt")
  let publishedAt ← asNullable (it.get "publishedAt")
  pure ⟨id, source, externalId, url, title, publishedAt, updatedAt⟩

def asListResponse (value : Js) : Option NoticeListResponse := do
  guard value.isObject
  let page ← Js.asNumber (value.get "page")
  let pageSize ← Js.asNumber (value.get "pageSize")
  let total ← Js.asNumber (value.get "total")
  match value.get "items" with
  | some (.arr items) => do
      let parsed ← items.mapM asNotice
      pure ⟨page, pageSize, total, parsed⟩
  | _ => none

/-! ### The page -/

structure Feed where
  source : Option NoticeSource
  q : String
  page : Number
  data : Option NoticeListResponse
  error : Option String
  loading : Bool

def Feed.request (f : Feed) : Js :=
  .obj ([("page", .num f.page), ("pageSize", .num 20)] ++
    (f.source.map fun s => ("source", Js.str s.text)).toList ++
    (if Text.trim f.q = "" then [] else [("q", .str (Text.trim f.q))]))

def Feed.totalPages (f : Feed) : Number :=
  match f.data with
  | some data => Number.atLeast 1 (Number.ceil (Number.div data.total data.pageSize))
  | none => 1

/-- The message of a handler's error, as it arrives in a window. -/
def remoteError (channel message : String) : String :=
  "Error invoking remote method '" ++ channel ++ "': Error: " ++ message

/-- `then`, `catch` and `finally` of the effect. -/
def Feed.answer (f : Feed) : Except String Js → Feed
  | .ok raw =>
      match asListResponse raw with
      | some parsed => { f with data := some parsed, loading := false }
      | none => { f with error := some "unexpected_response", data := none, loading := false }
  | .error e =>
      { f with error := some (remoteError "notices:list" e), data := none, loading := false }

/-- A call in flight, with the answer once the main process has handled it. -/
structure FeedCall where
  request : Js
  answer : Option (Except String Js)

/-- The page, its calls in the order they were sent, and the database. -/
structure FeedWindow where
  feed : Feed
  calls : List FeedCall
  conn : Conn

/-- The effect runs when the request has changed. -/
def FeedWindow.change (s : FeedWindow) (feed : Feed) : FeedWindow :=
  if feed.source = s.feed.source ∧ feed.q = s.feed.q ∧ feed.page = s.feed.page then
    { s with feed }
  else
    { s with
      feed := { feed with loading := true, error := none }
      calls := s.calls ++ [⟨feed.request, none⟩] }

def FeedWindow.opened (conn : Conn) : FeedWindow :=
  let feed : Feed := ⟨none, "", 1, none, none, true⟩
  ⟨feed, [⟨feed.request, none⟩], conn⟩

inductive FeedEvent where
  | selectSource (source : Option NoticeSource)
  | search (qInput : String)
  | prev
  | next
  | served (i : ℕ)
  | answered

def answerTo (conn : Conn) (request : Js) : Except String Js :=
  (noticesList (some request) conn).1.map NoticesPage.toJs

/-- The main process answers a call once. -/
def FeedCall.served (conn : Conn) (call : FeedCall) : FeedCall :=
  { call with answer := call.answer.or (some (answerTo conn call.request)) }

/-- The buttons `Prev` and `Next` are disabled. -/
def Feed.atStart (f : Feed) : Bool := Number.le f.page 1 || f.loading

def Feed.atEnd (f : Feed) : Bool := Number.le f.totalPages f.page || f.loading

def FeedEvent.run (s : FeedWindow) : FeedEvent → FeedWindow
  | .selectSource source => s.change { s.feed with source, page := 1 }
  | .search qInput => s.change { s.feed with q := qInput, page := 1 }
  | .prev =>
      if s.feed.atStart then s
      else s.change { s.feed with page := Number.atLeast 1 (Number.sub s.feed.page 1) }
  | .next =>
      if s.feed.atEnd then s
      else s.change
        { s.feed with page := Number.atMost s.feed.totalPages (Number.add s.feed.page 1) }
  | .served i =>
      { s with
        calls := s.calls.modify i (FeedCall.served s.conn)
        conn := (s.calls[i]?).elim s.conn fun call => (noticesList (some call.request) s.conn).2 }
  | .answered =>
      match s.calls with
      | ⟨_, some answer⟩ :: calls => { s with feed := s.feed.answer answer, calls }
      | _ => s

/-- The runs of the page while the notices are `rows`; other handlers may change
other tables. -/
inductive FeedRun (rows : List NoticeItem) : FeedWindow → Prop where
  | opened {conn : Conn} : conn.db .noticeItem = rows → FeedRun rows (.opened conn)
  | event {s : FeedWindow} (e : FeedEvent) : FeedRun rows s → FeedRun rows (e.run s)
  | other {s : FeedWindow} {conn : Conn} : FeedRun rows s → conn.db .noticeItem = rows →
      FeedRun rows { s with conn }

/-! ### One answer -/

/-- Reading a list of values that were written. -/
theorem mapM_map_self {α β : Type} {f : β → Option α} {g : α → β} (h : ∀ a, f (g a) = some a)
    (l : List α) : (l.map g).mapM f = some l := by
  induction l with
  | nil => rfl
  | cons a l ih =>
      rw [List.map_cons, List.mapM_cons, h, ih]
      rfl

theorem asNotice_toJs (i : NoticeListItem) : asNotice i.toJs = some i := by
  obtain ⟨id, source, externalId, url, title, publishedAt, updatedAt⟩ := i
  cases source <;> cases publishedAt <;> rfl

/-- The page reads the answer as it was given. -/
theorem asListResponse_toJs (p : NoticesPage) :
    asListResponse p.toJs = some ⟨p.page, p.pageSize, .ofInt p.total, p.items⟩ := by
  show (do
    let parsed ← (p.items.map NoticeListItem.toJs).mapM asNotice
    pure (⟨p.page, p.pageSize, .ofInt p.total, parsed⟩ : NoticeListResponse)) = _
  rw [mapM_map_self asNotice_toJs]
  rfl

/-- What the handler reads from a request. -/
theorem noticesList_request (f : Feed) :
    noticesList (some f.request) = listNotices ⟨f.source, trimmed (some f.q), f.page, 20⟩ := by
  obtain ⟨source, q, page, data, error, loading⟩ := f
  by_cases hq : Text.trim q = ""
  · have hnone : trimmed (some q) = none := by
      rw [trimmed, Option.map_some, hq]
      rfl
    cases source with
    | none =>
        rw [hnone, Feed.request, if_pos hq]
        rfl
    | some source =>
        rw [hnone, Feed.request, if_pos hq]
        cases source <;> rfl
  · rw [trimmed_some_of_ne hq, Feed.request, if_neg hq]
    have hsome : nonEmpty (some (Text.trim q)) = some (Text.trim q) := nonEmpty_some hq
    cases source with
    | none =>
        show listNotices ⟨_, nonEmpty (some (Text.trim q)), _, _⟩ = _
        rw [hsome]
        rfl
    | some source =>
        cases source
        all_goals
          show listNotices ⟨_, nonEmpty (some (Text.trim q)), _, _⟩ = _
          rw [hsome]
          rfl

/-- What is read of a stored notice. -/
def readNotice (r : NoticeItem) : NoticeListItem := asNoticeListItem (schema.read .noticeItem r)

/-- The notices of a source, as the feed orders them. -/
def noticesOf (source : Option NoticeSource) (rows : List NoticeItem) : List NoticeListItem :=
  (orderBy newestNotice (rows.filter (hasSource source))).map readNotice

section

variable {conn : Conn} {rows : List NoticeItem} {f : Feed} {n : ℤ}

theorem noticeMatches_none (source : Option NoticeSource) (r : NoticeItem) :
    noticeMatches source none r = .ok (hasSource source r) := by
  rw [noticeMatches]
  cases hasSource source r <;> rfl

theorem pageSize_eq : Number.atLeast 1 (Number.atMost 50 20) = 20 := by decide

theorem twenty_eq : (20 : Number) = .ofInt 20 := congrArg Number.fin (by norm_num)

theorem one_eq : (1 : Number) = .ofInt 1 := congrArg Number.fin (by norm_num)

/-- The handler only reads. -/
theorem noticesList_snd (input : Option Js) (c : Conn) : (noticesList input c).2 = c :=
  reads_listNotices _ c

/-- Without a text, a page of the notices is listed. -/
theorem listNotices_plain (source : Option NoticeSource) (h₀ : 1 ≤ n) (h₁ : n ≤ 2 ^ 41) :
    listNotices ⟨source, none, .ofInt n, 20⟩ conn =
      (.ok
        { page := .ofInt n
          pageSize := 20
          total := (noticesOf source (conn.db .noticeItem)).length
          items := slice 20 ((n - 1) * 20) (noticesOf source (conn.db .noticeItem)) }, conn) := by
  -- the page is small enough for its offset to be exact
  have hoffset : Number.mul (Number.sub (.ofInt n) 1) 20 = .ofInt ((n - 1) * 20) := by
    have h1 : |n - 1| ≤ 2 ^ 53 := by
      rw [abs_le]
      omega
    have h2 : |(n - 1) * 20| ≤ 2 ^ 53 := by
      rw [abs_le]
      omega
    rw [one_eq, Number.sub_ofInt h1, twenty_eq, Number.mul_ofInt h2]
  have hpage : Number.atLeast 1 (.ofInt n) = .ofInt n := by
    rw [clampPage_number, clampPage, max_eq_right h₀]
  have hlimit : mustBeInt 20 = .ok 20 := by
    rw [twenty_eq]
    exact mustBeInt_ofInt (by norm_num) (by norm_num)
  have hrows : filterRows (noticeMatches source none) (conn.db .noticeItem) =
      .ok ((conn.db .noticeItem).filter (hasSource source)) :=
    filterRows_ok fun r _ => noticeMatches_none source r
  have hcount : schema.countWhere .noticeItem (noticeMatches source none) conn =
      (.ok ((conn.db .noticeItem).filter (hasSource source)).length, conn) := by
    rw [Schema.countWhere, hrows]
    rfl
  have hselect : schema.selectWhere .noticeItem (noticeMatches source none) newestNotice 20
      ((n - 1) * 20) conn = (.ok ((slice 20 ((n - 1) * 20) (orderBy newestNotice
        ((conn.db .noticeItem).filter (hasSource source)))).map (schema.read .noticeItem)), conn) := by
    rw [Schema.selectWhere, hrows]
    rfl
  unfold listNotices
  dsimp only
  rw [hpage, pageSize_eq, hoffset, hlimit, mustBeInt_ofInt (by omega) (by omega),
    bind_of_ok hcount, bind_of_ok (ofExcept_apply _ conn), bind_of_ok (ofExcept_apply _ conn),
    bind_of_ok hselect]
  show (Except.ok (⟨_, _, _, (List.map _ _).map _⟩ : NoticesPage), conn) = _
  have hlength := (orderBy_perm newestNotice
    ((conn.db .noticeItem).filter (hasSource source))).length_eq
  rw [noticesOf, List.length_map, slice, slice, List.map_map, List.map_take, List.map_drop, hlength]
  rfl

theorem length_filterRows_le {ρ : Type} {p : ρ → Except String Bool} {l kept : List ρ}
    (h : filterRows p l = .ok kept) : kept.length ≤ l.length := by
  induction l generalizing kept with
  | nil =>
      cases h
      exact le_rfl
  | cons r l ih =>
      rw [filterRows] at h
      split at h
      · rename_i b kept' _ hrest
        have hle := ih hrest
        cases h
        split
        · exact Nat.succ_le_succ hle
        · exact hle.trans (Nat.le_succ _)
      · cases h
      · cases h

/-- A page that is listed says how many of the rows there are. -/
theorem listNotices_ok {source : Option NoticeSource} {q : Option String} {page : Number}
    {p : NoticesPage} (h : (listNotices ⟨source, q, page, 20⟩ conn).1 = .ok p) :
    p.pageSize = 20 ∧ p.total ≤ (conn.db .noticeItem).length := by
  have hcount : schema.countWhere .noticeItem (noticeMatches source q) conn =
      ((filterRows (noticeMatches source q) (conn.db .noticeItem)).map List.length, conn) := rfl
  have hlimit : mustBeInt 20 = .ok 20 := by
    rw [twenty_eq]
    exact mustBeInt_ofInt (by norm_num) (by norm_num)
  unfold listNotices at h
  dsimp only at h
  rw [pageSize_eq, hlimit] at h
  cases hrows : filterRows (noticeMatches source q) (conn.db .noticeItem) with
  | error e =>
      rw [hrows] at hcount
      rw [bind_of_error hcount] at h
      cases h
  -- the offset may still be too large for the statement
  | ok counted =>
      rw [hrows] at hcount
      rw [bind_of_ok hcount, bind_of_ok (ofExcept_apply _ conn)] at h
      cases hoffset : mustBeInt (Number.mul (Number.sub (Number.atLeast 1 page) 1) 20) with
      | error e =>
          rw [hoffset, bind_of_error (ofExcept_apply _ conn)] at h
          cases h
      | ok offset =>
          have hselect : schema.selectWhere .noticeItem (noticeMatches source q) newestNotice 20
              offset conn = (.ok ((slice 20 offset (orderBy newestNotice counted)).map
                (schema.read .noticeItem)), conn) := by
            rw [Schema.selectWhere, hrows]
            rfl
          rw [hoffset, bind_of_ok (ofExcept_apply _ conn), bind_of_ok hselect] at h
          cases h
          exact ⟨rfl, length_filterRows_le hrows⟩

/-- What the page keeps of an answer. -/
def dataOf : Except String Js → Option NoticeListResponse
  | .ok raw => asListResponse raw
  | .error _ => none

theorem data_answer (f : Feed) (a : Except String Js) : (f.answer a).data = dataOf a := by
  cases a with
  | error e => rfl
  | ok raw =>
      rw [Feed.answer, dataOf]
      cases asListResponse raw <;> rfl

/-- Without a text, the answer is the page of the notices. -/
theorem dataOf_plain (hq : Text.trim f.q = "") (hpage : f.page = .ofInt n) (h₀ : 1 ≤ n)
    (h₁ : n ≤ 2 ^ 41) : dataOf (answerTo conn f.request) =
      some ⟨.ofInt n, 20, .ofInt (noticesOf f.source (conn.db .noticeItem)).length,
        slice 20 ((n - 1) * 20) (noticesOf f.source (conn.db .noticeItem))⟩ := by
  have hnone : trimmed (some f.q) = none := by
    rw [trimmed, Option.map_some, hq]
    rfl
  rw [answerTo, noticesList_request, hnone, hpage, listNotices_plain f.source h₀ h₁]
  exact asListResponse_toJs _

/-- Any answer that is read has twenty rows to a page, and a total. -/
theorem dataOf_some {d : NoticeListResponse} (h : dataOf (answerTo conn f.request) = some d) :
    d.pageSize = 20 ∧ ∃ total : ℕ, d.total = .ofInt total ∧ total ≤ (conn.db .noticeItem).length := by
  rw [answerTo, noticesList_request] at h
  cases hp : (listNotices ⟨f.source, trimmed (some f.q), f.page, 20⟩ conn).1 with
  | error e =>
      rw [hp] at h
      cases h
  | ok p =>
      obtain ⟨hsize, htotal⟩ := listNotices_ok hp
      have hread : asListResponse p.toJs = some d := by
        rw [hp] at h
        exact h
      rw [asListResponse_toJs] at hread
      cases hread
      exact ⟨hsize, p.total, rfl, htotal⟩

end

/-! ### Every run -/

/-- The page number is a whole one that doubles hold exactly. -/
def Feed.PageIn (f : Feed) : Prop := ∃ n : ℤ, f.page = .ofInt n ∧ 1 ≤ n ∧ n ≤ 2 ^ 41

/-- What holds of the page and its calls: they ask for what the page names, the
last one for what it names now, and what is shown is the last answer. -/
structure Current (rows : List NoticeItem) (s : FeedWindow) : Prop where
  table : s.conn.db .noticeItem = rows
  page : s.feed.PageIn
  asked : ∀ call ∈ s.calls, ∃ f : Feed, call.request = f.request
  answers : ∀ call ∈ s.calls, ∀ a, call.answer = some a →
    ∃ conn : Conn, conn.db .noticeItem = rows ∧ a = answerTo conn call.request
  data : ∀ d, s.feed.data = some d →
    d.pageSize = 20 ∧ ∃ total : ℕ, d.total = .ofInt total ∧ total ≤ rows.length
  last : ∀ call, s.calls.getLast? = some call → call.request = s.feed.request
  idle : s.calls = [] → s.feed.loading = false ∧ ∃ conn : Conn, conn.db .noticeItem = rows ∧
    s.feed.data = dataOf (answerTo conn s.feed.request)

/-- So many pages hold the rows; an empty list has one page, too. -/
def pageCount (total : ℕ) : ℕ := max 1 ((total + 19) / 20)

section

variable {rows : List NoticeItem} {s : FeedWindow} {feed : Feed} {n : ℤ}

theorem ceil_twenty (total : ℕ) : ⌈((total : ℤ) : ℚ) / (20 : ℤ)⌉ = ((total + 19) / 20 : ℕ) := by
  have hlow : 20 * ((total + 19) / 20) < total + 20 := by omega
  have hhigh : total ≤ 20 * ((total + 19) / 20) := by omega
  generalize (total + 19) / 20 = k at hlow hhigh
  have hlow' : (20 : ℚ) * k < total + 20 := by exact_mod_cast hlow
  have hhigh' : (total : ℚ) ≤ 20 * k := by exact_mod_cast hhigh
  apply Int.ceil_eq_iff.mpr
  push_cast
  constructor
  · rw [lt_div_iff₀ (by norm_num)]
    linarith
  · rw [div_le_iff₀ (by norm_num)]
    linarith

/-- The number of pages is computed exactly. -/
theorem totalPages_eq {d : NoticeListResponse} {total : ℕ} (hdata : feed.data = some d)
    (hsize : d.pageSize = 20) (htotal : d.total = .ofInt total) (hlt : total < 2 ^ 41) :
    feed.totalPages = .ofInt (pageCount total) := by
  have hquotient : Number.ceil (Number.div (.ofInt total) (.ofInt 20)) =
      .ofInt ⌈((total : ℤ) : ℚ) / (20 : ℤ)⌉ :=
    Number.ceil_div (by omega) (by exact_mod_cast hlt) (by norm_num) (by norm_num)
  rw [Feed.totalPages, hdata]
  show Number.atLeast 1 (Number.ceil (Number.div d.total d.pageSize)) = _
  rw [htotal, hsize, twenty_eq, hquotient, one_eq, Number.atLeast_ofInt, ceil_twenty,
    pageCount, Nat.cast_max]
  rfl

/-- The page never shows fewer than one page, nor more than doubles can count. -/
theorem Current.totalPages (h : Current rows s) (hrows : rows.length < 2 ^ 41) :
    ∃ k : ℤ, s.feed.totalPages = .ofInt k ∧ 1 ≤ k ∧ k ≤ 2 ^ 41 := by
  cases hdata : s.feed.data with
  | none =>
      refine ⟨1, ?_, le_rfl, by norm_num⟩
      rw [Feed.totalPages, hdata]
      exact one_eq
  | some d =>
      obtain ⟨hsize, total, htotal, hle⟩ := h.data d hdata
      refine ⟨pageCount total, totalPages_eq hdata hsize htotal (hle.trans_lt hrows), ?_, ?_⟩
      · rw [pageCount]
        omega
      · rw [pageCount]
        omega

/-- The user changes what the page names. -/
theorem Current.change (h : Current rows s) (hpage : feed.PageIn)
    (hdata : feed.data = s.feed.data) (hloading : feed.loading = s.feed.loading) :
    Current rows (s.change feed) := by
  rw [FeedWindow.change]
  split
  · rename_i hsame
    have hrequest : feed.request = s.feed.request := by
      rw [Feed.request, Feed.request, hsame.1, hsame.2.1, hsame.2.2]
    -- what names the list is the same: no effect runs and no call is sent
    refine { h with page := hpage, data := ?_, last := ?_, idle := ?_ }
    · intro d hd
      exact h.data d (hdata ▸ hd)
    · intro call hcall
      exact (h.last call hcall).trans hrequest.symm
    · intro hcalls
      obtain ⟨hidle, conn, hconn, hshown⟩ := h.idle hcalls
      refine ⟨hloading.trans hidle, conn, hconn, ?_⟩
      rw [hrequest]
      exact hdata.trans hshown
  -- a new call, which is the last one and asks for what is named now
  · constructor
    · exact h.table
    · exact hpage
    · intro call hcall
      rcases List.mem_append.mp hcall with hold | hnew
      · exact h.asked call hold
      · obtain rfl := List.mem_singleton.mp hnew
        exact ⟨feed, rfl⟩
    · intro call hcall a ha
      rcases List.mem_append.mp hcall with hold | hnew
      · exact h.answers call hold a ha
      · obtain rfl := List.mem_singleton.mp hnew
        cases ha
    · intro d hd
      exact h.data d (hdata ▸ hd)
    · intro call hcall
      rw [List.getLast?_concat] at hcall
      cases hcall
      rfl
    · intro hcalls
      simp at hcalls

theorem mem_modify {α : Type} {g : α → α} {l : List α} {i : ℕ} {a : α} (h : a ∈ l.modify i g) :
    a ∈ l ∨ ∃ b ∈ l, a = g b := by
  obtain ⟨j, hj⟩ := List.mem_iff_getElem?.mp h
  rw [List.getElem?_modify] at hj
  obtain ⟨b, hb, rfl⟩ := Option.map_eq_some_iff.mp hj
  have hmem : b ∈ l := List.mem_of_getElem? hb
  by_cases hij : i = j
  · right
    exact ⟨b, hmem, by simp [hij]⟩
  · left
    simpa [hij] using hmem

theorem map_modify {α β : Type} {f : α → β} {g : α → α} (h : ∀ a, f (g a) = f a) (l : List α)
    (i : ℕ) : (l.modify i g).map f = l.map f := by
  apply List.ext_getElem?
  intro j
  rw [List.getElem?_map, List.getElem?_map, List.getElem?_modify, Option.map_eq_map,
    Option.map_map]
  congr 1
  funext a
  by_cases hij : i = j
  · simp [hij, h]
  · simp [hij]

/-- The main process handles a call. -/
theorem Current.served (h : Current rows s) (i : ℕ) :
    Current rows (FeedEvent.run s (.served i)) := by
  -- the handler only reads, so the tables stay
  have hconn : ((s.calls[i]?).elim s.conn fun call => (noticesList (some call.request) s.conn).2) =
      s.conn := by
    cases s.calls[i]? with
    | none => rfl
    | some call => exact noticesList_snd _ _
  rw [FeedEvent.run, hconn]
  refine { h with asked := ?_, answers := ?_, last := ?_, idle := ?_ }
  · intro call hcall
    rcases mem_modify hcall with hold | ⟨old, hold, rfl⟩
    · exact h.asked call hold
    · exact h.asked old hold
  · intro call hcall a ha
    rcases mem_modify hcall with hold | ⟨old, hold, rfl⟩
    · exact h.answers call hold a ha
    · cases hanswer : old.answer with
      | none =>
          rw [FeedCall.served, hanswer] at ha
          exact ⟨s.conn, h.table, (Option.some.inj ha).symm⟩
      | some b =>
          rw [FeedCall.served, hanswer] at ha
          exact h.answers old hold a (hanswer.trans ha)
  · intro call hcall
    -- to be served does not change what a call asks for
    have hlast := congrArg (Option.map FeedCall.request) hcall
    have hrequests := map_modify (f := FeedCall.request) (g := FeedCall.served s.conn)
      (fun _ => rfl) s.calls i
    rw [← List.getLast?_map, hrequests, List.getLast?_map] at hlast
    obtain ⟨old, hold, hrequest⟩ := Option.map_eq_some_iff.mp hlast
    rw [← hrequest]
    exact h.last old hold
  · intro hcalls
    exact h.idle (by simpa using hcalls)

theorem loading_answer (f : Feed) (a : Except String Js) : (f.answer a).loading = false := by
  cases a with
  | error e => rfl
  | ok raw =>
      rw [Feed.answer]
      cases asListResponse raw <;> rfl

theorem named_answer (f : Feed) (a : Except String Js) :
    (f.answer a).page = f.page ∧ (f.answer a).source = f.source ∧ (f.answer a).q = f.q := by
  cases a with
  | error e => exact ⟨rfl, rfl, rfl⟩
  | ok raw =>
      rw [Feed.answer]
      cases asListResponse raw <;> exact ⟨rfl, rfl, rfl⟩

theorem request_answer (f : Feed) (a : Except String Js) : (f.answer a).request = f.request := by
  obtain ⟨hpage, hsource, hq⟩ := named_answer f a
  rw [Feed.request, Feed.request, hpage, hsource, hq]

/-- The oldest call is answered. -/
theorem Current.answered (h : Current rows s) : Current rows (FeedEvent.run s .answered) := by
  rw [FeedEvent.run]
  split
  · rename_i request answer calls hcalls
    have hhead : FeedCall.mk request (some answer) ∈ s.calls := by
      rw [hcalls]
      exact List.mem_cons_self
    have htail : ∀ call ∈ calls, call ∈ s.calls := by
      intro call hcall
      rw [hcalls]
      exact List.mem_cons_of_mem _ hcall
    obtain ⟨conn, hconn, hanswer⟩ := h.answers _ hhead answer rfl
    constructor
    · exact h.table
    · obtain ⟨n, hn⟩ := h.page
      exact ⟨n, (named_answer s.feed answer).1.trans hn.1, hn.2⟩
    · exact fun call hcall => h.asked call (htail call hcall)
    · exact fun call hcall => h.answers call (htail call hcall)
    · intro d hd
      obtain ⟨f, hf⟩ := h.asked _ hhead
      rw [data_answer, hanswer, hf] at hd
      rw [← hconn]
      exact dataOf_some hd
    · intro call hcall
      rw [request_answer]
      apply h.last call
      have htail : calls.getLast? = some call := hcall
      rw [hcalls, List.getLast?_cons, htail]
      rfl
    -- no call is left: the one answered was the last, and asked for what is named
    · intro hnil
      refine ⟨loading_answer _ _, conn, hconn, ?_⟩
      have hlast : request = s.feed.request := by
        have hempty : calls = [] := hnil
        apply h.last ⟨request, some answer⟩
        rw [hcalls, hempty]
        rfl
      rw [data_answer, request_answer, hanswer, hlast]
  · exact h

theorem Current.event (h : Current rows s) (hrows : rows.length < 2 ^ 41) (e : FeedEvent) :
    Current rows (e.run s) := by
  obtain ⟨n, hn, hn₀, hn₁⟩ := h.page
  have hsmall : ∀ k : ℤ, 0 ≤ k → k ≤ 2 ^ 42 → |k| ≤ 2 ^ 53 := by
    intro k hk hk'
    rw [abs_le]
    omega
  cases e with
  | selectSource source => exact h.change ⟨1, one_eq, le_rfl, by norm_num⟩ rfl rfl
  | search qInput => exact h.change ⟨1, one_eq, le_rfl, by norm_num⟩ rfl rfl
  | prev =>
      rw [FeedEvent.run]
      split
      · exact h
      · refine h.change ?_ rfl rfl
        -- the page number stays a whole one in range, so the clamps are exact
        refine ⟨max 1 (n - 1), ?_, by omega, by omega⟩
        show Number.atLeast 1 (Number.sub s.feed.page 1) = _
        rw [hn, one_eq, Number.sub_ofInt (hsmall _ (by omega) (by omega)), Number.atLeast_ofInt]
  | next =>
      rw [FeedEvent.run]
      split
      · exact h
      · obtain ⟨k, hk, hk₀, hk₁⟩ := h.totalPages hrows
        refine h.change ?_ rfl rfl
        refine ⟨min k (n + 1), ?_, by omega, by omega⟩
        show Number.atMost s.feed.totalPages (Number.add s.feed.page 1) = _
        rw [hn, hk, one_eq, Number.add_ofInt (hsmall _ (by omega) (by omega)), Number.atMost_ofInt]
  | served i => exact h.served i
  | answered => exact h.answered

/-- In every run the page is current. -/
theorem current_of_run (h : FeedRun rows s) (hrows : rows.length < 2 ^ 41) : Current rows s := by
  induction h with
  | opened hconn =>
      constructor
      · exact hconn
      · exact ⟨1, one_eq, le_rfl, by norm_num⟩
      · intro call hcall
        obtain rfl := List.mem_singleton.mp hcall
        exact ⟨_, rfl⟩
      · intro call hcall a ha
        obtain rfl := List.mem_singleton.mp hcall
        cases ha
      · intro d hd
        cases hd
      · intro call hcall
        cases hcall
        rfl
      · intro hcalls
        cases hcalls
  | event e _ ih => exact ih.event hrows e
  | other _ hconn ih => exact { ih with table := hconn }

/-- Whenever nothing is in flight and the filter has no text, the page shows
the rows that its source and its page number name. -/
theorem shows_of_run (h : FeedRun rows s) (hrows : rows.length < 2 ^ 41) (hcalls : s.calls = [])
    (hq : Text.trim s.feed.q = "") : ∃ n : ℤ, 1 ≤ n ∧ s.feed.page = .ofInt n ∧
      s.feed.loading = false ∧ s.feed.data =
        some ⟨.ofInt n, 20, .ofInt (noticesOf s.feed.source rows).length,
          slice 20 ((n - 1) * 20) (noticesOf s.feed.source rows)⟩ := by
  have hcurrent := current_of_run h hrows
  obtain ⟨n, hn, hn₀, hn₁⟩ := hcurrent.page
  obtain ⟨hloading, conn, hconn, hdata⟩ := hcurrent.idle hcalls
  refine ⟨n, hn₀, hn, hloading, ?_⟩
  rw [hdata, dataOf_plain hq hn hn₀ hn₁, hconn]

end

/-! ### Turning the pages -/

/-- The user presses `Next` and waits for the answer. -/
def FeedWindow.turn (s : FeedWindow) : FeedWindow :=
  [FeedEvent.next, .served 0, .answered].foldl FeedEvent.run s

/-- The rows that the page lists. -/
def Feed.items (f : Feed) : List NoticeListItem := (f.data.map (·.items)).getD []

/-- The routes that the links of the page lead to. -/
def Feed.links (f : Feed) : List Route :=
  f.items.map fun i => parseRoute (locationHash (diffHref i.id))

section

variable {rows : List NoticeItem} {s : FeedWindow} {source : Option NoticeSource} {n : ℕ}

/-- Nothing is in flight, and the page names the rows of `source` from page
`n + 1`. -/
structure Resting (rows : List NoticeItem) (source : Option NoticeSource) (n : ℕ)
    (s : FeedWindow) : Prop where
  run : FeedRun rows s
  calls : s.calls = []
  source : s.feed.source = source
  q : Text.trim s.feed.q = ""
  page : s.feed.page = .ofInt (n + 1)

theorem Resting.data (h : Resting rows source n s) (hrows : rows.length < 2 ^ 41) :
    s.feed.loading = false ∧ s.feed.data =
      some ⟨.ofInt (n + 1), 20, .ofInt (noticesOf source rows).length,
        slice 20 (n * 20) (noticesOf source rows)⟩ := by
  obtain ⟨k, -, hpage, hloading, hdata⟩ := shows_of_run h.run hrows h.calls h.q
  have hk : k = n + 1 := by
    have heq : Number.ofInt k = .ofInt (n + 1) := hpage.symm.trans h.page
    exact_mod_cast Number.fin.inj heq
  refine ⟨hloading, ?_⟩
  rw [hdata, h.source, hk, add_sub_cancel_right]

theorem length_noticesOf_le (source : Option NoticeSource) (rows : List NoticeItem) :
    (noticesOf source rows).length ≤ rows.length := by
  rw [noticesOf, List.length_map, (orderBy_perm _ _).length_eq]
  exact List.length_filter_le _ _

/-- `Next` is disabled on the last page. -/
theorem Resting.atEnd (h : Resting rows source n s) (hrows : rows.length < 2 ^ 41) :
    s.feed.atEnd = decide (pageCount (noticesOf source rows).length ≤ n + 1) := by
  obtain ⟨hloading, hdata⟩ := h.data hrows
  have htotal : s.feed.totalPages = .ofInt (pageCount (noticesOf source rows).length) :=
    totalPages_eq hdata rfl rfl ((length_noticesOf_le source rows).trans_lt hrows)
  rw [Feed.atEnd, htotal, h.page, hloading, Bool.or_false, Bool.eq_iff_iff, decide_eq_true_iff,
    Number.ofInt, Number.ofInt, Number.le_fin_iff]
  norm_cast

/-- Turning the page shows the next rows. -/
theorem Resting.turn (h : Resting rows source n s) (hrows : rows.length < 2 ^ 41)
    (hn : n + 1 < pageCount (noticesOf source rows).length) :
    Resting rows source (n + 1) s.turn := by
  obtain ⟨hloading, hdata⟩ := h.data hrows
  have hend : s.feed.atEnd = false := by
    rw [h.atEnd hrows]
    exact decide_eq_false (by omega)
  have htotal : s.feed.totalPages = .ofInt (pageCount (noticesOf source rows).length) :=
    totalPages_eq hdata rfl rfl ((length_noticesOf_le source rows).trans_lt hrows)
  have hbound : pageCount (noticesOf source rows).length < 2 ^ 42 := by
    have hle := length_noticesOf_le source rows
    rw [pageCount]
    omega
  have hnext : Number.atMost s.feed.totalPages (Number.add s.feed.page 1) =
      .ofInt ((n + 1 : ℕ) + 1) := by
    have hsmall : |(n : ℤ) + 1 + 1| ≤ 2 ^ 53 := by
      rw [abs_le]
      omega
    rw [htotal, h.page, one_eq, Number.add_ofInt hsmall, Number.atMost_ofInt]
    congr 1
    omega
  have hchanged : Number.ofInt ((n + 1 : ℕ) + 1) ≠ s.feed.page := by
    rw [h.page]
    intro heq
    have hcast : ((n + 1 : ℕ) : ℤ) + 1 = n + 1 := by exact_mod_cast Number.fin.inj heq
    omega
  -- the call that the click sends is the only one in flight
  let feed : Feed :=
    { s.feed with page := .ofInt ((n + 1 : ℕ) + 1), loading := true, error := none }
  have hclick : FeedEvent.run s .next = { s with feed, calls := [⟨feed.request, none⟩] } := by
    rw [FeedEvent.run, if_neg (by simp [hend]), hnext, FeedWindow.change,
      if_neg fun hsame => hchanged hsame.2.2, h.calls]
    rfl
  have hturn : s.turn = { s with feed := feed.answer (answerTo s.conn feed.request) } := by
    show ([FeedEvent.served 0, .answered].foldl FeedEvent.run (FeedEvent.run s .next)) = _
    rw [hclick]
    have hconn : (noticesList (some feed.request) s.conn).2 = s.conn := noticesList_snd _ _
    show FeedWindow.mk _ [] (noticesList (some feed.request) s.conn).2 = _
    rw [hconn, h.calls]
    rfl
  obtain ⟨hpage, hsource, hq⟩ := named_answer feed (answerTo s.conn feed.request)
  constructor
  · exact .event .answered (.event (.served 0) (.event .next h.run))
  · rw [hturn]
    exact h.calls
  · rw [hturn]
    exact hsource.trans h.source
  · rw [hturn]
    show Text.trim (feed.answer _).q = ""
    rw [hq]
    exact h.q
  · rw [hturn]
    exact hpage

theorem resting_turns (h : Resting rows source 0 s) (hrows : rows.length < 2 ^ 41) {k : ℕ}
    (hk : k < pageCount (noticesOf source rows).length) :
    Resting rows source k (FeedWindow.turn^[k] s) := by
  induction k with
  | zero => exact h
  | succ k ih =>
      rw [Function.iterate_succ_apply']
      exact (ih (by omega)).turn hrows (by omega)

/-- The pages together are the list. -/
theorem flatMap_slices {α : Type} (l : List α) (k : ℕ) :
    ((List.range k).flatMap fun i : ℕ => slice 20 ((i : ℤ) * 20) l) = l.take (20 * k) := by
  induction k with
  | zero => simp
  | succ k ih =>
      have hoffset : ((k : ℤ) * 20).toNat = 20 * k := by omega
      rw [List.range_succ, List.flatMap_append, ih, List.flatMap_singleton, slice, hoffset,
        Nat.mul_succ, List.take_add]
      rfl

/-- Turning the pages lists every row, and the links lead to their diffs. -/
theorem Resting.walk (h : Resting rows source 0 s) (hrows : rows.length < 2 ^ 41)
    (hids : ∀ r ∈ rows, (readNotice r).id ≠ "") :
    ((List.range (pageCount (noticesOf source rows).length)).flatMap fun k =>
        (FeedWindow.turn^[k] s).feed.links) =
      (noticesOf source rows).map fun i => Route.noticesDiff i.id := by
  have hitems : ∀ k ∈ List.range (pageCount (noticesOf source rows).length),
      (FeedWindow.turn^[k] s).feed.items = slice 20 ((k : ℤ) * 20) (noticesOf source rows) := by
    intro k hk
    obtain ⟨-, hdata⟩ := (resting_turns h hrows (List.mem_range.mp hk)).data hrows
    rw [Feed.items, hdata]
    rfl
  -- as many pages as there are take the whole list
  have hall : (noticesOf source rows).take
      (20 * pageCount (noticesOf source rows).length) = noticesOf source rows := by
    apply List.take_of_length_le
    rw [pageCount]
    omega
  have hlink : ∀ i ∈ noticesOf source rows,
      parseRoute (locationHash (diffHref i.id)) = .noticesDiff i.id := by
    intro i hi
    obtain ⟨r, hr, rfl⟩ := List.mem_map.mp hi
    have hmem : r ∈ rows.filter (hasSource source) := (orderBy_perm _ _).mem_iff.mp hr
    exact parseRoute_diffHref (hids r (List.mem_of_mem_filter hmem))
  calc ((List.range (pageCount (noticesOf source rows).length)).flatMap fun k =>
        (FeedWindow.turn^[k] s).feed.links)
      = ((List.range (pageCount (noticesOf source rows).length)).flatMap fun k : ℕ =>
          slice 20 ((k : ℤ) * 20) (noticesOf source rows)).map
            fun i => parseRoute (locationHash (diffHref i.id)) := by
        rw [List.map_flatMap]
        apply List.flatMap_congr
        intro k hk
        rw [Feed.links, hitems k hk]
    _ = (noticesOf source rows).map fun i => parseRoute (locationHash (diffHref i.id)) := by
        rw [flatMap_slices, hall]
    _ = (noticesOf source rows).map fun i => Route.noticesDiff i.id := List.map_congr_left hlink

end

/-! ### What the feed shows -/

section

variable {rows : List NoticeItem} {s : FeedWindow} {conn : Conn} {f : Feed}

/-- With a text nothing is listed, if there is a notice to test. -/
theorem dataOf_text (hq : Text.trim f.q ≠ "") {r : NoticeItem} (hr : r ∈ conn.db .noticeItem)
    (hsource : hasSource f.source r = true) : dataOf (answerTo conn f.request) = none := by
  have htrim : Text.trim (Text.trim f.q) ≠ "" := by
    rw [Text.trim_trim]
    exact hq
  obtain ⟨e, he⟩ := filterRows_error hr (noticeMatches_error htrim hsource)
  have hcount : schema.countWhere .noticeItem
      (noticeMatches f.source (some (Text.trim f.q))) conn = (.error e, conn) := by
    rw [Schema.countWhere, he]
    rfl
  rw [answerTo, noticesList_request, trimmed_some_of_ne hq, listNotices]
  dsimp only
  rw [bind_of_error hcount]
  rfl

/-- **Whenever nothing is in flight, the feed shows what it names**, in whatever
order the filter was changed, the pages were turned, and the calls were handled:
without a text these are twenty rows of its source, from its page on, their
total, and the right buttons, also for a page after the last one; with one it is
nothing, if there is a notice of the source. -/
theorem feed_of_run (h : FeedRun rows s) (hrows : rows.length < 2 ^ 41) (hcalls : s.calls = []) :
    (Text.trim s.feed.q = "" → ∃ n : ℕ, s.feed.page = .ofInt (n + 1) ∧ s.feed.data =
        some ⟨.ofInt (n + 1), 20, .ofInt (noticesOf s.feed.source rows).length,
          slice 20 (n * 20) (noticesOf s.feed.source rows)⟩ ∧
        s.feed.atStart = decide (n = 0) ∧
        s.feed.atEnd = decide (pageCount (noticesOf s.feed.source rows).length ≤ n + 1)) ∧
      (Text.trim s.feed.q ≠ "" → (∃ r ∈ rows, hasSource s.feed.source r = true) →
        s.feed.data = none) := by
  constructor
  · intro hq
    obtain ⟨n, hn, hpage, -⟩ := shows_of_run h hrows hcalls hq
    -- pages count from one
    obtain ⟨k, rfl⟩ : ∃ k : ℕ, n = k + 1 := ⟨(n - 1).toNat, by omega⟩
    have hresting : Resting rows s.feed.source k s := ⟨h, hcalls, rfl, hq, hpage⟩
    obtain ⟨hloading, hdata⟩ := hresting.data hrows
    refine ⟨k, hpage, hdata, ?_, hresting.atEnd hrows⟩
    rw [Feed.atStart, hpage, hloading, Bool.or_false, one_eq, Bool.eq_iff_iff,
      decide_eq_true_iff, Number.ofInt, Number.ofInt, Number.le_fin_iff]
    norm_cast
    omega
  · rintro hq ⟨r, hr, hsource⟩
    obtain ⟨-, conn, hconn, hdata⟩ := (current_of_run h hrows).idle hcalls
    rw [hdata]
    exact dataOf_text hq (hconn ▸ hr) hsource

/-- **Turning the pages reaches every notice once**: from the first page the
button `Next` leads through all pages and is disabled on the last one, and the
links on them lead to the diffs of the notices of the source, in their order. -/
theorem feed_walk (h : FeedRun rows s) (hrows : rows.length < 2 ^ 41) (hcalls : s.calls = [])
    (hq : Text.trim s.feed.q = "") (hpage : s.feed.page = 1)
    (hids : ∀ r ∈ rows, (readNotice r).id ≠ "") :
    ((List.range (pageCount (noticesOf s.feed.source rows).length)).flatMap fun k =>
        (FeedWindow.turn^[k] s).feed.links) =
        (noticesOf s.feed.source rows).map (fun i => Route.noticesDiff i.id) ∧
      ∀ k < pageCount (noticesOf s.feed.source rows).length, (FeedWindow.turn^[k] s).calls = [] ∧
        (FeedWindow.turn^[k] s).feed.atEnd =
          decide (pageCount (noticesOf s.feed.source rows).length ≤ k + 1) := by
  have hresting : Resting rows s.feed.source 0 s := ⟨h, hcalls, rfl, hq, hpage.trans one_eq⟩
  refine ⟨hresting.walk hrows hids, ?_⟩
  intro k hk
  have hturned := resting_turns hresting hrows hk
  exact ⟨hturned.calls, hturned.atEnd hrows⟩

end

/-! ### A feed of two pages -/

/-- Twenty-one notices, and an update. -/
def manyNotices : List NoticeItem :=
  (List.range 22).map fun k =>
    ⟨(nthDraw k 0).id, if k = 21 then .update else .notice, (nthDraw k 0).id, "", "", none, "", ""⟩

def manyStored : Conn :=
  { opened none 0 with db := (opened none 0).db.set .noticeItem manyNotices }

/-- The feed is opened, and then used. -/
def afterFeed (events : List FeedEvent) : FeedWindow :=
  events.foldl FeedEvent.run (.opened manyStored)

theorem feedRun_afterFeed (events : List FeedEvent) : FeedRun manyNotices (afterFeed events) := by
  have hrun : ∀ s, FeedRun manyNotices s → FeedRun manyNotices (events.foldl FeedEvent.run s) := by
    induction events with
    | nil => exact fun s hs => hs
    | cons e events ih => exact fun s hs => ih _ (hs.event e)
  have hrows : manyStored.db .noticeItem = manyNotices :=
    Db.set_self (opened none 0).db .noticeItem manyNotices
  exact hrun _ (.opened hrows)

/-- While the second page is on its way, the updates are selected; the answer
about all notices arrives first, and with its number of pages the user turns to
a page that the updates do not have. -/
def turnedAway : List FeedEvent :=
  [.served 0, .answered, .next, .selectSource (some .update), .served 1, .served 0, .answered, .next,
    .served 1, .answered, .answered]

/-- Then a text is searched. -/
def searched : List FeedEvent := turnedAway ++ [.search "boots", .served 0, .answered]

theorem feed_of_run_turnedAway :
    (afterFeed turnedAway).feed.source = some .update ∧ (afterFeed turnedAway).feed.page = .ofInt 2 ∧
      (afterFeed turnedAway).feed.data = some ⟨.ofInt 2, 20, .ofInt 1, []⟩ ∧
      (afterFeed turnedAway).feed.atStart = false ∧ (afterFeed turnedAway).feed.atEnd = true ∧
      (afterFeed searched).feed.data = none := by
  have hsource : (afterFeed turnedAway).feed.source = some .update := by decide +kernel
  have hpage : (afterFeed turnedAway).feed.page = .ofInt 2 := by decide +kernel
  obtain ⟨n, hn, hdata, hstart, hend⟩ := (feed_of_run (feedRun_afterFeed turnedAway)
    (by decide +kernel) (by decide +kernel)).1 (by decide +kernel)
  have hone : n = 1 := by
    have heq : ((n : ℤ) + 1 : ℤ) = 2 := by exact_mod_cast Number.fin.inj (hn.symm.trans hpage)
    omega
  subst hone
  have hlength : (noticesOf (some .update) manyNotices).length = 1 := by decide +kernel
  have hslice : slice 20 (1 * 20) (noticesOf (some .update) manyNotices) = [] := by decide +kernel
  rw [hsource, hlength] at hdata hend
  have hsearched := (feed_of_run (feedRun_afterFeed searched) (by decide +kernel)
    (by decide +kernel)).2 (by decide +kernel) ⟨⟨(nthDraw 21 0).id, .update, (nthDraw 21 0).id, "",
      "", none, "", ""⟩, by decide +kernel, by decide +kernel⟩
  refine ⟨hsource, hpage, ?_, hstart, hend, hsearched⟩
  rw [hdata]
  show some (NoticeListResponse.mk _ _ _ (slice 20 (1 * 20) _)) = _
  rw [hslice]
  rfl

/-- The first page of the notices, and the second one. -/
theorem feed_walk_many :
    let s := afterFeed [.served 0, .answered]
    s.feed.links ++ s.turn.feed.links = manyNotices.map (fun r => Route.noticesDiff r.id) ∧
      s.feed.atEnd = false ∧ s.turn.feed.atEnd = true := by
  intro s
  have hcount : pageCount (noticesOf s.feed.source manyNotices).length = 2 := by decide +kernel
  have hids : ∀ r ∈ manyNotices, (readNotice r).id ≠ "" := by decide +kernel
  obtain ⟨hlinks, hturns⟩ := feed_walk (feedRun_afterFeed [.served 0, .answered])
    (by decide +kernel) (by decide +kernel) (by decide +kernel) (by decide +kernel) hids
  have hlist : (noticesOf s.feed.source manyNotices).map (fun i => Route.noticesDiff i.id) =
      manyNotices.map fun r => Route.noticesDiff r.id := by
    decide +kernel
  change ((List.range (pageCount (noticesOf s.feed.source manyNotices).length)).flatMap fun k =>
    (FeedWindow.turn^[k] s).feed.links) = _ at hlinks
  rw [hcount] at hlinks
  have hfirst := (hturns 0 (hcount ▸ Nat.zero_lt_two)).2
  have hsecond := (hturns 1 (hcount ▸ Nat.one_lt_two)).2
  change s.feed.atEnd = decide (pageCount (noticesOf s.feed.source manyNotices).length ≤ 1) at hfirst
  change s.turn.feed.atEnd = decide (pageCount (noticesOf s.feed.source manyNotices).length ≤ 2)
    at hsecond
  rw [hcount] at hfirst hsecond
  refine ⟨?_, hfirst, hsecond⟩
  rw [← hlist, ← List.append_nil s.turn.feed.links]
  exact hlinks

end Renderer

end Hub
