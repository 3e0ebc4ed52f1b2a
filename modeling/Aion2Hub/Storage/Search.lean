/-
Aion2Hub/Storage/Search.lean

The text search of notices and items.

Both queries mean `LIKE … ESCAPE '\'`, but in the TypeScript literals the
backslash is escaped once too often: SQLite gets an escape expression of two
characters and rejects it on the first row that it tests.  So a search for a
text only succeeds where there is nothing to search (`searchLiteral_iff`).
-/
import Aion2Hub.Storage.Db
import Aion2Hub.Storage.Reading

namespace Hub

open Sql Exec

/-! ### What a search should find -/

/-- The notices of the source whose title contains the text. -/
def noticesWith (source : Option NoticeSource) (q : String) (db : Db Row) : List NoticeItem :=
  (db .noticeItem).filter fun r => hasSource source r && decide (ContainsText (Text.trim q) r.title)

def itemsWith (q : String) (db : Db Row) : List EconomyItem :=
  (db .economyItem).filter fun r => decide (ContainsText (Text.trim q) r.name)

/-- The page and its size, as `listNotices` limits them. -/
def clampPage (page : ℤ) : ℤ := max 1 page

def clampPageSize (pageSize : ℤ) : ℤ := max 1 (min 50 pageSize)

/-- A page of the notices with the text: all of them are counted, and listed in
the documented order, this page's share from row `(page - 1) * pageSize` on. -/
def NoticesLiteral (c : Conn) (source : Option NoticeSource) (q : String) (page pageSize : ℤ) :
    Prop :=
  listNotices ⟨source, some q, .ofInt page, .ofInt pageSize⟩ c =
    (.ok
      { page := .ofInt (clampPage page)
        pageSize := .ofInt (clampPageSize pageSize)
        total := (noticesWith source q c.db).length
        items := (slice (clampPageSize pageSize)
          ((clampPage page - 1) * clampPageSize pageSize)
          (orderBy newestNotice (noticesWith source q c.db))).map fun r =>
            asNoticeListItem (schema.read .noticeItem r) }, c)

/-- The limit, as `listEconomyItems` sets it. -/
def clampLimit : Option ℤ → ℤ
  | none => 100
  | some limit => max 1 (min 500 limit)

/-- The first items with the text, by name. -/
def ItemsLiteral (c : Conn) (q : String) (limit : Option ℤ) : Prop :=
  listEconomyItems (some q) (limit.map .ofInt) c =
    (.ok ((slice (clampLimit limit) 0 (orderBy (asc (·.name) anyOrder) (itemsWith q c.db))).map
      (schema.read .economyItem)), c)

/-- The offset of the page is a 64-bit integer. -/
def OffsetFits (page pageSize : ℤ) : Prop :=
  ∃ n, mustBeInt (Number.mul (Number.sub (.ofInt (clampPage page)) 1)
    (.ofInt (clampPageSize pageSize))) = .ok n

/-! ### Where a search succeeds -/

variable {c : Conn} {source : Option NoticeSource} {q : String}

theorem trimmed_some_of_ne (hq : Text.trim q ≠ "") : trimmed (some q) = some (Text.trim q) := by
  rw [trimmed, Option.map_some]
  exact Option.filter_some_pos (by simpa using hq)

/-- A notice of the source is enough to make the search fail. -/
theorem noticeMatches_error (hq : Text.trim q ≠ "") {r : NoticeItem}
    (hr : hasSource source r = true) :
    noticeMatches source (some q) r = .error "ESCAPE expression must be a single character" := by
  rw [noticeMatches, if_pos hr, trimmed_some_of_ne hq]
  exact like_error (by decide) _ _

/-- Other notices are not tested. -/
theorem noticeMatches_other {r : NoticeItem} (hr : hasSource source r = false) :
    noticeMatches source (some q) r = .ok false := by
  rw [noticeMatches, hr]
  rfl

theorem itemMatches_error (hq : Text.trim q ≠ "") (r : EconomyItem) :
    itemMatches (some q) r = .error "ESCAPE expression must be a single character" := by
  rw [itemMatches, trimmed_some_of_ne hq]
  exact like_error (by decide) _ _

theorem clampPage_number (page : ℤ) :
    Number.atLeast 1 (.ofInt page) = .ofInt (clampPage page) := by
  have hone : (1 : Number) = .ofInt 1 := congrArg Number.fin (by norm_num)
  rw [hone, Number.atLeast_ofInt]
  rfl

theorem clampPageSize_number (pageSize : ℤ) :
    Number.atLeast 1 (Number.atMost 50 (.ofInt pageSize)) = .ofInt (clampPageSize pageSize) := by
  have hmost : (50 : Number) = .ofInt 50 := congrArg Number.fin (by norm_num)
  rw [hmost, Number.atMost_ofInt, clampPage_number]
  rfl

theorem mustBeInt_clampPageSize (pageSize : ℤ) :
    mustBeInt (.ofInt (clampPageSize pageSize)) = .ok (clampPageSize pageSize) := by
  have hrange : 1 ≤ clampPageSize pageSize ∧ clampPageSize pageSize ≤ 50 := by
    unfold clampPageSize
    omega
  exact mustBeInt_ofInt (by omega) (by omega)

theorem mustBeInt_clampLimit (limit : Option ℤ) :
    mustBeInt (listLimit (limit.map .ofInt)) = .ok (clampLimit limit) := by
  have hnumber : listLimit (limit.map .ofInt) = .ofInt (clampLimit limit) := by
    cases limit with
    | none => exact congrArg Number.fin (by norm_num [clampLimit])
    | some n =>
        have hmost : (500 : Number) = .ofInt 500 := congrArg Number.fin (by norm_num)
        show Number.atLeast 1 (Number.atMost 500 (.ofInt n)) = _
        rw [hmost, Number.atMost_ofInt, clampPage_number]
        rfl
  have hrange : 1 ≤ clampLimit limit ∧ clampLimit limit ≤ 500 := by
    cases limit with
    | none => exact ⟨by decide, by decide⟩
    | some n =>
        show 1 ≤ max 1 (min 500 n) ∧ max 1 (min 500 n) ≤ 500
        omega
  rw [hnumber]
  exact mustBeInt_ofInt (by omega) (by omega)

/-- The search, once the page and its size are limited. -/
theorem listNotices_eq (page pageSize : ℤ) :
    listNotices ⟨source, some q, .ofInt page, .ofInt pageSize⟩ c = ((do
      let counted ← filterRows (noticeMatches source (some q)) (c.db .noticeItem)
      let offset ← mustBeInt (Number.mul (Number.sub (.ofInt (clampPage page)) 1)
        (.ofInt (clampPageSize pageSize)))
      pure
        { page := .ofInt (clampPage page)
          pageSize := .ofInt (clampPageSize pageSize)
          total := counted.length
          items := (slice (clampPageSize pageSize) offset (orderBy newestNotice counted)).map
            fun r => asNoticeListItem (schema.read .noticeItem r) } : Except String NoticesPage), c) := by
  unfold listNotices
  dsimp only
  rw [clampPage_number, clampPageSize_number, mustBeInt_clampPageSize]
  have hcount : schema.countWhere .noticeItem (noticeMatches source (some q)) c =
      ((filterRows (noticeMatches source (some q)) (c.db .noticeItem)).map List.length, c) := rfl
  rcases hrows : filterRows (noticeMatches source (some q)) (c.db .noticeItem) with e | rows
  · rw [hrows] at hcount
    rw [bind_of_error hcount]
    rfl
  · rw [hrows] at hcount
    rw [bind_of_ok hcount, bind_of_ok (ofExcept_apply _ c)]
    rcases hoffset : mustBeInt (Number.mul (Number.sub (.ofInt (clampPage page)) 1)
      (.ofInt (clampPageSize pageSize))) with e | offset
    · rfl
    · have hselect : schema.selectWhere .noticeItem (noticeMatches source (some q)) newestNotice
          (clampPageSize pageSize) offset c = (.ok ((slice (clampPageSize pageSize) offset
            (orderBy newestNotice rows)).map (schema.read .noticeItem)), c) := by
        rw [Schema.selectWhere, hrows]
        rfl
      rw [bind_of_ok (ofExcept_apply _ c), bind_of_ok hselect]
      show (Except.ok (⟨_, _, _, (List.map _ _).map _⟩ : NoticesPage), c) = _
      rw [List.map_map]
      rfl

/-- **A search for a notice succeeds only where there is nothing to search**,
and the offset is an integer. -/
theorem noticesLiteral_iff (hq : Text.trim q ≠ "") (page pageSize : ℤ) :
    NoticesLiteral c source q page pageSize ↔
      (∀ r ∈ c.db .noticeItem, hasSource source r = false) ∧ OffsetFits page pageSize := by
  unfold NoticesLiteral
  rw [listNotices_eq]
  constructor
  · intro h
    have hnone : ∀ r ∈ c.db .noticeItem, hasSource source r = false := by
      intro r hr
      by_contra hsource
      obtain ⟨e, he⟩ := filterRows_error hr (noticeMatches_error hq (by simpa using hsource))
      rw [he] at h
      cases h
    refine ⟨hnone, ?_⟩
    rw [filterRows_ok fun r hr => noticeMatches_other (hnone r hr)] at h
    unfold OffsetFits
    cases hoffset : mustBeInt (Number.mul (Number.sub (.ofInt (clampPage page)) 1)
      (.ofInt (clampPageSize pageSize))) with
    | error e =>
        rw [hoffset] at h
        cases h
    | ok n => exact ⟨n, rfl⟩
  · rintro ⟨hnone, n, hoffset⟩
    have hempty : noticesWith source q c.db = [] :=
      List.filter_eq_nil_iff.mpr fun r hr => by simp [hnone r hr]
    have hnil : (c.db .noticeItem).filter (fun _ => false) = [] := by simp
    rw [filterRows_ok fun r hr => noticeMatches_other (hnone r hr), hoffset, hempty, hnil]
    show (Except.ok (⟨_, _, 0, (slice _ _ []).map _⟩ : NoticesPage), c) = _
    simp [slice, orderBy]

/-- **A search for an item succeeds only where there is none.** -/
theorem itemsLiteral_iff (hq : Text.trim q ≠ "") (limit : Option ℤ) :
    ItemsLiteral c q limit ↔ c.db .economyItem = [] := by
  unfold ItemsLiteral
  rw [listEconomyItems, mustBeInt_clampLimit, bind_of_ok (ofExcept_apply _ c), Schema.selectWhere]
  cases hrows : c.db .economyItem with
  | nil =>
      have hempty : itemsWith q c.db = [] := by rw [itemsWith, hrows, List.filter_nil]
      rw [hempty]
      simp [filterRows, slice, orderBy, Except.map]
  | cons r rows =>
      have hr : r ∈ c.db .economyItem := by
        rw [hrows]
        exact List.mem_cons_self
      obtain ⟨e, he⟩ := filterRows_error hr (itemMatches_error hq r)
      rw [← hrows, he]
      simp [Except.map, hrows]

/-- **The two searches find the text literally exactly where they have no row
to test.** -/
theorem searchLiteral_iff (hq : Text.trim q ≠ "") (page pageSize : ℤ) (limit : Option ℤ) :
    (NoticesLiteral c source q page pageSize ↔
        (∀ r ∈ c.db .noticeItem, hasSource source r = false) ∧ OffsetFits page pageSize) ∧
      (ItemsLiteral c q limit ↔ c.db .economyItem = []) :=
  ⟨noticesLiteral_iff hq page pageSize, itemsLiteral_iff hq limit⟩

/-- One notice and one item, both about boots. -/
def bootsStored : Conn :=
  (upsertEconomyItemByName "boots" none none ⟨"i1", 0, by decide, by decide⟩
    (upsertNoticeItem ⟨.notice, "7", "", "New boots", none, none⟩ ⟨"n1", 0, by decide, by decide⟩
      (opened none 0)).2).2

/-- Among the updates, of which there are none, the search finds nothing, as it
should; the item it does not find. -/
theorem searchLiteral_boots :
    NoticesLiteral bootsStored (some .update) "boots" 1 20 ∧
      ¬ ItemsLiteral bootsStored "boots" none := by
  obtain ⟨hnotices, hitems⟩ : (NoticesLiteral bootsStored (some .update) "boots" 1 20 ↔ _) ∧
      (ItemsLiteral bootsStored "boots" none ↔ _) := searchLiteral_iff (by decide) 1 20 none
  refine ⟨hnotices.mpr ⟨by decide +kernel, 0, by decide +kernel⟩, fun h => ?_⟩
  have hlength : (bootsStored.db .economyItem).length = 1 := rfl
  rw [hitems.mp h] at hlength
  cases hlength

/-- **Searching for the boots fails, with any source that has a notice.** -/
theorem not_searchLiteral :
    listNotices ⟨none, some "boots", .ofInt 1, .ofInt 20⟩ bootsStored =
        (.error "ESCAPE expression must be a single character", bootsStored) ∧
      ¬ NoticesLiteral bootsStored none "boots" 1 20 ∧ ¬ ItemsLiteral bootsStored "boots" none := by
  have hnotices : listNotices ⟨none, some "boots", .ofInt 1, .ofInt 20⟩ bootsStored =
      (.error "ESCAPE expression must be a single character", bootsStored) := rfl
  have hitems : listEconomyItems (some "boots") none bootsStored =
      (.error "ESCAPE expression must be a single character", bootsStored) := rfl
  refine ⟨hnotices, fun h => ?_, fun h => ?_⟩
  · rw [NoticesLiteral, hnotices] at h
    cases h
  · have hfails := hitems.symm.trans h
    cases hfails

end Hub
