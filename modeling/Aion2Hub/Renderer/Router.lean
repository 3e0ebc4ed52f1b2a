/-
Aion2Hub/Renderer/Router.lean

The routes of the desktop app, and the links of the feed.

A page is chosen by the fragment of the address.  The feed links to the diff of
a notice with the notice's id in the query, and the page gets that id back,
whatever characters it has (`parseRoute_diffHref`).
-/
import Aion2Hub.Lib.Percent
import Aion2Hub.Storage.Characters

namespace Hub

namespace Renderer

open Percent

inductive OverlayTab where
  | planner
  | loot
  deriving DecidableEq

inductive Route where
  | dashboard
  | noticesFeed
  | noticesDiff (id : String)
  | plannerToday
  | plannerTemplates
  | plannerStats
  | buildScore
  | lootLogbook
  | economy
  | linksOfficial
  | characters
  | settingsModules
  | settingsBackup
  | settingsSafety
  | overlay (tab : OverlayTab)
  deriving DecidableEq

/-- `hash.startsWith("#") ? hash.slice(1) : hash`. -/
def withoutHash : List Char → List Char
  | '#' :: l => l
  | l => l

def parseRoute (hash : String) : Route :=
  let parts := (withoutHash hash.toList).splitOn '?'
  let pathPart := String.ofList (parts.headD [])
  let path := if pathPart = "" then "/" else pathPart
  let params := parseFields (String.ofList ((parts.drop 1).headD []))
  if path = "/overlay" then
    .overlay (if params.lookup "tab" = some "loot" then .loot else .planner)
  else if path = "/m/notices/diff" then
    match nonEmpty (params.lookup "id") with
    | some id => .noticesDiff id
    | none => .noticesFeed
  else
    match path with
    | "/m/notices/feed" => .noticesFeed
    | "/m/build/score" => .buildScore
    | "/m/loot/logbook" => .lootLogbook
    | "/m/economy" => .economy
    | "/m/planner/today" => .plannerToday
    | "/m/planner/templates" => .plannerTemplates
    | "/m/planner/stats" => .plannerStats
    | "/m/links/official" => .linksOfficial
    | "/characters" => .characters
    | "/settings/modules" => .settingsModules
    | "/settings/backup" => .settingsBackup
    | "/settings/safety" => .settingsSafety
    | _ => .dashboard

/-- The link of a row of the feed, up to the id. -/
def diffAddress : String := "#/m/notices/diff?id="

def diffHref (id : String) : String := diffAddress ++ component id

/-- The code points that a browser escapes in a fragment. -/
def escapedInFragment (n : ℕ) : Bool := n < 0x20 || 0x7E < n || [32, 34, 60, 62, 96].contains n

/-- `window.location.hash` after following a link that starts with `#`. -/
def locationHash (href : String) : String :=
  String.ofList (href.toList.flatMap fun c =>
    if escapedInFragment c.toNat then escapeChar c else [c])

/-! ### Following a link -/

def diffPath : String := "/m/notices/diff"

def idField (id : String) : String := "id" ++ "=" ++ component id

theorem toList_idField (id : String) :
    (idField id).toList = ['i', 'd', '='] ++ (component id).toList :=
  String.toList_append

theorem toList_diffHref (id : String) :
    (diffHref id).toList = '#' :: (diffPath.toList ++ '?' :: (idField id).toList) := by
  have hhref : (diffHref id).toList = diffAddress.toList ++ (component id).toList :=
    String.toList_append
  have haddress : diffAddress.toList = '#' :: (diffPath.toList ++ ['?', 'i', 'd', '=']) := by
    decide +kernel
  rw [hhref, haddress, toList_idField, List.cons_append, List.append_assoc]
  rfl

/-- The browser leaves the link as it is. -/
theorem locationHash_diffHref (id : String) : locationHash (diffHref id) = diffHref id := by
  -- everything in the link is plain or a percent sign
  have hkept : ∀ c ∈ (diffHref id).toList, escapedInFragment c.toNat = false := by
    have hhref : (diffHref id).toList = diffAddress.toList ++ (component id).toList :=
      String.toList_append
    intro c hc
    rw [hhref] at hc
    rcases List.mem_append.mp hc with hc | hc
    · have hall : diffAddress.toList.all (fun c => !escapedInFragment c.toNat) = true := by
        decide +kernel
      simpa using List.all_eq_true.mp hall c hc
    · have hplain := (plain_of_mem_component hc).toNat
      simp only [escapedInFragment, List.contains_eq_mem, List.mem_cons, List.not_mem_nil, or_false,
        Bool.or_eq_false_iff, decide_eq_false_iff_not]
      omega
  have hsame : (diffHref id).toList.flatMap (fun c =>
      if escapedInFragment c.toNat then escapeChar c else [c]) = (diffHref id).toList := by
    generalize (diffHref id).toList = l at hkept
    induction l with
    | nil => rfl
    | cons c l ih =>
        obtain ⟨hc, hl⟩ := List.forall_mem_cons.mp hkept
        rw [List.flatMap_cons, ih hl, hc]
        rfl
  rw [locationHash, hsame, String.ofList_toList]

/-- The link of a notice leads to the diff of that notice. -/
theorem parseRoute_diffHref {id : String} (h : id ≠ "") :
    parseRoute (locationHash (diffHref id)) = .noticesDiff id := by
  have hquery : '?' ∉ (idField id).toList := by
    rw [toList_idField]
    intro hc
    rcases List.mem_append.mp hc with hc | hc
    · exact absurd hc (by decide)
    · have hplain := (plain_of_mem_component hc).toNat
      revert hplain
      decide +kernel
  have hpath : '?' ∉ diffPath.toList := by decide +kernel
  -- the only question mark is the one before the field
  have hparts : (withoutHash (diffHref id).toList).splitOn '?' =
      [diffPath.toList, (idField id).toList] := by
    rw [toList_diffHref, withoutHash, List.splitOn_append_cons_self,
      List.splitOn_eq_singleton hpath, List.splitOn_eq_singleton hquery]
    rfl
  have hfields : parseFields (idField id) = [("id", id)] :=
    parseFields_component (by decide +kernel) id
  rw [locationHash_diffHref, parseRoute, hparts]
  simp only [List.headD_cons, List.drop_one, List.tail_cons, String.ofList_toList, hfields]
  have hsome : (if diffPath = "" then "/" else diffPath) = "/m/notices/diff" := by decide
  rw [hsome, if_neg (by decide), if_pos rfl]
  simp [nonEmpty_some h]

end Renderer

end Hub
