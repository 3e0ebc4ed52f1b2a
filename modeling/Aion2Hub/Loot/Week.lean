/-
Aion2Hub/Loot/Week.lean

The weeks of the loot report and of the planner.

The planner looks its settings up by the character's server, the report by the
server it is asked for; both fall back to the default settings, and both
compute the beginning of the week in the same way.  So the weeks are the same
whenever both find the same settings.  They need not when the report is asked
for no server in particular, and a reset time that has been set to nothing
counts for the planner, but not for the report.  A report also has no answer for
a server of blanks, nor where a query would need a variable too many.
-/
import Aion2Hub.Loot.Report
import Aion2Hub.Planner.Period

namespace Hub

open Sql Exec Date

/-! ### The same settings -/

section

variable {host : Host} {db : Db Row} {server : Option String}

theorem trimmed_eq_normalizeServerName (server : Option String) :
    trimmed server = normalizeServerName server := by
  cases server with
  | none => rfl
  | some s =>
      show (some (Text.trim s)).filter (· ≠ "") = if Text.trim s = "" then none else some (Text.trim s)
      by_cases h : Text.trim s = ""
      · rw [if_pos h, Option.filter_some_neg (by simpa using h)]
      · rw [if_neg h]
        exact nonEmpty_some h

/-- The settings that apply on a server besides the default ones. -/
def ownSettings (db : Db Row) (server : Option String) : Option PlannerSettingsRow :=
  (normalizeServerName server).bind (serverSettings db)

/-- A request that is answered with the settings of the character's server:
it names the server, whose reset time is not empty, or it names none and the
server has no settings. -/
def NamesSettings (db : Db Row) (server requested : Option String) : Prop :=
  (requested = server ∧ ∀ row, ownSettings db server = some row → row.dailyResetHhmm ≠ "") ∨
    (requested = none ∧ ownSettings db server = none)

theorem parseHhmm_empty : parseHhmm "" = parseHhmm "09:00" := by decide

/-- The default reset is the one that the planner uses. -/
theorem defaultResets_eq (row : Option PlannerSettingsRow) :
    parseHhmm (defaultResets row).1 = parseHhmm (row.elim ("09:00", 1) fun r =>
        (asPlannerSettings r).resets).1 ∧
      (defaultResets row).2 = (row.elim ("09:00", 1) fun r => (asPlannerSettings r).resets).2 := by
  cases row with
  | none => exact ⟨rfl, rfl⟩
  | some r =>
      refine ⟨?_, rfl⟩
      show parseHhmm ((nonEmpty (some r.dailyResetHhmm)).getD "09:00") = parseHhmm r.dailyResetHhmm
      by_cases h : r.dailyResetHhmm = ""
      · rw [h]
        exact parseHhmm_empty.symm
      · rw [nonEmpty_some h]
        rfl

theorem effectiveResets_eq (db : Db Row) (server : Option String) : effectiveResets db server =
    ((ownSettings db server).or (settingsRow db "default")).elim ("09:00", 1) fun r =>
      (asPlannerSettings r).resets := by
  unfold effectiveResets ownSettings serverSettings settingsRow
  cases normalizeServerName server with
  | none =>
      cases (db .plannerSettings).find? fun r => r.id == "default" <;> rfl
  | some name =>
      dsimp only [Option.bind_some]
      cases (db .plannerSettings).find? fun r => r.id == plannerSettingsIdForServer name with
      | some r => rfl
      | none => cases (db .plannerSettings).find? fun r => r.id == "default" <;> rfl

/-- The planner and the report find one reset time and one reset day. -/
theorem reportResets_eq {requested : Option String} (h : NamesSettings db server requested) :
    parseHhmm (reportResets db (trimmed requested)).1 = parseHhmm (effectiveResets db server).1 ∧
      (reportResets db (trimmed requested)).2 = (effectiveResets db server).2 := by
  have hreport : reportResets db (trimmed requested) =
      ((ownSettings db requested).filter (·.dailyResetHhmm ≠ "")).elim
        (defaultResets (settingsRow db "default"))
        fun row => (row.dailyResetHhmm, row.weeklyResetDay) := by
    rw [trimmed_eq_normalizeServerName, reportResets]
    show _ = (((normalizeServerName requested).bind (serverSettings db)).filter
      (·.dailyResetHhmm ≠ "")).elim _ _
    cases ((normalizeServerName requested).bind (serverSettings db)).filter
      (·.dailyResetHhmm ≠ "") <;> rfl
  rw [effectiveResets_eq, hreport]
  rcases h with ⟨rfl, hrow⟩ | ⟨rfl, hnone⟩
  · cases hown : ownSettings db requested with
    | none =>
        rw [Option.none_or]
        exact defaultResets_eq _
    | some row =>
        have hfilter : (some row).filter (·.dailyResetHhmm ≠ "") = some row :=
          Option.filter_some_pos (decide_eq_true (hrow row hown))
        rw [hfilter]
        exact ⟨rfl, rfl⟩
  · rw [hnone, Option.none_or]
    exact defaultResets_eq _

/-- The week of a report on the instant `t`: its date is that of the key, and
it has begun less than seven days before `t`. -/
structure SameWeek {α : Type} (host : Host) (t : ℤ) (weeklyKey : String)
    (report : LootWeeklyReport α) : Prop where
  key : "W:" ++ formatLocalDateKey host.zone (host.parseDate report.weekStartIso) = weeklyKey
  debug : ∀ d, report.debug = some d → d.periodKey = weeklyKey
  begun : ∃ start, host.parseDate report.weekStartIso = some start ∧ start ≤ t ∧
    t < start + 7 * msPerDay

/-- A run of the character has been recorded for what is read as a server of
blanks. -/
def BlankServer (db : Db Row) (characterId : String) : Prop :=
  ∃ run ∈ db .lootRun, run.characterId = characterId ∧
    ∃ name, (schema.read .lootRun run).server = some name ∧ name ≠ "" ∧ Text.trim name = ""

/-- The items whose prices a report of the runs looks up. -/
def lookedUp (runs : List LootRun) (db : Db Row) : List String :=
  unique ((pricedItems (dropRows runs db) (costRows runs db)).filter (· ≠ ""))

/-- A query on these runs binds a variable too many: one for each run, or one for
each item and one for the server. -/
def TooMany (db : Db Row) (runs : List LootRun) : Prop :=
  maxVariables < runs.length ∨ maxVariables < (lookedUp runs db).length + 1

/-- The week up to the instant `t` holds too many of the character's runs. -/
def CrowdedWeek (db : Db Row) (characterId : String) (t : ℤ) : Prop :=
  ∃ start, start ≤ t ∧ t < start + 7 * msPerDay ∧
    TooMany db (weekRuns characterId (isoString start) (stamp t) db)

/-- Why there are no prices. -/
theorem latestPrices_error {characterId startIso endIso e : String} {requested : Option String}
    (h : latestPrices db (priceServer (trimmed requested) (weekRuns characterId startIso endIso db))
      (pricedItems (dropRows (weekRuns characterId startIso endIso db) db)
        (costRows (weekRuns characterId startIso endIso db) db)) = .error e) :
    (e = "bad_request" ∧ BlankServer db characterId) ∨
      (e = "too many SQL variables" ∧ TooMany db (weekRuns characterId startIso endIso db)) := by
  unfold latestPrices at h
  cases hserver : priceServer (trimmed requested) (weekRuns characterId startIso endIso db) with
  | none =>
      rw [hserver] at h
      cases h
  | some name =>
      rw [hserver] at h
      cases hname : trimmed (some name) with
      | some s =>
          simp only [hname] at h
          split at h
          · cases h
          · split at h
            · cases h
            · rename_i hmany
              cases h
              exact .inr ⟨rfl, .inr (Nat.lt_of_not_le hmany)⟩
      | none =>
          simp only [hname] at h
          cases h
          refine .inl ⟨rfl, ?_⟩
          have hblank : Text.trim name = "" := by
            by_contra hne
            cases (nonEmpty_some hne).symm.trans hname
          cases hrequested : trimmed requested with
          | some s =>
              -- the request's server has been trimmed, and is not empty
              rw [hrequested] at hserver
              obtain rfl := Option.some.inj hserver
              obtain ⟨htrim, hne⟩ := trimmed_of_eq_some hrequested
              exact absurd (htrim.symm.trans hblank) hne
          | none =>
              rw [hrequested] at hserver
              obtain ⟨run, hrun, hname'⟩ := List.exists_of_findSome?_eq_some hserver
              obtain ⟨stored, hstored, rfl⟩ := List.mem_map.mp hrun
              obtain ⟨hsome, hne⟩ := Option.filter_eq_some_iff.mp hname'
              obtain ⟨hdb, hwhere⟩ := List.mem_filter.mp ((orderBy_perm _ _).mem_iff.mp hstored)
              exact ⟨stored, hdb, beq_iff_eq.mp (Bool.and_eq_true_iff.mp hwhere).1, name, hsome,
                of_decide_eq_true hne, hblank⟩

variable {c : Conn} {input : LootReportInput} {nowIso : Option String} {now now' t o day : ℤ}
  {r : AppCharacter} {overview : PlannerOverview} {α : Type} [Arithmetic α]

variable (α) in
/-- **A report that is answered with the settings of the character's server is
about the planner's week**, in a zone with a fixed offset. -/
theorem sameWeek_report (hzone : host.zone = .fixed o)
    (hr : (c.db .appCharacter).find? (fun q => q.id == input.characterId) = some r)
    (htime : reportTime host input now = t) (htime' : resolveDate host nowIso now' = t)
    (hin : Inside 7 1 t) (hnames : NamesSettings c.db (characterOf r).server input.server)
    (hday : (effectiveResets c.db (characterOf r).server).2 = Number.ofInt day)
    (ho : (getPlannerOverview host input.characterId nowIso now' c).1 = .ok overview) :
    (∃ report, (getLootWeeklyReport α host input now c).1 = .ok report ∧
        SameWeek host t overview.weeklyKey report) ∨
      ((getLootWeeklyReport α host input now c).1 = .error "bad_request" ∧
        (input.characterId = "" ∨ BlankServer c.db input.characterId)) ∨
      ((getLootWeeklyReport α host input now c).1 = .error "too many SQL variables" ∧
        CrowdedWeek c.db input.characterId t) := by
  rcases eq_or_ne input.characterId "" with hid | hid
  · refine .inr (.inl ⟨?_, .inl hid⟩)
    rw [getLootWeeklyReport, hid]
    rfl
  obtain ⟨hhmm, hday'⟩ := reportResets_eq hnames
  let cycle := weeklyCycle o (parseHhmm (effectiveResets c.db (characterOf r).server).1)
    (resetDay day)
  have hweek : ∀ hhmm', parseHhmm hhmm' =
      parseHhmm (effectiveResets c.db (characterOf r).server).1 →
        weeklyPeriodStart host.zone t hhmm' (Number.ofInt day) = some (cycle.start t) := by
    intro hhmm' heq
    rw [hzone, weeklyPeriodStart_eq hin, heq]
  have hstart : resolveWeeklyStartLocal host.zone (reportTime host input now)
      (reportResets c.db (trimmed input.server)).1 (reportResets c.db (trimmed input.server)).2 =
        some (cycle.start t) := by
    rw [htime, hday', hday]
    exact hweek _ hhmm
  have hkey : overview.weeklyKey =
      "W:" ++ formatLocalDateKey host.zone (some (cycle.start t)) := by
    rw [weeklyKey_of_overview hr ho, htime', weeklyPeriodKey, hday, hweek _ rfl]
  have hvalid : Valid (cycle.start t) := by
    have hle := cycle.start_le t
    have hlt : t < cycle.start t + 7 * msPerDay := cycle.lt_next t
    have hday : 0 < msPerDay := by decide
    exact hin.valid (by omega) (by omega)
  have hparse : host.parseDate (isoString (cycle.start t)) = some (cycle.start t) :=
    host.parse_iso _ hvalid
  have hsame : ∀ report : LootWeeklyReport α, report.weekStartIso = isoString (cycle.start t) →
      (∀ d, report.debug = some d → d.periodKey = overview.weeklyKey) →
        SameWeek host t overview.weeklyKey report := by
    intro report hiso hdebug
    refine ⟨?_, hdebug, cycle.start t, ?_, cycle.start_le t, cycle.lt_next t⟩
    · rw [hiso, hparse, hkey]
    · rw [hiso, hparse]
  rw [getLootWeeklyReport_eq α hid hstart, accountWeek_eq, htime]
  dsimp only
  split
  · exact .inl ⟨_, rfl, hsame _ rfl fun d hd => absurd hd (Option.some_ne_none d).symm⟩
  · split
    · cases hprices : latestPrices c.db _ _ with
      | error e =>
          rcases latestPrices_error hprices with ⟨rfl, hblank⟩ | ⟨rfl, hmany⟩
          · exact .inr (.inl ⟨rfl, .inr hblank⟩)
          · exact .inr (.inr ⟨rfl, _, cycle.start_le t, cycle.lt_next t, hmany⟩)
      | ok prices =>
          refine .inl ⟨_, rfl, hsame _ rfl fun d hd => ?_⟩
          obtain rfl := Option.some.inj hd
          exact hkey.symm
    · rename_i hmany
      exact .inr (.inr ⟨rfl, _, cycle.start_le t, cycle.lt_next t, .inl (Nat.lt_of_not_le hmany)⟩)

end

/-! ### A server with settings of its own -/

/-- One character of a server has been created. -/
def withServerCharacter : Conn :=
  ((Step.op (.createCharacter ⟨"Kaisinel", some "Siel", none⟩ "c1" 1)).run (Host.iso (.fixed 0))
    (opened none 0)).2

/-- The week of the server begins on Wednesdays. -/
def withServerSettings : Conn :=
  ((Step.op (.setPlannerSettingsForServer "Siel" ⟨"09:00", 3⟩ 2)).run (Host.iso (.fixed 0))
    withServerCharacter).2

theorem find?_withServerSettings :
    (withServerSettings.db .appCharacter).find? (fun q => q.id == "c1") =
      some ⟨"c1", "Kaisinel", some "Siel", none, stamp 1, stamp 1⟩ := rfl

/-- The planner's week on Sunday, the eleventh day after the epoch. -/
theorem overview_withServerSettings : ∃ overview,
    (getPlannerOverview (Host.iso (.fixed 0)) "c1" none 864000000 withServerSettings).1 =
      .ok overview ∧ overview.weeklyKey = "W:1970-01-07" := by
  have hnone : assignedTemplates "c1" withServerSettings.db = [] := rfl
  obtain ⟨overview, ho⟩ : ∃ overview,
      (getPlannerOverview (Host.iso (.fixed 0)) "c1" none 864000000 withServerSettings).1 =
        .ok overview :=
    exists_overview none find?_withServerSettings fun t ht => absurd (hnone ▸ ht) List.not_mem_nil
  have hresets : effectiveResets withServerSettings.db
      (characterOf ⟨"c1", "Kaisinel", some "Siel", none, stamp 1, stamp 1⟩).server =
        ("09:00", Number.ofInt 3) := rfl
  have hkey := weeklyKey_of_overview find?_withServerSettings ho
  rw [hresets] at hkey
  refine ⟨overview, ho, hkey.trans ((weeklyPeriodKey_eq (by decide) 3).trans ?_)⟩
  decide

theorem sameWeek_ownServer : ∃ overview report,
    (getPlannerOverview (Host.iso (.fixed 0)) "c1" none 864000000 withServerSettings).1 =
        .ok overview ∧
      (getLootWeeklyReport Number (Host.iso (.fixed 0)) ⟨"c1", some "Siel", none⟩ 864000000
        withServerSettings).1 = .ok report ∧
      SameWeek (Host.iso (.fixed 0)) 864000000 overview.weeklyKey report := by
  obtain ⟨overview, ho, -⟩ := overview_withServerSettings
  have hnames : NamesSettings withServerSettings.db (some "Siel") (some "Siel") :=
    .inl ⟨rfl, fun row hrow => by cases hrow; decide⟩
  rcases @sameWeek_report (Host.iso (.fixed 0)) withServerSettings ⟨"c1", some "Siel", none⟩ none
      864000000 864000000 864000000 0 3 _ overview Number _ rfl find?_withServerSettings rfl rfl
      (by decide) hnames rfl ho with
    ⟨report, hreport, hsame⟩ | ⟨-, hempty | ⟨run, hrun, -⟩⟩ | ⟨-, start, -, -, hmany⟩
  · exact ⟨overview, report, ho, hreport, hsame⟩
  · exact absurd hempty (by decide)
  · exact absurd hrun List.not_mem_nil
  · have hruns : weekRuns "c1" (isoString start) (stamp 864000000) withServerSettings.db = [] := rfl
    rw [hruns] at hmany
    rcases hmany with hmany | hmany <;> exact absurd hmany (by decide)

/-- Asked for no server, the report is about the default week. -/
theorem not_sameWeek_noServer : ∃ overview report,
    (getPlannerOverview (Host.iso (.fixed 0)) "c1" none 864000000 withServerSettings).1 =
        .ok overview ∧
      (getLootWeeklyReport Number (Host.iso (.fixed 0)) ⟨"c1", none, none⟩ 864000000
        withServerSettings).1 = .ok report ∧
      ¬ SameWeek (Host.iso (.fixed 0)) 864000000 overview.weeklyKey report := by
  obtain ⟨overview, ho, hkey⟩ := overview_withServerSettings
  have hstart : resolveWeeklyStartLocal (.fixed 0) 864000000 "09:00" (Number.ofInt 1) =
      some 378000000 := weeklyPeriodStart_eq (by decide) 1
  have hruns : weekRuns "c1" (isoString 378000000) (stamp 864000000) withServerSettings.db = [] := rfl
  have hparse : (Host.iso (.fixed 0)).parseDate (isoString 378000000) = some 378000000 :=
    (Host.iso (.fixed 0)).parse_iso _ (by decide)
  refine ⟨overview, _, ho, report_of_no_runs (by decide) hstart hruns, fun h => ?_⟩
  have hdate : "W:" ++ formatLocalDateKey (.fixed 0) (some 378000000) = "W:1970-01-07" := by
    rw [← hkey, ← hparse]
    exact h.key
  exact absurd hdate (by decide)

end Hub
