/-
Aion2Hub/Loot/Report.lean

`getLootWeeklyReport` of `domains/loot.ts`: what a character's runs of the
week have brought in and cost, at the latest prices.

The amounts are computed in any arithmetic: the program rounds after every
operation (`Number`), and what its passes account for is said without rounding
(`Exact`).  Runs and items can come from a backup, with any id.  The objects
that are keyed by runs are given an amount for each run, which all of them keep
but that of "__proto__"; the one that is keyed by items also answers for what
every object inherits.
-/
import Aion2Hub.Lib.Arithmetic
import Aion2Hub.Lib.Record
import Aion2Hub.Planner.Overview
import Aion2Hub.Storage.Loot

namespace Hub

open Sql Exec Date

/-! ### The week -/

/-- The same statements as in `weeklyPeriodKey`. -/
def resolveWeeklyStartLocal (z : Zone) (now : ℤ) (dailyResetHhmm : String)
    (weeklyResetDay : Number) : Option ℤ :=
  weeklyPeriodStart z now dailyResetHhmm weeklyResetDay

/-- The settings of a server, if there is a server. -/
def serverRow : Option String → Prog (Option PlannerSettingsRow)
  | none => pure none
  | some name => schema.selectOne .plannerSettings fun r => r.id == "server:" ++ name

/-- A server without settings, or with an empty reset time, has the default
reset. -/
def getPlannerResetForServer (server : Option String) : Prog (String × Number) := do
  let own ← serverRow server
  match own.filter (·.dailyResetHhmm ≠ "") with
  | some row => pure (row.dailyResetHhmm, row.weeklyResetDay)
  | none =>
      let row ← schema.selectOne .plannerSettings fun r => r.id == "default"
      pure ((row.bind fun r => nonEmpty (some r.dailyResetHhmm)).getD "09:00",
        (row.map (·.weeklyResetDay)).getD 1)

/-! ### Prices -/

/-- All prices of the items, the latest first; the first of an item counts. -/
def getLatestPricesByItemId (server : String) (itemIds : List String) : Prog (Record Number) := do
  let server ← Exec.ofOption "bad_request" (trimmed (some server))
  let ids := unique (itemIds.filter (· ≠ ""))
  if ids = [] then pure []
  else do
    bindVariables (ids.length + 1)
    let rows ← schema.selectBy .economyPrice
      (fun r => r.server == server && decide (r.itemId ∈ ids))
      (desc (·.recordedAt) (desc (·.createdAt) anyOrder))
    pure (rows.foldl (fun out r => out.putNew r.itemId r.price) [])

/-- `priceServer ? getLatestPricesByItemId(…) : {}`. -/
def pricesFor (server : Option String) (itemIds : List String) : Prog (Record Number) :=
  match server with
  | none => pure []
  | some name => getLatestPricesByItemId name itemIds

section

variable {α : Type} [Arithmetic α]

/-- `qty * price`; neither a function nor an object is a number. -/
def priced (qty : Number) : Lookup Number → Option α
  | .undefined => none
  | .inherited => some Arithmetic.nan
  | .own price => some (Arithmetic.ofNumber qty * Arithmetic.ofNumber price)

/-! ### Runs -/

/-- The amount of each run, and the items without a price. -/
structure Tally (α : Type) where
  amounts : String → α
  missing : List String

def Tally.add (t : Tally α) (runId : String) (x : α) : Tally α :=
  { t with amounts := fun id => if id = runId then t.amounts id + x else t.amounts id }

/-- The amount of a run; what is set for "__proto__" is not kept, and the object
that is there instead is no number. -/
def Tally.amount (t : Tally α) (runId : String) : α :=
  if runId = "__proto__" then Arithmetic.nan else t.amounts runId

/-- Add the price of an item, if there is one. -/
def Tally.addItem (t : Tally α) (runId itemId : String) : Option α → Tally α
  | none => { t with missing := setAdd t.missing itemId }
  | some x => t.add runId x

def tallyDrop (price : String → Lookup Number) (t : Tally α) (d : LootRunDrop) : Tally α :=
  match nonEmpty d.itemId with
  | none => t
  | some itemId => t.addItem d.runId itemId (priced d.qty (price itemId))

def tallyCost (price : String → Lookup Number) (t : Tally α) (c : LootRunCost) : Tally α :=
  match c.kind with
  | .kinah => t.add c.runId (Arithmetic.ofNumber (Number.atLeast 0 (Number.floor c.kinah)))
  | .item =>
      match nonEmpty c.itemId with
      | none => t
      | some itemId => t.addItem c.runId itemId (priced c.qty (price itemId))

/-- The items that need a price. -/
def pricedItems (drops : List LootRunDrop) (costs : List LootRunCost) : List String :=
  unique (drops.filterMap (fun d => nonEmpty d.itemId) ++
    (costs.filter (·.kind = .item)).filterMap fun c => nonEmpty c.itemId)

/-! ### Totals -/

structure LootTotals (α : Type) where
  runs : ℕ
  seconds : α
  value : α
  cost : α

def LootTotals.zero : LootTotals α := ⟨0, 0, 0, 0⟩

/-- Count one run. -/
def LootTotals.count (t : LootTotals α) (seconds value cost : α) : LootTotals α :=
  ⟨t.runs + 1, t.seconds + seconds, t.value + value, t.cost + cost⟩

/-- Count one run under its content; a map is in the order of insertion. -/
def countContent (content : String) (seconds value cost : α) :
    List (String × LootTotals α) → List (String × LootTotals α)
  | [] => [(content, LootTotals.zero.count seconds value cost)]
  | (key, t) :: rest =>
      if key = content then (key, t.count seconds value cost) :: rest
      else (key, t) :: countContent content seconds value cost rest

/-- `hours > 0 ? x / hours : 0`. -/
def perHour (seconds x : α) : α :=
  let hours := seconds / Arithmetic.ofNumber 3600
  if Arithmetic.lt 0 hours then x / hours else 0

structure LootReportRow (α : Type) where
  content : String
  runs : ℕ
  seconds : α
  value : α
  cost : α
  net : α
  valuePerHour : α
  netPerHour : α

def reportRow (content : String) (t : LootTotals α) : LootReportRow α where
  content := content
  runs := t.runs
  seconds := t.seconds
  value := t.value
  cost := t.cost
  net := t.value - t.cost
  valuePerHour := perHour t.seconds t.value
  netPerHour := perHour t.seconds (t.value - t.cost)

structure LootReportTotals (α : Type) where
  runs : ℕ
  seconds : α
  value : α
  cost : α
  net : α
  valuePerHour : α
  netPerHour : α
  missingPriceItems : List String

def reportTotals (t : LootTotals α) (missing : List String) : LootReportTotals α where
  runs := t.runs
  seconds := t.seconds
  value := t.value
  cost := t.cost
  net := t.value - t.cost
  valuePerHour := perHour t.seconds t.value
  netPerHour := perHour t.seconds (t.value - t.cost)
  missingPriceItems := missing

/-- The comparator `b.net - a.net`: may the first row come before the
second? -/
def netDescending (a b : LootReportRow α) : Prop := Arithmetic.lt 0 (b.net - a.net) = false

instance : DecidableRel (@netDescending α _) :=
  fun a b => inferInstanceAs (Decidable (Arithmetic.lt 0 (b.net - a.net) = false))

structure LootReportDebug where
  periodKey : String
  reset : String × Number

structure LootWeeklyReport (α : Type) where
  server : Option String
  weekStartIso : String
  weekEndIso : String
  totals : LootReportTotals α
  byContent : List (LootReportRow α)
  debug : Option LootReportDebug

/-! ### The report -/

/-- The runs that ended in the week, the latest first. -/
def weekRuns (characterId startIso endIso : String) (db : Db Row) : List LootRun :=
  (orderBy (desc (·.endedAt.getD "") anyOrder) ((db .lootRun).filter fun r =>
    r.characterId == characterId && r.endedAt.any fun e =>
      decide (startIso ≤ e) && decide (e ≤ endIso))).map (schema.read .lootRun)

/-- `run_id IN (…)`, with a variable for each run. -/
def dropsOf (runs : List LootRun) : Prog (List LootRunDrop) := do
  bindVariables runs.length
  schema.select .lootRunDrop fun d => decide (d.runId ∈ runs.map (·.id))

def costsOf (runs : List LootRun) : Prog (List LootRunCost) := do
  bindVariables runs.length
  schema.select .lootRunCost fun c => decide (c.runId ∈ runs.map (·.id))

/-- What the drops are worth, and the costs, each run by run. -/
def tallies (price : String → Lookup Number) (drops : List LootRunDrop) (costs : List LootRunCost) :
    Tally α × Tally α :=
  let value : Tally α := drops.foldl (tallyDrop price) ⟨fun _ => 0, []⟩
  (value, costs.foldl (tallyCost price) ⟨fun _ => 0, value.missing⟩)

/-- The loop over the runs. -/
def countRuns (value cost : String → α) (runs : List LootRun) :
    LootTotals α × List (String × LootTotals α) :=
  runs.foldl (fun acc r =>
    (acc.1.count (Arithmetic.ofNumber r.seconds) (value r.id) (cost r.id),
      countContent r.content (Arithmetic.ofNumber r.seconds) (value r.id) (cost r.id) acc.2))
    (LootTotals.zero, [])

structure LootReportInput where
  characterId : String
  server : Option String
  nowIso : Option String

/-- The server whose prices count: the requested one, or that of a run. -/
def priceServer (server : Option String) (runs : List LootRun) : Option String :=
  server.orElse fun _ => runs.findSome? fun r => nonEmpty r.server

/-- The passes over the runs, the drops and the costs, once the prices are
known. -/
def accountRuns (host : Host) (server : Option String) (startLocal : Option ℤ)
    (startIso endIso : String) (reset : String × Number) (runs : List LootRun)
    (drops : List LootRunDrop) (costs : List LootRunCost) (prices : Record Number) :
    LootWeeklyReport α :=
  let (value, cost) := tallies (Record.get prices) drops costs
  let (totals, perContent) := countRuns value.amount cost.amount runs
  { server := server
    weekStartIso := startIso
    weekEndIso := endIso
    totals := reportTotals totals cost.missing
    byContent := (perContent.map fun kv => reportRow kv.1 kv.2).insertionSort netDescending
    debug := some ⟨"W:" ++ formatLocalDateKey host.zone startLocal, reset⟩ }

variable (α) in
/-- What the report does once it knows the week. -/
def accountWeek (host : Host) (characterId : String) (server : Option String) (time : ℤ)
    (reset : String × Number) (startLocal : Option ℤ) (startIso : String) :
    Prog (LootWeeklyReport α) := do
  let db ← Exec.gets fun c => c.db
  let runs := weekRuns characterId startIso (stamp time) db
  if runs = [] then
    pure ⟨server, startIso, stamp time, ⟨0, 0, 0, 0, 0, 0, 0, []⟩, [], none⟩
  else
    let drops ← dropsOf runs
    let costs ← costsOf runs
    let prices ← pricesFor (priceServer server runs) (pricedItems drops costs)
    pure (accountRuns host (priceServer server runs) startLocal startIso (stamp time) reset runs
      drops costs prices)

variable (α) in
def getLootWeeklyReport (host : Host) (input : LootReportInput) (now : ℤ) :
    Prog (LootWeeklyReport α) := do
  let characterId ← Exec.ofOption "bad_request" (nonEmpty (some input.characterId))
  let time := (input.nowIso.bind host.parseDate).getD now
  let server := trimmed input.server
  let reset ← getPlannerResetForServer server
  let startLocal := resolveWeeklyStartLocal host.zone time reset.1 reset.2
  let startIso ← Exec.ofExcept (Date.toISOString startLocal)
  accountWeek α host characterId server time reset startLocal startIso

end

/-! ### What the report is, as a function of the rows -/

/-- The default reset, from the row of the default settings. -/
def defaultResets (row : Option PlannerSettingsRow) : String × Number :=
  ((row.bind fun r => nonEmpty (some r.dailyResetHhmm)).getD "09:00",
    (row.map (·.weeklyResetDay)).getD 1)

/-- The settings with the id, as they are read. -/
def settingsRow (db : Db Row) (id : String) : Option PlannerSettingsRow :=
  ((db .plannerSettings).find? fun r => r.id == id).map (schema.read .plannerSettings)

/-- The settings of a server. -/
def serverSettings (db : Db Row) (name : String) : Option PlannerSettingsRow :=
  settingsRow db (plannerSettingsIdForServer name)

/-- The result of `getPlannerResetForServer`. -/
def reportResets (db : Db Row) (server : Option String) : String × Number :=
  match (server.bind (serverSettings db)).filter (·.dailyResetHhmm ≠ "") with
  | some row => (row.dailyResetHhmm, row.weeklyResetDay)
  | none => defaultResets (settingsRow db "default")

theorem getPlannerResetForServer_eq (server : Option String) (c : Conn) :
    getPlannerResetForServer server c = (.ok (reportResets c.db server), c) := by
  have hown : serverRow server c = (.ok (server.bind (serverSettings c.db)), c) := by
    cases server <;> rfl
  rw [getPlannerResetForServer, bind_of_ok hown]
  show _ = (Except.ok (match (server.bind (serverSettings c.db)).filter (·.dailyResetHhmm ≠ "") with
    | some row => (row.dailyResetHhmm, row.weeklyResetDay)
    | none => defaultResets (settingsRow c.db "default")), c)
  cases (server.bind (serverSettings c.db)).filter (·.dailyResetHhmm ≠ "") <;> rfl

/-- The prices of the items on the server, the latest first, as they are
read. -/
def priceRows (db : Db Row) (server : String) (ids : List String) : List EconomyPrice :=
  (orderBy (desc (·.recordedAt) (desc (·.createdAt) anyOrder))
    ((db .economyPrice).filter fun r => r.server == server && decide (r.itemId ∈ ids))).map
    (schema.read .economyPrice)

/-- The prices that a report looks up. -/
def latestPrices (db : Db Row) (server : Option String) (itemIds : List String) :
    Except String (Record Number) :=
  match server with
  | none => .ok []
  | some name =>
      match trimmed (some name) with
      | none => .error "bad_request"
      | some server =>
          let ids := unique (itemIds.filter (· ≠ ""))
          if ids = [] then .ok []
          else if ids.length + 1 ≤ maxVariables then
            .ok ((priceRows db server ids).foldl (fun out r => out.putNew r.itemId r.price) [])
          else .error "too many SQL variables"

/-- The drops of the runs, as they are read. -/
def dropRows (runs : List LootRun) (db : Db Row) : List LootRunDrop :=
  ((db .lootRunDrop).filter fun d => decide (d.runId ∈ runs.map (·.id))).map
    (schema.read .lootRunDrop)

def costRows (runs : List LootRun) (db : Db Row) : List LootRunCost :=
  ((db .lootRunCost).filter fun c => decide (c.runId ∈ runs.map (·.id))).map
    (schema.read .lootRunCost)

section

variable {α : Type} [Arithmetic α] {host : Host} {input : LootReportInput} {now : ℤ} {c : Conn}

theorem bindVariables_of_le {n : ℕ} (h : n ≤ maxVariables) :
    (bindVariables n : Prog Unit) c = (.ok (), c) := by
  rw [bindVariables, if_pos h]
  rfl

theorem bindVariables_of_lt {n : ℕ} (h : ¬ n ≤ maxVariables) :
    (bindVariables n : Prog Unit) c = (.error "too many SQL variables", c) := by
  rw [bindVariables, if_neg h]
  rfl

theorem pricesFor_eq (server : Option String) (itemIds : List String) :
    pricesFor server itemIds c = (latestPrices c.db server itemIds, c) := by
  cases server with
  | none => rfl
  | some name =>
      unfold pricesFor getLatestPricesByItemId latestPrices
      rcases htrim : trimmed (some name) with - | server
      · simp only [htrim]
        rfl
      · simp only [htrim, ofOption_some_bind]
        split
        · rfl
        · split
          · rename_i hle
            rw [bind_of_ok (bindVariables_of_le hle)]
            rfl
          · rename_i hlt
            rw [bind_of_error (bindVariables_of_lt hlt)]

/-- The instant a report is for. -/
def reportTime (host : Host) (input : LootReportInput) (now : ℤ) : ℤ :=
  (input.nowIso.bind host.parseDate).getD now

theorem accountWeek_eq (characterId : String) (server : Option String) (time : ℤ)
    (reset : String × Number) (startLocal : Option ℤ) (startIso : String) :
    let runs := weekRuns characterId startIso (stamp time) c.db
    accountWeek α host characterId server time reset startLocal startIso c =
      (if runs = [] then
        .ok ⟨server, startIso, stamp time, ⟨0, 0, 0, 0, 0, 0, 0, []⟩, [], none⟩
      else if runs.length ≤ maxVariables then
        (latestPrices c.db (priceServer server runs)
          (pricedItems (dropRows runs c.db) (costRows runs c.db))).map
            (accountRuns host (priceServer server runs) startLocal startIso (stamp time) reset runs
              (dropRows runs c.db) (costRows runs c.db))
      else .error "too many SQL variables", c) := by
  intro runs
  show (if runs = [] then _ else _ : Prog (LootWeeklyReport α)) c = _
  split
  · rfl
  · split
    · rename_i hle
      have hdrops : dropsOf runs c = (.ok (dropRows runs c.db), c) := by
        rw [dropsOf, bind_of_ok (bindVariables_of_le hle)]
        rfl
      have hcosts : costsOf runs c = (.ok (costRows runs c.db), c) := by
        rw [costsOf, bind_of_ok (bindVariables_of_le hle)]
        rfl
      have hprices : pricesFor (priceServer server runs) _ c = (_, c) :=
        pricesFor_eq (priceServer server runs) (pricedItems (dropRows runs c.db) (costRows runs c.db))
      rw [bind_of_ok hdrops, bind_of_ok hcosts]
      cases hlatest : latestPrices c.db (priceServer server runs)
          (pricedItems (dropRows runs c.db) (costRows runs c.db)) with
      | error e =>
          rw [hlatest] at hprices
          exact bind_of_error hprices
      | ok prices =>
          rw [hlatest] at hprices
          exact bind_of_ok hprices
    · rename_i hlt
      have hdrops : dropsOf runs c = (.error "too many SQL variables", c) := by
        rw [dropsOf, bind_of_error (bindVariables_of_lt hlt)]
      exact bind_of_error hdrops

variable (α) in
/-- Once the week is known, a report is what `accountWeek` makes of it. -/
theorem getLootWeeklyReport_eq {start : ℤ} (hcharacter : input.characterId ≠ "")
    (hstart : resolveWeeklyStartLocal host.zone (reportTime host input now)
      (reportResets c.db (trimmed input.server)).1 (reportResets c.db (trimmed input.server)).2 =
        some start) :
    getLootWeeklyReport α host input now c =
      accountWeek α host input.characterId (trimmed input.server) (reportTime host input now)
        (reportResets c.db (trimmed input.server)) (some start) (isoString start) c := by
  have hid : (Exec.ofOption "bad_request" (nonEmpty (some input.characterId)) : Prog String) c =
      (.ok input.characterId, c) := by
    rw [nonEmpty_some hcharacter]
    rfl
  have hiso : (Exec.ofExcept (Date.toISOString (some start)) : Prog String) c =
      (.ok (isoString start), c) := rfl
  rw [getLootWeeklyReport, bind_of_ok hid, bind_of_ok (getPlannerResetForServer_eq _ c)]
  show (Exec.ofExcept (Date.toISOString (resolveWeeklyStartLocal host.zone
    (reportTime host input now) _ _)) >>= fun startIso => _) c = _
  rw [hstart, bind_of_ok hiso]
  show accountWeek α host input.characterId _ _ _ (resolveWeeklyStartLocal host.zone
    (reportTime host input now) _ _) _ c = _
  rw [hstart]
  rfl

/-- What a report is, if there is one. -/
theorem getLootWeeklyReport_ok {report : LootWeeklyReport α}
    (h : (getLootWeeklyReport α host input now c).1 = .ok report) :
    ∃ start, resolveWeeklyStartLocal host.zone (reportTime host input now)
        (reportResets c.db (trimmed input.server)).1 (reportResets c.db (trimmed input.server)).2 =
          some start ∧
      (accountWeek α host input.characterId (trimmed input.server) (reportTime host input now)
        (reportResets c.db (trimmed input.server)) (some start) (isoString start) c).1 =
          .ok report := by
  rcases eq_or_ne input.characterId "" with hid | hid
  · rw [getLootWeeklyReport, hid] at h
    cases h
  cases hstart : resolveWeeklyStartLocal host.zone (reportTime host input now)
      (reportResets c.db (trimmed input.server)).1 (reportResets c.db (trimmed input.server)).2 with
  | none =>
      have hthrow : (Exec.ofExcept (Date.toISOString none) : Prog String) c =
          (.error "Invalid time value", c) := rfl
      rw [getLootWeeklyReport, nonEmpty_some hid, ofOption_some_bind,
        bind_of_ok (getPlannerResetForServer_eq _ c)] at h
      change ((Exec.ofExcept (Date.toISOString (resolveWeeklyStartLocal host.zone
        (reportTime host input now) _ _)) >>= fun startIso => _) c).1 = _ at h
      rw [hstart, bind_of_error hthrow] at h
      cases h
  | some start =>
      rw [getLootWeeklyReport_eq α hid hstart] at h
      exact ⟨start, rfl, h⟩

/-- The loop over the runs counts each once. -/
theorem runs_countRuns (value cost : String → α) (runs : List LootRun) :
    (countRuns value cost runs).1.runs = runs.length := by
  have hloop : ∀ acc : LootTotals α × List (String × LootTotals α), (runs.foldl (fun acc r =>
      (acc.1.count (Arithmetic.ofNumber r.seconds) (value r.id) (cost r.id),
        countContent r.content (Arithmetic.ofNumber r.seconds) (value r.id) (cost r.id) acc.2))
      acc).1.runs = acc.1.runs + runs.length := by
    induction runs with
    | nil => exact fun acc => rfl
    | cons r runs ih =>
        intro acc
        rw [List.foldl_cons, ih, List.length_cons]
        show acc.1.runs + 1 + runs.length = _
        omega
  exact (hloop _).trans (Nat.zero_add _)

/-- What a report is about, and how many runs it counts. -/
theorem accountWeek_counts {characterId : String} {server : Option String} {time : ℤ}
    {reset : String × Number} {startLocal : Option ℤ} {startIso : String}
    {report : LootWeeklyReport α}
    (h : (accountWeek α host characterId server time reset startLocal startIso c).1 = .ok report) :
    report.weekStartIso = startIso ∧ report.weekEndIso = stamp time ∧
      report.totals.runs = (weekRuns characterId startIso (stamp time) c.db).length := by
  rw [accountWeek_eq] at h
  dsimp only at h
  split at h
  · rename_i hnone
    cases h
    rw [hnone]
    exact ⟨rfl, rfl, rfl⟩
  · split at h
    · cases hprices : latestPrices c.db (priceServer server
          (weekRuns characterId startIso (stamp time) c.db)) (pricedItems
            (dropRows (weekRuns characterId startIso (stamp time) c.db) c.db)
            (costRows (weekRuns characterId startIso (stamp time) c.db) c.db)) with
      | error e =>
          rw [hprices] at h
          cases h
      | ok prices =>
          rw [hprices] at h
          cases h
          exact ⟨rfl, rfl, runs_countRuns _ _ _⟩
    · cases h

/-- A week without runs has an empty report. -/
theorem report_of_no_runs {start : ℤ} (hcharacter : input.characterId ≠ "")
    (hstart : resolveWeeklyStartLocal host.zone (reportTime host input now)
      (reportResets c.db (trimmed input.server)).1 (reportResets c.db (trimmed input.server)).2 =
        some start)
    (hruns : weekRuns input.characterId (isoString start) (stamp (reportTime host input now)) c.db =
      []) :
    (getLootWeeklyReport α host input now c).1 = .ok ⟨trimmed input.server, isoString start,
      stamp (reportTime host input now), ⟨0, 0, 0, 0, 0, 0, 0, []⟩, [], none⟩ := by
  rw [getLootWeeklyReport_eq α hcharacter hstart, accountWeek_eq]
  exact if_pos hruns

/-- A week with runs, not too many, is accounted for at the prices that are
found. -/
theorem report_of_runs {start : ℤ} {prices : Record Number} (hcharacter : input.characterId ≠ "")
    (hstart : resolveWeeklyStartLocal host.zone (reportTime host input now)
      (reportResets c.db (trimmed input.server)).1 (reportResets c.db (trimmed input.server)).2 =
        some start) {runs : List LootRun}
    (hruns : weekRuns input.characterId (isoString start) (stamp (reportTime host input now)) c.db =
      runs) (hsome : runs ≠ []) (hfew : runs.length ≤ maxVariables)
    (hprices : latestPrices c.db (priceServer (trimmed input.server) runs)
      (pricedItems (dropRows runs c.db) (costRows runs c.db)) = .ok prices) :
    (getLootWeeklyReport α host input now c).1 = .ok (accountRuns host
      (priceServer (trimmed input.server) runs) (some start) (isoString start)
      (stamp (reportTime host input now)) (reportResets c.db (trimmed input.server)) runs
      (dropRows runs c.db) (costRows runs c.db) prices) := by
  subst hruns
  rw [getLootWeeklyReport_eq α hcharacter hstart, accountWeek_eq]
  dsimp only
  rw [if_neg hsome, if_pos hfew, hprices]
  rfl

end

end Hub
