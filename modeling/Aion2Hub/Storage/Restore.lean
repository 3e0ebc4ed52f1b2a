/-
Aion2Hub/Storage/Restore.lean

`importUserBackup` of `domains/backup.ts`.

The parsing half turns an arbitrary value into rows: entries of the wrong
shape are skipped, missing fields get a default, and references into other
sections are checked against the ids that were accepted there.  The
transaction deletes some of the user tables and inserts the rows in a fixed
order of tables; what is not deleted by name is left to ON DELETE CASCADE.
-/
import Aion2Hub.Storage.Backup

namespace Hub

open Sql

/-! ### Reading fields -/

/-- `typeof v[key] === "string" ? v[key] : null`. -/
def text (v : Js) (key : String) : Option String := Js.asString (v.get key)

/-- `typeof v[key] === "string" ? v[key] : fallback`. -/
def textOr (v : Js) (key fallback : String) : String := (text v key).getD fallback

/-- `typeof v[key] === "number" ? v[key] : null`. -/
def number (v : Js) (key : String) : Option Number := Js.asNumber (v.get key)

/-- `typeof v[key] === "number" ? Math.max(0, Math.floor(v[key])) : 0`. -/
def natural (v : Js) (key : String) : Number :=
  ((number v key).map fun x => Number.atLeast 0 (Number.floor x)).getD 0

/-- The entries of an array that are objects. -/
def objects (v : Option Js) : List Js := (Js.asArray v).filter Js.isObject

/-- The id in a field, if it is one of `ids`. -/
def knownId (v : Js) (key : String) (ids : List String) : Option String :=
  (text v key).filter (· ∈ ids)

/-! ### The parsed backup -/

/-- The rows of a backup as they are read, before the last conversions of
the INSERTs. -/
structure Backup where
  default : PlannerSettingsRow
  perServer : List PlannerSettingsRow
  activeCharacterId : Option String
  characters : List AppCharacter
  items : List EconomyItem
  prices : List EconomyPrice
  watches : List EconomyPriceWatch
  buildScores : List BuildScoreRow
  presets : List BuildScorePresetRow
  runs : List LootRun
  drops : List LootRunDrop
  costs : List LootRunCost
  templates : List PlannerTemplate
  assignments : List PlannerAssignment
  completions : List PlannerCompletion
  chargeUses : List PlannerChargeUse
  durations : List PlannerDuration

def parseCharacter (now : String) (c : Js) : Option AppCharacter := do
  let id ← text c "id"
  let name ← text c "name"
  pure ⟨id, name, text c "server", text c "class", textOr c "createdAt" now,
    textOr c "updatedAt" now⟩

def parseServerSettings (now : String) (default : PlannerSettingsRow) (s : Js) :
    Option PlannerSettingsRow := do
  let server ← trimmed (text s "server")
  pure ⟨plannerSettingsIdForServer server, textOr s "dailyResetHhmm" default.dailyResetHhmm,
    (number s "weeklyResetDay").getD default.weeklyResetDay, textOr s "updatedAt" now⟩

def parseItem (now : String) (i : Js) : Option EconomyItem := do
  let id ← text i "id"
  let name ← trimmed (text i "name")
  pure ⟨id, name, text i "category", text i "note", textOr i "createdAt" now,
    textOr i "updatedAt" now⟩

def parsePrice (now : String) (itemIds : List String) (p : Js) : Option EconomyPrice := do
  let id ← text p "id"
  let itemId ← knownId p "itemId" itemIds
  let server ← trimmed (text p "server")
  pure ⟨id, server, itemId, natural p "price", textOr p "recordedAt" now, textOr p "createdAt" now,
    textOr p "updatedAt" now⟩

def parseWatch (now : String) (itemIds : List String) (w : Js) : Option EconomyPriceWatch := do
  let id ← text w "id"
  let itemId ← knownId w "itemId" itemIds
  let server ← trimmed (text w "server")
  let op ← (text w "op").bind EconomyPriceWatchOp.ofText
  pure ⟨id, server, itemId, op, natural w "threshold", Js.truthy (w.get "active"),
    textOr w "createdAt" now, textOr w "updatedAt" now⟩

/-- `JSON.stringify(b.state ?? null)` is what is stored. -/
def parseBuildScore (now : String) (characterIds : List String) (b : Js) :
    Option BuildScoreRow := do
  let characterId ← knownId b "characterId" characterIds
  pure ⟨characterId, Js.serialise ((b.get "state").getD .null), textOr b "updatedAt" now⟩

def parsePreset (now : String) (characterIds : List String) (p : Js) :
    Option BuildScorePresetRow := do
  let id ← text p "id"
  let characterId ← knownId p "characterId" characterIds
  let name ← trimmed (text p "name")
  let stats ← asBuildScoreStats (p.get "stats")
  pure ⟨id, characterId, name, text p "description", statsJson stats, textOr p "createdAt" now,
    textOr p "updatedAt" now⟩

def parseLootRun (now : String) (characterIds : List String) (r : Js) : Option LootRun := do
  let id ← text r "id"
  let characterId ← knownId r "characterId" characterIds
  let content ← trimmed (text r "content")
  pure ⟨id, characterId, text r "server", content, text r "role", text r "powerBracket",
    text r "startedAt", text r "endedAt", natural r "seconds", textOr r "createdAt" now,
    textOr r "updatedAt" now⟩

def parseDrop (now : String) (runIds itemIds : List String) (d : Js) : Option LootRunDrop := do
  let id ← text d "id"
  let runId ← knownId d "runId" runIds
  let itemName ← trimmed (text d "itemName")
  guard (Number.le (natural d "qty") 0 = false)
  pure ⟨id, runId, knownId d "itemId" itemIds, itemName, natural d "qty", text d "note",
    textOr d "createdAt" now, textOr d "updatedAt" now⟩

def parseCost (now : String) (runIds itemIds : List String) (c : Js) : Option LootRunCost := do
  let id ← text c "id"
  let runId ← knownId c "runId" runIds
  let kind ← (text c "kind").bind LootRunCostKind.ofText
  pure ⟨id, runId, kind, if kind = .item then knownId c "itemId" itemIds else none,
    text c "itemName", natural c "qty", natural c "kinah", text c "note", textOr c "createdAt" now,
    textOr c "updatedAt" now⟩

def parseTemplate (now : String) (t : Js) : Option PlannerTemplate := do
  let id ← text t "id"
  let title ← text t "title"
  let type ← (text t "type").bind PlannerTemplateType.ofText
  pure ⟨id, title, type, (number t "estimateMinutes").getD 0, number t "rechargeHours",
    number t "maxStacks", textOr t "createdAt" now, textOr t "updatedAt" now⟩

def parseAssignment (now : String) (characterIds templateIds : List String) (a : Js) :
    Option PlannerAssignment := do
  let id ← text a "id"
  let characterId ← nonEmpty (knownId a "characterId" characterIds)
  let templateId ← nonEmpty (knownId a "templateId" templateIds)
  pure ⟨id, characterId, templateId, Js.truthy (a.get "enabled"),
    (number a "targetCount").bind Number.bind, textOr a "createdAt" now, textOr a "updatedAt" now⟩

def parseCompletion (characterIds templateIds : List String) (c : Js) :
    Option PlannerCompletion := do
  let id ← text c "id"
  let characterId ← nonEmpty (knownId c "characterId" characterIds)
  let templateId ← nonEmpty (knownId c "templateId" templateIds)
  let periodKey ← text c "periodKey"
  let completedAt ← text c "completedAt"
  pure ⟨id, characterId, templateId, periodKey, completedAt⟩

def parseChargeUse (characterIds templateIds : List String) (u : Js) :
    Option PlannerChargeUse := do
  let id ← text u "id"
  let characterId ← nonEmpty (knownId u "characterId" characterIds)
  let templateId ← nonEmpty (knownId u "templateId" templateIds)
  let usedAt ← text u "usedAt"
  pure ⟨id, characterId, templateId, usedAt⟩

/-- A template id that is there and not empty must be known. -/
def parseDuration (characterIds templateIds : List String) (d : Js) : Option PlannerDuration := do
  let id ← text d "id"
  let characterId ← nonEmpty (knownId d "characterId" characterIds)
  guard (∀ templateId ∈ nonEmpty (text d "templateId"), templateId ∈ templateIds)
  let startedAt ← text d "startedAt"
  let endedAt ← text d "endedAt"
  pure ⟨id, characterId, text d "templateId", startedAt, endedAt, (number d "seconds").getD 0⟩

/-- The claimed version, if it is supported. -/
def schemaVersion (raw : Js) : Option Number :=
  (number raw "schemaVersion").filter fun v => v ∈ [(1 : Number), 2, 3, 4]

/-- The object with the default settings: version 1 had no others. -/
def defaultSettingsJs (version : Number) (settings : Js) : Js :=
  if version = 1 then settings else Js.asRecord (settings.get "default")

def serverSettingsEntries (version : Number) (settings : Js) : List Js :=
  if version = 1 then [] else objects (settings.get "perServer")

def parseBackup (raw : Js) (version : Number) (now : String) : Backup :=
  let planner := Js.asRecord (raw.get "planner")
  let settings := Js.asRecord (planner.get "settings")
  let defaultJs := defaultSettingsJs version settings
  let default : PlannerSettingsRow :=
    ⟨"default", textOr defaultJs "dailyResetHhmm" "09:00",
      (number defaultJs "weeklyResetDay").getD 1, now⟩
  let buildScore := Js.asRecord (raw.get "buildScore")
  let economy := Js.asRecord (raw.get "economy")
  let loot := Js.asRecord (raw.get "loot")
  let characters := (objects (raw.get "characters")).filterMap (parseCharacter now)
  let characterIds := characters.map (·.id)
  let items := (objects (economy.get "items")).filterMap (parseItem now)
  let itemIds := items.map (·.id)
  let runs := (objects (loot.get "runs")).filterMap (parseLootRun now characterIds)
  let runIds := runs.map (·.id)
  let templates := (objects (planner.get "templates")).filterMap (parseTemplate now)
  let templateIds := templates.map (·.id)
  { default := default
    perServer := (serverSettingsEntries version settings).filterMap (parseServerSettings now default)
    activeCharacterId := text raw "activeCharacterId"
    characters := characters
    items := items
    prices := (objects (economy.get "prices")).filterMap (parsePrice now itemIds)
    watches := (objects (economy.get "watches")).filterMap (parseWatch now itemIds)
    buildScores :=
      (objects (buildScore.get "perCharacter")).filterMap (parseBuildScore now characterIds)
    presets := (objects (buildScore.get "presets")).filterMap (parsePreset now characterIds)
    runs := runs
    drops := (objects (loot.get "drops")).filterMap (parseDrop now runIds itemIds)
    costs := (objects (loot.get "costs")).filterMap (parseCost now runIds itemIds)
    templates := templates
    assignments :=
      (objects (planner.get "assignments")).filterMap (parseAssignment now characterIds templateIds)
    completions :=
      (objects (planner.get "completions")).filterMap (parseCompletion characterIds templateIds)
    chargeUses :=
      (objects (planner.get "chargeUses")).filterMap (parseChargeUse characterIds templateIds)
    durations :=
      (objects (planner.get "durations")).filterMap (parseDuration characterIds templateIds) }

/-! ### What the INSERTs bind

`none` is a row with a NULL in a NOT NULL column.  INSERT OR REPLACE puts the
default of the column in its place, where there is one. -/

def PlannerSettingsRow.bound (r : PlannerSettingsRow) : Option PlannerSettingsRow :=
  r.weeklyResetDay.bind.map fun day => { r with weeklyResetDay := day }

def EconomyPrice.bound (r : EconomyPrice) : Option EconomyPrice :=
  r.price.bind.map fun price => { r with price := price }

def EconomyPriceWatch.bound (r : EconomyPriceWatch) : Option EconomyPriceWatch :=
  r.threshold.bind.map fun threshold => { r with threshold := threshold }

def LootRun.bound (r : LootRun) : Option LootRun :=
  some { r with seconds := r.seconds.bind.getD 0 }

def LootRunDrop.bound (r : LootRunDrop) : Option LootRunDrop :=
  r.qty.bind.map fun qty => { r with qty := qty }

def LootRunCost.bound (r : LootRunCost) : Option LootRunCost :=
  some { r with qty := r.qty.bind.getD 0, kinah := r.kinah.bind.getD 0 }

def PlannerTemplate.bound (r : PlannerTemplate) : Option PlannerTemplate :=
  (estimate (some r.estimateMinutes)).bind.map fun minutes =>
    { r with
      estimateMinutes := minutes
      rechargeHours := chargeOnly r.type r.rechargeHours
      maxStacks := chargeOnly r.type r.maxStacks }

def PlannerDuration.bound (r : PlannerDuration) : Option PlannerDuration :=
  r.seconds.bind.map fun seconds => { r with seconds := seconds }

/-- The rows that the import inserts into a table. -/
def Backup.rows (b : Backup) : (t : Table) → List (Option (Row t))
  | .plannerSettings => (b.default :: b.perServer).map PlannerSettingsRow.bound
  | .appCharacter => b.characters.map some
  | .economyItem => b.items.map some
  | .economyPrice => b.prices.map EconomyPrice.bound
  | .economyPriceWatch => b.watches.map EconomyPriceWatch.bound
  | .buildScore => b.buildScores.map some
  | .buildScorePreset => b.presets.map some
  | .lootRun => b.runs.map LootRun.bound
  | .lootRunDrop => b.drops.map LootRunDrop.bound
  | .lootRunCost => b.costs.map LootRunCost.bound
  | .plannerTemplate => b.templates.map PlannerTemplate.bound
  | .plannerAssignment => b.assignments.map some
  | .plannerCompletion => b.completions.map some
  | .plannerChargeUse => b.chargeUses.map some
  | .plannerDuration => b.durations.map PlannerDuration.bound
  | _ => []

/-! ### The transaction -/

/-- INSERT OR `oc` of a row; one with a NULL that is not allowed is skipped
by OR IGNORE and an error otherwise. -/
def insertRow (oc : OnConflict) (t : Table) (row : Option (Row t)) : Prog Unit :=
  match row with
  | some r => schema.insert oc t r
  | none => if oc = .ignore then pure () else Exec.throw "NOT NULL constraint failed"

/-- The tables that are emptied by name: "Replace user data only." -/
def clearedTables : List Table :=
  [.appSetting, .appCharacter, .plannerTemplate, .plannerSettings, .economyAlertEvent,
    .economyPriceWatch, .economyPrice, .economyItem]

/-- The tables filled after the settings, in the order of the INSERTs. -/
def restoredTables : List (Table × OnConflict) :=
  [(.appCharacter, .abort), (.economyItem, .replace), (.economyPrice, .replace),
    (.economyPriceWatch, .replace), (.buildScore, .replace), (.buildScorePreset, .replace),
    (.lootRun, .replace), (.lootRunDrop, .replace), (.lootRunCost, .replace),
    (.plannerTemplate, .abort), (.plannerAssignment, .ignore), (.plannerCompletion, .ignore),
    (.plannerChargeUse, .ignore), (.plannerDuration, .ignore)]

def Backup.insertTable (b : Backup) (p : Table × OnConflict) : Prog Unit :=
  Exec.forEach (b.rows p.1) (insertRow p.2 p.1)

/-- `if (activeCharacterId) setActiveCharacterId(db, activeCharacterId)`. -/
def Backup.restoreActive (b : Backup) : Prog Unit :=
  match nonEmpty b.activeCharacterId with
  | some id => setActiveCharacterId (some id)
  | none => pure ()

/-- The assignments of every character to every template. -/
def autoAssignments (now : String) (db : Db Row) : List PlannerAssignment :=
  (db .appCharacter).flatMap fun c => (db .plannerTemplate).map fun t =>
    ⟨"assign:" ++ c.id ++ ":" ++ t.id, c.id, t.id, true, none, now, now⟩

/-- The DELETEs of the import. -/
def clearUserTables : Prog Unit :=
  Exec.forEach clearedTables fun t => schema.delete t fun _ => true

/-- The INSERTs of the import. -/
def Backup.insertAll (b : Backup) (now : String) : Prog Unit := do
  b.insertTable (.plannerSettings, .abort)
  b.restoreActive
  Exec.forEach restoredTables b.insertTable
  -- Ensure auto-assignments exist (in case assignments missing).
  schema.insertSelect .ignore .plannerAssignment (autoAssignments now)

/-- The statements between BEGIN and COMMIT. -/
def Backup.restore (b : Backup) (now : String) : Prog Unit := do
  clearUserTables
  b.insertAll now

def importUserBackup (raw : Js) (now : ℤ) : Prog Unit :=
  if raw.isObject then
    match schemaVersion raw with
    | none => Exec.throw "unsupported_backup_version"
    | some version =>
        atomically (criticalMessage "backup import")
          ((parseBackup raw version (stamp now)).restore (stamp now))
  else Exec.throw "bad_backup"

end Hub
