/-
Aion2Hub/Storage/Backup.lean

`exportUserBackup` of `domains/backup.ts`: every user table as a list of
objects.

A table of encoders comes first, one per section of the file; the function
itself only reads the tables in the order it asks for and drops the optional
sections that are empty.
-/
import Aion2Hub.Storage.BuildScore
import Aion2Hub.Storage.Loot

namespace Hub

open Sql

/-! ### Encoders -/

/-- A text or null. -/
def textJs (s : Option String) : Js := (s.map Js.str).getD .null

/-- A number or null. -/
def numJs (x : Option Number) : Js := (x.map Js.num).getD .null

def characterJs (c : AppCharacter) : Js :=
  .obj [("id", .str c.id), ("name", .str c.name), ("server", textJs c.server),
    ("class", textJs c.characterClass), ("createdAt", .str c.createdAt),
    ("updatedAt", .str c.updatedAt)]

def settingsJs (s : PlannerSettings) : Js :=
  .obj [("dailyResetHhmm", .str s.dailyResetHhmm), ("weeklyResetDay", .num s.weeklyResetDay),
    ("updatedAt", .str s.updatedAt)]

/-- `id LIKE 'server:%'`; LIKE ignores the case of ASCII letters. -/
def isServerSettings (r : PlannerSettingsRow) : Bool :=
  (r.id.toList.take 7).map Char.toLower == "server:".toList

theorem isServerSettings_of_default {r : PlannerSettingsRow} (h : r.id = "default") :
    isServerSettings r = false := by
  rw [isServerSettings, h]
  decide

/-- `String(r.id).replace(/^server:/, "")`. -/
def serverOfId (id : String) : String :=
  if "server:".toList.isPrefixOf id.toList then String.ofList (id.toList.drop 7) else id

def serverSettingsJs (r : PlannerSettingsRow) : Js :=
  .obj [("server", .str (serverOfId r.id)), ("dailyResetHhmm", .str r.dailyResetHhmm),
    ("weeklyResetDay", .num r.weeklyResetDay), ("updatedAt", .str r.updatedAt)]

def templateJs (t : PlannerTemplate) : Js :=
  .obj [("id", .str t.id), ("title", .str t.title), ("type", .str t.type.text),
    ("estimateMinutes", .num t.estimateMinutes), ("rechargeHours", numJs t.rechargeHours),
    ("maxStacks", numJs t.maxStacks), ("createdAt", .str t.createdAt),
    ("updatedAt", .str t.updatedAt)]

def assignmentJs (r : PlannerAssignment) : Js :=
  .obj [("id", .str r.id), ("characterId", .str r.characterId), ("templateId", .str r.templateId),
    ("enabled", .bool r.enabled), ("targetCount", numJs r.targetCount),
    ("createdAt", .str r.createdAt), ("updatedAt", .str r.updatedAt)]

def completionJs (r : PlannerCompletion) : Js :=
  .obj [("id", .str r.id), ("characterId", .str r.characterId), ("templateId", .str r.templateId),
    ("periodKey", .str r.periodKey), ("completedAt", .str r.completedAt)]

def chargeUseJs (r : PlannerChargeUse) : Js :=
  .obj [("id", .str r.id), ("characterId", .str r.characterId), ("templateId", .str r.templateId),
    ("usedAt", .str r.usedAt)]

/-- An empty template id is written as null. -/
def durationJs (r : PlannerDuration) : Js :=
  .obj [("id", .str r.id), ("characterId", .str r.characterId),
    ("templateId", textJs (nonEmpty r.templateId)), ("startedAt", .str r.startedAt),
    ("endedAt", .str r.endedAt), ("seconds", .num r.seconds)]

def buildScoreJs (r : BuildScoreRow) : Js :=
  .obj [("characterId", .str r.characterId), ("updatedAt", .str r.updatedAt), ("state", r.dataJson)]

def presetJs (r : BuildScorePresetRow) : Js :=
  .obj [("id", .str r.id), ("characterId", .str r.characterId), ("name", .str r.name),
    ("description", textJs r.description), ("createdAt", .str r.createdAt),
    ("updatedAt", .str r.updatedAt), ("stats", r.statsJson)]

def itemJs (r : EconomyItem) : Js :=
  .obj [("id", .str r.id), ("name", .str r.name), ("category", textJs r.category),
    ("note", textJs r.note), ("createdAt", .str r.createdAt), ("updatedAt", .str r.updatedAt)]

def priceJs (r : EconomyPrice) : Js :=
  .obj [("id", .str r.id), ("server", .str r.server), ("itemId", .str r.itemId),
    ("price", .num r.price), ("recordedAt", .str r.recordedAt), ("createdAt", .str r.createdAt),
    ("updatedAt", .str r.updatedAt)]

def watchJs (r : EconomyPriceWatch) : Js :=
  .obj [("id", .str r.id), ("server", .str r.server), ("itemId", .str r.itemId),
    ("op", .str r.op.text), ("threshold", .num r.threshold), ("active", .bool r.active),
    ("createdAt", .str r.createdAt), ("updatedAt", .str r.updatedAt)]

def lootRunJs (r : LootRun) : Js :=
  .obj [("id", .str r.id), ("characterId", .str r.characterId), ("server", textJs r.server),
    ("content", .str r.content), ("role", textJs r.role), ("powerBracket", textJs r.powerBracket),
    ("startedAt", textJs r.startedAt), ("endedAt", textJs r.endedAt), ("seconds", .num r.seconds),
    ("createdAt", .str r.createdAt), ("updatedAt", .str r.updatedAt)]

def dropJs (r : LootRunDrop) : Js :=
  .obj [("id", .str r.id), ("runId", .str r.runId), ("itemId", textJs r.itemId),
    ("itemName", .str r.itemName), ("qty", .num r.qty), ("note", textJs r.note),
    ("createdAt", .str r.createdAt), ("updatedAt", .str r.updatedAt)]

def costJs (r : LootRunCost) : Js :=
  .obj [("id", .str r.id), ("runId", .str r.runId), ("kind", .str r.kind.text),
    ("itemId", textJs r.itemId), ("itemName", textJs r.itemName), ("qty", .num r.qty),
    ("kinah", .num r.kinah), ("note", textJs r.note), ("createdAt", .str r.createdAt),
    ("updatedAt", .str r.updatedAt)]

/-! ### The backup -/

/-- ORDER BY updated_at DESC, created_at DESC. -/
def byUpdated {ρ : Type} (updatedAt createdAt : ρ → String) : ρ → ρ → Bool :=
  desc updatedAt (desc createdAt anyOrder)

/-- The rows of every user table in the order of the file. -/
structure UserRows where
  activeCharacterId : Option String
  characters : List AppCharacter
  default : PlannerSettings
  perServer : List PlannerSettingsRow
  templates : List PlannerTemplate
  assignments : List PlannerAssignment
  completions : List PlannerCompletion
  chargeUses : List PlannerChargeUse
  durations : List PlannerDuration
  buildScores : List BuildScoreRow
  presets : List BuildScorePresetRow
  items : List EconomyItem
  prices : List EconomyPrice
  watches : List EconomyPriceWatch
  runs : List LootRun
  drops : List LootRunDrop
  costs : List LootRunCost

/-- The SELECTs of `exportUserBackup`. -/
def readUserRows (now : ℤ) : Prog UserRows := do
  let activeCharacterId ← getActiveCharacterId
  let characters ← listCharacters
  let default ← getPlannerSettings now
  let perServer ← schema.selectBy .plannerSettings isServerSettings (asc (·.id) anyOrder)
  let templates ← listPlannerTemplates
  let assignments ← schema.selectBy .plannerAssignment (fun _ => true)
    (byUpdated (·.updatedAt) (·.createdAt))
  let completions ← schema.selectBy .plannerCompletion (fun _ => true)
    (desc (·.completedAt) anyOrder)
  let chargeUses ← schema.selectBy .plannerChargeUse (fun _ => true) (desc (·.usedAt) anyOrder)
  let durations ← schema.selectBy .plannerDuration (fun _ => true) (desc (·.startedAt) anyOrder)
  let buildScores ← schema.selectBy .buildScore (fun _ => true) (desc (·.updatedAt) anyOrder)
  let presets ← schema.selectBy .buildScorePreset (fun _ => true)
    (byUpdated (·.updatedAt) (·.createdAt))
  let items ← schema.selectBy .economyItem (fun _ => true) (byUpdated (·.updatedAt) (·.createdAt))
  let prices ← schema.selectBy .economyPrice (fun _ => true)
    (desc (·.recordedAt) (desc (·.createdAt) anyOrder))
  let watches ← schema.selectBy .economyPriceWatch (fun _ => true)
    (byUpdated (·.updatedAt) (·.createdAt))
  -- NULL sorts before every text
  let runs ← schema.selectBy .lootRun (fun _ => true)
    (desc (·.endedAt.toList) (desc (·.createdAt) anyOrder))
  let drops ← schema.selectBy .lootRunDrop (fun _ => true) (desc (·.createdAt) anyOrder)
  let costs ← schema.selectBy .lootRunCost (fun _ => true) (desc (·.createdAt) anyOrder)
  pure
    { activeCharacterId := activeCharacterId
      characters := characters
      default := default
      perServer := perServer
      templates := templates
      assignments := assignments
      completions := completions
      chargeUses := chargeUses
      durations := durations
      buildScores := buildScores
      presets := presets
      items := items
      prices := prices
      watches := watches
      runs := runs
      drops := drops
      costs := costs }

/-- A section that is left out when it is empty. -/
def optionalSection (name : String) (present : Bool) (v : Js) : List (String × Js) :=
  if present then [(name, v)] else []

def UserRows.plannerJs (u : UserRows) : Js :=
  .obj [("settings", .obj [("default", settingsJs u.default),
      ("perServer", .arr (u.perServer.map serverSettingsJs))]),
    ("templates", .arr (u.templates.map templateJs)),
    ("assignments", .arr (u.assignments.map assignmentJs)),
    ("completions", .arr (u.completions.map completionJs)),
    ("chargeUses", .arr (u.chargeUses.map chargeUseJs)),
    ("durations", .arr (u.durations.map durationJs))]

def UserRows.buildScoreSection (u : UserRows) : List (String × Js) :=
  optionalSection "buildScore" (!u.buildScores.isEmpty || !u.presets.isEmpty)
    (.obj (("perCharacter", .arr (u.buildScores.map buildScoreJs)) ::
      optionalSection "presets" (!u.presets.isEmpty) (.arr (u.presets.map presetJs))))

def UserRows.economySection (u : UserRows) : List (String × Js) :=
  optionalSection "economy" (!u.items.isEmpty || !u.prices.isEmpty || !u.watches.isEmpty)
    (.obj [("items", .arr (u.items.map itemJs)), ("prices", .arr (u.prices.map priceJs)),
      ("watches", .arr (u.watches.map watchJs))])

def UserRows.lootSection (u : UserRows) : List (String × Js) :=
  optionalSection "loot" (!u.runs.isEmpty || !u.drops.isEmpty || !u.costs.isEmpty)
    (.obj [("runs", .arr (u.runs.map lootRunJs)), ("drops", .arr (u.drops.map dropJs)),
      ("costs", .arr (u.costs.map costJs))])

/-- The backup made of the rows. -/
def UserRows.toJs (u : UserRows) (exportedAt : String) : Js :=
  .obj ([("schemaVersion", .num 4), ("exportedAt", .str exportedAt),
    ("activeCharacterId", textJs u.activeCharacterId),
    ("characters", .arr (u.characters.map characterJs)), ("planner", u.plannerJs)] ++
    u.buildScoreSection ++ u.economySection ++ u.lootSection)

def exportUserBackup (now : ℤ) : Prog Js := do
  let rows ← readUserRows now
  pure (rows.toJs (stamp now))

end Hub
