/-
Aion2Hub/Storage/Planner.lean

`domains/planner.ts` without the overview: the reset settings, the templates
and the presets, completions, charge uses and durations.

Where one call draws several ids, it takes them from a supply
`draws : ℕ → Draw`: the `i`-th id with the time at which it was drawn.
-/
import Aion2Hub.Storage.Characters

namespace Hub

open Sql

/-- An id and the time at which it was drawn.  `randomUUID()` writes
hexadecimal digits and hyphens. -/
structure Draw where
  id : String
  now : ℤ
  plain : Text.Plain id
  ne : id ≠ ""

theorem Draw.cut_ne (draw : Draw) : Text.cut draw.id ≠ "" := by
  rw [draw.plain.cut]
  exact draw.ne

/-- An id of `i + 1` letters, drawn at `now`. -/
def nthDraw (i : ℕ) (now : ℤ) : Draw where
  id := String.ofList (List.replicate (i + 1) 'u')
  now := now
  plain := by simp [Text.Plain]
  ne := fun h => by simpa using congrArg String.toList h

@[simp] theorem length_nthDraw (i : ℕ) (now : ℤ) : (nthDraw i now).id.toList.length = i + 1 := by
  rw [nthDraw, String.toList_ofList, List.length_replicate]

/-! ### Reset settings -/

structure PlannerSettings where
  dailyResetHhmm : String
  weeklyResetDay : Number
  updatedAt : String

inductive PlannerSettingsScope where
  | default
  | server

/-- What `getPlannerSettingsBundle` returns: the default settings, those of
the server and the ones that apply. -/
structure PlannerSettingsBundle where
  default : PlannerSettings
  server : Option (String × PlannerSettings)
  effective : PlannerSettings
  effectiveScope : PlannerSettingsScope

def normalizeServerName (server : Option String) : Option String :=
  let trimmed := Text.trim (server.getD "")
  if trimmed = "" then none else some trimmed

def plannerSettingsIdForServer (server : String) : String := "server:" ++ server

def asPlannerSettings (r : PlannerSettingsRow) : PlannerSettings :=
  ⟨r.dailyResetHhmm, r.weeklyResetDay, r.updatedAt⟩

def readPlannerSettingsById (id : String) : Prog (Option PlannerSettings) := do
  let row ← schema.selectOne .plannerSettings fun r => r.id == id
  pure (row.map asPlannerSettings)

/-- The row of the default settings when nothing has been set. -/
def defaultSettingsRow (now : ℤ) : PlannerSettingsRow := ⟨"default", "09:00", 1, stamp now⟩

theorem whole_defaultSettingsRow (now : ℤ) :
    schema.Whole .plannerSettings (defaultSettingsRow now) := by
  have hid : Text.Plain "default" := by decide
  have hhhmm : Text.Plain "09:00" := by decide
  show (⟨Text.cut "default", Text.cut "09:00", 1, Text.cut (stamp now)⟩ : PlannerSettingsRow) = _
  rw [hid.cut, hhhmm.cut, cut_stamp]
  rfl

def getPlannerSettings (now : ℤ) : Prog PlannerSettings := do
  match ← readPlannerSettingsById "default" with
  | some settings => pure settings
  | none =>
      schema.insert .ignore .plannerSettings (defaultSettingsRow now)
      pure (asPlannerSettings (defaultSettingsRow now))

def getPlannerSettingsBundle (server : Option String) (now : ℤ) : Prog PlannerSettingsBundle := do
  let base ← getPlannerSettings now
  match normalizeServerName server with
  | none => pure ⟨base, none, base, .default⟩
  | some name =>
      match ← readPlannerSettingsById (plannerSettingsIdForServer name) with
      | none => pure ⟨base, none, base, .default⟩
      | some row => pure ⟨base, some (name, row), row, .server⟩

def getPlannerSettingsEffective (server : Option String) (now : ℤ) :
    Prog (PlannerSettings × PlannerSettingsScope) := do
  let bundle ← getPlannerSettingsBundle server now
  pure (bundle.effective, bundle.effectiveScope)

structure SettingsInput where
  dailyResetHhmm : String
  weeklyResetDay : Number

/-- INSERT … ON CONFLICT(id) DO UPDATE of one row of settings. -/
def writePlannerSettings (id : String) (input : SettingsInput) (now : ℤ) : Prog Unit := do
  let day ← notNull input.weeklyResetDay
  schema.upsert .plannerSettings ⟨id, input.dailyResetHhmm, day, stamp now⟩ fun r =>
    { r with dailyResetHhmm := input.dailyResetHhmm, weeklyResetDay := day, updatedAt := stamp now }

def setPlannerSettingsDefault (input : SettingsInput) (now : ℤ) : Prog Unit :=
  writePlannerSettings "default" input now

def setPlannerSettings (input : SettingsInput) (now : ℤ) : Prog Unit :=
  setPlannerSettingsDefault input now

def setPlannerSettingsForServer (server : String) (input : SettingsInput) (now : ℤ) : Prog Unit :=
  match normalizeServerName (some server) with
  | none => pure ()
  | some name => writePlannerSettings (plannerSettingsIdForServer name) input now

def clearPlannerSettingsForServer (server : String) : Prog Unit :=
  match normalizeServerName (some server) with
  | none => pure ()
  | some name => schema.delete .plannerSettings fun r => r.id == plannerSettingsIdForServer name

/-! ### Templates -/

def listPlannerTemplates : Prog (List PlannerTemplate) :=
  schema.selectBy .plannerTemplate (fun _ => true) (asc (·.type.text) (asc (·.title) anyOrder))

/-- The fields of a template that a caller gives; `none` is undefined or
null. -/
structure TemplateInput where
  title : String
  type : PlannerTemplateType
  estimateMinutes : Option Number
  rechargeHours : Option Number
  maxStacks : Option Number

/-- `Math.max(0, Math.floor(x ?? 0))`. -/
def estimate (x : Option Number) : Number := Number.atLeast 0 (Number.floor (x.getD 0))

/-- `type === "CHARGE" ? (x ?? null) : null`, as it is stored. -/
def chargeOnly (type : PlannerTemplateType) (x : Option Number) : Option Number :=
  if type = .charge then x.bind Number.bind else none

def createPlannerTemplate (input : TemplateInput) (draw : Draw) : Prog String := do
  let minutes ← notNull (estimate input.estimateMinutes)
  schema.insert .abort .plannerTemplate
    { id := draw.id
      title := input.title
      type := input.type
      estimateMinutes := minutes
      rechargeHours := chargeOnly input.type input.rechargeHours
      maxStacks := chargeOnly input.type input.maxStacks
      createdAt := stamp draw.now
      updatedAt := stamp draw.now }
  -- Auto-assign to all characters.
  schema.insertSelect .ignore .plannerAssignment fun db => (db .appCharacter).map fun c =>
    ⟨"assign:" ++ draw.id ++ ":" ++ c.id, c.id, draw.id, true, none, stamp draw.now, stamp draw.now⟩
  pure draw.id

def updatePlannerTemplate (id : String) (input : TemplateInput) (now : ℤ) : Prog Unit := do
  match (estimate input.estimateMinutes).bind with
  | some minutes =>
      schema.update .plannerTemplate (fun r => r.id == id) fun r =>
        { r with
          title := input.title
          type := input.type
          estimateMinutes := minutes
          rechargeHours := chargeOnly input.type input.rechargeHours
          maxStacks := chargeOnly input.type input.maxStacks
          updatedAt := stamp now }
  | none =>
      -- NULL is rejected when a row is written, so not without one
      let row ← schema.selectOne .plannerTemplate fun r => r.id == id
      if row.isSome then Exec.throw "NOT NULL constraint failed" else pure ()

def deletePlannerTemplate (templateId : String) : Prog Unit :=
  schema.delete .plannerTemplate fun r => r.id == templateId

/-! ### Presets -/

/-- The template a preset entry asks for, if it is one. -/
def normalizeTemplate (t : Js) : Option TemplateInput :=
  if t.isObject then
    let title := Text.trim ((Js.asString (t.get "title")).getD "")
    if title = "" then none
    else
      ((Js.asString (t.get "type")).bind PlannerTemplateType.ofText).map fun type =>
        { title := title
          type := type
          estimateMinutes := some
            (((Js.asNumber (t.get "estimateMinutes")).map fun x => estimate (some x)).getD 0)
          rechargeHours := if type = .charge then Js.asNumber (t.get "rechargeHours") else none
          maxStacks := if type = .charge then Js.asNumber (t.get "maxStacks") else none }
  else none

def makeKey (host : Host) (type : PlannerTemplateType) (title : String) : String :=
  type.text ++ ":" ++ host.toLowerCase (Text.trim title)

/-- The loop over the normalised templates: create those with a new key, and
count. -/
def createMissing (host : Host) (draws : ℕ → Draw) :
    List TemplateInput → List String → ℕ → ℕ → Prog (ℕ × ℕ)
  | [], _, created, skipped => pure (created, skipped)
  | t :: ts, existingKeys, created, skipped =>
      if makeKey host t.type t.title ∈ existingKeys then
        createMissing host draws ts existingKeys created (skipped + 1)
      else do
        let _ ← createPlannerTemplate t (draws created)
        createMissing host draws ts (makeKey host t.type t.title :: existingKeys) (created + 1)
          skipped

inductive PresetMode where
  | merge
  | replace
  deriving DecidableEq

/-- `if (mode === "replace") DELETE FROM planner_template`. -/
def clearForPreset (mode : PresetMode) : Prog Unit :=
  if mode = .replace then schema.delete .plannerTemplate fun _ => true else pure ()

def applyPlannerPreset (host : Host) (mode : PresetMode) (templates : List Js)
    (draws : ℕ → Draw) : Prog (ℕ × ℕ) := do
  clearForPreset mode
  let existing ← schema.select .plannerTemplate fun _ => true
  createMissing host draws (templates.filterMap normalizeTemplate)
    (existing.map fun r => makeKey host r.type r.title) 0 0

/-! ### Completions, charge uses, durations -/

/-- `s ? new Date(s) : new Date()`, and the present when that is invalid. -/
def resolveDate (host : Host) (s : Option String) (now : ℤ) : ℤ :=
  ((nonEmpty s).bind host.parseDate).getD now

structure CompletionInput where
  characterId : String
  templateId : String
  periodKey : String
  completed : Bool
  atIso : Option String

def setPlannerCompletion (host : Host) (input : CompletionInput) (id : String) (now : ℤ) :
    Prog Unit :=
  if input.completed then
    schema.insert .ignore .plannerCompletion
      ⟨id, input.characterId, input.templateId, input.periodKey,
        stamp (resolveDate host input.atIso now)⟩
  else
    schema.delete .plannerCompletion fun r =>
      r.characterId == input.characterId && r.templateId == input.templateId &&
        r.periodKey == input.periodKey

def useCharge (host : Host) (characterId templateId : String) (usedAtIso : Option String)
    (id : String) (now : ℤ) : Prog String := do
  schema.insert .abort .plannerChargeUse
    ⟨id, characterId, templateId, stamp (resolveDate host usedAtIso now)⟩
  pure id

/-- The uses of one template by one character. -/
def isUseOf (characterId templateId : String) (r : PlannerChargeUse) : Bool :=
  r.characterId == characterId && r.templateId == templateId

/-- ORDER BY used_at DESC LIMIT 1; among uses at the same time the index yields
the one stored last first. -/
def latestUse (characterId templateId : String) (db : Db Row) : Option PlannerChargeUse :=
  (orderBy (desc (·.usedAt) anyOrder)
    ((db .plannerChargeUse).filter (isUseOf characterId templateId)).reverse).head?

def undoCharge (characterId templateId : String) : Prog (Option String) := do
  let row ← Exec.gets fun c => (latestUse characterId templateId c.db).map
    (schema.read .plannerChargeUse)
  match nonEmpty (row.map (·.id)) with
  | none => pure none
  | some id =>
      schema.delete .plannerChargeUse fun r => r.id == id
      pure (some id)

structure DurationInput where
  characterId : String
  templateId : String
  startedAt : String
  endedAt : String
  seconds : Number

def addPlannerDuration (host : Host) (input : DurationInput) (id : String) : Prog String := do
  let started ← Exec.ofOption "bad_request" (host.parseDate input.startedAt)
  let ended ← Exec.ofOption "bad_request" (host.parseDate input.endedAt)
  let seconds ← notNull (Number.atLeast 1 (Number.floor input.seconds))
  schema.insert .abort .plannerDuration
    ⟨id, input.characterId, some input.templateId, stamp started, stamp ended, seconds⟩
  pure id

def deletePlannerDuration (id characterId : String) : Prog Unit :=
  schema.delete .plannerDuration fun r => r.id == id && r.characterId == characterId

end Hub
