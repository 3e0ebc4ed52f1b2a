/-
Aion2Hub/Storage/BuildScore.lean

`domains/buildScore.ts`: the validation of build scores and the operations on
build scores and presets.

The columns `data_json` and `stats_json` hold `JSON.stringify` of a value, so
they are modelled by the value that parsing the text gives back.
-/
import Aion2Hub.Storage.Planner

namespace Hub

open Sql

/-! ### Validation -/

inductive BuildScoreUnit where
  | flat
  | percent
  deriving DecidableEq

def BuildScoreUnit.text : BuildScoreUnit → String
  | .flat => "flat"
  | .percent => "percent"

structure BuildScoreStat where
  id : String
  label : String
  unit : BuildScoreUnit
  enabled : Bool
  weight : Number
  deriving DecidableEq

structure BuildScoreSet where
  name : String
  values : List (String × Number)

structure BuildScoreState where
  updatedAt : String
  stats : List BuildScoreStat
  setA : BuildScoreSet
  setB : BuildScoreSet

def asBuildScoreUnit (value : Option Js) : BuildScoreUnit :=
  if Js.asString value = some "percent" then .percent else .flat

/-- A text that is there and not empty. -/
def requiredText (value : Option Js) : Option String := nonEmpty (Js.asString value)

/-- One round of the loop of `asBuildScoreStats`; `none` makes it return
null. -/
def asBuildScoreStat (s : Js) : Option BuildScoreStat := do
  let id ← requiredText (s.get "id")
  let label ← requiredText (s.get "label")
  pure
    { id := id
      label := label
      unit := asBuildScoreUnit (s.get "unit")
      enabled := Js.truthy (s.get "enabled")
      weight := ((Js.asNumber (s.get "weight")).filter Number.isFinite).getD 0 }

def asBuildScoreStats (value : Option Js) : Option (List BuildScoreStat) :=
  match value with
  | some (.arr elems) => elems.mapM asBuildScoreStat
  | _ => none

/-- `Object.entries`. -/
def entries : Js → List (String × Js)
  | .obj fields => fields
  | .arr elems => elems.zipIdx.map fun p => (toString p.2, p.1)
  | _ => []

def asBuildScoreSet (value : Option Js) (fallbackName : String) : Option BuildScoreSet :=
  match value with
  | some v =>
      if v.isObject then
        let name := Text.trim ((Js.asString (v.get "name")).getD "")
        -- assigning a number to `__proto__` has no effect
        some
          { name := if name = "" then fallbackName else name
            values := (entries (Js.asRecord (v.get "values"))).filterMap fun p =>
              if p.1 = "__proto__" then none
              else ((Js.asNumber (some p.2)).filter Number.isFinite).map fun x => (p.1, x) }
      else none
  | none => none

def asBuildScoreState (value : Js) (now : ℤ) : Option BuildScoreState := do
  guard (Js.asNumber (value.get "version") = some 1)
  let stats ← asBuildScoreStats (value.get "stats")
  let setA ← asBuildScoreSet (value.get "setA") "세팅 A"
  let setB ← asBuildScoreSet (value.get "setB") "세팅 B"
  pure
    { updatedAt := (Js.asString (value.get "updatedAt")).getD (stamp now)
      stats := stats
      setA := setA
      setB := setB }

/-! ### The values that are stored -/

def BuildScoreStat.toJs (s : BuildScoreStat) : Js :=
  .obj [("id", .str s.id), ("label", .str s.label), ("unit", .str s.unit.text),
    ("enabled", .bool s.enabled), ("weight", .num s.weight)]

def BuildScoreSet.toJs (s : BuildScoreSet) : Js :=
  .obj [("name", .str s.name), ("values", .obj (s.values.map fun p => (p.1, .num p.2)))]

def BuildScoreState.toJs (s : BuildScoreState) : Js :=
  .obj [("version", .num 1), ("updatedAt", .str s.updatedAt),
    ("stats", .arr (s.stats.map BuildScoreStat.toJs)), ("setA", s.setA.toJs), ("setB", s.setB.toJs)]

/-- `JSON.stringify(stats)`. -/
def statsJson (stats : List BuildScoreStat) : Js :=
  Js.serialise (.arr (stats.map BuildScoreStat.toJs))

/-! ### Build scores -/

def setBuildScore (characterId : String) (raw : Js) (now : ℤ) : Prog Unit := do
  let parsed ← Exec.ofOption "bad_build_score" (asBuildScoreState raw now)
  let json := Js.serialise { parsed with updatedAt := stamp now }.toJs
  schema.upsert .buildScore ⟨characterId, json, stamp now⟩ fun r =>
    { r with dataJson := json, updatedAt := stamp now }

def deleteBuildScore (characterId : String) : Prog Unit :=
  schema.delete .buildScore fun r => r.characterId == characterId

/-! ### Presets -/

structure BuildScorePreset where
  id : String
  characterId : String
  name : String
  description : Option String
  stats : List BuildScoreStat
  createdAt : String
  updatedAt : String

structure BuildScorePresetListItem where
  id : String
  name : String
  description : Option String
  statCount : ℕ
  createdAt : String
  updatedAt : String

/-- The preset in a row; stats that are not valid read as none. -/
def asBuildScorePreset (r : BuildScorePresetRow) : BuildScorePreset :=
  ⟨r.id, r.characterId, r.name, r.description, (asBuildScoreStats (some r.statsJson)).getD [],
    r.createdAt, r.updatedAt⟩

def getBuildScorePreset (presetId : String) : Prog (Option BuildScorePreset) := do
  let row ← schema.selectOne .buildScorePreset fun r => r.id == presetId
  pure ((row.filter (·.id ≠ "")).map asBuildScorePreset)

/-- `s.trim()`, or an exception when nothing is left. -/
def requireName (s : String) : Prog String :=
  Exec.ofOption "bad_request" (nonEmpty (some (Text.trim s)))

structure PresetInput where
  characterId : String
  name : String
  description : Option String

/-- The INSERT that the three ways to create a preset share. -/
def insertPreset (p : BuildScorePreset) : Prog BuildScorePresetListItem := do
  schema.insert .abort .buildScorePreset
    ⟨p.id, p.characterId, p.name, p.description, statsJson p.stats, p.createdAt, p.updatedAt⟩
  pure ⟨p.id, p.name, p.description, p.stats.length, p.createdAt, p.updatedAt⟩

def createBuildScorePreset (input : PresetInput) (state : Js) (draw : Draw) :
    Prog BuildScorePresetListItem := do
  let parsed ← Exec.ofOption "bad_build_score" (asBuildScoreState state draw.now)
  let name ← requireName input.name
  insertPreset ⟨draw.id, input.characterId, name, input.description.map Text.trim, parsed.stats,
    stamp draw.now, stamp draw.now⟩

def createBuildScorePresetFromStats (input : PresetInput) (stats : List BuildScoreStat)
    (createdAt updatedAt : Option String) (draw : Draw) : Prog BuildScorePresetListItem := do
  let name ← requireName input.name
  let created := createdAt.getD (stamp draw.now)
  insertPreset ⟨draw.id, input.characterId, name, input.description.map Text.trim, stats,
    created, updatedAt.getD created⟩

/-- The presets in an exported file: a list, a single one, or the object
itself. -/
def presetItems (obj : Js) : List Js :=
  let nested := if Js.truthy (obj.get "name") && Js.truthy (obj.get "stats") then [obj] else []
  match obj.get "presets" with
  | some (.arr elems) => elems.filter Js.isObject
  | _ =>
      match obj.get "preset" with
      | some v => if v.isObject then [v] else nested
      | none => nested

/-- The name of the preset that is created after `count` others. -/
def presetName (it : Js) (count : ℕ) : String :=
  let name := Text.trim ((Js.asString (it.get "name")).getD "")
  if name = "" then "가져온 프리셋 (" ++ toString (count + 1) ++ ")" else name

/-- The loop over the presets of a file; those without valid stats are
skipped. -/
def createPresets (characterId : String) (now : ℤ) (draws : ℕ → Draw) :
    List Js → List BuildScorePresetListItem → Prog (List BuildScorePresetListItem)
  | [], created => pure created
  | it :: items, created =>
      match asBuildScoreStats (it.get "stats") with
      | none => createPresets characterId now draws items created
      | some stats => do
          let item ← createBuildScorePresetFromStats
            ⟨characterId, presetName it created.length, Js.asString (it.get "description")⟩ stats
            (some ((Js.asString (it.get "createdAt")).getD (stamp now)))
            (some ((Js.asString (it.get "updatedAt")).getD (stamp now))) (draws created.length)
          createPresets characterId now draws items (created ++ [item])

def importBuildScorePresetsFromJson (characterId : String) (payload : Js) (now : ℤ)
    (draws : ℕ → Draw) : Prog (List BuildScorePresetListItem) :=
  if payload.isObject = false ∨ presetItems payload = [] then Exec.throw "bad_request"
  else createPresets characterId now draws (presetItems payload) []

/-- In an update `none` is undefined, and `some none` null. -/
def updateBuildScorePreset (presetId : String) (name : Option String)
    (description : Option (Option String)) (now : ℤ) : Prog BuildScorePresetListItem := do
  let existing ← getBuildScorePreset presetId
  let existing ← Exec.ofOption "not_found" existing
  let name ← Exec.ofOption "bad_request" (nonEmpty (some ((name.map Text.trim).getD existing.name)))
  let description := (description.map (·.map Text.trim)).getD existing.description
  schema.update .buildScorePreset (fun r => r.id == presetId) fun r =>
    { r with name := name, description := description, updatedAt := stamp now }
  pure ⟨presetId, name, description, existing.stats.length, existing.createdAt, stamp now⟩

def cloneBuildScorePreset (presetId : String) (newName : Option String) (draw : Draw) :
    Prog BuildScorePresetListItem := do
  let existing ← getBuildScorePreset presetId
  let existing ← Exec.ofOption "not_found" existing
  let name := (nonEmpty (newName.map Text.trim)).getD (existing.name ++ " (복사)")
  insertPreset ⟨draw.id, existing.characterId, name, existing.description, existing.stats,
    stamp draw.now, stamp draw.now⟩

def deleteBuildScorePreset (presetId : String) : Prog Unit :=
  schema.delete .buildScorePreset fun r => r.id == presetId

end Hub
