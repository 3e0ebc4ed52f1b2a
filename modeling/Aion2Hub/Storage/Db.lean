/-
Aion2Hub/Storage/Db.lean

`db.ts`: the life of a `DesktopDb`.  `openDesktopDb` loads the file, sets the
pragma, creates what is missing and persists; after that come operations and
further persists, in any order.

`Op` lists the methods of `DesktopDb` that can write, each with its arguments
and with the clock readings and ids it draws; a `Step` is one of them or a
`persist()`.  An operation that throws leaves the state it had reached.
-/
import Aion2Hub.Storage.Notices
import Aion2Hub.Storage.Restore

namespace Hub

open Sql

/-! ### Operations -/

/-- A call of a method of `DesktopDb` that can write. -/
inductive Op where
  | upsertNoticeItem (input : NoticeInput) (draw : Draw)
  | upsertSnapshot (input : SnapshotInput) (draw : Draw)
  | upsertDiff (input : DiffInput) (draw : Draw)
  | setSetting (key : String) (value : Option String)
  | createCharacter (input : CharacterInput) (id : String) (now : ℤ)
  | updateCharacter (id : String) (input : CharacterInput) (now : ℤ)
  | deleteCharacter (characterId : String)
  | setBuildScore (characterId : String) (raw : Js) (now : ℤ)
  | deleteBuildScore (characterId : String)
  | createBuildScorePreset (input : PresetInput) (state : Js) (draw : Draw)
  | createBuildScorePresetFromStats (input : PresetInput) (stats : List BuildScoreStat)
      (createdAt updatedAt : Option String) (draw : Draw)
  | importBuildScorePresetsFromJson (characterId : String) (payload : Js) (now : ℤ)
      (draws : ℕ → Draw)
  | updateBuildScorePreset (presetId : String) (name : Option String)
      (description : Option (Option String)) (now : ℤ)
  | cloneBuildScorePreset (presetId : String) (newName : Option String) (draw : Draw)
  | deleteBuildScorePreset (presetId : String)
  | getPlannerSettings (now : ℤ)
  | setPlannerSettingsDefault (input : SettingsInput) (now : ℤ)
  | setPlannerSettingsForServer (server : String) (input : SettingsInput) (now : ℤ)
  | clearPlannerSettingsForServer (server : String)
  | createPlannerTemplate (input : TemplateInput) (draw : Draw)
  | updatePlannerTemplate (id : String) (input : TemplateInput) (now : ℤ)
  | deletePlannerTemplate (templateId : String)
  | applyPlannerPreset (mode : PresetMode) (templates : List Js) (draws : ℕ → Draw)
  | setPlannerCompletion (input : CompletionInput) (id : String) (now : ℤ)
  | useCharge (characterId templateId : String) (usedAtIso : Option String) (id : String) (now : ℤ)
  | undoCharge (characterId templateId : String)
  | addPlannerDuration (input : DurationInput) (id : String)
  | deletePlannerDuration (id characterId : String)
  | importUserBackup (raw : Js) (now : ℤ)
  | updateEconomyItem (id name : String) (category note : Option String) (now : ℤ)
  | deleteEconomyItem (itemId : String)
  | addEconomyPrice (input : PriceInput) (draws : ℕ → Draw)
  | createEconomyWatch (input : WatchInput) (draws : ℕ → Draw)
  | setEconomyWatchActive (id : String) (active : Bool) (now : ℤ)
  | deleteEconomyWatch (watchId : String)
  | markEconomyAlertRead (id : String) (now : ℤ)
  | createLootRun (input : LootRunInput) (draw : Draw) (dropDraws costDraws : ℕ → ℕ → Draw)
  | deleteLootRun (id characterId : String)

/-- The program behind a call, without what it returns. -/
def Op.run (host : Host) : Op → Prog Unit
  | .upsertNoticeItem input draw => (Hub.upsertNoticeItem input draw).discard
  | .upsertSnapshot input draw => (Hub.upsertSnapshot input draw).discard
  | .upsertDiff input draw => (Hub.upsertDiff input draw).discard
  | .setSetting key value => Hub.setSetting key value
  | .createCharacter input id now => (Hub.createCharacter input id now).discard
  | .updateCharacter id input now => Hub.updateCharacter id input now
  | .deleteCharacter characterId => Hub.deleteCharacter characterId
  | .setBuildScore characterId raw now => Hub.setBuildScore characterId raw now
  | .deleteBuildScore characterId => Hub.deleteBuildScore characterId
  | .createBuildScorePreset input state draw => (Hub.createBuildScorePreset input state draw).discard
  | .createBuildScorePresetFromStats input stats createdAt updatedAt draw =>
      (Hub.createBuildScorePresetFromStats input stats createdAt updatedAt draw).discard
  | .importBuildScorePresetsFromJson characterId payload now draws =>
      (Hub.importBuildScorePresetsFromJson characterId payload now draws).discard
  | .updateBuildScorePreset presetId name description now =>
      (Hub.updateBuildScorePreset presetId name description now).discard
  | .cloneBuildScorePreset presetId newName draw =>
      (Hub.cloneBuildScorePreset presetId newName draw).discard
  | .deleteBuildScorePreset presetId => Hub.deleteBuildScorePreset presetId
  | .getPlannerSettings now => (Hub.getPlannerSettings now).discard
  | .setPlannerSettingsDefault input now => Hub.setPlannerSettingsDefault input now
  | .setPlannerSettingsForServer server input now => Hub.setPlannerSettingsForServer server input now
  | .clearPlannerSettingsForServer server => Hub.clearPlannerSettingsForServer server
  | .createPlannerTemplate input draw => (Hub.createPlannerTemplate input draw).discard
  | .updatePlannerTemplate id input now => Hub.updatePlannerTemplate id input now
  | .deletePlannerTemplate templateId => Hub.deletePlannerTemplate templateId
  | .applyPlannerPreset mode templates draws =>
      (Hub.applyPlannerPreset host mode templates draws).discard
  | .setPlannerCompletion input id now => Hub.setPlannerCompletion host input id now
  | .useCharge characterId templateId usedAtIso id now =>
      (Hub.useCharge host characterId templateId usedAtIso id now).discard
  | .undoCharge characterId templateId => (Hub.undoCharge characterId templateId).discard
  | .addPlannerDuration input id => (Hub.addPlannerDuration host input id).discard
  | .deletePlannerDuration id characterId => Hub.deletePlannerDuration id characterId
  | .importUserBackup raw now => Hub.importUserBackup raw now
  | .updateEconomyItem id name category note now => Hub.updateEconomyItem id name category note now
  | .deleteEconomyItem itemId => Hub.deleteEconomyItem itemId
  | .addEconomyPrice input draws => (Hub.addEconomyPrice input draws).discard
  | .createEconomyWatch input draws => (Hub.createEconomyWatch input draws).discard
  | .setEconomyWatchActive id active now => Hub.setEconomyWatchActive id active now
  | .deleteEconomyWatch watchId => Hub.deleteEconomyWatch watchId
  | .markEconomyAlertRead id now => Hub.markEconomyAlertRead id now
  | .createLootRun input draw dropDraws costDraws =>
      (Hub.createLootRun host input draw dropDraws costDraws).discard
  | .deleteLootRun id characterId => Hub.deleteLootRun id characterId

/-! ### Opening and persisting -/

/-- `new SQL.Database(existing)`, or `new SQL.Database()` without a file. -/
def newDatabase (existing : Option (Db Row)) : Conn :=
  ⟨existing.getD fun _ => [], false, none⟩

def ensureDefaults (now : ℤ) : Prog Unit :=
  schema.insert .ignore .plannerSettings (defaultSettingsRow now)

/-- `init()`; creating tables that exist changes nothing. -/
def init (now : ℤ) : Prog Unit := do
  pragmaForeignKeysOn
  ensureDefaults now

/-- The first half of `persist()`: what is written to the file. -/
def persist : Prog (Db Row) := exportDb

/-- The connection that `openDesktopDb` returns. -/
def opened (existing : Option (Db Row)) (now : ℤ) : Conn :=
  ((do init now; persist) (newDatabase existing)).2

/-! ### Runs -/

inductive Step where
  | op (op : Op)
  | persist

def Step.run (host : Host) : Step → Prog Unit
  | .op call => call.run host
  | .persist => Hub.persist.discard

/-- The states of the runs from `c` whose steps all satisfy `Safe`. -/
inductive Reaches (host : Host) (Safe : Conn → Step → Prop) (c : Conn) : Conn → Prop where
  | start : Reaches host Safe c c
  | step {d : Conn} {s : Step} :
      Reaches host Safe c d → Safe d s → Reaches host Safe c (s.run host d).2

/-- The states of the application: `openDesktopDb` on any file, then any
steps. -/
def Reachable (host : Host) (c : Conn) : Prop :=
  ∃ existing now, Reaches host (fun _ _ => True) (opened existing now) c

/-- What holds of the first state and is kept by every safe step holds of
every state of the run. -/
theorem Reaches.induction {host : Host} {Safe : Conn → Step → Prop} {I : Conn → Prop} {c d : Conn}
    (hc : I c) (hstep : ∀ d s, I d → Safe d s → I (s.run host d).2)
    (h : Reaches host Safe c d) : I d := by
  induction h with
  | start => exact hc
  | step _ hsafe ih => exact hstep _ _ ih hsafe

end Hub
