/-
Aion2Hub/Storage/Schema.lean

The tables of `SCHEMA_SQL`: one structure per table, with the columns as
fields, and the instance of `Sql.Schema` that carries the primary keys, the
UNIQUE keys and the foreign keys with their ON DELETE actions, and what sql.js
returns of a stored row: it reads a TEXT as a C string, so only up to its first
U+0000.

Columns that a CHECK limits to a few texts are inductive types, so a row that
violates the CHECK cannot be built.  A numeric column holds a `Number` (SQLite
stores whatever number it is given, also in an INTEGER column), a NULL column
an `Option`.  A column that holds JSON text holds the value of that text.
-/
import Aion2Hub.Lib.Transaction
import Aion2Hub.Lib.Text

/-! ### Columns with a CHECK -/

/-- `source IN ('NOTICE','UPDATE')`. -/
inductive NoticeSource where
  | notice
  | update
  deriving DecidableEq

def NoticeSource.text : NoticeSource → String
  | .notice => "NOTICE"
  | .update => "UPDATE"

/-- `type IN ('DAILY','WEEKLY','CHARGE')`. -/
inductive PlannerTemplateType where
  | daily
  | weekly
  | charge
  deriving DecidableEq

def PlannerTemplateType.text : PlannerTemplateType → String
  | .daily => "DAILY"
  | .weekly => "WEEKLY"
  | .charge => "CHARGE"

def PlannerTemplateType.ofText (s : String) : Option PlannerTemplateType :=
  if s = "DAILY" then some .daily
  else if s = "WEEKLY" then some .weekly
  else if s = "CHARGE" then some .charge
  else none

@[simp] theorem PlannerTemplateType.ofText_text (t : PlannerTemplateType) :
    ofText t.text = some t := by
  cases t <;> decide

/-- `op IN ('<','<=','>','>=')`. -/
inductive EconomyPriceWatchOp where
  | lt
  | le
  | gt
  | ge
  deriving DecidableEq

def EconomyPriceWatchOp.text : EconomyPriceWatchOp → String
  | .lt => "<"
  | .le => "<="
  | .gt => ">"
  | .ge => ">="

def EconomyPriceWatchOp.ofText (s : String) : Option EconomyPriceWatchOp :=
  if s = "<" then some .lt
  else if s = "<=" then some .le
  else if s = ">" then some .gt
  else if s = ">=" then some .ge
  else none

@[simp] theorem EconomyPriceWatchOp.ofText_text (op : EconomyPriceWatchOp) :
    ofText op.text = some op := by
  cases op <;> decide

/-- `kind IN ('KINAH','ITEM')`. -/
inductive LootRunCostKind where
  | kinah
  | item
  deriving DecidableEq

def LootRunCostKind.text : LootRunCostKind → String
  | .kinah => "KINAH"
  | .item => "ITEM"

def LootRunCostKind.ofText (s : String) : Option LootRunCostKind :=
  if s = "KINAH" then some .kinah
  else if s = "ITEM" then some .item
  else none

@[simp] theorem LootRunCostKind.ofText_text (k : LootRunCostKind) : ofText k.text = some k := by
  cases k <;> decide

/-! ### Rows -/

structure NoticeItem where
  id : String
  source : NoticeSource
  externalId : String
  url : String
  title : String
  publishedAt : Option String
  createdAt : String
  updatedAt : String
  deriving DecidableEq

structure NoticeSnapshot where
  id : String
  noticeItemId : String
  fetchedAt : String
  contentHash : String
  normalizedText : String
  deriving DecidableEq

structure NoticeDiff where
  id : String
  noticeItemId : String
  fromSnapshotId : String
  toSnapshotId : String
  diffJson : Js
  createdAt : String

structure AppSetting where
  key : String
  value : String
  deriving DecidableEq

structure AppCharacter where
  id : String
  name : String
  server : Option String
  characterClass : Option String
  createdAt : String
  updatedAt : String
  deriving DecidableEq

structure BuildScoreRow where
  characterId : String
  dataJson : Js
  updatedAt : String

structure BuildScorePresetRow where
  id : String
  characterId : String
  name : String
  description : Option String
  statsJson : Js
  createdAt : String
  updatedAt : String

structure PlannerSettingsRow where
  id : String
  dailyResetHhmm : String
  weeklyResetDay : Number
  updatedAt : String
  deriving DecidableEq

structure PlannerTemplate where
  id : String
  title : String
  type : PlannerTemplateType
  estimateMinutes : Number
  rechargeHours : Option Number
  maxStacks : Option Number
  createdAt : String
  updatedAt : String
  deriving DecidableEq

structure PlannerAssignment where
  id : String
  characterId : String
  templateId : String
  enabled : Bool
  targetCount : Option Number
  createdAt : String
  updatedAt : String
  deriving DecidableEq

structure PlannerCompletion where
  id : String
  characterId : String
  templateId : String
  periodKey : String
  completedAt : String
  deriving DecidableEq

structure PlannerChargeUse where
  id : String
  characterId : String
  templateId : String
  usedAt : String
  deriving DecidableEq

structure PlannerDuration where
  id : String
  characterId : String
  templateId : Option String
  startedAt : String
  endedAt : String
  seconds : Number
  deriving DecidableEq

structure EconomyItem where
  id : String
  name : String
  category : Option String
  note : Option String
  createdAt : String
  updatedAt : String
  deriving DecidableEq

structure EconomyPrice where
  id : String
  server : String
  itemId : String
  price : Number
  recordedAt : String
  createdAt : String
  updatedAt : String
  deriving DecidableEq

structure EconomyPriceWatch where
  id : String
  server : String
  itemId : String
  op : EconomyPriceWatchOp
  threshold : Number
  active : Bool
  createdAt : String
  updatedAt : String
  deriving DecidableEq

structure EconomyAlertEvent where
  id : String
  server : String
  itemId : String
  itemName : String
  op : EconomyPriceWatchOp
  threshold : Number
  price : Number
  triggeredAt : String
  readAt : Option String
  deriving DecidableEq

structure LootRun where
  id : String
  characterId : String
  server : Option String
  content : String
  role : Option String
  powerBracket : Option String
  startedAt : Option String
  endedAt : Option String
  seconds : Number
  createdAt : String
  updatedAt : String
  deriving DecidableEq

structure LootRunDrop where
  id : String
  runId : String
  itemId : Option String
  itemName : String
  qty : Number
  note : Option String
  createdAt : String
  updatedAt : String
  deriving DecidableEq

structure LootRunCost where
  id : String
  runId : String
  kind : LootRunCostKind
  itemId : Option String
  itemName : Option String
  qty : Number
  kinah : Number
  note : Option String
  createdAt : String
  updatedAt : String
  deriving DecidableEq

/-! ### Tables -/

/-- The tables of `SCHEMA_SQL`, in its order. -/
inductive Table where
  | noticeItem
  | noticeSnapshot
  | noticeDiff
  | appSetting
  | appCharacter
  | buildScore
  | buildScorePreset
  | plannerSettings
  | plannerTemplate
  | plannerAssignment
  | plannerCompletion
  | plannerChargeUse
  | plannerDuration
  | economyItem
  | economyPrice
  | economyPriceWatch
  | economyAlertEvent
  | lootRun
  | lootRunDrop
  | lootRunCost
  deriving DecidableEq

namespace Hub

open Sql

/-- The rows of a table. -/
@[reducible] def Row : Table → Type
  | .noticeItem => NoticeItem
  | .noticeSnapshot => NoticeSnapshot
  | .noticeDiff => NoticeDiff
  | .appSetting => AppSetting
  | .appCharacter => AppCharacter
  | .buildScore => BuildScoreRow
  | .buildScorePreset => BuildScorePresetRow
  | .plannerSettings => PlannerSettingsRow
  | .plannerTemplate => PlannerTemplate
  | .plannerAssignment => PlannerAssignment
  | .plannerCompletion => PlannerCompletion
  | .plannerChargeUse => PlannerChargeUse
  | .plannerDuration => PlannerDuration
  | .economyItem => EconomyItem
  | .economyPrice => EconomyPrice
  | .economyPriceWatch => EconomyPriceWatch
  | .economyAlertEvent => EconomyAlertEvent
  | .lootRun => LootRun
  | .lootRunDrop => LootRunDrop
  | .lootRunCost => LootRunCost

/-- PRIMARY KEY. -/
def key : (t : Table) → Row t → String
  | .noticeItem, r => r.id
  | .noticeSnapshot, r => r.id
  | .noticeDiff, r => r.id
  | .appSetting, r => r.key
  | .appCharacter, r => r.id
  | .buildScore, r => r.characterId
  | .buildScorePreset, r => r.id
  | .plannerSettings, r => r.id
  | .plannerTemplate, r => r.id
  | .plannerAssignment, r => r.id
  | .plannerCompletion, r => r.id
  | .plannerChargeUse, r => r.id
  | .plannerDuration, r => r.id
  | .economyItem, r => r.id
  | .economyPrice, r => r.id
  | .economyPriceWatch, r => r.id
  | .economyAlertEvent, r => r.id
  | .lootRun, r => r.id
  | .lootRunDrop, r => r.id
  | .lootRunCost, r => r.id

/-- UNIQUE (…). -/
def uniques : (t : Table) → List (Row t → List String)
  | .noticeItem => [fun r => [r.source.text, r.externalId]]
  | .noticeSnapshot => [fun r => [r.noticeItemId, r.contentHash]]
  | .noticeDiff => [fun r => [r.fromSnapshotId, r.toSnapshotId]]
  | .plannerAssignment => [fun r => [r.characterId, r.templateId]]
  | .plannerCompletion => [fun r => [r.characterId, r.templateId, r.periodKey]]
  | .economyItem => [fun r => [r.name]]
  | _ => []

/-- FOREIGN KEY (…) REFERENCES … ON DELETE …. -/
def foreignKeys : (t : Table) → List (ForeignKey Table (Row t))
  | .noticeSnapshot => [⟨.noticeItem, fun r => some r.noticeItemId, .cascade⟩]
  | .noticeDiff =>
      [⟨.noticeItem, fun r => some r.noticeItemId, .cascade⟩,
        ⟨.noticeSnapshot, fun r => some r.fromSnapshotId, .cascade⟩,
        ⟨.noticeSnapshot, fun r => some r.toSnapshotId, .cascade⟩]
  | .buildScore => [⟨.appCharacter, fun r => some r.characterId, .cascade⟩]
  | .buildScorePreset => [⟨.appCharacter, fun r => some r.characterId, .cascade⟩]
  | .plannerAssignment =>
      [⟨.appCharacter, fun r => some r.characterId, .cascade⟩,
        ⟨.plannerTemplate, fun r => some r.templateId, .cascade⟩]
  | .plannerCompletion =>
      [⟨.appCharacter, fun r => some r.characterId, .cascade⟩,
        ⟨.plannerTemplate, fun r => some r.templateId, .cascade⟩]
  | .plannerChargeUse =>
      [⟨.appCharacter, fun r => some r.characterId, .cascade⟩,
        ⟨.plannerTemplate, fun r => some r.templateId, .cascade⟩]
  | .plannerDuration =>
      [⟨.appCharacter, fun r => some r.characterId, .cascade⟩,
        ⟨.plannerTemplate, fun r => r.templateId, .setNull fun r => { r with templateId := none }⟩]
  | .economyPrice => [⟨.economyItem, fun r => some r.itemId, .cascade⟩]
  | .economyPriceWatch => [⟨.economyItem, fun r => some r.itemId, .cascade⟩]
  | .economyAlertEvent => [⟨.economyItem, fun r => some r.itemId, .cascade⟩]
  | .lootRun => [⟨.appCharacter, fun r => some r.characterId, .cascade⟩]
  | .lootRunDrop =>
      [⟨.lootRun, fun r => some r.runId, .cascade⟩,
        ⟨.economyItem, fun r => r.itemId, .setNull fun r => { r with itemId := none }⟩]
  | .lootRunCost =>
      [⟨.lootRun, fun r => some r.runId, .cascade⟩,
        ⟨.economyItem, fun r => r.itemId, .setNull fun r => { r with itemId := none }⟩]
  | _ => []

/-- What `getAsObject` of sql.js returns of a row: each TEXT up to its first
U+0000.  JSON text holds none. -/
def read : (t : Table) → Row t → Row t
  | .noticeItem, r =>
      { r with
        id := Text.cut r.id
        externalId := Text.cut r.externalId
        url := Text.cut r.url
        title := Text.cut r.title
        publishedAt := r.publishedAt.map Text.cut
        createdAt := Text.cut r.createdAt
        updatedAt := Text.cut r.updatedAt }
  | .noticeSnapshot, r =>
      { id := Text.cut r.id
        noticeItemId := Text.cut r.noticeItemId
        fetchedAt := Text.cut r.fetchedAt
        contentHash := Text.cut r.contentHash
        normalizedText := Text.cut r.normalizedText }
  | .noticeDiff, r =>
      { r with
        id := Text.cut r.id
        noticeItemId := Text.cut r.noticeItemId
        fromSnapshotId := Text.cut r.fromSnapshotId
        toSnapshotId := Text.cut r.toSnapshotId
        createdAt := Text.cut r.createdAt }
  | .appSetting, r => ⟨Text.cut r.key, Text.cut r.value⟩
  | .appCharacter, r =>
      { id := Text.cut r.id
        name := Text.cut r.name
        server := r.server.map Text.cut
        characterClass := r.characterClass.map Text.cut
        createdAt := Text.cut r.createdAt
        updatedAt := Text.cut r.updatedAt }
  | .buildScore, r =>
      { r with characterId := Text.cut r.characterId, updatedAt := Text.cut r.updatedAt }
  | .buildScorePreset, r =>
      { r with
        id := Text.cut r.id
        characterId := Text.cut r.characterId
        name := Text.cut r.name
        description := r.description.map Text.cut
        createdAt := Text.cut r.createdAt
        updatedAt := Text.cut r.updatedAt }
  | .plannerSettings, r =>
      { r with
        id := Text.cut r.id
        dailyResetHhmm := Text.cut r.dailyResetHhmm
        updatedAt := Text.cut r.updatedAt }
  | .plannerTemplate, r =>
      { r with
        id := Text.cut r.id
        title := Text.cut r.title
        createdAt := Text.cut r.createdAt
        updatedAt := Text.cut r.updatedAt }
  | .plannerAssignment, r =>
      { r with
        id := Text.cut r.id
        characterId := Text.cut r.characterId
        templateId := Text.cut r.templateId
        createdAt := Text.cut r.createdAt
        updatedAt := Text.cut r.updatedAt }
  | .plannerCompletion, r =>
      { id := Text.cut r.id
        characterId := Text.cut r.characterId
        templateId := Text.cut r.templateId
        periodKey := Text.cut r.periodKey
        completedAt := Text.cut r.completedAt }
  | .plannerChargeUse, r =>
      { id := Text.cut r.id
        characterId := Text.cut r.characterId
        templateId := Text.cut r.templateId
        usedAt := Text.cut r.usedAt }
  | .plannerDuration, r =>
      { r with
        id := Text.cut r.id
        characterId := Text.cut r.characterId
        templateId := r.templateId.map Text.cut
        startedAt := Text.cut r.startedAt
        endedAt := Text.cut r.endedAt }
  | .economyItem, r =>
      { id := Text.cut r.id
        name := Text.cut r.name
        category := r.category.map Text.cut
        note := r.note.map Text.cut
        createdAt := Text.cut r.createdAt
        updatedAt := Text.cut r.updatedAt }
  | .economyPrice, r =>
      { r with
        id := Text.cut r.id
        server := Text.cut r.server
        itemId := Text.cut r.itemId
        recordedAt := Text.cut r.recordedAt
        createdAt := Text.cut r.createdAt
        updatedAt := Text.cut r.updatedAt }
  | .economyPriceWatch, r =>
      { r with
        id := Text.cut r.id
        server := Text.cut r.server
        itemId := Text.cut r.itemId
        createdAt := Text.cut r.createdAt
        updatedAt := Text.cut r.updatedAt }
  | .economyAlertEvent, r =>
      { r with
        id := Text.cut r.id
        server := Text.cut r.server
        itemId := Text.cut r.itemId
        itemName := Text.cut r.itemName
        triggeredAt := Text.cut r.triggeredAt
        readAt := r.readAt.map Text.cut }
  | .lootRun, r =>
      { r with
        id := Text.cut r.id
        characterId := Text.cut r.characterId
        server := r.server.map Text.cut
        content := Text.cut r.content
        role := r.role.map Text.cut
        powerBracket := r.powerBracket.map Text.cut
        startedAt := r.startedAt.map Text.cut
        endedAt := r.endedAt.map Text.cut
        createdAt := Text.cut r.createdAt
        updatedAt := Text.cut r.updatedAt }
  | .lootRunDrop, r =>
      { r with
        id := Text.cut r.id
        runId := Text.cut r.runId
        itemId := r.itemId.map Text.cut
        itemName := Text.cut r.itemName
        note := r.note.map Text.cut
        createdAt := Text.cut r.createdAt
        updatedAt := Text.cut r.updatedAt }
  | .lootRunCost, r =>
      { r with
        id := Text.cut r.id
        runId := Text.cut r.runId
        itemId := r.itemId.map Text.cut
        itemName := r.itemName.map Text.cut
        note := r.note.map Text.cut
        createdAt := Text.cut r.createdAt
        updatedAt := Text.cut r.updatedAt }

/-- The order of `SCHEMA_SQL`, in which every parent comes before its
children. -/
def order : List Table :=
  [.noticeItem, .noticeSnapshot, .noticeDiff, .appSetting, .appCharacter, .buildScore,
    .buildScorePreset, .plannerSettings, .plannerTemplate, .plannerAssignment, .plannerCompletion,
    .plannerChargeUse, .plannerDuration, .economyItem, .economyPrice, .economyPriceWatch,
    .economyAlertEvent, .lootRun, .lootRunDrop, .lootRunCost]

/-- `SCHEMA_SQL`. -/
def schema : Schema Table Row where
  key := key
  uniques := uniques
  foreignKeys := foreignKeys
  read := read
  order := order
  mem_order := by intro t; cases t <;> decide
  order_parents := by decide
  no_self := by intro t; cases t <;> decide
  clear_key := by
    intro t fk hfk clear hc r
    cases t <;> simp_all [foreignKeys, key] <;> aesop
  clear_uniques := by
    intro t fk hfk clear hc u hu r
    cases t <;> simp_all [foreignKeys, uniques] <;> aesop
  clear_column := by
    intro t fk hfk clear hc r
    cases t <;> simp_all [foreignKeys] <;> aesop
  clear_other := by
    intro t fk hfk clear hc fk' hfk' r
    cases t <;> simp_all [foreignKeys] <;> aesop

/-- What has been read stays as it is when it is read again. -/
theorem read_read {t : Table} (r : Row t) :
    schema.read t (schema.read t r) = schema.read t r := by
  have hcut : ∀ o : Option String, (o.map Text.cut).map Text.cut = o.map Text.cut := by
    intro o
    cases o <;> simp
  cases t <;> simp [schema, read, hcut]

/-- The connection of the desktop database. -/
abbrev Conn : Type := Sql.Conn Row

/-- A program on the desktop database. -/
abbrev Prog (α : Type) : Type := Exec Conn α

end Hub
