/-
Aion2Hub/Storage/Reading.lean

The lists and records that `DesktopDb` reads for the windows, and that no
operation writes back: the search for notices and items, durations and their
statistics, build scores and presets, loot runs.

A query that reads only returns the connection that it was given (`Reads`).
-/
import Aion2Hub.Lib.Aggregate
import Aion2Hub.Storage.BuildScore
import Aion2Hub.Storage.Loot
import Aion2Hub.Storage.Notices

namespace Hub

open Sql Exec

/-! ### Notices -/

/-- `escapeLike` of `sql.ts`: the pattern of its first replacement, and what
it puts before a wildcard, are two backslashes. -/
def escapeLike (value : String) : String :=
  Text.replaceAll "_" "\\\\_" (Text.replaceAll "%" "\\\\%" (Text.replaceAll "\\\\" "\\\\\\\\" value))

structure NoticesQuery where
  source : Option NoticeSource
  q : Option String
  page : Number
  pageSize : Number

structure NoticeListItem where
  id : String
  source : NoticeSource
  externalId : String
  url : String
  title : String
  publishedAt : Option String
  updatedAt : String

def asNoticeListItem (r : NoticeItem) : NoticeListItem :=
  ⟨r.id, r.source, r.externalId, r.url, r.title, nonEmpty r.publishedAt, r.updatedAt⟩

structure NoticesPage where
  page : Number
  pageSize : Number
  total : ℕ
  items : List NoticeListItem

/-- `source = $source`, if a source is given. -/
def hasSource (source : Option NoticeSource) (r : NoticeItem) : Bool :=
  source.all fun s => r.source == s

/-- The WHERE of both queries; the SQL literal after ESCAPE is two
backslashes. -/
def noticeMatches (source : Option NoticeSource) (q : Option String) (r : NoticeItem) :
    Except String Bool :=
  if hasSource source r then
    match trimmed q with
    | some q => like r.title ("%" ++ escapeLike q ++ "%") "\\\\"
    | none => .ok true
  else .ok false

/-- ORDER BY COALESCE(published_at, updated_at) DESC, updated_at DESC. -/
def newestNotice : NoticeItem → NoticeItem → Bool :=
  desc (fun r => r.publishedAt.getD r.updatedAt) (desc (·.updatedAt) anyOrder)

def listNotices (input : NoticesQuery) : Prog NoticesPage := do
  let page := Number.atLeast 1 input.page
  let pageSize := Number.atLeast 1 (Number.atMost 50 input.pageSize)
  let offset := Number.mul (Number.sub page 1) pageSize
  let total ← schema.countWhere .noticeItem (noticeMatches input.source input.q)
  let limit ← Exec.ofExcept (mustBeInt pageSize)
  let offset ← Exec.ofExcept (mustBeInt offset)
  let rows ← schema.selectWhere .noticeItem (noticeMatches input.source input.q) newestNotice limit
    offset
  pure ⟨page, pageSize, total, rows.map asNoticeListItem⟩

/-! ### Economy items -/

/-- `Number.isFinite(x) ? Math.max(1, Math.min(500, x)) : 100`. -/
def listLimit (limit : Option Number) : Number :=
  ((limit.filter Number.isFinite).map fun x => Number.atLeast 1 (Number.atMost 500 x)).getD 100

/-- The WHERE of `listEconomyItems`, which escapes with one backslash, but not
the backslash. -/
def itemMatches (q : Option String) (r : EconomyItem) : Except String Bool :=
  match trimmed q with
  | some q =>
      like r.name ("%" ++ Text.replaceAll "_" "\\_" (Text.replaceAll "%" "\\%" q) ++ "%") "\\\\"
  | none => .ok true

def listEconomyItems (q : Option String) (limit : Option Number) : Prog (List EconomyItem) := do
  let limit ← Exec.ofExcept (mustBeInt (listLimit limit))
  schema.selectWhere .economyItem (itemMatches q) (asc (·.name) anyOrder) limit 0

/-! ### Durations -/

structure PlannerDurationRow where
  id : String
  characterId : String
  templateId : String
  startedAt : String
  endedAt : String
  seconds : Number

/-- What sql.js returns of it. -/
def PlannerDurationRow.read (r : PlannerDurationRow) : PlannerDurationRow :=
  { r with
    id := Text.cut r.id
    characterId := Text.cut r.characterId
    templateId := Text.cut r.templateId
    startedAt := Text.cut r.startedAt
    endedAt := Text.cut r.endedAt }

/-- The durations of a character that have a template. -/
def ownDuration (characterId : String) (r : PlannerDuration) : Option PlannerDurationRow :=
  if r.characterId = characterId then
    r.templateId.map fun templateId =>
      ⟨r.id, r.characterId, templateId, r.startedAt, r.endedAt, r.seconds⟩
  else none

def listPlannerDurations (characterId : String) (limit : Option Number) :
    Prog (List PlannerDurationRow) := do
  let limit ← Exec.ofExcept
    (mustBeInt (Number.atLeast 1 (Number.atMost 200 (Number.floor (limit.getD 50)))))
  let rows ← Exec.gets fun c => (c.db .plannerDuration).filterMap (ownDuration characterId)
  pure ((slice limit 0 (orderBy (desc (·.endedAt) anyOrder) rows)).map PlannerDurationRow.read)

structure PlannerDurationStat where
  templateId : String
  count : ℕ
  totalSeconds : Number
  avgSeconds : Number

/-- One group of GROUP BY template_id: COUNT(1), SUM(seconds), AVG(seconds). -/
def durationStat (rows : List PlannerDurationRow) (templateId : String) :
    Except String PlannerDurationStat := do
  let group := rows.filter (·.templateId = templateId)
  let gathered := gather (group.map (·.seconds))
  let total ← gathered.sum
  pure ⟨templateId, group.length, total, gathered.avg group.length⟩

/-- ORDER BY totalSeconds DESC, avgSeconds DESC. -/
def longestFirst (a b : PlannerDurationStat) : Bool :=
  below b.totalSeconds a.totalSeconds ||
    a.totalSeconds = b.totalSeconds && !below a.avgSeconds b.avgSeconds

/-- `Number(x ?? 0)` of a number that is read. -/
def readNumber : Number → Number
  | .fin q => Number.toDouble q
  | .nan => 0
  | x => x

/-- The object made from one group. -/
def PlannerDurationStat.read (s : PlannerDurationStat) : PlannerDurationStat :=
  { s with
    templateId := Text.cut s.templateId
    totalSeconds := readNumber s.totalSeconds
    avgSeconds := Number.round (readNumber s.avgSeconds) }

def getPlannerDurationStats (characterId : String) (sinceIso : Option String) :
    Prog (List PlannerDurationStat) := do
  let since := nonEmpty sinceIso
  let durations ← Exec.gets fun c => ((c.db .plannerDuration).filter fun r =>
    since.all fun s => decide (s ≤ r.endedAt)).filterMap (ownDuration characterId)
  let stats ← Exec.ofExcept
    ((durations.map (·.templateId)).eraseDups.mapM (durationStat durations))
  pure ((orderBy longestFirst stats).map PlannerDurationStat.read)

/-! ### Build scores -/

def defaultBuildScoreState (now : ℤ) : BuildScoreState where
  updatedAt := stamp now
  stats :=
    [⟨"builtin:power", "위력", .flat, true, 1⟩,
      ⟨"builtin:combatSpeed", "전투 속도", .percent, true, 1⟩,
      ⟨"builtin:pveAmp", "PvE 피해 증폭", .percent, true, 1⟩,
      ⟨"builtin:pvpAmp", "PvP 피해 증폭", .percent, false, 1⟩,
      ⟨"builtin:crit", "치명타", .flat, false, 1⟩,
      ⟨"builtin:critDmgAmp", "치명타 피해 증폭", .percent, false, 1⟩,
      ⟨"builtin:double", "강타", .percent, false, 1⟩,
      ⟨"builtin:perfect", "완벽", .percent, false, 1⟩,
      ⟨"builtin:accuracy", "명중", .percent, false, 1⟩,
      ⟨"builtin:evasion", "회피", .percent, false, 1⟩,
      ⟨"builtin:block", "막기", .percent, false, 1⟩,
      ⟨"builtin:ccHit", "상태이상 적중", .percent, false, 1⟩,
      ⟨"builtin:ccResist", "상태이상 저항", .percent, false, 1⟩,
      ⟨"builtin:hp", "생명력", .flat, false, 1⟩,
      ⟨"builtin:defense", "방어력", .percent, false, 1⟩]
  setA := ⟨"세팅 A", []⟩
  setB := ⟨"세팅 B", []⟩

/-- Without a stored score, or with one that is not valid, the default. -/
def getBuildScore (characterId : String) (now : ℤ) : Prog BuildScoreState := do
  let row ← schema.selectOne .buildScore fun r => r.characterId == characterId
  pure ((row.bind fun r => asBuildScoreState r.dataJson now).getD (defaultBuildScoreState now))

/-- ORDER BY updated_at DESC, created_at DESC. -/
def newestPreset : BuildScorePresetRow → BuildScorePresetRow → Bool :=
  desc (·.updatedAt) (desc (·.createdAt) anyOrder)

/-- The presets of a character whose stats are valid. -/
def listBuildScorePresetsFull (characterId : String) : Prog (List BuildScorePreset) := do
  let rows ← schema.selectBy .buildScorePreset (fun r => r.characterId == characterId) newestPreset
  pure (rows.filterMap fun r =>
    (asBuildScoreStats (some r.statsJson)).map fun stats =>
      ⟨r.id, r.characterId, r.name, r.description, stats, r.createdAt, r.updatedAt⟩)

/-! ### Loot runs -/

structure LootRunListItem where
  run : LootRun
  dropCount : ℕ
  costCount : ℕ

/-- What is read of a run, with its two counts. -/
def lootRunListItem (db : Db Row) (r : LootRun) : LootRunListItem :=
  ⟨schema.read .lootRun r, ((db .lootRunDrop).filter fun d => d.runId == r.id).length,
    ((db .lootRunCost).filter fun c => c.runId == r.id).length⟩

/-- ORDER BY COALESCE(ended_at, created_at) DESC. -/
def latestRun : LootRun → LootRun → Bool := desc (fun r => r.endedAt.getD r.createdAt) anyOrder

def listLootRuns (characterId : String) (limit : Option Number) : Prog (List LootRunListItem) := do
  let characterId ← Exec.ofOption "bad_request" (nonEmpty (some characterId))
  let limit ← Exec.ofExcept (mustBeInt (listLimit limit))
  let db ← Exec.gets fun c => c.db
  let rows := (db .lootRun).filter fun r => r.characterId == characterId
  pure ((slice limit 0 (orderBy latestRun rows)).map (lootRunListItem db))

structure LootRunDetail where
  run : LootRun
  drops : List LootRunDrop
  costs : List LootRunCost

def getLootRun (runId : String) : Prog (Option LootRunDetail) := do
  let row ← schema.selectOne .lootRun fun r => r.id == runId
  match row.filter (·.id ≠ "") with
  | none => pure none
  | some run => do
      let drops ← schema.selectBy .lootRunDrop (fun d => d.runId == runId)
        (asc (·.createdAt) anyOrder)
      let costs ← schema.selectBy .lootRunCost (fun c => c.runId == runId)
        (asc (·.createdAt) anyOrder)
      pure (some ⟨run, drops, costs⟩)

/-! ### Reading leaves everything as it is -/

/-- The program reads only. -/
def Reads {α : Type} (m : Prog α) : Prop := ∀ c, (m c).2 = c

namespace Reads

variable {α β : Type} {m : Prog α} {f : α → Prog β}

theorem pure {a : α} : Reads (Pure.pure a : Prog α) := fun _ => rfl

theorem throw {e : String} : Reads (Exec.throw e : Prog α) := fun _ => rfl

theorem gets {g : Conn → α} : Reads (Exec.gets g) := fun _ => rfl

theorem ofExcept {r : Except String α} : Reads (Exec.ofExcept r : Prog α) := fun c => by
  rw [ofExcept_apply]

theorem ofOption {e : String} {o : Option α} : Reads (Exec.ofOption e o : Prog α) := by
  cases o with
  | none => exact throw
  | some a => exact pure

theorem selectWhere {t : Table} {p : Row t → Except String Bool} {before : Row t → Row t → Bool}
    {limit offset : ℤ} : Reads (schema.selectWhere t p before limit offset) := fun _ => rfl

theorem countWhere {t : Table} {p : Row t → Except String Bool} :
    Reads (schema.countWhere t p) := fun _ => rfl

theorem bind (hm : Reads m) (hf : ∀ a, Reads (f a)) : Reads (m >>= f) := by
  intro c
  have hc := hm c
  rcases h : m c with ⟨e | a, d⟩
  · rw [h] at hc
    rw [bind_of_error h]
    exact hc
  · rw [h] at hc
    rw [bind_of_ok h]
    exact (hf a d).trans hc

end Reads

theorem reads_listNotices (input : NoticesQuery) : Reads (listNotices input) :=
  Reads.countWhere.bind fun _ => Reads.ofExcept.bind fun _ => Reads.ofExcept.bind fun _ =>
    Reads.selectWhere.bind fun _ => Reads.pure

theorem reads_listPlannerDurations (characterId : String) (limit : Option Number) :
    Reads (listPlannerDurations characterId limit) :=
  Reads.ofExcept.bind fun _ => Reads.gets.bind fun _ => Reads.pure

theorem reads_getPlannerDurationStats (characterId : String) (sinceIso : Option String) :
    Reads (getPlannerDurationStats characterId sinceIso) :=
  Reads.gets.bind fun _ => Reads.ofExcept.bind fun _ => Reads.pure

theorem reads_getBuildScore (characterId : String) (now : ℤ) :
    Reads (getBuildScore characterId now) :=
  Reads.gets.bind fun _ => Reads.pure

theorem reads_listLootRuns (characterId : String) (limit : Option Number) :
    Reads (listLootRuns characterId limit) :=
  Reads.ofOption.bind fun _ => Reads.ofExcept.bind fun _ => Reads.gets.bind fun _ => Reads.pure

end Hub
