/-
Aion2Hub/Storage/Lifecycle.lean

Foreign keys are never enforced in the running application.

`init()` switches `PRAGMA foreign_keys` on, but `openDesktopDb` persists right
after it, and `Database.export()` reopens the connection, which resets the
pragma.  No operation switches it on again: every operation is a program of
statements (`Quiet`), or runs statements in transactions it closes
(`Settled`).  So in every reachable state the pragma is off and no
transaction is open (`Reachable.flags`).
-/
import Aion2Hub.Storage.Db

namespace Hub

open Sql

/-! ### Characters, settings, templates -/

theorem quiet_notNull {x : Number} : Quiet (notNull x) := Quiet.ofOption

theorem quiet_setSetting {key : String} {value : Option String} :
    Quiet (setSetting key value) := by
  cases value with
  | none => exact quiet_delete
  | some v => exact quiet_upsert

theorem quiet_createCharacter {input : CharacterInput} {id : String} {now : ℤ} :
    Quiet (createCharacter input id now) :=
  quiet_insert.bind fun _ => quiet_insertSelect.bind fun _ => Quiet.pure

theorem quiet_getPlannerSettings {now : ℤ} : Quiet (getPlannerSettings now) := by
  refine (quiet_selectOne.bind fun _ => Quiet.pure).bind fun row => ?_
  cases row with
  | none => exact quiet_insert.bind fun _ => Quiet.pure
  | some settings => exact Quiet.pure

theorem quiet_writePlannerSettings {id : String} {input : SettingsInput} {now : ℤ} :
    Quiet (writePlannerSettings id input now) :=
  quiet_notNull.bind fun _ => quiet_upsert

theorem quiet_setPlannerSettingsForServer {server : String} {input : SettingsInput} {now : ℤ} :
    Quiet (setPlannerSettingsForServer server input now) := by
  unfold setPlannerSettingsForServer
  split
  · exact Quiet.pure
  · exact quiet_writePlannerSettings

theorem quiet_clearPlannerSettingsForServer {server : String} :
    Quiet (clearPlannerSettingsForServer server) := by
  unfold clearPlannerSettingsForServer
  split
  · exact Quiet.pure
  · exact quiet_delete

theorem quiet_createPlannerTemplate {input : TemplateInput} {draw : Draw} :
    Quiet (createPlannerTemplate input draw) :=
  quiet_notNull.bind fun _ => quiet_insert.bind fun _ => quiet_insertSelect.bind fun _ => Quiet.pure

theorem quiet_updatePlannerTemplate {id : String} {input : TemplateInput} {now : ℤ} :
    Quiet (updatePlannerTemplate id input now) := by
  unfold updatePlannerTemplate
  split
  · exact quiet_update
  · refine quiet_selectOne.bind fun row => ?_
    split
    · exact Quiet.throw
    · exact Quiet.pure

theorem quiet_createMissing {host : Host} {draws : ℕ → Draw} {ts : List TemplateInput}
    {existingKeys : List String} {created skipped : ℕ} :
    Quiet (createMissing host draws ts existingKeys created skipped) := by
  induction ts generalizing existingKeys created skipped with
  | nil => exact Quiet.pure
  | cons t ts ih =>
      unfold createMissing
      split
      · exact ih
      · exact quiet_createPlannerTemplate.bind fun _ => ih

theorem quiet_applyPlannerPreset {host : Host} {mode : PresetMode} {templates : List Js}
    {draws : ℕ → Draw} : Quiet (applyPlannerPreset host mode templates draws) := by
  have hclear : Quiet (clearForPreset mode) := by
    unfold clearForPreset
    split
    · exact quiet_delete
    · exact Quiet.pure
  exact hclear.bind fun _ => quiet_select.bind fun _ => quiet_createMissing

/-! ### Completions, charge uses, durations -/

theorem quiet_setPlannerCompletion {host : Host} {input : CompletionInput} {id : String} {now : ℤ} :
    Quiet (setPlannerCompletion host input id now) := by
  unfold setPlannerCompletion
  split
  · exact quiet_insert
  · exact quiet_delete

theorem quiet_undoCharge {characterId templateId : String} :
    Quiet (undoCharge characterId templateId) := by
  refine Quiet.gets.bind fun row => ?_
  split
  · exact Quiet.pure
  · exact quiet_delete.bind fun _ => Quiet.pure

theorem quiet_addPlannerDuration {host : Host} {input : DurationInput} {id : String} :
    Quiet (addPlannerDuration host input id) :=
  Quiet.ofOption.bind fun _ => Quiet.ofOption.bind fun _ => quiet_notNull.bind fun _ =>
    quiet_insert.bind fun _ => Quiet.pure

/-! ### Build scores -/

theorem quiet_insertPreset {p : BuildScorePreset} : Quiet (insertPreset p) :=
  quiet_insert.bind fun _ => Quiet.pure

theorem quiet_createBuildScorePresetFromStats {input : PresetInput} {stats : List BuildScoreStat}
    {createdAt updatedAt : Option String} {draw : Draw} :
    Quiet (createBuildScorePresetFromStats input stats createdAt updatedAt draw) :=
  Quiet.ofOption.bind fun _ => quiet_insertPreset

theorem quiet_createPresets {characterId : String} {now : ℤ} {draws : ℕ → Draw} {items : List Js}
    {created : List BuildScorePresetListItem} :
    Quiet (createPresets characterId now draws items created) := by
  induction items generalizing created with
  | nil => exact Quiet.pure
  | cons it items ih =>
      unfold createPresets
      split
      · exact ih
      · exact quiet_createBuildScorePresetFromStats.bind fun _ => ih

theorem quiet_importBuildScorePresetsFromJson {characterId : String} {payload : Js} {now : ℤ}
    {draws : ℕ → Draw} :
    Quiet (importBuildScorePresetsFromJson characterId payload now draws) := by
  unfold importBuildScorePresetsFromJson
  split
  · exact Quiet.throw
  · exact quiet_createPresets

theorem quiet_getBuildScorePreset {presetId : String} : Quiet (getBuildScorePreset presetId) :=
  quiet_selectOne.bind fun _ => Quiet.pure

/-! ### Economy and loot -/

theorem quiet_upsertEconomyItemByName {name : String} {category note : Option String}
    {draw : Draw} : Quiet (upsertEconomyItemByName name category note draw) := by
  refine Quiet.ofOption.bind fun name => quiet_selectOne.bind fun existing => ?_
  split
  · exact quiet_update.bind fun _ => Quiet.pure
  · exact quiet_insert.bind fun _ => Quiet.pure

theorem quiet_insertAlerts {event : PriceEvent} {draws : ℕ → Draw} {ws : List EconomyPriceWatch}
    {triggered : List EconomyAlertEvent} : Quiet (insertAlerts event draws ws triggered) := by
  induction ws generalizing triggered with
  | nil => exact Quiet.pure
  | cons w ws ih =>
      unfold insertAlerts
      split
      · exact quiet_insert.bind fun _ => ih
      · exact ih

theorem quiet_addEconomyPrice {input : PriceInput} {draws : ℕ → Draw} :
    Quiet (addEconomyPrice input draws) :=
  Quiet.ofOption.bind fun _ => quiet_upsertEconomyItemByName.bind fun _ =>
    quiet_insert.bind fun _ =>
      (quiet_selectBy.bind fun _ => quiet_insertAlerts).bind fun _ => Quiet.pure

theorem quiet_createEconomyWatch {input : WatchInput} {draws : ℕ → Draw} :
    Quiet (createEconomyWatch input draws) := by
  refine Quiet.ofOption.bind fun server => quiet_upsertEconomyItemByName.bind fun item => ?_
  dsimp only
  exact quiet_insert.bind fun _ => Quiet.pure

theorem quiet_insertDrop {runId : String} {now : ℤ} {d : DropInput} {draws : ℕ → Draw} :
    Quiet (insertDrop runId now d draws) := by
  unfold insertDrop
  split
  · exact Quiet.pure
  · split
    · exact Quiet.pure
    · exact quiet_upsertEconomyItemByName.bind fun _ => quiet_insert

theorem quiet_insertCost {runId : String} {now : ℤ} {c : CostInput} {draws : ℕ → Draw} :
    Quiet (insertCost runId now c draws) := by
  unfold insertCost
  split
  · split
    · exact Quiet.pure
    · exact quiet_insert
  · split
    · exact Quiet.pure
    · split
      · exact Quiet.pure
      · exact quiet_upsertEconomyItemByName.bind fun _ => quiet_insert

theorem settled_createLootRun {host : Host} {input : LootRunInput} {draw : Draw}
    {dropDraws costDraws : ℕ → ℕ → Draw} :
    Settled (createLootRun host input draw dropDraws costDraws) := by
  refine Quiet.ofOption.settled.bind fun _ => Quiet.ofOption.settled.bind fun _ =>
    quiet_selectOne.settled.bind fun _ => Quiet.ofOption.settled.bind fun _ =>
      Settled.bind (settled_atomically ?_) fun _ => Quiet.pure.settled
  exact quiet_insert.bind fun _ => (Quiet.forEach fun _ => quiet_insertDrop).bind fun _ =>
    Quiet.forEach fun _ => quiet_insertCost

/-! ### Backups -/

theorem quiet_insertRow {oc : OnConflict} {t : Table} {row : Option (Row t)} :
    Quiet (insertRow oc t row) := by
  unfold insertRow
  split
  · exact quiet_insert
  · split
    · exact Quiet.pure
    · exact Quiet.throw

theorem quiet_insertTable {b : Backup} {p : Table × OnConflict} : Quiet (b.insertTable p) :=
  Quiet.forEach fun _ => quiet_insertRow

theorem quiet_restoreActive {b : Backup} : Quiet b.restoreActive := by
  unfold Backup.restoreActive
  split
  · exact quiet_setSetting
  · exact Quiet.pure

/-- The active character is a setting, and nothing else changes. -/
theorem restoreActive_frame {b : Backup} {c d : Conn} {u : Unit}
    (h : b.restoreActive c = (.ok u, d)) :
    (∀ t ≠ .appSetting, d.db t = c.db t) ∧ d.foreignKeys = c.foreignKeys := by
  unfold Backup.restoreActive at h
  cases hactive : nonEmpty b.activeCharacterId with
  | some id =>
      rw [hactive] at h
      exact upsert_frame h
  | none =>
      rw [hactive] at h
      cases h
      exact ⟨fun _ _ => rfl, rfl⟩

theorem quiet_insertAll {b : Backup} {now : String} : Quiet (b.insertAll now) :=
  quiet_insertTable.bind fun _ => quiet_restoreActive.bind fun _ =>
    (Quiet.forEach fun _ => quiet_insertTable).bind fun _ => quiet_insertSelect

theorem quiet_restore {b : Backup} {now : String} : Quiet (b.restore now) :=
  (Quiet.forEach fun _ => quiet_delete).bind fun _ => quiet_insertAll

/-- What an import can do: put the rows of a supported backup in place, or
throw and change nothing. -/
theorem importUserBackup_cases {raw : Js} {now : ℤ} {c : Conn} (h₀ : c.saved = none) :
    (∃ version d, schemaVersion raw = some version ∧
        (parseBackup raw version (stamp now)).restore (stamp now) { c with saved := some c.db } =
          (.ok (), d) ∧
        importUserBackup raw now c = (.ok (), { d with saved := none })) ∨
      ∃ e, importUserBackup raw now c = (.error e, c) := by
  unfold importUserBackup
  by_cases hobj : raw.isObject = true
  · rw [if_pos hobj]
    cases hv : schemaVersion raw with
    | none => exact .inr ⟨_, rfl⟩
    | some version =>
        rcases atomically_cases (criticalMessage "backup import") h₀ quiet_restore with
          ⟨d, hd, h⟩ | ⟨d, e, -, h⟩
        · exact .inl ⟨version, d, rfl, hd, h⟩
        · exact .inr ⟨e, h⟩
  · rw [if_neg hobj]
    exact .inr ⟨_, rfl⟩

theorem settled_importUserBackup {raw : Js} {now : ℤ} : Settled (importUserBackup raw now) := by
  unfold importUserBackup
  split
  · split
    · exact Quiet.throw.settled
    · exact settled_atomically quiet_restore
  · exact Quiet.throw.settled

/-! ### Every operation -/

/-- No operation touches the pragma or leaves a transaction open. -/
theorem settled_run {host : Host} (op : Op) : Settled (op.run host) := by
  unfold Op.run
  cases op with
  | upsertNoticeItem =>
      refine Quiet.settled (Quiet.discard (quiet_selectOne.bind fun existing => ?_))
      split
      · exact quiet_update.bind fun _ => Quiet.pure
      · exact quiet_insert.bind fun _ => Quiet.pure
  | upsertSnapshot =>
      refine Quiet.settled (Quiet.discard (quiet_selectOne.bind fun existing => ?_))
      split
      · exact Quiet.pure
      · exact quiet_insert.bind fun _ => Quiet.pure
  | upsertDiff =>
      refine Quiet.settled (Quiet.discard (quiet_selectOne.bind fun existing => ?_))
      split
      · exact quiet_update.bind fun _ => Quiet.pure
      · exact quiet_insert.bind fun _ => Quiet.pure
  | setSetting => exact quiet_setSetting.settled
  | createCharacter => exact quiet_createCharacter.discard.settled
  | updateCharacter => exact quiet_update.settled
  | deleteCharacter => exact quiet_delete.settled
  | setBuildScore => exact (Quiet.ofOption.bind fun _ => quiet_upsert).settled
  | deleteBuildScore => exact quiet_delete.settled
  | createBuildScorePreset =>
      exact (Quiet.ofOption.bind fun _ => Quiet.ofOption.bind fun _ =>
        quiet_insertPreset).discard.settled
  | createBuildScorePresetFromStats => exact quiet_createBuildScorePresetFromStats.discard.settled
  | importBuildScorePresetsFromJson => exact quiet_importBuildScorePresetsFromJson.discard.settled
  | updateBuildScorePreset =>
      exact (quiet_getBuildScorePreset.bind fun _ => Quiet.ofOption.bind fun _ =>
        Quiet.ofOption.bind fun _ => quiet_update.bind fun _ => Quiet.pure).discard.settled
  | cloneBuildScorePreset =>
      exact (quiet_getBuildScorePreset.bind fun _ => Quiet.ofOption.bind fun _ =>
        quiet_insertPreset).discard.settled
  | deleteBuildScorePreset => exact quiet_delete.settled
  | getPlannerSettings => exact quiet_getPlannerSettings.discard.settled
  | setPlannerSettingsDefault => exact quiet_writePlannerSettings.settled
  | setPlannerSettingsForServer => exact quiet_setPlannerSettingsForServer.settled
  | clearPlannerSettingsForServer => exact quiet_clearPlannerSettingsForServer.settled
  | createPlannerTemplate => exact quiet_createPlannerTemplate.discard.settled
  | updatePlannerTemplate => exact quiet_updatePlannerTemplate.settled
  | deletePlannerTemplate => exact quiet_delete.settled
  | applyPlannerPreset => exact quiet_applyPlannerPreset.discard.settled
  | setPlannerCompletion => exact quiet_setPlannerCompletion.settled
  | useCharge => exact (quiet_insert.bind fun _ => Quiet.pure).discard.settled
  | undoCharge => exact quiet_undoCharge.discard.settled
  | addPlannerDuration => exact quiet_addPlannerDuration.discard.settled
  | deletePlannerDuration => exact quiet_delete.settled
  | importUserBackup => exact settled_importUserBackup
  | updateEconomyItem =>
      exact (Quiet.ofOption.bind fun _ => Quiet.ofOption.bind fun _ => quiet_update).settled
  | deleteEconomyItem => exact quiet_delete.settled
  | addEconomyPrice => exact quiet_addEconomyPrice.discard.settled
  | createEconomyWatch => exact quiet_createEconomyWatch.discard.settled
  | setEconomyWatchActive => exact (Quiet.ofOption.bind fun _ => quiet_update).settled
  | deleteEconomyWatch => exact quiet_delete.settled
  | markEconomyAlertRead => exact (Quiet.ofOption.bind fun _ => quiet_update).settled
  | createLootRun => exact settled_createLootRun.discard
  | deleteLootRun =>
      exact (Quiet.ofOption.bind fun _ => Quiet.ofOption.bind fun _ => quiet_delete).settled

/-! ### The pragma in the running application -/

/-- The rows after `ensureDefaults`. -/
def withDefaults (db : Db Row) (now : ℤ) : Db Row :=
  if (db .plannerSettings).any (schema.conflicts .plannerSettings (defaultSettingsRow now)) then db
  else db.set .plannerSettings (db .plannerSettings ++ [defaultSettingsRow now])

/-- The default row refers to nothing, so OR IGNORE has nothing to throw. -/
theorem ensureDefaults_eq (now : ℤ) (c : Conn) :
    ensureDefaults now c = (.ok (), { c with db := withDefaults c.db now }) := by
  have hput : schema.put c.foreignKeys c.db .plannerSettings (defaultSettingsRow now) =
      .ok (c.db.set .plannerSettings (c.db .plannerSettings ++ [defaultSettingsRow now])) := by
    refine if_neg fun h => h.2 fun fk hfk => ?_
    exact absurd hfk List.not_mem_nil
  by_cases hc : (c.db .plannerSettings).any
      (schema.conflicts .plannerSettings (defaultSettingsRow now)) = true
  · simp only [ensureDefaults, Schema.insert, Schema.insertDb, withDefaults, if_pos hc]
  · simp only [ensureDefaults, Schema.insert, Schema.insertDb, withDefaults, if_neg hc, hput]

/-- The connection `openDesktopDb` returns has just been reopened. -/
theorem opened_eq (existing : Option (Db Row)) (now : ℤ) :
    opened existing now = ⟨withDefaults (existing.getD fun _ => []) now, false, none⟩ := by
  have hinit : init now (newDatabase existing) =
      (.ok (), ⟨withDefaults (existing.getD fun _ => []) now, true, none⟩) :=
    ensureDefaults_eq now _
  rw [opened, Exec.bind_of_ok hinit]
  rfl

theorem opened_flags (existing : Option (Db Row)) (now : ℤ) :
    (opened existing now).foreignKeys = false ∧ (opened existing now).saved = none := by
  rw [opened_eq]
  exact ⟨rfl, rfl⟩

/-- **In the running application foreign keys are never enforced**, and no
transaction is open between two steps. -/
theorem Reaches.flags {host : Host} {Safe : Conn → Step → Prop} {existing : Option (Db Row)}
    {now : ℤ} {c : Conn} (h : Reaches host Safe (opened existing now) c) :
    c.foreignKeys = false ∧ c.saved = none := by
  refine h.induction (I := fun c => c.foreignKeys = false ∧ c.saved = none)
    (opened_flags existing now) fun d s hd _ => ?_
  cases s with
  | op call => exact ((settled_run call).keeps false).apply hd
  | persist =>
      show (persist.discard d).2.foreignKeys = false ∧ (persist.discard d).2.saved = none
      rw [Exec.discard_snd]
      exact ⟨rfl, rfl⟩

theorem Reachable.flags {host : Host} {c : Conn} (h : Reachable host c) :
    c.foreignKeys = false ∧ c.saved = none := by
  obtain ⟨existing, now, hr⟩ := h
  exact hr.flags

/-! ### An import in the running application -/

/-- The user tables that no DELETE of the import names. -/
def childTables : List Table :=
  [.plannerAssignment, .plannerCompletion, .plannerChargeUse, .plannerDuration, .buildScore,
    .buildScorePreset, .lootRun, .lootRunDrop, .lootRunCost]

/-- The tables of the user's data. -/
def userTables : List Table :=
  [.appSetting, .appCharacter, .plannerSettings, .plannerTemplate, .economyItem, .economyPrice,
    .economyPriceWatch] ++ childTables

/-- The DELETEs without foreign keys: the eight tables are empty, the others
as they were. -/
theorem clearUserTables_off {c : Conn} (h : c.foreignKeys = false) :
    clearUserTables c =
      (.ok (), { c with db := fun t => if t ∈ clearedTables then [] else c.db t }) := by
  have hdelete : ∀ (t : Table) (c : Conn), c.foreignKeys = false →
      schema.delete t (fun _ => true) c = (.ok (), { c with db := c.db.set t [] }) := by
    intro t c hc
    show (Except.ok (), { c with db := schema.deleteDb c.foreignKeys c.db t fun _ => true }) = _
    rw [hc, Schema.deleteDb, if_neg (by simp), show (c.db t).filter (fun _ => !true) = [] from
      List.filter_false _]
  have hloop : ∀ (l : List Table) (c : Conn), c.foreignKeys = false →
      Exec.forEach l (fun t => schema.delete t fun _ => true) c =
        (.ok (), { c with db := fun t => if t ∈ l then [] else c.db t }) := by
    intro l
    induction l with
    | nil =>
        intro c _
        simp
    | cons a l ih =>
        intro c hc
        rw [Exec.forEach_cons, Exec.bind_of_ok (hdelete a c hc)]
        refine (ih { c with db := c.db.set a [] } hc).trans ?_
        congr 2
        funext t
        by_cases hl : t ∈ l
        · simp [hl]
        · by_cases hta : t = a
          · subst hta
            simp [hl]
          · simp [hl, hta, Db.set_of_ne _ hta]
  exact hloop clearedTables c h

/-- What an accepted backup does where nothing is enforced: its INSERTs run
on the database with the eight tables emptied. -/
theorem importUserBackup_off {raw : Js} {now : ℤ} {c d : Conn} (hoff : c.foreignKeys = false)
    (hsaved : c.saved = none) (h : importUserBackup raw now c = (.ok (), d)) :
    ∃ version d', schemaVersion raw = some version ∧
      (parseBackup raw version (stamp now)).insertAll (stamp now)
        ⟨fun t => if t ∈ clearedTables then [] else c.db t, false, some c.db⟩ = (.ok (), d') ∧
      d.db = d'.db := by
  rcases importUserBackup_cases hsaved with ⟨version, d', hv, hd', h'⟩ | ⟨e, h'⟩
  · rw [h'] at h
    refine ⟨version, d', hv, ?_, by cases h; rfl⟩
    obtain ⟨db, enforced, saved⟩ := c
    obtain rfl : enforced = false := hoff
    rwa [Backup.restore, Exec.bind_of_ok (clearUserTables_off rfl)] at hd'
  · rw [h'] at h
    cases h

/-! ### A short run -/

/-- One character has been created. -/
def withCharacter : Conn :=
  ((Step.op (.createCharacter ⟨"Kaisinel", none, none⟩ "c1" 1)).run (Host.iso (Zone.fixed 0))
    (opened none 0)).2

/-- What is drawn for a template. -/
def templateDraw : Draw := ⟨"t1", 2, by decide, by decide⟩

/-- Then one template. -/
def withAssignment : Conn :=
  ((Step.op (.createPlannerTemplate ⟨"Ritual", .daily, none, none, none⟩ templateDraw)).run
    (Host.iso (Zone.fixed 0)) withCharacter).2

theorem reaches_withAssignment {Safe : Conn → Step → Prop}
    (h₁ : Safe (opened none 0) (.op (.createCharacter ⟨"Kaisinel", none, none⟩ "c1" 1)))
    (h₂ : Safe withCharacter
      (.op (.createPlannerTemplate ⟨"Ritual", .daily, none, none, none⟩ templateDraw))) :
    Reaches (Host.iso (Zone.fixed 0)) Safe (opened none 0) withAssignment :=
  .step (.step .start h₁) h₂

theorem withAssignment_assignments : withAssignment.db .plannerAssignment =
    [⟨"assign:t1:c1", "c1", "t1", true, none, stamp 2, stamp 2⟩] :=
  rfl

end Hub
