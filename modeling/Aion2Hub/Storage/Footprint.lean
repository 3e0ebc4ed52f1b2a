/-
Aion2Hub/Storage/Footprint.lean

Which tables an operation writes.

`Op.writes` lists the tables that the statements of an operation name.  Every
other table stays as it is, as long as no cascade reaches it (`leaves_run`).
-/
import Aion2Hub.Storage.Lifecycle
import Aion2Hub.Lib.Frame
import Aion2Hub.Lib.Load
import Mathlib.Data.List.ReduceOption

namespace Hub

open Sql Exec

/-- The tables that an operation inserts into, updates or deletes from. -/
def Op.writes : Op → List Table
  | .upsertNoticeItem _ _ => [.noticeItem]
  | .upsertSnapshot _ _ => [.noticeSnapshot]
  | .upsertDiff _ _ => [.noticeDiff]
  | .setSetting _ _ => [.appSetting]
  | .createCharacter _ _ _ => [.appCharacter, .plannerAssignment]
  | .updateCharacter _ _ _ | .deleteCharacter _ => [.appCharacter]
  | .setBuildScore _ _ _ | .deleteBuildScore _ => [.buildScore]
  | .createBuildScorePreset _ _ _ | .createBuildScorePresetFromStats _ _ _ _ _
  | .importBuildScorePresetsFromJson _ _ _ _ | .updateBuildScorePreset _ _ _ _
  | .cloneBuildScorePreset _ _ _ | .deleteBuildScorePreset _ => [.buildScorePreset]
  | .getPlannerSettings _ | .setPlannerSettingsDefault _ _ | .setPlannerSettingsForServer _ _ _
  | .clearPlannerSettingsForServer _ => [.plannerSettings]
  | .createPlannerTemplate _ _ | .applyPlannerPreset _ _ _ => [.plannerTemplate, .plannerAssignment]
  | .updatePlannerTemplate _ _ _ | .deletePlannerTemplate _ => [.plannerTemplate]
  | .setPlannerCompletion _ _ _ => [.plannerCompletion]
  | .useCharge _ _ _ _ _ | .undoCharge _ _ => [.plannerChargeUse]
  | .addPlannerDuration _ _ | .deletePlannerDuration _ _ => [.plannerDuration]
  | .importUserBackup _ _ => clearedTables ++ restoredTables.map (·.1)
  | .updateEconomyItem _ _ _ _ _ | .deleteEconomyItem _ => [.economyItem]
  | .addEconomyPrice _ _ => [.economyItem, .economyPrice, .economyAlertEvent]
  | .createEconomyWatch _ _ => [.economyItem, .economyPriceWatch]
  | .setEconomyWatchActive _ _ _ | .deleteEconomyWatch _ => [.economyPriceWatch]
  | .markEconomyAlertRead _ _ => [.economyAlertEvent]
  | .createLootRun _ _ _ _ => [.lootRun, .economyItem, .lootRunDrop, .lootRunCost]
  | .deleteLootRun _ _ => [.lootRun]

section

variable {F : Table → Prop} {host : Host}

theorem leaves_getPlannerSettings (hF : schema.Closed F) {now : ℤ} (h : ¬ F .plannerSettings) :
    Leaves F (getPlannerSettings now) := by
  refine (Leaves.gets.bind fun _ => Leaves.pure).bind fun row => ?_
  cases row with
  | none => exact (leaves_insert hF h).bind fun _ => Leaves.pure
  | some settings => exact Leaves.pure

theorem leaves_writePlannerSettings (hF : schema.Closed F) {id : String} {input : SettingsInput}
    {now : ℤ} (h : ¬ F .plannerSettings) : Leaves F (writePlannerSettings id input now) :=
  Leaves.ofOption.bind fun _ => leaves_upsert hF h

theorem leaves_createPlannerTemplate (hF : schema.Closed F) {input : TemplateInput} {draw : Draw}
    (h : ¬ F .plannerTemplate) (h' : ¬ F .plannerAssignment) :
    Leaves F (createPlannerTemplate input draw) :=
  Leaves.ofOption.bind fun _ => (leaves_insert hF h).bind fun _ =>
    (leaves_insertSelect hF h').bind fun _ => Leaves.pure

theorem leaves_createMissing (hF : schema.Closed F) {draws : ℕ → Draw} {ts : List TemplateInput}
    {existingKeys : List String} {created skipped : ℕ} (h : ¬ F .plannerTemplate)
    (h' : ¬ F .plannerAssignment) :
    Leaves F (createMissing host draws ts existingKeys created skipped) := by
  induction ts generalizing existingKeys created skipped with
  | nil => exact Leaves.pure
  | cons t ts ih =>
      unfold createMissing
      split
      · exact ih
      · exact (leaves_createPlannerTemplate hF h h').bind fun _ => ih

theorem leaves_insertPreset (hF : schema.Closed F) {p : BuildScorePreset}
    (h : ¬ F .buildScorePreset) : Leaves F (insertPreset p) :=
  (leaves_insert hF h).bind fun _ => Leaves.pure

theorem leaves_createBuildScorePresetFromStats (hF : schema.Closed F) {input : PresetInput}
    {stats : List BuildScoreStat} {createdAt updatedAt : Option String} {draw : Draw}
    (h : ¬ F .buildScorePreset) :
    Leaves F (createBuildScorePresetFromStats input stats createdAt updatedAt draw) :=
  Leaves.ofOption.bind fun _ => leaves_insertPreset hF h

theorem leaves_createPresets (hF : schema.Closed F) {characterId : String} {now : ℤ}
    {draws : ℕ → Draw} {items : List Js} {created : List BuildScorePresetListItem}
    (h : ¬ F .buildScorePreset) : Leaves F (createPresets characterId now draws items created) := by
  induction items generalizing created with
  | nil => exact Leaves.pure
  | cons it items ih =>
      unfold createPresets
      split
      · exact ih
      · exact (leaves_createBuildScorePresetFromStats hF h).bind fun _ => ih

theorem leaves_upsertEconomyItemByName {name : String}
    {category note : Option String} {draw : Draw} (h : ¬ F .economyItem) :
    Leaves F (upsertEconomyItemByName name category note draw) := by
  refine Leaves.ofOption.bind fun name => Leaves.gets.bind fun existing => ?_
  split
  · exact (leaves_update h).bind fun _ => Leaves.pure
  · exact (leaves_insert_abort h).bind fun _ => Leaves.pure

theorem leaves_insertAlerts {event : PriceEvent} {draws : ℕ → Draw}
    {ws : List EconomyPriceWatch} {triggered : List EconomyAlertEvent}
    (h : ¬ F .economyAlertEvent) : Leaves F (insertAlerts event draws ws triggered) := by
  induction ws generalizing triggered with
  | nil => exact Leaves.pure
  | cons w ws ih =>
      unfold insertAlerts
      split
      · exact (leaves_insert_abort h).bind fun _ => ih
      · exact ih

theorem leaves_insertDrop {runId : String} {now : ℤ} {d : DropInput}
    {draws : ℕ → Draw} (h : ¬ F .economyItem) (h' : ¬ F .lootRunDrop) :
    Leaves F (insertDrop runId now d draws) := by
  unfold insertDrop
  split
  · exact Leaves.pure
  · split
    · exact Leaves.pure
    · exact (leaves_upsertEconomyItemByName h).bind fun _ => leaves_insert_abort h'

theorem leaves_insertCost {runId : String} {now : ℤ} {c : CostInput}
    {draws : ℕ → Draw} (h : ¬ F .economyItem) (h' : ¬ F .lootRunCost) :
    Leaves F (insertCost runId now c draws) := by
  unfold insertCost
  split
  · split
    · exact Leaves.pure
    · exact leaves_insert_abort h'
  · split
    · exact Leaves.pure
    · split
      · exact Leaves.pure
      · exact (leaves_upsertEconomyItemByName h).bind fun _ => leaves_insert_abort h'

theorem leaves_createLootRun {input : LootRunInput} {draw : Draw}
    {dropDraws costDraws : ℕ → ℕ → Draw} (h : ¬ F .lootRun) (hitem : ¬ F .economyItem)
    (hdrop : ¬ F .lootRunDrop) (hcost : ¬ F .lootRunCost) :
    Leaves F (createLootRun host input draw dropDraws costDraws) := by
  refine Leaves.ofOption.bind fun _ => Leaves.ofOption.bind fun _ => Leaves.gets.bind fun _ =>
    Leaves.ofOption.bind fun _ => Leaves.bind (leaves_atomically ?_ ?_) fun _ => Leaves.pure
  · exact quiet_insert.bind fun _ => (Quiet.forEach fun _ => quiet_insertDrop).bind fun _ =>
      Quiet.forEach fun _ => quiet_insertCost
  · exact (leaves_insert_abort h).bind fun _ =>
      (Leaves.forEach fun _ _ => leaves_insertDrop hitem hdrop).bind fun _ =>
        Leaves.forEach fun _ _ => leaves_insertCost hitem hcost

theorem leaves_insertTable (hF : schema.Closed F) {b : Backup} {p : Table × OnConflict}
    (h : ¬ F p.1) : Leaves F (b.insertTable p) := by
  refine Leaves.forEach fun row _ => ?_
  unfold insertRow
  split
  · exact leaves_insert hF h
  · split
    · exact Leaves.pure
    · exact Leaves.throw

theorem leaves_setSetting (hF : schema.Closed F) {key : String} {value : Option String}
    (h : ¬ F .appSetting) : Leaves F (setSetting key value) := by
  cases value with
  | none => exact leaves_delete hF h
  | some v => exact leaves_upsert hF h

/-- An import writes the tables it empties and those it fills. -/
theorem leaves_restore (hF : schema.Closed F) {b : Backup} {now : String}
    (h : ∀ t ∈ clearedTables ++ restoredTables.map (·.1), ¬ F t) : Leaves F (b.restore now) := by
  have hcleared : ∀ t ∈ clearedTables, ¬ F t := fun t ht => h t (List.mem_append_left _ ht)
  have hrestored : ∀ p ∈ restoredTables, ¬ F p.1 := fun p hp =>
    h p.1 (List.mem_append_right _ (List.mem_map_of_mem hp))
  have hactive : Leaves F b.restoreActive := by
    unfold Backup.restoreActive
    split
    · exact leaves_setSetting hF (hcleared _ (by decide))
    · exact Leaves.pure
  have hclear : Leaves F clearUserTables :=
    Leaves.forEach fun t ht => leaves_delete hF (hcleared t ht)
  have hsettings : Leaves F (b.insertTable (.plannerSettings, .abort)) :=
    leaves_insertTable hF (hcleared .plannerSettings (by decide))
  have hfill : Leaves F (Exec.forEach restoredTables b.insertTable) :=
    Leaves.forEach fun p hp => leaves_insertTable hF (hrestored p hp)
  exact hclear.bind fun _ => hsettings.bind fun _ => hactive.bind fun _ => hfill.bind fun _ =>
    leaves_insertSelect hF (hrestored (.plannerAssignment, .ignore) (by decide))

/-! ### Every operation -/

/-- **An operation leaves every table that it does not write**, where no
cascade reaches the tables in question. -/
theorem leaves_run (hF : schema.Closed F) {op : Op} (h : ∀ t ∈ op.writes, ¬ F t) :
    Leaves F (op.run host) := by
  unfold Op.run
  cases op with
  | upsertNoticeItem =>
      refine Leaves.discard (Leaves.gets.bind fun existing => ?_)
      split
      · exact (leaves_update (h _ (by simp [Op.writes]))).bind fun _ => Leaves.pure
      · exact (leaves_insert hF (h _ (by simp [Op.writes]))).bind fun _ => Leaves.pure
  | upsertSnapshot =>
      refine Leaves.discard (Leaves.gets.bind fun existing => ?_)
      split
      · exact Leaves.pure
      · exact (leaves_insert hF (h _ (by simp [Op.writes]))).bind fun _ => Leaves.pure
  | upsertDiff =>
      refine Leaves.discard (Leaves.gets.bind fun existing => ?_)
      split
      · exact (leaves_update (h _ (by simp [Op.writes]))).bind fun _ => Leaves.pure
      · exact (leaves_insert hF (h _ (by simp [Op.writes]))).bind fun _ => Leaves.pure
  | setSetting => exact leaves_setSetting hF (h _ (by simp [Op.writes]))
  | createCharacter =>
      exact ((leaves_insert hF (h _ (by simp [Op.writes]))).bind fun _ =>
        (leaves_insertSelect hF (h _ (by simp [Op.writes]))).bind fun _ => Leaves.pure).discard
  | updateCharacter => exact leaves_update (h _ (by simp [Op.writes]))
  | deleteCharacter => exact leaves_delete hF (h _ (by simp [Op.writes]))
  | setBuildScore => exact Leaves.ofOption.bind fun _ => leaves_upsert hF (h _ (by simp [Op.writes]))
  | deleteBuildScore => exact leaves_delete hF (h _ (by simp [Op.writes]))
  | createBuildScorePreset =>
      exact (Leaves.ofOption.bind fun _ => Leaves.ofOption.bind fun _ =>
        leaves_insertPreset hF (h _ (by simp [Op.writes]))).discard
  | createBuildScorePresetFromStats =>
      exact (leaves_createBuildScorePresetFromStats hF (h _ (by simp [Op.writes]))).discard
  | importBuildScorePresetsFromJson =>
      apply Leaves.discard
      unfold importBuildScorePresetsFromJson
      split
      · exact Leaves.throw
      · exact leaves_createPresets hF (h _ (by simp [Op.writes]))
  | updateBuildScorePreset =>
      exact ((Leaves.gets.bind fun _ => Leaves.pure).bind fun _ => Leaves.ofOption.bind fun _ =>
        Leaves.ofOption.bind fun _ => (leaves_update (h _ (by simp [Op.writes]))).bind fun _ =>
          Leaves.pure).discard
  | cloneBuildScorePreset =>
      exact ((Leaves.gets.bind fun _ => Leaves.pure).bind fun _ => Leaves.ofOption.bind fun _ =>
        leaves_insertPreset hF (h _ (by simp [Op.writes]))).discard
  | deleteBuildScorePreset => exact leaves_delete hF (h _ (by simp [Op.writes]))
  | getPlannerSettings => exact (leaves_getPlannerSettings hF (h _ (by simp [Op.writes]))).discard
  | setPlannerSettingsDefault => exact leaves_writePlannerSettings hF (h _ (by simp [Op.writes]))
  | setPlannerSettingsForServer =>
      show Leaves F (setPlannerSettingsForServer _ _ _)
      unfold setPlannerSettingsForServer
      split
      · exact Leaves.pure
      · exact leaves_writePlannerSettings hF (h _ (by simp [Op.writes]))
  | clearPlannerSettingsForServer =>
      show Leaves F (clearPlannerSettingsForServer _)
      unfold clearPlannerSettingsForServer
      split
      · exact Leaves.pure
      · exact leaves_delete hF (h _ (by simp [Op.writes]))
  | createPlannerTemplate =>
      exact (leaves_createPlannerTemplate hF (h _ (by simp [Op.writes])) (h _ (by simp [Op.writes]))).discard
  | updatePlannerTemplate =>
      show Leaves F (updatePlannerTemplate _ _ _)
      unfold updatePlannerTemplate
      split
      · exact leaves_update (h _ (by simp [Op.writes]))
      · refine Leaves.gets.bind fun row => ?_
        split
        · exact Leaves.throw
        · exact Leaves.pure
  | deletePlannerTemplate => exact leaves_delete hF (h _ (by simp [Op.writes]))
  | applyPlannerPreset mode templates draws =>
      have hclear : Leaves F (clearForPreset mode) := by
        unfold clearForPreset
        split
        · exact leaves_delete hF (h _ (by simp [Op.writes]))
        · exact Leaves.pure
      exact (hclear.bind fun _ => Leaves.gets.bind fun _ =>
        leaves_createMissing hF (h _ (by simp [Op.writes])) (h _ (by simp [Op.writes]))).discard
  | setPlannerCompletion =>
      show Leaves F (setPlannerCompletion _ _ _ _)
      unfold setPlannerCompletion
      split
      · exact leaves_insert hF (h _ (by simp [Op.writes]))
      · exact leaves_delete hF (h _ (by simp [Op.writes]))
  | useCharge => exact ((leaves_insert hF (h _ (by simp [Op.writes]))).bind fun _ => Leaves.pure).discard
  | undoCharge =>
      refine Leaves.discard (Leaves.gets.bind fun rows => ?_)
      split
      · exact Leaves.pure
      · exact (leaves_delete hF (h _ (by simp [Op.writes]))).bind fun _ => Leaves.pure
  | addPlannerDuration =>
      exact (Leaves.ofOption.bind fun _ => Leaves.ofOption.bind fun _ => Leaves.ofOption.bind fun _ =>
        (leaves_insert hF (h _ (by simp [Op.writes]))).bind fun _ => Leaves.pure).discard
  | deletePlannerDuration => exact leaves_delete hF (h _ (by simp [Op.writes]))
  | importUserBackup =>
      show Leaves F (importUserBackup _ _)
      unfold importUserBackup
      split
      · split
        · exact Leaves.throw
        · exact leaves_atomically quiet_restore (leaves_restore hF h)
      · exact Leaves.throw
  | updateEconomyItem =>
      exact Leaves.ofOption.bind fun _ => Leaves.ofOption.bind fun _ =>
        leaves_update (h _ (by simp [Op.writes]))
  | deleteEconomyItem => exact leaves_delete hF (h _ (by simp [Op.writes]))
  | addEconomyPrice =>
      exact (Leaves.ofOption.bind fun _ =>
        (leaves_upsertEconomyItemByName (h _ (by simp [Op.writes]))).bind fun _ =>
          (leaves_insert hF (h _ (by simp [Op.writes]))).bind fun _ =>
            (Leaves.gets.bind fun _ => leaves_insertAlerts (h _ (by simp [Op.writes]))).bind fun _ =>
              Leaves.pure).discard
  | createEconomyWatch =>
      refine Leaves.discard (Leaves.ofOption.bind fun server =>
        (leaves_upsertEconomyItemByName (h _ (by simp [Op.writes]))).bind fun item => ?_)
      dsimp only
      exact (leaves_insert hF (h _ (by simp [Op.writes]))).bind fun _ => Leaves.pure
  | setEconomyWatchActive => exact Leaves.ofOption.bind fun _ => leaves_update (h _ (by simp [Op.writes]))
  | deleteEconomyWatch => exact leaves_delete hF (h _ (by simp [Op.writes]))
  | markEconomyAlertRead => exact Leaves.ofOption.bind fun _ => leaves_update (h _ (by simp [Op.writes]))
  | createLootRun =>
      exact (leaves_createLootRun (h _ (by simp [Op.writes])) (h _ (by simp [Op.writes]))
        (h _ (by simp [Op.writes])) (h _ (by simp [Op.writes]))).discard
  | deleteLootRun =>
      exact Leaves.ofOption.bind fun _ => Leaves.ofOption.bind fun _ =>
        leaves_delete hF (h _ (by simp [Op.writes]))

/-! ### What an import fills -/

theorem reduceOption_map_some {α : Type} (l : List α) : (l.map some).reduceOption = l := by
  rw [List.reduceOption, List.filterMap_map]
  exact List.filterMap_some

/-- The rows of a table that is filled without OR REPLACE. -/
def grown (oc : OnConflict) (t : Table) (rows new : List (Row t)) : List (Row t) :=
  if oc = .ignore then schema.absorb t rows new else rows ++ new

theorem grown_nil {oc : OnConflict} {t : Table} {rows : List (Row t)} : grown oc t rows [] = rows := by
  unfold grown
  split
  · rfl
  · exact List.append_nil rows

theorem grown_append {oc : OnConflict} {t : Table} {rows new new' : List (Row t)} :
    grown oc t (grown oc t rows new) new' = grown oc t rows (new ++ new') := by
  unfold grown
  split
  · exact (List.foldl_append).symm
  · exact List.append_assoc _ _ _

/-- One row grows its table, and no other. -/
theorem insertRow_grown {oc : OnConflict} {t : Table} {o : Option (Row t)} {c d : Conn}
    (hoc : oc ≠ .replace) (h : insertRow oc t o c = (.ok (), d)) :
    d.db t = grown oc t (c.db t) o.toList ∧ ∀ t' ≠ t, d.db t' = c.db t' := by
  cases o with
  | none =>
      rw [insertRow] at h
      split at h
      · cases h
        exact ⟨grown_nil.symm, fun _ _ => rfl⟩
      · cases h
  | some r =>
      have h' : schema.insert oc t r c = (.ok (), d) := h
      cases oc with
      | abort =>
          obtain rfl := insert_abort_ok h'
          exact ⟨Db.set_self _ _ _, fun t' ht' => Db.set_of_ne _ ht' _⟩
      | ignore =>
          obtain rfl := insert_ignore_ok h'
          exact ⟨Db.set_self _ _ _, fun t' ht' => Db.set_of_ne _ ht' _⟩
      | replace => exact absurd rfl hoc

theorem insertTable_grown {b : Backup} {p : Table × OnConflict} {c d : Conn} (hoc : p.2 ≠ .replace)
    (h : b.insertTable p c = (.ok (), d)) :
    d.db p.1 = grown p.2 p.1 (c.db p.1) (b.rows p.1).reduceOption ∧
      ∀ t' ≠ p.1, d.db t' = c.db t' := by
  have hloop : ∀ (rows : List (Option (Row p.1))) (c : Conn),
      Exec.forEach rows (insertRow p.2 p.1) c = (.ok (), d) →
      d.db p.1 = grown p.2 p.1 (c.db p.1) rows.reduceOption ∧ ∀ t' ≠ p.1, d.db t' = c.db t' := by
    intro rows
    induction rows with
    | nil =>
        intro c h
        cases h
        exact ⟨grown_nil.symm, fun _ _ => rfl⟩
    | cons o rows ih =>
        intro c h
        obtain ⟨u, mid, hmid, hrest⟩ := bind_eq_ok h
        obtain ⟨hone, hsame⟩ := insertRow_grown hoc hmid
        obtain ⟨hmany, hsame'⟩ := ih mid hrest
        refine ⟨?_, fun t' ht' => (hsame' t' ht').trans (hsame t' ht')⟩
        rw [hmany, hone, grown_append]
        cases o <;> rfl
  exact hloop (b.rows p.1) c h

/-- Of tables that refer only to each other, each is grown by the rows of
the backup, or left alone. -/
theorem forEach_insertTable_grown [DecidablePred F] (hF : schema.Closed F) {b : Backup} {d : Conn}
    {t : Table} (ht : F t) {l : List (Table × OnConflict)} (hl : (l.map (·.1)).Nodup)
    (hoc : ∀ p ∈ l, F p.1 → p.2 ≠ .replace) {c : Conn}
    (h : Exec.forEach l b.insertTable c = (.ok (), d)) :
    (∀ oc, (t, oc) ∈ l → d.db t = grown oc t (c.db t) (b.rows t).reduceOption) ∧
      (t ∉ l.map (·.1) → d.db t = c.db t) := by
  induction l generalizing c with
  | nil =>
      cases h
      exact ⟨fun oc h => absurd h List.not_mem_nil, fun _ => rfl⟩
  | cons p l ih =>
      obtain ⟨hfresh, hl⟩ := List.nodup_cons.mp hl
      obtain ⟨u, mid, hmid, hrest⟩ := bind_eq_ok h
      obtain ⟨hgrown, hsame⟩ := ih hl (fun q hq => hoc q (List.mem_cons_of_mem p hq)) hrest
      have hmiddle : t ≠ p.1 → mid.db t = c.db t := by
        intro hne
        by_cases hp : F p.1
        · exact (insertTable_grown (hoc p List.mem_cons_self hp) hmid).2 t hne
        · exact (leaves_insertTable hF hp).of_ok hmid ht
      refine ⟨fun oc hmem => ?_, fun hnot => ?_⟩
      · rcases List.mem_cons.mp hmem with rfl | hmem
        · rw [hsame hfresh]
          exact (insertTable_grown (hoc _ List.mem_cons_self ht) hmid).1
        · have hne : t ≠ p.1 := fun heq => hfresh (List.mem_map.mpr ⟨(t, oc), hmem, heq⟩)
          rw [hgrown oc hmem, hmiddle hne]
      · obtain ⟨hne, hrest⟩ := not_or.mp (mt List.mem_cons.mpr hnot)
        rw [hsame hrest, hmiddle hne]

end

end Hub
