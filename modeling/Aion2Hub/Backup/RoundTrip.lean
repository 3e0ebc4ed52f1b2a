/-
Aion2Hub/Backup/RoundTrip.lean

An exported backup restores what was exported.

* `readUserRows_eq`: an export reads the tables as they are (`userRows`) when no
  text in them holds a U+0000;
* `importUserBackup_toJs`: on a fresh installation the import of these rows
  goes through and leaves exactly them (`UserRows.restored`);
* `importUserBackup_exportUserBackup`: so exporting, restoring and exporting
  again gives the same backup, section by section.
-/
import Aion2Hub.Backup.Codec
import Aion2Hub.Planner.Settings
import Aion2Hub.Lib.Load

namespace Hub

open Sql Exec

/-! ### What an export reads -/

/-- The user's data in the order of the file. -/
def userRows (now : ℤ) (db : Db Row) : UserRows where
  activeCharacterId :=
    ((db .appSetting).find? fun r => r.key == "activeCharacterId").map (·.value)
  characters :=
    (orderBy (byUpdated (·.updatedAt) (·.createdAt)) (db .appCharacter)).map asAppCharacter
  default := defaultSettings now db
  perServer := orderBy (asc (·.id) anyOrder) ((db .plannerSettings).filter isServerSettings)
  templates := orderBy (asc (·.type.text) (asc (·.title) anyOrder)) (db .plannerTemplate)
  assignments := orderBy (byUpdated (·.updatedAt) (·.createdAt)) (db .plannerAssignment)
  completions := orderBy (desc (·.completedAt) anyOrder) (db .plannerCompletion)
  chargeUses := orderBy (desc (·.usedAt) anyOrder) (db .plannerChargeUse)
  durations := orderBy (desc (·.startedAt) anyOrder) (db .plannerDuration)
  buildScores := orderBy (desc (·.updatedAt) anyOrder) (db .buildScore)
  presets := orderBy (byUpdated (·.updatedAt) (·.createdAt)) (db .buildScorePreset)
  items := orderBy (byUpdated (·.updatedAt) (·.createdAt)) (db .economyItem)
  prices := orderBy (desc (·.recordedAt) (desc (·.createdAt) anyOrder)) (db .economyPrice)
  watches := orderBy (byUpdated (·.updatedAt) (·.createdAt)) (db .economyPriceWatch)
  runs := orderBy (desc (·.endedAt.toList) (desc (·.createdAt) anyOrder)) (db .lootRun)
  drops := orderBy (desc (·.createdAt) anyOrder) (db .lootRunDrop)
  costs := orderBy (desc (·.createdAt) anyOrder) (db .lootRunCost)

theorem filter_withDefaults (db : Db Row) (now : ℤ) :
    (withDefaults db now .plannerSettings).filter isServerSettings =
      (db .plannerSettings).filter isServerSettings := by
  rw [withDefaults]
  split
  · rfl
  · have hdefault : isServerSettings (defaultSettingsRow now) = false :=
      isServerSettings_of_default rfl
    rw [Db.set_self, List.filter_append, List.filter_cons_of_neg (by simp [hdefault]),
      List.filter_nil, List.append_nil]

/-- No stored text holds a U+0000. -/
def WholeRows (db : Db Row) : Prop := AllRows (fun t => schema.Whole t) db

/-- An export reads every table, and stores the default settings if they are
missing. -/
theorem readUserRows_eq (now : ℤ) {c : Conn} (hwhole : WholeRows c.db) :
    readUserRows now c = (.ok (userRows now c.db), { c with db := withDefaults c.db now }) := by
  have hread : ∀ (t : Table) (before : Row t → Row t → Bool) (rows : List (Row t)), rows ⊆ c.db t →
      (orderBy before rows).map (schema.read t) = orderBy before rows := fun t before rows hrows =>
    Schema.map_read fun r hr => hwhole t r (hrows ((orderBy_perm before rows).mem_iff.mp hr))
  have hselect : ∀ t, t ≠ .plannerSettings → ∀ before,
      schema.selectBy t (fun _ => true) before { c with db := withDefaults c.db now } =
        (.ok (orderBy before (c.db t)), { c with db := withDefaults c.db now }) := by
    intro t ht before
    show (Except.ok ((orderBy before ((withDefaults c.db now t).filter fun _ => true)).map
      (schema.read t)), _) = _
    rw [List.filter_true, withDefaults_of_ne ht, hread t before _ (List.Subset.refl _)]
  have hactive : getActiveCharacterId c = (.ok (userRows now c.db).activeCharacterId, c) := by
    show (Except.ok ((((c.db .appSetting).find? fun r => r.key == "activeCharacterId").map
      (schema.read .appSetting)).map (·.value)), c) = _
    cases hfind : (c.db .appSetting).find? fun r => r.key == "activeCharacterId" with
    | none =>
        rw [userRows, hfind]
        rfl
    | some r =>
        rw [userRows, hfind, Option.map_some,
          show schema.read .appSetting r = r from hwhole _ r (List.mem_of_find?_eq_some hfind)]
  have hcharacters : listCharacters c = (.ok (userRows now c.db).characters, c) := by
    show (Except.ok (((orderBy _ ((c.db .appCharacter).filter fun _ => true)).map
      (schema.read .appCharacter)).map _), c) = _
    rw [List.filter_true, hread .appCharacter _ _ (List.Subset.refl _)]
    rfl
  have hserver : ∀ before, schema.selectBy .plannerSettings isServerSettings before
      { c with db := withDefaults c.db now } =
        (.ok (orderBy before ((c.db .plannerSettings).filter isServerSettings)),
          { c with db := withDefaults c.db now }) := by
    intro before
    show (Except.ok ((orderBy before ((withDefaults c.db now .plannerSettings).filter
      isServerSettings)).map (schema.read .plannerSettings)), _) = _
    rw [filter_withDefaults, hread .plannerSettings before _ fun _ hr => (List.mem_filter.mp hr).1]
  have htemplates : listPlannerTemplates { c with db := withDefaults c.db now } =
      (.ok (userRows now c.db).templates, { c with db := withDefaults c.db now }) :=
    hselect .plannerTemplate (by decide) _
  rw [readUserRows, bind_of_ok hactive, bind_of_ok hcharacters,
    bind_of_ok (getPlannerSettings_eq now c), bind_of_ok (hserver _), bind_of_ok htemplates,
    bind_of_ok (hselect .plannerAssignment (by decide) _),
    bind_of_ok (hselect .plannerCompletion (by decide) _),
    bind_of_ok (hselect .plannerChargeUse (by decide) _),
    bind_of_ok (hselect .plannerDuration (by decide) _),
    bind_of_ok (hselect .buildScore (by decide) _),
    bind_of_ok (hselect .buildScorePreset (by decide) _),
    bind_of_ok (hselect .economyItem (by decide) _),
    bind_of_ok (hselect .economyPrice (by decide) _),
    bind_of_ok (hselect .economyPriceWatch (by decide) _),
    bind_of_ok (hselect .lootRun (by decide) _),
    bind_of_ok (hselect .lootRunDrop (by decide) _),
    bind_of_ok (hselect .lootRunCost (by decide) _)]
  rfl

theorem exportUserBackup_eq (now : ℤ) {c : Conn} (hwhole : WholeRows c.db) :
    exportUserBackup now c =
      (.ok ((userRows now c.db).toJs (stamp now)), { c with db := withDefaults c.db now }) :=
  bind_of_ok (readUserRows_eq now hwhole)

/-! ### Restoring it -/

/-- Every character has an assignment for every template. -/
def UserRows.Assigned (u : UserRows) : Prop :=
  ∀ c ∈ u.characters, ∀ t ∈ u.templates,
    ∃ a ∈ u.assignments, a.characterId = c.id ∧ a.templateId = t.id

theorem restored_of_ne {t : Table} (h₁ : t ≠ .appSetting) (h₂ : t ≠ .plannerSettings)
    (u : UserRows) (now : String) : u.restored now t = u.table t := by
  cases t with
  | appSetting => exact absurd rfl h₁
  | plannerSettings => exact absurd rfl h₂
  | _ => rfl

section

variable {u : UserRows} (h : u.Exportable) {now : String}
  (hd : ∀ t, schema.DistinctRows t (u.restored now t))

include h

theorem insertTable_toBackup (t : Table) (ht : t ≠ .appSetting) (oc : OnConflict) :
    (u.toBackup now).insertTable (t, oc) = Exec.forEach (u.restored now t) (schema.insert oc t) := by
  rw [Backup.insertTable, toBackup_rows h now t ht, forEach_map]
  rfl

/-- The rows of a backup refer to rows of the backup. -/
theorem resolved_restored : schema.Resolved (u.restored now) := by
  have hparents : ∀ t, ∀ fk ∈ foreignKeys t, fk.parent ≠ .appSetting ∧ fk.parent ≠ .plannerSettings := by
    intro t
    cases t <;> decide
  intro t r hr fk hfk k hk
  have hmem : k ∈ u.ids fk.parent := by
    cases t with
    | appSetting => exact absurd hfk List.not_mem_nil
    | plannerSettings => exact absurd hfk List.not_mem_nil
    | _ => exact h.refersTo _ r hr fk hfk k hk
  obtain ⟨q, hq, rfl⟩ := List.mem_map.mp hmem
  refine ⟨q, ?_, rfl⟩
  rwa [restored_of_ne (hparents t fk hfk).1 (hparents t fk hfk).2]

omit h in
/-- The active character is stored if there is one. -/
theorem restoreActive_toBackup (hactive : u.activeCharacterId ≠ some "") {c : Conn}
    (hc : c.db .appSetting = []) :
    (u.toBackup now).restoreActive c =
      (.ok (), { c with db := c.db.set .appSetting (u.restored now .appSetting) }) := by
  have hrows : u.restored now .appSetting =
      (u.activeCharacterId.map fun id => (⟨"activeCharacterId", id⟩ : AppSetting)).toList := rfl
  have helim : (u.toBackup now).restoreActive =
      (nonEmpty u.activeCharacterId).elim (pure ()) fun id => setActiveCharacterId (some id) := by
    show Backup.restoreActive _ = (nonEmpty (u.toBackup now).activeCharacterId).elim _ _
    rw [Backup.restoreActive]
    cases nonEmpty (u.toBackup now).activeCharacterId <;> rfl
  rw [hrows, helim]
  cases ha : u.activeCharacterId with
  | none =>
      show (Except.ok (), c) = (Except.ok (), { c with db := c.db.set .appSetting [] })
      rw [Db.set, ← hc, Function.update_eq_self]
  | some id =>
      have hid : id ≠ "" := fun hid => hactive (hid ▸ ha)
      have hnew : ∀ k, ¬ schema.hasKey c.db .appSetting k := by
        rintro k ⟨q, hq, -⟩
        rw [hc] at hq
        cases hq
      have hfits : schema.insert .abort .appSetting ⟨"activeCharacterId", id⟩ c =
          (.ok (), { c with
            db := c.db.set .appSetting (c.db .appSetting ++ [⟨"activeCharacterId", id⟩]) }) :=
        insert_fits (by rw [hc]; exact Bool.false_ne_true)
          fun _ fk hfk => absurd hfk List.not_mem_nil
      rw [nonEmpty_some hid]
      show schema.upsert .appSetting ⟨"activeCharacterId", id⟩ _ c = _
      refine (if_neg (hnew _)).trans (hfits.trans ?_)
      rw [hc]
      rfl

/-- Restoring on an empty database, whether or not foreign keys are
enforced. -/
theorem insertAll_toBackup (hd : ∀ t, schema.DistinctRows t (u.restored now t))
    (hactive : u.activeCharacterId ≠ some "") (hassigned : u.Assigned) {c : Conn}
    (hc : c.db = fun _ => []) :
    (u.toBackup now).insertAll now c = (.ok (), { c with db := u.restored now }) := by
  obtain ⟨db, enforced, saved⟩ := c
  obtain rfl : db = fun _ => [] := hc
  -- the settings come first, then the active character
  have hsettings : (u.toBackup now).insertTable (.plannerSettings, .abort)
      ⟨fun _ => [], enforced, saved⟩ =
        (.ok (), ⟨Db.set (fun _ => []) .plannerSettings (u.restored now .plannerSettings), enforced,
          saved⟩) := by
    rw [insertTable_toBackup h .plannerSettings (by decide)]
    exact forEach_insert_fits (hd .plannerSettings) fun _ r _ fk hfk => absurd hfk List.not_mem_nil
  have hactive : (u.toBackup now).restoreActive
      ⟨Db.set (fun _ => []) .plannerSettings (u.restored now .plannerSettings), enforced, saved⟩ =
        (.ok (), ⟨(Db.set (fun _ => []) .plannerSettings (u.restored now .plannerSettings)).set
          .appSetting (u.restored now .appSetting), enforced, saved⟩) :=
    restoreActive_toBackup hactive rfl
  have htables : Exec.forEach restoredTables (u.toBackup now).insertTable
      ⟨(Db.set (fun _ => []) .plannerSettings (u.restored now .plannerSettings)).set .appSetting
        (u.restored now .appSetting), enforced, saved⟩ =
        (.ok (), ⟨u.restored now, enforced, saved⟩) := by
    have hne : ∀ p ∈ restoredTables, p.1 ≠ .appSetting ∧ p.1 ≠ .plannerSettings := by decide
    have hloaded : Db.loaded (restoredTables.map Prod.fst) (u.restored now)
        ((Db.set (fun _ => []) .plannerSettings (u.restored now .plannerSettings)).set .appSetting
          (u.restored now .appSetting)) = u.restored now := by
      funext t
      cases t <;> rfl
    rw [forEach_congr fun p hp => insertTable_toBackup h p.1 (hne p hp).1 p.2]
    refine (forEach_load (by decide) (fun p hp => ?_) (by decide) (fun p _ => hd p.1)
      fun _ p _ r hr => ?_).trans ?_
    · exact (Db.set_of_ne _ (hne p hp).1 _).trans (Db.set_of_ne _ (hne p hp).2 _)
    · show schema.parentsExist (Db.loaded _ _ _) p.1 r
      rw [hloaded]
      exact resolved_restored h p.1 r hr
    · exact congrArg (fun db => (Except.ok (), Conn.mk db enforced saved)) hloaded
  have hauto : schema.insertSelect .ignore .plannerAssignment (autoAssignments now)
      ⟨u.restored now, enforced, saved⟩ = (.ok (), ⟨u.restored now, enforced, saved⟩) := by
    refine insertSelect_ignored fun r hr => ?_
    obtain ⟨character, hcharacter, hr⟩ := List.mem_flatMap.mp hr
    obtain ⟨template, htemplate, rfl⟩ := List.mem_map.mp hr
    obtain ⟨a, ha, hca, hta⟩ := hassigned character hcharacter template htemplate
    refine List.any_eq_true.mpr ⟨a, ha, conflicts_iff.mpr (.inr ⟨_, List.mem_cons_self, ?_⟩)⟩
    show [character.id, template.id] = [a.characterId, a.templateId]
    rw [hca, hta]
  rw [Backup.insertAll, bind_of_ok hsettings, bind_of_ok hactive, bind_of_ok htables, hauto]

/-- **The import of an exported backup goes through** on every database
without rows in the tables that the import leaves to the cascade, and leaves
the rows of the backup. -/
theorem importUserBackup_toJs (exportedAt : String) {now : ℤ}
    (hd : ∀ t, schema.DistinctRows t (u.restored (stamp now) t))
    (hactive : u.activeCharacterId ≠ some "") (hassigned : u.Assigned) {c : Conn}
    (hsaved : c.saved = none) (hc : ∀ t, t ∈ clearedTables ∨ c.db t = []) :
    importUserBackup (Js.serialise (u.toJs exportedAt)) now c =
      (.ok (), { c with db := u.restored (stamp now) }) := by
  obtain ⟨db, enforced, saved⟩ := c
  obtain rfl : saved = none := hsaved
  have hversion : schemaVersion (u.toJs exportedAt) = some 4 := by
    show (some (4 : Number)).filter (fun v => v ∈ [(1 : Number), 2, 3, 4]) = some 4
    exact Option.filter_some_pos (by decide)
  have hobject : (u.toJs exportedAt).isObject = true := rfl
  have hrestore : (parseBackup (u.toJs exportedAt) 4 (stamp now)).restore (stamp now)
      ⟨db, enforced, some db⟩ = (.ok (), ⟨u.restored (stamp now), enforced, some db⟩) := by
    have hclear : clearUserTables ⟨db, enforced, some db⟩ =
        (.ok (), ⟨fun _ => [], enforced, some db⟩) := forEach_delete_all hc
    rw [parseBackup_toJs h, Backup.restore, bind_of_ok hclear]
    exact insertAll_toBackup h hd hactive hassigned rfl
  rw [serialise_toJs h, importUserBackup, if_pos hobject, hversion]
  rcases atomically_cases (c := ⟨db, enforced, none⟩) (criticalMessage "backup import") rfl
    (quiet_restore (b := parseBackup (u.toJs exportedAt) 4 (stamp now))) with
    ⟨d, hd', hrun⟩ | ⟨d, e, hd', -⟩
  · cases hd'.symm.trans hrestore
    exact hrun
  · cases hd'.symm.trans hrestore

end

/-! ### What an export finds -/

/-- The tables of the lists of a backup. -/
def listTables : List Table :=
  [.plannerTemplate, .plannerAssignment, .plannerCompletion, .plannerChargeUse, .plannerDuration,
    .buildScore, .buildScorePreset, .economyItem, .economyPrice, .economyPriceWatch, .lootRun,
    .lootRunDrop, .lootRunCost]

theorem table_userRows_perm (now : ℤ) (db : Db Row) {t : Table} (ht : t ∈ listTables) :
    ((userRows now db).table t).Perm (db t) := by
  simp only [listTables, List.mem_cons, List.not_mem_nil, or_false] at ht
  rcases ht with rfl | rfl | rfl | rfl | rfl | rfl | rfl | rfl | rfl | rfl | rfl | rfl | rfl <;>
    exact orderBy_perm _ _

theorem characters_userRows_perm (now : ℤ) (db : Db Row) :
    (userRows now db).characters.Perm ((db .appCharacter).map asAppCharacter) :=
  (orderBy_perm _ _).map _

theorem perServer_userRows_perm (now : ℤ) (db : Db Row) :
    (userRows now db).perServer.Perm ((db .plannerSettings).filter isServerSettings) :=
  orderBy_perm _ _

/-- The other tables are not exported. -/
theorem table_cases (t : Table) : t ∈ listTables ∨ t = .appCharacter ∨ t = .plannerSettings ∨
    t ≠ .plannerSettings ∧ ∀ u : UserRows, u.table t = [] := by
  cases t with
  | appCharacter => exact .inr (.inl rfl)
  | plannerSettings => exact .inr (.inr (.inl rfl))
  | noticeItem | noticeSnapshot | noticeDiff | appSetting | economyAlertEvent =>
      exact .inr (.inr (.inr ⟨by decide, fun _ => rfl⟩))
  | _ => exact .inl (by decide)

/-- References resolve and keys are unique, the rows are ones the operations
write, and every pair has an assignment. -/
structure BackupReady (db : Db Row) : Prop where
  resolved : schema.Resolved db
  distinct : schema.Distinct db
  storable : AllRows Storable db
  assigned : ∀ c ∈ db .appCharacter, ∀ t ∈ db .plannerTemplate,
    ∃ a ∈ db .plannerAssignment, a.characterId = c.id ∧ a.templateId = t.id

/-- And no character or template has an empty id, which the import takes for a
missing one, and no text holds a U+0000, at which the export stops reading it. -/
structure Restorable (db : Db Row) : Prop extends BackupReady db where
  whole : WholeRows db
  characters : ∀ c ∈ db .appCharacter, c.id ≠ ""
  templates : ∀ t ∈ db .plannerTemplate, t.id ≠ ""

section

variable {db : Db Row}

theorem mem_ids_userRows (now : ℤ) {t : Table} (ht : t ∈ listTables ∨ t = .appCharacter)
    {k : String} (hk : schema.hasKey db t k) : k ∈ (userRows now db).ids t := by
  obtain ⟨q, hq, rfl⟩ := hk
  rcases ht with ht | rfl
  · exact List.mem_map_of_mem ((table_userRows_perm now db ht).mem_iff.mpr hq)
  · have hmem : asAppCharacter q ∈ (userRows now db).characters :=
      (characters_userRows_perm now db).mem_iff.mpr (List.mem_map_of_mem hq)
    exact List.mem_map.mpr ⟨asAppCharacter q, hmem, rfl⟩

/-- A row of the export is a row of the database, and an exported character
has the id of one. -/
theorem mem_table_userRows {now : ℤ} {t : Table} {r : Row t} (hr : r ∈ (userRows now db).table t) :
    ∃ q ∈ db t, key t q = key t r ∧ (t ≠ .appCharacter → q = r) := by
  rcases table_cases t with ht | rfl | rfl | ⟨hne, hempty⟩
  · exact ⟨r, (table_userRows_perm now db ht).mem_iff.mp hr, rfl, fun _ => rfl⟩
  · have hr : r ∈ (db .appCharacter).map asAppCharacter :=
      (characters_userRows_perm now db).mem_iff.mp hr
    obtain ⟨q, hq, rfl⟩ := List.mem_map.mp hr
    exact ⟨q, hq, rfl, fun hne => absurd rfl hne⟩
  · have hr : r ∈ (db .plannerSettings).filter isServerSettings :=
      (perServer_userRows_perm now db).mem_iff.mp hr
    exact ⟨r, (List.mem_filter.mp hr).1, rfl, fun _ => rfl⟩
  · rw [hempty] at hr
    cases hr

theorem exportable_userRows (now : ℤ) (h : Restorable db) : (userRows now db).Exportable where
  storable t r hr := by
    obtain ⟨q, hq, -, hqr⟩ := mem_table_userRows hr
    by_cases ht : t = .appCharacter
    · subst ht
      trivial
    · exact hqr ht ▸ h.storable t q hq
  refersTo t r hr fk hfk k hk := by
    have hparents : ∀ t ∈ listTables, ∀ fk ∈ foreignKeys t,
        fk.parent ∈ listTables ∨ fk.parent = .appCharacter := by decide
    rcases table_cases t with ht | rfl | rfl | ⟨hne, hempty⟩
    · have hmem : r ∈ db t := (table_userRows_perm now db ht).mem_iff.mp hr
      exact mem_ids_userRows now (hparents t ht fk hfk) (h.resolved t r hmem fk hfk k hk)
    · exact absurd hfk List.not_mem_nil
    · exact absurd hfk List.not_mem_nil
    · rw [hempty] at hr
      cases hr
  day := by
    show (((db .plannerSettings).find? fun r => r.id == "default").getD
      (defaultSettingsRow now)).weeklyResetDay.isFinite = true
    cases hfind : (db .plannerSettings).find? fun r => r.id == "default" with
    | none => rfl
    | some r => exact (h.storable .plannerSettings r (List.mem_of_find?_eq_some hfind)).1
  servers r hr hid := by
    have hmem := (perServer_userRows_perm now db).mem_iff.mp hr
    have hserver := (List.mem_filter.mp hmem).2
    rw [isServerSettings_of_default hid] at hserver
    cases hserver
  characters k hk := by
    obtain ⟨r, hr, rfl⟩ := List.mem_map.mp hk
    obtain ⟨q, hq, hqr, -⟩ := mem_table_userRows (t := .appCharacter) hr
    exact hqr ▸ h.characters q hq
  templates k hk := by
    obtain ⟨r, hr, rfl⟩ := List.mem_map.mp hk
    obtain ⟨q, hq, hqr, -⟩ := mem_table_userRows (t := .plannerTemplate) hr
    exact hqr ▸ h.templates q hq

theorem distinctRows_perm {t : Table} {rows rows' : List (Row t)} (hp : rows.Perm rows')
    (h : schema.DistinctRows t rows') : schema.DistinctRows t rows :=
  (hp.pairwise_iff fun {x y} hxy => by rwa [conflicts_comm]).mpr h

theorem distinctRows_restored (now : ℤ) (now' : String) (h : Restorable db) (t : Table) :
    schema.DistinctRows t ((userRows now db).restored now' t) := by
  rcases table_cases t with ht | rfl | rfl | ⟨hne, hempty⟩
  · have hne : ∀ t ∈ listTables, t ≠ .appSetting ∧ t ≠ .plannerSettings := by decide
    rw [restored_of_ne (hne t ht).1 (hne t ht).2]
    exact distinctRows_perm (table_userRows_perm now db ht) (h.distinct t)
  · refine distinctRows_perm (characters_userRows_perm now db) ?_
    exact List.pairwise_map.mpr (h.distinct .appCharacter)
  · refine List.pairwise_cons.mpr ⟨fun r hr => ?_, ?_⟩
    · -- the id of a server is not that of the default settings
      have hid : r.id ≠ "default" := (exportable_userRows now h).servers r hr
      show ("default" == r.id || false) = false
      rw [Bool.or_false]
      exact beq_eq_false_iff_ne.mpr hid.symm
    · exact distinctRows_perm (perServer_userRows_perm now db)
        ((h.distinct .plannerSettings).sublist List.filter_sublist)
  · by_cases ht : t = .appSetting
    · subst ht
      show List.Pairwise _ (Option.map _ _).toList
      cases (userRows now db).activeCharacterId with
      | none => exact .nil
      | some id => exact List.pairwise_singleton _ _
    · rw [restored_of_ne ht hne, hempty]
      exact .nil

theorem assigned_userRows (now : ℤ) (h : Restorable db) : (userRows now db).Assigned := by
  intro c hc t ht
  obtain ⟨c', hc', hid, -⟩ := mem_table_userRows (t := .appCharacter) hc
  obtain ⟨t', ht', hid', -⟩ := mem_table_userRows (t := .plannerTemplate) ht
  obtain ⟨a, ha, hca, hta⟩ := h.assigned c' hc' t' ht'
  have hmem : a ∈ (userRows now db).assignments :=
    (table_userRows_perm (t := .plannerAssignment) now db (by decide)).mem_iff.mpr ha
  exact ⟨a, hmem, hca.trans hid, hta.trans hid'⟩

theorem activeCharacterId_userRows (now : ℤ) (h : Restorable db) :
    (userRows now db).activeCharacterId ≠ some "" := by
  intro hactive
  obtain ⟨r, hr, hvalue⟩ := Option.map_eq_some_iff.mp hactive
  have hkey : (r.key == "activeCharacterId") = true :=
    List.find?_some (p := fun r : AppSetting => r.key == "activeCharacterId") hr
  exact h.storable .appSetting r (List.mem_of_find?_eq_some hr) (beq_iff_eq.mp hkey) hvalue

end

/-! ### The same backup -/

/-- The lists of a backup besides the characters and the settings of the
servers. -/
def backupLists : List (String × String) :=
  [("planner", "templates"), ("planner", "assignments"), ("planner", "completions"),
    ("planner", "chargeUses"), ("planner", "durations"), ("buildScore", "perCharacter"),
    ("buildScore", "presets"), ("economy", "items"), ("economy", "prices"), ("economy", "watches"),
    ("loot", "runs"), ("loot", "drops"), ("loot", "costs")]

/-- `raw.planner.settings`. -/
def plannerSettingsOf (raw : Js) : Js :=
  Js.asRecord ((Js.asRecord (raw.get "planner")).get "settings")

/-- `raw.planner.settings.default`. -/
def defaultSettingsOf (raw : Js) : Js := Js.asRecord ((plannerSettingsOf raw).get "default")

/-- The same backup up to the order of the lists, `exportedAt` and the time of
the default settings. -/
structure SameBackup (raw raw' : Js) : Prop where
  schemaVersion : raw.get "schemaVersion" = raw'.get "schemaVersion"
  activeCharacterId : raw.get "activeCharacterId" = raw'.get "activeCharacterId"
  dailyResetHhmm : (defaultSettingsOf raw).get "dailyResetHhmm" =
    (defaultSettingsOf raw').get "dailyResetHhmm"
  weeklyResetDay : (defaultSettingsOf raw).get "weeklyResetDay" =
    (defaultSettingsOf raw').get "weeklyResetDay"
  characters : (Js.asArray (raw.get "characters")).Perm (Js.asArray (raw'.get "characters"))
  perServer : (Js.asArray ((plannerSettingsOf raw).get "perServer")).Perm
    (Js.asArray ((plannerSettingsOf raw').get "perServer"))
  lists : ∀ p ∈ backupLists, (listOf raw p.1 p.2).Perm (listOf raw' p.1 p.2)

/-- Each list holds the rows of one table. -/
theorem exists_table_listOf {p : String × String} (hp : p ∈ backupLists) :
    ∃ t ∈ listTables, ∃ f : Row t → Js, ∀ (u : UserRows) (exportedAt : String),
      listOf (u.toJs exportedAt) p.1 p.2 = (u.table t).map f := by
  simp only [backupLists, List.mem_cons, List.not_mem_nil, or_false] at hp
  rcases hp with rfl | rfl | rfl | rfl | rfl | rfl | rfl | rfl | rfl | rfl | rfl | rfl | rfl
  · exact ⟨.plannerTemplate, by decide, _, fun u e => (listOf_planner u e).1⟩
  · exact ⟨.plannerAssignment, by decide, _, fun u e => (listOf_planner u e).2.1⟩
  · exact ⟨.plannerCompletion, by decide, _, fun u e => (listOf_planner u e).2.2.1⟩
  · exact ⟨.plannerChargeUse, by decide, _, fun u e => (listOf_planner u e).2.2.2.1⟩
  · exact ⟨.plannerDuration, by decide, _, fun u e => (listOf_planner u e).2.2.2.2⟩
  · exact ⟨.buildScore, by decide, _, listOf_buildScore⟩
  · exact ⟨.buildScorePreset, by decide, _, listOf_presets⟩
  · exact ⟨.economyItem, by decide, _, fun u e => (listOf_economy u e).1⟩
  · exact ⟨.economyPrice, by decide, _, fun u e => (listOf_economy u e).2.1⟩
  · exact ⟨.economyPriceWatch, by decide, _, fun u e => (listOf_economy u e).2.2⟩
  · exact ⟨.lootRun, by decide, _, fun u e => (listOf_loot u e).1⟩
  · exact ⟨.lootRunDrop, by decide, _, fun u e => (listOf_loot u e).2.1⟩
  · exact ⟨.lootRunCost, by decide, _, fun u e => (listOf_loot u e).2.2⟩

/-- Exporting the rows of a restored backup gives the same backup. -/
theorem sameBackup_restored {u : UserRows} (hdefault : Text.Plain u.default.dailyResetHhmm)
    (hcharacters : ∀ c ∈ u.characters, asAppCharacter c = c)
    (hservers : ∀ r ∈ u.perServer, isServerSettings r = true) (now' : String) (now : ℤ)
    (exportedAt exportedAt' : String) :
    SameBackup (u.toJs exportedAt) ((userRows now (u.restored now')).toJs exportedAt') where
  schemaVersion := rfl
  activeCharacterId := by
    have hread : ∀ o : Option String,
        ((o.map fun id => (⟨"activeCharacterId", id⟩ : AppSetting)).toList.find?
          fun r => r.key == "activeCharacterId").map (·.value) = o := by
      intro o
      cases o <;> rfl
    show some (textJs u.activeCharacterId) = some (textJs _)
    exact congrArg (fun o => some (textJs o)) (hread u.activeCharacterId).symm
  dailyResetHhmm := by
    show some (Js.str u.default.dailyResetHhmm) = some (Js.str (Text.cut u.default.dailyResetHhmm))
    rw [hdefault.cut]
  weeklyResetDay := rfl
  characters := by
    have hsame : u.characters.map asAppCharacter = u.characters :=
      (List.map_congr_left hcharacters).trans (List.map_id' _)
    have hperm := characters_userRows_perm now (u.restored now')
    rw [show u.restored now' .appCharacter = u.characters from rfl, hsame] at hperm
    exact hperm.symm.map characterJs
  perServer := by
    have hkept : (u.restored now' .plannerSettings).filter isServerSettings = u.perServer := by
      have hdefault : isServerSettings (u.toBackup now').default = false :=
        isServerSettings_of_default rfl
      show ((u.toBackup now').default :: u.perServer).filter isServerSettings = u.perServer
      rw [List.filter_cons_of_neg (by simp [hdefault]), List.filter_eq_self.mpr hservers]
    have hperm := perServer_userRows_perm now (u.restored now')
    rw [hkept] at hperm
    exact hperm.symm.map serverSettingsJs
  lists p hp := by
    have hne : ∀ t ∈ listTables, t ≠ .appSetting ∧ t ≠ .plannerSettings := by decide
    obtain ⟨t, ht, f, hf⟩ := exists_table_listOf hp
    have hperm := table_userRows_perm now (u.restored now') ht
    rw [restored_of_ne (hne t ht).1 (hne t ht).2] at hperm
    rw [hf, hf]
    exact hperm.symm.map f

theorem map_cut_nonEmpty {o : Option String} (h : o.map Text.cut = o) :
    (nonEmpty o).map Text.cut = nonEmpty o := by
  cases ho : nonEmpty o with
  | none => rfl
  | some s =>
      rw [nonEmpty_eq ho] at h
      exact h

theorem whole_asAppCharacter {r : AppCharacter} (h : schema.Whole .appCharacter r) :
    schema.Whole .appCharacter (asAppCharacter r) := by
  have hserver := map_cut_nonEmpty (congrArg AppCharacter.server h)
  have hclass := map_cut_nonEmpty (congrArg AppCharacter.characterClass h)
  obtain ⟨id, name, server, characterClass, createdAt, updatedAt⟩ := r
  obtain ⟨hid, hname, -, -, hcreated, hupdated⟩ := AppCharacter.mk.inj h
  show AppCharacter.mk _ _ _ _ _ _ = AppCharacter.mk _ _ _ _ _ _
  rw [AppCharacter.mk.injEq]
  exact ⟨hid, hname, hserver, hclass, hcreated, hupdated⟩

theorem plain_defaultSettings (now : ℤ) (db : Db Row) :
    Text.Plain (defaultSettings now db).dailyResetHhmm := by
  rw [defaultSettings]
  generalize Option.getD _ _ = r
  exact Text.plain_cut r.dailyResetHhmm

/-- A restored backup of texts without a U+0000 holds none. -/
theorem wholeRows_restored {db : Db Row} (hwhole : WholeRows db) (now now' : ℤ) :
    WholeRows ((userRows now db).restored (stamp now')) := by
  intro t r hr
  rcases table_cases t with ht | rfl | rfl | ⟨hne, hempty⟩
  · have hne : ∀ t ∈ listTables, t ≠ .appSetting ∧ t ≠ .plannerSettings := by decide
    rw [restored_of_ne (hne t ht).1 (hne t ht).2] at hr
    exact hwhole t r ((table_userRows_perm now db ht).mem_iff.mp hr)
  · obtain ⟨q, hq, rfl⟩ := List.mem_map.mp ((characters_userRows_perm now db).mem_iff.mp hr)
    exact whole_asAppCharacter (hwhole .appCharacter q hq)
  · rcases List.mem_cons.mp hr with rfl | hr
    · have hid : Text.Plain "default" := by decide
      show (⟨Text.cut "default", Text.cut (Text.cut _), _, Text.cut (stamp now')⟩ :
        PlannerSettingsRow) = _
      rw [hid.cut, Text.cut_cut, cut_stamp]
      rfl
    · have hmem := (perServer_userRows_perm now db).mem_iff.mp hr
      exact hwhole .plannerSettings r (List.mem_filter.mp hmem).1
  · by_cases ht : t = .appSetting
    · subst ht
      have hkey : Text.Plain "activeCharacterId" := by decide
      obtain ⟨id, hid, rfl⟩ := Option.map_eq_some_iff.mp (Option.mem_toList.mp hr)
      obtain ⟨q, hq, rfl⟩ := Option.map_eq_some_iff.mp hid
      have hq' := hwhole .appSetting q (List.mem_of_find?_eq_some hq)
      have hvalue : Text.cut q.value = q.value := congrArg AppSetting.value hq'
      show (⟨Text.cut "activeCharacterId", Text.cut q.value⟩ : AppSetting) = _
      rw [hkey.cut, hvalue]
    · rw [restored_of_ne ht hne, hempty] at hr
      cases hr

theorem nonEmpty_nonEmpty (s : Option String) : nonEmpty (nonEmpty s) = nonEmpty s := by
  rw [nonEmpty, nonEmpty, Option.filter_filter]
  simp

/-- A database as `init()` leaves it without a file, with or without foreign
keys. -/
structure FreshlyInitialised (c : Conn) : Prop where
  rows : ∃ installed, c.db = withDefaults (fun _ => []) installed
  saved : c.saved = none

/-- Exporting, restoring on a fresh database and exporting again gives the
same backup. -/
def RoundTrips (c : Conn) : Prop :=
  ∀ fresh, FreshlyInitialised fresh → ∀ now₁ now₂ now₃,
    ∃ raw c' restored raw' c'', exportUserBackup now₁ c = (.ok raw, c') ∧
      importUserBackup (Js.serialise raw) now₂ fresh = (.ok (), restored) ∧
      exportUserBackup now₃ restored = (.ok raw', c'') ∧ SameBackup raw raw'

/-- One character with a template, a session without one, and the settings of
its server. -/
def smallDb : Db Row
  | .appSetting => [⟨"activeCharacterId", "c1"⟩]
  | .appCharacter => [⟨"c1", "Kaisinel", some "Siel", none, "1", "1"⟩]
  | .plannerSettings => [⟨"default", "09:00", 1, "0"⟩, ⟨"server:Siel", "05:00", 3, "1"⟩]
  | .plannerTemplate => [⟨"t1", "Ritual", .charge, 5, some 8, some 3, "2", "2"⟩]
  | .plannerAssignment => [⟨"assign:t1:c1", "c1", "t1", true, none, "2", "2"⟩]
  | .plannerDuration => [⟨"d1", "c1", none, "3", "4", 60⟩]
  | .economyItem => [⟨"i1", "Ore", none, none, "5", "5"⟩]
  | .economyPrice => [⟨"p1", "Siel", "i1", 0, "5", "5", "5"⟩]
  | _ => []

theorem wholeRows_smallDb : WholeRows smallDb := by
  intro t r hr
  cases t with
  | appSetting | appCharacter | plannerTemplate | plannerAssignment | plannerDuration | economyItem
  | economyPrice =>
      obtain rfl := List.mem_singleton.mp hr
      rfl
  | plannerSettings => rcases List.mem_pair.mp hr with rfl | rfl <;> rfl
  | _ => cases hr

theorem restorable_smallDb : Restorable smallDb where
  whole := wholeRows_smallDb
  resolved t := by cases t <;> decide
  distinct t := by cases t <;> decide
  storable t r hr := by
    have htrimmed : Trimmed "Siel" ∧ Trimmed "Ore" := by decide
    cases t with
    | appSetting =>
        obtain rfl := List.mem_singleton.mp hr
        exact fun _ => by decide
    | plannerSettings =>
        rcases List.mem_pair.mp hr with rfl | rfl
        · exact ⟨rfl, .inl rfl⟩
        · exact ⟨rfl, .inr ⟨"Siel", htrimmed.1, rfl⟩⟩
    | plannerTemplate =>
        obtain rfl := List.mem_singleton.mp hr
        exact ⟨⟨5, rfl⟩, fun x hx => ⟨by cases hx; rfl, rfl⟩, fun x hx => ⟨by cases hx; rfl, rfl⟩⟩
    | plannerAssignment =>
        obtain rfl := List.mem_singleton.mp hr
        exact fun x hx => by cases hx
    | plannerDuration =>
        obtain rfl := List.mem_singleton.mp hr
        rfl
    | economyItem =>
        obtain rfl := List.mem_singleton.mp hr
        exact htrimmed.2
    | economyPrice =>
        obtain rfl := List.mem_singleton.mp hr
        exact ⟨htrimmed.1, 0, rfl⟩
    | appCharacter => trivial
    | _ => cases hr
  assigned := by decide
  characters := by decide
  templates := by decide

/-- A backup with a template whose id is empty. -/
def emptyIdJs : Js :=
  .obj [("schemaVersion", .num 4),
    ("characters", .arr [.obj [("id", .str "c1"), ("name", .str "Kaisinel")]]),
    ("planner", .obj [("templates", .arr [.obj [("id", .str ""), ("title", .str "Ritual"),
      ("type", .str "DAILY")]])])]

/-- It is accepted. -/
def withEmptyId : Conn :=
  ((Step.op (.importUserBackup emptyIdJs 1)).run (Host.iso (Zone.fixed 0)) (opened none 0)).2

/-- What it leaves, imported or restored at that time. -/
def emptyIdDb (now : ℤ) : Db Row
  | .appCharacter => [⟨"c1", "Kaisinel", none, none, stamp 1, stamp 1⟩]
  | .plannerSettings => [⟨"default", "09:00", 1, stamp now⟩]
  | .plannerTemplate => [⟨"", "Ritual", .daily, 0, none, none, stamp 1, stamp 1⟩]
  | .plannerAssignment => [⟨"assign:c1:", "c1", "", true, none, stamp now, stamp now⟩]
  | _ => []

theorem withEmptyId_db : withEmptyId.db = emptyIdDb 1 := by
  funext t
  cases t <;> rfl

theorem wholeRows_emptyIdDb (now : ℤ) : WholeRows (emptyIdDb now) := by
  have hplain : Text.Plain "c1" ∧ Text.Plain "Kaisinel" ∧ Text.Plain "default" ∧ Text.Plain "09:00" ∧
    Text.Plain "" ∧ Text.Plain "Ritual" ∧ Text.Plain "assign:c1:" := by decide
  intro t r hr
  cases t with
  | appCharacter | plannerSettings | plannerTemplate | plannerAssignment =>
      obtain rfl := List.mem_singleton.mp hr
      simp [Schema.Whole, schema, read, Text.cut_eq_self_iff.mpr, hplain, plain_stamp]
  | _ => cases hr

theorem backupReady_emptyIdDb : BackupReady (emptyIdDb 1) where
  resolved t := by cases t <;> decide
  distinct t := by cases t <;> decide
  storable t r hr := by
    cases t with
    | appCharacter => trivial
    | plannerSettings =>
        obtain rfl := List.mem_singleton.mp hr
        exact ⟨rfl, .inl rfl⟩
    | plannerTemplate =>
        obtain rfl := List.mem_singleton.mp hr
        exact ⟨⟨0, rfl⟩, fun x hx => (by cases hx), fun x hx => (by cases hx)⟩
    | plannerAssignment =>
        obtain rfl := List.mem_singleton.mp hr
        exact fun x hx => (by cases hx)
    | _ => cases hr
  assigned := by decide

/-- The import of the backup makes the assignment of the empty id anew. -/
theorem not_roundTrips_withEmptyId : ¬ RoundTrips withEmptyId := by
  intro h
  obtain ⟨raw, c', restored, raw', c'', hexport, himport, hexport', hsame⟩ :=
    h (opened none 0) ⟨⟨0, rfl⟩, rfl⟩ 0 2 0
  have hwhole : WholeRows withEmptyId.db := withEmptyId_db ▸ wholeRows_emptyIdDb 1
  rw [exportUserBackup_eq 0 hwhole, withEmptyId_db] at hexport
  cases hexport
  have hrun : (importUserBackup (Js.serialise ((userRows 0 (emptyIdDb 1)).toJs (stamp 0))) 2
      (opened none 0)).2.db = emptyIdDb 2 := by
    funext t
    cases t <;> rfl
  rw [himport] at hrun
  have hrestored : restored.db = emptyIdDb 2 := hrun
  rw [exportUserBackup_eq 0 (hrestored ▸ wholeRows_emptyIdDb 2), hrestored] at hexport'
  cases hexport'
  have hlist := hsame.lists ("planner", "assignments") (by decide)
  rw [(listOf_planner _ _).2.1, (listOf_planner _ _).2.1] at hlist
  have hentry := List.singleton_perm_singleton.mp hlist
  have htime : some (Js.str (stamp 1)) = some (Js.str (stamp 2)) :=
    congrArg (Js.get · "createdAt") hentry
  exact absurd (Js.str.inj (Option.some.inj htime)) (by decide)

/-- A price of an item. -/
def addOre (name : String) (i : ℕ) : Op :=
  .addEconomyPrice ⟨"Siel", name, 1, none⟩ fun j => nthDraw (2 * i + j) 1

/-- Two items whose names are read alike. -/
def twoOres : Conn :=
  ((Step.op (addOre "ore\x00y" 1)).run (Host.iso (Zone.fixed 0))
    ((Step.op (addOre "ore\x00x" 0)).run (Host.iso (Zone.fixed 0)) (opened none 0)).2).2

def twoOresDb : Db Row
  | .plannerSettings => [⟨"default", "09:00", 1, stamp 0⟩]
  | .economyItem => [⟨"u", "ore\x00x", none, none, stamp 1, stamp 1⟩,
      ⟨"uuu", "ore\x00y", none, none, stamp 1, stamp 1⟩]
  | .economyPrice => [⟨"uu", "Siel", "u", 1, stamp 1, stamp 1, stamp 1⟩,
      ⟨"uuuu", "Siel", "uuu", 1, stamp 1, stamp 1, stamp 1⟩]
  | _ => []

theorem twoOres_db : twoOres.db = twoOresDb := by
  funext t
  cases t <;> rfl

theorem backupReady_twoOresDb : BackupReady twoOresDb where
  resolved t := by cases t <;> decide
  distinct t := by cases t <;> decide
  storable t r hr := by
    have htrimmed : Trimmed "Siel" ∧ Trimmed "ore\x00x" ∧ Trimmed "ore\x00y" := by decide
    cases t with
    | plannerSettings =>
        obtain rfl := List.mem_singleton.mp hr
        exact ⟨rfl, .inl rfl⟩
    | economyItem =>
        rcases List.mem_pair.mp hr with rfl | rfl
        · exact htrimmed.2.1
        · exact htrimmed.2.2
    | economyPrice => rcases List.mem_pair.mp hr with rfl | rfl <;> exact ⟨htrimmed.1, 1, rfl⟩
    | _ => cases hr
  assigned := by decide

/-- The items of an export. -/
def exportedItems (c : Conn) : ℕ :=
  (exportUserBackup 0 c).1.toOption.elim 0 fun raw => (listOf raw "economy" "items").length

/-- Both are exported under one name, and the import keeps one of them. -/
theorem not_roundTrips_twoOres : ¬ RoundTrips twoOres := by
  intro h
  obtain ⟨raw, c', restored, raw', c'', hexport, himport, hexport', hsame⟩ :=
    h (opened none 0) ⟨⟨0, rfl⟩, rfl⟩ 0 2 0
  have htwo : exportedItems twoOres = 2 := by decide +kernel
  have hone : (exportUserBackup 0 twoOres).1.toOption.elim 0 (fun raw =>
      exportedItems (importUserBackup (Js.serialise raw) 2 (opened none 0)).2) = 1 := by decide +kernel
  rw [exportedItems, hexport] at htwo
  rw [hexport] at hone
  have hone' : exportedItems (importUserBackup (Js.serialise raw) 2 (opened none 0)).2 = 1 := hone
  rw [himport] at hone'
  rw [exportedItems, show exportUserBackup 0 (Except.ok (), restored).2 = _ from hexport'] at hone'
  have hlength : (listOf raw "economy" "items").length = (listOf raw' "economy" "items").length :=
    (hsame.lists ("economy", "items") (by decide)).length_eq
  have htwo' : (listOf raw "economy" "items").length = 2 := htwo
  rw [htwo', show (listOf raw' "economy" "items").length = 1 from hone'] at hlength
  cases hlength

end Hub
