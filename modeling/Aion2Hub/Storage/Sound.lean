/-
Aion2Hub/Storage/Sound.lean

What the planner's rows keep.

A property of templates and charge uses that every written row has
(`Writes`) is a property of every stored row, together with unique keys and,
where they are enforced, resolved references: each operation on characters,
settings and the planner keeps `schema.Sound`, and so does an import
(`sound_run`).
-/
import Aion2Hub.Storage.Lifecycle
import Aion2Hub.Lib.References

namespace Hub

open Sql Exec

section

variable {P : (t : Table) → Row t → Prop} {x : Option (Db Row)}

/-! ### The transaction of an import -/

/-- The statements between BEGIN and COMMIT keep a sound database sound if
the rows of the backup have the property. -/
theorem sound_insertRow (hC : schema.ClearKeeps P) {oc : OnConflict} {t : Table}
    {o : Option (Row t)} (h : ∀ r, o = some r → P t r) :
    Keeps (Conn.Inv (schema.Sound P) x) (insertRow oc t o) := by
  cases o with
  | some r => exact sound_insert hC (h r rfl)
  | none =>
      show Keeps _ (if oc = .ignore then pure () else Exec.throw "NOT NULL constraint failed")
      split
      · exact Keeps.pure
      · exact Keeps.throw

theorem sound_setSetting (hC : schema.ClearKeeps P) (hP : ∀ r, P .appSetting r) {key : String}
    {value : Option String} : Keeps (Conn.Inv (schema.Sound P) x) (setSetting key value) := by
  cases value with
  | none => exact sound_delete hC
  | some v =>
      exact sound_upsert hC (hP _) (fun r _ => hP _) (fun _ => rfl)
        fun fk hfk => absurd hfk List.not_mem_nil

theorem sound_restore (hC : schema.ClearKeeps P) (hset : ∀ r, P .appSetting r)
    (hassign : ∀ r, P .plannerAssignment r) {b : Backup} {now : String}
    (hrows : ∀ t r, some r ∈ b.rows t → P t r) :
    Keeps (Conn.Inv (schema.Sound P) x) (b.restore now) := by
  have htable : ∀ p : Table × OnConflict,
      Keeps (Conn.Inv (schema.Sound P) x) (b.insertTable p) := fun p =>
    Keeps.forEach fun o ho => sound_insertRow hC fun r hr => hrows p.1 r (hr ▸ ho)
  have hactive : Keeps (Conn.Inv (schema.Sound P) x) b.restoreActive := by
    unfold Backup.restoreActive
    split
    · exact sound_setSetting hC hset
    · exact Keeps.pure
  refine (Keeps.forEach fun t _ => sound_delete hC).bind fun _ => ?_
  refine (htable _).bind fun _ => hactive.bind fun _ =>
    (Keeps.forEach fun p _ => htable p).bind fun _ => keeps_insertSelect fun c _ r _ => ?_
  exact sound_insert hC (hassign r)

theorem sound_importUserBackup (hC : schema.ClearKeeps P) (hset : ∀ r, P .appSetting r)
    (hassign : ∀ r, P .plannerAssignment r) {raw : Js} {now : ℤ}
    (hrows : ∀ version, schemaVersion raw = some version →
      ∀ t r, some r ∈ (parseBackup raw version (stamp now)).rows t → P t r)
    {c : Conn} (hc : Conn.Inv (schema.Sound P) none c) :
    Conn.Inv (schema.Sound P) none (importUserBackup raw now c).2 := by
  rcases (importUserBackup_cases hc.2 : _ ∨ ∃ e, importUserBackup raw now c = (.error e, c)) with
    ⟨version, d, hv, hd, hrun⟩ | ⟨e, hrun⟩
  · have hkeeps : Keeps (Conn.Inv (schema.Sound P) (some c.db))
        ((parseBackup raw version (stamp now)).restore (stamp now)) :=
      sound_restore hC hset hassign (hrows version hv)
    have hkept := hkeeps.apply (s := { c with saved := some c.db }) ⟨hc.1, rfl⟩
    rw [hd] at hkept
    rw [hrun]
    exact ⟨hkept.1, rfl⟩
  · rw [hrun]
    exact hc

end

/-! ### Operations of the planner -/

/-- The row of a new template. -/
def newTemplate (input : TemplateInput) (minutes : Number) (draw : Draw) : PlannerTemplate where
  id := draw.id
  title := input.title
  type := input.type
  estimateMinutes := minutes
  rechargeHours := chargeOnly input.type input.rechargeHours
  maxStacks := chargeOnly input.type input.maxStacks
  createdAt := stamp draw.now
  updatedAt := stamp draw.now

/-- A property of templates and one of charge uses, as a property of all
rows. -/
def PlannerRows (Q : PlannerTemplate → Prop) (U : PlannerChargeUse → Prop) :
    (t : Table) → Row t → Prop
  | .plannerTemplate, r => Q r
  | .plannerChargeUse, r => U r
  | _, _ => True

/-- The operations behind the handlers of the planner and of characters, and
the import; the templates and charge uses they write have the properties. -/
def Writes (host : Host) (Q : PlannerTemplate → Prop) (U : PlannerChargeUse → Prop) : Op → Prop
  | .createPlannerTemplate input draw => ∀ minutes, (estimate input.estimateMinutes).bind = some minutes →
      Q (newTemplate input minutes draw)
  | .updatePlannerTemplate _ input now => ∀ minutes,
      (estimate input.estimateMinutes).bind = some minutes → ∀ r, Q r →
        Q { r with
            title := input.title
            type := input.type
            estimateMinutes := minutes
            rechargeHours := chargeOnly input.type input.rechargeHours
            maxStacks := chargeOnly input.type input.maxStacks
            updatedAt := stamp now }
  | .applyPlannerPreset _ templates draws => ∀ t ∈ templates.filterMap normalizeTemplate,
      ∀ i minutes, (estimate t.estimateMinutes).bind = some minutes → Q (newTemplate t minutes (draws i))
  | .useCharge characterId templateId usedAtIso id now =>
      U ⟨id, characterId, templateId, stamp (resolveDate host usedAtIso now)⟩
  | .importUserBackup raw now => ∀ version, schemaVersion raw = some version →
      (∀ r ∈ (parseBackup raw version (stamp now)).templates, ∀ q, PlannerTemplate.bound r = some q →
        Q q) ∧ ∀ u ∈ (parseBackup raw version (stamp now)).chargeUses, U u
  | .setSetting _ _ | .createCharacter _ _ _ | .updateCharacter _ _ _ | .deleteCharacter _
  | .getPlannerSettings _ | .setPlannerSettingsDefault _ _ | .setPlannerSettingsForServer _ _ _
  | .clearPlannerSettingsForServer _ | .deletePlannerTemplate _ | .setPlannerCompletion _ _ _
  | .undoCharge _ _ | .addPlannerDuration _ _ | .deletePlannerDuration _ _ => True
  | _ => False

section

variable {host : Host} {Q : PlannerTemplate → Prop} {U : PlannerChargeUse → Prop}
  {x : Option (Db Row)}

theorem clearKeeps_plannerRows : schema.ClearKeeps (PlannerRows Q U) := by
  intro t fk hfk clear hclear r hr
  cases t with
  | plannerTemplate => exact absurd hfk List.not_mem_nil
  | plannerChargeUse => rcases List.mem_pair.mp hfk with rfl | rfl <;> cases hclear
  | _ => trivial

/-- A planner program keeps sound rows. -/
abbrev KeepsRows {α : Type} (Q : PlannerTemplate → Prop) (U : PlannerChargeUse → Prop)
    (x : Option (Db Row)) (m : Prog α) : Prop :=
  Keeps (Conn.Inv (schema.Sound (PlannerRows Q U)) x) m

theorem plannerRows_other {t : Table} (ht : t ≠ .plannerTemplate) (ht' : t ≠ .plannerChargeUse)
    (r : Row t) : PlannerRows Q U t r := by
  cases t with
  | plannerTemplate => exact absurd rfl ht
  | plannerChargeUse => exact absurd rfl ht'
  | _ => trivial

theorem rows_delete {t : Table} {p : Row t → Bool} : KeepsRows Q U x (schema.delete t p) :=
  sound_delete clearKeeps_plannerRows

theorem rows_insert {oc : OnConflict} {t : Table} (ht : t ≠ .plannerTemplate)
    (ht' : t ≠ .plannerChargeUse) {r : Row t} : KeepsRows Q U x (schema.insert oc t r) :=
  sound_insert clearKeeps_plannerRows (plannerRows_other ht ht' r)

theorem rows_assign {rows : Db Row → List PlannerAssignment} :
    KeepsRows Q U x (schema.insertSelect .ignore .plannerAssignment rows) :=
  keeps_insertSelect fun _ _ _ _ => rows_insert (by decide) (by decide)

theorem rows_createCharacter {input : CharacterInput} {id : String} {now : ℤ} :
    KeepsRows Q U x (createCharacter input id now) :=
  (rows_insert (by decide) (by decide)).bind fun _ => rows_assign.bind fun _ => Keeps.pure

theorem rows_updateCharacter {id : String} {input : CharacterInput} {now : ℤ} :
    KeepsRows Q U x (updateCharacter id input now) :=
  sound_update (fun _ _ => trivial) (fun _ => rfl) fun _ hfk => absurd hfk List.not_mem_nil

theorem rows_createPlannerTemplate {input : TemplateInput} {draw : Draw}
    (h : ∀ minutes, (estimate input.estimateMinutes).bind = some minutes →
      Q (newTemplate input minutes draw)) : KeepsRows Q U x (createPlannerTemplate input draw) := by
  unfold createPlannerTemplate notNull
  rcases hm : (estimate input.estimateMinutes).bind with _ | minutes
  · exact Keeps.throw
  · have hinsert : KeepsRows Q U x
        (schema.insert .abort .plannerTemplate (newTemplate input minutes draw)) :=
      sound_insert clearKeeps_plannerRows (h minutes hm)
    exact hinsert.bind fun _ => rows_assign.bind fun _ => Keeps.pure

theorem rows_updatePlannerTemplate {id : String} {input : TemplateInput} {now : ℤ}
    (h : Writes host Q U (.updatePlannerTemplate id input now)) :
    KeepsRows Q U x (updatePlannerTemplate id input now) := by
  unfold updatePlannerTemplate
  rcases hm : (estimate input.estimateMinutes).bind with _ | minutes
  · refine Keeps.gets.bind fun row => ?_
    split
    · exact Keeps.throw
    · exact Keeps.pure
  · exact sound_update (fun r hr => h minutes hm r hr) (fun _ => rfl)
      fun _ hfk => absurd hfk List.not_mem_nil

theorem rows_createMissing {draws : ℕ → Draw} {ts : List TemplateInput}
    {keys : List String} {created skipped : ℕ}
    (h : ∀ t ∈ ts, ∀ i minutes, (estimate t.estimateMinutes).bind = some minutes →
      Q (newTemplate t minutes (draws i))) :
    KeepsRows Q U x (createMissing host draws ts keys created skipped) := by
  induction ts generalizing keys created skipped with
  | nil => exact Keeps.pure
  | cons t ts ih =>
      have hrest := fun t' ht' => h t' (List.mem_cons_of_mem t ht')
      unfold createMissing
      split
      · exact ih hrest
      · exact (rows_createPlannerTemplate (h t List.mem_cons_self created)).bind fun _ => ih hrest

theorem rows_applyPlannerPreset {mode : PresetMode} {templates : List Js} {draws : ℕ → Draw}
    (h : Writes host Q U (.applyPlannerPreset mode templates draws)) :
    KeepsRows Q U x (applyPlannerPreset host mode templates draws) := by
  have hclear : KeepsRows Q U x (clearForPreset mode) := by
    unfold clearForPreset
    split
    · exact rows_delete
    · exact Keeps.pure
  exact hclear.bind fun _ => Keeps.gets.bind fun _ => rows_createMissing h

theorem rows_writePlannerSettings {id : String} {input : SettingsInput} {now : ℤ} :
    KeepsRows Q U x (writePlannerSettings id input now) :=
  Keeps.ofOption.bind fun _ => sound_upsert clearKeeps_plannerRows trivial (fun _ _ => trivial)
    (fun _ => rfl) fun _ hfk => absurd hfk List.not_mem_nil

theorem rows_setPlannerSettingsForServer {server : String} {input : SettingsInput} {now : ℤ} :
    KeepsRows Q U x (setPlannerSettingsForServer server input now) := by
  unfold setPlannerSettingsForServer
  split
  · exact Keeps.pure
  · exact rows_writePlannerSettings

theorem rows_clearPlannerSettingsForServer {server : String} :
    KeepsRows Q U x (clearPlannerSettingsForServer server) := by
  unfold clearPlannerSettingsForServer
  split
  · exact Keeps.pure
  · exact rows_delete

theorem rows_setPlannerCompletion {input : CompletionInput} {id : String} {now : ℤ} :
    KeepsRows Q U x (setPlannerCompletion host input id now) := by
  unfold setPlannerCompletion
  split
  · exact rows_insert (by decide) (by decide)
  · exact rows_delete

theorem rows_getPlannerSettings {now : ℤ} : KeepsRows Q U x (getPlannerSettings now) := by
  refine (Keeps.gets.bind fun _ => Keeps.pure).bind fun row => ?_
  cases row with
  | none => exact (rows_insert (by decide) (by decide)).bind fun _ => Keeps.pure
  | some settings => exact Keeps.pure

theorem rows_undoCharge {characterId templateId : String} :
    KeepsRows Q U x (undoCharge characterId templateId) := by
  refine Keeps.gets.bind fun rows => ?_
  split
  · exact Keeps.pure
  · exact rows_delete.bind fun _ => Keeps.pure

/-- The rows of a backup have the property if its templates and charge uses
have. -/
theorem plannerRows_backup {b : Backup}
    (ht : ∀ r ∈ b.templates, ∀ q, PlannerTemplate.bound r = some q → Q q)
    (hu : ∀ u ∈ b.chargeUses, U u) {t : Table} {r : Row t} (hr : some r ∈ b.rows t) :
    PlannerRows Q U t r := by
  cases t with
  | plannerTemplate =>
      obtain ⟨r₀, hr₀, hbound⟩ := List.mem_map.mp hr
      exact ht r₀ hr₀ r hbound
  | plannerChargeUse =>
      obtain ⟨r₀, hr₀, hbound⟩ := List.mem_map.mp hr
      cases hbound
      exact hu r hr₀
  | _ => trivial

/-- **Planner operations keep sound rows**, with foreign keys enforced or
not. -/
theorem sound_run {op : Op} (h : Writes host Q U op) {c : Conn}
    (hc : Conn.Inv (schema.Sound (PlannerRows Q U)) none c) :
    Conn.Inv (schema.Sound (PlannerRows Q U)) none (op.run host c).2 := by
  have discarded : ∀ {α : Type} {m : Prog α}, KeepsRows Q U none m →
      Conn.Inv (schema.Sound (PlannerRows Q U)) none (m.discard c).2 := fun hm =>
    (Keeps.discard hm).apply hc
  unfold Op.run
  cases op with
  | setSetting key value =>
      have hm : KeepsRows Q U none (setSetting key value) :=
        sound_setSetting clearKeeps_plannerRows fun _ => trivial
      exact hm.apply hc
  | createCharacter => exact discarded rows_createCharacter
  | updateCharacter => exact rows_updateCharacter.apply hc
  | deleteCharacter => exact rows_delete.apply hc
  | getPlannerSettings => exact discarded rows_getPlannerSettings
  | setPlannerSettingsDefault => exact rows_writePlannerSettings.apply hc
  | setPlannerSettingsForServer => exact rows_setPlannerSettingsForServer.apply hc
  | clearPlannerSettingsForServer => exact rows_clearPlannerSettingsForServer.apply hc
  | createPlannerTemplate => exact discarded (rows_createPlannerTemplate h)
  | updatePlannerTemplate => exact (rows_updatePlannerTemplate h).apply hc
  | deletePlannerTemplate => exact rows_delete.apply hc
  | applyPlannerPreset => exact discarded (rows_applyPlannerPreset h)
  | setPlannerCompletion => exact rows_setPlannerCompletion.apply hc
  | useCharge characterId templateId usedAtIso id now =>
      have hinsert : KeepsRows Q U none (schema.insert .abort .plannerChargeUse
          ⟨id, characterId, templateId, stamp (resolveDate host usedAtIso now)⟩) :=
        sound_insert clearKeeps_plannerRows h
      exact discarded (hinsert.bind fun _ => Keeps.pure)
  | undoCharge => exact discarded rows_undoCharge
  | addPlannerDuration =>
      refine discarded (Keeps.ofOption.bind fun _ => Keeps.ofOption.bind fun _ =>
        Keeps.ofOption.bind fun _ => ?_)
      exact (rows_insert (by decide) (by decide)).bind fun _ => Keeps.pure
  | deletePlannerDuration => exact rows_delete.apply hc
  | importUserBackup raw now =>
      refine sound_importUserBackup clearKeeps_plannerRows (fun _ => trivial) (fun _ => trivial) ?_ hc
      exact fun version hv t r hr => plannerRows_backup (h version hv).1 (h version hv).2 hr
  | _ => exact absurd h id

end

end Hub
