/-
Aion2Hub/Planner/Assignments.lean

Every character has every template.

`createCharacter`, `createPlannerTemplate` and the import all add the missing
assignments with INSERT OR IGNORE, under ids put together from the ids of the
two.  A fresh id makes fresh assignment ids, so the first two leave no pair
out; the import takes ids as they come, and leaves out a pair whose assignment
id is taken (`everyPair_import_iff`).  In every run whose imports have no such
clash, each pair has exactly one assignment (`assignedOnce_of_safe_run`).
-/
import Aion2Hub.Planner.Preset
import Aion2Hub.Planner.Overview
import Aion2Hub.Storage.Footprint

namespace Hub

open Sql Exec

/-! ### Pairs -/

/-- The pair that an assignment is for. -/
def pairOf (a : PlannerAssignment) : List String := [a.characterId, a.templateId]

/-- Each pair has an assignment. -/
def EveryPair (db : Db Row) : Prop :=
  ∀ ch ∈ db .appCharacter, ∀ t ∈ db .plannerTemplate, ∃ a ∈ db .plannerAssignment,
    a.characterId = ch.id ∧ a.templateId = t.id

theorem conflicts_assignment (a b : PlannerAssignment) :
    schema.conflicts .plannerAssignment a b = true ↔
      schema.key .plannerAssignment a = schema.key .plannerAssignment b ∨ pairOf a = pairOf b := by
  rw [conflicts_iff]
  refine or_congr_right ⟨?_, fun h => ⟨pairOf, List.mem_singleton.mpr rfl, h⟩⟩
  rintro ⟨u, hu, h⟩
  obtain rfl := List.mem_singleton.mp hu
  exact h

theorem pairOf_eq_iff {a b : PlannerAssignment} :
    pairOf a = pairOf b ↔ a.characterId = b.characterId ∧ a.templateId = b.templateId := by
  simp [pairOf]

/-- No new assignment that is needed has the id of one that is stored, or of
another new one that is needed. -/
def NoClash (stored new : List PlannerAssignment) : Prop :=
  @Schema.NoClash Table Row .plannerAssignment _ pairOf schema stored new

/-! ### Deleting -/

/-- The assignments of what is left are left. -/
theorem everyPair_deleteDb {db : Db Row} (hd : schema.Distinct db) (h : EveryPair db) {t : Table}
    (ht : t ≠ .plannerAssignment) {p : Row t → Bool} :
    EveryPair (schema.deleteDb true db t p) := by
  have hgone : schema.keysWhere db t p .plannerAssignment = [] := Function.update_of_ne ht.symm _ _
  intro ch hch tpl htpl
  obtain ⟨ch₀, hch₀, hstay, hrel⟩ := mem_cascade_iff.mp hch
  obtain ⟨tpl₀, htpl₀, hstay', hrel'⟩ := mem_cascade_iff.mp htpl
  have hid : ch.id = ch₀.id := by
    rw [← hrel]
    exact key_released (S := schema) (t := .appCharacter) ch₀
  have hid' : tpl.id = tpl₀.id := by
    rw [← hrel']
    exact key_released (S := schema) (t := .plannerTemplate) tpl₀
  obtain ⟨a, ha, hac, hat⟩ := h ch₀ hch₀ tpl₀ htpl₀
  refine ⟨a, mem_cascade_of_parents hd ha ?_ ?_, hac.trans hid.symm, hat.trans hid'.symm⟩
  · rw [hgone]
    exact List.not_mem_nil
  · intro fk hfk k hk
    rcases List.mem_pair.mp hfk with rfl | rfl
    · obtain rfl := Option.some.inj hk
      rw [hac]
      exact hstay
    · obtain rfl := Option.some.inj hk
      rw [hat]
      exact hstay'

/-! ### Creating -/

/-- A value that `randomUUID` can draw: it has no colon, and it is part of no
id yet. -/
structure FreshUuid (db : Db Row) (u : String) : Prop where
  noColon : ':' ∉ u.toList
  character : ∀ r ∈ db .appCharacter, r.id ≠ u
  template : ∀ r ∈ db .plannerTemplate, r.id ≠ u
  assignment : ∀ a ∈ db .plannerAssignment, ∀ rest, a.id ≠ "assign:" ++ u ++ ":" ++ rest

theorem assignId_left {u v a b : String} (hu : ':' ∉ u.toList) (hv : ':' ∉ v.toList)
    (h : "assign:" ++ u ++ ":" ++ a = "assign:" ++ v ++ ":" ++ b) : u = v := by
  have hlist := congrArg String.toList h
  simp only [String.toList_append, List.append_assoc] at hlist
  have hrest : u.toList ++ ':' :: a.toList = v.toList ++ ':' :: b.toList :=
    List.append_cancel_left hlist
  exact String.toList_inj.mp (Text.eq_of_append_cons hu hv hrest).1

theorem assignId_right {u a b : String}
    (h : "assign:" ++ u ++ ":" ++ a = "assign:" ++ u ++ ":" ++ b) : a = b := by
  have hlist := congrArg String.toList h
  simp only [String.toList_append, List.append_assoc] at hlist
  exact String.toList_inj.mp
    (List.append_cancel_left (List.append_cancel_left (List.append_cancel_left hlist)))

/-- Assignments that one fresh id is part of do not clash. -/
theorem noClash_of_fresh {db : Db Row} {u : String} (other : PlannerAssignment → String)
    (h : FreshUuid db u) {new : List PlannerAssignment}
    (hid : ∀ a ∈ new, a.id = "assign:" ++ u ++ ":" ++ other a)
    (hpair : ∀ a ∈ new, ∀ b ∈ new, other a = other b → pairOf a = pairOf b) :
    NoClash (db .plannerAssignment) new := by
  intro r hr
  refine .inr ⟨fun q hq heq => ?_, fun q hq heq => .inl ?_⟩
  · have hq' : q.id = r.id := heq
    exact h.assignment q hq (other r) (hq'.trans (hid r hr))
  · have hq' : q.id = r.id := heq
    rw [hid q hq, hid r hr] at hq'
    exact hpair q hq r hr (assignId_right hq')

/-- The assignments of a new character to the templates. -/
def characterAssignments (id : String) (now : ℤ) (db : Db Row) : List PlannerAssignment :=
  (db .plannerTemplate).map fun t =>
    ⟨"assign:" ++ id ++ ":" ++ t.id, id, t.id, true, none, stamp now, stamp now⟩

/-- The rows after the character has been created. -/
def withNewCharacter (input : CharacterInput) (id : String) (now : ℤ) (db : Db Row) : Db Row :=
  (db.set .appCharacter (db .appCharacter ++
    [⟨id, input.name, input.server, input.characterClass, stamp now, stamp now⟩])).set
    .plannerAssignment
      (schema.absorb .plannerAssignment (db .plannerAssignment) (characterAssignments id now db))

theorem createCharacter_eq {input : CharacterInput} {id : String} {now : ℤ} {c : Conn}
    (hid : ∀ r ∈ c.db .appCharacter, r.id ≠ id) : createCharacter input id now c =
      (.ok id, { c with db := withNewCharacter input id now c.db }) := by
  let row : AppCharacter := ⟨id, input.name, input.server, input.characterClass, stamp now, stamp now⟩
  let c₁ : Conn := { c with db := c.db.set .appCharacter (c.db .appCharacter ++ [row]) }
  have hinsert : schema.insert .abort .appCharacter row c = (.ok (), c₁) :=
    insert_fits_key rfl hid fun _ fk hfk => absurd hfk List.not_mem_nil
  have hassign : schema.insertSelect .ignore .plannerAssignment (characterAssignments id now) c₁ =
      (.ok (), { c with db := withNewCharacter input id now c.db }) := by
    refine insertSelect_ignore fun _ r hr => ?_
    obtain ⟨q, hq, rfl⟩ := List.mem_map.mp hr
    intro fk hfk k hk
    rcases List.mem_pair.mp hfk with rfl | rfl
    · cases hk
      exact ⟨row, List.mem_append_right _ List.mem_cons_self, rfl⟩
    · cases hk
      exact ⟨q, hq, rfl⟩
  exact (bind_of_ok hinsert).trans (bind_of_ok hassign)

theorem everyPair_withNewCharacter {input : CharacterInput} {id : String} {now : ℤ} {db : Db Row}
    (h : EveryPair db) (hfresh : FreshUuid db id) :
    EveryPair (withNewCharacter input id now db) := by
  have hnoClash : NoClash (db .plannerAssignment)
      (characterAssignments id now db) := by
    refine noClash_of_fresh (·.templateId) hfresh (fun a ha => ?_) fun a ha b hb heq => ?_
    · obtain ⟨t, -, rfl⟩ := List.mem_map.mp ha
      rfl
    · obtain ⟨t, -, rfl⟩ := List.mem_map.mp ha
      obtain ⟨t', -, rfl⟩ := List.mem_map.mp hb
      exact pairOf_eq_iff.mpr ⟨rfl, heq⟩
  intro ch hch t ht
  rcases List.mem_append.mp hch with hold | hnew
  · obtain ⟨a, ha, hpair⟩ := h ch hold t ht
    exact ⟨a, subset_absorb ha, hpair⟩
  · obtain rfl := List.mem_singleton.mp hnew
    obtain ⟨a, ha, hpair⟩ := covered_absorb (S := schema) conflicts_assignment hnoClash
      (List.mem_map_of_mem ht)
    exact ⟨a, ha, pairOf_eq_iff.mp hpair⟩

/-- A new template is assigned to every character. -/
theorem assigned_withTemplate {input : TemplateInput} {minutes : Number} {draw : Draw} {db : Db Row}
    (hfresh : FreshUuid db draw.id) {ch : AppCharacter} (hch : ch ∈ db .appCharacter) :
    ∃ a ∈ withTemplate input minutes draw db .plannerAssignment,
      a.characterId = ch.id ∧ a.templateId = draw.id := by
  have hnoClash : NoClash (db .plannerAssignment)
      (templateAssignments draw db) := by
    refine noClash_of_fresh (·.characterId) hfresh (fun a ha => ?_) fun a ha b hb heq => ?_
    · obtain ⟨ch, -, rfl⟩ := List.mem_map.mp ha
      rfl
    · obtain ⟨ch, -, rfl⟩ := List.mem_map.mp ha
      obtain ⟨ch', -, rfl⟩ := List.mem_map.mp hb
      exact pairOf_eq_iff.mpr ⟨heq, rfl⟩
  obtain ⟨a, ha, hpair⟩ := covered_absorb (S := schema) conflicts_assignment hnoClash
    (List.mem_map_of_mem hch)
  exact ⟨a, ha, pairOf_eq_iff.mp hpair⟩

theorem everyPair_withTemplate {input : TemplateInput} {minutes : Number} {draw : Draw} {db : Db Row}
    (h : EveryPair db) (hfresh : FreshUuid db draw.id) :
    EveryPair (withTemplate input minutes draw db) := by
  intro ch hch t ht
  rw [withTemplate_templates] at ht
  rcases List.mem_append.mp ht with hold | hnew
  · obtain ⟨a, ha, hpair⟩ := h ch hch t hold
    exact ⟨a, subset_absorb ha, hpair⟩
  · obtain rfl := List.mem_singleton.mp hnew
    exact assigned_withTemplate hfresh hch

/-- Another draw is still fresh. -/
theorem FreshUuid.withTemplate {input : TemplateInput} {minutes : Number} {draw : Draw} {db : Db Row}
    {u : String} (h : FreshUuid db u) (hdraw : ':' ∉ draw.id.toList) (hne : draw.id ≠ u) :
    FreshUuid (withTemplate input minutes draw db) u where
  noColon := h.noColon
  character := h.character
  template := fun r hr => by
    rw [withTemplate_templates] at hr
    rcases List.mem_append.mp hr with hold | hnew
    · exact h.template r hold
    · obtain rfl := List.mem_singleton.mp hnew
      exact hne
  assignment := fun a ha rest heq => by
    have hu : ∀ a b : PlannerAssignment, pairOf a = pairOf b →
        schema.conflicts .plannerAssignment a b = true := fun a b hab =>
      (conflicts_assignment a b).mpr (.inr hab)
    rcases mem_absorb (S := schema) hu ha with hold | ⟨hnew, -⟩
    · exact h.assignment a hold rest heq
    · obtain ⟨ch, -, rfl⟩ := List.mem_map.mp hnew
      exact hne (assignId_left hdraw h.noColon heq)

/-- What is deleted leaves fresh values fresh. -/
theorem FreshUuid.deleteDb {db : Db Row} {u : String} (h : FreshUuid db u) {enforced : Bool}
    {t : Table} {p : Row t → Bool} : FreshUuid (schema.deleteDb enforced db t p) u := by
  have hkeys : ∀ {t' : Table} {q : Row t'}, q ∈ schema.deleteDb enforced db t p t' →
      ∃ r ∈ db t', schema.key t' r = schema.key t' q := by
    intro t' q hq
    cases enforced with
    | true =>
        obtain ⟨r, hr, -, rfl⟩ := mem_cascade_iff.mp hq
        exact ⟨r, hr, (key_released r).symm⟩
    | false =>
        rw [Schema.deleteDb, if_neg (by simp)] at hq
        by_cases ht : t' = t
        · subst ht
          rw [Db.set_self] at hq
          exact ⟨q, (List.mem_filter.mp hq).1, rfl⟩
        · rw [Db.set_of_ne _ ht] at hq
          exact ⟨q, hq, rfl⟩
  refine ⟨h.noColon, fun r hr heq => ?_, fun r hr heq => ?_, fun a ha rest heq => ?_⟩
  · obtain ⟨r₀, hr₀, hkey⟩ := hkeys hr
    exact h.character r₀ hr₀ (Eq.trans hkey heq)
  · obtain ⟨r₀, hr₀, hkey⟩ := hkeys hr
    exact h.template r₀ hr₀ (Eq.trans hkey heq)
  · obtain ⟨a₀, ha₀, hkey⟩ := hkeys ha
    exact h.assignment a₀ ha₀ rest (Eq.trans hkey heq)

/-- Creating a template keeps the pairs, also when it fails. -/
theorem everyPair_createPlannerTemplate {input : TemplateInput} {draw : Draw} {c : Conn}
    (h : EveryPair c.db) (hfresh : FreshUuid c.db draw.id) :
    EveryPair (createPlannerTemplate input draw c).2.db := by
  cases hm : (estimate input.estimateMinutes).bind with
  | none =>
      rw [createPlannerTemplate_nan hm]
      exact h
  | some minutes =>
      rw [createPlannerTemplate_eq hm hfresh.template]
      exact everyPair_withTemplate h hfresh

theorem everyPair_createMissing {host : Host} {draws : ℕ → Draw} {ts : List TemplateInput}
    {keys : List String} {created skipped : ℕ} {c : Conn}
    (hinj : ∀ i j, (draws i).id = (draws j).id → i = j)
    (hfresh : ∀ i, created ≤ i → FreshUuid c.db (draws i).id) (h : EveryPair c.db) :
    EveryPair (createMissing host draws ts keys created skipped c).2.db := by
  induction ts generalizing keys created skipped c with
  | nil => exact h
  | cons t ts ih =>
      by_cases hkey : makeKey host t.type t.title ∈ keys
      · rw [createMissing, if_pos hkey]
        exact ih hfresh h
      · rw [createMissing, if_neg hkey]
        have hnow := hfresh created le_rfl
        cases hm : (estimate t.estimateMinutes).bind with
        | none =>
            rw [bind_of_error (createPlannerTemplate_nan hm)]
            exact h
        | some minutes =>
            rw [bind_of_ok (createPlannerTemplate_eq hm hnow.template)]
            refine ih (fun i hi => ?_) (everyPair_withTemplate h hnow)
            refine (hfresh i (by omega)).withTemplate hnow.noColon fun heq => ?_
            have := hinj _ _ heq
            omega

theorem everyPair_applyPlannerPreset {host : Host} {mode : PresetMode} {templates : List Js}
    {draws : ℕ → Draw} {c : Conn} (hon : c.foreignKeys = true) (hd : schema.Distinct c.db)
    (hinj : ∀ i j, (draws i).id = (draws j).id → i = j) (hfresh : ∀ i, FreshUuid c.db (draws i).id)
    (h : EveryPair c.db) : EveryPair (applyPlannerPreset host mode templates draws c).2.db := by
  obtain ⟨db, enforced, saved⟩ := c
  obtain rfl : enforced = true := hon
  cases mode with
  | merge => exact everyPair_createMissing hinj (fun i _ => hfresh i) h
  | replace =>
      let c₁ : Conn := ⟨schema.deleteDb true db .plannerTemplate fun _ => true, true, saved⟩
      have hfresh₁ : ∀ i, 0 ≤ i → FreshUuid c₁.db (draws i).id := fun i _ => by
        have hdb : FreshUuid db (draws i).id := hfresh i
        show FreshUuid (schema.deleteDb true db .plannerTemplate fun _ => true) (draws i).id
        exact hdb.deleteDb
      have h₁ : EveryPair c₁.db := everyPair_deleteDb hd h (by decide)
      exact everyPair_createMissing hinj hfresh₁ h₁

/-! ### Importing -/

/-- The tables that decide about assignments. -/
def coreTables : List Table := [.appCharacter, .plannerTemplate, .plannerAssignment]

theorem closed_core : schema.Closed (· ∈ coreTables) := by
  intro t ht fk hfk
  rcases List.mem_cons.mp ht with rfl | ht
  · exact absurd hfk List.not_mem_nil
  · rcases List.mem_pair.mp ht with rfl | rfl
    · exact absurd hfk List.not_mem_nil
    · rcases List.mem_pair.mp hfk with rfl | rfl <;> decide

/-- The assignments of every character to every template, by their ids. -/
def pairAssignments (now : String) (characterIds templateIds : List String) :
    List PlannerAssignment :=
  characterIds.flatMap fun ch => templateIds.map fun t =>
    ⟨"assign:" ++ ch ++ ":" ++ t, ch, t, true, none, now, now⟩

theorem autoAssignments_eq (now : String) (db : Db Row) : autoAssignments now db =
    pairAssignments now ((db .appCharacter).map (·.id)) ((db .plannerTemplate).map (·.id)) := by
  rw [pairAssignments, List.flatMap_map, autoAssignments]
  simp only [List.map_map]
  rfl

/-- The assignments that the backup brings along, and those that the import
adds, do not clash. -/
def ImportCovers (now : String) (b : Backup) : Prop :=
  NoClash (schema.absorb .plannerAssignment [] b.assignments)
    (pairAssignments now (b.characters.map (·.id)) ((b.rows .plannerTemplate).reduceOption.map (·.id)))

/-- What the import leaves of the core. -/
theorem restore_core {b : Backup} {now : String} {c d : Conn} {P : (t : Table) → Row t → Prop}
    (hC : schema.ClearKeeps P) (hinv : Conn.Inv (schema.Sound P) (some c.db) c)
    (hon : c.foreignKeys = true) (h : b.restore now c = (.ok (), d)) :
    d.db .appCharacter = b.characters ∧
      d.db .plannerTemplate = (b.rows .plannerTemplate).reduceOption ∧
      d.db .plannerAssignment = schema.absorb .plannerAssignment
        (schema.absorb .plannerAssignment [] b.assignments) (autoAssignments now d.db) := by
  obtain ⟨c₁, hdeleted, hempty, -⟩ := @forEach_delete_mem Table Row schema _ clearedTables c
  have hclear : clearUserTables c = (.ok (), c₁) := hdeleted
  have hsound : Conn.Inv (schema.Sound P) (some c.db) c₁ := by
    have hkeeps : Keeps (Conn.Inv (schema.Sound P) (some c.db)) clearUserTables :=
      Keeps.forEach fun t _ => sound_delete hC
    have hkept := hkeeps.apply hinv
    rwa [hclear] at hkept
  have hon₁ : c₁.foreignKeys = true := by
    have hquiet : Quiet clearUserTables := Quiet.forEach fun _ => quiet_delete
    have hkept := (hquiet.keeps true (some c.db)).apply ⟨hon, hinv.2⟩
    rw [hclear] at hkept
    exact hkept.1
  -- an assignment would refer to a character, and there is none
  have hcharacters : c₁.db .appCharacter = [] := hempty _ (by decide)
  have htemplates : c₁.db .plannerTemplate = [] := hempty _ (by decide)
  have hassignments : c₁.db .plannerAssignment = [] := by
    refine List.eq_nil_iff_forall_not_mem.mpr fun a ha => ?_
    obtain ⟨q, hq, -⟩ := hsound.1.resolved hon₁ .plannerAssignment a ha
      ⟨.appCharacter, fun r => some r.characterId, .cascade⟩ List.mem_cons_self a.characterId rfl
    rw [hcharacters] at hq
    exact List.not_mem_nil hq
  have hinsert : b.insertAll now c₁ = (.ok (), d) := by
    rw [Backup.restore, bind_of_ok hclear] at h
    exact h
  obtain ⟨_, s₁, h₁, hrest⟩ := bind_eq_ok hinsert
  obtain ⟨_, s₂, h₂, hrest⟩ := bind_eq_ok hrest
  obtain ⟨_, s₃, h₃, hselect⟩ := bind_eq_ok hrest
  have hstart : ∀ t ∈ coreTables, s₂.db t = c₁.db t := by
    intro t ht
    have hne : t ≠ .appSetting := by
      rintro rfl
      exact absurd ht (by decide)
    rw [(restoreActive_frame h₂).1 t hne]
    exact (leaves_insertTable closed_core (by decide)).of_ok h₁ ht
  have hcore := fun (t : Table) (ht : t ∈ coreTables) =>
    forEach_insertTable_grown closed_core ht (by decide) (by decide) h₃
  have hch : s₃.db .appCharacter = b.characters := by
    rw [(hcore .appCharacter (by decide)).1 .abort (by decide), hstart _ (by decide), hcharacters]
    show [] ++ (b.characters.map some).reduceOption = _
    rw [List.nil_append, reduceOption_map_some]
  have htpl : s₃.db .plannerTemplate = (b.rows .plannerTemplate).reduceOption := by
    rw [(hcore .plannerTemplate (by decide)).1 .abort (by decide), hstart _ (by decide), htemplates]
    exact List.nil_append _
  have hassign : s₃.db .plannerAssignment =
      schema.absorb .plannerAssignment [] b.assignments := by
    rw [(hcore .plannerAssignment (by decide)).1 .ignore (by decide), hstart _ (by decide),
      hassignments]
    show schema.absorb .plannerAssignment [] (b.assignments.map some).reduceOption = _
    rw [reduceOption_map_some]
  let after : Db Row := s₃.db.set .plannerAssignment
    (schema.absorb .plannerAssignment (s₃.db .plannerAssignment) (autoAssignments now s₃.db))
  have hlast : schema.insertSelect .ignore .plannerAssignment (autoAssignments now) s₃ =
      (.ok (), { s₃ with db := after }) := by
    refine insertSelect_ignore fun _ r hr => ?_
    obtain ⟨q, hq, hr⟩ := List.mem_flatMap.mp hr
    obtain ⟨t, ht, rfl⟩ := List.mem_map.mp hr
    intro fk hfk k hk
    rcases List.mem_pair.mp hfk with rfl | rfl
    · cases hk
      exact ⟨q, hq, rfl⟩
    · cases hk
      exact ⟨t, ht, rfl⟩
  cases hselect.symm.trans hlast
  refine ⟨hch, htpl, ?_⟩
  show after .plannerAssignment = schema.absorb .plannerAssignment _ (autoAssignments now s₃.db)
  rw [← hassign]
  exact Db.set_self _ _ _

/-- **An accepted import assigns every pair exactly when nothing clashes.** -/
theorem everyPair_import_iff {raw : Js} {now : ℤ} {c d : Conn} {P : (t : Table) → Row t → Prop}
    (hC : schema.ClearKeeps P) (hinv : Conn.Inv (schema.Sound P) none c)
    (hon : c.foreignKeys = true) (h : importUserBackup raw now c = (.ok (), d)) :
    EveryPair d.db ↔ ∀ version, schemaVersion raw = some version →
      ImportCovers (stamp now) (parseBackup raw version (stamp now)) := by
  rcases importUserBackup_cases hinv.2 with ⟨version, d', hv, hrestore, hrun⟩ | ⟨e, hrun⟩
  · cases h.symm.trans hrun
    obtain ⟨hch, htpl, hassign⟩ := restore_core hC
      (c := { c with saved := some c.db }) ⟨hinv.1, rfl⟩ hon hrestore
    let stored := schema.absorb .plannerAssignment [] (parseBackup raw version (stamp now)).assignments
    have hauto : autoAssignments (stamp now) d'.db = pairAssignments (stamp now)
        ((parseBackup raw version (stamp now)).characters.map (·.id))
        (((parseBackup raw version (stamp now)).rows .plannerTemplate).reduceOption.map (·.id)) := by
      rw [autoAssignments_eq, hch, htpl]
    have hpairs : EveryPair d'.db ↔ ∀ r ∈ autoAssignments (stamp now) d'.db,
        Covered pairOf (d'.db .plannerAssignment) r := by
      constructor
      · intro hevery r hr
        obtain ⟨ch, hch', hr⟩ := List.mem_flatMap.mp hr
        obtain ⟨t, ht, rfl⟩ := List.mem_map.mp hr
        obtain ⟨a, ha, hpair⟩ := hevery ch hch' t ht
        exact ⟨a, ha, pairOf_eq_iff.mpr hpair⟩
      · intro hcovered ch hch' t ht
        obtain ⟨a, ha, hpair⟩ := hcovered _ (List.mem_flatMap.mpr ⟨ch, hch', List.mem_map_of_mem ht⟩)
        exact ⟨a, ha, pairOf_eq_iff.mp hpair⟩
    have hunique : ∀ a ∈ autoAssignments (stamp now) d'.db, ∀ b ∈ autoAssignments (stamp now) d'.db,
        pairOf a = pairOf b → a = b := by
      intro a ha b hb heq
      obtain ⟨ch, -, ha⟩ := List.mem_flatMap.mp ha
      obtain ⟨t, -, rfl⟩ := List.mem_map.mp ha
      obtain ⟨ch', -, hb⟩ := List.mem_flatMap.mp hb
      obtain ⟨t', -, rfl⟩ := List.mem_map.mp hb
      obtain ⟨hcid, htid⟩ := pairOf_eq_iff.mp heq
      have hcid : ch.id = ch'.id := hcid
      have htid : t.id = t'.id := htid
      rw [hcid, htid]
    have hdistinct : schema.DistinctRows .plannerAssignment stored :=
      distinctRows_absorb List.Pairwise.nil
    have hcovers : EveryPair d'.db ↔ ImportCovers (stamp now) (parseBackup raw version (stamp now)) := by
      rw [hpairs, hassign, ImportCovers, ← hauto]
      constructor
      · exact fun hcovered => noClash_of_covered (S := schema) conflicts_assignment hdistinct hunique
          hcovered
      · exact fun hnoClash r hr => covered_absorb (S := schema) conflicts_assignment hnoClash hr
    refine hcovers.trans ⟨fun hc version' hv' => ?_, fun hc => hc version hv⟩
    cases hv.symm.trans hv'
    exact hc
  · cases h.symm.trans hrun

/-! ### Runs -/

/-- A new database while foreign keys are enforced. -/
def enforcedStart (installed : ℤ) : Conn := ⟨withDefaults (fun _ => []) installed, true, none⟩

/-- A step that creates or deletes characters or templates, with fresh ids, or
imports a backup that satisfies `Import`. -/
def AssignmentStep (Import : Js → ℤ → Prop) (c : Conn) : Step → Prop
  | .op (.createCharacter _ id _) => FreshUuid c.db id
  | .op (.createPlannerTemplate _ draw) => FreshUuid c.db draw.id
  | .op (.applyPlannerPreset _ _ draws) =>
      (∀ i j, (draws i).id = (draws j).id → i = j) ∧ ∀ i, FreshUuid c.db (draws i).id
  | .op (.importUserBackup raw now) => Import raw now
  | .op (.deleteCharacter _) | .op (.deletePlannerTemplate _) => True
  | _ => False

/-- The assignments of the import do not clash. -/
def ImportAssigns (raw : Js) (now : ℤ) : Prop := ∀ version, schemaVersion raw = some version →
  ImportCovers (stamp now) (parseBackup raw version (stamp now))

/-- What the run keeps. -/
structure PairsKept (c : Conn) : Prop where
  on : c.foreignKeys = true
  inv : Conn.Inv (schema.Sound (PlannerRows (fun _ => True) fun _ => True)) none c
  every : EveryPair c.db

/-- The step lemma. -/
theorem PairsKept.step {host : Host} {c : Conn} {s : Step} (h : PairsKept c)
    (hs : AssignmentStep ImportAssigns c s) : PairsKept (s.run host c).2 := by
  cases s with
  | persist => exact absurd hs id
  | op call =>
      have hwrites : Writes host (fun _ => True) (fun _ => True) call := by
        cases call with
        | createPlannerTemplate => exact fun _ _ => trivial
        | applyPlannerPreset => exact fun _ _ _ _ _ => trivial
        | importUserBackup => exact fun _ _ => ⟨fun _ _ _ _ => trivial, fun _ _ => trivial⟩
        | createCharacter => trivial
        | deleteCharacter => trivial
        | deletePlannerTemplate => trivial
        | _ => exact absurd hs id
      refine ⟨(((settled_run call).keeps true).apply ⟨h.on, h.inv.2⟩).1, sound_run hwrites h.inv, ?_⟩
      have hd := h.inv.1.distinct
      have hdelete : ∀ {t : Table} {p : Row t → Bool}, t ≠ .plannerAssignment →
          EveryPair (schema.delete t p c).2.db := by
        intro t p ht
        show EveryPair (schema.deleteDb c.foreignKeys c.db t p)
        rw [h.on]
        exact everyPair_deleteDb hd h.every ht
      show EveryPair (call.run host c).2.db
      cases call with
      | createCharacter input id now =>
          have hfresh : FreshUuid c.db id := hs
          show EveryPair ((createCharacter input id now).discard c).2.db
          rw [discard_snd, createCharacter_eq hfresh.character]
          exact everyPair_withNewCharacter h.every hfresh
      | createPlannerTemplate input draw =>
          show EveryPair ((createPlannerTemplate input draw).discard c).2.db
          rw [discard_snd]
          exact everyPair_createPlannerTemplate h.every hs
      | applyPlannerPreset mode templates draws =>
          show EveryPair ((applyPlannerPreset host mode templates draws).discard c).2.db
          rw [discard_snd]
          exact everyPair_applyPlannerPreset h.on hd hs.1 hs.2 h.every
      | importUserBackup raw now =>
          show EveryPair (importUserBackup raw now c).2.db
          rcases hrun : importUserBackup raw now c with ⟨e | u, d⟩
          · rcases importUserBackup_cases h.inv.2 with ⟨_, _, _, _, h'⟩ | ⟨_, h'⟩
            · cases hrun.symm.trans h'
            · cases hrun.symm.trans h'
              exact h.every
          · exact (everyPair_import_iff clearKeeps_plannerRows h.inv h.on hrun).mpr hs
      | deleteCharacter => exact hdelete (by decide)
      | deletePlannerTemplate => exact hdelete (by decide)
      | _ => exact absurd hs id

theorem pairsKept_enforcedStart (installed : ℤ) : PairsKept (enforcedStart installed) := by
  refine ⟨rfl, ⟨⟨fun table => ?_, fun table r hr => ?_, fun _ table r hr => ?_⟩, rfl⟩, ?_⟩
  · cases table with
    | plannerSettings => exact List.pairwise_singleton _ _
    | _ => exact List.Pairwise.nil
  · cases table with
    | plannerSettings => trivial
    | _ => cases hr
  · cases table with
    | plannerSettings => exact fun fk hfk => absurd hfk List.not_mem_nil
    | _ => cases hr
  · exact fun ch hch => absurd hch List.not_mem_nil

/-- The pair has one assignment, and the template is among those that are shown
to the character unless that is disabled. -/
def AssignedOnce (db : Db Row) (ch : AppCharacter) (t : PlannerTemplate) : Prop :=
  ∃ a, ((db .plannerAssignment).filter fun a =>
      a.characterId == ch.id && a.templateId == t.id) = [a] ∧
    (t ∈ assignedRows ch.id db ↔ a.enabled = true)

theorem assignedOnce_of_everyPair {db : Db Row} (hd : schema.Distinct db) (h : EveryPair db)
    {ch : AppCharacter} {t : PlannerTemplate} (hch : ch ∈ db .appCharacter)
    (ht : t ∈ db .plannerTemplate) : AssignedOnce db ch t := by
  obtain ⟨a, ha, hac, hat⟩ := h ch hch t ht
  let ofPair := (db .plannerAssignment).filter fun a : PlannerAssignment =>
    a.characterId == ch.id && a.templateId == t.id
  have hmem : ∀ q, q ∈ ofPair ↔
      q ∈ db .plannerAssignment ∧ q.characterId = ch.id ∧ q.templateId = t.id := by
    intro q
    rw [List.mem_filter, Bool.and_eq_true, beq_iff_eq, beq_iff_eq]
  have hconflict : ∀ q ∈ ofPair, ∀ q' ∈ ofPair, schema.conflicts .plannerAssignment q q' = true := by
    intro q hq q' hq'
    obtain ⟨-, hqc, hqt⟩ := (hmem q).mp hq
    obtain ⟨-, hqc', hqt'⟩ := (hmem q').mp hq'
    exact (conflicts_assignment q q').mpr
      (.inr (pairOf_eq_iff.mpr ⟨hqc.trans hqc'.symm, hqt.trans hqt'.symm⟩))
  have hain : a ∈ ofPair := (hmem a).mpr ⟨ha, hac, hat⟩
  have hunique : ∀ q ∈ ofPair, q = a := fun q hq =>
    (hd .plannerAssignment).eq_of_conflicts ((hmem q).mp hq).1 ha (hconflict q hq a hain)
  refine ⟨a, ?_, ?_⟩
  · have hpairwise : ofPair.Pairwise fun q q' => schema.conflicts .plannerAssignment q q' = false :=
      (hd .plannerAssignment).filter _
    show ofPair = [a]
    cases hlist : ofPair with
    | nil =>
        rw [hlist] at hain
        cases hain
    | cons x rest =>
        rw [hlist] at hpairwise hunique hconflict
        cases rest with
        | nil => rw [hunique x List.mem_cons_self]
        | cons y rest =>
            have hno := (List.pairwise_cons.mp hpairwise).1 y List.mem_cons_self
            rw [hconflict x List.mem_cons_self y (List.mem_cons_of_mem x List.mem_cons_self)] at hno
            cases hno
  · rw [mem_assignedRows]
    constructor
    · rintro ⟨-, q, hq, hqc, hen, hqt⟩
      rwa [← hunique q ((hmem q).mpr ⟨hq, hqc, hqt⟩)]
    · exact fun hen => ⟨ht, a, ha, hac, hen, hat⟩

/-- **Every character gets every template, once**, in every run whose imports
do not clash. -/
theorem assignedOnce_of_safe_run {host : Host} {installed : ℤ} {c : Conn}
    (h : Reaches host (AssignmentStep ImportAssigns) (enforcedStart installed) c)
    {ch : AppCharacter} {t : PlannerTemplate} (hch : ch ∈ c.db .appCharacter)
    (ht : t ∈ c.db .plannerTemplate) : AssignedOnce c.db ch t := by
  have hkept : PairsKept c :=
    h.induction (pairsKept_enforcedStart installed) fun d s hd hs => hd.step hs
  exact assignedOnce_of_everyPair hkept.inv.1.distinct hkept.every hch ht

/-! ### Two short runs -/

/-- Two characters and two templates; the file already has the assignment of
the second character to the first template, which is disabled. -/
def pairedBackup : Js :=
  .obj [("schemaVersion", .num 4),
    ("characters", .arr
      [.obj [("id", .str "c1"), ("name", .str "A")], .obj [("id", .str "c2"), ("name", .str "B")]]),
    ("planner", .obj
      [("templates", .arr
        [.obj [("id", .str "t1"), ("title", .str "T"), ("type", .str "DAILY")],
          .obj [("id", .str "t2"), ("title", .str "U"), ("type", .str "DAILY")]]),
        ("assignments", .arr [.obj [("id", .str "x"), ("characterId", .str "c2"),
          ("templateId", .str "t1"), ("enabled", .bool false)]])])]

def pairedImport : Conn :=
  ((Step.op (.importUserBackup pairedBackup 1)).run (Host.iso (Zone.fixed 0)) (enforcedStart 0)).2

/-- A third template, created after the import. -/
def pairedRun : Conn :=
  ((Step.op (.createPlannerTemplate ⟨"Ritual", .weekly, none, none, none⟩
    ⟨"t3", 2, by decide, by decide⟩)).run (Host.iso (Zone.fixed 0)) pairedImport).2

theorem importUserBackup_pairedBackup :
    importUserBackup pairedBackup 1 (enforcedStart 0) = (.ok (), pairedImport) := by
  have hok : (importUserBackup pairedBackup 1 (enforcedStart 0)).1.toOption = some () := by
    decide +kernel
  show _ = (Except.ok (), (importUserBackup pairedBackup 1 (enforcedStart 0)).2)
  rcases hrun : importUserBackup pairedBackup 1 (enforcedStart 0) with ⟨e | u, d⟩
  · rw [hrun] at hok
    cases hok
  · rfl

/-- Nothing clashes: after the import every pair is assigned. -/
theorem importAssigns_pairedBackup : ImportAssigns pairedBackup 1 :=
  (everyPair_import_iff clearKeeps_plannerRows (pairsKept_enforcedStart 0).inv rfl
    importUserBackup_pairedBackup).mp (by unfold EveryPair; decide +kernel)

theorem freshUuid_pairedImport : FreshUuid pairedImport.db "t3" where
  noColon := by decide
  character := by decide +kernel
  template := by decide +kernel
  assignment a ha rest heq := by
    have hother : ∀ a ∈ pairedImport.db .plannerAssignment,
        a.id.toList.take 10 ≠ "assign:t3:".toList := by
      decide +kernel
    have hstart : ("assign:" ++ "t3" ++ ":").toList = "assign:t3:".toList := by decide
    apply hother a ha
    rw [heq, String.toList_append, hstart]
    exact List.take_left' (by decide)

theorem assignedOnce_of_safe_run_pair :
    AssignedOnce pairedRun.db ⟨"c2", "B", none, none, stamp 1, stamp 1⟩
        ⟨"t1", "T", .daily, 0, none, none, stamp 1, stamp 1⟩ ∧
      AssignedOnce pairedRun.db ⟨"c2", "B", none, none, stamp 1, stamp 1⟩
        ⟨"t3", "Ritual", .weekly, 0, none, none, stamp 2, stamp 2⟩ := by
  have hreach : Reaches (Host.iso (Zone.fixed 0)) (AssignmentStep ImportAssigns) (enforcedStart 0)
      pairedRun := .step (.step .start importAssigns_pairedBackup) freshUuid_pairedImport
  have hcharacter : ⟨"c2", "B", none, none, stamp 1, stamp 1⟩ ∈ pairedRun.db .appCharacter := by
    decide +kernel
  exact ⟨assignedOnce_of_safe_run hreach hcharacter (by decide +kernel),
    assignedOnce_of_safe_run hreach hcharacter (by decide +kernel)⟩

/-- A backup whose ids can be split in two ways. -/
def clashingBackup : Js :=
  .obj [("schemaVersion", .num 4),
    ("characters", .arr
      [.obj [("id", .str "a"), ("name", .str "A")], .obj [("id", .str "a:b"), ("name", .str "B")]]),
    ("planner", .obj [("templates", .arr
      [.obj [("id", .str "b:c"), ("title", .str "T"), ("type", .str "DAILY")],
        .obj [("id", .str "c"), ("title", .str "U"), ("type", .str "DAILY")]])])]

theorem insertAll_clashingBackup (saved : Option (Db Row)) :
    ((parseBackup clashingBackup 4 (stamp 1)).insertAll (stamp 1) ⟨fun _ => [], true, saved⟩).1 =
      .ok () :=
  rfl

/-- The import is accepted. -/
theorem importUserBackup_clashingBackup :
    ∃ d, importUserBackup clashingBackup 1 (enforcedStart 0) = (.ok (), d) := by
  let db := (enforcedStart 0).db
  have hclear : clearUserTables ⟨db, true, some db⟩ = (.ok (), ⟨fun _ => [], true, some db⟩) := by
    refine forEach_delete_all fun t => ?_
    by_cases ht : t = .plannerSettings
    · exact .inl (ht ▸ by decide)
    · have hempty : withDefaults (fun _ => []) 0 t = [] := withDefaults_of_ne ht (fun _ => []) 0
      exact .inr hempty
  have hrestore : ((parseBackup clashingBackup 4 (stamp 1)).restore (stamp 1)
      ⟨db, true, some db⟩).1 = .ok () := by
    rw [Backup.restore, bind_of_ok hclear]
    exact insertAll_clashingBackup (some db)
  have hquiet : Quiet ((parseBackup clashingBackup 4 (stamp 1)).restore (stamp 1)) := quiet_restore
  have hstart : (⟨db, true, none⟩ : Conn).saved = none := rfl
  rcases atomically_cases (criticalMessage "backup import") hstart hquiet with
    ⟨d, -, h⟩ | ⟨d, e, hd, -⟩
  · exact ⟨_, h⟩
  · rw [hd] at hrestore
    cases hrestore

/-- Not every run assigns every pair: an accepted import leaves one out. -/
theorem exists_not_assignedOnce : ∃ c,
    Reaches (Host.iso (Zone.fixed 0)) (AssignmentStep fun _ _ => True) (enforcedStart 0) c ∧
    ∃ ch ∈ c.db .appCharacter, ∃ t ∈ c.db .plannerTemplate, ¬ AssignedOnce c.db ch t := by
  obtain ⟨d, hrun⟩ := importUserBackup_clashingBackup
  have hreach : Reaches (Host.iso (Zone.fixed 0)) (AssignmentStep fun _ _ => True) (enforcedStart 0)
      ((Step.op (.importUserBackup clashingBackup 1)).run (Host.iso (Zone.fixed 0))
        (enforcedStart 0)).2 := .step .start trivial
  rw [show (Step.op (.importUserBackup clashingBackup 1)).run (Host.iso (Zone.fixed 0))
    (enforcedStart 0) = (.ok (), d) from hrun] at hreach
  refine ⟨d, hreach, ?_⟩
  by_contra hall
  have hevery : EveryPair d.db := by
    intro ch hch t ht
    by_contra hnone
    refine hall ⟨ch, hch, t, ht, fun ⟨a, ha, _⟩ => hnone ⟨a, ?_⟩⟩
    have hmem : a ∈ (d.db .plannerAssignment).filter fun a : PlannerAssignment =>
        a.characterId == ch.id && a.templateId == t.id := ha ▸ List.mem_cons_self
    rw [List.mem_filter, Bool.and_eq_true, beq_iff_eq, beq_iff_eq] at hmem
    exact hmem
  have hcovers := (everyPair_import_iff clearKeeps_plannerRows
    (pairsKept_enforcedStart 0).inv rfl hrun).mp hevery 4 rfl
  -- `assign:a:b:c` is for the character `a` and for the character `a:b`
  have hnil : ∀ r : PlannerAssignment, ¬ @Covered Table Row .plannerAssignment _ pairOf [] r := by
    rintro r ⟨q, hq, -⟩
    exact List.not_mem_nil hq
  let first : PlannerAssignment := ⟨"assign:a:b:c", "a", "b:c", true, none, stamp 1, stamp 1⟩
  let last : PlannerAssignment := ⟨"assign:a:b:c", "a:b", "c", true, none, stamp 1, stamp 1⟩
  have hpairs : pairAssignments (stamp 1) ["a", "a:b"] ["b:c", "c"] =
      [first, ⟨"assign:a:c", "a", "c", true, none, stamp 1, stamp 1⟩,
        ⟨"assign:a:b:b:c", "a:b", "b:c", true, none, stamp 1, stamp 1⟩, last] := rfl
  have hclash : NoClash (schema.absorb .plannerAssignment [] [])
      (pairAssignments (stamp 1) ["a", "a:b"] ["b:c", "c"]) := hcovers
  rw [hpairs] at hclash
  rcases hclash first List.mem_cons_self with hcov | ⟨-, hnew⟩
  · exact hnil first hcov
  · rcases hnew last (by simp) rfl with hpair | hcov
    · exact absurd (pairOf_eq_iff.mp hpair).1 (by decide)
    · exact hnil last hcov

end Hub
