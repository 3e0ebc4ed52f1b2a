/-
Aion2Hub/Planner/Preset.lean

When applying a preset is atomic.

`applyPlannerPreset` deletes and inserts without a transaction.  The inserts
can only fail on an entry whose estimate is NaN (`createPlannerTemplate_eq`
says what all others do), and then whatever has been deleted and created so
far stays.  So a preset is applied atomically exactly when no entry that gets
created has such an estimate, or when the first one does and nothing had to be
deleted (`applyPlannerPreset_atomic_iff`).
-/
import Aion2Hub.Storage.Sound
import Aion2Hub.Lib.Load

namespace Hub

open Sql Exec

/-! ### Creating one template -/

/-- The assignments of a new template to the characters. -/
def templateAssignments (draw : Draw) (db : Db Row) : List PlannerAssignment :=
  (db .appCharacter).map fun c =>
    ⟨"assign:" ++ draw.id ++ ":" ++ c.id, c.id, draw.id, true, none, stamp draw.now, stamp draw.now⟩

/-- No template has the id. -/
def UnusedId (db : Db Row) (id : String) : Prop := ∀ r ∈ db .plannerTemplate, r.id ≠ id

instance (db : Db Row) (id : String) : Decidable (UnusedId db id) :=
  inferInstanceAs (Decidable (∀ r ∈ db .plannerTemplate, r.id ≠ id))

/-- The rows after the template has been created. -/
def withTemplate (input : TemplateInput) (minutes : Number) (draw : Draw) (db : Db Row) : Db Row :=
  (db.set .plannerTemplate (db .plannerTemplate ++ [newTemplate input minutes draw])).set
    .plannerAssignment
      (schema.absorb .plannerAssignment (db .plannerAssignment) (templateAssignments draw db))

theorem withTemplate_templates (input : TemplateInput) (minutes : Number) (draw : Draw)
    (db : Db Row) : withTemplate input minutes draw db .plannerTemplate =
      db .plannerTemplate ++ [newTemplate input minutes draw] := by
  rw [withTemplate, Db.set_of_ne _ (by decide), Db.set_self]

/-- An estimate that is a number is stored, and nothing else can go wrong
when the id is new. -/
theorem createPlannerTemplate_eq {input : TemplateInput} {minutes : Number} {draw : Draw} {c : Conn}
    (hminutes : (estimate input.estimateMinutes).bind = some minutes)
    (hid : UnusedId c.db draw.id) : createPlannerTemplate input draw c =
      (.ok draw.id, { c with db := withTemplate input minutes draw c.db }) := by
  let c₁ : Conn := { c with
    db := c.db.set .plannerTemplate (c.db .plannerTemplate ++ [newTemplate input minutes draw]) }
  have hnotNull : notNull (estimate input.estimateMinutes) c = (.ok minutes, c) := by
    rw [notNull, hminutes]
    rfl
  have hinsert : schema.insert .abort .plannerTemplate (newTemplate input minutes draw) c =
      (.ok (), c₁) := insert_fits_key rfl hid fun _ fk hfk => absurd hfk List.not_mem_nil
  have hassign : schema.insertSelect .ignore .plannerAssignment (templateAssignments draw) c₁ =
      (.ok (), { c with db := withTemplate input minutes draw c.db }) := by
    refine insertSelect_ignore fun _ r hr => ?_
    obtain ⟨q, hq, rfl⟩ := List.mem_map.mp hr
    intro fk hfk k hk
    rcases List.mem_cons.mp hfk with rfl | hfk
    · cases hk
      exact ⟨q, hq, rfl⟩
    · obtain rfl := List.mem_singleton.mp hfk
      cases hk
      exact ⟨newTemplate input minutes draw, List.mem_append_right _ List.mem_cons_self, rfl⟩
  exact (bind_of_ok hnotNull).trans ((bind_of_ok hinsert).trans (bind_of_ok hassign))

theorem createPlannerTemplate_nan {input : TemplateInput} {draw : Draw} {c : Conn}
    (h : (estimate input.estimateMinutes).bind = none) :
    createPlannerTemplate input draw c = (.error "NOT NULL constraint failed", c) := by
  have hnotNull : notNull (estimate input.estimateMinutes) c =
      (.error "NOT NULL constraint failed", c) := by
    rw [notNull, h]
    rfl
  exact bind_of_error hnotNull

/-! ### The loop -/

/-- The entries for which the loop creates a template: those with a key that
is new. -/
def toCreate (host : Host) : List TemplateInput → List String → List TemplateInput
  | [], _ => []
  | t :: ts, existingKeys =>
      if makeKey host t.type t.title ∈ existingKeys then toCreate host ts existingKeys
      else t :: toCreate host ts (makeKey host t.type t.title :: existingKeys)

/-- The estimate of the entry is NaN, which no NOT NULL column takes. -/
def NanEstimate (t : TemplateInput) : Prop := (estimate t.estimateMinutes).bind = none

instance (t : TemplateInput) : Decidable (NanEstimate t) := inferInstanceAs (Decidable (_ = _))

/-- Every id that is drawn is a new one. -/
structure FreshDraws (db : Db Row) (draws : ℕ → Draw) : Prop where
  injective : ∀ i j, (draws i).id = (draws j).id → i = j
  unused : ∀ i, UnusedId db (draws i).id

/-- The loop returns, or it throws at an entry with a NaN estimate: at the
first one it gets to, and then nothing has happened, or later, and then the
first template has been created. -/
theorem createMissing_cases {host : Host} {draws : ℕ → Draw} {ts : List TemplateInput}
    {keys : List String} {created skipped : ℕ} {c : Conn}
    (hinj : ∀ i j, (draws i).id = (draws j).id → i = j)
    (hunused : ∀ i, created ≤ i → UnusedId c.db (draws i).id) :
    ((∃ r d, createMissing host draws ts keys created skipped c = (.ok r, d)) ∧
        ∀ t ∈ toCreate host ts keys, ¬ NanEstimate t) ∨
      ∃ e d, createMissing host draws ts keys created skipped c = (.error e, d) ∧
        c.db .plannerTemplate ⊆ d.db .plannerTemplate ∧ (∃ t ∈ toCreate host ts keys, NanEstimate t) ∧
        (∃ t, (toCreate host ts keys).head? = some t ∧
          (NanEstimate t ∧ d = c ∨
            ¬ NanEstimate t ∧ ∃ r ∈ d.db .plannerTemplate, r.id = (draws created).id)) := by
  induction ts generalizing keys created skipped c with
  | nil => exact .inl ⟨⟨_, _, rfl⟩, fun t ht => absurd ht List.not_mem_nil⟩
  | cons t ts ih =>
      by_cases hkey : makeKey host t.type t.title ∈ keys
      · rw [createMissing, toCreate, if_pos hkey, if_pos hkey]
        exact ih hunused
      · rw [createMissing, toCreate, if_neg hkey, if_neg hkey]
        rcases hm : (estimate t.estimateMinutes).bind with _ | minutes
        · -- the statement fails before anything is written
          exact .inr ⟨_, c, bind_of_error (createPlannerTemplate_nan hm), List.Subset.refl _,
            ⟨t, List.mem_cons_self, hm⟩, t, rfl, .inl ⟨hm, rfl⟩⟩
        · have hnum : ¬ NanEstimate t := by
            rw [NanEstimate, hm]
            exact Option.some_ne_none minutes
          have hcreate := createPlannerTemplate_eq hm (hunused created le_rfl)
          let c₁ : Conn := { c with db := withTemplate t minutes (draws created) c.db }
          have hunused₁ : ∀ i, created + 1 ≤ i → UnusedId c₁.db (draws i).id := by
            intro i hi r hr
            rw [show c₁.db .plannerTemplate = _ from withTemplate_templates _ _ _ _] at hr
            rcases List.mem_append.mp hr with hr | hr
            · exact hunused i (by omega) r hr
            · obtain rfl := List.mem_singleton.mp hr
              intro heq
              have := hinj _ _ heq
              omega
          rw [bind_of_ok hcreate]
          have hrest := @ih (makeKey host t.type t.title :: keys) (created + 1) skipped c₁ hunused₁
          rcases hrest with ⟨hok, hall⟩ | ⟨e, d, herr, hsub, ⟨t', ht', hnan⟩, -⟩
          · refine .inl ⟨hok, fun t' ht' => ?_⟩
            rcases List.mem_cons.mp ht' with rfl | ht'
            · exact hnum
            · exact hall t' ht'
          · rw [show c₁.db .plannerTemplate = _ from withTemplate_templates _ _ _ _] at hsub
            obtain ⟨hold, hnew⟩ := List.append_subset.mp hsub
            exact .inr ⟨e, d, herr, hold, ⟨t', List.mem_cons_of_mem t ht', hnan⟩, t, rfl,
              .inr ⟨hnum, _, hnew List.mem_cons_self, rfl⟩⟩

/-! ### Atomicity -/

/-- The program returns, or it throws and leaves every table as it was. -/
def AtomicAt {α : Type} (m : Prog α) (c : Conn) : Prop := ∀ e d, m c = (.error e, d) → d.db = c.db

/-- The key of a stored template, by what is read of its title. -/
def storedKey (host : Host) (r : PlannerTemplate) : String := makeKey host r.type (Text.cut r.title)

/-- The keys the loop starts from: in replace mode every template is gone. -/
def keysAtStart (host : Host) (mode : PresetMode) (db : Db Row) : List String :=
  if mode = .replace then [] else (db .plannerTemplate).map (storedKey host)

/-- The entries for which a preset creates a template. -/
def presetTemplates (host : Host) (mode : PresetMode) (templates : List Js) (db : Db Row) :
    List TemplateInput :=
  toCreate host (templates.filterMap normalizeTemplate) (keysAtStart host mode db)

/-- There is no template that the mode deletes. -/
def NothingToClear (mode : PresetMode) (db : Db Row) : Prop :=
  mode = .merge ∨ db .plannerTemplate = []

instance (mode : PresetMode) (db : Db Row) : Decidable (NothingToClear mode db) := by
  unfold NothingToClear
  exact @instDecidableOr _ _ _ (decidable_of_iff _ List.isEmpty_iff)

/-- No entry that gets created has a NaN estimate, or the first one does and
nothing is deleted before it. -/
def PresetFits (host : Host) (mode : PresetMode) (templates : List Js) (db : Db Row) : Prop :=
  (∀ t ∈ presetTemplates host mode templates db, ¬ NanEstimate t) ∨
    (∃ t ∈ (presetTemplates host mode templates db).head?, NanEstimate t) ∧ NothingToClear mode db

/-- What is left when the templates have been cleared for the mode. -/
theorem clearForPreset_eq (mode : PresetMode) (c : Conn) : ∃ c₁, clearForPreset mode c = (.ok (), c₁) ∧
    c₁.db .plannerTemplate = (if mode = .replace then [] else c.db .plannerTemplate) ∧
    (NothingToClear mode c.db → c₁ = c) := by
  cases mode with
  | merge => exact ⟨c, rfl, rfl, fun _ => rfl⟩
  | replace =>
      refine ⟨{ c with db := schema.deleteDb c.foreignKeys c.db .plannerTemplate fun _ => true }, rfl,
        (deleteDb_all Table.plannerTemplate).1, fun h => ?_⟩
      rcases h with h | h
      · cases h
      · have hnone : (c.db .plannerTemplate).filter (fun _ => true) = [] := by rw [h]; rfl
        rw [deleteDb_none hnone]

/-- Applying a preset is the loop, once the templates have been cleared. -/
theorem applyPlannerPreset_eq {host : Host} {mode : PresetMode} {templates : List Js}
    {draws : ℕ → Draw} {c c₁ : Conn} (hclear : clearForPreset mode c = (.ok (), c₁))
    (htemplates : c₁.db .plannerTemplate = if mode = .replace then [] else c.db .plannerTemplate) :
    applyPlannerPreset host mode templates draws c =
      createMissing host draws (templates.filterMap normalizeTemplate)
        (keysAtStart host mode c.db) 0 0 c₁ := by
  have hkeys : (c₁.db .plannerTemplate).map (storedKey host) = keysAtStart host mode c.db := by
    rw [htemplates, keysAtStart]
    split <;> rfl
  have hselect : schema.select .plannerTemplate (fun _ => true) c₁ =
      (.ok ((c₁.db .plannerTemplate).map (schema.read .plannerTemplate)), c₁) := by
    show (Except.ok ((List.filter _ _).map _), c₁) = _
    rw [List.filter_true]
  refine (bind_of_ok hclear).trans ((bind_of_ok hselect).trans ?_)
  rw [List.map_map, ← hkeys]
  rfl

/-- **A preset is applied atomically exactly when it fits.** -/
theorem applyPlannerPreset_atomic_iff {host : Host} {mode : PresetMode} {templates : List Js}
    {draws : ℕ → Draw} {c : Conn} (hfresh : FreshDraws c.db draws) :
    AtomicAt (applyPlannerPreset host mode templates draws) c ↔
      PresetFits host mode templates c.db := by
  obtain ⟨c₁, hclear, htemplates, hsame⟩ := clearForPreset_eq mode c
  have hunused : ∀ i, 0 ≤ i → UnusedId c₁.db (draws i).id := by
    intro i _ r hr
    rw [htemplates] at hr
    split at hr
    · exact absurd hr List.not_mem_nil
    · exact hfresh.unused i r hr
  have hrun := @applyPlannerPreset_eq host mode templates draws c c₁ hclear htemplates
  unfold AtomicAt PresetFits presetTemplates
  rw [hrun]
  have hcases := @createMissing_cases host draws (templates.filterMap normalizeTemplate)
    (keysAtStart host mode c.db) 0 0 c₁ hfresh.injective hunused
  rcases hcases with ⟨⟨r, d, hok⟩, hall⟩ | ⟨e, d, herr, -, ⟨t, ht, hnan⟩, t₀, hhead, hcase⟩
  · refine iff_of_true (fun e d herr => ?_) (.inl hall)
    rw [hok] at herr
    cases herr
  · have hatomic : (∀ e' d', createMissing host draws (templates.filterMap normalizeTemplate)
        (keysAtStart host mode c.db) 0 0 c₁ = (.error e', d') → d'.db = c.db) ↔ d.db = c.db := by
      refine ⟨fun h => h e d herr, fun h e' d' herr' => ?_⟩
      rw [herr] at herr'
      cases herr'
      exact h
    rw [hatomic]
    rcases hcase with ⟨hnan₀, rfl⟩ | ⟨hnum₀, r, hr, hrid⟩
    · -- the first entry fails: what is left is what clearing left
      refine ⟨fun hdb => .inr ⟨⟨t₀, hhead, hnan₀⟩, ?_⟩, fun hfits => ?_⟩
      · cases mode with
        | merge => exact .inl rfl
        | replace => exact .inr (hdb ▸ htemplates)
      · rcases hfits with hall | ⟨-, hnothing⟩
        · exact absurd hnan (hall t ht)
        · rw [hsame hnothing]
    · refine iff_of_false (fun hdb => ?_) (fun hfits => ?_)
      · rw [hdb] at hr
        exact hfresh.unused 0 r hr hrid
      · rcases hfits with hall | ⟨⟨t', ht', hnan'⟩, -⟩
        · exact hall t ht hnan
        · rw [hhead] at ht'
          cases ht'
          exact hnum₀ hnan'

/-! ### One template, replaced and merged -/

/-- A preset with one weekly task whose estimate is NaN. -/
def nanPreset : List Js :=
  [.obj [("title", .str "Boss"), ("type", .str "WEEKLY"), ("estimateMinutes", .num .nan)]]

/-- Ids of growing length. -/
def longIds (i : ℕ) : Draw := nthDraw (i + 2) 5

theorem freshDraws_longIds : FreshDraws withAssignment.db longIds where
  injective i j h := by
    have hlen := congrArg (fun s : String => s.toList.length) h
    simp only [longIds, length_nthDraw] at hlen
    omega
  unused i r hr heq := by
    obtain rfl : r = newTemplate ⟨"Ritual", .daily, none, none, none⟩ 0 templateDraw :=
      List.mem_singleton.mp hr
    have hid : "t1" = (longIds i).id := heq
    have hlen : "t1".toList.length = i + 3 := hid ▸ length_nthDraw (i + 2) 5
    have htwo : "t1".toList.length = 2 := rfl
    omega

/-- Merging it fails at the first entry, before anything is written. -/
theorem applyPlannerPreset_atomic_merge :
    AtomicAt (applyPlannerPreset (Host.iso (Zone.fixed 0)) .merge nanPreset longIds)
      withAssignment := by
  have hfirst : presetTemplates (Host.iso (Zone.fixed 0)) .merge nanPreset withAssignment.db =
      [⟨"Boss", .weekly, some .nan, none, none⟩] := by
    have hkey : makeKey (Host.iso (Zone.fixed 0)) .weekly "Boss" ∉
        [makeKey (Host.iso (Zone.fixed 0)) .daily "Ritual"] := by
      intro hmem
      have hlist := congrArg String.toList (List.mem_singleton.mp hmem)
      simp only [makeKey, String.toList_append] at hlist
      exact absurd (List.cons.inj hlist).1 (by decide)
    show toCreate _ [⟨"Boss", .weekly, some .nan, none, none⟩]
      [makeKey (Host.iso (Zone.fixed 0)) .daily "Ritual"] = _
    rw [toCreate, if_neg hkey]
    rfl
  refine (applyPlannerPreset_atomic_iff freshDraws_longIds).mpr (.inr ⟨?_, .inl rfl⟩)
  rw [hfirst]
  exact ⟨_, rfl, rfl⟩

/-- Replacing with it has deleted the only template when it fails. -/
theorem not_atomicAt_replace : FreshDraws withAssignment.db longIds ∧
    ¬ AtomicAt (applyPlannerPreset (Host.iso (Zone.fixed 0)) .replace nanPreset longIds)
      withAssignment := by
  refine ⟨freshDraws_longIds, fun hatomic => ?_⟩
  have hdb := hatomic "NOT NULL constraint failed" _ rfl
  have htemplates := congrFun hdb .plannerTemplate
  cases htemplates

end Hub
