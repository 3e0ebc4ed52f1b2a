/-
Aion2Hub/Planner/Settings.lean

Which reset settings apply to a character.

Reading the settings stores the default row when it is missing, and changes
nothing else.  What is read is a function of the rows (`effectiveSettings`):
the settings of the character's server, if it has a name and there are any,
and the default ones otherwise.
-/
import Aion2Hub.Storage.Lifecycle

namespace Hub

open Sql Exec

/-- The settings that are read of a row. -/
def settingsOf (r : PlannerSettingsRow) : PlannerSettings :=
  asPlannerSettings (schema.read .plannerSettings r)

theorem readPlannerSettingsById_eq (id : String) (c : Conn) : readPlannerSettingsById id c =
    (.ok (((c.db .plannerSettings).find? fun r => r.id == id).map settingsOf), c) := by
  show (Except.ok ((((c.db .plannerSettings).find? fun r => r.id == id).map
    (schema.read .plannerSettings)).map asPlannerSettings), c) = _
  rw [Option.map_map]
  rfl

theorem settingsOf_defaultSettingsRow (now : ℤ) :
    settingsOf (defaultSettingsRow now) = asPlannerSettings (defaultSettingsRow now) :=
  congrArg asPlannerSettings (whole_defaultSettingsRow now)

/-- The default settings, or those a database without them gets. -/
def defaultSettings (now : ℤ) (db : Db Row) : PlannerSettings :=
  settingsOf (((db .plannerSettings).find? fun r => r.id == "default").getD (defaultSettingsRow now))

theorem any_conflicts_default (now : ℤ) (rows : List PlannerSettingsRow) :
    rows.any (schema.conflicts .plannerSettings (defaultSettingsRow now)) =
      rows.any fun r => r.id == "default" := by
  congr 1
  funext r
  show ("default" == r.id || false) = (r.id == "default")
  rw [Bool.or_false, BEq.comm]

/-- Reading the default settings stores them if they are missing. -/
theorem getPlannerSettings_eq (now : ℤ) (c : Conn) :
    getPlannerSettings now c =
      (.ok (defaultSettings now c.db), { c with db := withDefaults c.db now }) := by
  rw [getPlannerSettings, bind_of_ok (readPlannerSettingsById_eq "default" c), defaultSettings]
  cases hfind : (c.db .plannerSettings).find? fun r => r.id == "default" with
  | some r =>
      have hany : ((c.db .plannerSettings).any fun r => r.id == "default") = true :=
        List.any_eq_true.mpr ⟨r, List.mem_of_find?_eq_some hfind,
          List.find?_some (p := fun r : PlannerSettingsRow => r.id == "default") hfind⟩
      rw [withDefaults, any_conflicts_default, if_pos hany]
      rfl
  | none =>
      rw [Option.getD_none, settingsOf_defaultSettingsRow]
      exact bind_of_ok (f := fun _ => pure (asPlannerSettings (defaultSettingsRow now)))
        (ensureDefaults_eq now c)

theorem withDefaults_of_ne {t : Table} (ht : t ≠ .plannerSettings) (db : Db Row) (now : ℤ) :
    withDefaults db now t = db t := by
  rw [withDefaults]
  split
  · rfl
  · exact Db.set_of_ne _ ht _

/-- The settings that apply on a server: its own, or the default ones. -/
def effectiveSettings (now : ℤ) (db : Db Row) (server : Option String) : PlannerSettings :=
  match (normalizeServerName server).bind fun name =>
      (db .plannerSettings).find? fun r => r.id == plannerSettingsIdForServer name with
  | some r => settingsOf r
  | none => defaultSettings now db

/-- The default row is not that of a server. -/
theorem find?_withDefaults (db : Db Row) (now : ℤ) (name : String) :
    ((withDefaults db now .plannerSettings).find? fun r => r.id == plannerSettingsIdForServer name) =
      (db .plannerSettings).find? fun r => r.id == plannerSettingsIdForServer name := by
  rw [withDefaults]
  split
  · rfl
  · have hne : ("default" == plannerSettingsIdForServer name) = false := by
      refine beq_eq_false_iff_ne.mpr fun h => ?_
      have hlist := congrArg String.toList h
      rw [plannerSettingsIdForServer, String.toList_append] at hlist
      exact absurd (List.cons.inj hlist).1 (by decide)
    have hnone : [defaultSettingsRow now].find? (fun r => r.id == plannerSettingsIdForServer name) =
        none := List.find?_cons_of_neg (by simp [defaultSettingsRow, hne])
    rw [Db.set_self, List.find?_append, hnone, Option.or_none]

/-- The two settings that decide when a period begins. -/
def PlannerSettings.resets (s : PlannerSettings) : String × Number :=
  (s.dailyResetHhmm, s.weeklyResetDay)

theorem PlannerSettings.eq_resets {s : PlannerSettings} {resets : String × Number}
    (h : s.resets = resets) : s.dailyResetHhmm = resets.1 ∧ s.weeklyResetDay = resets.2 := by
  subst h
  exact ⟨rfl, rfl⟩

/-- The resets that apply on a server. -/
def effectiveResets (db : Db Row) (server : Option String) : String × Number :=
  (((normalizeServerName server).bind fun name =>
      (db .plannerSettings).find? fun r => r.id == plannerSettingsIdForServer name).or
    ((db .plannerSettings).find? fun r => r.id == "default")).elim ("09:00", 1)
      fun r => (settingsOf r).resets

theorem effectiveSettings_resets (now : ℤ) (db : Db Row) (server : Option String) :
    (effectiveSettings now db server).resets = effectiveResets db server := by
  unfold effectiveSettings effectiveResets defaultSettings
  split
  · rename_i r hr
    rw [hr]
    rfl
  · rename_i hnone
    rw [hnone, Option.none_or]
    cases (db .plannerSettings).find? fun r => r.id == "default" with
    | some r => rfl
    | none =>
        rw [Option.getD_none, settingsOf_defaultSettingsRow]
        rfl

/-- Storing the default settings changes no resets. -/
theorem effectiveResets_withDefaults (db : Db Row) (now : ℤ) (server : Option String) :
    effectiveResets (withDefaults db now) server = effectiveResets db server := by
  have hserver : ((normalizeServerName server).bind fun name => (withDefaults db now .plannerSettings).find?
      fun r => r.id == plannerSettingsIdForServer name) = (normalizeServerName server).bind fun name =>
        (db .plannerSettings).find? fun r => r.id == plannerSettingsIdForServer name := by
    congr 1
    funext name
    exact find?_withDefaults db now name
  unfold effectiveResets
  rw [hserver, withDefaults, any_conflicts_default]
  cases hfind : (db .plannerSettings).find? fun r => r.id == "default" with
  | some r =>
      have hany : ((db .plannerSettings).any fun r => r.id == "default") = true :=
        List.any_eq_true.mpr ⟨r, List.mem_of_find?_eq_some hfind,
          List.find?_some (p := fun r : PlannerSettingsRow => r.id == "default") hfind⟩
      rw [if_pos hany, hfind]
  | none =>
      have hany : ¬ ((db .plannerSettings).any fun r => r.id == "default") = true := by
        rw [List.any_eq_true]
        rintro ⟨r, hr, hid⟩
        exact List.find?_eq_none.mp hfind r hr hid
      rw [if_neg hany, Db.set_self, List.find?_append, hfind]
      cases (normalizeServerName server).bind fun name =>
        (db .plannerSettings).find? fun r => r.id == plannerSettingsIdForServer name with
      | some r => rfl
      | none =>
          show (settingsOf (defaultSettingsRow now)).resets = _
          rw [settingsOf_defaultSettingsRow]
          rfl

theorem getPlannerSettingsEffective_eq (server : Option String) (now : ℤ) (c : Conn) :
    ∃ scope, getPlannerSettingsEffective server now c =
      (.ok (effectiveSettings now c.db server, scope), { c with db := withDefaults c.db now }) := by
  have hbundle : ∃ bundle : PlannerSettingsBundle,
      getPlannerSettingsBundle server now c = (.ok bundle, { c with db := withDefaults c.db now }) ∧
        bundle.effective = effectiveSettings now c.db server := by
    unfold getPlannerSettingsBundle effectiveSettings
    rw [bind_of_ok (getPlannerSettings_eq now c)]
    cases normalizeServerName server with
    | none => exact ⟨_, rfl, rfl⟩
    | some name =>
        dsimp only [Option.bind_some]
        rw [bind_of_ok (readPlannerSettingsById_eq _ _), find?_withDefaults]
        cases (c.db .plannerSettings).find? fun r => r.id == plannerSettingsIdForServer name with
        | none => exact ⟨_, rfl, rfl⟩
        | some r => exact ⟨_, rfl, rfl⟩
  obtain ⟨bundle, hb, heff⟩ := hbundle
  refine ⟨bundle.effectiveScope, ?_⟩
  rw [getPlannerSettingsEffective, bind_of_ok hb, heff]
  rfl

end Hub
