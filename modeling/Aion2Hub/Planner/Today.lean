/-
Aion2Hub/Planner/Today.lean

The overview as the renderer sees it (`pages/planner/today/model.ts`), and
the runs in which there always is one.

`asOverview` checks every field it uses, and every overview passes
(`asOverview_toJs`).  Whether there is an overview is a question of dates:
if no charge that is written has a window longer than `w`, and all times stay
`w` away from the ends of the range of dates, no date leaves the range
(`overview_of_safe_run`).
-/
import Aion2Hub.Planner.Overview
import Aion2Hub.Storage.Sound

namespace Hub

open Sql Exec

/-! ### What is sent -/

def PlannerChecklistItem.toJs (i : PlannerChecklistItem) : Js :=
  .obj [("templateId", .str i.templateId), ("title", .str i.title), ("type", .str i.type.text),
    ("estimateMinutes", .num i.estimateMinutes), ("completed", .bool i.completed)]

def PlannerChargeItem.toJs (i : PlannerChargeItem) : Js :=
  .obj [("templateId", .str i.templateId), ("title", .str i.title), ("type", .str "CHARGE"),
    ("rechargeHours", .num i.rechargeHours), ("maxStacks", .num i.maxStacks),
    ("usedCountInWindow", .num (Number.ofInt i.usedCountInWindow)), ("available", .num i.available),
    ("nextRechargeAt", (i.nextRechargeAt.map Js.str).getD .null)]

def appCharacterJs (c : AppCharacter) : Js :=
  .obj [("id", .str c.id), ("name", .str c.name), ("server", (c.server.map Js.str).getD .null),
    ("class", (c.characterClass.map Js.str).getD .null), ("createdAt", .str c.createdAt),
    ("updatedAt", .str c.updatedAt)]

/-- The value that `planner:getOverview` answers with. -/
def PlannerOverview.toJs (o : PlannerOverview) : Js :=
  .obj [("now", .str o.now),
    ("periodKeys", .obj [("daily", .str o.dailyKey), ("weekly", .str o.weeklyKey)]),
    ("settings", .obj [("dailyResetHhmm", .str o.dailyResetHhmm),
      ("weeklyResetDay", .num o.weeklyResetDay)]),
    ("character", appCharacterJs o.character),
    ("daily", .arr (o.daily.map PlannerChecklistItem.toJs)),
    ("weekly", .arr (o.weekly.map PlannerChecklistItem.toJs)),
    ("charges", .arr (o.charges.map PlannerChargeItem.toJs))]

/-! ### What is accepted -/

namespace Renderer

structure PlannerCharacter where
  id : String
  name : String
  server : Option String
  characterClass : Option String

/-- The count arrives as a number like the others. -/
structure ChargeItem where
  templateId : String
  title : String
  rechargeHours : Number
  maxStacks : Number
  usedCountInWindow : Number
  available : Number
  nextRechargeAt : Option String

structure Overview where
  now : String
  dailyKey : String
  weeklyKey : String
  dailyResetHhmm : String
  weeklyResetDay : Number
  character : PlannerCharacter
  daily : List PlannerChecklistItem
  weekly : List PlannerChecklistItem
  charges : List ChargeItem

/-- The value of a boolean field. -/
def asBool : Option Js → Option Bool
  | some (.bool b) => some b
  | _ => none

/-- `isObject(v) ? v : undefined`. -/
def asObject (v : Option Js) : Option Js := v.filter Js.isObject

/-- The elements of an array. -/
def asElems : Option Js → Option (List Js)
  | some (.arr elems) => some elems
  | _ => none

def parseChecklist (type : PlannerTemplateType) (raw : Js) : Option PlannerChecklistItem := do
  let raw ← asObject (some raw)
  let templateId ← Js.asString (raw.get "templateId")
  let title ← Js.asString (raw.get "title")
  guard (Js.asString (raw.get "type") = some type.text)
  let estimateMinutes ← Js.asNumber (raw.get "estimateMinutes")
  let completed ← asBool (raw.get "completed")
  pure ⟨templateId, title, type, estimateMinutes, completed⟩

/-- A text or null, and nothing else. -/
def textOrNull : Option Js → Option (Option String)
  | some (.str s) => some (some s)
  | some .null => some none
  | _ => none

def parseCharge (raw : Js) : Option ChargeItem := do
  let raw ← asObject (some raw)
  let templateId ← Js.asString (raw.get "templateId")
  let title ← Js.asString (raw.get "title")
  guard (Js.asString (raw.get "type") = some "CHARGE")
  let rechargeHours ← Js.asNumber (raw.get "rechargeHours")
  let maxStacks ← Js.asNumber (raw.get "maxStacks")
  let usedCountInWindow ← Js.asNumber (raw.get "usedCountInWindow")
  let available ← Js.asNumber (raw.get "available")
  let nextRechargeAt ← textOrNull (raw.get "nextRechargeAt")
  pure ⟨templateId, title, rechargeHours, maxStacks, usedCountInWindow, available, nextRechargeAt⟩

/-- Any other value than a text reads as null. -/
def parseCharacter (c : Js) : Option PlannerCharacter := do
  let id ← Js.asString (c.get "id")
  let name ← Js.asString (c.get "name")
  pure ⟨id, name, Js.asString (c.get "server"), Js.asString (c.get "class")⟩

def asOverview (value : Js) : Option Overview := do
  let value ← asObject (some value)
  let now ← Js.asString (value.get "now")
  let periodKeys ← asObject (value.get "periodKeys")
  let dailyKey ← Js.asString (periodKeys.get "daily")
  let weeklyKey ← Js.asString (periodKeys.get "weekly")
  let settings ← asObject (value.get "settings")
  let dailyResetHhmm ← Js.asString (settings.get "dailyResetHhmm")
  let weeklyResetDay ← Js.asNumber (settings.get "weeklyResetDay")
  let character ← asObject (value.get "character")
  let character ← parseCharacter character
  let daily ← asElems (value.get "daily")
  let weekly ← asElems (value.get "weekly")
  let charges ← asElems (value.get "charges")
  let daily ← daily.mapM (parseChecklist .daily)
  let weekly ← weekly.mapM (parseChecklist .weekly)
  let charges ← charges.mapM parseCharge
  pure ⟨now, dailyKey, weeklyKey, dailyResetHhmm, weeklyResetDay, character, daily, weekly, charges⟩

/-! ### What is sent is accepted -/

/-- What the renderer makes of a charge. -/
def ChargeItem.ofItem (i : PlannerChargeItem) : ChargeItem :=
  ⟨i.templateId, i.title, i.rechargeHours, i.maxStacks, Number.ofInt i.usedCountInWindow,
    i.available, i.nextRechargeAt⟩

/-- What the renderer makes of an overview. -/
def Overview.ofOverview (o : PlannerOverview) : Overview :=
  ⟨o.now, o.dailyKey, o.weeklyKey, o.dailyResetHhmm, o.weeklyResetDay,
    ⟨o.character.id, o.character.name, o.character.server, o.character.characterClass⟩, o.daily,
    o.weekly, o.charges.map ChargeItem.ofItem⟩

theorem parseChecklist_toJs (i : PlannerChecklistItem) : parseChecklist i.type i.toJs = some i := by
  obtain ⟨templateId, title, type, minutes, completed⟩ := i
  cases type <;> rfl

theorem parseCharge_toJs (i : PlannerChargeItem) :
    parseCharge i.toJs = some (ChargeItem.ofItem i) := by
  obtain ⟨templateId, title, hours, maxStacks, used, available, next⟩ := i
  cases next <;> rfl

theorem parseCharacter_appCharacterJs (c : AppCharacter) : parseCharacter (appCharacterJs c) =
    some ⟨c.id, c.name, c.server, c.characterClass⟩ := by
  obtain ⟨id, name, server, characterClass, createdAt, updatedAt⟩ := c
  cases server <;> cases characterClass <;> rfl

/-- A list is parsed element by element. -/
theorem mapM_map {α β : Type} {f : Js → Option β} {g : α → Js} {h : α → β} {l : List α}
    (hf : ∀ a ∈ l, f (g a) = some (h a)) : (l.map g).mapM f = some (l.map h) := by
  induction l with
  | nil => rfl
  | cons a l ih =>
      rw [List.map_cons, List.mapM_cons, hf a List.mem_cons_self,
        ih fun b hb => hf b (List.mem_cons_of_mem a hb)]
      rfl

/-- **The renderer accepts every overview** and loses nothing of it. -/
theorem asOverview_toJs {o : PlannerOverview} (hdaily : ∀ i ∈ o.daily, i.type = .daily)
    (hweekly : ∀ i ∈ o.weekly, i.type = .weekly) :
    asOverview o.toJs = some (Overview.ofOverview o) := by
  have hd : (o.daily.map PlannerChecklistItem.toJs).mapM (parseChecklist .daily) = some o.daily := by
    have h := mapM_map (h := id) fun i hi => (hdaily i hi) ▸ parseChecklist_toJs i
    rwa [List.map_id] at h
  have hw : (o.weekly.map PlannerChecklistItem.toJs).mapM (parseChecklist .weekly) =
      some o.weekly := by
    have h := mapM_map (h := id) fun i hi => (hweekly i hi) ▸ parseChecklist_toJs i
    rwa [List.map_id] at h
  have hc : (o.charges.map PlannerChargeItem.toJs).mapM parseCharge =
      some (o.charges.map ChargeItem.ofItem) := mapM_map fun i _ => parseCharge_toJs i
  have hcharacter := parseCharacter_appCharacterJs o.character
  have hvalue : asOverview o.toJs = (do
      let character ← parseCharacter (appCharacterJs o.character)
      let daily ← (o.daily.map PlannerChecklistItem.toJs).mapM (parseChecklist .daily)
      let weekly ← (o.weekly.map PlannerChecklistItem.toJs).mapM (parseChecklist .weekly)
      let charges ← (o.charges.map PlannerChargeItem.toJs).mapM parseCharge
      pure ⟨o.now, o.dailyKey, o.weeklyKey, o.dailyResetHhmm, o.weeklyResetDay, character, daily,
        weekly, charges⟩) := rfl
  rw [hvalue, hcharacter, hd, hw, hc]
  rfl

end Renderer

/-! ### Runs with an overview in every state -/

/-- The window of a charge is at most `w` milliseconds long. -/
def WindowAtMost (w : ℤ) (t : PlannerTemplate) : Prop :=
  t.type = .charge → ∃ q, windowMs (t.rechargeHours.getD 0) = .fin q ∧ |q| ≤ w

/-- The time that is read of a use is a date at least `w` milliseconds from the
ends of the range. -/
def UseWithin (host : Host) (w : ℤ) (u : PlannerChargeUse) : Prop :=
  ∃ t, host.parseDate (Text.cut u.usedAt) = some t ∧ |t| ≤ Date.maxTime - w

/-- A step of the planner, of the characters or of the backup, or a persist,
whose written templates and charge uses have the properties. -/
def PlannerStep (host : Host) (Q : PlannerTemplate → Prop) (U : PlannerChargeUse → Prop) :
    Step → Prop
  | .op op => Writes host Q U op
  | .persist => True

/-- What is stored has the properties in every state of the run. -/
theorem rows_of_run {host : Host} {Q : PlannerTemplate → Prop} {U : PlannerChargeUse → Prop}
    {installed : ℤ} {c : Conn}
    (h : Reaches host (fun _ s => PlannerStep host Q U s) (opened none installed) c) :
    AllRows (PlannerRows Q U) c.db := by
  have hinv : Conn.Inv (schema.Sound (PlannerRows Q U)) none c := by
    refine h.induction (I := Conn.Inv (schema.Sound (PlannerRows Q U)) none) ?_ ?_
    · rw [opened_eq]
      refine ⟨⟨fun t => ?_, fun t r hr => ?_, fun hon => Bool.noConfusion hon⟩, rfl⟩
      · cases t with
        | plannerSettings => exact List.pairwise_singleton _ _
        | _ => exact List.Pairwise.nil
      · cases t with
        | plannerSettings => trivial
        | _ => cases hr
    · intro d s hd hs
      cases s with
      | op call => exact sound_run hs hd
      | persist =>
          show Conn.Inv _ none (persist.discard d).2
          rw [discard_snd]
          have hdb : (persist d).2 = ⟨d.db, false, none⟩ := by
            show (⟨d.saved.getD d.db, false, none⟩ : Conn) = _
            rw [hd.2]
            rfl
          rw [hdb]
          exact ⟨⟨hd.1.distinct, hd.1.rows, fun hon => Bool.noConfusion hon⟩, rfl⟩
  exact hinv.1.rows

theorem maxTime_lt : Date.maxTime < 2 ^ 53 := by decide

/-- A sum of numbers whose sizes add up to at most the largest time is a
date. -/
theorem ofNum_add {a b : ℤ} {q : ℚ} (ha : |a| ≤ Date.maxTime - b) (hq : |q| ≤ b) :
    (Date.ofNum (Number.add (Number.ofInt a) (.fin q))).isSome = true := by
  have hsum : |(a : ℚ) + q| ≤ Date.maxTime := by
    have ha' : |(a : ℚ)| ≤ Date.maxTime - b := by
      rw [← Int.cast_abs]
      exact_mod_cast ha
    have := abs_add_le (a : ℚ) q
    linarith
  obtain ⟨x, hx, hxle⟩ := Number.toDouble_bounded hsum maxTime_lt
  show (Date.ofNum (Number.toDouble ((a : ℚ) + q))).isSome = true
  rw [hx]
  show (if |x| ≤ (Date.maxTime : ℚ) then some (Number.truncate x) else none).isSome = true
  rw [if_pos hxle]
  rfl

/-- With bounded windows and times, a charge has its dates. -/
theorem chargeFits_of_bounds {host : Host} {w now : ℤ} {characterId : String} {db : Db Row}
    {t : PlannerTemplate} (hnow : |now| ≤ Date.maxTime - w) (ht : t.type = .charge)
    (hwindow : WindowAtMost w t) (huses : ∀ u ∈ db .plannerChargeUse, UseWithin host w u) :
    ChargeFits host characterId now db t := by
  obtain ⟨q, hq, hqw⟩ := hwindow ht
  have hcutoff : (cutoffDate now (windowMs (t.rechargeHours.getD 0))).isSome = true := by
    rw [hq]
    exact ofNum_add hnow (by rwa [abs_neg])
  obtain ⟨k, hk⟩ := Option.isSome_iff_exists.mp hcutoff
  refine ⟨k, hk, fun first rest hfirst _ => ?_⟩
  have hmem : first ∈ db .plannerChargeUse := by
    have hin : first ∈ usesAfter characterId t.id (Date.isoString k) db := by
      rw [hfirst]
      exact List.mem_cons_self
    exact (List.mem_filter.mp ((orderBy_perm _ _).mem_iff.mp hin)).1
  obtain ⟨u, hu, hule⟩ := huses first hmem
  rw [rechargeDate, hu, hq]
  exact ofNum_add hule hqw

/-- An overview that the renderer accepts. -/
def OverviewShown (host : Host) (characterId : String) (nowIso : Option String) (now : ℤ) (c : Conn) :
    Prop :=
  ∃ o d, getPlannerOverview host characterId nowIso now c = (.ok o, d) ∧
    (Renderer.asOverview o.toJs).isSome = true

theorem overviewShown_of_fits {host : Host} {characterId : String} {nowIso : Option String}
    {now : ℤ} {c : Conn} (hcharacter : schema.hasKey c.db .appCharacter characterId)
    (hfits : ∀ t ∈ c.db .plannerTemplate, t.type = .charge →
      ChargeFits host characterId (resolveDate host nowIso now) c.db
        (schema.read .plannerTemplate t)) :
    OverviewShown host characterId nowIso now c := by
  obtain ⟨q, hq, hid⟩ := hcharacter
  obtain ⟨r, hr⟩ : ∃ r, (c.db .appCharacter).find? (fun q => q.id == characterId) = some r := by
    refine Option.isSome_iff_exists.mp (List.find?_isSome.mpr ⟨q, hq, ?_⟩)
    exact beq_iff_eq.mpr hid
  have hok : ∃ o, overviewOf host characterId (characterOf r) (resolveDate host nowIso now)
      (effectiveSettings now c.db (characterOf r).server) c.db = .ok o := by
    refine overviewOf_ok_iff.mpr fun t ht htype => ?_
    obtain ⟨q, hq, rfl⟩ := List.mem_map.mp ht
    exact hfits q (mem_assignedRows.mp hq).1 htype
  obtain ⟨o, ho⟩ := hok
  refine ⟨o, _, (getPlannerOverview_eq hr).trans (by rw [ho]), ?_⟩
  obtain ⟨-, -, hdaily, hweekly, -⟩ := overviewOf_eq_ok ho
  have hof : ∀ {done : List String} {type : PlannerTemplateType} {l : List PlannerTemplate},
      ∀ i ∈ (l.filter (·.type = type)).map (checklistItem done), i.type = type := by
    intro done type l i hi
    obtain ⟨t, ht, rfl⟩ := List.mem_map.mp hi
    exact of_decide_eq_true (List.mem_filter.mp ht).2
  rw [Renderer.asOverview_toJs (fun i hi => hof i (hdaily ▸ hi)) fun i hi => hof i (hweekly ▸ hi)]
  rfl

/-- **Bounded charges never break the overview.**  In every run that only
writes charges with windows up to `w` and uses at least `w` away from the ends
of the range of dates, every character has an overview at every time that far
from them. -/
theorem overview_of_safe_run {host : Host} {w installed : ℤ} {c : Conn}
    (h : Reaches host (fun _ s => PlannerStep host (WindowAtMost w) (UseWithin host w) s)
      (opened none installed) c) {characterId : String}
    (hcharacter : schema.hasKey c.db .appCharacter characterId) {nowIso : Option String} {now : ℤ}
    (hnow : |resolveDate host nowIso now| ≤ Date.maxTime - w) :
    OverviewShown host characterId nowIso now c := by
  have hrows := rows_of_run h
  exact overviewShown_of_fits hcharacter fun t ht htype =>
    chargeFits_of_bounds hnow htype (hrows .plannerTemplate t ht) (hrows .plannerChargeUse)

/-! ### Two short runs -/

theorem windowMs_ofInt {n : ℤ} (h₀ : 0 ≤ n) (h₁ : n * 3600000 ≤ 2 ^ 53) :
    windowMs (Number.ofInt n) = Number.ofInt (n * 3600000) := by
  have hmul : ∀ {a b : ℤ}, 0 ≤ a * b → a * b ≤ 2 ^ 53 →
      Number.mul (Number.ofInt a) (Number.ofInt b) = Number.ofInt (a * b) :=
    fun h₀ h₁ => Number.mul_ofInt (abs_le.mpr ⟨by omega, h₁⟩)
  have hval : n * 60 * 60 * 1000 = n * 3600000 := by omega
  show Number.mul (Number.mul (Number.mul (Number.ofInt n) (Number.ofInt 60)) (Number.ofInt 60))
    (Number.ofInt 1000) = _
  rw [hmul (by omega) (by omega), hmul (by omega) (by omega), hmul (by omega) (by omega), hval]

/-- A character with a daily charge, used once. -/
def withChargeUse : Conn :=
  ((Step.op (.useCharge "c1" "t1" none "u1" 3)).run (Host.iso (Zone.fixed 0))
    ((Step.op (.createPlannerTemplate ⟨"Raid", .charge, none, some 24, some 2⟩ templateDraw)).run
      (Host.iso (Zone.fixed 0)) withCharacter).2).2

theorem reaches_withChargeUse : Reaches (Host.iso (Zone.fixed 0)) (fun _ s =>
    PlannerStep (Host.iso (Zone.fixed 0)) (WindowAtMost 86400000)
      (UseWithin (Host.iso (Zone.fixed 0)) 86400000) s) (opened none 0) withChargeUse := by
  have hwindow : windowMs (Number.ofInt 24) = Number.ofInt (24 * 3600000) :=
    windowMs_ofInt (by decide) (by decide)
  refine .step (.step (.step .start ?_) ?_) ?_
  · exact trivial
  · exact fun minutes _ _ => ⟨_, hwindow, by norm_num⟩
  · have hparse : Date.parseIso (Date.isoString 3) = some 3 := Date.parseIso_isoString (by decide)
    exact ⟨3, hparse, by decide⟩

theorem overview_of_safe_run_daily :
    OverviewShown (Host.iso (Zone.fixed 0)) "c1" none 4 withChargeUse := by
  have hcharacter : schema.hasKey withChargeUse.db .appCharacter "c1" :=
    ⟨⟨"c1", "Kaisinel", none, none, stamp 1, stamp 1⟩, List.mem_cons_self, rfl⟩
  have hnow : |resolveDate (Host.iso (Zone.fixed 0)) none 4| ≤ Date.maxTime - 86400000 := by decide
  exact overview_of_safe_run reaches_withChargeUse hcharacter hnow

/-- One accepted template with 2402000000 recharge hours. -/
def withHugeCharge : Conn :=
  ((Step.op (.createPlannerTemplate ⟨"Raid", .charge, none, some 2402000000, some 2⟩
    templateDraw)).run (Host.iso (Zone.fixed 0)) withCharacter).2

/-- Not every run of the handlers keeps the overview: with a charge whose
window reaches back to before the first date there is none. -/
theorem exists_not_overviewShown : ∃ c,
    Reaches (Host.iso (Zone.fixed 0)) (fun _ s =>
      PlannerStep (Host.iso (Zone.fixed 0)) (fun _ => True) (fun _ => True) s) (opened none 0) c ∧
    schema.hasKey c.db .appCharacter "c1" ∧
    ¬ OverviewShown (Host.iso (Zone.fixed 0)) "c1" none 5 c := by
  have hfind : (withHugeCharge.db .appCharacter).find? (fun q => q.id == "c1") =
      some ⟨"c1", "Kaisinel", none, none, stamp 1, stamp 1⟩ := rfl
  have hwindow : windowMs (Number.ofInt 2402000000) = Number.ofInt (2402000000 * 3600000) :=
    windowMs_ofInt (by decide) (by decide)
  have hcutoff : cutoffDate 5 (windowMs (Number.ofInt 2402000000)) = none := by
    have hsub : Number.sub (Number.ofInt 5) (Number.ofInt (2402000000 * 3600000)) =
        Number.ofInt (5 - 2402000000 * 3600000) := Number.sub_ofInt (by decide)
    rw [cutoffDate, hwindow, hsub, Date.ofNum_ofInt]
    exact if_neg (by decide)
  refine ⟨withHugeCharge, ?_, ⟨_, List.mem_of_find?_eq_some hfind, rfl⟩, ?_⟩
  · exact .step (.step .start trivial) fun _ _ => trivial
  · rintro ⟨o, d, hrun, -⟩
    rw [getPlannerOverview_eq hfind] at hrun
    have hfits := overviewOf_ok_iff.mp ⟨o, congrArg Prod.fst hrun⟩
      (schema.read .plannerTemplate
        ⟨"t1", "Raid", .charge, 0, some 2402000000, some 2, stamp 2, stamp 2⟩)
      (List.mem_map_of_mem (mem_assignedRows.mpr
        ⟨List.mem_cons_self, _, List.mem_cons_self, rfl, rfl, rfl⟩)) rfl
    obtain ⟨k, hk, -⟩ := hfits
    have hnone : (none : Option ℤ) = some k := hcutoff.symm.trans hk
    cases hnone

end Hub
