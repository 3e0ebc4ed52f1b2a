/-
Aion2Hub/Planner/Overview.lean

`getPlannerOverview` of `domains/planner.ts`, and the renderer's `asOverview`
(`pages/planner/today/model.ts`), which checks what arrives.

An overview first resolves the time, the character and the settings; the rest
(`overviewOf`) only reads.  It throws where `toISOString` does, on a charge
whose window or next recharge is no valid date (`overviewOf_ok_iff`); what it
returns, the renderer always accepts (`asOverview_toJs`).
-/
import Aion2Hub.Planner.Period
import Aion2Hub.Planner.Settings

namespace Hub

open Sql Exec

/-! ### Items -/

structure PlannerChecklistItem where
  templateId : String
  title : String
  type : PlannerTemplateType
  estimateMinutes : Number
  completed : Bool

/-- The type of a charge item is always CHARGE. -/
structure PlannerChargeItem where
  templateId : String
  title : String
  rechargeHours : Number
  maxStacks : Number
  usedCountInWindow : ℕ
  available : Number
  nextRechargeAt : Option String

structure PlannerOverview where
  now : String
  dailyKey : String
  weeklyKey : String
  dailyResetHhmm : String
  weeklyResetDay : Number
  character : AppCharacter
  daily : List PlannerChecklistItem
  weekly : List PlannerChecklistItem
  charges : List PlannerChargeItem

/-- The join of assignments and templates: `a.character_id = $c AND
a.enabled = 1`. -/
def assignedRows (characterId : String) (db : Db Row) : List PlannerTemplate :=
  orderBy (asc (·.type.text) (asc (·.title) anyOrder))
    (((db .plannerAssignment).filter fun a => a.characterId == characterId && a.enabled).flatMap
      fun a => (db .plannerTemplate).filter fun t => t.id == a.templateId)

def assignedTemplates (characterId : String) (db : Db Row) : List PlannerTemplate :=
  (assignedRows characterId db).map (schema.read .plannerTemplate)

/-- The templates with a completion in the period. -/
def doneIn (characterId periodKey : String) (db : Db Row) : List String :=
  ((db .plannerCompletion).filter fun r =>
    r.characterId == characterId && r.periodKey == periodKey).map fun r => Text.cut r.templateId

def checklistItem (done : List String) (t : PlannerTemplate) : PlannerChecklistItem :=
  ⟨t.id, t.title, t.type, t.estimateMinutes, t.id ∈ done⟩

/-! ### Charges -/

/-- `rechargeHours * 60 * 60 * 1000`. -/
def windowMs (rechargeHours : Number) : Number :=
  Number.mul (Number.mul (Number.mul rechargeHours 60) 60) 1000

/-- `new Date(now.getTime() - windowMs)`. -/
def cutoffDate (now : ℤ) (window : Number) : Option ℤ :=
  Date.ofNum (Number.sub (Number.ofInt now) window)

/-- `d.getTime()`. -/
def getTime : Option ℤ → Number
  | some t => Number.ofInt t
  | none => .nan

/-- `new Date(new Date(usedAt).getTime() + windowMs)`. -/
def rechargeDate (host : Host) (usedAt : String) (window : Number) : Option ℤ :=
  Date.ofNum (Number.add (getTime (host.parseDate usedAt)) window)

/-- The uses after the cutoff, the oldest first. -/
def usesAfter (characterId templateId cutoff : String) (db : Db Row) : List PlannerChargeUse :=
  orderBy (asc (·.usedAt) anyOrder)
    ((db .plannerChargeUse).filter fun r =>
      isUseOf characterId templateId r && decide (cutoff < r.usedAt))

/-- `Math.max(0, maxStacks - used)`. -/
def availableStacks (maxStacks : Number) (used : ℕ) : Number :=
  Number.atLeast 0 (Number.sub maxStacks (Number.ofInt used))

/-- When the oldest use in the window runs out; null when no stack is
missing. -/
def nextRecharge (host : Host) (window maxStacks : Number) (uses : List PlannerChargeUse) :
    Except String (Option String) :=
  match uses with
  | [] => .ok none
  | first :: _ =>
      if Number.le maxStacks (availableStacks maxStacks uses.length) then .ok none
      else (Date.toISOString (rechargeDate host (Text.cut first.usedAt) window)).map some

def chargeItem (host : Host) (characterId : String) (now : ℤ) (db : Db Row) (t : PlannerTemplate) :
    Except String PlannerChargeItem := do
  let window := windowMs (t.rechargeHours.getD 0)
  let maxStacks := t.maxStacks.getD 0
  let cutoff ← Date.toISOString (cutoffDate now window)
  let uses := usesAfter characterId t.id cutoff db
  let nextRechargeAt ← nextRecharge host window maxStacks uses
  pure
    { templateId := t.id
      title := t.title
      rechargeHours := t.rechargeHours.getD 0
      maxStacks := maxStacks
      usedCountInWindow := uses.length
      available := availableStacks maxStacks uses.length
      nextRechargeAt := nextRechargeAt }

/-! ### The overview -/

/-- The three lists that the loop over the rows fills. -/
structure OverviewItems where
  daily : List PlannerChecklistItem
  weekly : List PlannerChecklistItem
  charges : List PlannerChargeItem

def overviewItems (doneDaily doneWeekly : List String)
    (charge : PlannerTemplate → Except String PlannerChargeItem) :
    List PlannerTemplate → OverviewItems → Except String OverviewItems
  | [], items => .ok items
  | t :: ts, items =>
      match t.type with
      | .daily => overviewItems doneDaily doneWeekly charge ts
          { items with daily := items.daily ++ [checklistItem doneDaily t] }
      | .weekly => overviewItems doneDaily doneWeekly charge ts
          { items with weekly := items.weekly ++ [checklistItem doneWeekly t] }
      | .charge => do
          let item ← charge t
          overviewItems doneDaily doneWeekly charge ts { items with charges := items.charges ++ [item] }

/-- What `getPlannerOverview` does once it knows the time, the character and
the settings. -/
def overviewOf (host : Host) (characterId : String) (character : AppCharacter) (time : ℤ)
    (settings : PlannerSettings) (db : Db Row) : Except String PlannerOverview := do
  let dailyKey := dailyPeriodKey host.zone time settings.dailyResetHhmm
  let weeklyKey := weeklyPeriodKey host.zone time settings.dailyResetHhmm settings.weeklyResetDay
  let items ← overviewItems (doneIn characterId dailyKey db) (doneIn characterId weeklyKey db)
    (chargeItem host characterId time db) (assignedTemplates characterId db) ⟨[], [], []⟩
  pure
    { now := stamp time
      dailyKey := dailyKey
      weeklyKey := weeklyKey
      dailyResetHhmm := settings.dailyResetHhmm
      weeklyResetDay := settings.weeklyResetDay
      character := character
      daily := items.daily
      weekly := items.weekly
      charges := items.charges }

def getPlannerOverview (host : Host) (characterId : String) (nowIso : Option String) (now : ℤ) :
    Prog PlannerOverview := do
  let time := resolveDate host nowIso now
  match ← getCharacter characterId with
  | none => Exec.throw "character_not_found"
  | some character =>
      let settings ← getPlannerSettingsEffective character.server now
      let db ← Exec.gets fun c => c.db
      Exec.ofExcept (overviewOf host characterId character time settings.1 db)

/-! ### What an overview is made of -/

section

variable {host : Host} {now time : ℤ} {db : Db Row} {characterId : String}
  {character : AppCharacter} {settings : PlannerSettings}

/-- The loop sorts the rows into the three lists and throws with the first
charge that throws. -/
theorem overviewItems_eq (doneDaily doneWeekly : List String)
    (charge : PlannerTemplate → Except String PlannerChargeItem) (ts : List PlannerTemplate)
    (items : OverviewItems) : overviewItems doneDaily doneWeekly charge ts items =
      ((ts.filter (·.type = .charge)).mapM charge).map fun charges =>
        ⟨items.daily ++ (ts.filter (·.type = .daily)).map (checklistItem doneDaily),
          items.weekly ++ (ts.filter (·.type = .weekly)).map (checklistItem doneWeekly),
          items.charges ++ charges⟩ := by
  induction ts generalizing items with
  | nil =>
      show Except.ok items = Except.ok (⟨items.daily ++ [], items.weekly ++ [], items.charges ++ []⟩)
      simp only [List.append_nil]
  | cons t ts ih =>
      unfold overviewItems
      cases htype : t.type with
      | daily =>
          dsimp only
          rw [ih]
          simp [htype]
      | weekly =>
          dsimp only
          rw [ih]
          simp [htype]
      | charge =>
          dsimp only
          have hfilter : (t :: ts).filter (·.type = .charge) = t :: ts.filter (·.type = .charge) :=
            List.filter_cons_of_pos (by simp [htype])
          rw [hfilter, List.mapM_cons]
          rcases charge t with e | item
          · rfl
          · show overviewItems _ _ _ _ _ = _
            rw [ih]
            rcases hm : (ts.filter (·.type = .charge)).mapM charge with e | charges
            · simp [bind, Except.bind, hm, Except.map]
            · simp [htype, Except.map, bind, Except.bind, pure, Except.pure, hm]

/-- Reading the settings first leaves the overview as it is. -/
theorem overviewOf_withDefaults : overviewOf host characterId character time settings (withDefaults db now) =
    overviewOf host characterId character time settings db := by
  have ht : ∀ t : Table, t ≠ .plannerSettings → withDefaults db now t = db t :=
    fun t h => withDefaults_of_ne h db now
  have hcharge : chargeItem host characterId time (withDefaults db now) =
      chargeItem host characterId time db := by
    funext t
    simp only [chargeItem, usesAfter, ht .plannerChargeUse (by decide)]
  simp only [overviewOf, hcharge, assignedTemplates, assignedRows, doneIn, ht .plannerCompletion (by decide),
    ht .plannerAssignment (by decide), ht .plannerTemplate (by decide)]

/-- An overview reads the tables as they are; only the default settings may
be stored. -/
theorem getPlannerOverview_eq {nowIso : Option String} {c : Conn}
    {r : AppCharacter} (hr : (c.db .appCharacter).find? (fun q => q.id == characterId) = some r) :
    getPlannerOverview host characterId nowIso now c =
      (overviewOf host characterId (characterOf r) (resolveDate host nowIso now)
        (effectiveSettings now c.db (characterOf r).server) c.db,
        { c with db := withDefaults c.db now }) := by
  obtain ⟨scope, hsettings⟩ := getPlannerSettingsEffective_eq (characterOf r).server now c
  have hcharacter := getCharacter_of_find hr
  refine (bind_of_ok hcharacter).trans ((bind_of_ok hsettings).trans ?_)
  refine (bind_of_ok rfl).trans ?_
  rw [ofExcept_apply]
  show (overviewOf _ _ _ _ _ (withDefaults c.db now), _) = _
  rw [overviewOf_withDefaults]

/-- The parts of an overview. -/
theorem overviewOf_eq_ok {o : PlannerOverview}
    (h : overviewOf host characterId character time settings db = .ok o) :
    o.dailyKey = dailyPeriodKey host.zone time settings.dailyResetHhmm ∧
      o.weeklyKey =
        weeklyPeriodKey host.zone time settings.dailyResetHhmm settings.weeklyResetDay ∧
      o.daily = ((assignedTemplates characterId db).filter (·.type = .daily)).map
        (checklistItem (doneIn characterId o.dailyKey db)) ∧
      o.weekly = ((assignedTemplates characterId db).filter (·.type = .weekly)).map
        (checklistItem (doneIn characterId o.weeklyKey db)) ∧
      ((assignedTemplates characterId db).filter (·.type = .charge)).mapM
        (chargeItem host characterId time db) = .ok o.charges := by
  unfold overviewOf at h
  simp only [overviewItems_eq] at h
  rcases hc : ((assignedTemplates characterId db).filter (·.type = .charge)).mapM
      (chargeItem host characterId time db) with e | charges
  · rw [hc] at h
    cases h
  · rw [hc] at h
    cases h
    exact ⟨rfl, rfl, rfl, rfl, hc⟩

/-- Without an overview, the first charge that throws says why. -/
theorem overviewOf_eq_error {e : String}
    (h : overviewOf host characterId character time settings db = .error e) :
    ((assignedTemplates characterId db).filter (·.type = .charge)).mapM
      (chargeItem host characterId time db) = .error e := by
  unfold overviewOf at h
  simp only [overviewItems_eq] at h
  rcases hc : ((assignedTemplates characterId db).filter (·.type = .charge)).mapM
      (chargeItem host characterId time db) with e' | charges
  · rw [hc] at h
    cases h
    exact hc
  · rw [hc] at h
    cases h

theorem mem_assignedRows {t : PlannerTemplate} :
    t ∈ assignedRows characterId db ↔ t ∈ db .plannerTemplate ∧
      ∃ a ∈ db .plannerAssignment, a.characterId = characterId ∧ a.enabled = true ∧
        a.templateId = t.id := by
  unfold assignedRows
  rw [(orderBy_perm _ _).mem_iff]
  simp only [List.mem_flatMap, List.mem_filter, Bool.and_eq_true, beq_iff_eq]
  constructor
  · rintro ⟨a, ⟨ha, hchar, hen⟩, ht, hid⟩
    exact ⟨ht, a, ha, hchar, hen, hid.symm⟩
  · rintro ⟨ht, a, ha, hchar, hen, hid⟩
    exact ⟨a, ⟨ha, hchar, hen⟩, ht, hid.symm⟩

/-! ### When there is an overview -/

/-- A list goes through when each of its elements does. -/
theorem exists_mapM_ok {α β : Type} {f : α → Except String β} {l : List α} :
    (∃ bs, l.mapM f = .ok bs) ↔ ∀ a ∈ l, ∃ b, f a = .ok b := by
  induction l with
  | nil => exact iff_of_true ⟨[], rfl⟩ fun a ha => absurd ha List.not_mem_nil
  | cons a l ih =>
      rw [List.forall_mem_cons, ← ih, List.mapM_cons]
      rcases hf : f a with e | b
      · simp [bind, Except.bind]
      · rcases hm : l.mapM f with e | bs
        · simp [bind, Except.bind]
        · simp [bind, Except.bind, pure, Except.pure]

/-- What comes out belongs element by element to what went in. -/
theorem forall₂_of_mapM_ok {α β : Type} {f : α → Except String β} {l : List α} {bs : List β}
    (h : l.mapM f = .ok bs) : List.Forall₂ (fun a b => f a = .ok b) l bs := by
  induction l generalizing bs with
  | nil =>
      cases h
      exact .nil
  | cons a l ih =>
      rw [List.mapM_cons] at h
      rcases hf : f a with e | b
      · rw [hf] at h
        cases h
      · rcases hm : l.mapM f with e | rest
        · rw [hf, hm] at h
          cases h
        · rw [hf, hm] at h
          cases h
          exact .cons hf (ih hm)

/-- The cutoff of the charge is a date, and so is its next recharge if a
stack is missing. -/
def ChargeFits (host : Host) (characterId : String) (now : ℤ) (db : Db Row) (t : PlannerTemplate) :
    Prop :=
  ∃ k, cutoffDate now (windowMs (t.rechargeHours.getD 0)) = some k ∧
    ∀ first rest, usesAfter characterId t.id (Date.isoString k) db = first :: rest →
      Number.le (t.maxStacks.getD 0)
        (availableStacks (t.maxStacks.getD 0) (first :: rest).length) = false →
      (rechargeDate host (Text.cut first.usedAt) (windowMs (t.rechargeHours.getD 0))).isSome = true

theorem nextRecharge_ok_iff {window maxStacks : Number} {uses : List PlannerChargeUse} :
    (∃ next, nextRecharge host window maxStacks uses = .ok next) ↔
      ∀ first rest, uses = first :: rest →
        Number.le maxStacks (availableStacks maxStacks (first :: rest).length) = false →
        (rechargeDate host (Text.cut first.usedAt) window).isSome = true := by
  cases uses with
  | nil => exact iff_of_true ⟨none, rfl⟩ fun first rest h => absurd h (List.cons_ne_nil _ _).symm
  | cons first rest =>
      unfold nextRecharge
      dsimp only
      rcases hle : Number.le maxStacks (availableStacks maxStacks (first :: rest).length) with - | -
      · rw [if_neg (by simp)]
        rcases hd : rechargeDate host (Text.cut first.usedAt) window with _ | t
        · refine iff_of_false (fun ⟨next, h⟩ => by cases h) fun h => ?_
          have := h first rest rfl hle
          rw [hd] at this
          cases this
        · refine iff_of_true ⟨_, rfl⟩ fun first' rest' heq _ => ?_
          cases heq
          rw [hd]
          rfl
      · rw [if_pos rfl]
        refine iff_of_true ⟨none, rfl⟩ fun first' rest' heq hfalse => ?_
        cases heq
        rw [hle] at hfalse
        cases hfalse

theorem chargeItem_ok_iff {t : PlannerTemplate} :
    (∃ item, chargeItem host characterId now db t = .ok item) ↔
      ChargeFits host characterId now db t := by
  unfold chargeItem ChargeFits
  dsimp only
  rcases hk : cutoffDate now (windowMs (t.rechargeHours.getD 0)) with _ | k
  · refine iff_of_false (fun ⟨item, h⟩ => by cases h) fun ⟨k, h, _⟩ => by cases h
  · have hiff := @nextRecharge_ok_iff host (windowMs (t.rechargeHours.getD 0)) (t.maxStacks.getD 0)
      (usesAfter characterId t.id (Date.isoString k) db)
    simp only [Option.some.injEq, exists_eq_left']
    rw [← hiff]
    dsimp only [Date.toISOString, bind, Except.bind]
    rcases nextRecharge host (windowMs (t.rechargeHours.getD 0)) (t.maxStacks.getD 0)
        (usesAfter characterId t.id (Date.isoString k) db) with e | next
    · exact iff_of_false (fun ⟨item, h⟩ => by cases h) fun ⟨next, h⟩ => by cases h
    · exact iff_of_true ⟨_, rfl⟩ ⟨next, rfl⟩

/-- **There is an overview exactly when every charge that it lists has its
dates.** -/
theorem overviewOf_ok_iff : (∃ o, overviewOf host characterId character time settings db = .ok o) ↔
    ∀ t ∈ assignedTemplates characterId db, t.type = .charge →
      ChargeFits host characterId time db t := by
  have hitems : (∃ o, overviewOf host characterId character time settings db = .ok o) ↔
      ∃ charges, ((assignedTemplates characterId db).filter (·.type = .charge)).mapM
        (chargeItem host characterId time db) = .ok charges := by
    unfold overviewOf
    simp only [overviewItems_eq]
    rcases hc : ((assignedTemplates characterId db).filter (·.type = .charge)).mapM
        (chargeItem host characterId time db) with e | charges
    · rw [hc]
      exact iff_of_false (fun ⟨o, h⟩ => by cases h) fun ⟨charges, h⟩ => by cases h
    · rw [hc]
      exact iff_of_true ⟨_, rfl⟩ ⟨charges, rfl⟩
  rw [hitems, exists_mapM_ok]
  simp only [List.mem_filter, chargeItem_ok_iff, decide_eq_true_eq, and_imp]

/-- Without charges there is an overview. -/
theorem exists_overview {c : Conn} {r : AppCharacter} (nowIso : Option String)
    (hr : (c.db .appCharacter).find? (fun q => q.id == characterId) = some r)
    (hcharges : ∀ t ∈ assignedTemplates characterId c.db, t.type ≠ .charge) :
    ∃ o, (getPlannerOverview host characterId nowIso now c).1 = .ok o := by
  rw [getPlannerOverview_eq hr]
  exact overviewOf_ok_iff.mpr fun t ht htype => absurd htype (hcharges t ht)

/-- The weekly key of an overview is that of the resets that apply. -/
theorem weeklyKey_of_overview {nowIso : Option String} {c : Conn}
    {r : AppCharacter} {o : PlannerOverview}
    (hr : (c.db .appCharacter).find? (fun q => q.id == characterId) = some r)
    (ho : (getPlannerOverview host characterId nowIso now c).1 = .ok o) :
    o.weeklyKey = weeklyPeriodKey host.zone (resolveDate host nowIso now)
      (effectiveResets c.db (characterOf r).server).1
      (effectiveResets c.db (characterOf r).server).2 := by
  rw [getPlannerOverview_eq hr] at ho
  obtain ⟨-, hweekly, -⟩ := overviewOf_eq_ok ho
  obtain ⟨hhmm, hday⟩ := PlannerSettings.eq_resets
    (effectiveSettings_resets now c.db (characterOf r).server)
  rw [hweekly, hhmm, hday]

end

end Hub
