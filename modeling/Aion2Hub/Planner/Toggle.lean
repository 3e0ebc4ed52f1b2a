/-
Aion2Hub/Planner/Toggle.lean

Completing a task (`planner:toggleComplete`), and how long it stays completed.

A completion is stored for a period key, which the main process makes from
the local calendar; the page shows the next reset, which the renderer
computes.  Both cut the time line into the same windows, so what is toggled
stays completed until the reset that is shown.  After that the key of the
next period counts, and a completion that is already stored for it is shown
at once.
-/
import Aion2Hub.Planner.Overview
import Aion2Hub.Planner.Preset

namespace Hub

open Sql Exec Date

/-! ### The handler -/

inductive PlannerPeriod where
  | daily
  | weekly
  deriving DecidableEq

def PlannerPeriod.ofText : String → Option PlannerPeriod
  | "DAILY" => some .daily
  | "WEEKLY" => some .weekly
  | _ => none

/-- The templates that are completed in the period. -/
def PlannerPeriod.type : PlannerPeriod → PlannerTemplateType
  | .daily => .daily
  | .weekly => .weekly

/-- `period === "DAILY" ? dailyPeriodKey(…) : weeklyPeriodKey(…)`. -/
def periodKey (z : Zone) (period : PlannerPeriod) (now : ℤ) (resets : String × Number) : String :=
  match period with
  | .daily => dailyPeriodKey z now resets.1
  | .weekly => weeklyPeriodKey z now resets.1 resets.2

structure ToggleInput where
  characterId : String
  templateId : String
  period : PlannerPeriod
  completed : Bool
  nowIso : Option String

/-- The completion that a request sets, for a character with these resets. -/
def completionInput (host : Host) (i : ToggleInput) (now : ℤ) (resets : String × Number) :
    CompletionInput where
  characterId := i.characterId
  templateId := i.templateId
  periodKey := periodKey host.zone i.period (resolveDate host i.nowIso now) resets
  completed := i.completed
  atIso := some (stamp (resolveDate host i.nowIso now))

/-- The last part of the handler. -/
def setAndShow (host : Host) (input : CompletionInput) (id : String) (now : ℤ) :
    Prog PlannerOverview := do
  setPlannerCompletion host input id now
  let _ ← persist
  getPlannerOverview host input.characterId none now

/-- What the handler does with a request that it understands. -/
def toggle (host : Host) (i : ToggleInput) (id : String) (now : ℤ) : Prog PlannerOverview := do
  match ← getCharacter i.characterId with
  | none => Exec.throw "no_character"
  | some character =>
      let settings ← getPlannerSettingsEffective character.server now
      setAndShow host (completionInput host i now settings.1.resets) id now

/-- The character of a request, or the active one. -/
def resolveCharacterId (obj : Js) : Prog (Option String) :=
  match text obj "characterId" with
  | some id => pure (some id)
  | none => getActiveCharacterId

/-- The request of `planner:toggleComplete`, once the character is known. -/
def toggleInput (obj : Js) (characterId : Option String) : Except String ToggleInput :=
  match nonEmpty characterId with
  | none => .error "no_character"
  | some characterId =>
      match nonEmpty (text obj "templateId"), (text obj "period").bind PlannerPeriod.ofText with
      | some templateId, some period =>
          .ok ⟨characterId, templateId, period, Js.truthy (obj.get "completed"), text obj "nowIso"⟩
      | _, _ => .error "bad_request"

/-- `planner:toggleComplete`. -/
def toggleComplete (host : Host) (input : Option Js) (id : String) (now : ℤ) :
    Prog PlannerOverview := do
  let obj := Js.asRecord input
  let characterId ← resolveCharacterId obj
  let i ← Exec.ofExcept (toggleInput obj characterId)
  toggle host i id now

/-! ### What is stored -/

/-- The completion of a template by a character in a period is stored. -/
def Done (db : Db Row) (characterId templateId key : String) : Prop :=
  ∃ r ∈ db .plannerCompletion, r.characterId = characterId ∧ r.templateId = templateId ∧
    r.periodKey = key

section

variable {host : Host} {i : ToggleInput} {id : String} {now : ℤ} {c d : Conn} {db : Db Row}


/-- The triple of a completion. -/
def IsFor (input : CompletionInput) (a b k : String) : Prop :=
  a = input.characterId ∧ b = input.templateId ∧ k = input.periodKey

/-- Inserting a completion stores no other; under a new id it stores this
one. -/
theorem done_insert {input : CompletionInput} {at_ : String} {u : Unit}
    (h : schema.insert .ignore .plannerCompletion
      ⟨id, input.characterId, input.templateId, input.periodKey, at_⟩ c = (.ok u, d))
    (a b k : String) :
    (Done c.db a b k → Done d.db a b k) ∧ (Done d.db a b k → Done c.db a b k ∨ IsFor input a b k) ∧
      ((∀ r ∈ c.db .plannerCompletion, r.id ≠ id) → IsFor input a b k → Done d.db a b k) := by
  obtain rfl := insert_ignore_ok h
  have hrows : ∀ r, r ∈ (c.db.set .plannerCompletion (schema.absorbRow .plannerCompletion
      (c.db .plannerCompletion) ⟨id, input.characterId, input.templateId, input.periodKey, at_⟩))
        .plannerCompletion ↔ r ∈ schema.absorbRow .plannerCompletion (c.db .plannerCompletion)
          ⟨id, input.characterId, input.templateId, input.periodKey, at_⟩ := by
    intro r
    rw [Db.set_self]
  refine ⟨fun ⟨r, hr, hfor⟩ => ⟨r, (hrows r).mpr (subset_absorbRow hr), hfor⟩, ?_, ?_⟩
  · rintro ⟨r, hr, rfl, rfl, rfl⟩
    have hr := (hrows r).mp hr
    unfold Schema.absorbRow at hr
    split at hr
    · exact .inl ⟨r, hr, rfl, rfl, rfl⟩
    · rcases List.mem_append.mp hr with hr | hr
      · exact .inl ⟨r, hr, rfl, rfl, rfl⟩
      · obtain rfl := List.mem_singleton.mp hr
        exact .inr ⟨rfl, rfl, rfl⟩
  · rintro hid ⟨rfl, rfl, rfl⟩
    unfold Done
    simp only [hrows]
    unfold Schema.absorbRow
    split
    · -- it is there already: the id is new, so the conflict is the triple
      rename_i hany
      obtain ⟨q, hq, hqc⟩ := List.any_eq_true.mp hany
      rcases conflicts_iff.mp hqc with hkey | ⟨w, hw, heq⟩
      · exact absurd hkey.symm (hid q hq)
      · obtain rfl := List.mem_singleton.mp hw
        have heq : [input.characterId, input.templateId, input.periodKey] =
            [q.characterId, q.templateId, q.periodKey] := heq
        simp only [List.cons.injEq, and_true] at heq
        exact ⟨q, hq, heq.1.symm, heq.2.1.symm, heq.2.2.symm⟩
    · exact ⟨_, List.mem_append_right _ List.mem_cons_self, rfl, rfl, rfl⟩

/-- Nothing refers to completions. -/
theorem closed_completion : schema.Closed (· ≠ .plannerCompletion) := by
  intro t _ fk hfk heq
  have hparents : ∀ t, ∀ p ∈ (foreignKeys t).map (·.parent), p ≠ .plannerCompletion := by
    intro t
    cases t <;> decide
  exact hparents t fk.parent (List.mem_map_of_mem hfk) heq

theorem done_delete {input : CompletionInput} (hd : schema.Distinct db) {enforced : Bool}
    (a b k : String) :
    Done (schema.deleteDb enforced db .plannerCompletion fun r =>
        r.characterId == input.characterId && r.templateId == input.templateId &&
          r.periodKey == input.periodKey) a b k ↔ Done db a b k ∧ ¬ IsFor input a b k := by
  unfold Done
  simp only [mem_deleteDb_leaf closed_completion (hd .plannerCompletion)]
  constructor
  · rintro ⟨r, ⟨hr, hnot⟩, rfl, rfl, rfl⟩
    refine ⟨⟨r, hr, rfl, rfl, rfl⟩, ?_⟩
    rintro ⟨h₁, h₂, h₃⟩
    rw [h₁, h₂, h₃] at hnot
    simp at hnot
  · rintro ⟨⟨r, hr, rfl, rfl, rfl⟩, hnot⟩
    refine ⟨r, ⟨hr, Bool.eq_false_iff.mpr fun h => hnot ?_⟩, rfl, rfl, rfl⟩
    simp only [Bool.and_eq_true, beq_iff_eq] at h
    exact ⟨h.1.1, h.1.2, h.2⟩

/-- What a request to store or remove a completion can do: the other tables
stay, and so do the completions of other triples. -/
structure CompletionSet (input : CompletionInput) (c d : Conn) : Prop where
  saved : d.saved = c.saved
  distinct : schema.Distinct d.db
  frame : ∀ t ≠ .plannerCompletion, d.db t = c.db t
  others : ∀ a b k, ¬ IsFor input a b k → (Done d.db a b k ↔ Done c.db a b k)

theorem completionSet_setPlannerCompletion {input : CompletionInput} (hd : schema.Distinct c.db) :
    CompletionSet input c (setPlannerCompletion host input id now c).2 := by
  unfold setPlannerCompletion
  split
  · let row : PlannerCompletion := ⟨id, input.characterId, input.templateId, input.periodKey,
      stamp (resolveDate host input.atIso now)⟩
    show CompletionSet input c (schema.insert .ignore .plannerCompletion row c).2
    rcases hrun : schema.insert .ignore .plannerCompletion row c with ⟨e | u, d⟩
    · have hsame : d = c := by
        unfold Schema.insert at hrun
        split at hrun <;> cases hrun
        rfl
      rw [hsame]
      exact ⟨rfl, hd, fun _ _ => rfl, fun _ _ _ _ => Iff.rfl⟩
    · have hdone := done_insert hrun
      obtain rfl := insert_ignore_ok hrun
      refine ⟨rfl, fun t => ?_, fun t ht => Db.set_of_ne _ ht _, fun a b k hne => ?_⟩
      · by_cases ht : t = .plannerCompletion
        · subst ht
          show schema.DistinctRows _ (c.db.set .plannerCompletion _ .plannerCompletion)
          rw [Db.set_self]
          have habsorb : schema.DistinctRows .plannerCompletion
              (schema.absorb .plannerCompletion (c.db .plannerCompletion) [row]) :=
            distinctRows_absorb (hd .plannerCompletion)
          exact habsorb
        · show schema.DistinctRows _ (c.db.set .plannerCompletion _ t)
          rw [Db.set_of_ne _ ht]
          exact hd t
      · obtain ⟨hkept, hnew, -⟩ := hdone a b k
        exact ⟨fun h => (hnew h).resolve_right hne, hkept⟩
  · refine ⟨rfl, distinct_deleteDb hd, fun t ht => ?_, fun a b k hne => ?_⟩
    · exact deleteDb_frame closed_completion (fun h => h rfl) ht
    · refine (done_delete hd a b k).trans ⟨And.left, fun h => ⟨h, hne⟩⟩

/-- With parents that are there and a new id, the triple is stored or removed
as requested. -/
theorem done_setPlannerCompletion (host : Host) (now : ℤ) {input : CompletionInput} (hd : schema.Distinct c.db)
    (hparents : c.foreignKeys = true → schema.hasKey c.db .appCharacter input.characterId ∧
      schema.hasKey c.db .plannerTemplate input.templateId)
    (hid : ∀ r ∈ c.db .plannerCompletion, r.id ≠ id) {a b k : String} (hfor : IsFor input a b k) :
    ∃ e, setPlannerCompletion host input id now c = (.ok (), e) ∧
      (Done e.db a b k ↔ input.completed = true) := by
  unfold setPlannerCompletion
  split
  · rename_i hcompleted
    have hp : c.foreignKeys = true → schema.parentsExist c.db .plannerCompletion
        ⟨id, input.characterId, input.templateId, input.periodKey,
          stamp (resolveDate host input.atIso now)⟩ := by
      intro hon fk hfk k hk
      rcases List.mem_pair.mp hfk with rfl | rfl
      · cases hk
        exact (hparents hon).1
      · cases hk
        exact (hparents hon).2
    have hrun := insert_ignore hp
    exact ⟨_, hrun, iff_of_true ((done_insert hrun a b k).2.2 hid hfor) hcompleted⟩
  · rename_i hcompleted
    refine ⟨_, rfl, iff_of_false (fun h => ?_) hcompleted⟩
    exact ((done_delete hd a b k).mp h).2 hfor

theorem distinct_withDefaults (hd : schema.Distinct db) (now : ℤ) :
    schema.Distinct (withDefaults db now) := by
  intro t
  rw [withDefaults]
  split
  · exact hd t
  · rename_i hany
    by_cases ht : t = .plannerSettings
    · subst ht
      rw [Db.set_self]
      exact distinctRows_append (hd _) hany
    · rw [Db.set_of_ne _ ht]
      exact hd t

variable (host id now) in
/-- A completion is set, and then at most the default settings are stored. -/
theorem setAndShow_db {input : CompletionInput} {r : AppCharacter}
    (hr : (c.db .appCharacter).find? (fun q => q.id == input.characterId) = some r)
    (hsaved : c.saved = none) (hd : schema.Distinct c.db) :
    let s := setPlannerCompletion host input id now c
    (∃ e, s = (.error e, (setAndShow host input id now c).2)) ∨
      s.1 = .ok () ∧ (setAndShow host input id now c).2.db = withDefaults s.2.db now ∧
        (setAndShow host input id now c).2.saved = none := by
  intro s
  have hset : CompletionSet input c s.2 := completionSet_setPlannerCompletion hd
  rcases hs : setPlannerCompletion host input id now c with ⟨e | u, d⟩
  · refine .inl ⟨e, ?_⟩
    rw [setAndShow, bind_of_error hs]
    exact hs
  · have hsd : s = (.ok (), d) := hs
    rw [hsd] at hset ⊢
    have hpersist : persist d = (.ok d.db, ⟨d.db, false, none⟩) := by
      show (Except.ok (d.saved.getD d.db), (⟨d.saved.getD d.db, false, none⟩ : Conn)) = _
      rw [hset.saved, hsaved]
      rfl
    let d₁ : Conn := ⟨d.db, false, none⟩
    have hfind : (d₁.db .appCharacter).find? (fun q => q.id == input.characterId) = some r := by
      show (d.db .appCharacter).find? _ = _
      rw [hset.frame .appCharacter (by decide)]
      exact hr
    have hlast : setAndShow host input id now c =
        getPlannerOverview host input.characterId none now d₁ :=
      (bind_of_ok hs).trans (bind_of_ok hpersist)
    rw [hlast, getPlannerOverview_eq hfind]
    exact .inr ⟨rfl, rfl, rfl⟩

/-- What requests do to the rows: the other tables and the resets stay, and so
do the completions of the triples that they are not for. -/
structure Toggled (other : String → String → String → Prop) (c d : Conn) : Prop where
  saved : d.saved = none
  distinct : schema.Distinct d.db
  frame : ∀ t ≠ .plannerCompletion, t ≠ .plannerSettings → d.db t = c.db t
  resets : ∀ server, effectiveResets d.db server = effectiveResets c.db server
  others : ∀ a b k, other a b k → (Done d.db a b k ↔ Done c.db a b k)

theorem Toggled.refl {other : String → String → String → Prop} (hsaved : c.saved = none)
    (hd : schema.Distinct c.db) : Toggled other c c :=
  ⟨hsaved, hd, fun _ _ _ => rfl, fun _ => rfl, fun _ _ _ _ => Iff.rfl⟩

theorem Toggled.trans {other other' : String → String → String → Prop} {e : Conn}
    (h : Toggled other c d) (h' : Toggled other' d e) :
    Toggled (fun a b k => other a b k ∧ other' a b k) c e where
  saved := h'.saved
  distinct := h'.distinct
  frame t ht ht' := (h'.frame t ht ht').trans (h.frame t ht ht')
  resets server := (h'.resets server).trans (h.resets server)
  others a b k hne := (h'.others a b k hne.2).trans (h.others a b k hne.1)

theorem Toggled.mono {other other' : String → String → String → Prop} (h : Toggled other c d)
    (hle : ∀ a b k, other' a b k → other a b k) : Toggled other' c d :=
  { h with others := fun a b k hne => h.others a b k (hle a b k hne) }

theorem done_congr {db db' : Db Row} (h : db .plannerCompletion = db' .plannerCompletion)
    (a b k : String) : Done db a b k ↔ Done db' a b k := by
  rw [Done, Done, h]

theorem effectiveResets_congr {db db' : Db Row} (h : db .plannerSettings = db' .plannerSettings)
    (server : Option String) : effectiveResets db server = effectiveResets db' server := by
  rw [effectiveResets, effectiveResets, h]

/-- A request of a character that is not there does nothing. -/
theorem toggle_none (hr : (c.db .appCharacter).find? (fun q => q.id == i.characterId) = none) :
    (toggle host i id now c).2 = c := by
  rw [toggle, bind_of_ok (getCharacter_of_none hr)]
  rfl

/-- The request is for the period that its character is in. -/
theorem toggle_some {r : AppCharacter}
    (hr : (c.db .appCharacter).find? (fun q => q.id == i.characterId) = some r) :
    toggle host i id now c = setAndShow host
      (completionInput host i now (effectiveResets c.db (characterOf r).server)) id now
      { c with db := withDefaults c.db now } := by
  obtain ⟨scope, hsettings⟩ := getPlannerSettingsEffective_eq (characterOf r).server now c
  rw [← effectiveSettings_resets now, toggle, bind_of_ok (getCharacter_of_find hr)]
  show (getPlannerSettingsEffective (characterOf r).server now >>= fun settings =>
    setAndShow host (completionInput host i now settings.1.resets) id now) c = _
  rw [bind_of_ok hsettings]

theorem toggled_toggle {r : AppCharacter}
    (hr : (c.db .appCharacter).find? (fun q => q.id == i.characterId) = some r)
    (hsaved : c.saved = none) (hd : schema.Distinct c.db) :
    Toggled (fun a b k => ¬ IsFor (completionInput host i now
      (effectiveResets c.db (characterOf r).server)) a b k) c (toggle host i id now c).2 := by
  rw [toggle_some hr]
  let input := completionInput host i now (effectiveResets c.db (characterOf r).server)
  let c₁ : Conn := { c with db := withDefaults c.db now }
  have hr₁ : (c₁.db .appCharacter).find? (fun q => q.id == input.characterId) = some r := by
    show (withDefaults c.db now .appCharacter).find? _ = _
    rw [withDefaults_of_ne (by decide)]
    exact hr
  have hd₁ : schema.Distinct c₁.db := distinct_withDefaults hd now
  have hset : CompletionSet input c₁ (setPlannerCompletion host input id now c₁).2 :=
    completionSet_setPlannerCompletion hd₁
  have hresets₁ : ∀ server, effectiveResets (setPlannerCompletion host input id now c₁).2.db server =
      effectiveResets c.db server := fun server => by
    rw [effectiveResets_congr (hset.frame .plannerSettings (by decide))]
    exact effectiveResets_withDefaults c.db now server
  have hframe₁ : ∀ t ≠ .plannerCompletion, t ≠ .plannerSettings →
      (setPlannerCompletion host input id now c₁).2.db t = c.db t := fun t ht ht' => by
    rw [hset.frame t ht]
    exact withDefaults_of_ne ht' c.db now
  have hothers₁ : ∀ a b k, ¬ IsFor input a b k →
      (Done (setPlannerCompletion host input id now c₁).2.db a b k ↔ Done c.db a b k) :=
    fun a b k hne => (hset.others a b k hne).trans
      (done_congr (withDefaults_of_ne (by decide) c.db now) a b k)
  rcases setAndShow_db host id now hr₁ hsaved hd₁ with
    ⟨e, hs⟩ | ⟨-, hdb, hsaved'⟩
  · rw [hs] at hset hresets₁ hframe₁ hothers₁
    exact ⟨hset.saved.trans hsaved, hset.distinct, hframe₁, hresets₁, hothers₁⟩
  · refine ⟨hsaved', ?_, fun t ht ht' => ?_, fun server => ?_, fun a b k hne => ?_⟩
    · rw [hdb]
      exact distinct_withDefaults hset.distinct now
    · rw [hdb, withDefaults_of_ne ht']
      exact hframe₁ t ht ht'
    · rw [hdb, effectiveResets_withDefaults]
      exact hresets₁ server
    · rw [hdb, done_congr (withDefaults_of_ne (by decide) _ _)]
      exact hothers₁ a b k hne

/-- A request for a template that is there, under a new id, has its effect. -/
theorem done_toggle {r : AppCharacter}
    (hr : (c.db .appCharacter).find? (fun q => q.id == i.characterId) = some r)
    (ht : schema.hasKey c.db .plannerTemplate i.templateId)
    (hsaved : c.saved = none) (hd : schema.Distinct c.db)
    (hid : ∀ q ∈ c.db .plannerCompletion, q.id ≠ id) :
    Done (toggle host i id now c).2.db i.characterId i.templateId (periodKey host.zone i.period
      (resolveDate host i.nowIso now) (effectiveResets c.db (characterOf r).server)) ↔
      i.completed = true := by
  rw [toggle_some hr]
  let input := completionInput host i now (effectiveResets c.db (characterOf r).server)
  let c₁ : Conn := { c with db := withDefaults c.db now }
  have hsame : ∀ t ≠ .plannerSettings, c₁.db t = c.db t := fun t h => withDefaults_of_ne h c.db now
  have hr₁ : (c₁.db .appCharacter).find? (fun q => q.id == input.characterId) = some r := by
    rw [hsame _ (by decide)]
    exact hr
  have hd₁ : schema.Distinct c₁.db := distinct_withDefaults hd now
  have hparents : schema.hasKey c₁.db .appCharacter input.characterId ∧
      schema.hasKey c₁.db .plannerTemplate input.templateId := by
    refine ⟨⟨r, List.mem_of_find?_eq_some hr₁, ?_⟩, ?_⟩
    · have := List.find?_some hr₁
      exact beq_iff_eq.mp this
    · obtain ⟨q, hq, hqid⟩ := ht
      exact ⟨q, by rwa [hsame _ (by decide)], hqid⟩
  have hid₁ : ∀ q ∈ c₁.db .plannerCompletion, q.id ≠ id := by
    rw [hsame _ (by decide)]
    exact hid
  have hfor : IsFor input input.characterId input.templateId input.periodKey := ⟨rfl, rfl, rfl⟩
  obtain ⟨e, he, hdone⟩ :=
    done_setPlannerCompletion host now hd₁ (fun _ => hparents) hid₁ hfor
  rcases setAndShow_db host id now hr₁ hsaved hd₁ with
    ⟨e', hs⟩ | ⟨-, hdb, -⟩
  · cases he.symm.trans hs
  · show Done (setAndShow host input id now c₁).2.db _ _ _ ↔ input.completed = true
    rw [hdb, done_congr (withDefaults_of_ne (by decide) _ _), he]
    exact hdone

end

/-! ### What the overview shows -/

/-- The completed flag of a template in an overview. -/
def completedIn (o : PlannerOverview) (templateId : String) : Option Bool :=
  ((o.daily ++ o.weekly).find? (·.templateId == templateId)).map (·.completed)

/-- The flag that the overview at the time shows. -/
def completedAt (host : Host) (characterId templateId : String) (now : ℤ) (c : Conn) :
    Except String (Option Bool) :=
  ((getPlannerOverview host characterId none now c).1).map (completedIn · templateId)

/-- The ids of the templates, and those under which tasks are completed, are read
as they are stored. -/
structure PlainTasks (db : Db Row) : Prop where
  templates : ∀ t ∈ db .plannerTemplate, Text.Plain t.id
  completions : ∀ a b k, Done db a b k → Text.Plain b

/-- The flag of a template, from the rows and the keys of the two periods. -/
def flagFor (characterId templateId dailyKey weeklyKey : String) (db : Db Row) : Option Bool :=
  let found := fun type => ((assignedTemplates characterId db).filter (·.type = type)).find?
    (·.id == templateId)
  ((found .daily).map fun _ => decide (templateId ∈ doneIn characterId dailyKey db)).or
    ((found .weekly).map fun _ => decide (templateId ∈ doneIn characterId weeklyKey db))

section

variable {host : Host} {i : ToggleInput} {id characterId templateId : String} {now : ℤ}
  {c d : Conn} {db : Db Row}

theorem mem_doneIn {key : String} : templateId ∈ doneIn characterId key db ↔
    ∃ b, Text.cut b = templateId ∧ Done db characterId b key := by
  unfold doneIn Done
  simp only [List.mem_map, List.mem_filter, Bool.and_eq_true, beq_iff_eq]
  constructor
  · rintro ⟨r, ⟨hr, hch, hkey⟩, htpl⟩
    exact ⟨r.templateId, htpl, r, hr, hch, rfl, hkey⟩
  · rintro ⟨b, htpl, r, hr, hch, rfl, hkey⟩
    exact ⟨r, ⟨hr, hch, hkey⟩, htpl⟩

theorem PlainTasks.mem_doneIn {key : String} (h : PlainTasks db) :
    templateId ∈ doneIn characterId key db ↔ Done db characterId templateId key := by
  rw [Hub.mem_doneIn]
  constructor
  · rintro ⟨b, rfl, hdone⟩
    rwa [(h.completions _ _ _ hdone).cut]
  · exact fun hdone => ⟨templateId, (h.completions _ _ _ hdone).cut, hdone⟩

/-- Requests with such ids keep them so. -/
theorem PlainTasks.toggled {other : String → String → String → Prop} (h : PlainTasks c.db)
    (htoggled : Toggled other c d) (hother : ∀ a b k, ¬ other a b k → Text.Plain b) :
    PlainTasks d.db where
  templates t ht := h.templates t (htoggled.frame .plannerTemplate (by decide) (by decide) ▸ ht)
  completions a b k hdone := by
    by_cases hab : other a b k
    · exact h.completions a b k ((htoggled.others a b k hab).mp hdone)
    · exact hother a b k hab

theorem find?_checklist (done : List String) (l : List PlannerTemplate) :
    ((l.map (checklistItem done)).find? (·.templateId == templateId)).map (·.completed) =
      (l.find? (·.id == templateId)).map fun _ => decide (templateId ∈ done) := by
  rw [List.find?_map, Option.map_map]
  cases hfind : l.find? (·.id == templateId) with
  | none =>
      have hnone : l.find? ((fun item => item.templateId == templateId) ∘ checklistItem done) = none :=
        hfind
      rw [hnone]
      rfl
  | some t =>
      have hsome : l.find? ((fun item => item.templateId == templateId) ∘ checklistItem done) =
          some t := hfind
      have hid : t.id = templateId :=
        beq_iff_eq.mp (List.find?_some (p := fun t : PlannerTemplate => t.id == templateId) hfind)
      rw [hsome]
      subst hid
      rfl

/-- There is a flag when the charges have their dates. -/
theorem completedAt_eq {r : AppCharacter}
    (hr : (c.db .appCharacter).find? (fun q => q.id == characterId) = some r) :
    let resets := effectiveResets c.db (characterOf r).server
    completedAt host characterId templateId now c =
      (((assignedTemplates characterId c.db).filter (·.type = .charge)).mapM
        (chargeItem host characterId now c.db)).map fun _ =>
          flagFor characterId templateId (periodKey host.zone .daily now resets)
            (periodKey host.zone .weekly now resets) c.db := by
  intro resets
  have hresets := effectiveSettings_resets now c.db (characterOf r).server
  rw [completedAt, getPlannerOverview_eq hr]
  let settings := effectiveSettings now c.db (characterOf r).server
  show (overviewOf host characterId (characterOf r) now settings c.db).map _ = _
  have hresets : settings.resets = resets := hresets
  rw [← hresets]
  cases ho : overviewOf host characterId (characterOf r) now settings c.db with
  | error e =>
      rw [overviewOf_eq_error ho]
      rfl
  | ok o =>
      obtain ⟨hdaily, hweekly, hdailyItems, hweeklyItems, hcharges⟩ := overviewOf_eq_ok ho
      rw [hcharges]
      show Except.ok (completedIn o templateId) = Except.ok _
      rw [completedIn, hdailyItems, hweeklyItems, List.find?_append, Option.map_or, find?_checklist,
        find?_checklist, hdaily, hweekly]
      rfl

/-- A character that is not there has no overview. -/
theorem completedAt_none
    (hr : (c.db .appCharacter).find? (fun q => q.id == characterId) = none) :
    completedAt host characterId templateId now c = .error "character_not_found" := by
  rw [completedAt, getPlannerOverview, bind_of_ok (getCharacter_of_none hr)]
  rfl

/-- What an overview reads besides completions and settings. -/
theorem read_congr (hframe : ∀ t ≠ .plannerCompletion, t ≠ .plannerSettings → d.db t = c.db t) :
    assignedRows characterId d.db = assignedRows characterId c.db ∧
      chargeItem host characterId now d.db = chargeItem host characterId now c.db := by
  constructor
  · rw [assignedRows, assignedRows, hframe .plannerAssignment (by decide) (by decide),
      hframe .plannerTemplate (by decide) (by decide)]
  · funext t
    rw [chargeItem, chargeItem]
    simp only [usesAfter, hframe .plannerChargeUse (by decide) (by decide)]

/-- Two states show one flag for a template when they agree on the completions
that are read as its own, on the resets and on the tables that toggling leaves
alone. -/
theorem completedAt_congr
    (hframe : ∀ t ≠ .plannerCompletion, t ≠ .plannerSettings → d.db t = c.db t)
    (hresets : ∀ server, effectiveResets d.db server = effectiveResets c.db server)
    (hdone : ∀ b k, Text.cut b = templateId →
      (Done d.db characterId b k ↔ Done c.db characterId b k)) :
    completedAt host characterId templateId now d = completedAt host characterId templateId now c := by
  have hcharacters : d.db .appCharacter = c.db .appCharacter :=
    hframe .appCharacter (by decide) (by decide)
  cases hr : (c.db .appCharacter).find? (fun q => q.id == characterId) with
  | none =>
      rw [completedAt_none hr]
      rw [← hcharacters] at hr
      exact completedAt_none hr
  | some r =>
      have hr' : (d.db .appCharacter).find? (fun q => q.id == characterId) = some r := by
        rw [hcharacters]
        exact hr
      obtain ⟨hrows, hcharge⟩ : assignedRows characterId d.db = assignedRows characterId c.db ∧
          chargeItem host characterId now d.db = chargeItem host characterId now c.db :=
        read_congr hframe
      have hread : assignedTemplates characterId d.db = assignedTemplates characterId c.db :=
        congrArg (List.map _) hrows
      have hdone : ∀ k, decide (templateId ∈ doneIn characterId k d.db) =
          decide (templateId ∈ doneIn characterId k c.db) := by
        intro k
        rw [decide_eq_decide, mem_doneIn, mem_doneIn]
        exact exists_congr fun b => and_congr_right fun hb => hdone b k hb
      have hflag : ∀ k k', flagFor characterId templateId k k' d.db =
          flagFor characterId templateId k k' c.db := by
        intro k k'
        simp only [flagFor, hread, hdone]
      rw [completedAt_eq hr, completedAt_eq hr', hread, hcharge, hresets]
      simp only [hflag]

/-- The flag of a template of the period says whether its completion in the
period is stored. -/
theorem flagFor_eq {t : PlannerTemplate} {period : PlannerPeriod} {resets : String × Number}
    {z : Zone} (hd : schema.Distinct db) (hplain : PlainTasks db)
    (ht : t ∈ assignedRows characterId db) (htype : t.type = period.type) :
    flagFor characterId t.id (periodKey z .daily now resets) (periodKey z .weekly now resets) db =
      some (decide (t.id ∈ doneIn characterId (periodKey z period now resets) db)) := by
  have hstored := (mem_assignedRows.mp ht).1
  let shown := schema.read .plannerTemplate t
  have hshown : shown.id = t.id := (hplain.templates t hstored).cut
  have hunique : ∀ t' ∈ assignedTemplates characterId db, t'.id = t.id → t' = shown := by
    intro t' ht' heq
    obtain ⟨q, hq, rfl⟩ := List.mem_map.mp ht'
    have hq := (mem_assignedRows.mp hq).1
    have hid : q.id = t.id := (hplain.templates q hq).cut.symm.trans heq
    exact congrArg _ ((hd .plannerTemplate).eq_of_key hq hstored hid)
  have hfound : ∀ type, ((assignedTemplates characterId db).filter (·.type = type)).find?
      (·.id == t.id) = if t.type = type then some shown else none := by
    intro type
    split
    · rename_i heq
      have hmem : shown ∈ (assignedTemplates characterId db).filter (·.type = type) :=
        List.mem_filter.mpr ⟨List.mem_map_of_mem ht, decide_eq_true heq⟩
      cases hfind : ((assignedTemplates characterId db).filter (·.type = type)).find?
          (·.id == t.id) with
      | none => exact absurd (beq_iff_eq.mpr hshown) (List.find?_eq_none.mp hfind shown hmem)
      | some t' =>
          have hid : t'.id = t.id := beq_iff_eq.mp
            (List.find?_some (p := fun t' : PlannerTemplate => t'.id == t.id) hfind)
          rw [hunique t' (List.mem_filter.mp (List.mem_of_find?_eq_some hfind)).1 hid]
    · rename_i hne
      rw [List.find?_eq_none]
      intro t' ht' hid
      obtain ⟨hmem, htype'⟩ := List.mem_filter.mp ht'
      obtain rfl := hunique t' hmem (beq_iff_eq.mp hid)
      exact hne (of_decide_eq_true htype')
  unfold flagFor
  simp only [hfound, htype]
  cases period <;> rfl

end

/-! ### Until the reset -/

/-- The next reset that the page shows for the period. -/
def nextResetAt (z : Zone) (period : PlannerPeriod) (now : ℤ) (resets : String × Number) :
    Option ℤ :=
  match period with
  | .daily => Renderer.nextDailyResetAt z now resets.1
  | .weekly => Renderer.nextWeeklyResetAt z now resets.1 resets.2

/-- Requests for other characters or other templates, one after another; their
template ids hold no U+0000. -/
inductive OtherToggles (host : Host) (characterId templateId : String) (c : Conn) : Conn → Prop
  | start : OtherToggles host characterId templateId c c
  | toggle {d : Conn} (i : ToggleInput) (id : String) (now : ℤ)
      (h : OtherToggles host characterId templateId c d)
      (hother : characterId ≠ i.characterId ∨ templateId ≠ i.templateId)
      (hplain : Text.Plain i.templateId) :
      OtherToggles host characterId templateId c (toggle host i id now d).2

/-- What is shown after a request at the time `t`, in a state with the resets.
In the period of the request the flag is the requested one, whatever is
toggled for others in between; in the other periods, and for the others, it is
what it was. -/
structure ShownUntilReset (host : Host) (i : ToggleInput) (t : ℤ) (resets : String × Number)
    (c d : Conn) : Prop where
  reset : ∃ reset, nextResetAt host.zone i.period t resets = some reset ∧ t < reset ∧
    ∀ t', t ≤ t' → Inside 7 7 t' →
      (nextResetAt host.zone i.period t' resets = some reset ↔ t' < reset)
  own : ∀ e, OtherToggles host i.characterId i.templateId d e → ∀ t', Inside 7 7 t' →
    completedAt host i.characterId i.templateId t' e =
      (completedAt host i.characterId i.templateId t' c).map fun shown =>
        if nextResetAt host.zone i.period t' resets = nextResetAt host.zone i.period t resets
        then some i.completed else shown
  others : ∀ characterId templateId, characterId ≠ i.characterId ∨ templateId ≠ i.templateId →
    ∀ t', completedAt host characterId templateId t' d = completedAt host characterId templateId t' c

/-- The resets of a period, in the zone with offset `o`. -/
def resetCycle (o : ℤ) (period : PlannerPeriod) (hhmm : String) (day : ℤ) : PeriodCycle :=
  match period with
  | .daily => dailyCycle o (parseHhmm hhmm)
  | .weekly => weeklyCycle o (parseHhmm hhmm) (resetDay day)

section

variable {host : Host} {i : ToggleInput} {id characterId templateId : String} {now o t t' day : ℤ}
  {hhmm : String} {c d e : Conn} {period : PlannerPeriod}

theorem nextResetAt_eq (ht : Inside 7 7 t) :
    nextResetAt (.fixed o) period t (hhmm, Number.ofInt day) =
      some ((resetCycle o period hhmm day).next t) := by
  cases period with
  | daily => exact nextDailyResetAt_eq (ht.shrink (by decide) (by decide))
  | weekly => exact nextWeeklyResetAt_eq ht day

/-- **The main process and the page cut the time line alike.** -/
theorem periodKey_eq_iff (ht : Inside 7 7 t) (ht' : Inside 7 7 t') :
    periodKey (.fixed o) period t' (hhmm, Number.ofInt day) =
        periodKey (.fixed o) period t (hhmm, Number.ofInt day) ↔
      nextResetAt (.fixed o) period t' (hhmm, Number.ofInt day) =
        nextResetAt (.fixed o) period t (hhmm, Number.ofInt day) := by
  have hstart : periodKey (.fixed o) period t' (hhmm, Number.ofInt day) =
      periodKey (.fixed o) period t (hhmm, Number.ofInt day) ↔
        (resetCycle o period hhmm day).start t' = (resetCycle o period hhmm day).start t := by
    cases period with
    | daily =>
        exact dailyPeriodKey_eq_iff (ht.shrink (by decide) (by decide))
          (ht'.shrink (by decide) (by decide))
    | weekly =>
        exact weeklyPeriodKey_eq_iff (ht.shrink (by decide) (by decide))
          (ht'.shrink (by decide) (by decide))
  rw [hstart, nextResetAt_eq ht, nextResetAt_eq ht', Option.some_inj, PeriodCycle.next, PeriodCycle.next,
    add_left_inj]

theorem nextResetAt_eq_iff (ht' : Inside 7 7 t') (h : t ≤ t') :
    nextResetAt (.fixed o) period t' (hhmm, Number.ofInt day) =
        some ((resetCycle o period hhmm day).next t) ↔ t' < (resetCycle o period hhmm day).next t := by
  rw [nextResetAt_eq ht', Option.some_inj, ← PeriodCycle.start_eq_iff _ h, PeriodCycle.next, PeriodCycle.next,
    add_left_inj]

/-- Requests for others leave the completions of a template alone. -/
theorem toggled_other (hsaved : c.saved = none) (hd : schema.Distinct c.db) :
    Toggled (fun a b _ => a ≠ i.characterId ∨ b ≠ i.templateId) c (toggle host i id now c).2 := by
  cases hr : (c.db .appCharacter).find? (fun q => q.id == i.characterId) with
  | none =>
      rw [toggle_none hr]
      exact Toggled.refl hsaved hd
  | some r =>
      refine (toggled_toggle hr hsaved hd).mono fun a b k hne hfor => ?_
      exact hne.elim (fun h => h hfor.1) fun h => h hfor.2.1

theorem OtherToggles.toggled (h : OtherToggles host characterId templateId c d)
    (hsaved : c.saved = none) (hd : schema.Distinct c.db) :
    Toggled (fun a b _ => a = characterId ∧ b = templateId) c d := by
  induction h with
  | start => exact Toggled.refl hsaved hd
  | toggle i id now _ hother _ ih =>
      refine (ih.trans (toggled_other ih.saved ih.distinct)).mono fun a b k hab => ⟨hab, ?_⟩
      rw [hab.1, hab.2]
      exact hother

/-- One request with a template id that holds no U+0000. -/
theorem PlainTasks.toggle (h : PlainTasks c.db) (hi : Text.Plain i.templateId)
    (hsaved : c.saved = none) (hd : schema.Distinct c.db) :
    PlainTasks (Hub.toggle host i id now c).2.db := by
  refine h.toggled (toggled_other hsaved hd) fun a b k hab => ?_
  obtain ⟨-, hb⟩ := not_or.mp hab
  exact (not_not.mp hb) ▸ hi

theorem OtherToggles.plainTasks (h : OtherToggles host characterId templateId c d)
    (hsaved : c.saved = none) (hd : schema.Distinct c.db) (hplain : PlainTasks c.db) :
    PlainTasks d.db := by
  induction h with
  | start => exact hplain
  | toggle i id now h _ hi ih =>
      have htoggled := h.toggled hsaved hd
      exact ih.toggle hi htoggled.saved htoggled.distinct

/-- What is shown for a template at a time, from the rows. -/
theorem completedAt_own {r : AppCharacter} {t : PlannerTemplate} {resets : String × Number}
    (hd : schema.Distinct c.db) (hplain : PlainTasks c.db)
    (hr : (c.db .appCharacter).find? (fun q => q.id == characterId) = some r)
    (hresets : effectiveResets c.db (characterOf r).server = resets)
    (ht : t ∈ assignedRows characterId c.db) (htype : t.type = period.type) :
    completedAt host characterId t.id now c =
      (((assignedTemplates characterId c.db).filter (·.type = .charge)).mapM
        (chargeItem host characterId now c.db)).map fun _ =>
          some (decide (t.id ∈ doneIn characterId (periodKey host.zone period now resets) c.db)) := by
  rw [completedAt_eq hr, hresets, flagFor_eq hd hplain ht htype]

/-- In the period of a request a template is shown as requested, whatever is
toggled for others in between, and in other periods as before. -/
theorem completedAt_toggle {r : AppCharacter} {t : PlannerTemplate}
    (hzone : host.zone = .fixed o) (hsaved : c.saved = none) (hd : schema.Distinct c.db)
    (hplain : PlainTasks c.db)
    (hr : (c.db .appCharacter).find? (fun q => q.id == i.characterId) = some r)
    (hresets : effectiveResets c.db (characterOf r).server = (hhmm, Number.ofInt day))
    (ht : t ∈ assignedRows i.characterId c.db) (hid : t.id = i.templateId)
    (htype : t.type = i.period.type) (hfresh : ∀ q ∈ c.db .plannerCompletion, q.id ≠ id)
    (hin : Inside 7 7 (resolveDate host i.nowIso now))
    (he : OtherToggles host i.characterId i.templateId (toggle host i id now c).2 e)
    (hin' : Inside 7 7 t') :
    completedAt host i.characterId i.templateId t' e =
      (completedAt host i.characterId i.templateId t' c).map fun shown =>
        if nextResetAt host.zone i.period t' (hhmm, Number.ofInt day) =
          nextResetAt host.zone i.period (resolveDate host i.nowIso now) (hhmm, Number.ofInt day)
        then some i.completed else shown := by
  let d := (toggle host i id now c).2
  have htoggled : Toggled _ c d := toggled_toggle hr hsaved hd
  have hdone : Done d.db _ _ _ ↔ _ :=
    done_toggle hr ⟨t, (mem_assignedRows.mp ht).1, hid⟩ hsaved hd hfresh
  rw [hresets] at htoggled hdone
  have hi : Text.Plain i.templateId := hid ▸ hplain.templates t (mem_assignedRows.mp ht).1
  have hplain' : PlainTasks e.db :=
    he.plainTasks htoggled.saved htoggled.distinct (hplain.toggle hi hsaved hd)
  -- what the overview reads besides the completion
  have hboth := htoggled.trans (he.toggled htoggled.saved htoggled.distinct)
  obtain ⟨hrows, hcharge⟩ : assignedRows i.characterId e.db = assignedRows i.characterId c.db ∧
      chargeItem host i.characterId t' e.db = chargeItem host i.characterId t' c.db :=
    read_congr hboth.frame
  have hread : assignedTemplates i.characterId e.db = assignedTemplates i.characterId c.db :=
    congrArg (List.map _) hrows
  have hre : (e.db .appCharacter).find? (fun q => q.id == i.characterId) = some r := by
    rw [hboth.frame .appCharacter (by decide) (by decide)]
    exact hr
  have hte : t ∈ assignedRows i.characterId e.db := by
    rw [hrows]
    exact ht
  rw [← hid, completedAt_own hd hplain hr hresets ht htype, completedAt_own hboth.distinct hplain' hre
    ((hboth.resets _).trans hresets) hte htype, hread, hcharge]
  -- the completion
  let resets : String × Number := (hhmm, Number.ofInt day)
  let key := periodKey host.zone i.period (resolveDate host i.nowIso now) resets
  let key' := periodKey host.zone i.period t' resets
  have hsame : key' = key ↔ nextResetAt host.zone i.period t' resets =
      nextResetAt host.zone i.period (resolveDate host i.nowIso now) resets := by
    show periodKey host.zone _ _ _ = periodKey host.zone _ _ _ ↔ _
    rw [hzone]
    exact periodKey_eq_iff hin hin'
  have hothers : Done e.db i.characterId i.templateId key' ↔
      Done d.db i.characterId i.templateId key' :=
    (he.toggled htoggled.saved htoggled.distinct).others _ _ _ ⟨rfl, rfl⟩
  have hflag : some (decide (t.id ∈ doneIn i.characterId key' e.db)) =
      if nextResetAt host.zone i.period t' resets =
        nextResetAt host.zone i.period (resolveDate host i.nowIso now) resets
      then some i.completed else some (decide (t.id ∈ doneIn i.characterId key' c.db)) := by
    by_cases heq : key' = key
    · have hstored : t.id ∈ doneIn i.characterId key' e.db ↔ i.completed = true := by
        rw [hid, hplain'.mem_doneIn, hothers, heq]
        exact hdone
      have hdecide : decide (t.id ∈ doneIn i.characterId key' e.db) = i.completed := by
        rw [Bool.eq_iff_iff, decide_eq_true_iff]
        exact hstored
      rw [if_pos (hsame.mp heq), hdecide]
    · have hstored : t.id ∈ doneIn i.characterId key' e.db ↔
          t.id ∈ doneIn i.characterId key' c.db := by
        rw [hid, hplain'.mem_doneIn, hplain.mem_doneIn, hothers]
        exact htoggled.others _ _ _ fun hfor => heq hfor.2.2
      rw [if_neg (hsame.not.mp heq), decide_eq_decide.mpr hstored]
  cases ((assignedTemplates i.characterId c.db).filter (·.type = .charge)).mapM
      (chargeItem host i.characterId t' c.db) with
  | error => rfl
  | ok => exact congrArg Except.ok hflag

end

/-! ### Completing the task of a later day first -/

/-- The request to complete the daily task of `withAssignment`. -/
def ritual : ToggleInput := ⟨"c1", "t1", .daily, true, none⟩

/-- It is completed two days after the epoch. -/
def withLaterDay : Conn :=
  (toggle (Host.iso (.fixed 0)) ritual "k1" 172800000 withAssignment).2

theorem distinct_withAssignment : schema.Distinct withAssignment.db := by
  intro table
  cases table with
  | appCharacter => exact List.pairwise_singleton _ _
  | plannerSettings => exact List.pairwise_singleton _ _
  | plannerTemplate => exact List.pairwise_singleton _ _
  | plannerAssignment => exact List.pairwise_singleton _ _
  | _ => exact List.Pairwise.nil

/-- The daily task of `withAssignment`. -/
def ritualTask : PlannerTemplate := ⟨"t1", "Ritual", .daily, 0, none, none, stamp 2, stamp 2⟩

theorem plainTasks_withAssignment : PlainTasks withAssignment.db where
  templates t ht := by
    obtain rfl : t = ritualTask := List.mem_singleton.mp ht
    decide
  completions _ _ _ := by
    rintro ⟨r, hr, -⟩
    exact absurd hr List.not_mem_nil

theorem ritualTask_mem : ritualTask ∈ assignedRows "c1" withAssignment.db := by
  have hassigned : assignedRows "c1" withAssignment.db = [ritualTask] := rfl
  rw [hassigned]
  exact List.mem_cons_self

theorem find?_withAssignment : (withAssignment.db .appCharacter).find? (fun q => q.id == "c1") =
    some ⟨"c1", "Kaisinel", none, none, stamp 1, stamp 1⟩ := rfl

/-- One request in a state that toggling has left. -/
theorem completedAt_ritual {c : Conn} {id : String} {now t' : ℤ}
    (h : Toggled (fun _ _ _ => False) withAssignment c) (hplain : PlainTasks c.db)
    (hfresh : ∀ q ∈ c.db .plannerCompletion, q.id ≠ id) (hin : Inside 7 7 now)
    (hin' : Inside 7 7 t') :
    completedAt (Host.iso (.fixed 0)) "c1" "t1" t'
        (toggle (Host.iso (.fixed 0)) ritual id now c).2 =
      (completedAt (Host.iso (.fixed 0)) "c1" "t1" t' c).map fun shown =>
        if nextResetAt (.fixed 0) .daily t' ("09:00", Number.ofInt 1) =
          nextResetAt (.fixed 0) .daily now ("09:00", Number.ofInt 1)
        then some true else shown := by
  have hr : (c.db .appCharacter).find? (fun q => q.id == "c1") =
      some ⟨"c1", "Kaisinel", none, none, stamp 1, stamp 1⟩ := by
    rw [h.frame .appCharacter (by decide) (by decide)]
    exact find?_withAssignment
  have hresets : effectiveResets c.db none = ("09:00", Number.ofInt 1) := (h.resets none).trans rfl
  have hread : assignedRows "c1" c.db = assignedRows "c1" withAssignment.db ∧
      chargeItem (Host.iso (.fixed 0)) "c1" t' c.db =
        chargeItem (Host.iso (.fixed 0)) "c1" t' withAssignment.db := read_congr h.frame
  have ht : ritualTask ∈ assignedRows "c1" c.db := by
    rw [hread.1]
    exact ritualTask_mem
  exact @completedAt_toggle (Host.iso (.fixed 0)) ritual id now 0 t' 1 "09:00" c _ _ _ rfl h.saved
    h.distinct hplain hr hresets ht rfl rfl hfresh hin .start hin'

end Hub
