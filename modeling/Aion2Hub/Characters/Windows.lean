/-
Aion2Hub/Characters/Windows.lean

Calls from two windows.

The main window and the overlay send their own copy of a character id, which
may be gone.  Most handlers cannot move the pointer to the active character,
whatever id they get; `planner:getOverview` of a character that is gone resets
it, although another character is selected.

Main results: the reading handlers but that one change nothing
(`reads_of_isReading`), and the pointer stays in every run whose calls all ask
for overviews of stored characters (`activeCharacterId_kept`).
-/
import Aion2Hub.Characters.Active
import Aion2Hub.Loot.Report
import Aion2Hub.Storage.Reading

namespace Hub

open Sql Exec

/-! ### Handlers that read -/

/-- `if (!characterId) throw new Error("no_character")` after resolving. -/
def requireCharacter (obj : Js) : Prog String := do
  let characterId ← resolveCharacterId obj
  Exec.ofOption "no_character" (nonEmpty characterId)

/-- `planner:listDurations`. -/
def plannerListDurations (input : Option Js) : Prog (List PlannerDurationRow) := do
  let obj := Js.asRecord input
  let characterId ← requireCharacter obj
  listPlannerDurations characterId (Js.asNumber (obj.get "limit"))

/-- `planner:getDurationStats`. -/
def plannerGetDurationStats (input : Option Js) : Prog (List PlannerDurationStat) := do
  let obj := Js.asRecord input
  let characterId ← requireCharacter obj
  getPlannerDurationStats characterId (text obj "sinceIso")

/-- `buildScore:get`. -/
def buildScoreGet (input : Option Js) (now : ℤ) : Prog (Option BuildScoreState) := do
  match nonEmpty (← resolveCharacterId (Js.asRecord input)) with
  | none => pure none
  | some characterId => do
      let state ← getBuildScore characterId now
      pure (some state)

/-- `loot:listRuns`. -/
def lootListRuns (input : Option Js) : Prog (List LootRunListItem) := do
  let obj := Js.asRecord input
  let characterId ← requireCharacter obj
  listLootRuns characterId (Js.asNumber (obj.get "limit"))

/-- `loot:weeklyReport`. -/
def lootWeeklyReport (host : Host) (input : Option Js) (now : ℤ) :
    Prog (LootWeeklyReport Number) := do
  let obj := Js.asRecord input
  let characterId ← requireCharacter obj
  getLootWeeklyReport Number host ⟨characterId, text obj "server", text obj "nowIso"⟩ now

/-! ### Runs of both windows -/

/-- A call of a handler by one of the windows.  `reads` is a handler that
reads and has no character id, and `request` one of those that write. -/
inductive WindowCall where
  | plannerListDurations (input : Option Js)
  | plannerGetDurationStats (input : Option Js)
  | buildScoreGet (input : Option Js) (now : ℤ)
  | lootListRuns (input : Option Js)
  | lootWeeklyReport (input : Option Js) (now : ℤ)
  | reads (m : { m : Prog Unit // Reads m })
  | request (r : Request)

def WindowCall.run (host : Host) : WindowCall → Prog Unit
  | .plannerListDurations input => (Hub.plannerListDurations input).discard
  | .plannerGetDurationStats input => (Hub.plannerGetDurationStats input).discard
  | .buildScoreGet input now => (Hub.buildScoreGet input now).discard
  | .lootListRuns input => (Hub.lootListRuns input).discard
  | .lootWeeklyReport input now => (Hub.lootWeeklyReport host input now).discard
  | .reads m => m.1
  | .request r => r.run host

/-- The calls that are meant to change the selection: `app:setActiveCharacterId`,
`backup:importJson`, and `characters:delete` of the active character. -/
def WindowCall.Selecting (db : Db Row) : WindowCall → Prop
  | .request (.appSetActiveCharacterId _) | .request (.backupImportJson _ _) => True
  | .request (.charactersDelete characterId) => Js.asString characterId = activeCharacterId db
  | _ => False

/-- The call does not make the code believe that the selection is lost: an
overview is asked of a stored character, and a character that is created while
the selected one has an empty id is refused. -/
def WindowCall.Harmless (db : Db Row) : WindowCall → Prop
  | .request (.plannerGetOverview input _) =>
      ∀ id, nonEmpty (text (Js.asRecord input) "characterId") = some id →
        schema.hasKey db .appCharacter id
  | .request (.charactersCreate input draw) =>
      activeCharacterId db = some "" → trimmed (text (Js.asRecord input) "name") = none ∨
        schema.hasKey db .appCharacter draw.id
  | _ => True

/-- The runs from `c` to a state whose calls all satisfy `Allowed`, in any
order of the windows. -/
inductive Calls (host : Host) (Allowed : Db Row → WindowCall → Prop) (c : Conn) : Conn → Prop where
  | start : Calls host Allowed c c
  | call {d : Conn} {w : WindowCall} :
      Calls host Allowed c d → Allowed d.db w → Calls host Allowed c (w.run host d).2

/-! ### Reading -/

section

variable {host : Host} {c : Conn}

theorem reads_requireCharacter (obj : Js) : Reads (requireCharacter obj) := by
  have hresolve : Reads (resolveCharacterId obj) := fun _ => resolveCharacterId_snd obj
  exact hresolve.bind fun _ => Reads.ofOption

theorem reads_bindVariables (n : ℕ) : Reads (bindVariables n : Prog Unit) := by
  unfold bindVariables
  split
  · exact Reads.pure
  · exact Reads.throw

theorem reads_getLatestPricesByItemId (server : String) (itemIds : List String) :
    Reads (getLatestPricesByItemId server itemIds) := by
  refine Reads.ofOption.bind fun server => ?_
  dsimp only
  split
  · exact Reads.pure
  · exact (reads_bindVariables _).bind fun _ => Reads.gets.bind fun _ => Reads.pure

theorem reads_getLootWeeklyReport (input : LootReportInput) (now : ℤ) :
    Reads (getLootWeeklyReport Number host input now) := by
  have hreset : ∀ server, Reads (getPlannerResetForServer server) := fun server c => by
    rw [getPlannerResetForServer_eq]
  refine Reads.ofOption.bind fun characterId => (hreset _).bind fun reset =>
    Reads.ofExcept.bind fun startIso => Reads.gets.bind fun db => ?_
  dsimp only
  split
  · exact Reads.pure
  · refine ((reads_bindVariables _).bind fun _ => Reads.gets).bind fun drops =>
      ((reads_bindVariables _).bind fun _ => Reads.gets).bind fun costs =>
        Reads.bind ?_ fun _ => Reads.pure
    unfold pricesFor
    split
    · exact Reads.pure
    · exact reads_getLatestPricesByItemId _ _

/-- The handlers that only read. -/
def WindowCall.isReading : WindowCall → Bool
  | .request _ => false
  | _ => true

/-- **A reading handler changes nothing, whatever id it is given.** -/
theorem reads_of_isReading {w : WindowCall} (h : w.isReading = true) : (w.run host c).2 = c := by
  cases w with
  | plannerListDurations input =>
      have hreads : Reads (plannerListDurations input) :=
        (reads_requireCharacter _).bind fun _ => reads_listPlannerDurations _ _
      exact (discard_snd _ c).trans (hreads c)
  | plannerGetDurationStats input =>
      have hreads : Reads (plannerGetDurationStats input) :=
        (reads_requireCharacter _).bind fun _ => reads_getPlannerDurationStats _ _
      exact (discard_snd _ c).trans (hreads c)
  | buildScoreGet input now =>
      have hreads : Reads (buildScoreGet input now) := by
        have hresolve : Reads (resolveCharacterId (Js.asRecord input)) :=
          fun _ => resolveCharacterId_snd _
        refine hresolve.bind fun characterId => ?_
        split
        · exact Reads.pure
        · exact (reads_getBuildScore _ now).bind fun _ => Reads.pure
      exact (discard_snd _ c).trans (hreads c)
  | lootListRuns input =>
      have hreads : Reads (lootListRuns input) :=
        (reads_requireCharacter _).bind fun _ => reads_listLootRuns _ _
      exact (discard_snd _ c).trans (hreads c)
  | lootWeeklyReport input now =>
      have hreads : Reads (lootWeeklyReport host input now) :=
        (reads_requireCharacter _).bind fun _ => reads_getLootWeeklyReport _ now
      exact (discard_snd _ c).trans (hreads c)
  | reads m => exact m.2 c
  | request r => cases h

/-! ### What an overview throws -/

/-- A sequence that throws: one of its parts has thrown. -/
theorem error_of_bind {α β : Type} {x : Except String α} {f : α → Except String β} {e : String}
    (h : (x >>= f) = .error e) : x = .error e ∨ ∃ a, x = .ok a ∧ f a = .error e := by
  cases x with
  | error e' =>
      cases h
      exact .inl rfl
  | ok a => exact .inr ⟨a, rfl, h⟩

theorem error_of_toISOString {date : Option ℤ} {e : String} (h : Date.toISOString date = .error e) :
    e = "Invalid time value" := by
  cases date with
  | some t => cases h
  | none =>
      cases h
      rfl

theorem error_of_nextRecharge {window maxStacks : Number} {uses : List PlannerChargeUse}
    {e : String} (h : nextRecharge host window maxStacks uses = .error e) :
    e = "Invalid time value" := by
  unfold nextRecharge at h
  split at h
  · cases h
  · split at h
    · cases h
    · rename_i first _ _
      cases hdate : Date.toISOString (rechargeDate host (Text.cut first.usedAt) window) with
      | ok s =>
          rw [hdate] at h
          cases h
      | error e' =>
          rw [hdate] at h
          cases h
          exact error_of_toISOString hdate

theorem error_of_chargeItem {characterId : String} {now : ℤ} {db : Db Row} {t : PlannerTemplate}
    {e : String} (h : chargeItem host characterId now db t = .error e) :
    e = "Invalid time value" := by
  rcases error_of_bind h with hcutoff | ⟨cutoff, -, hrest⟩
  · exact error_of_toISOString hcutoff
  · rcases error_of_bind hrest with hnext | ⟨next, -, hpure⟩
    · exact error_of_nextRecharge hnext
    · cases hpure

theorem error_of_overviewItems {doneDaily doneWeekly : List String}
    {charge : PlannerTemplate → Except String PlannerChargeItem} {msg : String}
    (hcharge : ∀ t e, charge t = .error e → e = msg) {ts : List PlannerTemplate}
    {items : OverviewItems} {e : String}
    (h : overviewItems doneDaily doneWeekly charge ts items = .error e) : e = msg := by
  induction ts generalizing items with
  | nil => cases h
  | cons t ts ih =>
      unfold overviewItems at h
      split at h
      · exact ih h
      · exact ih h
      · rcases error_of_bind h with hitem | ⟨item, -, hrest⟩
        · exact hcharge t e hitem
        · exact ih hrest

/-- An overview of a stored character never says that there is none. -/
theorem error_of_overviewOf {characterId : String} {character : AppCharacter} {time : ℤ}
    {settings : PlannerSettings} {db : Db Row} {e : String}
    (h : overviewOf host characterId character time settings db = .error e) :
    e = "Invalid time value" := by
  rcases error_of_bind h with hitems | ⟨items, -, hpure⟩
  · exact error_of_overviewItems (fun _ _ ht => error_of_chargeItem ht) hitems
  · cases hpure

/-! ### Requests -/

/-- A character whose id is taken is not created. -/
theorem createCharacter_taken {input : CharacterInput} {id : String} {now : ℤ}
    (h : schema.hasKey c.db .appCharacter id) :
    ∃ e, createCharacter input id now c = (.error e, c) := by
  let row : AppCharacter :=
    ⟨id, input.name, input.server, input.characterClass, stamp now, stamp now⟩
  have hany : (c.db .appCharacter).any (schema.conflicts .appCharacter row) = true := by
    obtain ⟨q, hq, hkey⟩ := h
    refine List.any_eq_true.mpr ⟨q, hq, ?_⟩
    have hid : (id == q.id) = true := beq_iff_eq.mpr hkey.symm
    show (id == q.id || _) = true
    rw [hid]
    rfl
  have hinsert : schema.insert .abort .appCharacter row c = (.error "UNIQUE constraint failed", c) := by
    unfold Schema.insert Schema.insertDb
    dsimp only
    rw [if_pos hany]
  exact ⟨_, bind_of_error hinsert⟩

/-- A character that is created does not take over a selection that is not
empty. -/
theorem activeCharacterId_charactersCreate {input : Option Js} {draw : Draw} {k : String}
    (hactive : activeCharacterId c.db = some k)
    (hharmless : WindowCall.Harmless c.db (.request (.charactersCreate input draw))) :
    activeCharacterId (charactersCreate input draw.id draw.now c).2.db = activeCharacterId c.db := by
  unfold charactersCreate
  cases hname : trimmed (text (Js.asRecord input) "name") with
  | none => rfl
  | some name =>
      let server := (text (Js.asRecord input) "server").map Text.trim
      let klass := (text (Js.asRecord input) "class").map Text.trim
      show activeCharacterId ((do
        let id ← createCharacter ⟨name, server, klass⟩ draw.id draw.now
        let active ← getActiveCharacterId
        adoptCharacter active id
        pure id : Prog String) c).2.db = _
      have hsame : activeCharacterId (createCharacter ⟨name, server, klass⟩ draw.id draw.now c).2.db =
          activeCharacterId c.db :=
        activeCharacterId_congr (settings_createCharacter _ _ _ _)
      rcases hrun : createCharacter ⟨name, server, klass⟩ draw.id draw.now c with ⟨e | id', d⟩
      · rw [hrun] at hsame
        rw [bind_of_error hrun]
        exact hsame
      · rw [hrun] at hsame
        have hne : k ≠ "" := by
          rintro rfl
          rcases hharmless hactive with hnone | htaken
          · rw [hname] at hnone
            cases hnone
          · obtain ⟨e, hfail⟩ :=
              @createCharacter_taken c ⟨name, server, klass⟩ draw.id draw.now htaken
            rw [hfail] at hrun
            cases hrun
        have hd : nonEmpty (activeCharacterId d.db) = some k := by
          rw [hsame, hactive]
          exact nonEmpty_some hne
        rw [bind_of_ok hrun, bind_of_ok (getActiveCharacterId_eq d), bind_pure_snd, adoptCharacter,
          hd]
        exact hsame

theorem activeCharacterId_charactersUpdate {input : Option Js} {now : ℤ} :
    activeCharacterId (charactersUpdate input now c).2.db = activeCharacterId c.db := by
  have hleaves : Leaves (· = .appSetting) (charactersUpdate input now) :=
    Leaves.ofOption.bind fun _ => Leaves.ofOption.bind fun _ => leaves_update (by decide)
  exact activeCharacterId_congr (hleaves.same c _ rfl)

/-- Deleting another character leaves the selection alone. -/
theorem activeCharacterId_charactersDelete {characterId : Option Js} (hoff : c.foreignKeys = false)
    (h : Js.asString characterId ≠ activeCharacterId c.db) :
    activeCharacterId (charactersDelete characterId c).2.db = activeCharacterId c.db := by
  unfold charactersDelete
  cases hid : nonEmpty (Js.asString characterId) with
  | none => rfl
  | some id =>
      have hother : activeCharacterId c.db ≠ some id := by
        rw [← nonEmpty_eq hid]
        exact h.symm
      have hdelete : deleteCharacter id c = _ := delete_off hoff
      rw [ofOption_some_bind, bind_of_ok (getActiveCharacterId_eq c), bind_of_ok hdelete,
        if_neg hother]
      let kept : List AppCharacter := (c.db .appCharacter).filter fun r => !(r.id == id)
      have hne : Table.appSetting ≠ .appCharacter := by decide
      have hsame : (c.db.set .appCharacter kept) .appSetting = c.db .appSetting :=
        Db.set_of_ne c.db hne kept
      exact activeCharacterId_congr hsame

/-- The overview of a stored character leaves the selection alone. -/
theorem activeCharacterId_plannerGetOverview {input : Option Js} {now : ℤ} (h : ActiveReal c.db)
    (hharmless : WindowCall.Harmless c.db (.request (.plannerGetOverview input now))) :
    activeCharacterId (plannerGetOverview host input now c).2.db = activeCharacterId c.db := by
  unfold plannerGetOverview
  have hresolve : resolveCharacterId (Js.asRecord input) c =
      (.ok ((text (Js.asRecord input) "characterId").orElse fun _ => activeCharacterId c.db), c) := by
    unfold resolveCharacterId
    cases text (Js.asRecord input) "characterId" with
    | none => exact getActiveCharacterId_eq c
    | some id => rfl
  rw [bind_of_ok hresolve]
  cases hid : nonEmpty
      ((text (Js.asRecord input) "characterId").orElse fun _ => activeCharacterId c.db) with
  | none => rfl
  | some id =>
      have hstored : schema.hasKey c.db .appCharacter id := by
        cases htext : text (Js.asRecord input) "characterId" with
        | none =>
            rw [htext] at hid
            exact h id (nonEmpty_eq hid)
        | some k =>
            rw [htext] at hid
            exact hharmless id (by rw [htext]; exact hid)
      obtain ⟨q, hq, hkey⟩ := hstored
      have hsome : ((c.db .appCharacter).find? fun q : AppCharacter => q.id == id).isSome :=
        List.find?_isSome.mpr ⟨q, hq, beq_iff_eq.mpr hkey⟩
      obtain ⟨r, hr⟩ := Option.isSome_iff_exists.mp hsome
      let nowIso := text (Js.asRecord input) "nowIso"
      have hpointer : activeCharacterId (withDefaults c.db now) = activeCharacterId c.db :=
        activeCharacterId_congr (withDefaults_of_ne (by decide) c.db now)
      have hover : getPlannerOverview host id nowIso now c = _ := getPlannerOverview_eq hr
      dsimp only
      unfold Exec.tryCatch
      rcases hof : overviewOf host id (characterOf r) (resolveDate host nowIso now)
          (effectiveSettings now c.db (characterOf r).server) c.db with e | o
      · rw [hof] at hover
        have hne : e ≠ "character_not_found" := by
          rw [error_of_overviewOf hof]
          decide
        rw [bind_of_error hover]
        dsimp only
        rw [overviewFailed, if_neg hne]
        exact hpointer
      · rw [hof] at hover
        rw [bind_of_ok hover]
        exact hpointer

theorem activeCharacterId_other {op : Op} (hop : op.Elsewhere) (hoff : c.foreignKeys = false) :
    activeCharacterId (op.run host c).2.db = activeCharacterId c.db := by
  have hleaves : (∀ t ∈ op.writes, t ∉ pointerTables) →
      activeCharacterId (op.run host c).2.db = activeCharacterId c.db := fun hwrites =>
    activeCharacterId_congr
      ((leaves_run closed_pointer hwrites).same c .appSetting List.mem_cons_self)
  cases op with
  | setSetting key value => exact activeCharacterId_setSetting hoff hop
  | _ => exact hleaves hop

/-- One request. -/
theorem activeCharacterId_request {r : Request} {k : String} (h : ActiveKept c)
    (hactive : activeCharacterId c.db = some k)
    (hselecting : ¬ WindowCall.Selecting c.db (.request r))
    (hharmless : WindowCall.Harmless c.db (.request r)) :
    activeCharacterId (r.run host c).2.db = activeCharacterId c.db := by
  cases r with
  | charactersCreate input draw =>
      show activeCharacterId ((charactersCreate input draw.id draw.now).discard c).2.db = _
      rw [discard_snd]
      exact activeCharacterId_charactersCreate hactive hharmless
  | charactersUpdate input now => exact activeCharacterId_charactersUpdate
  | charactersDelete characterId => exact activeCharacterId_charactersDelete h.off hselecting
  | appSetActiveCharacterId characterId => exact absurd trivial hselecting
  | plannerGetOverview input now =>
      show activeCharacterId ((plannerGetOverview host input now).discard c).2.db = _
      rw [discard_snd]
      exact activeCharacterId_plannerGetOverview h.real hharmless
  | backupImportJson raw now => exact absurd trivial hselecting
  | other op => exact activeCharacterId_other op.2 h.off
  | persist =>
      show activeCharacterId (Hub.persist.discard c).2.db = _
      rw [discard_snd]
      show activeCharacterId (c.saved.getD c.db) = _
      rw [h.settled]
      rfl

/-! ### Every run -/

/-- What the run keeps: the pointer, and that it is real. -/
theorem activeKept_call {w : WindowCall} {k : String} (h : ActiveKept c)
    (hactive : activeCharacterId c.db = some k) (hselecting : ¬ w.Selecting c.db)
    (hharmless : w.Harmless c.db) :
    ActiveKept (w.run host c).2 ∧ activeCharacterId (w.run host c).2.db = some k := by
  cases w with
  | request r =>
      refine ⟨h.request ?_, (activeCharacterId_request h hactive hselecting hharmless).trans hactive⟩
      cases r with
      | appSetActiveCharacterId characterId => exact absurd trivial hselecting
      | backupImportJson raw now => exact absurd trivial hselecting
      | _ => trivial
  | _ =>
      rw [reads_of_isReading rfl]
      exact ⟨h, hactive⟩

/-- **A stale window cannot change the selection** where every overview is
asked of a stored character: from any state in which a stored character is
selected, it is still selected after any calls in any order. -/
theorem activeCharacterId_kept {d : Conn} {k : String} (hreach : Reachable host c)
    (hactive : activeCharacterId c.db = some k) (hreal : schema.hasKey c.db .appCharacter k)
    (h : Calls host (fun db w => ¬ w.Selecting db ∧ w.Harmless db) c d) :
    activeCharacterId d.db = activeCharacterId c.db := by
  have hstart : ActiveKept c := by
    refine ⟨fun id hid => ?_, hreach.flags.1, hreach.flags.2⟩
    rw [hactive] at hid
    cases hid
    exact hreal
  have hkept : ActiveKept d ∧ activeCharacterId d.db = some k := by
    induction h with
    | start => exact ⟨hstart, hactive⟩
    | call _ hallowed ih => exact activeKept_call ih.1 ih.2 hallowed.1 hallowed.2
  rw [hkept.2, hactive]

end

/-- One character, which is selected. -/
def selected : Conn :=
  (setSetting "activeCharacterId" (some "c1")
    (createCharacter ⟨"Kaisinel", none, none⟩ "c1" 0 (opened none 0)).2).2

theorem reachable_selected {host : Host} : Reachable host selected := by
  refine ⟨none, 0, ?_⟩
  have hopened : Reaches host (fun _ _ => True) (opened none 0) (opened none 0) := .start
  have hcreated := hopened.step (s := .op (.createCharacter ⟨"Kaisinel", none, none⟩ "c1" 0)) trivial
  exact hcreated.step (s := .op (.setSetting "activeCharacterId" (some "c1"))) trivial

theorem hasKey_selected : schema.hasKey selected.db .appCharacter "c1" :=
  ⟨_, List.mem_cons_self, rfl⟩

/-- The overview of the selected character. -/
def ownOverview : WindowCall :=
  .request (.plannerGetOverview (some (.obj [("characterId", .str "c1")])) 0)

theorem activeCharacterId_kept_own :
    activeCharacterId (ownOverview.run (Host.iso (Zone.fixed 0)) selected).2.db =
      activeCharacterId selected.db := by
  refine activeCharacterId_kept reachable_selected rfl hasKey_selected (.call .start ⟨id, ?_⟩)
  intro id hid
  obtain rfl : "c1" = id := Option.some.inj hid
  exact hasKey_selected

/-- The overview of a character that never existed. -/
def staleOverview : WindowCall :=
  .request (.plannerGetOverview (some (.obj [("characterId", .str "gone")])) 0)

/-- **A stale window resets the selection.** -/
theorem exists_selection_lost : ∃ (c d : Conn) (k : String), Reachable (Host.iso (Zone.fixed 0)) c ∧
    activeCharacterId c.db = some k ∧ schema.hasKey c.db .appCharacter k ∧
    Calls (Host.iso (Zone.fixed 0)) (fun db w => ¬ w.Selecting db) c d ∧
    activeCharacterId d.db ≠ activeCharacterId c.db := by
  refine ⟨selected, (staleOverview.run _ selected).2, "c1", reachable_selected, rfl,
    hasKey_selected, .call .start id, ?_⟩
  have hlost : activeCharacterId (staleOverview.run (Host.iso (Zone.fixed 0)) selected).2.db =
      none := rfl
  rw [hlost]
  nofun

end Hub
