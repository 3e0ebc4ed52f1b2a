/-
Aion2Hub/Planner/Timer.lean

The timers of `PlannerTodayPage` and `OverlayPlanner`, and the calls of
`planner:addDuration` that save what they have measured.

Each window has its own timer.  Stopping it sends a call; the timer is cleared
only when the answer has come and says that the session is stored, so the other
window, other operations and further clicks fall in between.  A page that is
left forgets its timer, but not the call that it has sent.
-/
import Mathlib.Data.Fintype.Defs
import Aion2Hub.Characters.Windows
import Aion2Hub.Planner.Today

namespace Hub

open Sql Exec

/-- `planner:addDuration`; `persisted` is what comes of writing the database to
its file. -/
def plannerAddDuration (host : Host) (input : Option Js) (id : String)
    (persisted : Except String Unit) : Prog Unit := do
  let obj := Js.asRecord input
  let characterId ← requireCharacter obj
  let templateId ← Exec.ofOption "bad_request" (nonEmpty (text obj "templateId"))
  let startedAt := textOr obj "startedAt" ""
  let endedAt := textOr obj "endedAt" ""
  let seconds := (Js.asNumber (obj.get "seconds")).getD 0
  (addPlannerDuration host ⟨characterId, templateId, startedAt, endedAt, seconds⟩ id).discard
  Exec.ofExcept persisted

/-- The step adds no durations. -/
def NoDuration : Step → Prop
  | .op (.addPlannerDuration _ _) | .op (.importUserBackup _ _) => False
  | _ => True

namespace Renderer

/-! ### The timer -/

structure ActiveTimer where
  templateId : String
  startedAtMs : ℤ

structure TimerStart where
  next : Option ActiveTimer
  notice : String

/-- `resolveTitle(templateId) || templateId`. -/
def titleOf (resolveTitle : String → String) (templateId : String) : String :=
  (nonEmpty (some (resolveTitle templateId))).getD templateId

def startTimerWithConfirm (current : Option ActiveTimer) (nextTemplateId : String) (nowMs : ℤ)
    (resolveTitle : String → String) (confirmFn : String → Bool) : TimerStart :=
  let nextTitle := titleOf resolveTitle nextTemplateId
  match current with
  | none => ⟨some ⟨nextTemplateId, nowMs⟩, "타이머 시작: " ++ nextTitle⟩
  | some timer =>
      let currentTitle := titleOf resolveTitle timer.templateId
      if timer.templateId = nextTemplateId then ⟨current, "이미 실행 중: " ++ currentTitle⟩
      else if confirmFn ("타이머가 실행 중입니다.\n\n현재: " ++ currentTitle ++ "\n새로 시작: " ++
          nextTitle ++ "\n\n기존 타이머를 취소하고 전환할까요?\n(저장되지 않습니다)") then
        ⟨some ⟨nextTemplateId, nowMs⟩, "타이머 전환: " ++ currentTitle ++ " → " ++ nextTitle⟩
      else ⟨current, "전환을 취소했습니다."⟩

/-- The timer goes on, or starts now. -/
theorem next_startTimerWithConfirm (current : Option ActiveTimer) (nextTemplateId : String)
    (nowMs : ℤ) (resolveTitle : String → String) (confirmFn : String → Bool) :
    (startTimerWithConfirm current nextTemplateId nowMs resolveTitle confirmFn).next = current ∨
      (startTimerWithConfirm current nextTemplateId nowMs resolveTitle confirmFn).next =
        some ⟨nextTemplateId, nowMs⟩ := by
  cases current with
  | none => exact .inr rfl
  | some timer =>
      unfold startTimerWithConfirm
      dsimp only
      split
      · exact .inl rfl
      · split
        · exact .inr rfl
        · exact .inl rfl

def computeDurationSeconds (startMs endMs : Number) : Number :=
  let delta := Number.sub endMs startMs
  if delta.isFinite then Number.atLeast 1 (Number.round (Number.div delta 1000)) else 1

/-- The seconds of a timer that ran for less than the whole range of dates: a
whole number, at least one, and less than one second more than the timer ran. -/
theorem computeDurationSeconds_spec {a b : ℤ} (hab : a ≤ b) (hmax : b - a ≤ Date.maxTime) :
    ∃ n : ℤ, computeDurationSeconds (.ofInt a) (.ofInt b) = .ofInt n ∧ 1 ≤ n ∧
      1000 * n ≤ b - a + 1000 := by
  have hlt : Date.maxTime < 2 ^ 53 := maxTime_lt
  have hdelta : Number.sub (.ofInt b) (.ofInt a) = .ofInt (b - a) := by
    apply Number.sub_ofInt
    rw [abs_of_nonneg (by omega)]
    omega
  -- the quotient is at most the next whole number, and so is what it is rounded to
  let m : ℤ := (b - a + 999) / 1000
  have hm : 0 ≤ m ∧ m < 2 ^ 53 ∧ b - a ≤ 1000 * m ∧ 1000 * m ≤ b - a + 999 := by omega
  have hquot : |((b - a : ℤ) : ℚ) / 1000| ≤ (m : ℚ) := by
    have hcast : ((b - a : ℤ) : ℚ) ≤ 1000 * (m : ℚ) := by exact_mod_cast hm.2.2.1
    have hnonneg : (0 : ℚ) ≤ ((b - a : ℤ) : ℚ) := by
      have : 0 ≤ b - a := by omega
      exact_mod_cast this
    rw [abs_of_nonneg (by positivity), div_le_iff₀ (by norm_num)]
    linarith
  obtain ⟨x, hx, hxm⟩ := Number.toDouble_bounded hquot hm.2.1
  have hdiv : Number.div (.ofInt (b - a)) 1000 = .fin x := by
    show (if (1000 : ℚ) = 0 then Number.infOf ((b - a : ℤ) : ℚ)
      else Number.toDouble (((b - a : ℤ) : ℚ) / 1000)) = _
    rw [if_neg (by norm_num), hx]
  have hround : ⌊x + 1 / 2⌋ ≤ m := by
    have hxm' : x ≤ (m : ℚ) := le_trans (le_abs_self x) hxm
    have hfloor : ⌊x + 1 / 2⌋ ≤ ⌊(m : ℚ) + 1 / 2⌋ := Int.floor_le_floor (by linarith)
    have hhalf : ⌊(m : ℚ) + 1 / 2⌋ = m := by
      rw [Int.floor_eq_iff]
      constructor <;> linarith
    omega
  refine ⟨max 1 ⌊x + 1 / 2⌋, ?_, le_max_left _ _, ?_⟩
  · have hone : (1 : Number) = .ofInt 1 := congrArg Number.fin (by norm_num)
    unfold computeDurationSeconds
    rw [hdelta]
    dsimp only
    have hfinite : (Number.ofInt (b - a)).isFinite = true := rfl
    rw [if_pos hfinite, hdiv, hone]
    exact Number.atLeast_ofInt 1 _
  · rcases max_cases (1 : ℤ) ⌊x + 1 / 2⌋ with ⟨h, -⟩ | ⟨h, -⟩ <;> rw [h] <;> omega

/-! ### Pages -/

/-- The windows that have a timer. -/
inductive Window where
  | main
  | overlay
  deriving DecidableEq

instance : Fintype Window where
  elems := {.main, .overlay}
  complete := fun w => by cases w <;> simp

/-- The parts of a page's state that its timer uses. -/
structure Page where
  overview : Option Overview
  activeTimer : Option ActiveTimer

/-- `resolveTitle` of `PlannerTodayPage`. -/
def resolveTitle (overview : Option Overview) (templateId : String) : String :=
  let title := overview.bind fun o =>
    ((o.daily.find? (·.templateId = templateId)).map (·.title)) <|>
    ((o.weekly.find? (·.templateId = templateId)).map (·.title)) <|>
    ((o.charges.find? (·.templateId = templateId)).map (·.title))
  (nonEmpty title).getD templateId

/-- `requestStartTimer`. -/
def Page.requestStartTimer (p : Page) (templateId : String) (title : Option String) (nowMs : ℤ)
    (confirmFn : String → Bool) : Page :=
  let nextTitle := title.getD (resolveTitle p.overview templateId)
  let resolve := fun id => if id = templateId then nextTitle else resolveTitle p.overview id
  { p with
    activeTimer := (startTimerWithConfirm p.activeTimer templateId nowMs resolve confirmFn).next }

/-- What `stopAndSaveTimer` sends. -/
structure Measured where
  characterId : String
  timer : ActiveTimer
  endedAtMs : ℤ

def Measured.toJs (m : Measured) : Js :=
  .obj [("characterId", .str m.characterId), ("templateId", .str m.timer.templateId),
    ("startedAt", .str (stamp m.timer.startedAtMs)), ("endedAt", .str (stamp m.endedAtMs)),
    ("seconds", .num (computeDurationSeconds (.ofInt m.timer.startedAtMs) (.ofInt m.endedAtMs)))]

/-- Nothing is sent without an overview or a timer. -/
def Page.measured (p : Page) (nowMs : ℤ) : Option Measured := do
  let overview ← p.overview
  let timer ← p.activeTimer
  pure ⟨overview.character.id, timer, nowMs⟩

/-! ### Both windows and the main process -/

/-- A call that is under way.  `awaited` is false once its page is gone, and
`stored` is what its answer says, from when the main process has served it. -/
structure Call where
  window : Window
  measured : Measured
  awaited : Bool
  stored : Option Bool

/-- The windows, the calls under way, and the database.  From which window a
session comes is not stored: `recordedBy` remembers it by the id of its row. -/
structure Timers where
  conn : Conn
  page : Window → Page
  calls : List Call
  recordedBy : String → Window

def Timers.setPage (s : Timers) (w : Window) (p : Page) : Timers :=
  { s with page := Function.update s.page w p }

/-- `shown` is a refresh, or an answer with an overview; `served` is the main
process at the call with a number, and `answered` its answer arriving; `other`
is anything else that the main process does. -/
inductive TimerEvent where
  | shown (w : Window) (overview : Option Overview)
  | requestStartTimer (templateId : String) (title : Option String) (confirmFn : String → Bool)
  | startTimer (templateId : String)
  | cancelTimer (w : Window)
  | left (w : Window)
  | stopAndSaveTimer (w : Window)
  | served (i : ℕ) (id : String) (persisted : Except String Unit)
  | answered (i : ℕ)
  | other (step : { step : Step // NoDuration step })

/-- Only the answer that a session is stored clears the timer. -/
def Timers.answer (s : Timers) (c : Call) : Timers :=
  if c.awaited ∧ c.stored = some true then
    s.setPage c.window { s.page c.window with activeTimer := none }
  else s

/-- The ids of the sessions that are stored. -/
def sessionIds (db : Db Row) : List String := (db .plannerDuration).map (·.id)

/-- The main process at a call that it has not served. -/
def Timers.serve (host : Host) (id : String) (persisted : Except String Unit) (s : Timers) (i : ℕ)
    (c : Call) : Timers :=
  let r := plannerAddDuration host (some c.measured.toJs) id persisted s.conn
  { s with
    conn := r.2
    calls := s.calls.set i { c with stored := some r.1.isOk }
    recordedBy := fun id' =>
      if id' ∈ sessionIds r.2.db ∧ id' ∉ sessionIds s.conn.db then c.window else s.recordedBy id' }

def TimerEvent.run (host : Host) (now : ℤ) (s : Timers) : TimerEvent → Timers
  | .shown w overview => s.setPage w { s.page w with overview := overview }
  | .requestStartTimer templateId title confirmFn =>
      s.setPage .main ((s.page .main).requestStartTimer templateId title now confirmFn)
  | .startTimer templateId =>
      s.setPage .overlay { s.page .overlay with activeTimer := some ⟨templateId, now⟩ }
  | .cancelTimer w => s.setPage w { s.page w with activeTimer := none }
  | .left w =>
      { s.setPage w ⟨none, none⟩ with
        calls := s.calls.map fun c => if c.window = w then { c with awaited := false } else c }
  | .stopAndSaveTimer w =>
      match (s.page w).measured now with
      | none => s
      | some m => { s with calls := s.calls ++ [⟨w, m, true, none⟩] }
  | .served i id persisted =>
      match s.calls[i]? with
      | some c => if c.stored = none then s.serve host id persisted i c else s
      | none => s
  | .answered i =>
      match s.calls[i]? with
      | some c => if c.stored = none then s else { s.answer c with calls := s.calls.eraseIdx i }
      | none => s
  | .other step => { s with conn := (step.1.run host s.conn).2 }

/-- The user waits for the answer before saving again: nothing in the page
keeps a second click from saving the same session twice. -/
def TimerEvent.Patient (s : Timers) : TimerEvent → Prop
  | .stopAndSaveTimer w => ∀ c ∈ s.calls, c.window = w → c.awaited = false
  | _ => True

/-- The database can be written to its file: if it cannot, the session is stored
and the answer says that it is not, so the user saves it again. -/
def TimerEvent.Persists : TimerEvent → Prop
  | .served _ _ persisted => persisted = .ok ()
  | _ => True

/-- The states of the application up to the time `t`, from a new installation
on, with a clock that never goes back. -/
inductive TimerRun (host : Host) (installed : ℤ) : ℤ → Timers → Prop where
  | opened : Date.Valid installed → 0 ≤ installed →
      TimerRun host installed installed
        ⟨opened none installed, fun _ => ⟨none, none⟩, [], fun _ => .main⟩
  | event {t now : ℤ} {s : Timers} {e : TimerEvent} :
      TimerRun host installed t s → t ≤ now → Date.Valid now → e.Patient s → e.Persists →
        TimerRun host installed now (e.run host now s)

end Renderer

end Hub
