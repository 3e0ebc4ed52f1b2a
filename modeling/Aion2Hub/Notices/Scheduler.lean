/-
Aion2Hub/Notices/Scheduler.lean

`startNoticesScheduler` of `scheduler.ts`.

The variable `inFlight` is the lock and the result: `run` returns it if it is
set, and otherwise assigns it the promise of an async function that calls
`sync` and whose `finally` clears the variable.  The call of `sync` is the
synchronous part of that function, so it comes *before* the assignment:

* if `sync` throws, the `finally` runs first, and the assignment then leaves
  the promise of a run that is over in the variable;
* if `sync` triggers the scheduler itself, the variable is not set yet.

The steps below keep the calls of `sync` that have not returned on a stack.
In a run of the scheduler in which neither happens, and no rejection defeats
`String(e)`, there is at most one invocation, and every trigger after it
starts the next one (`guarantees_of_safe_run`).
-/
import Mathlib.Data.List.Basic
import Mathlib.Tactic.Common

namespace Hub

namespace Scheduler

variable {R : Type}

/-! ### States -/

inductive Reason where
  | startup
  | interval
  | manual
  deriving DecidableEq

/-- How an invocation ends.  A thrown value that `String` cannot convert has
no message. -/
inductive Outcome (R : Type) where
  | ok (result : R)
  | failed (message : Option String)

/-- `NoticesSchedulerStatus`; the last result is the reason with what `sync`
returned. -/
structure Status (R : Type) where
  running : Bool
  lastRunAt : Option String
  lastResult : Option (Reason × Option R)
  lastError : Option String

/-- The call of `sync` has not returned, its promise is awaited, or the
function around it is over. -/
inductive Phase where
  | calling
  | pending
  | finished
  deriving DecidableEq

/-- An invocation of `sync`, made by one call of `run`. -/
structure Invocation where
  reason : Reason
  phase : Phase

/-- A call of `syncNow()`: the invocation whose promise it awaits, those that
were in progress when it was made, and whether it has started one. -/
structure Call where
  awaits : ℕ
  inProgress : List ℕ
  started : Bool
  settled : Bool

/-- The variables of the scheduler, the invocations in the order they were
started, the calls of `sync` on the stack, innermost first, and the last
invocation that has finished. -/
structure State (R : Type) where
  status : Status R
  inFlight : Option ℕ
  invocations : List Invocation
  stack : List ℕ
  calls : List Call
  last : Option (String × Outcome R)

/-- Before the first `run("startup")`. -/
def start : State R := ⟨⟨false, none, none, none⟩, none, [], [], [], none⟩

variable {s s' : State R} {k : ℕ}

def State.phase? (s : State R) (k : ℕ) : Option Phase := s.invocations[k]?.map (·.phase)

/-- The invocation has been started and is not over. -/
def State.InProgress (s : State R) (k : ℕ) : Prop :=
  s.phase? k = some .calling ∨ s.phase? k = some .pending

instance (s : State R) (k : ℕ) : Decidable (s.InProgress k) :=
  inferInstanceAs (Decidable (_ ∨ _))

def State.inProgress (s : State R) : List ℕ :=
  (List.range s.invocations.length).filter fun k => s.InProgress k

def State.setPhase (s : State R) (k : ℕ) (phase : Phase) : State R :=
  { s with invocations := s.invocations.modify k fun i => { i with phase := phase } }

/-! ### Steps -/

/-- `status` after the `try … catch … finally`: a message that cannot be made
leaves `lastError` alone. -/
def Status.finish (st : Status R) (reason : Reason) (outcome : Outcome R) (now : String) :
    Status R :=
  match outcome with
  | .ok result => ⟨false, some now, some (reason, some result), none⟩
  | .failed (some message) => ⟨false, some now, some (reason, none), some message⟩
  | .failed none => ⟨false, some now, some (reason, none), st.lastError⟩

/-- `catch` and `finally` of the function around invocation `k`. -/
def State.finish (s : State R) (k : ℕ) (reason : Reason) (outcome : Outcome R) (now : String) :
    State R :=
  { s.setPhase k .finished with
    status := s.status.finish reason outcome now
    inFlight := none
    last := some (now, outcome) }

/-- The calls after a trigger: only `syncNow()` has somebody waiting. -/
def State.record (s : State R) (reason : Reason) (awaits : ℕ) (started : Bool) : List Call :=
  if reason = .manual then s.calls ++ [⟨awaits, s.inProgress, started, false⟩] else s.calls

/-- `run(reason)` up to the call of `sync`. -/
def State.trigger (s : State R) (reason : Reason) : State R :=
  match s.inFlight with
  | some k => { s with calls := s.record reason k false }
  | none =>
      { s with
        status := { s.status with running := true, lastError := none }
        invocations := s.invocations ++ [⟨reason, .calling⟩]
        stack := s.invocations.length :: s.stack
        calls := s.record reason s.invocations.length true }

inductive Event (R : Type) where
  | trigger (reason : Reason)
  | returns
  | throws (message : Option String) (now : String)
  | completes (k : ℕ) (outcome : Outcome R) (now : String)
  | settles (i : ℕ)

/-- While a call of `sync` is on the stack nothing else runs but what it calls
itself. -/
inductive Step (s : State R) : Event R → State R → Prop where
  | trigger (reason : Reason) : Step s (.trigger reason) (s.trigger reason)
  | returns {k : ℕ} {rest : List ℕ} : s.stack = k :: rest →
      Step s .returns { s.setPhase k .pending with inFlight := some k, stack := rest }
  | throws {k : ℕ} {rest : List ℕ} {i : Invocation} {message : Option String} {now : String} :
      s.stack = k :: rest → s.invocations[k]? = some i →
      Step s (.throws message now)
        { s.finish k i.reason (.failed message) now with inFlight := some k, stack := rest }
  | completes {k : ℕ} {i : Invocation} {outcome : Outcome R} {now : String} : s.stack = [] →
      s.invocations[k]? = some i → i.phase = .pending →
      Step s (.completes k outcome now) (s.finish k i.reason outcome now)
  | settles {i : ℕ} {call : Call} : s.stack = [] → s.calls[i]? = some call →
      call.settled = false → s.phase? call.awaits = some .finished →
      Step s (.settles i) { s with calls := s.calls.modify i fun c => { c with settled := true } }

/-- The states of the runs from `start` whose steps all satisfy `Safe`. -/
inductive Reaches (Safe : State R → Event R → Prop) : State R → Prop where
  | start : Reaches Safe start
  | step {s t : State R} {e : Event R} : Reaches Safe s → Step s e t → Safe s e → Reaches Safe t

/-! ### What is promised -/

/-- The status tells how the last invocation has ended. -/
def Describes (st : Status R) : Option (String × Outcome R) → Prop
  | none => st.lastRunAt = none ∧ st.lastError = none
  | some (now, .ok _) => st.lastRunAt = some now ∧ st.lastError = none
  | some (now, .failed message) =>
      st.lastRunAt = some now ∧ st.lastError.isSome ∧ ∀ m ∈ message, st.lastError = some m

structure Guarantees (s : State R) : Prop where
  /-- At most one invocation is in progress. -/
  exclusive : ∀ j k, s.InProgress j → s.InProgress k → j = k
  /-- A call that has settled awaited an invocation that was in progress when
  it was made, or that it started, and that has finished. -/
  settled : ∀ call ∈ s.calls, call.settled = true →
    (call.awaits ∈ call.inProgress ∨ call.started = true) ∧
      s.phase? call.awaits = some .finished
  idle : (∀ k, ¬ s.InProgress k) → s.status.running = false ∧ Describes s.status s.last
  /-- Between invocations a trigger starts one. -/
  starts : (∀ k, ¬ s.InProgress k) → ∀ reason,
    (s.trigger reason).phase? s.invocations.length = some .calling

/-- No trigger comes from inside a call of `sync` that has not returned, no
call of `sync` throws, and what a promise is rejected with has a message. -/
def Safe (s : State R) : Event R → Prop
  | .trigger _ => s.stack = []
  | .throws _ _ => False
  | .completes _ outcome _ => outcome ≠ .failed none
  | _ => True

/-! ### The invariant -/

/-- Nothing is in progress, a call of `sync` is on the stack, or its promise
is awaited. -/
inductive Mode (s : State R) : Prop where
  | idle : s.stack = [] → s.inFlight = none → (∀ k, ¬ s.InProgress k) →
      s.status.running = false → Describes s.status s.last → Mode s
  | calling (k : ℕ) : s.stack = [k] → s.inFlight = none → s.phase? k = some .calling →
      (∀ j, s.InProgress j → j = k) → Mode s
  | pending (k : ℕ) : s.stack = [] → s.inFlight = some k → s.phase? k = some .pending →
      (∀ j, s.InProgress j → j = k) → Mode s

structure Inv (s : State R) : Prop where
  mode : Mode s
  calls : ∀ call ∈ s.calls, (call.awaits ∈ call.inProgress ∨ call.started = true) ∧
    (call.settled = true → s.phase? call.awaits = some .finished)

theorem phase?_setPhase (s : State R) (k j : ℕ) (phase : Phase) :
    (s.setPhase k phase).phase? j =
      if j = k then (s.phase? j).map fun _ => phase else s.phase? j := by
  rw [State.phase?, State.setPhase, List.getElem?_modify, State.phase?]
  by_cases hj : j = k
  · subst hj
    rw [if_pos rfl]
    cases s.invocations[j]? <;> simp
  · rw [if_neg hj]
    cases s.invocations[j]? <;> simp [Ne.symm hj]

theorem inProgress_lt (h : s.InProgress k) : k < s.invocations.length := by
  have hsome : ∃ phase, s.phase? k = some phase := by
    rcases h with h | h
    · exact ⟨_, h⟩
    · exact ⟨_, h⟩
  obtain ⟨phase, hphase⟩ := hsome
  obtain ⟨i, hi, -⟩ := Option.map_eq_some_iff.mp hphase
  exact (List.getElem?_eq_some_iff.mp hi).1

theorem mem_inProgress : k ∈ s.inProgress ↔ s.InProgress k := by
  rw [State.inProgress, List.mem_filter, List.mem_range, decide_eq_true_iff]
  exact ⟨fun h => h.2, fun h => ⟨inProgress_lt h, h⟩⟩

/-- After the only invocation in progress is over, there is none. -/
theorem not_inProgress_setPhase_finished (honly : ∀ j, s.InProgress j → j = k) (j : ℕ) :
    ¬ (s.setPhase k .finished).InProgress j := by
  intro h
  unfold State.InProgress at h
  rw [phase?_setPhase] at h
  by_cases hj : j = k
  · rw [if_pos hj] at h
    rcases h with h | h <;>
      · obtain ⟨-, -, h⟩ := Option.map_eq_some_iff.mp h
        cases h
  · rw [if_neg hj] at h
    exact hj (honly j h)

theorem trigger_of_none (h : s.inFlight = none) (reason : Reason) : s.trigger reason =
    { s with
      status := { s.status with running := true, lastError := none }
      invocations := s.invocations ++ [⟨reason, .calling⟩]
      stack := s.invocations.length :: s.stack
      calls := s.record reason s.invocations.length true } := by
  rw [State.trigger, h]

theorem trigger_of_some (h : s.inFlight = some k) (reason : Reason) :
    s.trigger reason = { s with calls := s.record reason k false } := by
  rw [State.trigger, h]

theorem mem_record {reason : Reason} {awaits : ℕ} {started : Bool} {call : Call}
    (h : call ∈ s.record reason awaits started) :
    call ∈ s.calls ∨ call = ⟨awaits, s.inProgress, started, false⟩ := by
  rw [State.record] at h
  split at h
  · rcases List.mem_append.mp h with h | h
    · exact .inl h
    · exact .inr (List.mem_singleton.mp h)
  · exact .inl h

/-- The phases after a trigger that starts an invocation. -/
theorem phase?_append (s : State R) (reason : Reason) (j : ℕ) :
    ((s.invocations ++ [⟨reason, .calling⟩])[j]?.map Invocation.phase) =
      if j = s.invocations.length then some .calling else s.phase? j := by
  by_cases hj : j = s.invocations.length
  · subst hj
    rw [if_pos rfl, List.getElem?_append_right (Nat.le_refl _), Nat.sub_self]
    rfl
  · rw [if_neg hj, State.phase?]
    rcases Nat.lt_or_gt_of_ne hj with hlt | hgt
    · rw [List.getElem?_append_left hlt]
    · rw [List.getElem?_eq_none (by simp; omega), List.getElem?_eq_none (by omega)]

/-! ### One step -/

theorem inv_trigger (h : Inv s) (hstack : s.stack = []) (reason : Reason) :
    Inv (s.trigger reason) := by
  cases h.mode with
  | calling k hk =>
      rw [hstack] at hk
      cases hk
  | idle _ hflight hidle hrunning hdescribes =>
      -- nothing is in flight, so this trigger starts an invocation
      rw [trigger_of_none hflight]
      have hphase : ∀ j, State.phase? (R := R) { s with
          status := { s.status with running := true, lastError := none }
          invocations := s.invocations ++ [⟨reason, .calling⟩]
          stack := s.invocations.length :: s.stack
          calls := s.record reason s.invocations.length true } j =
            if j = s.invocations.length then some .calling else s.phase? j :=
        phase?_append s reason
      refine ⟨.calling s.invocations.length (by rw [hstack]) hflight ?_ fun j hj => ?_,
        fun call hcall => ?_⟩
      · rw [hphase, if_pos rfl]
      · by_contra hne
        unfold State.InProgress at hj
        rw [hphase, if_neg hne] at hj
        exact hidle j hj
      · rcases mem_record hcall with hcall | rfl
        · obtain ⟨hawaits, hsettled⟩ := h.calls call hcall
          refine ⟨hawaits, fun hs => ?_⟩
          rw [hphase, if_neg, hsettled hs]
          intro heq
          obtain ⟨i, hi, -⟩ := Option.map_eq_some_iff.mp (hsettled hs)
          have hlt := (List.getElem?_eq_some_iff.mp hi).1
          omega
        · exact ⟨.inr rfl, nofun⟩
  | pending k _ hflight hpending honly =>
      -- the trigger joins the invocation in flight
      rw [trigger_of_some hflight]
      refine ⟨.pending k hstack hflight hpending honly, fun call hcall => ?_⟩
      rcases mem_record hcall with hcall | rfl
      · exact h.calls call hcall
      · exact ⟨.inl (mem_inProgress.mpr (.inr hpending)), nofun⟩

/-- The phase of an invocation that is not over changes. -/
theorem inv_calls_setPhase (h : Inv s) {phase : Phase} (hk : s.phase? k ≠ some .finished) :
    ∀ call ∈ s.calls, (call.awaits ∈ call.inProgress ∨ call.started = true) ∧
      (call.settled = true → (s.setPhase k phase).phase? call.awaits = some .finished) := by
  intro call hcall
  obtain ⟨hawaits, hsettled⟩ := h.calls call hcall
  refine ⟨hawaits, fun hs => ?_⟩
  rw [phase?_setPhase, if_neg, hsettled hs]
  rintro rfl
  exact hk (hsettled hs)

theorem describes_finish (st : Status R) (reason : Reason) {outcome : Outcome R} (now : String)
    (h : outcome ≠ .failed none) : Describes (st.finish reason outcome now) (some (now, outcome)) := by
  cases outcome with
  | ok result => exact ⟨rfl, rfl⟩
  | failed message =>
      cases message with
      | none => exact absurd rfl h
      | some m =>
          refine ⟨rfl, rfl, fun m' hm' => ?_⟩
          cases hm'
          rfl

theorem finish_running (st : Status R) (reason : Reason) (outcome : Outcome R) (now : String) :
    (st.finish reason outcome now).running = false := by
  rcases outcome with result | (_ | message) <;> rfl

theorem inv_step {e : Event R} (h : Inv s) (hsafe : Safe s e) (hstep : Step s e s') : Inv s' := by
  cases hstep with
  | trigger reason => exact inv_trigger h hsafe reason
  | throws => exact hsafe.elim
  | @returns k rest hstack =>
      cases h.mode with
      | idle hempty =>
          rw [hempty] at hstack
          cases hstack
      | pending _ hempty =>
          rw [hempty] at hstack
          cases hstack
      | calling k' hcalling _ hphase honly =>
          rw [hcalling] at hstack
          cases hstack
          have hnew : (s.setPhase k .pending).phase? k = some .pending := by
            rw [phase?_setPhase, if_pos rfl, hphase]
            rfl
          refine ⟨.pending k rfl rfl hnew fun j hj => ?_,
            inv_calls_setPhase h (by rw [hphase]; nofun)⟩
          by_contra hne
          have hj : (s.setPhase k .pending).InProgress j := hj
          unfold State.InProgress at hj
          rw [phase?_setPhase, if_neg hne] at hj
          exact hne (honly j hj)
  | @completes k i outcome now hstack hi hpending =>
      have hphase : s.phase? k = some .pending := by
        rw [State.phase?, hi, Option.map_some, hpending]
      have honly : ∀ j, s.InProgress j → j = k := by
        cases h.mode with
        | idle _ _ hidle => exact absurd (.inr hphase) (hidle k)
        | calling _ hcalling =>
            rw [hstack] at hcalling
            cases hcalling
        | pending k' _ _ _ honly =>
            obtain rfl := honly k (.inr hphase)
            exact honly
      refine ⟨.idle hstack rfl (not_inProgress_setPhase_finished honly)
        (finish_running _ _ _ _) (describes_finish _ _ _ hsafe), ?_⟩
      exact inv_calls_setPhase h (by rw [hphase]; nofun)
  | @settles i call hstack hcall hopen hfinished =>
      refine ⟨?_, fun c hc => ?_⟩
      · cases h.mode with
        | idle h₁ h₂ h₃ h₄ h₅ => exact .idle h₁ h₂ h₃ h₄ h₅
        | calling k h₁ h₂ h₃ h₄ => exact .calling k h₁ h₂ h₃ h₄
        | pending k h₁ h₂ h₃ h₄ => exact .pending k h₁ h₂ h₃ h₄
      · obtain ⟨j, hj⟩ := List.getElem?_of_mem hc
        rw [List.getElem?_modify] at hj
        obtain ⟨c₀, hc₀, rfl⟩ := Option.map_eq_some_iff.mp hj
        obtain ⟨hawaits, hsettled⟩ := h.calls c₀ (List.mem_of_getElem? hc₀)
        split
        · rename_i hij
          subst hij
          obtain rfl : call = c₀ := by
            rw [hcall] at hc₀
            exact Option.some.inj hc₀
          exact ⟨hawaits, fun _ => hfinished⟩
        · exact ⟨hawaits, hsettled⟩

/-! ### Runs -/

theorem inv_start : Inv (start : State R) where
  mode := .idle rfl rfl (fun k h => by rcases h with h | h <;> cases h) rfl ⟨rfl, rfl⟩
  calls _ h := by cases h

theorem inv_of_safe_run (h : Reaches Safe s) : Inv s := by
  induction h with
  | start => exact inv_start
  | step _ hstep hsafe ih => exact inv_step ih hsafe hstep

theorem Inv.guarantees (h : Inv s) : Guarantees s where
  exclusive j k hj hk := by
    cases h.mode with
    | idle _ _ hidle => exact absurd hj (hidle j)
    | calling _ _ _ _ honly => exact (honly j hj).trans (honly k hk).symm
    | pending _ _ _ _ honly => exact (honly j hj).trans (honly k hk).symm
  settled call hcall hs := ⟨(h.calls call hcall).1, (h.calls call hcall).2 hs⟩
  idle hidle := by
    cases h.mode with
    | idle _ _ _ hrunning hdescribes => exact ⟨hrunning, hdescribes⟩
    | calling k _ _ hphase => exact absurd (.inl hphase) (hidle k)
    | pending k _ _ hphase => exact absurd (.inr hphase) (hidle k)
  starts hidle reason := by
    cases h.mode with
    | idle _ hflight =>
        rw [trigger_of_none hflight]
        exact (phase?_append s reason _).trans (if_pos rfl)
    | calling k _ _ hphase => exact absurd (.inl hphase) (hidle k)
    | pending k _ _ hphase => exact absurd (.inr hphase) (hidle k)

/-- **In every run in which no call of `sync` throws or triggers the scheduler
before it returns, and every rejection has a message, the scheduler never
overlaps and never gets stuck.** -/
theorem guarantees_of_safe_run (h : Reaches Safe s) : Guarantees s :=
  (inv_of_safe_run h).guarantees

/-- The startup run awaits its promise. -/
def awaiting : State Unit where
  status := ⟨true, none, none, none⟩
  inFlight := some 0
  invocations := [⟨.startup, .pending⟩]
  stack := []
  calls := []
  last := none

/-- `syncNow()` joins it, and settles after it. -/
theorem guarantees_joined : Guarantees { (awaiting.trigger .manual).finish 0 .startup (.ok ()) "t1"
    with calls := [⟨0, [0], false, true⟩] } := by
  have h₁ : Step (start : State Unit) (.trigger .startup) _ := .trigger .startup
  have h₂ : Step ((start : State Unit).trigger .startup) .returns awaiting := .returns rfl
  have h₃ : Step awaiting (.trigger .manual) (awaiting.trigger .manual) := .trigger .manual
  have h₄ : Step (awaiting.trigger .manual) (.completes 0 (.ok ()) "t1")
      ((awaiting.trigger .manual).finish 0 .startup (.ok ()) "t1") :=
    .completes (i := ⟨.startup, .pending⟩) rfl rfl rfl
  have h₅ : Step ((awaiting.trigger .manual).finish 0 .startup (.ok ()) "t1") (.settles 0) _ :=
    .settles rfl rfl rfl rfl
  exact guarantees_of_safe_run
    (((((Reaches.start.step h₁ rfl).step h₂ trivial).step h₃ rfl).step h₄ nofun).step h₅ trivial)

/-! ### A callback that throws -/

/-- The startup run's call of `sync` has thrown. -/
def thrown : State Unit where
  status := ⟨false, some "t1", some (.startup, none), some "boom"⟩
  inFlight := some 0
  invocations := [⟨.startup, .finished⟩]
  stack := []
  calls := []
  last := some ("t1", .failed (some "boom"))

/-- Its promise stays in `inFlight`, and no trigger starts anything again. -/
theorem not_guarantees_thrown :
    ∃ s : State Unit, Reaches (fun _ _ => True) s ∧ ¬ Guarantees s := by
  have h₁ : Step (start : State Unit) (.trigger .startup) _ := .trigger .startup
  have h₂ : Step _ (.throws (some "boom") "t1") thrown :=
    .throws (s := (start : State Unit).trigger .startup) rfl rfl
  refine ⟨thrown, (Reaches.start.step h₁ trivial).step h₂ trivial, fun h => ?_⟩
  have hidle : ∀ k, ¬ thrown.InProgress k := by
    intro k hk
    obtain rfl : k = 0 := Nat.lt_one_iff.mp (inProgress_lt hk)
    revert hk
    decide
  have hstarts := h.starts hidle .manual
  cases hstarts

end Scheduler

end Hub
