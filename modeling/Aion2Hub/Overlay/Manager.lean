/-
Aion2Hub/Overlay/Manager.lean

When the overlay is visible (apps/desktop/src/main/overlay/overlayManager.ts).

The callbacks of the window, of the foreground watcher and of the calls of
`setEnabled` run one at a time, in any order; a call of `setEnabled` runs in
parts, with those of others in between.  `shouldShow` is what

    enabled, autoMode, gameFocused, overlayFocused

ask for.  Every callback brings the window in line with it but two: a call that
has only just been made, and the user's closing of the window, which hides it
and changes nothing else.
-/
import Aion2Hub.Overlay.Foreground

namespace Hub.Overlay

/-! ### State -/

/-- What a call of `setEnabled` waits for: the page of a window it has created,
the window, or the bounds to be persisted. -/
inductive Stage where
  | load
  | window
  | persist
  deriving DecidableEq

structure State where
  enabled : Bool
  /-- Whether the window is visible, once there is one. -/
  overlayWindow : Option Bool
  watcher : Bool
  autoMode : Bool
  gameFocused : Bool
  overlayFocused : Bool
  /-- A watcher has been started; its callbacks may come after it is stopped. -/
  started : Bool
  loadFailed : Bool
  /-- The calls of `setEnabled` that have not returned. -/
  pending : List Stage

def start : State where
  enabled := false
  overlayWindow := none
  watcher := false
  autoMode := false
  gameFocused := false
  overlayFocused := false
  started := false
  loadFailed := false
  pending := []

/-! ### The source -/

/-- `title.toLowerCase().includes("aion2")`; no other letters become these. -/
def isGameTitle (title : String) : Bool := decide ("aion2".toList <:+: title.toList.map Char.toLower)

/-- `hide` and `showInactive`, where there is a window. -/
def State.setVisible (s : State) (visible : Bool) : State :=
  { s with overlayWindow := s.overlayWindow.map fun _ => visible }

def updateVisibility (s : State) : State :=
  match s.overlayWindow with
  | none => s
  | some visible =>
      if ¬ s.enabled then
        if visible then s.setVisible false else s
      else if ¬ s.autoMode then
        if ¬ visible then s.setVisible true else s
      else
        let shouldShow := s.gameFocused || s.overlayFocused
        if shouldShow then
          if ¬ visible then s.setVisible true else s
        else
          if visible then s.setVisible false else s

def stopWatcher (s : State) : State :=
  if ¬ s.watcher then s else { s with watcher := false, autoMode := false, gameFocused := false }

/-- `starts` says whether there is a watcher on this platform. -/
def ensureWatcher (starts : Bool) (s : State) : State :=
  if s.watcher then s
  else if ¬ starts then { s with autoMode := false }
  else { s with watcher := true, autoMode := true, started := true }

/-- A call of `setEnabled` until it waits: for the page, if it has to create
the window, which is not shown yet. -/
def setEnabled (next : Bool) (s : State) : State :=
  match s.overlayWindow with
  | none => { s with enabled := next, overlayWindow := some false, pending := s.pending ++ [.load] }
  | some _ => { s with enabled := next, pending := s.pending ++ [.window] }

/-- The call goes on with the window; `enabled` is what it is by now. -/
def resumeSetEnabled (i : ℕ) (starts : Bool) (s : State) : State :=
  if s.enabled then
    updateVisibility (ensureWatcher starts { s with pending := s.pending.eraseIdx i })
  else stopWatcher (State.setVisible { s with pending := s.pending.set i .persist } false)

inductive Event where
  | setEnabled (next : Bool)
  | toggle
  | loaded
  | loadFailed
  | resume (i : ℕ) (starts : Bool)
  | persisted (i : ℕ)
  | focus
  | blur
  | close
  | foreground (info : ForegroundInfo)
  | unavailable

/-- The event can occur now. -/
def Event.possible (s : State) : Event → Bool
  | .setEnabled _ => true
  | .toggle => true
  | .loaded => .load ∈ s.pending
  | .loadFailed => .load ∈ s.pending
  | .resume i _ => s.pending[i]? = some .window
  | .persisted i => s.pending[i]? = some .persist
  | .focus => s.overlayWindow.isSome
  | .blur => s.overlayWindow.isSome
  | .close => s.overlayWindow.isSome
  | .foreground _ => s.started
  | .unavailable => s.started

def effect (s : State) : Event → State
  | .setEnabled next => setEnabled next s
  | .toggle => setEnabled (!s.enabled) s
  | .loaded => { s with pending := s.pending.map fun stage => if stage = .load then .window else stage }
  | .loadFailed =>
      -- the call that waits for the page is rejected
      { s with loadFailed := true, pending := s.pending.filter fun stage => stage ≠ .load }
  | .resume i starts => resumeSetEnabled i starts s
  | .persisted i => { s with pending := s.pending.eraseIdx i }
  | .focus => updateVisibility { s with overlayFocused := true }
  | .blur => updateVisibility { s with overlayFocused := false }
  | .close => s.setVisible false
  | .foreground info => updateVisibility { s with gameFocused := isGameTitle info.title }
  | .unavailable => updateVisibility (stopWatcher s)

def step (s : State) (e : Event) : Option State := if e.possible s then some (effect s e) else none

theorem step_eq_some {s s' : State} {e : Event} (h : step s e = some s') :
    e.possible s = true ∧ s' = effect s e := by
  rw [step, Option.ite_none_right_eq_some] at h
  exact ⟨h.1, (Option.some.inj h.2).symm⟩

/-- Events one after the other. -/
def runs : State → List Event → Option State
  | s, [] => some s
  | s, e :: events => (step s e).bind fun s' => runs s' events

/-! ### Visibility -/

/-- What the flags ask for. -/
def State.shouldShow (s : State) : Bool :=
  s.enabled && (!s.autoMode || (s.gameFocused || s.overlayFocused))

@[simp] theorem shouldShow_setVisible (s : State) (visible : Bool) :
    (s.setVisible visible).shouldShow = s.shouldShow := rfl

theorem overlayWindow_setVisible {s : State} {visible visible' : Bool}
    (h : (s.setVisible visible).overlayWindow = some visible') : visible' = visible := by
  obtain ⟨_, -, heq⟩ := Option.map_eq_some_iff.mp h
  exact heq.symm

theorem updateVisibility_eq (s : State) : updateVisibility s = s.setVisible s.shouldShow := by
  obtain ⟨enabled, window, watcher, autoMode, gameFocused, overlayFocused, started, failed, pending⟩ := s
  cases window with
  | none => rfl
  | some visible =>
      cases visible <;> cases enabled <;> cases autoMode <;> cases gameFocused <;>
        cases overlayFocused <;> rfl

/-- No page has failed to load, and no call has still to bring the window in
line. -/
def State.Settled (s : State) : Prop := s.loadFailed = false ∧ ∀ stage ∈ s.pending, stage = .persist

/-- Whether the user has closed the window since it was last brought in line
with the flags. -/
def closedAfter (closed : Bool) : Event → Bool
  | .close => true
  | .resume _ _ => false
  | .focus => false
  | .blur => false
  | .foreground _ => false
  | .unavailable => false
  | _ => closed

def closedSince (events : List Event) : Bool := events.foldl closedAfter false

/-- In a settled state the window is as the flags ask for, unless it has been
closed. -/
def Inv (s : State) (closed : Bool) : Prop :=
  s.Settled → ∀ visible, s.overlayWindow = some visible → visible = (s.shouldShow && !closed)

theorem inv_updateVisibility (s : State) : Inv (updateVisibility s) false := by
  intro _ visible h
  rw [updateVisibility_eq] at h ⊢
  rw [overlayWindow_setVisible h, shouldShow_setVisible, Bool.not_false, Bool.and_true]

theorem stopWatcher_frame (s : State) : (stopWatcher s).enabled = s.enabled ∧
    (stopWatcher s).overlayWindow = s.overlayWindow := by
  rw [stopWatcher]
  split
  · exact ⟨rfl, rfl⟩
  · exact ⟨rfl, rfl⟩

theorem ensureWatcher_enabled (starts : Bool) (s : State) :
    (ensureWatcher starts s).enabled = s.enabled := by
  rw [ensureWatcher]
  split
  · rfl
  · split <;> rfl

/-- A call that has just been made is not settled. -/
theorem not_settled_setEnabled (next : Bool) (s : State) : ¬ (setEnabled next s).Settled := by
  rintro ⟨-, hpending⟩
  rw [setEnabled] at hpending
  split at hpending
  · cases hpending .load (by simp)
  · cases hpending .window (by simp)

theorem inv_resumeSetEnabled (i : ℕ) (starts : Bool) (s : State) :
    Inv (resumeSetEnabled i starts s) false := by
  rw [resumeSetEnabled]
  split
  · exact inv_updateVisibility _
  · rename_i hdisabled
    intro _ visible h
    obtain ⟨henabled, hwindow⟩ := stopWatcher_frame
      (State.setVisible { s with pending := s.pending.set i .persist } false)
    rw [hwindow] at h
    have hoff : s.enabled = false := by simpa using hdisabled
    rw [overlayWindow_setVisible h, State.shouldShow, henabled]
    show false = (s.enabled && _ && !false)
    rw [hoff]
    rfl

theorem inv_step {s s' : State} {e : Event} {closed : Bool} (hstep : step s e = some s')
    (h : Inv s closed) : Inv s' (closedAfter closed e) := by
  obtain ⟨hpossible, rfl⟩ := step_eq_some hstep
  cases e with
  | setEnabled next => exact fun hsettled => absurd hsettled (not_settled_setEnabled next s)
  | toggle => exact fun hsettled => absurd hsettled (not_settled_setEnabled _ s)
  | loaded =>
      -- the call that has waited for the page goes on
      intro hsettled
      have hwindow : Stage.window ∈ s.pending.map fun stage => if stage = .load then .window else stage :=
        List.mem_map.mpr ⟨.load, of_decide_eq_true hpossible, rfl⟩
      cases hsettled.2 .window hwindow
  | loadFailed =>
      intro hsettled
      cases hsettled.1
  | resume i starts => exact inv_resumeSetEnabled i starts s
  | persisted i =>
      intro hsettled
      apply h
      refine ⟨hsettled.1, fun stage hstage => ?_⟩
      obtain ⟨hlt, hget⟩ := List.getElem?_eq_some_iff.mp (of_decide_eq_true hpossible)
      rcases List.mem_cons.mp ((List.getElem_cons_eraseIdx_perm hlt).mem_iff.mpr hstage) with rfl | hrest
      · exact hget
      · exact hsettled.2 stage hrest
  | focus => exact inv_updateVisibility _
  | blur => exact inv_updateVisibility _
  | close =>
      intro _ visible hvisible
      rw [overlayWindow_setVisible hvisible]
      exact (Bool.and_false _).symm
  | foreground info => exact inv_updateVisibility _
  | unavailable => exact inv_updateVisibility _

theorem inv_runs {s t : State} {events : List Event} {closed : Bool} (hruns : runs s events = some t)
    (h : Inv s closed) : Inv t (events.foldl closedAfter closed) := by
  induction events generalizing s closed with
  | nil =>
      obtain rfl := Option.some.inj hruns
      exact h
  | cons e events ih =>
      obtain ⟨s', hstep, hrest⟩ := Option.bind_eq_some_iff.mp hruns
      exact ih hrest (inv_step hstep h)

/-! ### The last call -/

/-- What a call of `setEnabled` asks for; a toggle asks for the opposite of what
is. -/
def Event.requested (s : State) : Event → Option Bool
  | .setEnabled next => some next
  | .toggle => some (!s.enabled)
  | _ => none

theorem enabled_updateVisibility (s : State) : (updateVisibility s).enabled = s.enabled := by
  rw [updateVisibility_eq]
  rfl

theorem enabled_setEnabled (next : Bool) (s : State) : (setEnabled next s).enabled = next := by
  rw [setEnabled]
  split <;> rfl

/-- Nothing but a call changes `enabled`. -/
theorem enabled_step {s s' : State} {e : Event} (hstep : step s e = some s') :
    s'.enabled = (e.requested s).getD s.enabled := by
  obtain ⟨-, rfl⟩ := step_eq_some hstep
  cases e with
  | setEnabled next => exact enabled_setEnabled next s
  | toggle => exact enabled_setEnabled _ s
  | loaded => rfl
  | loadFailed => rfl
  | resume i starts =>
      show (resumeSetEnabled i starts s).enabled = s.enabled
      rw [resumeSetEnabled]
      split
      · rw [enabled_updateVisibility, ensureWatcher_enabled]
      · exact (stopWatcher_frame _).1
  | persisted i => rfl
  | focus => exact enabled_updateVisibility _
  | blur => exact enabled_updateVisibility _
  | close => rfl
  | foreground info => exact enabled_updateVisibility _
  | unavailable => exact (enabled_updateVisibility _).trans (stopWatcher_frame s).1

/-- Without a call nothing does. -/
theorem enabled_runs {s t : State} {events : List Event} (hruns : runs s events = some t)
    (hnone : ∀ e ∈ events, ∀ s, e.requested s = none) : t.enabled = s.enabled := by
  induction events generalizing s with
  | nil => rw [Option.some.inj hruns]
  | cons e events ih =>
      obtain ⟨s', hstep, hrest⟩ := Option.bind_eq_some_iff.mp hruns
      obtain ⟨he, hevents⟩ := List.forall_mem_cons.mp hnone
      rw [ih hrest hevents, enabled_step hstep, he s]
      rfl

theorem runs_append (s : State) (before after : List Event) :
    runs s (before ++ after) = (runs s before).bind fun s' => runs s' after := by
  induction before generalizing s with
  | nil => rfl
  | cons e before ih =>
      rw [List.cons_append, runs, runs, Option.bind_assoc]
      congr 1
      funext s'
      exact ih s'

theorem inv_start : Inv start false := by
  intro _ visible h
  cases h

/-- **The overlay is visible when it should be**, except that a window the user
has closed stays hidden until a callback brings it in line again; and the last
call of `setEnabled` says whether it is enabled. -/
theorem overlay_visible_iff {events : List Event} {s : State} (h : runs start events = some s) :
    (s.pending = [] → s.loadFailed = false → ∀ visible, s.overlayWindow = some visible →
      (visible = true ↔ s.enabled = true ∧
        (s.autoMode = false ∨ s.gameFocused = true ∨ s.overlayFocused = true) ∧
        closedSince events = false)) ∧
    ∀ before call after s₀ next, events = before ++ call :: after → runs start before = some s₀ →
      call.requested s₀ = some next → (∀ e ∈ after, ∀ s, e.requested s = none) →
      s.enabled = next := by
  constructor
  · intro hpending hloaded visible hvisible
    have hsettled : s.Settled := ⟨hloaded, by simp [hpending]⟩
    rw [inv_runs h inv_start hsettled visible hvisible]
    simp [State.shouldShow, closedSince, and_assoc]
  · rintro before call after s₀ next rfl hbefore hnext hafter
    rw [runs_append, hbefore, Option.bind_some] at h
    obtain ⟨s₁, hstep, hrest⟩ := Option.bind_eq_some_iff.mp h
    rw [enabled_runs hrest hafter, enabled_step hstep, hnext]
    rfl

/-- The overlay is enabled, its page loads, and the game comes to the front. -/
theorem overlay_visible_game : ∃ s, runs start [.setEnabled true, .loaded, .resume 0 true,
    .foreground game.reported] = some s ∧ s.overlayWindow = some true := by
  have hruns : runs start [.setEnabled true, .loaded, .resume 0 true, .foreground game.reported] =
      some _ := rfl
  have hvisible := (overlay_visible_iff hruns).1 rfl rfl _ rfl
  exact ⟨_, hruns, congrArg some (hvisible.mpr (by decide))⟩

/-- A window that the user has closed is hidden, although it should be shown. -/
theorem not_visible_closed : ∃ s, runs start [.setEnabled true, .loaded, .resume 0 false, .close] =
    some s ∧ s.pending = [] ∧ s.loadFailed = false ∧ s.overlayWindow = some false ∧
      s.enabled = true ∧ s.autoMode = false :=
  ⟨_, rfl, rfl, rfl, rfl, rfl, rfl⟩

end Hub.Overlay
