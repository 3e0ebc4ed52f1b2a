/-
Aion2Hub/Planner/Sessions.lean

What the timers record.

Main result: at any instant at most one of the sessions that a window has
recorded runs, so the seconds that are recorded add up to at most twice the time
since the installation and one second for each session (`sessions_of_run`).

`Tracked` says what the calls under way, the stored sessions and the timers
have to do with each other; `owner` is the window that a session comes from.
-/
import Aion2Hub.Lib.Fades
import Aion2Hub.Lib.Intervals
import Aion2Hub.Planner.Timer

namespace Hub

open Sql Exec

/-! ### Durations that go -/

/-- A duration without its template, which may be taken from it later. -/
def session (r : PlannerDuration) : PlannerDuration := { r with templateId := none }

/-- The tables of the durations and of what they refer to. -/
def durationTables : List Table := [.plannerDuration, .appCharacter, .plannerTemplate]

theorem closed_duration : schema.Closed (· ∈ durationTables) := by
  intro t ht fk hfk
  rcases List.mem_cons.mp ht with rfl | ht
  · rcases List.mem_pair.mp hfk with rfl | rfl
    · exact List.mem_cons_of_mem _ List.mem_cons_self
    · exact List.mem_cons_of_mem _ (List.mem_cons_of_mem _ List.mem_cons_self)
  · rcases List.mem_pair.mp ht with rfl | rfl <;> exact absurd hfk List.not_mem_nil

theorem clear_session : ∀ fk ∈ schema.foreignKeys .plannerDuration, ∀ clear,
    fk.onDelete = .setNull clear → ∀ r, session (clear r) = session r := by
  intro fk hfk clear hclear r
  rcases List.mem_pair.mp hfk with rfl | rfl
  · cases hclear
  · cases hclear
    rfl

section

variable {α : Type} {m : Prog α}

/-- The durations only become fewer. -/
abbrev Forgets (m : Prog α) : Prop := Fades .plannerDuration session m

theorem forgets_of_leaves (h : Leaves (· ∈ durationTables) m) : Forgets m :=
  h.fades List.mem_cons_self

theorem forgets_delete {t : Table} {p : Row t → Bool} : Forgets (schema.delete t p) :=
  fades_delete clear_session

theorem forgets_insert {t : Table} {r : Row t} (ht : t ≠ .plannerDuration) :
    Forgets (schema.insert .abort t r) := by
  have hleaves : Leaves (· = Table.plannerDuration) (schema.insert .abort t r) :=
    leaves_insert_abort ht
  exact hleaves.fades rfl

theorem forgets_update {t : Table} {p : Row t → Bool} {g : Row t → Row t}
    (ht : t ≠ .plannerDuration) : Forgets (schema.update t p g) := by
  have hleaves : Leaves (· = Table.plannerDuration) (schema.update t p g) := leaves_update ht
  exact hleaves.fades rfl

theorem forgets_assign {rows : Db Row → List PlannerAssignment} :
    Forgets (schema.insertSelect .ignore .plannerAssignment rows) :=
  forgets_of_leaves (leaves_insertSelect closed_duration (by decide))

theorem forgets_createPlannerTemplate {input : TemplateInput} {draw : Draw} :
    Forgets (createPlannerTemplate input draw) :=
  Fades.ofOption.bind fun _ => (forgets_insert (by decide)).bind fun _ =>
    forgets_assign.bind fun _ => Fades.pure

theorem forgets_updatePlannerTemplate {id : String} {input : TemplateInput} {now : ℤ} :
    Forgets (updatePlannerTemplate id input now) := by
  unfold updatePlannerTemplate
  split
  · exact forgets_update (by decide)
  · refine Fades.gets.bind fun row => ?_
    split
    · exact Fades.throw
    · exact Fades.pure

theorem forgets_createMissing {host : Host} {draws : ℕ → Draw} {ts : List TemplateInput}
    {keys : List String} {created skipped : ℕ} :
    Forgets (createMissing host draws ts keys created skipped) := by
  induction ts generalizing keys created skipped with
  | nil => exact Fades.pure
  | cons t ts ih =>
      unfold createMissing
      split
      · exact ih
      · exact forgets_createPlannerTemplate.bind fun _ => ih

theorem forgets_applyPlannerPreset {host : Host} {mode : PresetMode} {templates : List Js}
    {draws : ℕ → Draw} : Forgets (applyPlannerPreset host mode templates draws) := by
  have hclear : Forgets (clearForPreset mode) := by
    unfold clearForPreset
    split
    · exact forgets_delete
    · exact Fades.pure
  exact hclear.bind fun _ => Fades.gets.bind fun _ => forgets_createMissing

end

/-- Only two operations add durations. -/
theorem forgets_run {host : Host} {op : Op} (h : NoDuration (.op op)) : Forgets (op.run host) := by
  have elsewhere : ∀ op : Op, (∀ t ∈ op.writes, t ∉ durationTables) → Forgets (op.run host) :=
    fun op hop => forgets_of_leaves (leaves_run closed_duration hop)
  cases op with
  | createCharacter =>
      exact ((forgets_insert (by decide)).bind fun _ => forgets_assign.bind fun _ =>
        Fades.pure).discard
  | updateCharacter => exact forgets_update (by decide)
  | deleteCharacter => exact forgets_delete
  | createPlannerTemplate => exact forgets_createPlannerTemplate.discard
  | updatePlannerTemplate => exact forgets_updatePlannerTemplate
  | deletePlannerTemplate => exact forgets_delete
  | applyPlannerPreset => exact forgets_applyPlannerPreset.discard
  | deletePlannerDuration => exact forgets_delete
  | addPlannerDuration => exact absurd h id
  | importUserBackup => exact absurd h id
  | _ => exact elsewhere _ (by simp [Op.writes, durationTables])

/-- After a step that adds no durations some of them are left, in their order. -/
theorem durations_step {host : Host} {s : Step} {c : Conn} (hsaved : c.saved = none)
    (h : NoDuration s) :
    (((s.run host c).2.db .plannerDuration).map session).Sublist
      ((c.db .plannerDuration).map session) := by
  cases s with
  | op op => exact (forgets_run h).sublist c
  | persist =>
      show (((persist.discard c).2.db .plannerDuration).map session).Sublist _
      rw [Exec.discard_snd]
      show (((c.saved.getD c.db) .plannerDuration).map session).Sublist _
      rw [hsaved]
      exact List.Sublist.refl _

theorem saved_step {host : Host} {s : Step} {c : Conn} (hsaved : c.saved = none) :
    (s.run host c).2.saved = none := by
  cases s with
  | op op => exact (((settled_run op).keeps c.foreignKeys).apply ⟨rfl, hsaved⟩).2
  | persist =>
      show (persist.discard c).2.saved = none
      rw [Exec.discard_snd]
      rfl

/-! ### A call that is served -/

def startOf (host : Host) (r : PlannerDuration) : ℤ := (host.parseDate r.startedAt).getD 0

def stopOf (host : Host) (r : PlannerDuration) : ℤ := (host.parseDate r.endedAt).getD 0

/-- The row ends at a stamp, and its seconds are whole, at least one, and less
than one second more than it ran. -/
structure Timed (host : Host) (r : PlannerDuration) : Prop where
  ended : r.endedAt = stamp (stopOf host r)
  seconds : ∃ n : ℤ, r.seconds = .ofInt n ∧ 1 ≤ n ∧
    1000 * n ≤ stopOf host r - startOf host r + 1000

namespace Renderer

/-- The row holds what the timer has measured. -/
structure Measured.Stored (host : Host) (m : Measured) (r : PlannerDuration) : Prop where
  start : startOf host r = m.timer.startedAtMs
  stop : stopOf host r = m.endedAtMs
  timed : Timed host r

/-- The times of a measurement are dates in their order. -/
structure Measured.Sane (m : Measured) : Prop where
  start : Date.Valid m.timer.startedAtMs
  stop : Date.Valid m.endedAtMs
  order : m.timer.startedAtMs ≤ m.endedAtMs
  short : m.endedAtMs - m.timer.startedAtMs ≤ Date.maxTime

theorem addPlannerDuration_cases {host : Host} {m : Measured} (hm : m.Sane)
    (characterId id : String) (c : Conn) :
    (∃ e, addPlannerDuration host ⟨characterId, m.timer.templateId, stamp m.timer.startedAtMs,
        stamp m.endedAtMs, computeDurationSeconds (.ofInt m.timer.startedAtMs)
          (.ofInt m.endedAtMs)⟩ id c = (.error e, c)) ∨
      ∃ r, addPlannerDuration host ⟨characterId, m.timer.templateId, stamp m.timer.startedAtMs,
          stamp m.endedAtMs, computeDurationSeconds (.ofInt m.timer.startedAtMs)
            (.ofInt m.endedAtMs)⟩ id c =
          (.ok id, { c with
            db := c.db.set .plannerDuration (c.db .plannerDuration ++ [r]) }) ∧
        r.id = id ∧ (∀ q ∈ c.db .plannerDuration, q.id ≠ id) ∧ m.Stored host r := by
  -- the dates parse to the measured times, so nothing but the insert can fail
  obtain ⟨n, hn, hone, hle⟩ := computeDurationSeconds_spec hm.order hm.short
  have hparse : ∀ t, Date.Valid t → host.parseDate (stamp t) = some t := host.parse_iso
  have hfloor : (Number.atLeast 1 (Number.floor (.ofInt n))).bind = some (.ofInt n) := by
    have hone' : (1 : Number) = .ofInt 1 := congrArg Number.fin (by norm_num)
    have hint : Number.floor (.ofInt n) = .ofInt n :=
      congrArg Number.fin (by rw [Int.floor_intCast])
    rw [hint, hone', Number.atLeast_ofInt, max_eq_right hone]
    rfl
  let r : PlannerDuration := ⟨id, characterId, some m.timer.templateId,
    stamp m.timer.startedAtMs, stamp m.endedAtMs, .ofInt n⟩
  have hrun : addPlannerDuration host ⟨characterId, m.timer.templateId, stamp m.timer.startedAtMs,
      stamp m.endedAtMs, computeDurationSeconds (.ofInt m.timer.startedAtMs)
        (.ofInt m.endedAtMs)⟩ id =
      (do schema.insert .abort .plannerDuration r; pure id) := by
    unfold addPlannerDuration notNull
    dsimp only
    rw [hparse _ hm.start, hparse _ hm.stop, hn, hfloor]
    rfl
  rw [hrun]
  rcases h : schema.insert .abort .plannerDuration r c with ⟨e | u, d⟩
  · left
    refine ⟨e, ?_⟩
    rw [Exec.bind_of_error h, insert_error h]
  · right
    have hstart : startOf host r = m.timer.startedAtMs := by
      show (host.parseDate (stamp m.timer.startedAtMs)).getD 0 = _
      rw [hparse _ hm.start]
      rfl
    have hstop : stopOf host r = m.endedAtMs := by
      show (host.parseDate (stamp m.endedAtMs)).getD 0 = _
      rw [hparse _ hm.stop]
      rfl
    refine ⟨r, ?_, rfl, ?_, hstart, hstop, by rw [hstop], n, rfl, hone, by rw [hstart, hstop]; exact hle⟩
    · rw [Exec.bind_of_ok h, insert_abort_ok h]
      rfl
    -- an insert that succeeds has met no row with the id
    · intro q hq hid
      apply no_conflict_of_insert h
      exact List.any_eq_true.mpr ⟨q, hq, conflicts_iff.mpr (.inl hid.symm)⟩

theorem plannerAddDuration_cases {host : Host} {m : Measured} (hm : m.Sane) (id : String)
    (c : Conn) :
    (∃ e, plannerAddDuration host (some m.toJs) id (.ok ()) c = (.error e, c)) ∨
      ∃ r, plannerAddDuration host (some m.toJs) id (.ok ()) c =
          (.ok (), { c with
            db := c.db.set .plannerDuration (c.db .plannerDuration ++ [r]) }) ∧
        r.id = id ∧ (∀ q ∈ c.db .plannerDuration, q.id ≠ id) ∧ m.Stored host r := by
  have hreads : Reads (requireCharacter m.toJs) := reads_requireCharacter m.toJs
  have hsnd : (requireCharacter m.toJs c).2 = c := hreads c
  let rest (characterId templateId : String) : Prog Unit :=
    (addPlannerDuration host ⟨characterId, templateId, stamp m.timer.startedAtMs,
      stamp m.endedAtMs, computeDurationSeconds (.ofInt m.timer.startedAtMs)
        (.ofInt m.endedAtMs)⟩ id).discard >>= fun _ => Exec.ofExcept (.ok ())
  show (∃ e, (requireCharacter m.toJs >>= fun characterId =>
      Exec.ofOption "bad_request" (nonEmpty (some m.timer.templateId)) >>= rest characterId) c =
        (.error e, c)) ∨
    ∃ r, (requireCharacter m.toJs >>= fun characterId =>
      Exec.ofOption "bad_request" (nonEmpty (some m.timer.templateId)) >>= rest characterId) c = _ ∧ _
  -- without a character, or with an empty template id, the call throws before any write
  rcases h : requireCharacter m.toJs c with ⟨e | characterId, d⟩
  · rw [h] at hsnd
    obtain rfl : d = c := hsnd
    exact .inl ⟨e, Exec.bind_of_error h⟩
  · rw [h] at hsnd
    obtain rfl : d = c := hsnd
    rw [Exec.bind_of_ok h]
    by_cases htemplate : m.timer.templateId = ""
    · left
      refine ⟨"bad_request", ?_⟩
      rw [htemplate]
      rfl
    · have hpure : ∀ f : String → Prog Unit,
          (Exec.ofOption "bad_request" (some m.timer.templateId) >>= f) = f m.timer.templateId :=
        fun _ => rfl
      rw [nonEmpty_some htemplate, hpure]
      rcases addPlannerDuration_cases hm characterId id d with ⟨e, he⟩ | ⟨r, hr, hrest⟩
      · exact .inl ⟨e, Exec.bind_of_error (Exec.discard_of_error he)⟩
      · exact .inr ⟨r, Exec.bind_of_ok (Exec.discard_of_ok hr), hrest⟩

/-! ### The invariant -/

/-- A member that is related to everything may be put anywhere. -/
theorem pairwise_set {α : Type} {R : α → α → Prop} {l : List α} {i : ℕ} {a : α}
    (h : l.Pairwise R) (hleft : ∀ b, R a b) (hright : ∀ b, R b a) : (l.set i a).Pairwise R := by
  induction l generalizing i with
  | nil => exact h
  | cons b l ih =>
      obtain ⟨hb, hl⟩ := List.pairwise_cons.mp h
      cases i with
      | zero => exact List.pairwise_cons.mpr ⟨fun c _ => hleft c, hl⟩
      | succ i =>
          refine List.pairwise_cons.mpr ⟨fun c hc => ?_, ih hl⟩
          rcases List.mem_or_eq_of_mem_set hc with hc | rfl
          · exact hb c hc
          · exact hright b

def Call.start (c : Call) : ℤ := c.measured.timer.startedAtMs

def Call.stop (c : Call) : ℤ := c.measured.endedAtMs

/-- The main process has not served the call. -/
def Call.Pending (c : Call) : Prop := c.stored = none

/-- The answer that clears the timer of the window is under way. -/
def Timers.Clearing (s : Timers) (w : Window) : Prop :=
  ∃ c ∈ s.calls, c.window = w ∧ c.awaited = true ∧ c.stored = some true

/-- A timer started after all other sessions of its window; its own one may
be under way, or stored. -/
structure TimerFits (host : Host) (installed t : ℤ) (owner : String → Window) (s : Timers)
    (w : Window) (start : ℤ) : Prop where
  since : installed ≤ start
  upTo : start ≤ t
  calls : ∀ c ∈ s.calls, c.Pending → c.window = w → c.stop ≤ start ∨ c.awaited = true
  rows : ∀ r ∈ s.conn.db .plannerDuration, owner r.id = w → stopOf host r ≤ start ∨ s.Clearing w

/-- The invariant of the runs up to the time `t`. -/
structure Tracked (host : Host) (installed t : ℤ) (owner : String → Window) (s : Timers) :
    Prop where
  era : 0 ≤ installed ∧ installed ≤ t ∧ Date.Valid t
  saved : s.conn.saved = none
  ids : ((s.conn.db .plannerDuration).map (·.id)).Nodup
  rows : ∀ r ∈ s.conn.db .plannerDuration,
    installed ≤ startOf host r ∧ startOf host r ≤ stopOf host r ∧ stopOf host r ≤ t
  timed : ∀ r ∈ s.conn.db .plannerDuration, Timed host r
  calls : ∀ c ∈ s.calls, installed ≤ c.start ∧ c.start ≤ c.stop ∧ c.stop ≤ t
  rowsApart : ∀ r ∈ s.conn.db .plannerDuration, ∀ q ∈ s.conn.db .plannerDuration, r.id ≠ q.id →
    owner r.id = owner q.id → Intervals.Apart (startOf host) (stopOf host) r q
  callApart : ∀ r ∈ s.conn.db .plannerDuration, ∀ c ∈ s.calls, c.Pending → owner r.id = c.window →
    stopOf host r ≤ c.start ∨ c.stop ≤ startOf host r
  callsApart : s.calls.Pairwise fun c c' => c.Pending → c'.Pending → c.window = c'.window →
    Intervals.Apart Call.start Call.stop c c'
  timers : ∀ w timer, (s.page w).activeTimer = some timer →
    TimerFits host installed t owner s w timer.startedAtMs

section

variable {host : Host} {installed t : ℤ} {owner : String → Window} {s : Timers}

/-- Time may pass. -/
theorem Tracked.later (h : Tracked host installed t owner s) {now : ℤ} (hnow : t ≤ now)
    (hvalid : Date.Valid now) : Tracked host installed now owner s where
  era := ⟨h.era.1, h.era.2.1.trans hnow, hvalid⟩
  saved := h.saved
  ids := h.ids
  rows := fun r hr => ⟨(h.rows r hr).1, (h.rows r hr).2.1, (h.rows r hr).2.2.trans hnow⟩
  timed := h.timed
  calls := fun c hc => ⟨(h.calls c hc).1, (h.calls c hc).2.1, (h.calls c hc).2.2.trans hnow⟩
  rowsApart := h.rowsApart
  callApart := h.callApart
  callsApart := h.callsApart
  timers := by
    intro w timer htimer
    have hfits := h.timers w timer htimer
    exact ⟨hfits.since, hfits.upTo.trans hnow, hfits.calls, hfits.rows⟩

/-- A timer that starts now starts after everything that is recorded. -/
theorem Tracked.fits_now (h : Tracked host installed t owner s) (w : Window) :
    TimerFits host installed t owner s w t where
  since := h.era.2.1
  upTo := le_rfl
  calls := fun c hc _ _ => .inl (h.calls c hc).2.2
  rows := fun r hr _ => .inl (h.rows r hr).2.2

/-- A page may forget its timer, keep it, or start one now. -/
theorem Tracked.setPage (h : Tracked host installed t owner s) {w : Window} {p : Page}
    (hp : p.activeTimer = none ∨ p.activeTimer = (s.page w).activeTimer ∨
      ∃ templateId, p.activeTimer = some ⟨templateId, t⟩) :
    Tracked host installed t owner (s.setPage w p) where
  era := h.era
  saved := h.saved
  ids := h.ids
  rows := h.rows
  timed := h.timed
  calls := h.calls
  rowsApart := h.rowsApart
  callApart := h.callApart
  callsApart := h.callsApart
  timers := by
    intro w' timer htimer
    have hfits : TimerFits host installed t owner s w' timer.startedAtMs := by
      by_cases hw : w' = w
      · subst hw
        have hpage : p.activeTimer = some timer := by
          have hself : (s.setPage w' p).page w' = p := Function.update_self _ _ _
          rwa [hself] at htimer
        -- no timer, the same timer, or one that starts now
        rcases hp with hnone | hsame | ⟨templateId, hstart⟩
        · rw [hnone] at hpage
          cases hpage
        · exact h.timers w' timer (hsame.symm.trans hpage)
        · rw [hstart] at hpage
          cases hpage
          exact h.fits_now w'
      · have hother : (s.setPage w p).page w' = s.page w' := Function.update_of_ne hw _ _
        rw [hother] at htimer
        exact h.timers w' timer htimer
    exact ⟨hfits.since, hfits.upTo, hfits.calls, hfits.rows⟩

/-- The calls of a page that is left stay under way. -/
theorem Tracked.left (h : Tracked host installed t owner s) (w : Window) :
    Tracked host installed t owner (TimerEvent.run host t s (.left w)) := by
  have hcalls : ∀ c ∈ (TimerEvent.run host t s (.left w)).calls, ∃ c₀ ∈ s.calls,
      c = if c₀.window = w then { c₀ with awaited := false } else c₀ := by
    intro c hc
    obtain ⟨c₀, hc₀, rfl⟩ := List.mem_map.mp hc
    exact ⟨c₀, hc₀, rfl⟩
  -- only `awaited` changes, which the sessions do not depend on
  refine { h with
    calls := ?_
    callApart := ?_
    callsApart := ?_
    timers := ?_ }
  · intro c hc
    obtain ⟨c₀, hc₀, rfl⟩ := hcalls c hc
    split
    · exact h.calls c₀ hc₀
    · exact h.calls c₀ hc₀
  · intro r hr c hc
    obtain ⟨c₀, hc₀, rfl⟩ := hcalls c hc
    split
    · exact h.callApart r hr c₀ hc₀
    · exact h.callApart r hr c₀ hc₀
  · refine List.pairwise_map.mpr (h.callsApart.imp fun {c c'} hc => ?_)
    split <;> split <;> exact hc
  · intro w' timer htimer
    -- the page that is left has no timer; the other one may wait for calls of its own
    by_cases hw : w' = w
    · subst hw
      have hself : (TimerEvent.run host t s (.left w')).page w' = ⟨none, none⟩ :=
        Function.update_self _ _ _
      rw [hself] at htimer
      cases htimer
    · have hother : (TimerEvent.run host t s (.left w)).page w' = s.page w' :=
        Function.update_of_ne hw _ _
      rw [hother] at htimer
      have hfits := h.timers w' timer htimer
      refine ⟨hfits.since, hfits.upTo, ?_, ?_⟩
      · intro c hc
        obtain ⟨c₀, hc₀, rfl⟩ := hcalls c hc
        split
        · rename_i hcw
          intro _ hcw'
          exact absurd (hcw'.symm.trans hcw) hw
        · exact hfits.calls c₀ hc₀
      · intro r hr howner
        rcases hfits.rows r hr howner with hle | ⟨c, hc, hcw, hcall⟩
        · exact .inl hle
        · refine .inr ⟨c, List.mem_map.mpr ⟨c, hc, ?_⟩, hcw, hcall⟩
          exact if_neg fun hcw' => hw (hcw.symm.trans hcw')

/-- Saving sends a session that is apart from all others of the window, as no
answer is awaited. -/
theorem Tracked.stopAndSaveTimer (h : Tracked host installed t owner s) {w : Window}
    (hpatient : ∀ c ∈ s.calls, c.window = w → c.awaited = false) :
    Tracked host installed t owner (TimerEvent.run host t s (.stopAndSaveTimer w)) := by
  rw [TimerEvent.run, Page.measured]
  cases (s.page w).overview with
  | none => exact h
  | some overview =>
      cases htimer : (s.page w).activeTimer with
      | none => exact h
      | some timer =>
          let c : Call := ⟨w, ⟨overview.character.id, timer, t⟩, true, none⟩
          show Tracked host installed t owner { s with calls := s.calls ++ [c] }
          have hfits := h.timers w timer htimer
          -- no answer is awaited: the timer started after all that the window sent or stored
          have hold : ∀ c' ∈ s.calls, c'.Pending → c'.window = w → c'.stop ≤ c.start := by
            intro c' hc' hpending hw
            rcases hfits.calls c' hc' hpending hw with hle | hawaited
            · exact hle
            · rw [hpatient c' hc' hw] at hawaited
              cases hawaited
          have hrows : ∀ r ∈ s.conn.db .plannerDuration, owner r.id = w →
              stopOf host r ≤ c.start := by
            intro r hr howner
            rcases hfits.rows r hr howner with hle | ⟨c', hc', hw, hawaited, -⟩
            · exact hle
            · rw [hpatient c' hc' hw] at hawaited
              cases hawaited
          refine { h with
            calls := ?_
            callApart := ?_
            callsApart := ?_
            timers := ?_ }
          · intro c' hc'
            rcases List.mem_append.mp hc' with hc' | hc'
            · exact h.calls c' hc'
            · obtain rfl := List.mem_singleton.mp hc'
              exact ⟨hfits.since, hfits.upTo, le_rfl⟩
          · intro r hr c' hc' hpending howner
            rcases List.mem_append.mp hc' with hc' | hc'
            · exact h.callApart r hr c' hc' hpending howner
            · obtain rfl := List.mem_singleton.mp hc'
              exact .inl (hrows r hr howner)
          · refine List.pairwise_append.mpr ⟨h.callsApart, List.pairwise_singleton _ _, ?_⟩
            intro c₁ hc₁ c₂ hc₂ hpending _ hw
            obtain rfl := List.mem_singleton.mp hc₂
            exact .inl (hold c₁ hc₁ hpending hw)
          · intro w' timer' htimer'
            have hfits' := h.timers w' timer' htimer'
            refine ⟨hfits'.since, hfits'.upTo, ?_, ?_⟩
            · intro c' hc'
              rcases List.mem_append.mp hc' with hc' | hc'
              · exact hfits'.calls c' hc'
              · obtain rfl := List.mem_singleton.mp hc'
                -- the timer is on the page until the answer arrives, and that call is awaited
                exact fun _ _ => .inr rfl
            · intro r hr howner
              rcases hfits'.rows r hr howner with hle | ⟨c', hc', hclearing⟩
              · exact .inl hle
              · exact .inr ⟨c', List.mem_append_left _ hc', hclearing⟩

/-- An answer arrives; if it says that the session is stored, the timer goes. -/
theorem Tracked.answered (h : Tracked host installed t owner s) (i : ℕ) :
    Tracked host installed t owner (TimerEvent.run host t s (.answered i)) := by
  rw [TimerEvent.run]
  cases hi : s.calls[i]? with
  | none => exact h
  | some c =>
      dsimp only
      split
      · exact h
      · -- the page first, then the list of calls
        have hanswer : Tracked host installed t owner (s.answer c) := by
          unfold Timers.answer
          split
          · exact h.setPage (.inl rfl)
          · exact h
        have hcalls : (s.answer c).calls = s.calls := by
          unfold Timers.answer
          split <;> rfl
        refine { hanswer with
          calls := fun c' hc' => hanswer.calls c' (by
            rw [hcalls]
            exact List.mem_of_mem_eraseIdx hc')
          callApart := fun r hr c' hc' => hanswer.callApart r hr c' (by
            rw [hcalls]
            exact List.mem_of_mem_eraseIdx hc')
          callsApart := h.callsApart.eraseIdx i
          timers := ?_ }
        intro w timer htimer
        have hfits := hanswer.timers w timer htimer
        refine ⟨hfits.since, hfits.upTo, ?_, ?_⟩
        · intro c' hc'
          refine hfits.calls c' ?_
          rw [hcalls]
          exact List.mem_of_mem_eraseIdx hc'
        · intro r hr howner
          rcases hfits.rows r hr howner with hle | ⟨c', hc', hw, hawaited, hstored⟩
          · exact .inl hle
          · -- an answer that clears this timer is another one: the timer is still there
            right
            rw [hcalls] at hc'
            refine ⟨c', ?_, hw, hawaited, hstored⟩
            have hne : c' ≠ c := by
              rintro rfl
              have hpage : ((s.answer c').page w).activeTimer = none := by
                unfold Timers.answer
                rw [if_pos ⟨hawaited, hstored⟩, ← hw]
                show (Function.update s.page c'.window _ c'.window).activeTimer = none
                rw [Function.update_self]
              have htimer' : ((s.answer c').page w).activeTimer = some timer := htimer
              rw [hpage] at htimer'
              cases htimer'
            obtain ⟨j, hj⟩ := List.mem_iff_getElem?.mp hc'
            have hij : j ≠ i := by
              rintro rfl
              rw [hi] at hj
              exact hne (Option.some.inj hj).symm
            exact List.mem_eraseIdx_iff_getElem?.mpr ⟨j, hij, hj⟩

/-- A call that has been served is no longer pending. -/
theorem Tracked.settled (h : Tracked host installed t owner s) {i : ℕ} {c : Call} {b : Bool}
    (hi : s.calls[i]? = some c) (hpending : c.Pending) :
    Tracked host installed t owner
      { s with calls := s.calls.set i { c with stored := some b } } := by
  have hold : ∀ c' ∈ s.calls.set i { c with stored := some b }, c'.Pending → c' ∈ s.calls := by
    intro c' hc' hpending'
    rcases List.mem_or_eq_of_mem_set hc' with hc' | rfl
    · exact hc'
    · cases hpending'
  refine { h with
    calls := ?_
    callApart := fun r hr c' hc' hpending' => h.callApart r hr c' (hold c' hc' hpending') hpending'
    callsApart := ?_
    timers := ?_ }
  · intro c' hc'
    rcases List.mem_or_eq_of_mem_set hc' with hc' | rfl
    · exact h.calls c' hc'
    · exact h.calls c (List.mem_of_getElem? hi)
  · apply pairwise_set h.callsApart
    · intro c' hpending'
      cases hpending'
    · intro c' _ hpending'
      cases hpending'
  · intro w timer htimer
    have hfits := h.timers w timer htimer
    refine ⟨hfits.since, hfits.upTo, ?_, ?_⟩
    · exact fun c' hc' hpending' => hfits.calls c' (hold c' hc' hpending') hpending'
    -- an answer that clears a timer has been served, so it is another call
    · intro r hr howner
      rcases hfits.rows r hr howner with hle | ⟨c', hc', hw, hawaited, hstored⟩
      · exact .inl hle
      · refine .inr ⟨c', ?_, hw, hawaited, hstored⟩
        obtain ⟨j, hj⟩ := List.mem_iff_getElem?.mp hc'
        have hij : i ≠ j := by
          rintro rfl
          rw [hi] at hj
          cases hj
          rw [hpending] at hstored
          cases hstored
        exact List.mem_of_getElem? ((List.getElem?_set_ne hij).trans hj)

/-- A row may be added that is apart from everything of its window. -/
theorem Tracked.recorded (h : Tracked host installed t owner s) {r : PlannerDuration} {w : Window}
    (hfresh : ∀ q ∈ s.conn.db .plannerDuration, q.id ≠ r.id)
    (hspan : installed ≤ startOf host r ∧ startOf host r ≤ stopOf host r ∧ stopOf host r ≤ t)
    (htimed : Timed host r)
    (hrows : ∀ q ∈ s.conn.db .plannerDuration, owner q.id = w →
      Intervals.Apart (startOf host) (stopOf host) q r)
    (hcalls : ∀ c ∈ s.calls, c.Pending → c.window = w →
      stopOf host r ≤ c.start ∨ c.stop ≤ startOf host r)
    (htimer : ∀ timer, (s.page w).activeTimer = some timer →
      stopOf host r ≤ timer.startedAtMs ∨ s.Clearing w) :
    Tracked host installed t (Function.update owner r.id w) { s with conn := { s.conn with
      db := s.conn.db.set .plannerDuration (s.conn.db .plannerDuration ++ [r]) } } := by
  have hmem : ∀ q ∈ (s.conn.db.set .plannerDuration (s.conn.db .plannerDuration ++ [r]))
      .plannerDuration, q ∈ s.conn.db .plannerDuration ∨ q = r := by
    intro q hq
    rw [Db.set_self] at hq
    rcases List.mem_append.mp hq with hq | hq
    · exact .inl hq
    · exact .inr (List.mem_singleton.mp hq)
  have hnew : Function.update owner r.id w r.id = w := Function.update_self _ _ _
  have hsame : ∀ q ∈ s.conn.db .plannerDuration, Function.update owner r.id w q.id = owner q.id :=
    fun q hq => Function.update_of_ne (hfresh q hq) _ _
  refine { h with
    ids := ?_
    rows := ?_
    timed := ?_
    rowsApart := ?_
    callApart := ?_
    timers := ?_ }
  · show (((s.conn.db.set .plannerDuration (s.conn.db .plannerDuration ++ [r]))
      .plannerDuration).map (·.id)).Nodup
    rw [Db.set_self, List.map_append, List.nodup_append]
    refine ⟨h.ids, List.nodup_singleton _, ?_⟩
    intro a ha b hb hab
    obtain ⟨q, hq, rfl⟩ := List.mem_map.mp ha
    obtain rfl := List.mem_singleton.mp hb
    exact hfresh q hq hab
  · intro q hq
    rcases hmem q hq with hq | rfl
    · exact h.rows q hq
    · exact hspan
  · intro q hq
    rcases hmem q hq with hq | rfl
    · exact h.timed q hq
    · exact htimed
  · intro q hq q' hq' hne howner
    -- two old rows, an old one and the new one in either order, or the new one twice
    rcases hmem q hq with hold | rfl <;> rcases hmem q' hq' with hold' | rfl
    · rw [hsame q hold, hsame q' hold'] at howner
      exact h.rowsApart q hold q' hold' hne howner
    · rw [hsame q hold, hnew] at howner
      exact hrows q hold howner
    · rw [hsame q' hold', hnew] at howner
      exact (hrows q' hold' howner.symm).symm
    · exact absurd rfl hne
  · intro q hq c hc hpending howner
    rcases hmem q hq with hq | rfl
    · rw [hsame q hq] at howner
      exact h.callApart q hq c hc hpending howner
    · rw [hnew] at howner
      exact hcalls c hc hpending howner.symm
  · intro w' timer htimer'
    have hfits := h.timers w' timer htimer'
    refine ⟨hfits.since, hfits.upTo, hfits.calls, ?_⟩
    intro q hq howner
    rcases hmem q hq with hq | rfl
    · rw [hsame q hq] at howner
      exact hfits.rows q hq howner
    · rw [hnew] at howner
      -- the new row ends before the timer starts, or its answer will clear the timer
      subst howner
      exact htimer timer htimer'

/-- What is remembered of the rows is no part of what is tracked. -/
theorem Tracked.remember (h : Tracked host installed t owner s) (recordedBy : String → Window) :
    Tracked host installed t owner { s with recordedBy := recordedBy } :=
  { h with
    timers := fun w timer htimer =>
      have hfits := h.timers w timer htimer
      ⟨hfits.since, hfits.upTo, hfits.calls, hfits.rows⟩ }

/-- Two pending calls of one window are apart. -/
theorem Tracked.apart (h : Tracked host installed t owner s) {i j : ℕ} {c c' : Call}
    (hi : s.calls[i]? = some c) (hj : s.calls[j]? = some c') (hij : i ≠ j) (hc : c.Pending)
    (hc' : c'.Pending) (hw : c.window = c'.window) :
    Intervals.Apart Call.start Call.stop c c' := by
  obtain ⟨hi', rfl⟩ := List.getElem?_eq_some_iff.mp hi
  obtain ⟨hj', rfl⟩ := List.getElem?_eq_some_iff.mp hj
  rcases Nat.lt_or_gt_of_ne hij with hlt | hlt
  · exact List.pairwise_iff_getElem.mp h.callsApart i j hi' hj' hlt hc hc' hw
  · exact (List.pairwise_iff_getElem.mp h.callsApart j i hj' hi' hlt hc' hc hw.symm).symm

/-- The main process serves a call. -/
theorem Tracked.serve (h : Tracked host installed t s.recordedBy s) {i : ℕ} {c : Call} (id : String)
    (hi : s.calls[i]? = some c) (hpending : c.Pending) :
    Tracked host installed t (s.serve host id (.ok ()) i c).recordedBy
      (s.serve host id (.ok ()) i c) := by
  have hc := h.calls c (List.mem_of_getElem? hi)
  have hera := h.era
  -- what was measured lies between the installation and now
  have hsane : c.measured.Sane := by
    have hlate : ∀ x : ℤ, 0 ≤ x → x ≤ t → Date.Valid x := by
      intro x hx hxt
      have hmax : |t| ≤ Date.maxTime := hera.2.2
      show |x| ≤ Date.maxTime
      rw [abs_of_nonneg (by omega)] at hmax
      rw [abs_of_nonneg hx]
      omega
    unfold Call.start Call.stop at hc
    have hmax : |t| ≤ Date.maxTime := hera.2.2
    rw [abs_of_nonneg (by omega)] at hmax
    exact ⟨hlate _ (by omega) (by omega), hlate _ (by omega) (by omega), hc.2.1, by omega⟩
  have hsettled := h.settled
    (b := (plannerAddDuration host (some c.measured.toJs) id (.ok ()) s.conn).1.isOk) hi hpending
  rcases plannerAddDuration_cases hsane id s.conn with ⟨e, hrun⟩ | ⟨r, hrun, hid, hfresh, hstored⟩
  -- the call has failed: no row, and an answer that clears nothing
  · have hsame : (s.serve host id (.ok ()) i c).recordedBy = s.recordedBy := by
      funext id'
      unfold Timers.serve
      rw [hrun]
      exact if_neg fun hboth => hboth.2 hboth.1
    rw [hsame]
    unfold Timers.serve
    rw [hrun] at hsettled ⊢
    exact hsettled.remember _
  · have howner : (s.serve host id (.ok ()) i c).recordedBy =
        Function.update s.recordedBy r.id c.window := by
      funext id'
      unfold Timers.serve
      rw [hrun]
      dsimp only
      rw [sessionIds, Db.set_self, List.map_append, Function.update_apply]
      by_cases hnew : id' = r.id
      · rw [if_pos hnew, if_pos]
        refine ⟨List.mem_append_right _ (List.mem_singleton.mpr hnew), fun hmem => ?_⟩
        obtain ⟨q, hq, hqid⟩ := List.mem_map.mp hmem
        exact hfresh q hq (hqid.trans (hnew.trans hid))
      · rw [if_neg hnew, if_neg]
        rintro ⟨hmem, hnot⟩
        rcases List.mem_append.mp hmem with hold | hlast
        · exact hnot hold
        · exact hnew (List.mem_singleton.mp hlast)
    rw [howner]
    unfold Timers.serve
    rw [hrun] at hsettled ⊢
    have hstart : startOf host r = c.start := hstored.start
    have hstop : stopOf host r = c.stop := hstored.stop
    refine Tracked.remember (hsettled.recorded (by rwa [hid]) ?_ hstored.timed ?_ ?_ ?_) _
    · rw [hstart, hstop]
      exact hc
    · intro q hq howner
      unfold Intervals.Apart
      rw [hstart, hstop]
      exact h.callApart q hq c (List.mem_of_getElem? hi) hpending howner
    · intro c' hc' hpending' hw
      obtain ⟨j, hj⟩ := List.mem_iff_getElem?.mp hc'
      by_cases hij : i = j
      · -- the call itself is served
        subst hij
        rw [List.getElem?_set_self (List.getElem?_eq_some_iff.mp hi).1] at hj
        cases hj
        cases hpending'
      · rw [List.getElem?_set_ne hij] at hj
        rw [hstart, hstop]
        exact h.apart hi hj hij hpending hpending' hw.symm
    · intro timer htimer
      -- a timer that runs on is later than the session, or the one whose answer is awaited
      rcases (h.timers c.window timer htimer).calls c (List.mem_of_getElem? hi) hpending rfl with
        hle | hawaited
      · rw [hstop]
        exact .inl hle
      · refine .inr ⟨{ c with stored := some true }, ?_, rfl, hawaited, rfl⟩
        exact List.mem_of_getElem?
          (List.getElem?_set_self (List.getElem?_eq_some_iff.mp hi).1)

/-- Fewer rows do no harm. -/
theorem Tracked.forgets (h : Tracked host installed t owner s) {d : Conn}
    (hsaved : d.saved = none)
    (hd : ((d.db .plannerDuration).map session).Sublist
      ((s.conn.db .plannerDuration).map session)) :
    Tracked host installed t owner { s with conn := d } := by
  -- every row that is left has the session of a row that was there
  have hold : ∀ r ∈ d.db .plannerDuration, ∃ q ∈ s.conn.db .plannerDuration,
      session q = session r := by
    intro r hr
    exact List.mem_map.mp (hd.subset (List.mem_map_of_mem hr))
  -- what the invariant says of a row is said of its session
  have hid : ∀ {q r : PlannerDuration}, session q = session r → q.id = r.id := by
    intro q r hqr
    show (session q).id = (session r).id
    rw [hqr]
  have hstart : ∀ {q r : PlannerDuration}, session q = session r →
      startOf host q = startOf host r := by
    intro q r hqr
    show startOf host (session q) = startOf host (session r)
    rw [hqr]
  have hstop : ∀ {q r : PlannerDuration}, session q = session r →
      stopOf host q = stopOf host r := by
    intro q r hqr
    show stopOf host (session q) = stopOf host (session r)
    rw [hqr]
  refine { h with
    saved := hsaved
    ids := ?_
    rows := ?_
    timed := ?_
    rowsApart := ?_
    callApart := ?_
    timers := ?_ }
  · have hids : ∀ l : List PlannerDuration, l.map (·.id) = (l.map session).map (·.id) := by
      intro l
      rw [List.map_map]
      rfl
    have hnodup := h.ids
    rw [hids] at hnodup ⊢
    exact hnodup.sublist (hd.map _)
  · intro r hr
    obtain ⟨q, hq, hqr⟩ := hold r hr
    rw [← hstart hqr, ← hstop hqr]
    exact h.rows q hq
  · intro r hr
    obtain ⟨q, hq, hqr⟩ := hold r hr
    have htimed := h.timed q hq
    refine ⟨?_, ?_⟩
    · show (session r).endedAt = stamp (stopOf host (session r))
      rw [← hqr]
      exact htimed.ended
    · obtain ⟨n, hn⟩ := htimed.seconds
      refine ⟨n, ?_⟩
      rw [← hstart hqr, ← hstop hqr]
      show (session r).seconds = _ ∧ _
      rw [← hqr]
      exact hn
  · intro r hr r' hr' hne howner
    obtain ⟨q, hq, hqr⟩ := hold r hr
    obtain ⟨q', hq', hqr'⟩ := hold r' hr'
    rw [← hid hqr, ← hid hqr'] at hne howner
    unfold Intervals.Apart
    rw [← hstart hqr, ← hstop hqr, ← hstart hqr', ← hstop hqr']
    exact h.rowsApart q hq q' hq' hne howner
  · intro r hr c hc hpending howner
    obtain ⟨q, hq, hqr⟩ := hold r hr
    rw [← hid hqr] at howner
    rw [← hstart hqr, ← hstop hqr]
    exact h.callApart q hq c hc hpending howner
  · intro w timer htimer
    have hfits := h.timers w timer htimer
    refine ⟨hfits.since, hfits.upTo, hfits.calls, ?_⟩
    intro r hr howner
    obtain ⟨q, hq, hqr⟩ := hold r hr
    rw [← hid hqr] at howner
    rw [← hstop hqr]
    exact hfits.rows q hq howner

/-! ### Runs -/

/-- **Every event keeps the invariant.** -/
theorem Tracked.event (h : Tracked host installed t s.recordedBy s) {e : TimerEvent}
    (hpatient : e.Patient s) (hpersists : e.Persists) :
    Tracked host installed t (e.run host t s).recordedBy (e.run host t s) := by
  cases e with
  | shown w overview => exact h.setPage (.inr (.inl rfl))
  | requestStartTimer templateId title confirmFn =>
      refine h.setPage (.inr ?_)
      rcases next_startTimerWithConfirm (s.page .main).activeTimer templateId t _ confirmFn with
        hsame | hstart
      · exact .inl hsame
      · exact .inr ⟨templateId, hstart⟩
  | startTimer templateId => exact h.setPage (.inr (.inr ⟨templateId, rfl⟩))
  | cancelTimer w => exact h.setPage (.inl rfl)
  | left w => exact h.left w
  | stopAndSaveTimer w =>
      have hsame : (TimerEvent.run host t s (.stopAndSaveTimer w)).recordedBy = s.recordedBy := by
        rw [TimerEvent.run]
        cases (s.page w).measured t <;> rfl
      rw [hsame]
      exact h.stopAndSaveTimer hpatient
  | served i id persisted =>
      obtain rfl : persisted = .ok () := hpersists
      rw [TimerEvent.run]
      cases hi : s.calls[i]? with
      | none => exact h
      | some c =>
          dsimp only
          split
          · rename_i hpending
            exact h.serve id hi hpending
          · exact h
  | answered i =>
      have hsame : (TimerEvent.run host t s (.answered i)).recordedBy = s.recordedBy := by
        rw [TimerEvent.run]
        cases s.calls[i]? with
        | none => rfl
        | some c =>
            dsimp only
            split
            · rfl
            · unfold Timers.answer
              split <;> rfl
      rw [hsame]
      exact h.answered i
  | other step => exact h.forgets (saved_step h.saved) (durations_step h.saved step.2)

end

theorem tracked_of_run {host : Host} {installed t : ℤ} {s : Timers}
    (h : TimerRun host installed t s) : Tracked host installed t s.recordedBy s := by
  induction h with
  | opened hvalid hnonneg =>
      have hempty : (opened none installed).db .plannerDuration = [] := by
        rw [opened_eq]
        rfl
      exact {
        era := ⟨hnonneg, le_rfl, hvalid⟩
        saved := (opened_flags none installed).2
        ids := by
          rw [hempty]
          exact List.nodup_nil
        rows := by
          rw [hempty]
          exact fun _ hr => absurd hr List.not_mem_nil
        timed := by
          rw [hempty]
          exact fun _ hr => absurd hr List.not_mem_nil
        calls := fun _ hc => absurd hc List.not_mem_nil
        rowsApart := by
          rw [hempty]
          exact fun _ hr => absurd hr List.not_mem_nil
        callApart := fun _ _ _ hc => absurd hc List.not_mem_nil
        callsApart := List.Pairwise.nil
        timers := fun _ _ htimer => by cases htimer }
  | event _ hnow hvalid hpatient hpersists ih => exact (ih.later hnow hvalid).event hpatient hpersists

end Renderer

/-- The sessions that run at an instant. -/
def runningAt (host : Host) (x : ℤ) (db : Db Row) : List PlannerDuration :=
  Intervals.running (startOf host) (stopOf host) x (db .plannerDuration)

/-- The seconds of all sessions together. -/
def recordedSeconds (db : Db Row) : ℚ := ((db .plannerDuration).map fun r => r.seconds.value).sum

open Renderer

section

variable {host : Host} {installed t : ℤ} {owner : String → Window} {s : Timers}

/-- The rows of one window never overlap. -/
theorem Renderer.Tracked.runningOf_le (h : Tracked host installed t owner s) (x : ℤ) (w : Window) :
    ((runningAt host x s.conn.db).filter fun r => owner r.id = w).length ≤ 1 := by
  have hnodup : (s.conn.db .plannerDuration).Nodup := h.ids.of_map _
  have hrunning : (runningAt host x s.conn.db).filter (fun r => owner r.id = w) =
      Intervals.running (startOf host) (stopOf host) x
        ((s.conn.db .plannerDuration).filter fun r => owner r.id = w) :=
    List.filter_comm _ _ _
  rw [hrunning]
  apply Intervals.length_running_le (hnodup.filter _) (fun _ => ())
  intro r hr q hq hne _
  obtain ⟨hr, hrw⟩ := List.mem_filter.mp hr
  obtain ⟨hq, hqw⟩ := List.mem_filter.mp hq
  refine h.rowsApart r hr q hq ?_ ((of_decide_eq_true hrw).trans (of_decide_eq_true hqw).symm)
  intro hid
  exact hne (List.inj_on_of_nodup_map h.ids hr hq hid)

/-- And there are two windows. -/
theorem Renderer.Tracked.running_le (h : Tracked host installed t owner s) (x : ℤ) :
    (runningAt host x s.conn.db).length ≤ 2 := by
  have hnodup : (s.conn.db .plannerDuration).Nodup := h.ids.of_map _
  refine Intervals.length_running_le hnodup (fun r => owner r.id) ?_ x
  intro r hr q hq hne howner
  refine h.rowsApart r hr q hq ?_ howner
  intro hid
  exact hne (List.inj_on_of_nodup_map h.ids hr hq hid)

/-- The seconds exceed the lengths by less than one second for each row. -/
theorem sum_seconds_le {l : List PlannerDuration} (hl : ∀ r ∈ l, Timed host r) :
    1000 * (l.map fun r => r.seconds.value).sum ≤
      (((l.map fun r => stopOf host r - startOf host r).sum : ℤ) : ℚ) + 1000 * l.length := by
  induction l with
  | nil => simp
  | cons r l ih =>
      obtain ⟨n, hn, -, hle⟩ := (hl r List.mem_cons_self).seconds
      have hrest := ih fun q hq => hl q (List.mem_cons_of_mem r hq)
      have hvalue : r.seconds.value = (n : ℚ) := by
        rw [hn]
        rfl
      have hcast : 1000 * (n : ℚ) ≤ ((stopOf host r - startOf host r : ℤ) : ℚ) + 1000 := by
        exact_mod_cast hle
      simp only [List.map_cons, List.sum_cons, List.length_cons, hvalue]
      push_cast at *
      linarith

theorem Renderer.Tracked.recordedSeconds_le (h : Tracked host installed t owner s) :
    1000 * recordedSeconds s.conn.db ≤
      2 * ((t - installed : ℤ) : ℚ) + 1000 * (s.conn.db .plannerDuration).length := by
  have hlengths := Intervals.sum_lengths_le h.era.2.1 h.rows h.running_le
  have hcast : (((s.conn.db .plannerDuration).map fun r => stopOf host r - startOf host r).sum : ℚ) ≤
      2 * ((t - installed : ℤ) : ℚ) := by
    exact_mod_cast hlengths
  have hseconds := sum_seconds_le h.timed
  unfold recordedSeconds
  linarith

/-- **The time of a window is recorded once**, whatever happens between the
clicks, the calls and their answers. -/
theorem sessions_of_run (h : TimerRun host installed t s) :
    (∀ x w, ((runningAt host x s.conn.db).filter fun r => s.recordedBy r.id = w).length ≤ 1) ∧
      (∀ x, (runningAt host x s.conn.db).length ≤ 2) ∧
      1000 * recordedSeconds s.conn.db ≤
        2 * ((t - installed : ℤ) : ℚ) + 1000 * (s.conn.db .plannerDuration).length := by
  have htracked := tracked_of_run h
  exact ⟨htracked.runningOf_le, htracked.running_le, htracked.recordedSeconds_le⟩

end

/-- The events of a run, each with its time. -/
def afterEvents (host : Host) (events : List (ℤ × TimerEvent)) (s : Timers) : Timers :=
  events.foldl (fun s e => e.2.run host e.1 s) s

def anOverview : Overview where
  now := ""
  dailyKey := ""
  weeklyKey := ""
  dailyResetHhmm := "09:00"
  weeklyResetDay := 1
  character := ⟨"c", "C", none, none⟩
  daily := []
  weekly := []
  charges := []

def addCharacter : { step : Step // NoDuration step } :=
  ⟨.op (.createCharacter ⟨"C", none, none⟩ "c" 0), trivial⟩

/-- Both windows record two and a half seconds of the same task. -/
def bothTimers : List (ℤ × TimerEvent) :=
  [(0, .other addCharacter), (0, .shown .main (some anOverview)), (0, .shown .overlay (some anOverview)),
    (1000, .requestStartTimer "t" none fun _ => true), (1500, .startTimer "t"),
    (3500, .stopAndSaveTimer .main), (4000, .stopAndSaveTimer .overlay), (4000, .served 1 "b" (.ok ())),
    (4000, .answered 1), (4100, .served 0 "a" (.ok ())), (4100, .answered 0)]

def nothingTimed : Timers := ⟨opened none 0, fun _ => ⟨none, none⟩, [], fun _ => .main⟩

theorem timerRun_bothTimers : TimerRun (Host.iso (.fixed 0)) 0 4100
    (afterEvents (Host.iso (.fixed 0)) bothTimers nothingTimed) := by
  have hrun : TimerRun (Host.iso (.fixed 0)) 0 0 nothingTimed := .opened (by decide) le_rfl
  have h₀ := hrun.event (e := .other addCharacter) (le_refl 0) (by decide) trivial trivial
  have h₁ := h₀.event (e := .shown .main (some anOverview)) (le_refl 0) (by decide) trivial trivial
  have h₂ := h₁.event (e := .shown .overlay (some anOverview)) (le_refl 0) (by decide) trivial trivial
  have h₃ := h₂.event (e := .requestStartTimer "t" none fun _ => true)
    (by decide : (0 : ℤ) ≤ 1000) (by decide) trivial trivial
  have h₄ := h₃.event (e := .startTimer "t") (by decide : (1000 : ℤ) ≤ 1500) (by decide) trivial trivial
  have h₅ := h₄.event (e := .stopAndSaveTimer .main) (by decide : (1500 : ℤ) ≤ 3500) (by decide)
    (fun c hc => absurd hc List.not_mem_nil) trivial
  have h₆ := h₅.event (e := .stopAndSaveTimer .overlay) (by decide : (3500 : ℤ) ≤ 4000) (by decide)
    (fun c hc hw => by
      -- the call under way is the one of the other window
      obtain rfl := List.mem_singleton.mp hc
      cases hw) trivial
  have h₇ := h₆.event (e := .served 1 "b" (.ok ())) (le_refl 4000) (by decide) trivial rfl
  have h₈ := h₇.event (e := .answered 1) (le_refl 4000) (by decide) trivial trivial
  have h₉ := h₈.event (e := .served 0 "a" (.ok ())) (by decide : (4000 : ℤ) ≤ 4100) (by decide)
    trivial rfl
  exact h₉.event (e := .answered 0) (le_refl 4100) (by decide) trivial trivial

theorem sessions_of_run_both :
    recordedSeconds (afterEvents (Host.iso (.fixed 0)) bothTimers nothingTimed).conn.db = 6 ∧
      ∀ x w, ((runningAt (Host.iso (.fixed 0)) x
        (afterEvents (Host.iso (.fixed 0)) bothTimers nothingTimed).conn.db).filter fun r =>
          (afterEvents (Host.iso (.fixed 0)) bothTimers nothingTimed).recordedBy r.id = w).length ≤ 1 :=
  ⟨by decide +kernel, (sessions_of_run timerRun_bothTimers).1⟩

/-- A second click before the answer records the same time twice, and so does a
second one after an answer that the failed write to the file has made an error. -/
example : (runningAt (Host.iso (.fixed 0)) 2000 (afterEvents (Host.iso (.fixed 0))
    [(0, .shown .main (some anOverview)), (1000, .requestStartTimer "t" none fun _ => true),
      (3000, .stopAndSaveTimer .main), (3100, .stopAndSaveTimer .main),
      (3200, .served 0 "a" (.ok ())), (3200, .served 1 "b" (.ok ()))]
    nothingTimed).conn.db).length = 2 := by
  decide +kernel

example : (runningAt (Host.iso (.fixed 0)) 2000 (afterEvents (Host.iso (.fixed 0))
    [(0, .other addCharacter), (0, .shown .main (some anOverview)),
      (1000, .requestStartTimer "t" none fun _ => true), (3000, .stopAndSaveTimer .main),
      (3100, .served 0 "a" (.error "EACCES")), (3100, .answered 0), (4000, .stopAndSaveTimer .main),
      (4100, .served 0 "b" (.ok ()))] nothingTimed).conn.db).length = 2 := by
  decide +kernel

end Hub
