/-
Aion2Hub/Storage/Persist.lean

`DesktopDb.persist()` under concurrent callers.

The database in memory changes by synchronous mutations.  A call of
`persist()` hangs its run on the promise of the call before it,

    this.#persistChain = this.#persistChain.then(run, run);

so the run starts after that promise has settled either way.  A run exports
the database, writes the bytes to a temporary file and renames it over the
database file; each of the two may fail.  The steps of the callers, of the
runs and of the mutations interleave freely (`Persist.Step`).

One invariant carries everything (`Persist.Inv`): a run that has started has
only settled calls before it.  So runs do not overlap, the file goes through
snapshots in the order of the mutations, a call that resolves has its
mutations on disk, and a failure concerns its own caller only
(`persist_linearised`).
-/
import Mathlib.Data.List.Basic
import Mathlib.Tactic.Common

namespace Hub

namespace Persist

variable {S : Type}

/-! ### States -/

/-- The state of the database after the first `version` mutations. -/
structure Snapshot (S : Type) where
  state : S
  version : ℕ

/-- How far the run of a call has come. -/
inductive Phase (S : Type) where
  | waiting
  | writing (data : Snapshot S)
  | moving (data : Snapshot S)
  | resolved
  | rejected

/-- The promise of the call is settled. -/
def Phase.Settled : Phase S → Prop
  | .resolved | .rejected => True
  | _ => False

/-- What a run between its export and its rename is writing. -/
def Phase.data : Phase S → Option (Snapshot S)
  | .writing data | .moving data => some data
  | _ => none

/-- A call of `persist()`: the number of mutations made before it, and the
call whose promise its run hangs on (`none` for `Promise.resolve()`). -/
structure Call (S : Type) where
  madeAt : ℕ
  after : Option ℕ
  phase : Phase S

/-- The database in memory and the states it was in before each mutation, the
calls in the order they were made, the field `#persistChain`, and the file,
which is `none` until a run has replaced what `openDesktopDb` found. -/
structure State (S : Type) where
  memory : S
  past : List S
  calls : List (Call S)
  chain : Option ℕ
  file : Option (Snapshot S)

/-- A database that has just been opened. -/
def start (memory : S) : State S := ⟨memory, [], [], none, none⟩

variable {s s' : State S} {k : ℕ} {call : Call S}

/-- The number of mutations so far. -/
def State.version (s : State S) : ℕ := s.past.length

/-- What `export()` returns. -/
def State.snapshot (s : State S) : Snapshot S := ⟨s.memory, s.version⟩

/-- The call that `persist()` adds. -/
def State.newCall (s : State S) : Call S := ⟨s.version, s.chain, .waiting⟩

/-- Change the phase of a call. -/
def State.setPhase (s : State S) (k : ℕ) (phase : Phase S) : State S :=
  { s with calls := s.calls.modify k fun call => { call with phase := phase } }

/-- The promise of the call is settled. -/
def State.SettledAt (s : State S) (k : ℕ) : Prop :=
  ∃ call, s.calls[k]? = some call ∧ call.phase.Settled

/-! ### Steps -/

/-- A mutation, a call, or a step of the run of the `k`-th call. -/
inductive Event (S : Type) where
  | mutate (f : S → S)
  | persist
  | exportDb (k : ℕ)
  | writeFile (k : ℕ)
  | writeFileFails (k : ℕ)
  | rename (k : ℕ)
  | renameFails (k : ℕ)

/-- The call whose run makes the step. -/
def Event.runOf : Event S → Option ℕ
  | .mutate _ | .persist => none
  | .exportDb k | .writeFile k | .writeFileFails k | .rename k | .renameFails k => some k

/-- The run fails in this step. -/
def Event.Fails : Event S → Prop
  | .writeFileFails _ | .renameFails _ => True
  | _ => False

inductive Step (s : State S) : Event S → State S → Prop where
  | mutate (f : S → S) :
      Step s (.mutate f) { s with memory := f s.memory, past := s.past ++ [s.memory] }
  | persist : Step s .persist
      { s with calls := s.calls ++ [s.newCall], chain := some s.calls.length }
  | exportDb {k : ℕ} {call : Call S} : s.calls[k]? = some call → call.phase = .waiting →
      (∀ j ∈ call.after, s.SettledAt j) →
      Step s (.exportDb k) (s.setPhase k (.writing s.snapshot))
  | writeFile {k : ℕ} {call : Call S} {data : Snapshot S} : s.calls[k]? = some call →
      call.phase = .writing data → Step s (.writeFile k) (s.setPhase k (.moving data))
  | writeFileFails {k : ℕ} {call : Call S} {data : Snapshot S} : s.calls[k]? = some call →
      call.phase = .writing data → Step s (.writeFileFails k) (s.setPhase k .rejected)
  | rename {k : ℕ} {call : Call S} {data : Snapshot S} : s.calls[k]? = some call →
      call.phase = .moving data →
      Step s (.rename k) { s.setPhase k .resolved with file := some data }
  | renameFails {k : ℕ} {call : Call S} {data : Snapshot S} : s.calls[k]? = some call →
      call.phase = .moving data → Step s (.renameFails k) (s.setPhase k .rejected)

/-- Any number of steps. -/
inductive Steps (s : State S) : State S → Prop where
  | refl : Steps s s
  | step {t u : State S} {e : Event S} : Steps s t → Step t e u → Steps s u

/-! ### The invariant -/

/-- The call before the `k`-th. -/
def pred : ℕ → Option ℕ
  | 0 => none
  | k + 1 => some k

/-- The snapshot is one that the database has gone through. -/
def State.Holds (s : State S) (data : Snapshot S) : Prop :=
  (s.past ++ [s.memory])[data.version]? = some data.state

/-- A run starts only after all calls before it have settled, what it writes
is a snapshot no older than its call and the file, and the file has the
mutations of every call that has resolved. -/
structure Inv (s : State S) : Prop where
  chain : s.chain = pred s.calls.length
  after : ∀ {k : ℕ} {call : Call S}, s.calls[k]? = some call → call.after = pred k
  madeAt : ∀ {k : ℕ} {call : Call S}, s.calls[k]? = some call → call.madeAt ≤ s.version
  before : ∀ {k : ℕ} {call : Call S}, s.calls[k]? = some call → call.phase ≠ .waiting →
    ∀ j < k, s.SettledAt j
  data : ∀ {k : ℕ} {call : Call S}, s.calls[k]? = some call → ∀ data ∈ call.phase.data,
    s.Holds data ∧ call.madeAt ≤ data.version ∧ ∀ old ∈ s.file, old.version ≤ data.version
  file : ∀ data ∈ s.file, s.Holds data
  resolved : ∀ {k : ℕ} {call : Call S}, s.calls[k]? = some call → call.phase = .resolved →
    ∃ data ∈ s.file, call.madeAt ≤ data.version

theorem State.Holds.version_le {data : Snapshot S} (h : s.Holds data) :
    data.version ≤ s.version := by
  obtain ⟨hlt, -⟩ := List.getElem?_eq_some_iff.mp h
  rw [List.length_append, List.length_singleton] at hlt
  exact Nat.lt_succ_iff.mp hlt

theorem holds_snapshot (s : State S) : s.Holds s.snapshot := by
  show (s.past ++ [s.memory])[s.past.length]? = some s.memory
  rw [List.getElem?_append_right (Nat.le_refl _), Nat.sub_self]
  rfl

theorem getElem?_setPhase (s : State S) (k : ℕ) (phase : Phase S) (j : ℕ) :
    (s.setPhase k phase).calls[j]? =
      if j = k then s.calls[j]?.map fun call => { call with phase := phase } else s.calls[j]? := by
  rw [State.setPhase, List.getElem?_modify]
  by_cases hj : j = k
  · subst hj
    rw [if_pos rfl]
    cases s.calls[j]? <;> simp
  · rw [if_neg hj]
    cases s.calls[j]? <;> simp [Ne.symm hj]

theorem getElem?_setPhase_self {phase : Phase S} (hk : s.calls[k]? = some call) :
    (s.setPhase k phase).calls[k]? = some { call with phase := phase } := by
  rw [getElem?_setPhase, if_pos rfl, hk]
  rfl

theorem getElem?_setPhase_of_ne {phase : Phase S} {j : ℕ} (hj : j ≠ k) :
    (s.setPhase k phase).calls[j]? = s.calls[j]? := by
  rw [getElem?_setPhase, if_neg hj]

theorem not_settled_of_data {phase : Phase S} {data : Snapshot S} (h : data ∈ phase.data) :
    ¬ phase.Settled := by
  cases phase <;> first
    | exact id
    | cases h

/-- At most one run is between its export and its rename. -/
theorem Inv.active_unique (h : Inv s) {j k : ℕ} {c d : Call S} (hj : s.calls[j]? = some c)
    (hk : s.calls[k]? = some d) (hc : ¬ c.phase.Settled) (hd : ¬ d.phase.Settled)
    (hcs : c.phase ≠ .waiting) (hds : d.phase ≠ .waiting) : j = k := by
  have key : ∀ {j k : ℕ} {c d : Call S}, s.calls[j]? = some c → s.calls[k]? = some d →
      ¬ c.phase.Settled → d.phase ≠ .waiting → ¬ j < k := by
    intro j k c d hj hk hc hds hlt
    obtain ⟨c', hc', hsettled⟩ := h.before hk hds j hlt
    rw [hj] at hc'
    exact hc (Option.some.inj hc' ▸ hsettled)
  have h₁ := key hj hk hc hds
  have h₂ := key hk hj hd hcs
  omega

/-! ### One step -/

theorem inv_start (memory : S) : Inv (start memory) where
  chain := rfl
  after h := by cases h
  madeAt h := by cases h
  before h := by cases h
  data h := by cases h
  file data h := by cases h
  resolved h := by cases h

/-- What the calls of the changed state are. -/
theorem call_setPhase {phase : Phase S} {j : ℕ} {c : Call S} (hk : s.calls[k]? = some call)
    (hc : (s.setPhase k phase).calls[j]? = some c) :
    j = k ∧ c = { call with phase := phase } ∨ j ≠ k ∧ s.calls[j]? = some c := by
  by_cases hj : j = k
  · subst hj
    rw [getElem?_setPhase_self hk] at hc
    exact .inl ⟨rfl, (Option.some.inj hc).symm⟩
  · rw [getElem?_setPhase_of_ne hj] at hc
    exact .inr ⟨hj, hc⟩

/-- The run of a call goes on: it is the only one that has started and is not
done, so the others have nothing to say about the file. -/
theorem Inv.setPhase (h : Inv s) (hk : s.calls[k]? = some call) (hopen : ¬ call.phase.Settled)
    (hbefore : ∀ j < k, s.SettledAt j) {phase : Phase S} {file : Option (Snapshot S)}
    (hdata : ∀ data ∈ phase.data,
      s.Holds data ∧ call.madeAt ≤ data.version ∧ ∀ old ∈ file, old.version ≤ data.version)
    (hholds : ∀ data ∈ file, s.Holds data)
    (hgrows : ∀ old ∈ s.file, ∃ data ∈ file, old.version ≤ data.version)
    (hresolved : phase = .resolved → ∃ data ∈ file, call.madeAt ≤ data.version) :
    Inv { s.setPhase k phase with file := file } := by
  have hsettled : ∀ j, s.SettledAt j → ({ s.setPhase k phase with file := file }).SettledAt j := by
    rintro j ⟨c, hc, hs⟩
    have hj : j ≠ k := by
      rintro rfl
      rw [hk] at hc
      exact hopen (Option.some.inj hc ▸ hs)
    exact ⟨c, (getElem?_setPhase_of_ne hj).trans hc, hs⟩
  constructor
  · show s.chain = pred (s.setPhase k phase).calls.length
    rw [State.setPhase, List.length_modify]
    exact h.chain
  · intro j c hc
    rcases call_setPhase hk hc with ⟨rfl, rfl⟩ | ⟨-, hc⟩
    · show call.after = pred j
      exact h.after hk
    · exact h.after hc
  · intro j c hc
    rcases call_setPhase hk hc with ⟨rfl, rfl⟩ | ⟨-, hc⟩
    · show call.madeAt ≤ s.version
      exact h.madeAt hk
    · exact h.madeAt hc
  · intro j c hc hstarted i hi
    rcases call_setPhase hk hc with ⟨rfl, rfl⟩ | ⟨-, hc⟩
    · exact hsettled i (hbefore i hi)
    · exact hsettled i (h.before hc hstarted i hi)
  · intro j c hc data hd
    rcases call_setPhase hk hc with ⟨rfl, rfl⟩ | ⟨hj, hc⟩
    · exact hdata data hd
    · -- another run cannot be active: it is settled, or would have waited
      have hne : c.phase ≠ .waiting := by
        intro hw
        rw [hw] at hd
        cases hd
      rcases Nat.lt_or_gt_of_ne hj with hlt | hgt
      · obtain ⟨c', hc', hs⟩ := hbefore j hlt
        rw [hc] at hc'
        exact absurd (Option.some.inj hc' ▸ hs) (not_settled_of_data hd)
      · obtain ⟨c', hc', hs⟩ := h.before hc hne k hgt
        rw [hk] at hc'
        exact absurd (Option.some.inj hc' ▸ hs) hopen
  · exact hholds
  · intro j c hc hr
    rcases call_setPhase hk hc with ⟨rfl, rfl⟩ | ⟨-, hc⟩
    · exact hresolved hr
    · obtain ⟨old, hold, hle⟩ := h.resolved hc hr
      obtain ⟨data, hd, hle'⟩ := hgrows old hold
      exact ⟨data, hd, Nat.le_trans hle hle'⟩

/-- A run may start: then all calls before it have settled. -/
theorem Inv.settled_before (h : Inv s) (hk : s.calls[k]? = some call)
    (hready : ∀ j ∈ call.after, s.SettledAt j) : ∀ j < k, s.SettledAt j := by
  rw [h.after hk] at hready
  cases k with
  | zero => exact fun j hj => absurd hj (Nat.not_lt_zero j)
  | succ k =>
      obtain ⟨c, hc, hs⟩ := hready k rfl
      have hstarted : c.phase ≠ .waiting := by
        intro hw
        rw [hw] at hs
        exact hs
      intro j hj
      rcases Nat.lt_succ_iff_lt_or_eq.mp hj with hlt | rfl
      · exact h.before hc hstarted j hlt
      · exact ⟨c, hc, hs⟩

/-- A new call waits for the last one. -/
theorem Inv.persist (h : Inv s) :
    Inv { s with calls := s.calls ++ [s.newCall], chain := some s.calls.length } := by
  have hcases : ∀ {j : ℕ} {c : Call S},
      (s.calls ++ [s.newCall])[j]? = some c →
      s.calls[j]? = some c ∨ j = s.calls.length ∧ c = s.newCall := by
    intro j c hc
    rcases Nat.lt_or_ge j s.calls.length with hlt | hge
    · rw [List.getElem?_append_left hlt] at hc
      exact .inl hc
    · rw [List.getElem?_append_right hge, List.getElem?_singleton] at hc
      split at hc
      · rename_i hj
        exact .inr ⟨by omega, (Option.some.inj hc).symm⟩
      · cases hc
  have hsettled : ∀ j, s.SettledAt j → ({ s with
      calls := s.calls ++ [s.newCall],
      chain := some s.calls.length }).SettledAt j := by
    rintro j ⟨c, hc, hs⟩
    obtain ⟨hlt, -⟩ := List.getElem?_eq_some_iff.mp hc
    exact ⟨c, (List.getElem?_append_left hlt).trans hc, hs⟩
  constructor
  · show some s.calls.length = pred (s.calls ++ [_]).length
    rw [List.length_append]
    rfl
  · intro j c hc
    rcases hcases hc with hc | ⟨rfl, rfl⟩
    · exact h.after hc
    · exact h.chain
  · intro j c hc
    rcases hcases hc with hc | ⟨rfl, rfl⟩
    · exact h.madeAt hc
    · exact Nat.le_refl s.version
  · intro j c hc hstarted i hi
    rcases hcases hc with hc | ⟨rfl, rfl⟩
    · exact hsettled i (h.before hc hstarted i hi)
    · exact absurd rfl hstarted
  · intro j c hc data hd
    rcases hcases hc with hc | ⟨rfl, rfl⟩
    · exact h.data hc data hd
    · cases hd
  · exact h.file
  · intro j c hc hr
    rcases hcases hc with hc | ⟨rfl, rfl⟩
    · exact h.resolved hc hr
    · cases hr

theorem inv_step {e : Event S} (h : Inv s) (hstep : Step s e s') : Inv s' := by
  have hsame : ∀ old ∈ s.file, ∃ data ∈ s.file, old.version ≤ data.version :=
    fun old hold => ⟨old, hold, Nat.le_refl _⟩
  cases hstep with
  | mutate f =>
      have hgrow : ∀ data, s.Holds data →
          ({ s with memory := f s.memory, past := s.past ++ [s.memory] }).Holds data := by
        intro data hdata
        obtain ⟨hlt, heq⟩ := List.getElem?_eq_some_iff.mp hdata
        exact (List.getElem?_append_left hlt).trans hdata
      refine ⟨h.chain, h.after, fun hc => ?_, h.before, fun hc data hd => ?_,
        fun data hd => hgrow data (h.file data hd), h.resolved⟩
      · show _ ≤ (s.past ++ [s.memory]).length
        rw [List.length_append]
        exact Nat.le_add_right_of_le (h.madeAt hc)
      · obtain ⟨h₁, h₂⟩ := h.data hc data hd
        exact ⟨hgrow data h₁, h₂⟩
  | persist => exact h.persist
  | @exportDb k call hk hwaiting hready =>
      refine h.setPhase hk (by rw [hwaiting]; exact id) (h.settled_before hk hready)
        (fun data hd => ?_) h.file hsame nofun
      cases hd
      exact ⟨holds_snapshot s, h.madeAt hk, fun old hold => (h.file old hold).version_le⟩
  | @writeFile k call data hk hphase =>
      have hd := h.data hk data (by rw [hphase]; rfl)
      exact h.setPhase hk (by rw [hphase]; exact id) (h.before hk (by rw [hphase]; nofun))
        (fun d hd' => by cases hd'; exact hd) h.file hsame nofun
  | @writeFileFails k call data hk hphase =>
      exact h.setPhase hk (by rw [hphase]; exact id) (h.before hk (by rw [hphase]; nofun))
        nofun h.file hsame nofun
  | @rename k call data hk hphase =>
      obtain ⟨hholds, hmade, hold⟩ := h.data hk data (by rw [hphase]; rfl)
      exact h.setPhase hk (by rw [hphase]; exact id) (h.before hk (by rw [hphase]; nofun))
        nofun (fun d hd => by cases hd; exact hholds) (fun old ho => ⟨data, rfl, hold old ho⟩)
        fun _ => ⟨data, rfl, hmade⟩
  | @renameFails k call data hk hphase =>
      exact h.setPhase hk (by rw [hphase]; exact id) (h.before hk (by rw [hphase]; nofun))
        nofun h.file hsame nofun

theorem inv_steps (h : Inv s) (hsteps : Steps s s') : Inv s' := by
  induction hsteps with
  | refl => exact h
  | step _ hstep ih => exact inv_step ih hstep

/-! ### What the steps do -/

/-- The file never goes back. -/
theorem file_mono_step {e : Event S} (h : Inv s) (hstep : Step s e s') :
    ∀ old ∈ s.file, ∃ data ∈ s'.file, old.version ≤ data.version := by
  intro old hold
  cases hstep with
  | @rename k call data hk hphase =>
      exact ⟨data, rfl, (h.data hk data (by rw [hphase]; rfl)).2.2 old hold⟩
  | _ => exact ⟨old, hold, Nat.le_refl _⟩

theorem file_mono (h : Inv s) (hsteps : Steps s s') :
    ∀ old ∈ s.file, ∃ data ∈ s'.file, old.version ≤ data.version := by
  induction hsteps with
  | refl => exact fun old hold => ⟨old, hold, Nat.le_refl _⟩
  | step hsteps hstep ih =>
      intro old hold
      obtain ⟨mid, hmid, hle⟩ := ih old hold
      obtain ⟨data, hdata, hle'⟩ := file_mono_step (inv_steps h hsteps) hstep mid hmid
      exact ⟨data, hdata, Nat.le_trans hle hle'⟩

/-- A step of a run changes no other call. -/
theorem call_frame {e : Event S} (hstep : Step s e s') {j : ℕ} (hj : e.runOf ≠ some j)
    (hlt : j < s.calls.length) : s'.calls[j]? = s.calls[j]? := by
  have hne : ∀ {k}, some k ≠ some j → j ≠ k := fun hk h => hk (h ▸ rfl)
  cases hstep with
  | mutate => rfl
  | persist => exact List.getElem?_append_left hlt
  | exportDb => exact getElem?_setPhase_of_ne (hne hj)
  | writeFile => exact getElem?_setPhase_of_ne (hne hj)
  | writeFileFails => exact getElem?_setPhase_of_ne (hne hj)
  | rename => exact getElem?_setPhase_of_ne (hne hj)
  | renameFails => exact getElem?_setPhase_of_ne (hne hj)

/-- A failing run rejects its own call and leaves the file alone. -/
theorem rejects_own {e : Event S} (hstep : Step s e s') (hfails : e.Fails) :
    s'.file = s.file ∧ ∃ k c, e.runOf = some k ∧ s'.calls[k]? = some c ∧ c.phase = .rejected := by
  cases hstep with
  | @writeFileFails k call data hk hphase =>
      exact ⟨rfl, k, _, rfl, getElem?_setPhase_self hk, rfl⟩
  | @renameFails k call data hk hphase =>
      exact ⟨rfl, k, _, rfl, getElem?_setPhase_self hk, rfl⟩
  | _ => exact hfails.elim

/-- The first call that is not settled can go on, whatever became of those
before it. -/
theorem Inv.exists_step (h : Inv s) (hk : s.calls[k]? = some call) (hopen : ¬ call.phase.Settled)
    (hbefore : ∀ j < k, s.SettledAt j) : ∃ e s', Step s e s' ∧ e.runOf = some k ∧ ¬ e.Fails := by
  have hafter := h.after hk
  cases hphase : call.phase with
  | waiting =>
      refine ⟨_, _, .exportDb hk hphase fun j hj => hbefore j ?_, rfl, id⟩
      rw [hafter] at hj
      cases k with
      | zero => cases hj
      | succ k =>
          cases hj
          exact Nat.lt_succ_self j
  | writing data => exact ⟨_, _, .writeFile hk hphase, rfl, id⟩
  | moving data => exact ⟨_, _, .rename hk hphase, rfl, id⟩
  | resolved | rejected =>
      rw [hphase] at hopen
      exact absurd trivial hopen

/-! ### Linearisation -/

/-- What a state of a run guarantees. -/
structure Linearised (s : State S) : Prop where
  /-- At most one run is between its export and its rename. -/
  exclusive : ∀ {j k : ℕ} {c d : Call S}, s.calls[j]? = some c → s.calls[k]? = some d →
    c.phase.data.isSome → d.phase.data.isSome → j = k
  /-- The file holds a complete snapshot, and never an older one later. -/
  complete : ∀ data ∈ s.file, s.Holds data
  monotone : ∀ {s' : State S}, Steps s s' →
    ∀ old ∈ s.file, ∃ data ∈ s'.file, old.version ≤ data.version
  /-- The mutations before a call that has resolved are in the file. -/
  included : ∀ {k : ℕ} {call : Call S}, s.calls[k]? = some call → call.phase = .resolved →
    ∃ data ∈ s.file, call.madeAt ≤ data.version
  /-- A failure leaves the file and rejects its own caller; no step of a run
  touches another call. -/
  failure : ∀ {e : Event S} {s' : State S}, Step s e s' → e.Fails →
    s'.file = s.file ∧ ∃ k c, e.runOf = some k ∧ s'.calls[k]? = some c ∧ c.phase = .rejected
  frame : ∀ {e : Event S} {s' : State S}, Step s e s' → ∀ j, e.runOf ≠ some j →
    j < s.calls.length → s'.calls[j]? = s.calls[j]?
  /-- No call is skipped: the first that is not settled can go on. -/
  progress : ∀ {k : ℕ} {call : Call S}, s.calls[k]? = some call → ¬ call.phase.Settled →
    (∀ j < k, s.SettledAt j) → ∃ e s', Step s e s' ∧ e.runOf = some k ∧ ¬ e.Fails

/-- **Persisting is linearised**, for every interleaving of mutations, calls,
runs and failures. -/
theorem persist_linearised (memory : S) (h : Steps (start memory) s) : Linearised s := by
  have hinv : Inv s := inv_steps (inv_start memory) h
  refine ⟨fun {j k c d} hj hk hc hd => ?_, hinv.file, file_mono hinv, hinv.resolved, rejects_own,
    fun hstep j hj hlt => call_frame hstep hj hlt, hinv.exists_step⟩
  obtain ⟨data, hdata⟩ := Option.isSome_iff_exists.mp hc
  obtain ⟨data', hdata'⟩ := Option.isSome_iff_exists.mp hd
  refine hinv.active_unique hj hk (not_settled_of_data hdata) (not_settled_of_data hdata') ?_ ?_
  · intro hw
    rw [hw] at hdata
    cases hdata
  · intro hw
    rw [hw] at hdata'
    cases hdata'

/-- The first of two callers cannot write; the second still gets its
mutation, made in between, into the file. -/
theorem persist_linearised_failure : Linearised (⟨1, [0], [⟨0, none, .rejected⟩,
    ⟨1, some 0, .resolved⟩], some 1, some ⟨1, 1⟩⟩ : State ℕ) := by
  have h₁ : Steps (start 0) _ := .step .refl .persist
  have h₂ := h₁.step (.exportDb (k := 0) rfl rfl nofun)
  have h₃ := (h₂.step (.writeFileFails (k := 0) rfl rfl)).step (.mutate (· + 1))
  have h₄ := (h₃.step .persist).step
    (.exportDb (k := 1) rfl rfl fun j hj => by cases hj; exact ⟨_, rfl, trivial⟩)
  have h₅ := (h₄.step (.writeFile (k := 1) rfl rfl)).step (.rename (k := 1) rfl rfl)
  exact persist_linearised 0 h₅

end Persist

end Hub
