/-
Aion2Hub/Lib/Exec.lean

Programs that may throw.  A JavaScript function that throws keeps whatever
it did to the state before the exception, so a program is a function

    σ → Except String α × σ

that returns a state on both outcomes.  This is not the usual stack of an
exception over a state: there, a failing program loses its state, and the
question whether an operation is atomic could not even be asked.

The rules below are the ones of a small Hoare logic.  `Triple P m Q E` says
that from a state in `P` the program `m` either returns with `Q` or throws
with `E`; `Keeps I m` is the special case of an invariant, kept on both
outcomes.
-/
import Mathlib.Logic.Basic
import Mathlib.Tactic.Common

/-- A program over the state `σ` that returns an `α` or throws a message,
and leaves a state behind in both cases. -/
def Exec (σ α : Type) : Type := σ → Except String α × σ

namespace Exec

variable {σ α β : Type}

/-! ### Programs -/

/-- Return a value and leave the state alone. -/
def ret (a : α) : Exec σ α := fun s => (.ok a, s)

/-- Run `m`, then `f` on its result; an exception of `m` skips `f`. -/
def andThen (m : Exec σ α) (f : α → Exec σ β) : Exec σ β := fun s =>
  match m s with
  | (.ok a, s') => f a s'
  | (.error e, s') => (.error e, s')

instance : Monad (Exec σ) where
  pure := ret
  bind := andThen

/-- Throw an exception, keeping the state as it is. -/
def throw (e : String) : Exec σ α := fun s => (.error e, s)

/-- Read something off the state. -/
def gets (f : σ → α) : Exec σ α := fun s => (.ok (f s), s)

/-- The value of an option, or an exception. -/
def ofOption (e : String) : Option α → Exec σ α
  | some a => ret a
  | none => throw e

/-- The value of a computation that may throw and touches no state. -/
def ofExcept : Except String α → Exec σ α
  | .ok a => ret a
  | .error e => throw e

/-- Change the state. -/
def modify (f : σ → σ) : Exec σ Unit := fun s => (.ok (), f s)

/-- Run the handler, on the state the exception left, when `m` throws. -/
def tryCatch (m : Exec σ α) (h : String → Exec σ α) : Exec σ α := fun s =>
  match m s with
  | (.ok a, s') => (.ok a, s')
  | (.error e, s') => h e s'

/-- Run `m` and forget what it returns. -/
def discard (m : Exec σ α) : Exec σ Unit := do
  let _ ← m
  pure ()

/-- The loop `for (const a of as) f(a)`. -/
def forEach : List α → (α → Exec σ Unit) → Exec σ Unit
  | [], _ => pure ()
  | a :: as, f => do f a; forEach as f

/-! ### Equations -/

@[simp] theorem pure_apply (a : α) (s : σ) : (pure a : Exec σ α) s = (.ok a, s) := rfl

@[simp] theorem throw_apply (e : String) (s : σ) : (throw e : Exec σ α) s = (.error e, s) := rfl

@[simp] theorem gets_apply (f : σ → α) (s : σ) : gets f s = (.ok (f s), s) := rfl

@[simp] theorem ofOption_some (e : String) (a : α) (s : σ) :
    (ofOption e (some a) : Exec σ α) s = (.ok a, s) := rfl

@[simp] theorem ofOption_none (e : String) (s : σ) :
    (ofOption e none : Exec σ α) s = (.error e, s) := rfl

theorem ofExcept_apply (r : Except String α) (s : σ) : ofExcept r s = (r, s) := by
  cases r <;> rfl

@[simp] theorem modify_apply (f : σ → σ) (s : σ) : modify f s = (.ok (), f s) := rfl

theorem bind_apply (m : Exec σ α) (f : α → Exec σ β) (s : σ) :
    (m >>= f) s = match m s with
      | (.ok a, s') => f a s'
      | (.error e, s') => (.error e, s') := rfl

theorem bind_of_ok {m : Exec σ α} {f : α → Exec σ β} {s s' : σ} {a : α}
    (h : m s = (.ok a, s')) : (m >>= f) s = f a s' := by
  rw [bind_apply, h]

theorem bind_of_error {m : Exec σ α} {f : α → Exec σ β} {s s' : σ} {e : String}
    (h : m s = (.error e, s')) : (m >>= f) s = (.error e, s') := by
  rw [bind_apply, h]

theorem ofOption_some_bind (e : String) (a : α) (f : α → Exec σ β) :
    (ofOption e (some a) >>= f) = f a := rfl

theorem ofOption_none_bind (e : String) (f : α → Exec σ β) :
    (ofOption e none >>= f) = throw e := rfl

/-- A sequence that returns: both parts returned. -/
theorem bind_eq_ok {m : Exec σ α} {f : α → Exec σ β} {s s'' : σ} {b : β}
    (h : (m >>= f) s = (.ok b, s'')) :
    ∃ a s', m s = (.ok a, s') ∧ f a s' = (.ok b, s'') := by
  rcases hm : m s with ⟨e | a, s'⟩
  · rw [bind_of_error hm] at h
    cases h
  · rw [bind_of_ok hm] at h
    exact ⟨a, s', rfl, h⟩

@[simp] theorem forEach_nil (f : α → Exec σ Unit) (s : σ) : forEach [] f s = (.ok (), s) := rfl

theorem forEach_cons (a : α) (as : List α) (f : α → Exec σ Unit) :
    forEach (a :: as) f = (f a >>= fun _ => forEach as f) := rfl

theorem forEach_map (g : α → β) (f : β → Exec σ Unit) (l : List α) :
    forEach (l.map g) f = forEach l fun a => f (g a) := by
  induction l with
  | nil => rfl
  | cons a l ih => rw [List.map_cons, forEach_cons, forEach_cons, ih]

theorem forEach_congr {f g : α → Exec σ Unit} {l : List α} (h : ∀ a ∈ l, f a = g a) :
    forEach l f = forEach l g := by
  induction l with
  | nil => rfl
  | cons a l ih =>
      rw [forEach_cons, forEach_cons, h a List.mem_cons_self,
        ih fun b hb => h b (List.mem_cons_of_mem a hb)]

/-- A loop that returns has run all its rounds: what each round does to the
state for its entries, the loop does for all entries. -/
theorem forEach_ok {R : List β → σ → σ → Prop} {g : α → List β} {f : α → Exec σ Unit}
    (hrefl : ∀ s, R [] s s)
    (htrans : ∀ l l' s s' s'', R l s s' → R l' s' s'' → R (l ++ l') s s'')
    {as : List α} (hstep : ∀ a ∈ as, ∀ s s', f a s = (.ok (), s') → R (g a) s s') {s s' : σ}
    (h : forEach as f s = (.ok (), s')) : R (as.flatMap g) s s' := by
  induction as generalizing s with
  | nil =>
      cases h
      exact hrefl _
  | cons a as ih =>
      rw [forEach_cons] at h
      obtain ⟨_, s₁, ha, hrest⟩ := bind_eq_ok h
      rw [List.flatMap_cons]
      exact htrans _ _ _ _ _ (hstep a List.mem_cons_self s s₁ ha)
        (ih (fun b hb => hstep b (List.mem_cons_of_mem a hb)) hrest)

theorem bind_pure_snd (m : Exec σ α) (b : β) (s : σ) : ((m >>= fun _ => pure b) s).2 = (m s).2 := by
  rcases h : m s with ⟨e | a, s'⟩
  · rw [bind_of_error h]
  · rw [bind_of_ok h]
    rfl

theorem discard_of_ok {m : Exec σ α} {s s' : σ} {a : α} (h : m s = (.ok a, s')) :
    discard m s = (.ok (), s') :=
  bind_of_ok h

theorem discard_of_error {m : Exec σ α} {s s' : σ} {e : String} (h : m s = (.error e, s')) :
    discard m s = (.error e, s') :=
  bind_of_error h

theorem discard_snd (m : Exec σ α) (s : σ) : (discard m s).2 = (m s).2 := bind_pure_snd m () s

/-! ### Triples -/

/-- From a state in `P` the program returns a value and a state in `Q`, or
throws and leaves a state in `E`. -/
structure Triple (P : σ → Prop) (m : Exec σ α) (Q : α → σ → Prop) (E : σ → Prop) : Prop where
  ok : ∀ {s a s'}, P s → m s = (.ok a, s') → Q a s'
  error : ∀ {s e s'}, P s → m s = (.error e, s') → E s'

/-- The program keeps the invariant `I`, whether it returns or throws. -/
def Keeps (I : σ → Prop) (m : Exec σ α) : Prop := Triple I m (fun _ => I) I

variable {P P' I E E' : σ → Prop} {Q Q' : α → σ → Prop} {R : β → σ → Prop}
variable {m : Exec σ α} {f : α → Exec σ β}

theorem Triple.consequence (h : Triple P m Q E) (hP : ∀ s, P' s → P s)
    (hQ : ∀ a s, Q a s → Q' a s) (hE : ∀ s, E s → E' s) : Triple P' m Q' E' where
  ok hs hm := hQ _ _ (h.ok (hP _ hs) hm)
  error hs hm := hE _ (h.error (hP _ hs) hm)

theorem Triple.pure {a : α} (h : ∀ s, P s → Q a s) :
    Triple P (Pure.pure a : Exec σ α) Q E where
  ok hs hm := by
    cases hm
    exact h _ hs
  error _ hm := by cases hm

theorem Triple.throw {e : String} (h : ∀ s, P s → E s) :
    Triple P (Exec.throw e : Exec σ α) Q E where
  ok _ hm := by cases hm
  error hs hm := by
    cases hm
    exact h _ hs

theorem Triple.gets {g : σ → α} (h : ∀ s, P s → Q (g s) s) : Triple P (Exec.gets g) Q E where
  ok hs hm := by
    cases hm
    exact h _ hs
  error _ hm := by cases hm

theorem Triple.ofOption {e : String} {o : Option α} (h : ∀ a, o = some a → ∀ s, P s → Q a s)
    (he : ∀ s, P s → E s) : Triple P (Exec.ofOption e o) Q E := by
  cases o with
  | some a => exact Triple.pure (h a rfl)
  | none => exact Triple.throw he

/-- The rule of sequence. -/
theorem Triple.bind (hm : Triple P m Q E) (hf : ∀ a, Triple (Q a) (f a) R E) :
    Triple P (m >>= f) R E where
  ok hs h := by
    obtain ⟨a, s', hms, hfs⟩ := bind_eq_ok h
    exact (hf a).ok (hm.ok hs hms) hfs
  error {s e s''} hs h := by
    rcases hms : m s with ⟨e' | a, s'⟩
    · rw [bind_of_error hms] at h
      cases h
      exact hm.error hs hms
    · rw [bind_of_ok hms] at h
      exact (hf a).error (hm.ok hs hms) h

/-- The rule of the loop: the invariant is kept by each round. -/
theorem Triple.forEach {as : List α} {g : α → Exec σ Unit}
    (h : ∀ a ∈ as, Triple I (g a) (fun _ => I) E) :
    Triple I (Exec.forEach as g) (fun _ => I) E := by
  induction as with
  | nil => exact Triple.pure fun _ hs => hs
  | cons a as ih =>
      rw [forEach_cons]
      refine Triple.bind (h a List.mem_cons_self) fun _ => ?_
      exact ih fun b hb => h b (List.mem_cons_of_mem a hb)

/-- Two triples of one program. -/
theorem Triple.and (h : Triple P m Q E) (h' : Triple P' m Q' E') :
    Triple (fun s => P s ∧ P' s) m (fun a s => Q a s ∧ Q' a s) (fun s => E s ∧ E' s) where
  ok hs hm := ⟨h.ok hs.1 hm, h'.ok hs.2 hm⟩
  error hs hm := ⟨h.error hs.1 hm, h'.error hs.2 hm⟩

theorem Triple.discard {Q : Unit → σ → Prop} (hm : Triple P m (fun _ => Q ()) E) :
    Triple P m.discard Q E :=
  hm.bind fun _ => Triple.pure fun _ h => h

/-! ### Invariants -/

/-- What a kept invariant says of the state a program leaves. -/
theorem Keeps.apply (h : Keeps I m) {s : σ} (hs : I s) : I (m s).2 := by
  rcases e : m s with ⟨msg | a, s'⟩
  · exact h.error hs e
  · exact h.ok hs e

theorem keeps_of_apply (h : ∀ s, I s → I (m s).2) : Keeps I m where
  ok {s a s'} hs hm := by
    have := h s hs
    rwa [hm] at this
  error {s e s'} hs hm := by
    have := h s hs
    rwa [hm] at this

theorem Keeps.pure {a : α} : Keeps I (Pure.pure a : Exec σ α) := Triple.pure fun _ h => h

theorem Keeps.throw {e : String} : Keeps I (Exec.throw e : Exec σ α) := Triple.throw fun _ h => h

theorem Keeps.gets {g : σ → α} : Keeps I (Exec.gets g) := Triple.gets fun _ h => h

theorem Keeps.ofOption {e : String} {o : Option α} : Keeps I (Exec.ofOption e o : Exec σ α) :=
  Triple.ofOption (fun _ _ _ h => h) fun _ h => h

theorem Keeps.bind (hm : Keeps I m) (hf : ∀ a, Keeps I (f a)) : Keeps I (m >>= f) :=
  Triple.bind hm hf

/-- The second program may use what the first one can return. -/
theorem Keeps.bind_returned (hm : Keeps I m) (hf : ∀ a, (∃ s s', m s = (.ok a, s')) → Keeps I (f a)) :
    Keeps I (m >>= f) := by
  refine keeps_of_apply fun s hs => ?_
  have hkept := hm.apply hs
  rcases hrun : m s with ⟨e | a, s'⟩
  · rw [bind_of_error hrun]
    rwa [hrun] at hkept
  · rw [bind_of_ok hrun]
    rw [hrun] at hkept
    exact (hf a ⟨s, s', hrun⟩).apply hkept

theorem Keeps.discard (hm : Keeps I m) : Keeps I m.discard := Triple.discard hm

theorem Keeps.forEach {as : List α} {g : α → Exec σ Unit} (h : ∀ a ∈ as, Keeps I (g a)) :
    Keeps I (Exec.forEach as g) :=
  Triple.forEach h

end Exec
