/-
Aion2Hub/Lib/Transaction.lean

Transactions of the relational engine.

`atomically` is BEGIN, a body, COMMIT, and ROLLBACK when the body throws.
For a body made of statements alone (`Quiet`) it has two outcomes only
(`atomically_cases`): the body went through and its rows are there, or it
threw and the connection is what it was.
-/
import Aion2Hub.Lib.Integrity

namespace Sql

variable {T : Type} {Row : T → Type} {S : Schema T Row}

/-! ### Programs of statements

A program made of statements alone touches neither the pragma nor the
transaction.  One that also runs transactions leaves none open. -/

/-- The pragma and the open transaction stay as they are. -/
structure Quiet {α : Type} (m : Exec (Conn Row) α) : Prop where
  keeps : ∀ enforced x, Exec.Keeps (fun c => c.foreignKeys = enforced ∧ c.saved = x) m

/-- The pragma stays as it is, and no transaction is left open. -/
structure Settled {α : Type} (m : Exec (Conn Row) α) : Prop where
  keeps : ∀ enforced, Exec.Keeps (fun c => c.foreignKeys = enforced ∧ c.saved = none) m

variable {α β : Type} {m : Exec (Conn Row) α} {f : α → Exec (Conn Row) β}

theorem Quiet.settled (h : Quiet m) : Settled m := ⟨fun enforced => h.keeps enforced none⟩

theorem Quiet.pure {a : α} : Quiet (Pure.pure a : Exec (Conn Row) α) :=
  ⟨fun _ _ => Exec.Keeps.pure⟩

theorem Quiet.throw {e : String} : Quiet (Exec.throw e : Exec (Conn Row) α) :=
  ⟨fun _ _ => Exec.Keeps.throw⟩

theorem Quiet.ofOption {e : String} {o : Option α} :
    Quiet (Exec.ofOption e o : Exec (Conn Row) α) :=
  ⟨fun _ _ => Exec.Keeps.ofOption⟩

theorem Quiet.gets {g : Conn Row → α} : Quiet (Exec.gets g) := ⟨fun _ _ => Exec.Keeps.gets⟩

theorem Quiet.bind (hm : Quiet m) (hf : ∀ a, Quiet (f a)) : Quiet (m >>= f) :=
  ⟨fun enforced x => (hm.keeps enforced x).bind fun a => (hf a).keeps enforced x⟩

theorem Quiet.discard (hm : Quiet m) : Quiet m.discard :=
  ⟨fun enforced x => (hm.keeps enforced x).discard⟩

theorem Quiet.forEach {as : List β} {g : β → Exec (Conn Row) Unit} (h : ∀ a, Quiet (g a)) :
    Quiet (Exec.forEach as g) :=
  ⟨fun enforced x => Exec.Keeps.forEach fun a _ => (h a).keeps enforced x⟩

theorem Settled.bind (hm : Settled m) (hf : ∀ a, Settled (f a)) : Settled (m >>= f) :=
  ⟨fun enforced => (hm.keeps enforced).bind fun a => (hf a).keeps enforced⟩

theorem Settled.discard (hm : Settled m) : Settled m.discard :=
  ⟨fun enforced => (hm.keeps enforced).discard⟩

theorem quiet_select {t : T} {p : Row t → Bool} : Quiet (S.select t p) := Quiet.gets

theorem quiet_selectBy {t : T} {p : Row t → Bool} {before : Row t → Row t → Bool} :
    Quiet (S.selectBy t p before) := Quiet.gets

theorem quiet_selectOne {t : T} {p : Row t → Bool} : Quiet (S.selectOne t p) := Quiet.gets

/-! ### Transactions -/

/-- `BEGIN; try { body; COMMIT } catch (e) { ROLLBACK; throw e }`, the shape
of every transaction; `critical` is the message when the rollback fails as
well. -/
def atomically (critical : String → String → String) (body : Exec (Conn Row) Unit) :
    Exec (Conn Row) Unit := do
  begin
  Exec.tryCatch (do body; commit) fun e => do
    Exec.tryCatch rollback fun e' => Exec.throw (critical e e')
    Exec.throw e

variable {critical : String → String → String} {body : Exec (Conn Row) Unit} {c c' : Conn Row}

/-- What a transaction can do, if its body leaves the transaction alone. -/
theorem atomically_cases (critical : String → String → String) (h₀ : c.saved = none)
    (hbody : Quiet body) :
    (∃ d, body { c with saved := some c.db } = (.ok (), d) ∧
        atomically critical body c = (.ok (), { d with saved := none })) ∨
      ∃ d e, body { c with saved := some c.db } = (.error e, d) ∧
        atomically critical body c = (.error e, c) := by
  obtain ⟨db, enforced, saved⟩ := c
  obtain rfl : saved = none := h₀
  have hbegin : begin (⟨db, enforced, none⟩ : Conn Row) = (.ok (), ⟨db, enforced, some db⟩) := rfl
  have hinv := (hbody.keeps enforced (some db)).apply (s := ⟨db, enforced, some db⟩) ⟨rfl, rfl⟩
  unfold atomically
  rw [Exec.bind_of_ok hbegin]
  rcases hrun : body ⟨db, enforced, some db⟩ with ⟨e | u, d⟩
  · rw [hrun] at hinv
    obtain ⟨d, enforced', saved'⟩ := d
    obtain ⟨hflag, hsaved⟩ : enforced' = enforced ∧ saved' = some db := hinv
    subst hsaved hflag
    refine .inr ⟨_, e, rfl, ?_⟩
    simp only [Exec.tryCatch, Exec.bind_of_error hrun]
    rfl
  · rw [hrun] at hinv
    obtain ⟨d, enforced', saved'⟩ := d
    obtain ⟨hflag, hsaved⟩ : enforced' = enforced ∧ saved' = some db := hinv
    subst hsaved hflag
    refine .inl ⟨_, rfl, ?_⟩
    simp only [Exec.tryCatch, Exec.bind_of_ok hrun]
    rfl

/-- A transaction that throws changes nothing. -/
theorem atomically_error (hbody : Quiet body) {e : String}
    (h : atomically critical body c = (.error e, c')) : c' = c := by
  cases hsaved : c.saved with
  | some db =>
      have hbegin : begin c = (.error "cannot start a transaction within a transaction", c) := by
        unfold begin
        rw [hsaved]
      rw [atomically, Exec.bind_of_error hbegin] at h
      cases h
      rfl
  | none =>
      rcases atomically_cases critical hsaved hbody with ⟨d, -, hrun⟩ | ⟨d, e', -, hrun⟩
      · rw [hrun] at h
        cases h
      · rw [hrun] at h
        cases h
        rfl

/-- A transaction that returns has done what its body did. -/
theorem atomically_ok (hbody : Quiet body) {u : Unit}
    (h : atomically critical body c = (.ok u, c')) :
    ∃ d, body { c with saved := some c.db } = (.ok (), d) ∧ c' = { d with saved := none } := by
  cases hsaved : c.saved with
  | some db =>
      have hbegin : begin c = (.error "cannot start a transaction within a transaction", c) := by
        unfold begin
        rw [hsaved]
      rw [atomically, Exec.bind_of_error hbegin] at h
      cases h
  | none =>
      rcases atomically_cases critical hsaved hbody with ⟨d, hd, hrun⟩ | ⟨d, e', -, hrun⟩
      · rw [hrun] at h
        cases h
        exact ⟨d, hd, rfl⟩
      · rw [hrun] at h
        cases h

/-- What the body keeps true of the rows, the transaction does. -/
theorem keeps_atomically {I : Db Row → Prop} (hquiet : Quiet body)
    (hbody : Exec.Keeps (fun c : Conn Row => I c.db) body) :
    Exec.Keeps (fun c : Conn Row => I c.db) (atomically critical body) := by
  refine Exec.keeps_of_apply fun c hc => ?_
  rcases hrun : atomically critical body c with ⟨e | u, d⟩
  · rw [atomically_error hquiet hrun]
    exact hc
  · obtain ⟨s, hs, rfl⟩ := atomically_ok hquiet hrun
    have hkept := hbody.apply (s := { c with saved := some c.db }) hc
    rwa [hs] at hkept

theorem settled_atomically (hbody : Quiet body) : Settled (atomically critical body) := by
  refine ⟨fun enforced => Exec.keeps_of_apply fun c hc => ?_⟩
  have hinv := (hbody.keeps c.foreignKeys (some c.db)).apply
    (s := { c with saved := some c.db }) ⟨rfl, rfl⟩
  rcases atomically_cases critical hc.2 hbody with ⟨d, hd, h⟩ | ⟨d, e, -, h⟩
  · rw [h]
    rw [hd] at hinv
    exact ⟨hinv.1.trans hc.1, rfl⟩
  · rw [h]
    exact hc

/-! ### Statements -/

variable [DecidableEq T]

theorem quiet_insert {oc : OnConflict} {t : T} {r : Row t} : Quiet (S.insert oc t r) := by
  refine ⟨fun enforced x => Exec.keeps_of_apply fun c hc => ?_⟩
  unfold Schema.insert
  split <;> exact hc

theorem quiet_delete {t : T} {p : Row t → Bool} : Quiet (S.delete t p) :=
  ⟨fun _ _ => Exec.keeps_of_apply fun _ hc => hc⟩

theorem quiet_update {t : T} {p : Row t → Bool} {f : Row t → Row t} : Quiet (S.update t p f) := by
  refine ⟨fun enforced x => Exec.keeps_of_apply fun c hc => ?_⟩
  unfold Schema.update
  dsimp only
  split <;> exact hc

theorem quiet_upsert {t : T} {r : Row t} {f : Row t → Row t} : Quiet (S.upsert t r f) := by
  refine ⟨fun enforced x => Exec.keeps_of_apply fun c hc => ?_⟩
  unfold Schema.upsert
  split
  · exact (quiet_update.keeps enforced x).apply hc
  · exact (quiet_insert.keeps enforced x).apply hc

theorem quiet_insertSelect {oc : OnConflict} {t : T} {rows : Db Row → List (Row t)} :
    Quiet (S.insertSelect oc t rows) := by
  refine ⟨fun enforced x => Exec.keeps_of_apply fun c hc => ?_⟩
  have hloop : Quiet (Exec.forEach (rows c.db) (S.insert oc t)) := Quiet.forEach fun _ => quiet_insert
  have hkept := (hloop.keeps enforced x).apply hc
  unfold Schema.insertSelect
  split
  · rename_i c' hrun
    rwa [hrun] at hkept
  · exact hc

end Sql
