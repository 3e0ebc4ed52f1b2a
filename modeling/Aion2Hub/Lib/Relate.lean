/-
Aion2Hub/Lib/Relate.lean

Two runs side by side.

`Coupled R m m'` says that from related states `m` and `m'` go in lockstep:
both return and leave related states, or both throw.  The rules are those of
a relational Hoare logic.

The statements of the engine are coupled on connections that do not enforce
foreign keys, for any relation between rows that fixes the keys (`Alike`):
which rows conflict is then the same on both sides, and without foreign keys
nothing else decides what a statement does.
-/
import Aion2Hub.Lib.Integrity
import Mathlib.Data.List.Forall2

namespace Exec

variable {σ α β : Type}

/-- Both programs return and leave related states, or both throw. -/
structure Coupled (R : σ → σ → Prop) (m m' : Exec σ Unit) : Prop where
  run : ∀ {s s'}, R s s' →
    (∃ d d', m s = (.ok (), d) ∧ m' s' = (.ok (), d') ∧ R d d') ∨
      ∃ e e' d d', m s = (.error e, d) ∧ m' s' = (.error e', d')

variable {R : σ → σ → Prop} {m m' n n' : Exec σ Unit}

theorem Coupled.pure : Coupled R (Pure.pure ()) (Pure.pure ()) :=
  ⟨fun h => .inl ⟨_, _, rfl, rfl, h⟩⟩

theorem Coupled.throw {e e' : String} : Coupled R (Exec.throw e) (Exec.throw e') :=
  ⟨fun _ => .inr ⟨_, _, _, _, rfl, rfl⟩⟩

theorem Coupled.bind (hm : Coupled R m m') (hn : Coupled R n n') :
    Coupled R (m >>= fun _ => n) (m' >>= fun _ => n') := by
  refine ⟨fun {s s'} h => ?_⟩
  rcases hm.run h with ⟨d, d', hd, hd', hR⟩ | ⟨e, e', d, d', hd, hd'⟩
  · rw [bind_of_ok hd, bind_of_ok hd']
    exact hn.run hR
  · rw [bind_of_error hd, bind_of_error hd']
    exact .inr ⟨_, _, _, _, rfl, rfl⟩

/-- Two loops over lists that are related element by element. -/
theorem Coupled.forEach {A : α → β → Prop} {as : List α} {bs : List β}
    {f : α → Exec σ Unit} {g : β → Exec σ Unit} (h : List.Forall₂ A as bs)
    (hfg : ∀ a b, A a b → Coupled R (f a) (g b)) :
    Coupled R (Exec.forEach as f) (Exec.forEach bs g) := by
  induction h with
  | nil => exact Coupled.pure
  | cons hab _ ih =>
      rw [forEach_cons, forEach_cons]
      exact (hfg _ _ hab).bind ih

end Exec

namespace Sql

open Exec

variable {T : Type} {Row : T → Type} {S : Schema T Row}

/-- A relation between rows that fixes their keys. -/
structure Alike (S : Schema T Row) (E : (t : T) → Row t → Row t → Prop) : Prop where
  key : ∀ {t r r'}, E t r r' → S.key t r = S.key t r'
  uniques : ∀ {t r r'}, E t r r' → ∀ u ∈ S.uniques t, u r = u r'

/-- The tables in `U` hold related rows, and foreign keys are off. -/
structure Related (U : T → Prop) (E : (t : T) → Row t → Row t → Prop) (c c' : Conn Row) :
    Prop where
  off : c.foreignKeys = false
  off' : c'.foreignKeys = false
  rows : ∀ t, U t → List.Forall₂ (E t) (c.db t) (c'.db t)

variable {U : T → Prop} {E : (t : T) → Row t → Row t → Prop}

theorem Alike.conflicts (hE : Alike S E) {t : T} {r r' q q' : Row t} (hr : E t r r')
    (hq : E t q q') : S.conflicts t r q = S.conflicts t r' q' := by
  have hany : ∀ l : List (Row t → List String), (∀ u ∈ l, u ∈ S.uniques t) →
      (l.any fun u => u r == u q) = l.any fun u => u r' == u q' := by
    intro l
    induction l with
    | nil => exact fun _ => rfl
    | cons u l ih =>
        intro hl
        have hu := hl u List.mem_cons_self
        rw [List.any_cons, List.any_cons, hE.uniques hr u hu, hE.uniques hq u hu,
          ih fun v hv => hl v (List.mem_cons_of_mem u hv)]
  rw [Schema.conflicts, Schema.conflicts, hE.key hr, hE.key hq, hany _ fun _ h => h]

theorem Alike.any_conflicts (hE : Alike S E) {t : T} {r r' : Row t} (hr : E t r r')
    {rows rows' : List (Row t)} (h : List.Forall₂ (E t) rows rows') :
    rows.any (S.conflicts t r) = rows'.any (S.conflicts t r') := by
  induction h with
  | nil => rfl
  | cons hq _ ih => rw [List.any_cons, List.any_cons, hE.conflicts hr hq, ih]

theorem Alike.distinctRows (hE : Alike S E) {t : T} {rows rows' : List (Row t)}
    (h : List.Forall₂ (E t) rows rows') : S.DistinctRows t rows ↔ S.DistinctRows t rows' := by
  induction h with
  | nil => exact Iff.rfl
  | @cons r r' rows rows' hr hrows ih =>
      have hhead : (∀ q ∈ rows, S.conflicts t r q = false) ↔
          ∀ q ∈ rows', S.conflicts t r' q = false := by
        have := hE.any_conflicts hr hrows
        rw [Bool.eq_iff_iff] at this
        simpa [List.any_eq_true] using not_congr this
      unfold Schema.DistinctRows at ih ⊢
      rw [List.pairwise_cons, List.pairwise_cons, ih, hhead]

theorem Alike.exists_key (hE : Alike S E) {t : T} {rows rows' : List (Row t)} {k : String}
    (h : List.Forall₂ (E t) rows rows') :
    (∃ q ∈ rows, S.key t q = k) ↔ ∃ q ∈ rows', S.key t q = k := by
  induction h with
  | nil => exact Iff.rfl
  | cons hq _ ih => simp only [List.mem_cons, exists_eq_or_imp, hE.key hq, ih]

variable [DecidableEq T]

/-- New rows for one table. -/
theorem Related.set {c c' : Conn Row} (h : Related U E c c') {t : T} {rows rows' : List (Row t)}
    (hrows : U t → List.Forall₂ (E t) rows rows') :
    Related U E { c with db := c.db.set t rows } { c' with db := c'.db.set t rows' } where
  off := h.off
  off' := h.off'
  rows t' ht' := by
    by_cases htt : t' = t
    · subst htt
      show List.Forall₂ (E t') (c.db.set t' rows t') (c'.db.set t' rows' t')
      rw [Db.set_self, Db.set_self]
      exact hrows ht'
    · show List.Forall₂ (E t') (c.db.set t rows t') (c'.db.set t rows' t')
      rw [Db.set_of_ne _ htt, Db.set_of_ne _ htt]
      exact h.rows t' ht'

theorem coupled_insert (hE : Alike S E) {oc : OnConflict} {t : T} (ht : U t) {r r' : Row t}
    (hr : E t r r') : Coupled (Related U E) (S.insert oc t r) (S.insert oc t r') := by
  refine ⟨fun {c c'} h => ?_⟩
  have hrows := h.rows t ht
  rw [insert_off h.off, insert_off h.off', hE.any_conflicts hr hrows]
  split
  · cases oc with
    | abort => exact .inr ⟨_, _, _, _, rfl, rfl⟩
    | ignore => exact .inl ⟨_, _, rfl, rfl, h⟩
    | replace =>
        refine .inl ⟨_, _, rfl, rfl, h.set fun _ => List.rel_append ?_ (.cons hr .nil)⟩
        refine List.rel_filter (fun q q' hq => ?_) hrows
        show (!S.conflicts t r q) = true ↔ (!S.conflicts t r' q') = true
        rw [hE.conflicts hr hq]
  · exact .inl ⟨_, _, rfl, rfl, h.set fun _ => List.rel_append hrows (.cons hr .nil)⟩

theorem coupled_update (hE : Alike S E) {t : T} (ht : U t) {p p' : Row t → Bool}
    {f f' : Row t → Row t} (hp : ∀ r r', E t r r' → p r = p' r')
    (hf : ∀ r r', E t r r' → E t (f r) (f' r')) :
    Coupled (Related U E) (S.update t p f) (S.update t p' f') := by
  refine ⟨fun {c c'} h => ?_⟩
  have hrows : List.Forall₂ (E t) ((c.db t).map fun r => if p r then f r else r)
      ((c'.db t).map fun r => if p' r then f' r else r) := by
    rw [List.forall₂_map_left_iff, List.forall₂_map_right_iff]
    refine (h.rows t ht).imp fun r r' hr => ?_
    rw [hp r r' hr]
    split
    · exact hf r r' hr
    · exact hr
  have hdistinct := hE.distinctRows hrows
  simp only [Schema.update, hdistinct]
  split
  · exact .inl ⟨_, _, rfl, rfl, h.set fun _ => hrows⟩
  · exact .inr ⟨_, _, _, _, rfl, rfl⟩

theorem coupled_upsert (hE : Alike S E) {t : T} (ht : U t) {r r' : Row t} {f f' : Row t → Row t}
    (hr : E t r r') (hf : ∀ q q', E t q q' → E t (f q) (f' q')) :
    Coupled (Related U E) (S.upsert t r f) (S.upsert t r' f') := by
  refine ⟨fun {c c'} h => ?_⟩
  have hkey : S.hasKey c.db t (S.key t r) ↔ S.hasKey c'.db t (S.key t r') := by
    rw [hE.key hr]
    exact hE.exists_key (h.rows t ht)
  simp only [Schema.upsert, hkey]
  split
  · refine (coupled_update hE ht (fun q q' hq => ?_) hf).run h
    rw [hE.key hr, hE.key hq]
  · exact (coupled_insert hE ht hr).run h

theorem coupled_insertSelect (hE : Alike S E) {oc : OnConflict} {t : T} (ht : U t)
    {rows rows' : Db Row → List (Row t)}
    (hrows : ∀ c c', Related U E c c' → List.Forall₂ (E t) (rows c.db) (rows' c'.db)) :
    Coupled (Related U E) (S.insertSelect oc t rows) (S.insertSelect oc t rows') := by
  refine ⟨fun {c c'} h => ?_⟩
  have hinsert : ∀ r r', E t r r' →
      Coupled (Related U E) (S.insert oc t r) (S.insert oc t r') :=
    fun r r' hr => coupled_insert hE ht hr
  have hloop := Coupled.forEach (hrows c c' h) hinsert
  unfold Schema.insertSelect
  rcases hloop.run h with ⟨d, d', hd, hd', hR⟩ | ⟨e, e', d, d', hd, hd'⟩
  · rw [hd, hd']
    exact .inl ⟨_, _, rfl, rfl, hR⟩
  · rw [hd, hd']
    exact .inr ⟨_, _, _, _, rfl, rfl⟩

end Sql
