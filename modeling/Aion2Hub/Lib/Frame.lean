/-
Aion2Hub/Lib/Frame.lean

What a program of statements leaves alone.

`Leaves F m` says that `m` does not change the tables in `F`, whether it
returns or throws.  A statement leaves every table but its own alone, a delete
also those that cascade from it; for tables that refer only to each other
(`Schema.Closed`) no cascade gets in.  The rules for sequences, loops and
transactions follow the program.
-/
import Aion2Hub.Lib.Transaction

namespace Sql

variable {T : Type} {Row : T → Type}

/-- The tables in `F` stay as they are. -/
structure Leaves {α : Type} (F : T → Prop) (m : Exec (Conn Row) α) : Prop where
  same : ∀ c t, F t → (m c).2.db t = c.db t

variable {S : Schema T Row} {F : T → Prop} {α β : Type} {m : Exec (Conn Row) α}
  {f : α → Exec (Conn Row) β}

/-! ### Programs -/

theorem Leaves.of_ok (h : Leaves F m) {c d : Conn Row} {a : α} (hrun : m c = (.ok a, d)) {t : T}
    (ht : F t) : d.db t = c.db t := by
  have hsame := h.same c t ht
  rwa [hrun] at hsame

theorem Leaves.pure {a : α} : Leaves F (Pure.pure a : Exec (Conn Row) α) := ⟨fun _ _ _ => rfl⟩

theorem Leaves.throw {e : String} : Leaves F (Exec.throw e : Exec (Conn Row) α) :=
  ⟨fun _ _ _ => rfl⟩

theorem Leaves.ofOption {e : String} {o : Option α} :
    Leaves F (Exec.ofOption e o : Exec (Conn Row) α) := by
  cases o with
  | none => exact Leaves.throw
  | some a => exact Leaves.pure

theorem Leaves.gets {g : Conn Row → α} : Leaves F (Exec.gets g) := ⟨fun _ _ _ => rfl⟩

theorem Leaves.bind (hm : Leaves F m) (hf : ∀ a, Leaves F (f a)) : Leaves F (m >>= f) := by
  refine ⟨fun c t ht => ?_⟩
  have hfirst := hm.same c t ht
  rcases h : m c with ⟨e | a, d⟩
  · rw [h] at hfirst
    rw [Exec.bind_of_error h]
    exact hfirst
  · rw [h] at hfirst
    rw [Exec.bind_of_ok h]
    exact ((hf a).same d t ht).trans hfirst

theorem Leaves.discard (hm : Leaves F m) : Leaves F m.discard := hm.bind fun _ => Leaves.pure

theorem Leaves.forEach {as : List β} {g : β → Exec (Conn Row) Unit} (h : ∀ a ∈ as, Leaves F (g a)) :
    Leaves F (Exec.forEach as g) := by
  induction as with
  | nil => exact Leaves.pure
  | cons a as ih =>
      rw [Exec.forEach_cons]
      exact (h a List.mem_cons_self).bind fun _ => ih fun b hb => h b (List.mem_cons_of_mem a hb)

/-- What is said about these tables alone stays true. -/
theorem Leaves.keeps {I : Db Row → Prop} (h : Leaves F m)
    (hI : ∀ db db', (∀ t, F t → db' t = db t) → I db → I db') :
    Exec.Keeps (fun c : Conn Row => I c.db) m :=
  Exec.keeps_of_apply fun c hc => hI c.db _ (h.same c) hc

/-! ### Statements -/

variable [DecidableEq T]

theorem leaves_insert (hF : S.Closed F) {oc : OnConflict} {t : T} {r : Row t} (ht : ¬ F t) :
    Leaves F (S.insert oc t r) := by
  refine ⟨fun c t' ht' => ?_⟩
  unfold Schema.insert
  split
  · rename_i db h
    exact insertDb_frame hF ht ht' h
  · rfl

/-- An INSERT that fails changes nothing. -/
theorem insert_error {oc : OnConflict} {t : T} {r : Row t} {c d : Conn Row} {e : String}
    (h : S.insert oc t r c = (.error e, d)) : d = c := by
  unfold Schema.insert at h
  split at h
  · cases h
  · cases h
    rfl

/-- An INSERT that is accepted meets no conflict. -/
theorem no_conflict_of_insert {t : T} {r : Row t} {c d : Conn Row} {u : Unit}
    (h : S.insert .abort t r c = (.ok u, d)) : ¬ (c.db t).any (S.conflicts t r) = true := by
  intro hany
  unfold Schema.insert Schema.insertDb at h
  dsimp only at h
  rw [if_pos hany] at h
  cases h

/-- A plain INSERT keeps what the added row does not break. -/
theorem keeps_append {I : Db Row → Prop} {t : T} {r : Row t}
    (h : ∀ db, I db → I (db.set t (db t ++ [r]))) :
    Exec.Keeps (fun c : Conn Row => I c.db) (S.insert .abort t r) := by
  refine Exec.keeps_of_apply fun c hc => ?_
  rcases hrun : S.insert .abort t r c with ⟨e | u, d⟩
  · rw [insert_error hrun]
    exact hc
  · rw [insert_abort_ok hrun]
    exact h c.db hc

/-- An INSERT keeps what holds of every row, if it holds of the added one. -/
theorem keeps_append_rows {P : (t : T) → Row t → Prop} {t : T} {r : Row t} (hr : P t r) :
    Exec.Keeps (fun c : Conn Row => AllRows P c.db) (S.insert .abort t r) := by
  apply keeps_append
  intro db hdb u q hq
  by_cases hu : u = t
  · subst hu
    rw [Db.set_self] at hq
    rcases List.mem_append.mp hq with hold | hnew
    · exact hdb u q hold
    · obtain rfl := List.mem_singleton.mp hnew
      exact hr
  · rw [Db.set_of_ne db hu] at hq
    exact hdb u q hq

/-- An UPDATE keeps what holds of every row, if the new values have it too. -/
theorem keeps_update_rows {P : (t : T) → Row t → Prop} {t : T} {p : Row t → Bool}
    {f : Row t → Row t} (hf : ∀ r, P t r → P t (f r)) :
    Exec.Keeps (fun c : Conn Row => AllRows P c.db) (S.update t p f) := by
  refine Exec.keeps_of_apply fun c hc => ?_
  unfold Schema.update
  dsimp only
  split
  · intro u q hq
    by_cases hu : u = t
    · subst hu
      change q ∈ (c.db.set u _) u at hq
      rw [Db.set_self] at hq
      obtain ⟨r, hr, rfl⟩ := List.mem_map.mp hq
      split
      · exact hf r (hc u r hr)
      · exact hc u r hr
    · change q ∈ (c.db.set t _) u at hq
      rw [Db.set_of_ne c.db hu] at hq
      exact hc u q hq
  · exact hc

/-- An INSERT keeps the rows of a table distinct. -/
theorem keeps_distinct_insert {t t' : T} {r : Row t'} :
    Exec.Keeps (fun c : Conn Row => S.DistinctRows t (c.db t)) (S.insert .abort t' r) := by
  refine Exec.keeps_of_apply fun c hc => ?_
  rcases hrun : S.insert .abort t' r c with ⟨e | u, d⟩
  · rw [insert_error hrun]
    exact hc
  · by_cases ht : t = t'
    · subst ht
      have hany := no_conflict_of_insert hrun
      rw [insert_abort_ok hrun]
      show S.DistinctRows t ((c.db.set t (c.db t ++ [r])) t)
      rw [Db.set_self]
      exact distinctRows_append hc hany
    · rw [insert_abort_ok hrun]
      show S.DistinctRows t ((c.db.set t' (c.db t' ++ [r])) t)
      rwa [Db.set_of_ne c.db ht]

/-- The rows of the table after an UPDATE, which may be refused. -/
theorem update_self (t : T) (p : Row t → Bool) (f : Row t → Row t) (c : Conn Row) :
    (S.update t p f c).2.db t = c.db t ∨
      (S.update t p f c).2.db t = (c.db t).map fun r => if p r then f r else r := by
  unfold Schema.update
  dsimp only
  split
  · exact .inr (Db.set_self c.db t _)
  · exact .inl rfl

/-- An UPDATE that would leave two rows alike is refused. -/
theorem keeps_distinct_update {t t' : T} {p : Row t' → Bool} {f : Row t' → Row t'} :
    Exec.Keeps (fun c : Conn Row => S.DistinctRows t (c.db t)) (S.update t' p f) := by
  refine Exec.keeps_of_apply fun c hc => ?_
  unfold Schema.update
  dsimp only
  split
  · rename_i hrows
    by_cases ht : t = t'
    · subst ht
      show S.DistinctRows t ((c.db.set t _) t)
      rw [Db.set_self]
      exact hrows
    · show S.DistinctRows t ((c.db.set t' _) t)
      rwa [Db.set_of_ne c.db ht]
  · exact hc

/-- A plain INSERT takes no row out, so no cascade starts. -/
theorem leaves_insert_abort {t : T} {r : Row t} (ht : ¬ F t) : Leaves F (S.insert .abort t r) := by
  refine ⟨fun c t' ht' => ?_⟩
  have hne : t' ≠ t := fun heq => ht (heq ▸ ht')
  rcases h : S.insert .abort t r c with ⟨e | u, d⟩
  · rw [insert_error h]
  · rw [insert_abort_ok h]
    exact Db.set_of_ne c.db hne _

theorem insert_of_ne {t t' : T} {r : Row t} {c d : Conn Row} {u : Unit}
    (h : S.insert .abort t r c = (.ok u, d)) (ht : t' ≠ t) : d.db t' = c.db t' := by
  have hleaves : Leaves (· = t') (S.insert .abort t r) :=
    leaves_insert_abort fun heq => ht heq.symm
  exact hleaves.of_ok h rfl

/-- A plain INSERT adds one row. -/
theorem length_insert {t : T} {r : Row t} {c d : Conn Row} {u : Unit}
    (h : S.insert .abort t r c = (.ok u, d)) : (d.db t).length = (c.db t).length + 1 := by
  rw [insert_abort_ok h]
  show ((c.db.set t (c.db t ++ [r])) t).length = _
  rw [Db.set_self, List.length_append]
  rfl

/-- Without foreign keys a DELETE takes the rows that were asked for. -/
theorem delete_off {t : T} {p : Row t → Bool} {c : Conn Row} (h : c.foreignKeys = false) :
    S.delete t p c = (.ok (), { c with db := c.db.set t ((c.db t).filter fun r => !p r) }) := by
  obtain ⟨db, enforced, saved⟩ := c
  obtain rfl : enforced = false := h
  rfl

theorem leaves_delete (hF : S.Closed F) {t : T} {p : Row t → Bool} (ht : ¬ F t) :
    Leaves F (S.delete t p) :=
  ⟨fun _ _ ht' => deleteDb_frame hF ht ht'⟩

theorem leaves_update {t : T} {p : Row t → Bool} {g : Row t → Row t} (ht : ¬ F t) :
    Leaves F (S.update t p g) := by
  refine ⟨fun c t' ht' => ?_⟩
  have hne : t' ≠ t := fun heq => ht (heq ▸ ht')
  unfold Schema.update
  dsimp only
  split
  · exact Db.set_of_ne _ hne _
  · rfl

theorem update_of_ne {t t' : T} {p : Row t → Bool} {f : Row t → Row t} {c d : Conn Row} {u : Unit}
    (h : S.update t p f c = (.ok u, d)) (ht : t' ≠ t) : d.db t' = c.db t' := by
  have hleaves : Leaves (· = t') (S.update t p f) := leaves_update fun heq => ht heq.symm
  exact hleaves.of_ok h rfl

/-- An UPDATE adds no row and takes none out. -/
theorem length_update {t : T} {p : Row t → Bool} {f : Row t → Row t} {c d : Conn Row} {u : Unit}
    (h : S.update t p f c = (.ok u, d)) : (d.db t).length = (c.db t).length := by
  rcases update_self (S := S) t p f c with hsame | hmap
  · rw [h] at hsame
    rw [hsame]
  · rw [h] at hmap
    rw [hmap, List.length_map]

theorem leaves_upsert (hF : S.Closed F) {t : T} {r : Row t} {g : Row t → Row t} (ht : ¬ F t) :
    Leaves F (S.upsert t r g) := by
  refine ⟨fun c t' ht' => ?_⟩
  unfold Schema.upsert
  split
  · exact (leaves_update ht).same c t' ht'
  · exact (leaves_insert hF ht).same c t' ht'

theorem leaves_insertSelect (hF : S.Closed F) {oc : OnConflict} {t : T} {rows : Db Row → List (Row t)}
    (ht : ¬ F t) : Leaves F (S.insertSelect oc t rows) := by
  refine ⟨fun c t' ht' => ?_⟩
  have hloop : Leaves F (Exec.forEach (rows c.db) (S.insert oc t)) :=
    Leaves.forEach fun _ _ => leaves_insert hF ht
  have hsame := hloop.same c t' ht'
  unfold Schema.insertSelect
  split
  · rename_i c' hrun
    rwa [hrun] at hsame
  · rfl

omit [DecidableEq T] in
/-- A transaction leaves what its body leaves; undone, it leaves
everything. -/
theorem leaves_atomically {critical : String → String → String} {body : Exec (Conn Row) Unit}
    (hbody : Quiet body) (hF : Leaves F body) : Leaves F (atomically critical body) := by
  refine ⟨fun c t ht => ?_⟩
  rcases hrun : atomically critical body c with ⟨e | u, d⟩
  · rw [atomically_error hbody hrun]
  · obtain ⟨s, hs, rfl⟩ := atomically_ok hbody hrun
    exact hF.of_ok hs ht

end Sql
