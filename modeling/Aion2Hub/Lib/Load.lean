/-
Aion2Hub/Lib/Load.lean

Loading rows that fit.

Rows that conflict with nothing, and whose parents are there, go into a table
as they are, whatever the conflict clause and whether or not foreign keys are
enforced.  Rows that all conflict are skipped by OR IGNORE, and a mixed list
is absorbed row by row (`Schema.absorb`).  Deleting all rows of a database
table by table leaves it empty, with or without cascades; deleting no row
changes nothing.
-/
import Aion2Hub.Lib.Integrity

namespace Sql

open Exec

variable {T : Type} {Row : T → Type} {S : Schema T Row} [DecidableEq T]

theorem Db.set_set (db : Db Row) (t : T) (rows rows' : List (Row t)) :
    (db.set t rows).set t rows' = db.set t rows' := by
  funext t'
  by_cases ht : t' = t
  · subst ht
    rw [Db.set_self, Db.set_self]
  · rw [Db.set_of_ne _ ht, Db.set_of_ne _ ht, Db.set_of_ne _ ht]

omit [DecidableEq T] in
/-- In a list without conflicts, no row conflicts with those before it. -/
theorem not_any_of_distinct {t : T} {rows rest : List (Row t)} {r : Row t}
    (h : S.DistinctRows t (rows ++ r :: rest)) : ¬ rows.any (S.conflicts t r) = true := by
  intro hany
  obtain ⟨q, hq, hc⟩ := List.any_eq_true.mp hany
  have hno := (List.pairwise_append.mp h).2.2 q hq r List.mem_cons_self
  rw [conflicts_comm, hc] at hno
  cases hno

/-- A row that conflicts with nothing and finds its parents is appended. -/
theorem insert_fits {oc : OnConflict} {t : T} {r : Row t} {c : Conn Row}
    (hc : ¬ (c.db t).any (S.conflicts t r) = true)
    (hp : c.foreignKeys = true → S.parentsExist c.db t r) :
    S.insert oc t r c = (.ok (), { c with db := c.db.set t (c.db t ++ [r]) }) := by
  have hput : S.put c.foreignKeys c.db t r = .ok (c.db.set t (c.db t ++ [r])) :=
    if_neg fun h => h.2 (hp h.1)
  cases oc <;> simp only [Schema.insert, Schema.insertDb, if_neg hc, hput]

/-- Without UNIQUE keys, a row with a new primary key conflicts with nothing. -/
theorem insert_fits_key {oc : OnConflict} {t : T} {r : Row t} {c : Conn Row} (hu : S.uniques t = [])
    (hkey : ∀ q ∈ c.db t, S.key t q ≠ S.key t r)
    (hp : c.foreignKeys = true → S.parentsExist c.db t r) :
    S.insert oc t r c = (.ok (), { c with db := c.db.set t (c.db t ++ [r]) }) := by
  apply insert_fits _ hp
  intro hany
  obtain ⟨q, hq, hqr⟩ := List.any_eq_true.mp hany
  rcases conflicts_iff.mp hqr with hsame | ⟨u, hmem, -⟩
  · exact hkey q hq hsame.symm
  · rw [hu] at hmem
    exact List.not_mem_nil hmem

/-- An UPDATE that leaves the keys alone is accepted. -/
theorem update_fits {t : T} {p : Row t → Bool} {f : Row t → Row t} {c : Conn Row}
    (hkey : ∀ r, S.key t (f r) = S.key t r) (huniques : ∀ u ∈ S.uniques t, ∀ r, u (f r) = u r)
    (h : S.DistinctRows t (c.db t)) :
    S.update t p f c =
      (.ok (), { c with db := c.db.set t ((c.db t).map fun r => if p r then f r else r) }) := by
  have hkeys : ∀ r, S.key t (if p r then f r else r) = S.key t r := by
    intro r
    split
    · exact hkey r
    · rfl
  have hothers : ∀ u ∈ S.uniques t, ∀ r, u (if p r then f r else r) = u r := by
    intro u hu r
    split
    · exact huniques u hu r
    · rfl
  apply if_pos
  apply List.pairwise_map.mpr
  apply h.imp
  intro r r' hno
  rw [Bool.eq_false_iff] at hno ⊢
  intro hconflict
  apply hno
  rw [conflicts_iff, hkeys, hkeys] at hconflict
  rw [conflicts_iff]
  apply hconflict.imp_right
  rintro ⟨u, hu, heq⟩
  exact ⟨u, hu, by rwa [hothers u hu, hothers u hu] at heq⟩

/-- Parents live in other tables, so rows of `t` do not matter. -/
theorem parentsExist_set {t : T} {r : Row t} {db : Db Row} (rows : List (Row t))
    (h : S.parentsExist db t r) : S.parentsExist (db.set t rows) t r := by
  intro fk hfk k hk
  obtain ⟨q, hq, hqk⟩ := h fk hfk k hk
  exact ⟨q, by rwa [Db.set_of_ne _ (S.no_self t fk hfk)], hqk⟩

/-- A list of rows that fit is appended as it is. -/
theorem forEach_insert_fits {oc : OnConflict} {t : T} {rows : List (Row t)} {c : Conn Row}
    (hd : S.DistinctRows t (c.db t ++ rows))
    (hp : c.foreignKeys = true → ∀ r ∈ rows, S.parentsExist c.db t r) :
    Exec.forEach rows (S.insert oc t) c =
      (.ok (), { c with db := c.db.set t (c.db t ++ rows) }) := by
  induction rows generalizing c with
  | nil =>
      rw [List.append_nil]
      show (Except.ok (), c) = (Except.ok (), { c with db := Function.update c.db t (c.db t) })
      rw [Function.update_eq_self]
  | cons r rows ih =>
      have hfirst : S.insert oc t r c = (.ok (), { c with db := c.db.set t (c.db t ++ [r]) }) :=
        insert_fits (not_any_of_distinct hd) fun h => hp h r List.mem_cons_self
      rw [forEach_cons, bind_of_ok hfirst]
      refine (ih ?_ fun h q hq => ?_).trans ?_
      · show S.DistinctRows t (c.db.set t (c.db t ++ [r]) t ++ rows)
        rw [Db.set_self, List.append_assoc]
        exact hd
      · exact parentsExist_set _ (hp h q (List.mem_cons_of_mem r hq))
      · have hdb : (c.db.set t (c.db t ++ [r])).set t (c.db.set t (c.db t ++ [r]) t ++ rows) =
            c.db.set t (c.db t ++ r :: rows) := by
          rw [Db.set_self, Db.set_set, List.append_assoc]
          rfl
        exact congrArg (fun db => (Except.ok (), { c with db := db })) hdb

/-- OR IGNORE skips a list of rows that all conflict with rows that are
there. -/
theorem insertSelect_ignored {t : T} {rows : Db Row → List (Row t)} {c : Conn Row}
    (h : ∀ r ∈ rows c.db, (c.db t).any (S.conflicts t r) = true) :
    S.insertSelect .ignore t rows c = (.ok (), c) := by
  have hloop : ∀ l : List (Row t), (∀ r ∈ l, (c.db t).any (S.conflicts t r) = true) →
      Exec.forEach l (S.insert .ignore t) c = (.ok (), c) := by
    intro l
    induction l with
    | nil => exact fun _ => rfl
    | cons r l ih =>
        intro hl
        have hskip : S.insert .ignore t r c = (.ok (), c) := by
          simp only [Schema.insert, Schema.insertDb, if_pos (hl r List.mem_cons_self)]
        rw [forEach_cons, bind_of_ok hskip]
        exact ih fun q hq => hl q (List.mem_cons_of_mem r hq)
  simp only [Schema.insertSelect, hloop _ h]

/-! ### INSERT OR IGNORE -/

/-- The rows after INSERT OR IGNORE of a row that refers to nothing that is
missing. -/
def Schema.absorbRow (S : Schema T Row) (t : T) (rows : List (Row t)) (r : Row t) : List (Row t) :=
  if rows.any (S.conflicts t r) then rows else rows ++ [r]

/-- The rows after INSERT OR IGNORE of a list of them. -/
def Schema.absorb (S : Schema T Row) (t : T) (rows new : List (Row t)) : List (Row t) :=
  new.foldl (S.absorbRow t) rows

theorem insert_ignore {t : T} {r : Row t} {c : Conn Row}
    (hp : c.foreignKeys = true → S.parentsExist c.db t r) :
    S.insert .ignore t r c = (.ok (), { c with db := c.db.set t (S.absorbRow t (c.db t) r) }) := by
  unfold Schema.absorbRow
  split
  · rename_i hc
    have hsame : c.db.set t (c.db t) = c.db := Function.update_eq_self t c.db
    simp only [Schema.insert, Schema.insertDb, if_pos hc, hsame]
  · rename_i hc
    exact insert_fits hc hp

/-- An INSERT OR IGNORE that is accepted absorbs the row. -/
theorem insert_ignore_ok {t : T} {r : Row t} {c d : Conn Row} {u : Unit}
    (h : S.insert .ignore t r c = (.ok u, d)) :
    d = { c with db := c.db.set t (S.absorbRow t (c.db t) r) } := by
  unfold Schema.insert at h
  split at h
  · rename_i db' hi
    cases h
    unfold Schema.absorbRow
    obtain ⟨-, hany, rfl⟩ | ⟨base, ⟨rfl, hany⟩ | ⟨hoc, -⟩, -, rfl⟩ := insertDb_cases hi
    · have hsame : c.db.set t (c.db t) = c.db := Function.update_eq_self t c.db
      rw [if_pos hany, hsame]
    · rw [if_neg hany]
    · cases hoc
  · cases h

/-- Inserting a list of rows with OR IGNORE absorbs it. -/
theorem forEach_insert_ignore {t : T} {new : List (Row t)} {c : Conn Row}
    (hp : c.foreignKeys = true → ∀ r ∈ new, S.parentsExist c.db t r) :
    Exec.forEach new (S.insert .ignore t) c =
      (.ok (), { c with db := c.db.set t (S.absorb t (c.db t) new) }) := by
  induction new generalizing c with
  | nil =>
      have hsame : c.db.set t (c.db t) = c.db := Function.update_eq_self t c.db
      show (Except.ok (), c) = (Except.ok (), { c with db := c.db.set t (c.db t) })
      rw [hsame]
  | cons r new ih =>
      rw [forEach_cons, bind_of_ok (insert_ignore fun h => hp h r List.mem_cons_self)]
      refine (ih fun h q hq => ?_).trans ?_
      · exact parentsExist_set _ (hp h q (List.mem_cons_of_mem r hq))
      · have hdb : (c.db.set t (S.absorbRow t (c.db t) r)).set t
            (S.absorb t (c.db.set t (S.absorbRow t (c.db t) r) t) new) =
              c.db.set t (S.absorb t (c.db t) (r :: new)) := by
          rw [Db.set_self, Db.set_set]
          rfl
        exact congrArg (fun db => (Except.ok (), { c with db := db })) hdb

theorem insertSelect_ignore {t : T} {rows : Db Row → List (Row t)} {c : Conn Row}
    (hp : c.foreignKeys = true → ∀ r ∈ rows c.db, S.parentsExist c.db t r) :
    S.insertSelect .ignore t rows c =
      (.ok (), { c with db := c.db.set t (S.absorb t (c.db t) (rows c.db)) }) := by
  simp only [Schema.insertSelect, forEach_insert_ignore hp]

/-! ### Coverage

With OR IGNORE a row can be missing afterwards, although no other row says
what it says: its primary key may be taken. -/

section

variable {t : T} {ρ : Type} (u : Row t → ρ)

/-- One of the rows says of `u` what `r` says. -/
def Covered (rows : List (Row t)) (r : Row t) : Prop := ∃ q ∈ rows, u q = u r

/-- No new row that is needed has the primary key of a row that is there, or
of another new row that is needed. -/
def Schema.NoClash (S : Schema T Row) (rows new : List (Row t)) : Prop :=
  ∀ r ∈ new, Covered u rows r ∨ (∀ q ∈ rows, S.key t q ≠ S.key t r) ∧
    ∀ q ∈ new, S.key t q = S.key t r → u q = u r ∨ Covered u rows q

variable {u} {rows new : List (Row t)} {r q : Row t}

omit [DecidableEq T] in
theorem subset_absorbRow : rows ⊆ S.absorbRow t rows r := by
  unfold Schema.absorbRow
  split
  · exact List.Subset.refl _
  · exact List.subset_append_left _ _

omit [DecidableEq T] in
theorem subset_absorb : rows ⊆ S.absorb t rows new := by
  induction new generalizing rows with
  | nil => exact List.Subset.refl _
  | cons r new ih => exact List.Subset.trans subset_absorbRow ih

omit [DecidableEq T] in
theorem distinctRows_absorb (h : S.DistinctRows t rows) : S.DistinctRows t (S.absorb t rows new) := by
  induction new generalizing rows with
  | nil => exact h
  | cons r new ih =>
      refine ih ?_
      unfold Schema.absorbRow
      split
      · exact h
      · rename_i hany
        exact distinctRows_append h hany

omit [DecidableEq T] in
/-- What is absorbed was needed. -/
theorem mem_absorb (hu : ∀ a b : Row t, u a = u b → S.conflicts t a b = true)
    (h : q ∈ S.absorb t rows new) : q ∈ rows ∨ q ∈ new ∧ ¬ Covered u rows q := by
  induction new generalizing rows with
  | nil => exact .inl h
  | cons r new ih =>
      rcases ih h with hq | ⟨hq, hnot⟩
      · unfold Schema.absorbRow at hq
        split at hq
        · exact .inl hq
        · rename_i hany
          rcases List.mem_append.mp hq with hq | hq
          · exact .inl hq
          · obtain rfl := List.mem_singleton.mp hq
            refine .inr ⟨List.mem_cons_self, fun ⟨a, ha, hau⟩ => hany ?_⟩
            exact List.any_eq_true.mpr ⟨a, ha, hu q a hau.symm⟩
      · exact .inr ⟨List.mem_cons_of_mem r hq, fun ⟨a, ha, hau⟩ => hnot ⟨a, subset_absorbRow ha, hau⟩⟩

omit [DecidableEq T] in
/-- **Without a clash every new row is covered.** -/
theorem covered_absorb
    (hu : ∀ a b : Row t, S.conflicts t a b = true ↔ S.key t a = S.key t b ∨ u a = u b)
    (h : S.NoClash u rows new) (hr : r ∈ new) : Covered u (S.absorb t rows new) r := by
  obtain ⟨pre, post, rfl⟩ := List.append_of_mem hr
  rcases h r hr with ⟨q, hq, hqr⟩ | ⟨hrows, hnew⟩
  · exact ⟨q, subset_absorb hq, hqr⟩
  have hsplit : S.absorb t rows (pre ++ r :: post) =
      S.absorb t (S.absorbRow t (S.absorb t rows pre) r) post := by
    rw [Schema.absorb, List.foldl_append]
    rfl
  rw [hsplit]
  by_cases hany : (S.absorb t rows pre).any (S.conflicts t r) = true
  · obtain ⟨q, hq, hqr⟩ := List.any_eq_true.mp hany
    have hkeep : q ∈ S.absorb t (S.absorbRow t (S.absorb t rows pre) r) post :=
      subset_absorb (subset_absorbRow hq)
    rcases (hu r q).mp hqr with hkey | heq
    · -- the key is taken by a row that was needed, so it says the same
      rcases mem_absorb (fun a b hab => (hu a b).mpr (.inr hab)) hq with hold | ⟨hpre, hnot⟩
      · exact absurd hkey.symm (hrows q hold)
      · rcases hnew q (List.mem_append_left _ hpre) hkey.symm with hsame | hcov
        · exact ⟨q, hkeep, hsame⟩
        · exact absurd hcov hnot
    · exact ⟨q, hkeep, heq.symm⟩
  · refine ⟨r, subset_absorb ?_, rfl⟩
    rw [Schema.absorbRow, if_neg hany]
    exact List.mem_append_right _ List.mem_cons_self

omit [DecidableEq T] in
/-- If every new row is covered, there was no clash. -/
theorem noClash_of_covered
    (hu : ∀ a b : Row t, S.conflicts t a b = true ↔ S.key t a = S.key t b ∨ u a = u b)
    (hd : S.DistinctRows t rows) (hnew : ∀ a ∈ new, ∀ b ∈ new, u a = u b → a = b)
    (h : ∀ r ∈ new, Covered u (S.absorb t rows new) r) : S.NoClash u rows new := by
  have hdistinct : S.DistinctRows t (S.absorb t rows new) := distinctRows_absorb hd
  -- a row that is covered and was needed has been absorbed itself
  have habsorbed : ∀ r ∈ new, Covered u rows r ∨ r ∈ S.absorb t rows new := by
    intro r hr
    obtain ⟨q, hq, hqr⟩ := h r hr
    rcases mem_absorb (fun a b hab => (hu a b).mpr (.inr hab)) hq with hold | ⟨hin, -⟩
    · exact .inl ⟨q, hold, hqr⟩
    · exact .inr (hnew q hin r hr hqr ▸ hq)
  intro r hr
  rcases habsorbed r hr with hcov | hmem
  · exact .inl hcov
  by_cases hcov : Covered u rows r
  · exact .inl hcov
  refine .inr ⟨fun q hq hkey => ?_, fun q hq hkey => ?_⟩
  · have heq : q = r := hdistinct.eq_of_key (subset_absorb hq) hmem hkey
    exact hcov ⟨q, hq, congrArg u heq⟩
  · rcases habsorbed q hq with hq' | hq'
    · exact .inr hq'
    · exact .inl (congrArg u (hdistinct.eq_of_key hq' hmem hkey))

end

/-! ### Filling tables -/

/-- The database after the tables in `l` have been filled with `rows`. -/
def Db.loaded (l : List T) (rows db : Db Row) : Db Row := fun t => if t ∈ l then rows t else db t

theorem Db.loaded_cons {a : T} {l : List T} (ha : a ∉ l) (rows db : Db Row) :
    Db.loaded l rows (db.set a (rows a)) = Db.loaded (a :: l) rows db := by
  funext t
  by_cases hta : t = a
  · subst hta
    simp [Db.loaded, ha]
  · simp [Db.loaded, hta, Db.set_of_ne _ hta]

/-- Tables that are empty are filled one after the other, whatever the
conflict clauses, if no parent is filled after its child. -/
theorem forEach_load {l : List (T × OnConflict)} {rows : Db Row} {c : Conn Row}
    (hnodup : (l.map Prod.fst).Nodup) (hempty : ∀ p ∈ l, c.db p.1 = [])
    (horder : l.Pairwise fun (p q : T × OnConflict) => ∀ fk ∈ S.foreignKeys p.1, fk.parent ≠ q.1)
    (hd : ∀ p ∈ l, S.DistinctRows p.1 (rows p.1))
    (hp : c.foreignKeys = true →
      ∀ p ∈ l, ∀ r ∈ rows p.1, S.parentsExist (Db.loaded (l.map Prod.fst) rows c.db) p.1 r) :
    Exec.forEach l (fun p => Exec.forEach (rows p.1) (S.insert p.2 p.1)) c =
      (.ok (), { c with db := Db.loaded (l.map Prod.fst) rows c.db }) := by
  induction l generalizing c with
  | nil => rfl
  | cons p l ih =>
      obtain ⟨hfresh, hnodup⟩ := List.nodup_cons.mp hnodup
      obtain ⟨hlater, horder⟩ := List.pairwise_cons.mp horder
      -- the parents of the first table are not filled later, so they are there
      have hparents : c.foreignKeys = true → ∀ r ∈ rows p.1, S.parentsExist c.db p.1 r := by
        intro hon r hr fk hfk k hk
        obtain ⟨q, hq, hqk⟩ := hp hon p List.mem_cons_self r hr fk hfk k hk
        refine ⟨q, ?_, hqk⟩
        have hout : fk.parent ∉ p.1 :: l.map Prod.fst := by
          rintro hmem
          rcases List.mem_cons.mp hmem with hself | hmem
          · exact S.no_self p.1 fk hfk hself
          · obtain ⟨p', hp', heq⟩ := List.mem_map.mp hmem
            exact hlater p' hp' fk hfk heq.symm
        rwa [List.map_cons, Db.loaded, if_neg hout] at hq
      have hfirst : Exec.forEach (rows p.1) (S.insert p.2 p.1) c =
          (.ok (), { c with db := c.db.set p.1 (rows p.1) }) := by
        have hall : S.DistinctRows p.1 (c.db p.1 ++ rows p.1) := by
          rw [hempty p List.mem_cons_self, List.nil_append]
          exact hd p List.mem_cons_self
        refine (forEach_insert_fits hall hparents).trans ?_
        rw [hempty p List.mem_cons_self, List.nil_append]
      rw [forEach_cons, bind_of_ok hfirst, List.map_cons, ← Db.loaded_cons hfresh]
      refine ih hnodup (fun q hq => ?_) horder (fun q hq => hd q (List.mem_cons_of_mem p hq))
        fun hon q hq => ?_
      · have hne : q.1 ≠ p.1 := fun h => hfresh (h ▸ List.mem_map_of_mem hq)
        exact (Db.set_of_ne _ hne _).trans (hempty q (List.mem_cons_of_mem p hq))
      · show ∀ r ∈ rows q.1, S.parentsExist (Db.loaded (l.map Prod.fst) rows
          (c.db.set p.1 (rows p.1))) q.1 r
        rw [Db.loaded_cons hfresh]
        exact hp hon q (List.mem_cons_of_mem p hq)

/-! ### Emptying tables -/

/-- Deleting every row of a table empties it and adds rows nowhere. -/
theorem deleteDb_all {enforced : Bool} {db : Db Row} (t : T) :
    S.deleteDb enforced db t (fun _ => true) t = [] ∧
      ∀ t', db t' = [] → S.deleteDb enforced db t (fun _ => true) t' = [] := by
  refine ⟨List.eq_nil_iff_forall_not_mem.mpr fun q hq => ?_, fun t' ht' => ?_⟩
  · obtain ⟨r, -, hfalse, -⟩ := deleteDb_mem hq
    cases hfalse
  · cases enforced with
    | true =>
        refine List.eq_nil_iff_forall_not_mem.mpr fun q hq => ?_
        obtain ⟨r, hr, -⟩ := mem_cascade_iff.mp hq
        rw [ht'] at hr
        exact absurd hr List.not_mem_nil
    | false =>
        rw [Schema.deleteDb, if_neg (by simp)]
        by_cases h : t' = t
        · subst h
          rw [Db.set_self, ht']
          rfl
        · rw [Db.set_of_ne _ h, ht']

/-- Deleting no row changes nothing, with or without cascades. -/
theorem deleteDb_none {enforced : Bool} {db : Db Row} {t : T} {p : Row t → Bool}
    (h : (db t).filter p = []) : S.deleteDb enforced db t p = db := by
  have hnone : ∀ r ∈ db t, p r = false := by
    intro r hr
    by_contra hp
    have : r ∈ (db t).filter p := List.mem_filter.mpr ⟨hr, by simpa using hp⟩
    rw [h] at this
    exact List.not_mem_nil this
  cases enforced with
  | false =>
      have hrows : (db t).filter (fun r => !p r) = db t :=
        List.filter_eq_self.mpr fun r hr => by rw [hnone r hr]; rfl
      rw [Schema.deleteDb, if_neg (by simp), hrows]
      exact Function.update_eq_self t db
  | true =>
      -- nothing goes, so nothing is doomed and nothing is released
      have hgone : S.keysWhere db t p = fun _ => [] := by
        rw [Schema.keysWhere, h]
        exact Function.update_eq_self t _
      have hspread : ∀ l : List T, l.foldl (S.spreadStep db) (fun _ => []) = fun _ => [] := by
        intro l
        induction l with
        | nil => rfl
        | cons a l ih =>
            have hdoomed : ∀ r ∈ db a, ¬ S.doomed (fun _ => []) a r := by
              rintro r - ⟨fk, -, -, k, -, hk⟩
              exact List.not_mem_nil hk
            have hstep : S.spreadStep db (fun _ => []) a = fun _ => [] := by
              rw [Schema.spreadStep, List.filter_eq_nil_iff.mpr fun r hr => by
                simpa using hdoomed r hr]
              exact Function.update_eq_self a _
            rw [List.foldl_cons, hstep, ih]
      have hrelease : ∀ {ρ : Type} (l : List (ForeignKey T ρ)) (r : ρ),
          l.foldl (ForeignKey.release fun _ => []) r = r := by
        intro ρ l
        induction l with
        | nil => exact fun _ => rfl
        | cons fk l ih =>
            intro r
            rw [List.foldl_cons]
            rcases release_cases (fun _ => []) fk r with h' | ⟨-, -, ⟨k, -, hk⟩, -⟩
            · rw [h', ih]
            · exact absurd hk List.not_mem_nil
      show S.cascade db (S.keysWhere db t p) = db
      rw [hgone]
      funext t'
      show ((db t').filter fun r => S.key t' r ∉ S.order.foldl (S.spreadStep db) (fun _ => []) t').map
        (fun r => (S.foreignKeys t').foldl (ForeignKey.release
          (S.order.foldl (S.spreadStep db) fun _ => [])) r) = db t'
      rw [hspread]
      simp only [hrelease, List.not_mem_nil, not_false_eq_true, decide_true, List.filter_true,
        List.map_id']

/-- Emptying a list of tables empties the database if no other table had
rows. -/
theorem forEach_delete_all {l : List T} {c : Conn Row} (h : ∀ t, t ∈ l ∨ c.db t = []) :
    Exec.forEach l (fun t => S.delete t fun _ => true) c =
      (.ok (), { c with db := fun _ => [] }) := by
  induction l generalizing c with
  | nil =>
      have hempty : c.db = fun _ => [] := funext fun t => (h t).resolve_left List.not_mem_nil
      show (Except.ok (), c) = (Except.ok (), { c with db := fun _ => [] })
      rw [← hempty]
  | cons a l ih =>
      have hone : S.delete a (fun _ => true) c =
          (.ok (), { c with db := S.deleteDb c.foreignKeys c.db a fun _ => true }) := rfl
      rw [forEach_cons, bind_of_ok hone]
      refine ih fun t => ?_
      have hall : S.deleteDb c.foreignKeys c.db a (fun _ => true) a = [] ∧
          ∀ t', c.db t' = [] → S.deleteDb c.foreignKeys c.db a (fun _ => true) t' = [] :=
        deleteDb_all a
      rcases h t with hmem | hempty
      · rcases List.mem_cons.mp hmem with rfl | hmem
        · exact .inr hall.1
        · exact .inl hmem
      · exact .inr (hall.2 t hempty)

/-- The emptied tables are empty, and those that were empty still are. -/
theorem forEach_delete_mem {l : List T} {c : Conn Row} :
    ∃ d, Exec.forEach l (fun t => S.delete t fun _ => true) c = (.ok (), d) ∧
      (∀ t ∈ l, d.db t = []) ∧ ∀ t, c.db t = [] → d.db t = [] := by
  induction l generalizing c with
  | nil => exact ⟨c, rfl, fun t ht => absurd ht List.not_mem_nil, fun _ h => h⟩
  | cons a l ih =>
      let c₁ : Conn Row := { c with db := S.deleteDb c.foreignKeys c.db a fun _ => true }
      have hone : S.delete a (fun _ => true) c = (.ok (), c₁) := rfl
      have hall : c₁.db a = [] ∧ ∀ t', c.db t' = [] → c₁.db t' = [] := deleteDb_all a
      obtain ⟨d, hd, hempty, hkept⟩ := @ih c₁
      refine ⟨d, ?_, fun t ht => ?_, fun t ht => hkept t (hall.2 t ht)⟩
      · rw [forEach_cons, bind_of_ok hone, hd]
      · rcases List.mem_cons.mp ht with rfl | ht
        · exact hkept t hall.1
        · exact hempty t ht

end Sql
