/-
Aion2Hub/Lib/Integrity.lean

What the statements of the relational engine keep.

Three properties of a database are followed through every statement:

* `Distinct`  — no two rows of a table conflict;
* `Resolved`  — every reference is NULL or the key of an existing row;
* `AllRows P` — every row satisfies `P`, where `P` is allowed to speak of one
  row only and must survive ON DELETE SET NULL (`ClearKeeps`).

`Distinct` and `AllRows P` are kept by every statement.  `Resolved` is kept
by every statement while foreign keys are enforced; while they are not, it
is kept by an insert whose parents exist and by a delete of rows nobody
refers to.  The heart of the matter is that one pass of the cascade over the
tables, parents first, already reaches a fixed point (`mem_spread_iff`).
-/
import Aion2Hub.Lib.Sql

namespace Sql

variable {T : Type} {Row : T → Type}
variable {S : Schema T Row} {db db' : Db Row} {gone : T → List String}

/-! ### The properties -/

/-- Every reference of every row is NULL or the key of an existing row. -/
def Schema.Resolved (S : Schema T Row) (db : Db Row) : Prop :=
  ∀ t, ∀ r ∈ db t, S.parentsExist db t r

/-- Primary and UNIQUE keys are unique in every table. -/
def Schema.Distinct (S : Schema T Row) (db : Db Row) : Prop :=
  ∀ t, S.DistinctRows t (db t)

/-- Every row satisfies `P`. -/
def AllRows (P : (t : T) → Row t → Prop) (db : Db Row) : Prop :=
  ∀ t, ∀ r ∈ db t, P t r

/-- ON DELETE SET NULL keeps `P`. -/
def Schema.ClearKeeps (S : Schema T Row) (P : (t : T) → Row t → Prop) : Prop :=
  ∀ t, ∀ fk ∈ S.foreignKeys t, ∀ clear, fk.onDelete = .setNull clear → ∀ r, P t r → P t (clear r)

/-! ### Conflicts -/

theorem conflicts_iff {t : T} {r r' : Row t} :
    S.conflicts t r r' = true ↔
      S.key t r = S.key t r' ∨ ∃ u ∈ S.uniques t, u r = u r' := by
  simp [Schema.conflicts, List.any_eq_true]

theorem conflicts_comm {t : T} {r r' : Row t} : S.conflicts t r r' = S.conflicts t r' r := by
  rw [Bool.eq_iff_iff, conflicts_iff, conflicts_iff]
  constructor
  · rintro (h | ⟨u, hu, h⟩)
    · exact .inl h.symm
    · exact .inr ⟨u, hu, h.symm⟩
  · rintro (h | ⟨u, hu, h⟩)
    · exact .inl h.symm
    · exact .inr ⟨u, hu, h.symm⟩

theorem conflicts_of_key {t : T} {r r' : Row t} (h : S.key t r = S.key t r') :
    S.conflicts t r r' = true :=
  conflicts_iff.mpr (.inl h)

/-- Two rows that conflict are one row. -/
theorem Schema.DistinctRows.eq_of_conflicts {t : T} {rows : List (Row t)}
    (h : S.DistinctRows t rows) {r r' : Row t} (hr : r ∈ rows) (hr' : r' ∈ rows)
    (hc : S.conflicts t r r' = true) : r = r' := by
  by_contra hne
  have hsymm : Std.Symm fun x y : Row t => S.conflicts t x y = false :=
    ⟨fun x y hxy => by rwa [conflicts_comm]⟩
  have := List.Pairwise.forall h hr hr' hne
  rw [hc] at this
  cases this

/-- Two rows with one key are one row. -/
theorem Schema.DistinctRows.eq_of_key {t : T} {rows : List (Row t)} (h : S.DistinctRows t rows)
    {r r' : Row t} (hr : r ∈ rows) (hr' : r' ∈ rows) (hk : S.key t r = S.key t r') : r = r' :=
  h.eq_of_conflicts hr hr' (conflicts_of_key hk)

/-- A row that conflicts with nothing can be appended. -/
theorem distinctRows_append {t : T} {rows : List (Row t)} {r : Row t}
    (h : S.DistinctRows t rows) (hr : ¬ rows.any (S.conflicts t r) = true) :
    S.DistinctRows t (rows ++ [r]) := by
  refine List.pairwise_append.mpr ⟨h, List.pairwise_singleton _ _, ?_⟩
  intro q hq r' hr'
  obtain rfl := List.mem_singleton.mp hr'
  rw [conflicts_comm]
  by_contra hc
  exact hr (List.any_eq_true.mpr ⟨q, hq, by simpa using hc⟩)

/-! ### SET NULL -/

/-- The row after the SET NULL actions of a list of its foreign keys. -/
def Schema.released (S : Schema T Row) (gone : T → List String) (t : T) (r : Row t) : Row t :=
  (S.foreignKeys t).foldl (ForeignKey.release gone) r

/-- What one SET NULL can do to a row. -/
theorem release_cases {ρ : Type} (gone : T → List String) (fk : ForeignKey T ρ) (r : ρ) :
    fk.release gone r = r ∨
      ∃ clear, fk.onDelete = .setNull clear ∧ fk.hits gone r ∧ fk.release gone r = clear r := by
  unfold ForeignKey.release
  cases h : fk.onDelete with
  | cascade => exact .inl rfl
  | setNull clear =>
      by_cases hh : fk.hits gone r
      · exact .inr ⟨clear, rfl, hh, by simp [hh]⟩
      · exact .inl (by simp [hh])

/-- A property kept by the clearing of each foreign key survives all of
them. -/
theorem released_induction {t : T} {P : Row t → Prop}
    (hP : ∀ fk ∈ S.foreignKeys t, ∀ clear, fk.onDelete = .setNull clear →
      ∀ r, P r → P (clear r))
    {r : Row t} (hr : P r) : P (S.released gone t r) := by
  have aux : ∀ l : List (ForeignKey T (Row t)), l ⊆ S.foreignKeys t → ∀ r, P r →
      P (l.foldl (ForeignKey.release gone) r) := by
    intro l
    induction l with
    | nil => exact fun _ _ h => h
    | cons fk l ih =>
        intro hl r hr
        refine ih (fun _ h => hl (List.mem_cons_of_mem _ h)) _ ?_
        rcases release_cases gone fk r with h | ⟨clear, hc, -, h⟩
        · exact h.symm ▸ hr
        · exact h.symm ▸ hP fk (hl List.mem_cons_self) clear hc r hr
  exact aux _ (List.Subset.refl _) r hr

@[simp] theorem key_released {t : T} (r : Row t) :
    S.key t (S.released gone t r) = S.key t r :=
  released_induction (P := fun q => S.key t q = S.key t r)
    (fun fk hfk clear hc q hq => (S.clear_key t fk hfk clear hc q).trans hq) rfl

theorem uniques_released {t : T} {u : Row t → List String} (hu : u ∈ S.uniques t) (r : Row t) :
    u (S.released gone t r) = u r :=
  released_induction (P := fun q => u q = u r)
    (fun fk hfk clear hc q hq => (S.clear_uniques t fk hfk clear hc u hu q).trans hq) rfl

theorem conflicts_released_right {t : T} (r r' : Row t) :
    S.conflicts t r (S.released gone t r') = S.conflicts t r r' := by
  rw [Bool.eq_iff_iff, conflicts_iff, conflicts_iff, key_released]
  refine or_congr Iff.rfl ⟨?_, ?_⟩
  · rintro ⟨u, hu, h⟩
    exact ⟨u, hu, by rwa [uniques_released hu] at h⟩
  · rintro ⟨u, hu, h⟩
    exact ⟨u, hu, by rwa [uniques_released hu]⟩

theorem conflicts_released {t : T} (r r' : Row t) :
    S.conflicts t (S.released gone t r) (S.released gone t r') = S.conflicts t r r' := by
  rw [conflicts_released_right, conflicts_comm, conflicts_released_right, conflicts_comm]

/-- A reference after SET NULL is NULL or what it was. -/
theorem column_released {t : T} (gone : T → List String) {fk : ForeignKey T (Row t)}
    (hfk : fk ∈ S.foreignKeys t) (r : Row t) : fk.column (S.released gone t r) = none ∨
      fk.column (S.released gone t r) = fk.column r :=
  released_induction (P := fun q => fk.column q = none ∨ fk.column q = fk.column r)
    (fun fk' hfk' clear hc q hq => by
      rcases S.clear_other t fk' hfk' clear hc fk hfk q with h | h
      · exact .inl h
      · rw [h]; exact hq)
    (.inr rfl)

/-- A reference to a row that is gone is NULL afterwards. -/
theorem column_released_of_hits {t : T} {fk : ForeignKey T (Row t)} (hfk : fk ∈ S.foreignKeys t)
    {clear : Row t → Row t} (hc : fk.onDelete = .setNull clear) {r : Row t}
    (hh : fk.hits gone r) : fk.column (S.released gone t r) = none := by
  have later : ∀ l : List (ForeignKey T (Row t)), l ⊆ S.foreignKeys t → ∀ r,
      fk.column r = none → fk.column (l.foldl (ForeignKey.release gone) r) = none := by
    intro l
    induction l with
    | nil => exact fun _ _ h => h
    | cons fk' l ih =>
        intro hl r hr
        refine ih (fun _ h => hl (List.mem_cons_of_mem _ h)) _ ?_
        rcases release_cases gone fk' r with h | ⟨clear', hc', -, h⟩
        · rwa [h]
        · rw [h]
          rcases S.clear_other t fk' (hl List.mem_cons_self) clear' hc' fk hfk r with h' | h'
          · exact h'
          · rw [h', hr]
  have aux : ∀ l : List (ForeignKey T (Row t)), l ⊆ S.foreignKeys t → fk ∈ l → ∀ r,
      fk.hits gone r → fk.column (l.foldl (ForeignKey.release gone) r) = none := by
    intro l
    induction l with
    | nil => exact fun _ h => absurd h (List.not_mem_nil)
    | cons fk' l ih =>
        intro hl hmem r hr
        have hl' : l ⊆ S.foreignKeys t := fun _ h => hl (List.mem_cons_of_mem _ h)
        rcases List.mem_cons.mp hmem with rfl | hmem
        · refine later l hl' _ ?_
          simp only [ForeignKey.release, hc, if_pos hr]
          exact S.clear_column t _ hfk clear hc r
        · rw [List.foldl_cons]
          rcases release_cases gone fk' r with h | ⟨clear', hc', -, h⟩
          · rw [h]; exact ih hl' hmem r hr
          · rw [h]
            rcases S.clear_other t fk' (hl List.mem_cons_self) clear' hc' fk hfk r with h' | h'
            · exact later l hl' _ h'
            · exact ih hl' hmem _ (by simpa only [ForeignKey.hits, h'] using hr)
  exact aux _ (List.Subset.refl _) hfk r hh

/-! ### The cascade reaches a fixed point -/

/-- Whether a row is doomed depends on the gone keys of its parents only. -/
theorem doomed_congr {t : T} {gone gone' : T → List String}
    (h : ∀ fk ∈ S.foreignKeys t, gone fk.parent = gone' fk.parent) (r : Row t) :
    S.doomed gone t r ↔ S.doomed gone' t r := by
  unfold Schema.doomed ForeignKey.hits
  constructor
  · rintro ⟨fk, hfk, hc, k, hk, hg⟩
    exact ⟨fk, hfk, hc, k, hk, by rwa [← h fk hfk]⟩
  · rintro ⟨fk, hfk, hc, k, hk, hg⟩
    exact ⟨fk, hfk, hc, k, hk, by rwa [h fk hfk]⟩

variable [DecidableEq T]

theorem spreadStep_self (t : T) : S.spreadStep db gone t t =
    gone t ++ ((db t).filter (S.doomed gone t ·)).map (S.key t) := by
  simp [Schema.spreadStep]

theorem spreadStep_of_ne {t t' : T} (h : t' ≠ t) : S.spreadStep db gone t t' = gone t' := by
  simp [Schema.spreadStep, h]

theorem foldl_spreadStep_of_notMem {l : List T} {t : T} (h : t ∉ l) :
    (l.foldl (S.spreadStep db) gone) t = gone t := by
  induction l generalizing gone with
  | nil => rfl
  | cons a l ih =>
      rw [List.foldl_cons, ih (fun hl => h (List.mem_cons_of_mem _ hl)), spreadStep_of_ne]
      rintro rfl
      exact h List.mem_cons_self

/-- Along the pass a key of `t` is gone iff it was, or a doomed row of `t`
carries it.  The induction is on the rest of the order: no table after `t`
is a parent of `t`, so what dooms the rows of `t` is settled at its turn. -/
theorem mem_foldl_spreadStep {l : List T}
    (hl : l.Pairwise fun t t' => ∀ fk ∈ S.foreignKeys t, fk.parent ≠ t') {t : T} (ht : t ∈ l)
    {k : String} :
    k ∈ (l.foldl (S.spreadStep db) gone) t ↔
      k ∈ gone t ∨ ∃ r ∈ db t, S.doomed (l.foldl (S.spreadStep db) gone) t r ∧ S.key t r = k := by
  induction l generalizing gone with
  | nil => exact absurd ht List.not_mem_nil
  | cons a l ih =>
      obtain ⟨ha, hl'⟩ := List.pairwise_cons.mp hl
      rw [List.foldl_cons]
      by_cases hta : t ∈ l
      · rw [ih hl' hta]
        by_cases hne : t = a
        · subst hne
          rw [spreadStep_self]
          constructor
          · rintro (h | h)
            · rcases List.mem_append.mp h with h | h
              · exact .inl h
              · obtain ⟨r, hr, rfl⟩ := List.mem_map.mp h
                obtain ⟨hr, hd⟩ := List.mem_filter.mp hr
                refine .inr ⟨r, hr, ?_, rfl⟩
                refine (doomed_congr (fun fk hfk => ?_) r).mp (of_decide_eq_true hd)
                have hnl : fk.parent ∉ l := fun hm => ha _ hm fk hfk rfl
                rw [foldl_spreadStep_of_notMem hnl, spreadStep_of_ne (S.no_self t fk hfk)]
            · exact .inr h
          · rintro (h | h)
            · exact .inl (List.mem_append_left _ h)
            · exact .inr h
        · rw [spreadStep_of_ne hne]
      · obtain rfl : t = a := (List.mem_cons.mp ht).resolve_right hta
        have hdoom : ∀ r, S.doomed (l.foldl (S.spreadStep db) (S.spreadStep db gone t)) t r ↔
            S.doomed gone t r := by
          intro r
          refine doomed_congr (fun fk hfk => ?_) r
          have hnl : fk.parent ∉ l := fun hm => ha _ hm fk hfk rfl
          rw [foldl_spreadStep_of_notMem hnl, spreadStep_of_ne (S.no_self t fk hfk)]
        rw [foldl_spreadStep_of_notMem hta, spreadStep_self]
        simp only [List.mem_append, List.mem_map, List.mem_filter, decide_eq_true_eq, hdoom,
          and_assoc]

/-- **The cascade is complete**: a key goes iff it was asked to, or its row
refers, through a cascading key, to a row that goes. -/
theorem mem_spread_iff {t : T} {k : String} :
    k ∈ S.spread db gone t ↔
      k ∈ gone t ∨ ∃ r ∈ db t, S.doomed (S.spread db gone) t r ∧ S.key t r = k :=
  mem_foldl_spreadStep S.order_parents (S.mem_order t)

theorem mem_cascade_iff {t : T} {q : Row t} :
    q ∈ S.cascade db gone t ↔
      ∃ r ∈ db t, S.key t r ∉ S.spread db gone t ∧ S.released (S.spread db gone) t r = q := by
  simp only [Schema.cascade, Schema.released, List.mem_map, List.mem_filter, decide_eq_true_eq,
    and_assoc]

/-- A row that stays is still there under its key. -/
theorem hasKey_cascade {t : T} {k : String} (h : S.hasKey db t k)
    (hk : k ∉ S.spread db gone t) : S.hasKey (S.cascade db gone) t k := by
  obtain ⟨q, hq, rfl⟩ := h
  exact ⟨_, mem_cascade_iff.mpr ⟨q, hq, hk, rfl⟩, key_released q⟩

omit [DecidableEq T] in
/-- A row that refers to nothing that goes stays as it is. -/
theorem released_eq_self {t : T} {r : Row t} (h : ∀ fk ∈ S.foreignKeys t, ¬ fk.hits gone r) :
    S.released gone t r = r := by
  have aux : ∀ l : List (ForeignKey T (Row t)), l ⊆ S.foreignKeys t →
      l.foldl (ForeignKey.release gone) r = r := by
    intro l
    induction l with
    | nil => exact fun _ => rfl
    | cons fk l ih =>
        intro hl
        rcases release_cases gone fk r with h' | ⟨clear, -, hhits, -⟩
        · rw [List.foldl_cons, h', ih fun _ hfk => hl (List.mem_cons_of_mem _ hfk)]
        · exact absurd hhits (h fk (hl List.mem_cons_self))
  exact aux _ (List.Subset.refl _)

/-- A row stays as it is if all its parents stay and it is not asked to go. -/
theorem mem_cascade_of_parents (hd : S.Distinct db) {t : T} {q : Row t} (hq : q ∈ db t)
    (hkey : S.key t q ∉ gone t)
    (hfk : ∀ fk ∈ S.foreignKeys t, ∀ k ∈ fk.column q, k ∉ S.spread db gone fk.parent) :
    q ∈ S.cascade db gone t := by
  have hhits : ∀ fk ∈ S.foreignKeys t, ¬ fk.hits (S.spread db gone) q :=
    fun fk h ⟨k, hk, hgone⟩ => hfk fk h k hk hgone
  refine mem_cascade_iff.mpr ⟨q, hq, fun hspread => ?_, released_eq_self hhits⟩
  rcases mem_spread_iff.mp hspread with h | ⟨r, hr, ⟨fk, h, -, hhit⟩, hrk⟩
  · exact hkey h
  · rw [(hd t).eq_of_key hr hq hrk] at hhit
    exact hhits fk h hhit

theorem resolved_cascade (h : S.Resolved db) : S.Resolved (S.cascade db gone) := by
  intro t q hq fk hfk k hk
  obtain ⟨r, hr, hstay, rfl⟩ := mem_cascade_iff.mp hq
  have hkr : k ∈ fk.column r := by
    rcases column_released (S.spread db gone) hfk r with h' | h'
    · rw [h'] at hk; cases hk
    · rwa [h'] at hk
  refine hasKey_cascade (h t r hr fk hfk k hkr) fun hgone => ?_
  have hhits : fk.hits (S.spread db gone) r := ⟨k, hkr, hgone⟩
  cases hod : fk.onDelete with
  | cascade =>
      exact hstay (mem_spread_iff.mpr (.inr ⟨r, hr, ⟨fk, hfk, by rw [hod]; rfl, hhits⟩, rfl⟩))
  | setNull clear =>
      rw [column_released_of_hits hfk hod hhits] at hk
      cases hk

theorem distinct_cascade (h : S.Distinct db) : S.Distinct (S.cascade db gone) := by
  intro t
  refine List.pairwise_map.mpr (((h t).filter _).imp fun {r r'} hc => ?_)
  exact (conflicts_released r r').trans hc

theorem allRows_cascade {P : (t : T) → Row t → Prop} (hP : S.ClearKeeps P) (h : AllRows P db) :
    AllRows P (S.cascade db gone) := by
  intro t q hq
  obtain ⟨r, hr, -, rfl⟩ := mem_cascade_iff.mp hq
  exact released_induction (hP t) (h t r hr)

/-- Tables that refer only to each other. -/
def Schema.Closed (S : Schema T Row) (F : T → Prop) : Prop :=
  ∀ t, F t → ∀ fk ∈ S.foreignKeys t, F fk.parent

omit [DecidableEq T] in
/-- A table without foreign keys is closed by itself. -/
theorem Schema.closed_single (S : Schema T Row) {t : T} (h : S.foreignKeys t = []) :
    S.Closed (· = t) := by
  rintro t' rfl fk hfk
  rw [h] at hfk
  exact (List.not_mem_nil hfk).elim

/-- A cascade that starts outside stays outside. -/
theorem spread_frame {F : T → Prop} (hF : S.Closed F) (hgone : ∀ t, F t → gone t = []) {t : T}
    (ht : F t) : S.spread db gone t = [] := by
  have hloop : ∀ (l : List T) (gone : T → List String), (∀ t, F t → gone t = []) →
      (l.foldl (S.spreadStep db) gone) t = [] := by
    intro l
    induction l with
    | nil => exact fun gone hgone => hgone t ht
    | cons a l ih =>
        intro gone hgone
        refine ih _ fun t' ht' => ?_
        by_cases h : t' = a
        · subst h
          have hnone : (db t').filter (S.doomed gone t' ·) = [] := by
            refine List.filter_eq_nil_iff.mpr fun r _ hd => ?_
            obtain ⟨fk, hfk, -, k, -, hk⟩ := of_decide_eq_true hd
            rw [hgone fk.parent (hF t' ht' fk hfk)] at hk
            exact List.not_mem_nil hk
          rw [spreadStep_self, hgone t' ht', hnone]
          rfl
        · rw [spreadStep_of_ne h, hgone t' ht']
  exact hloop S.order gone hgone

theorem cascade_frame {F : T → Prop} (hF : S.Closed F) (hgone : ∀ t, F t → gone t = []) {t : T}
    (ht : F t) : S.cascade db gone t = db t := by
  have hspread : ∀ t', F t' → S.spread db gone t' = [] := fun t' ht' => spread_frame hF hgone ht'
  have hstay : (db t).filter (fun r => S.key t r ∉ S.spread db gone t) = db t := by
    refine List.filter_eq_self.mpr fun r _ => ?_
    rw [hspread t ht]
    simp
  have hsame : ∀ r : Row t, (S.foreignKeys t).foldl (ForeignKey.release (S.spread db gone)) r = r := by
    refine fun r => released_eq_self fun fk hfk hhits => ?_
    obtain ⟨k, -, hk⟩ := hhits
    rw [hspread fk.parent (hF t ht fk hfk)] at hk
    exact List.not_mem_nil hk
  show ((db t).filter fun r => S.key t r ∉ S.spread db gone t).map _ = db t
  rw [hstay]
  exact List.map_congr_left (fun r _ => hsame r) |>.trans (List.map_id _)

/-! ### DELETE -/

theorem mem_keysWhere {t t' : T} {p : Row t → Bool} {k : String} :
    k ∈ S.keysWhere db t p t' ↔ t' = t ∧ ∃ r ∈ db t, p r = true ∧ S.key t r = k := by
  unfold Schema.keysWhere
  by_cases h : t' = t
  · subst h
    simp [and_assoc]
  · simp [h]

/-- Deleting outside of such tables leaves them as they are. -/
theorem deleteDb_frame {F : T → Prop} (hF : S.Closed F) {enforced : Bool} {t t' : T}
    {p : Row t → Bool} (ht : ¬ F t) (ht' : F t') : S.deleteDb enforced db t p t' = db t' := by
  have hne : ∀ t', F t' → t' ≠ t := fun t' h heq => ht (heq ▸ h)
  cases enforced with
  | true =>
      refine cascade_frame hF (fun t₁ ht₁ => ?_) ht'
      exact Function.update_of_ne (hne t₁ ht₁) _ _
  | false =>
      rw [Schema.deleteDb, if_neg (by simp)]
      exact Db.set_of_ne _ (hne t' ht') _

/-- Deleting from a table that nothing refers to takes the rows that were
asked for, and no others. -/
theorem mem_deleteDb_leaf {t : T} (hleaf : S.Closed (· ≠ t)) (hd : S.DistinctRows t (db t))
    {enforced : Bool} {p : Row t → Bool} {q : Row t} :
    q ∈ S.deleteDb enforced db t p t ↔ q ∈ db t ∧ p q = false := by
  cases enforced with
  | false =>
      rw [Schema.deleteDb, if_neg (by simp), Db.set_self, List.mem_filter, Bool.not_eq_true']
  | true =>
      have hgone : ∀ t', t' ≠ t → S.keysWhere db t p t' = [] := fun t' h =>
        Function.update_of_ne h _ _
      have hspread : ∀ t', t' ≠ t → S.spread db (S.keysWhere db t p) t' = [] := fun t' h =>
        spread_frame hleaf hgone h
      have hhits : ∀ r : Row t, ∀ fk ∈ S.foreignKeys t,
          ¬ fk.hits (S.spread db (S.keysWhere db t p)) r := by
        rintro r fk hfk ⟨k, -, hk⟩
        rw [hspread fk.parent (S.no_self t fk hfk)] at hk
        exact List.not_mem_nil hk
      have hkey : ∀ r ∈ db t, S.key t r ∈ S.spread db (S.keysWhere db t p) t ↔ p r = true := by
        intro r hr
        rw [mem_spread_iff, mem_keysWhere]
        constructor
        · rintro (⟨-, r', hr', hp, hk⟩ | ⟨r', -, ⟨fk, hfk, -, hh⟩, -⟩)
          · rwa [← hd.eq_of_key hr' hr hk]
          · exact absurd hh (hhits r' fk hfk)
        · exact fun hp => .inl ⟨rfl, r, hr, hp, rfl⟩
      show q ∈ S.cascade db (S.keysWhere db t p) t ↔ _
      rw [mem_cascade_iff]
      constructor
      · rintro ⟨r, hr, hstay, rfl⟩
        rw [released_eq_self (hhits r)]
        exact ⟨hr, Bool.eq_false_iff.mpr (mt (hkey r hr).mpr hstay)⟩
      · rintro ⟨hq, hp⟩
        exact ⟨q, hq, fun hk => Bool.false_ne_true (hp.symm.trans ((hkey q hq).mp hk)),
          released_eq_self (hhits q)⟩

/-- No row that satisfied the condition is left. -/
theorem deleteDb_mem {enforced : Bool} {t : T} {p : Row t → Bool} {q : Row t}
    (hq : q ∈ S.deleteDb enforced db t p t) :
    ∃ r ∈ db t, p r = false ∧ (q = r ∨ ∃ gone, q = S.released gone t r) := by
  unfold Schema.deleteDb at hq
  cases enforced with
  | false =>
      rw [if_neg (by simp), Db.set_self] at hq
      obtain ⟨hq, hp⟩ := List.mem_filter.mp hq
      exact ⟨q, hq, by simpa using hp, .inl rfl⟩
  | true =>
      rw [if_pos rfl] at hq
      obtain ⟨r, hr, hstay, rfl⟩ := mem_cascade_iff.mp hq
      refine ⟨r, hr, ?_, .inr ⟨_, rfl⟩⟩
      by_contra hp
      refine hstay (mem_spread_iff.mpr (.inl (mem_keysWhere.mpr ⟨rfl, r, hr, ?_, rfl⟩)))
      simpa using hp

theorem distinct_deleteDb {enforced : Bool} {t : T} {p : Row t → Bool} (h : S.Distinct db) :
    S.Distinct (S.deleteDb enforced db t p) := by
  unfold Schema.deleteDb
  cases enforced with
  | true => exact distinct_cascade h
  | false =>
      intro t'
      by_cases ht : t' = t
      · subst ht
        rw [if_neg (by simp), Db.set_self]
        exact (h t').filter _
      · rw [if_neg (by simp), Db.set_of_ne db ht]
        exact h t'

theorem allRows_deleteDb {P : (t : T) → Row t → Prop} (hP : S.ClearKeeps P) {enforced : Bool}
    {t : T} {p : Row t → Bool} (h : AllRows P db) : AllRows P (S.deleteDb enforced db t p) := by
  unfold Schema.deleteDb
  cases enforced with
  | true => exact allRows_cascade hP h
  | false =>
      intro t' r hr
      by_cases ht : t' = t
      · subst ht
        rw [if_neg (by simp), Db.set_self] at hr
        exact h t' r (List.mem_filter.mp hr).1
      · rw [if_neg (by simp), Db.set_of_ne db ht] at hr
        exact h t' r hr

theorem resolved_deleteDb {t : T} {p : Row t → Bool} (h : S.Resolved db) :
    S.Resolved (S.deleteDb true db t p) :=
  resolved_cascade h

/-! ### INSERT -/

/-- What an INSERT that does not throw can do. -/
theorem insertDb_cases {oc : OnConflict} {enforced : Bool} {t : T} {r : Row t}
    (h : S.insertDb oc enforced db t r = .ok db') :
    (oc = .ignore ∧ (db t).any (S.conflicts t r) = true ∧ db' = db) ∨
      ∃ base, (base = db ∧ ¬ (db t).any (S.conflicts t r) = true ∨
          oc = .replace ∧ base = S.deleteDb enforced db t (S.conflicts t r)) ∧
        (enforced = true → S.parentsExist base t r) ∧ db' = base.set t (base t ++ [r]) := by
  have put_cases : ∀ base, S.put enforced base t r = .ok db' →
      (enforced = true → S.parentsExist base t r) ∧ db' = base.set t (base t ++ [r]) := by
    intro base hput
    unfold Schema.put at hput
    split at hput
    · cases hput
    · rename_i hc
      exact ⟨fun he => by_contra fun hp => hc ⟨he, hp⟩, (Except.ok.inj hput).symm⟩
  unfold Schema.insertDb at h
  by_cases hc : (db t).any (S.conflicts t r) = true
  · cases oc with
    | abort =>
        simp only [if_pos hc] at h
        cases h
    | ignore =>
        simp only [if_pos hc] at h
        exact .inl ⟨rfl, hc, (Except.ok.inj h).symm⟩
    | replace =>
        simp only [if_pos hc] at h
        exact .inr ⟨_, .inr ⟨rfl, rfl⟩, put_cases _ h⟩
  · cases oc <;> simp only [if_neg hc] at h <;> exact .inr ⟨db, .inl ⟨rfl, hc⟩, put_cases _ h⟩

/-- Inserting outside of closed tables leaves them as they are. -/
theorem insertDb_frame {F : T → Prop} (hF : S.Closed F) {oc : OnConflict} {enforced : Bool} {t t' : T}
    {r : Row t} (ht : ¬ F t) (ht' : F t') (h : S.insertDb oc enforced db t r = .ok db') :
    db' t' = db t' := by
  have hne : t' ≠ t := fun heq => ht (heq ▸ ht')
  obtain ⟨-, -, rfl⟩ | ⟨base, hbase, -, rfl⟩ := insertDb_cases h
  · rfl
  · rw [Db.set_of_ne _ hne]
    obtain ⟨rfl, -⟩ | ⟨-, rfl⟩ := hbase
    · rfl
    · exact deleteDb_frame hF ht ht'

/-- After a REPLACE has made room, nothing conflicts with the new row. -/
theorem not_conflicts_deleteDb {enforced : Bool} {t : T} {r : Row t} :
    ¬ (S.deleteDb enforced db t (S.conflicts t r) t).any (S.conflicts t r) = true := by
  intro h
  obtain ⟨q, hq, hc⟩ := List.any_eq_true.mp h
  obtain ⟨q₀, -, hno, rfl | ⟨gone, rfl⟩⟩ := deleteDb_mem hq
  · rw [hno] at hc; cases hc
  · rw [conflicts_released_right, hno] at hc; cases hc

theorem distinct_insertDb {oc : OnConflict} {enforced : Bool} {t : T} {r : Row t}
    (h : S.Distinct db) (hi : S.insertDb oc enforced db t r = .ok db') : S.Distinct db' := by
  obtain ⟨-, -, rfl⟩ | ⟨base, hbase, -, rfl⟩ := insertDb_cases hi
  · exact h
  · have hb : S.Distinct base ∧ ¬ (base t).any (S.conflicts t r) = true := by
      obtain ⟨rfl, hc⟩ | ⟨-, rfl⟩ := hbase
      · exact ⟨h, hc⟩
      · exact ⟨distinct_deleteDb h, not_conflicts_deleteDb⟩
    intro t'
    by_cases ht : t' = t
    · subst ht
      rw [Db.set_self]
      exact distinctRows_append (hb.1 t') hb.2
    · rw [Db.set_of_ne base ht]
      exact hb.1 t'

theorem allRows_insertDb {P : (t : T) → Row t → Prop} (hP : S.ClearKeeps P) {oc : OnConflict}
    {enforced : Bool} {t : T} {r : Row t} (hr : P t r) (h : AllRows P db)
    (hi : S.insertDb oc enforced db t r = .ok db') : AllRows P db' := by
  obtain ⟨-, -, rfl⟩ | ⟨base, hbase, -, rfl⟩ := insertDb_cases hi
  · exact h
  · have hb : AllRows P base := by
      obtain ⟨rfl, -⟩ | ⟨-, rfl⟩ := hbase
      · exact h
      · exact allRows_deleteDb hP h
    intro t' q hq
    by_cases ht : t' = t
    · subst ht
      rw [Db.set_self] at hq
      rcases List.mem_append.mp hq with hq | hq
      · exact hb t' q hq
      · exact List.mem_singleton.mp hq ▸ hr
    · rw [Db.set_of_ne base ht] at hq
      exact hb t' q hq

/-- Appending a row whose references resolve keeps all references resolved. -/
theorem resolved_append {t : T} {r : Row t} (h : S.Resolved db) (hr : S.parentsExist db t r) :
    S.Resolved (db.set t (db t ++ [r])) := by
  have grow : ∀ {t' k}, S.hasKey db t' k → S.hasKey (db.set t (db t ++ [r])) t' k := by
    rintro t' k ⟨q, hq, hk⟩
    by_cases ht : t' = t
    · subst ht
      exact ⟨q, by rw [Db.set_self]; exact List.mem_append_left _ hq, hk⟩
    · exact ⟨q, by rwa [Db.set_of_ne db ht], hk⟩
  intro t' q hq fk hfk k hk
  by_cases ht : t' = t
  · subst ht
    rw [Db.set_self] at hq
    rcases List.mem_append.mp hq with hq | hq
    · exact grow (h t' q hq fk hfk k hk)
    · obtain rfl := List.mem_singleton.mp hq
      exact grow (hr fk hfk k hk)
  · rw [Db.set_of_ne db ht] at hq
    exact grow (h t' q hq fk hfk k hk)

theorem resolved_insertDb {oc : OnConflict} {t : T} {r : Row t} (h : S.Resolved db)
    (hi : S.insertDb oc true db t r = .ok db') : S.Resolved db' := by
  obtain ⟨-, -, rfl⟩ | ⟨base, hbase, hpar, rfl⟩ := insertDb_cases hi
  · exact h
  · refine resolved_append ?_ (hpar rfl)
    obtain ⟨rfl, -⟩ | ⟨-, rfl⟩ := hbase
    · exact h
    · exact resolved_deleteDb h

/-- Without foreign keys an INSERT only looks for conflicts. -/
theorem insert_off {oc : OnConflict} {t : T} {r : Row t} {c : Conn Row} (h : c.foreignKeys = false) :
    S.insert oc t r c =
      if (c.db t).any (S.conflicts t r) = true then
        match oc with
        | .abort => (.error "UNIQUE constraint failed", c)
        | .ignore => (.ok (), c)
        | .replace => (.ok (), { c with
            db := c.db.set t (((c.db t).filter fun q => !S.conflicts t r q) ++ [r]) })
      else (.ok (), { c with db := c.db.set t (c.db t ++ [r]) }) := by
  obtain ⟨db, enforced, saved⟩ := c
  obtain rfl : enforced = false := h
  have hput : ∀ base : Db Row, S.put false base t r = .ok (base.set t (base t ++ [r])) := by
    intro base
    rw [Schema.put, if_neg (by simp)]
  have hset : ∀ rows : List (Row t), (db.set t rows).set t ((db.set t rows) t ++ [r]) =
      db.set t (rows ++ [r]) := by
    intro rows
    rw [Db.set_self]
    funext t'
    by_cases ht : t' = t
    · subst ht
      rw [Db.set_self, Db.set_self]
    · rw [Db.set_of_ne _ ht, Db.set_of_ne _ ht, Db.set_of_ne _ ht]
  have hdelete : S.deleteDb false db t (S.conflicts t r) =
      db.set t ((db t).filter fun q => !S.conflicts t r q) := by
    rw [Schema.deleteDb, if_neg (by simp)]
  by_cases hc : (db t).any (S.conflicts t r) = true
  · cases oc <;> simp only [Schema.insert, Schema.insertDb, if_pos hc, hput, hdelete, hset]
  · cases oc <;> simp only [Schema.insert, Schema.insertDb, if_neg hc, hput]

/-- An INSERT that is accepted appends the row. -/
theorem insert_abort_ok {t : T} {r : Row t} {c d : Conn Row} {u : Unit}
    (h : S.insert .abort t r c = (.ok u, d)) :
    d = { c with db := c.db.set t (c.db t ++ [r]) } := by
  unfold Schema.insert at h
  split at h
  · rename_i db' hi
    cases h
    obtain ⟨hoc, -⟩ | ⟨base, ⟨rfl, -⟩ | ⟨hoc, -⟩, -, rfl⟩ := insertDb_cases hi
    · cases hoc
    · rfl
    · cases hoc
  · cases h

/-- An upsert that is accepted changes one table. -/
theorem upsert_frame {t : T} {r : Row t} {f : Row t → Row t} {c d : Conn Row} {u : Unit}
    (h : S.upsert t r f c = (.ok u, d)) :
    (∀ t' ≠ t, d.db t' = c.db t') ∧ d.foreignKeys = c.foreignKeys := by
  unfold Schema.upsert Schema.update at h
  dsimp only at h
  split at h
  · split at h
    · cases h
      exact ⟨fun t' ht' => Db.set_of_ne _ ht' _, rfl⟩
    · cases h
  · obtain rfl := insert_abort_ok h
    exact ⟨fun t' ht' => Db.set_of_ne _ ht' _, rfl⟩

/-! ### Connections -/

/-- A property of the rows, which may depend on whether foreign keys are
enforced, of a connection whose transaction state is `x`. -/
def Conn.Inv (J : Bool → Db Row → Prop) (x : Option (Db Row)) (c : Conn Row) : Prop :=
  J c.foreignKeys c.db ∧ c.saved = x

variable {J : Bool → Db Row → Prop} {x : Option (Db Row)}

theorem keeps_insert {oc : OnConflict} {t : T} {r : Row t}
    (h : ∀ enforced db db', J enforced db → S.insertDb oc enforced db t r = .ok db' →
      J enforced db') : Exec.Keeps (Conn.Inv J x) (S.insert oc t r) := by
  refine Exec.keeps_of_apply fun c hc => ?_
  unfold Schema.insert
  split
  · rename_i db' hi
    exact ⟨h _ _ _ hc.1 hi, hc.2⟩
  · exact hc

theorem keeps_delete {t : T} {p : Row t → Bool}
    (h : ∀ enforced db, J enforced db → J enforced (S.deleteDb enforced db t p)) :
    Exec.Keeps (Conn.Inv J x) (S.delete t p) :=
  Exec.keeps_of_apply fun _ hc => ⟨h _ _ hc.1, hc.2⟩

theorem keeps_update {t : T} {p : Row t → Bool} {f : Row t → Row t}
    (h : ∀ enforced db, J enforced db →
      S.DistinctRows t ((db t).map fun r => if p r then f r else r) →
      J enforced (db.set t ((db t).map fun r => if p r then f r else r))) :
    Exec.Keeps (Conn.Inv J x) (S.update t p f) := by
  refine Exec.keeps_of_apply fun c hc => ?_
  unfold Schema.update
  dsimp only
  split
  · rename_i hd
    exact ⟨h _ _ hc.1 hd, hc.2⟩
  · exact hc

theorem keeps_upsert {t : T} {r : Row t} {f : Row t → Row t}
    (hi : Exec.Keeps (Conn.Inv J x) (S.insert .abort t r))
    (hu : Exec.Keeps (Conn.Inv J x) (S.update t (fun q => S.key t q == S.key t r) f)) :
    Exec.Keeps (Conn.Inv J x) (S.upsert t r f) := by
  refine Exec.keeps_of_apply fun c hc => ?_
  unfold Schema.upsert
  split
  · exact hu.apply hc
  · exact hi.apply hc

theorem keeps_insertSelect {oc : OnConflict} {t : T} {rows : Db Row → List (Row t)}
    {I : Conn Row → Prop}
    (h : ∀ c, I c → ∀ r ∈ rows c.db, Exec.Keeps I (S.insert oc t r)) :
    Exec.Keeps I (S.insertSelect oc t rows) := by
  refine Exec.keeps_of_apply fun c hc => ?_
  have hloop := (Exec.Keeps.forEach (h c hc)).apply hc
  unfold Schema.insertSelect
  split
  · rename_i c' hrun
    rwa [hrun] at hloop
  · exact hc

/-! ### Sound databases -/

/-- Keys are unique, rows satisfy `P`, and references resolve if they are
enforced. -/
structure Schema.Sound (S : Schema T Row) (P : (t : T) → Row t → Prop) (enforced : Bool)
    (db : Db Row) : Prop where
  distinct : S.Distinct db
  rows : AllRows P db
  resolved : enforced = true → S.Resolved db

variable {P : (t : T) → Row t → Prop}

theorem Schema.Sound.insertDb (hP : S.ClearKeeps P) {enforced : Bool} {oc : OnConflict} {t : T}
    {r : Row t} (hr : P t r) (h : S.Sound P enforced db)
    (hi : S.insertDb oc enforced db t r = .ok db') : S.Sound P enforced db' where
  distinct := distinct_insertDb h.distinct hi
  rows := allRows_insertDb hP hr h.rows hi
  resolved := by
    rintro rfl
    exact resolved_insertDb (h.resolved rfl) hi

theorem Schema.Sound.deleteDb (hP : S.ClearKeeps P) {enforced : Bool} {t : T} {p : Row t → Bool}
    (h : S.Sound P enforced db) : S.Sound P enforced (S.deleteDb enforced db t p) where
  distinct := distinct_deleteDb h.distinct
  rows := allRows_deleteDb hP h.rows
  resolved := by
    rintro rfl
    exact resolved_deleteDb (h.resolved rfl)

theorem sound_insert (hP : S.ClearKeeps P) {oc : OnConflict} {t : T} {r : Row t} (hr : P t r) :
    Exec.Keeps (Conn.Inv (S.Sound P) x) (S.insert oc t r) :=
  keeps_insert fun _ _ _ h hi => h.insertDb hP hr hi

theorem sound_delete (hP : S.ClearKeeps P) {t : T} {p : Row t → Bool} :
    Exec.Keeps (Conn.Inv (S.Sound P) x) (S.delete t p) :=
  keeps_delete fun _ _ h => h.deleteDb hP

end Sql
