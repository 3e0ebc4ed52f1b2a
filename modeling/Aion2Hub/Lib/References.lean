/-
Aion2Hub/Lib/References.lean

References without enforcement.

While `PRAGMA foreign_keys` is off the engine checks nothing, so whether every
reference still resolves after a statement depends on the rows it is given:

* an INSERT is harmless if the rows it refers to are there;
* a DELETE is harmless if nothing refers to the rows it takes
  (`Unreferenced`);
* an UPDATE that leaves the keys and the references alone is harmless.

`Holding S K` collects what a program of such statements can rely on from one
statement to the next: every reference resolves, and the rows whose keys are
in `K` are there.  `Filled` describes a table after a list of rows has been
inserted into it, whatever the conflict clause.
-/
import Aion2Hub.Lib.Transaction

namespace Sql

open Exec

variable {T : Type} {Row : T → Type} {S : Schema T Row} {db : Db Row}

/-! ### Deleting what nobody refers to -/

/-- No reference of any row leads to a row of `t` that satisfies `p`. -/
def Schema.Unreferenced (S : Schema T Row) (db : Db Row) (t : T) (p : Row t → Bool) : Prop :=
  ∀ t', ∀ r ∈ db t', ∀ fk ∈ S.foreignKeys t', fk.parent = t → ∀ k ∈ fk.column r,
    ∀ q ∈ db t, S.key t q = k → p q = false

/-- Nothing ever refers to the table. -/
def Schema.Leaf (S : Schema T Row) (t : T) : Prop :=
  ∀ t', ∀ fk ∈ S.foreignKeys t', fk.parent ≠ t

theorem unreferenced_of_leaf {t : T} (h : S.Leaf t) (p : Row t → Bool) :
    S.Unreferenced db t p :=
  fun t' _ _ fk hfk hp => absurd hp (h t' fk hfk)

variable [DecidableEq T]

theorem resolved_delete_off {t : T} {p : Row t → Bool} (h : S.Resolved db)
    (hp : S.Unreferenced db t p) : S.Resolved (S.deleteDb false db t p) := by
  have hoff : S.deleteDb false db t p = db.set t ((db t).filter fun r => !p r) := by
    rw [Schema.deleteDb, if_neg (by simp)]
  rw [hoff]
  intro t' r hr fk hfk k hk
  -- the row was there before, and so was the row it refers to
  have hold : r ∈ db t' := by
    by_cases ht : t' = t
    · subst ht
      rw [Db.set_self] at hr
      exact (List.mem_filter.mp hr).1
    · rwa [Db.set_of_ne _ ht] at hr
  obtain ⟨q, hq, hqk⟩ := h t' r hold fk hfk k hk
  refine ⟨q, ?_, hqk⟩
  by_cases hparent : fk.parent = t
  · subst hparent
    rw [Db.set_self]
    refine List.mem_filter.mpr ⟨hq, ?_⟩
    rw [hp t' r hold fk hfk rfl k hk q hq hqk]
    rfl
  · rwa [Db.set_of_ne _ hparent]

/-! ### Updating what nobody refers by -/

theorem hasKey_update {t t' : T} {f : Row t → Row t} (hkey : ∀ r, S.key t (f r) = S.key t r)
    {p : Row t → Bool} {k : String} (h : S.hasKey db t' k) :
    S.hasKey (db.set t ((db t).map fun r => if p r then f r else r)) t' k := by
  obtain ⟨q, hq, hk⟩ := h
  by_cases ht : t' = t
  · subst ht
    refine ⟨if p q then f q else q, ?_, ?_⟩
    · rw [Db.set_self]
      exact List.mem_map_of_mem hq
    · rw [← hk]
      split
      · exact hkey q
      · rfl
  · exact ⟨q, by rwa [Db.set_of_ne _ ht], hk⟩

/-- The statement itself, whether it succeeds or not. -/
theorem hasKey_updated {t t' : T} {f : Row t → Row t} (hkey : ∀ r, S.key t (f r) = S.key t r)
    {p : Row t → Bool} {k : String} {c : Conn Row} (h : S.hasKey c.db t' k) :
    S.hasKey (S.update t p f c).2.db t' k := by
  unfold Schema.update
  dsimp only
  split
  · exact hasKey_update hkey h
  · exact h

theorem resolved_update {t : T} {f : Row t → Row t} (hkey : ∀ r, S.key t (f r) = S.key t r)
    (hfk : ∀ fk ∈ S.foreignKeys t, ∀ r, fk.column (f r) = fk.column r) {p : Row t → Bool}
    (h : S.Resolved db) :
    S.Resolved (db.set t ((db t).map fun r => if p r then f r else r)) := by
  intro t' r hr fk hfk' k hk
  by_cases ht : t' = t
  · subst ht
    rw [Db.set_self] at hr
    obtain ⟨q, hq, rfl⟩ := List.mem_map.mp hr
    refine hasKey_update hkey (h t' q hq fk hfk' k ?_)
    split at hk
    · rwa [hfk fk hfk'] at hk
    · exact hk
  · rw [Db.set_of_ne _ ht] at hr
    exact hasKey_update hkey (h t' r hr fk hfk' k hk)

variable {P : (t : T) → Row t → Prop} {x : Option (Db Row)}

/-- An UPDATE that keeps keys, references and the property of rows keeps a
database sound. -/
theorem sound_update {t : T} {p : Row t → Bool} {f : Row t → Row t}
    (hP : ∀ r, P t r → P t (f r)) (hkey : ∀ r, S.key t (f r) = S.key t r)
    (hfk : ∀ fk ∈ S.foreignKeys t, ∀ r, fk.column (f r) = fk.column r) :
    Keeps (Conn.Inv (S.Sound P) x) (S.update t p f) := by
  refine keeps_update fun enforced db h hd => ⟨fun t' => ?_, fun t' r hr => ?_, fun he => ?_⟩
  · by_cases ht : t' = t
    · subst ht
      rwa [Db.set_self]
    · rw [Db.set_of_ne _ ht]
      exact h.distinct t'
  · by_cases ht : t' = t
    · subst ht
      rw [Db.set_self] at hr
      obtain ⟨q, hq, rfl⟩ := List.mem_map.mp hr
      split
      · exact hP q (h.rows t' q hq)
      · exact h.rows t' q hq
    · rw [Db.set_of_ne _ ht] at hr
      exact h.rows t' r hr
  · exact resolved_update hkey hfk (h.resolved he)

theorem sound_upsert (hC : S.ClearKeeps P) {t : T} {r : Row t} {f : Row t → Row t} (hr : P t r)
    (hP : ∀ r, P t r → P t (f r)) (hkey : ∀ r, S.key t (f r) = S.key t r)
    (hfk : ∀ fk ∈ S.foreignKeys t, ∀ r, fk.column (f r) = fk.column r) :
    Keeps (Conn.Inv (S.Sound P) x) (S.upsert t r f) :=
  keeps_upsert (sound_insert hC hr) (sound_update hP hkey hfk)

/-! ### Programs without enforcement -/

/-- Foreign keys are off, every reference resolves, and the rows whose keys
are in `K` are there. -/
structure Holding (S : Schema T Row) (K : T → String → Prop) (c : Conn Row) : Prop where
  off : c.foreignKeys = false
  resolved : S.Resolved c.db
  keys : ∀ t k, K t k → S.hasKey c.db t k

/-- The keys in `K`, and one more. -/
def Also (K : T → String → Prop) (t : T) (k : String) (t' : T) (k' : String) : Prop :=
  K t' k' ∨ t' = t ∧ k' = k

variable {K K' : T → String → Prop}

omit [DecidableEq T] in
theorem Holding.mono {c : Conn Row} (h : Holding S K c) (hK : ∀ t k, K' t k → K t k) :
    Holding S K' c :=
  ⟨h.off, h.resolved, fun t k hk => h.keys t k (hK t k hk)⟩

omit [DecidableEq T] in
/-- Where every reference resolves, every key there is may be relied on. -/
theorem Holding.all {c : Conn Row} (h : Holding S K c) : Holding S (S.hasKey c.db) c :=
  ⟨h.off, h.resolved, fun _ _ hk => hk⟩

theorem Holding.append {c : Conn Row} (h : Holding S K c) {t : T} {r : Row t}
    (hr : S.parentsExist c.db t r) :
    Holding S (Also K t (S.key t r)) { c with db := c.db.set t (c.db t ++ [r]) } where
  off := h.off
  resolved := resolved_append h.resolved hr
  keys t' k hk := by
    show S.hasKey (c.db.set t (c.db t ++ [r])) t' k
    rcases hk with hk | ⟨rfl, rfl⟩
    · obtain ⟨q, hq, hqk⟩ := h.keys t' k hk
      by_cases ht : t' = t
      · subst ht
        exact ⟨q, by rw [Db.set_self]; exact List.mem_append_left _ hq, hqk⟩
      · exact ⟨q, by rwa [Db.set_of_ne _ ht], hqk⟩
    · exact ⟨r, by rw [Db.set_self]; exact List.mem_append_right _ List.mem_cons_self, rfl⟩

/-- An INSERT whose parents are there.  Only ABORT promises the new row. -/
theorem holding_insert_abort {t : T} {r : Row t}
    (hr : ∀ c : Conn Row, Holding S K c → S.parentsExist c.db t r) :
    Triple (Holding S K) (S.insert .abort t r) (fun _ => Holding S (Also K t (S.key t r)))
      (Holding S K) where
  ok {c u d} hc hd := by
    rw [insert_off hc.off] at hd
    split at hd
    · cases hd
    · cases hd
      exact hc.append (hr c hc)
  error {c e d} hc hd := by
    rw [insert_off hc.off] at hd
    split at hd
    · cases hd
      exact hc
    · cases hd

theorem holding_insert {oc : OnConflict} (hoc : oc ≠ .replace) {t : T} {r : Row t}
    (hr : ∀ c : Conn Row, Holding S K c → S.parentsExist c.db t r) :
    Keeps (Holding S K) (S.insert oc t r) := by
  cases oc with
  | replace => exact absurd rfl hoc
  | abort =>
      exact (holding_insert_abort hr).consequence (fun _ h => h)
        (fun _ _ h => h.mono fun _ _ hk => .inl hk) fun _ h => h
  | ignore =>
      refine keeps_of_apply fun c hc => ?_
      rw [insert_off hc.off]
      split
      · exact hc
      · exact (hc.append (hr c hc)).mono fun _ _ hk => .inl hk

theorem holding_insertSelect {oc : OnConflict} (hoc : oc ≠ .replace) {t : T}
    {rows : Db Row → List (Row t)}
    (hr : ∀ c : Conn Row, Holding S K c → ∀ r ∈ rows c.db, S.parentsExist c.db t r) :
    Keeps (Holding S K) (S.insertSelect oc t rows) := by
  refine keeps_of_apply fun c hc => ?_
  -- while the rows go in, every key of the state before is still there
  have hloop : Keeps (Holding S (S.hasKey c.db)) (Exec.forEach (rows c.db) (S.insert oc t)) :=
    Keeps.forEach fun r hmem => holding_insert hoc fun d hd fk hfk k hk =>
      hd.keys _ _ (hr c hc r hmem fk hfk k hk)
  have hkept := hloop.apply hc.all
  unfold Schema.insertSelect
  split
  · rename_i d hrun
    rw [hrun] at hkept
    exact hkept.mono hc.keys
  · exact hc

theorem holding_update {t : T} {p : Row t → Bool} {f : Row t → Row t}
    (hkey : ∀ r, S.key t (f r) = S.key t r)
    (hfk : ∀ fk ∈ S.foreignKeys t, ∀ r, fk.column (f r) = fk.column r) :
    Keeps (Holding S K) (S.update t p f) := by
  refine keeps_of_apply fun c hc => ?_
  unfold Schema.update
  dsimp only
  split
  · exact ⟨hc.off, resolved_update hkey hfk hc.resolved,
      fun t' k hk => hasKey_update hkey (hc.keys t' k hk)⟩
  · exact hc

theorem holding_upsert {t : T} {r : Row t} {f : Row t → Row t}
    (hr : ∀ c : Conn Row, Holding S K c → S.parentsExist c.db t r)
    (hkey : ∀ r, S.key t (f r) = S.key t r)
    (hfk : ∀ fk ∈ S.foreignKeys t, ∀ r, fk.column (f r) = fk.column r) :
    Keeps (Holding S K) (S.upsert t r f) := by
  refine keeps_of_apply fun c hc => ?_
  unfold Schema.upsert
  split
  · exact (holding_update hkey hfk).apply hc
  · exact (holding_insert (by decide) hr).apply hc

/-- A DELETE of rows nobody refers to, seen on its own. -/
theorem holding_delete {t : T} {p : Row t → Bool} {c : Conn Row} (hc : Holding S K c)
    (hp : S.Unreferenced c.db t p) : Holding S (fun _ _ => False) (S.delete t p c).2 where
  off := hc.off
  resolved := by
    show S.Resolved (S.deleteDb c.foreignKeys c.db t p)
    rw [hc.off]
    exact resolved_delete_off hc.resolved hp
  keys _ _ := False.elim

/-- From a table nothing refers to any row may go. -/
theorem keeps_delete_leaf {t : T} (ht : S.Leaf t) {p : Row t → Bool} :
    Keeps (Holding S fun _ _ => False) (S.delete t p) :=
  keeps_of_apply fun _ hc => holding_delete hc (unreferenced_of_leaf ht p)

omit [DecidableEq T] in
theorem Holding.forget {c : Conn Row} {t : T} {k : String} (h : Holding S (Also K t k) c) :
    Holding S K c :=
  h.mono fun _ _ hk => .inl hk

omit [DecidableEq T] in
/-- A key that a part of a program relies on may be forgotten after it. -/
theorem holding_forget {α : Type} {m : Exec (Conn Row) α} {t : T} {k : String}
    (h : Keeps (Holding S (Also K t k)) m) :
    Triple (Holding S (Also K t k)) m (fun _ => Holding S K) (Holding S K) :=
  h.consequence (fun _ hc => hc) (fun _ _ hc => hc.forget) fun _ hc => hc.forget

omit [DecidableEq T] in
/-- What a SELECT finds is read of a row that is there. -/
theorem holding_selectOne {t : T} {p : Row t → Bool} :
    Triple (Holding S K) (S.selectOne t p)
      (fun o c => (∀ q ∈ o, ∃ r ∈ c.db t, p r = true ∧ S.read t r = q) ∧ Holding S K c)
      (Holding S K) := by
  refine Triple.gets fun c hc => ⟨fun q hq => ?_, hc⟩
  obtain ⟨r, hr, rfl⟩ := Option.map_eq_some_iff.mp hq
  exact ⟨r, List.mem_of_find?_eq_some hr, List.find?_some hr, rfl⟩

omit [DecidableEq T] in
/-- A transaction either goes through or changes nothing. -/
theorem holding_atomically {I : Db Row → Prop} {critical : String → String → String}
    {body : Exec (Conn Row) Unit} (hquiet : Quiet body)
    (hbody : Keeps (fun c => Holding S K c ∧ I c.db) body) :
    Keeps (fun c => Holding S K c ∧ I c.db) (atomically critical body) := by
  refine keeps_of_apply fun c hc => ?_
  cases hsaved : c.saved with
  | some db =>
      have hbegin : begin c = (.error "cannot start a transaction within a transaction", c) := by
        rw [begin, hsaved]
      rw [atomically, bind_of_error hbegin]
      exact hc
  | none =>
      rcases atomically_cases critical hsaved hquiet with ⟨d, hd, h⟩ | ⟨d, e, -, h⟩
      · have hkept := hbody.apply (s := { c with saved := some c.db })
          ⟨⟨hc.1.off, hc.1.resolved, hc.1.keys⟩, hc.2⟩
        rw [hd] at hkept
        rw [h]
        exact ⟨⟨hkept.1.off, hkept.1.resolved, hkept.1.keys⟩, hkept.2⟩
      · rw [h]
        exact hc

/-! ### Filling a table -/

/-- The rows of a table after a list of rows has been inserted.  A row that
was there before is still there unless OR REPLACE met a conflict with it; a
new row is there unless OR IGNORE skipped it or a later one replaced it. -/
structure Filled (S : Schema T Row) (oc : OnConflict) (t : T) (before new after : List (Row t)) :
    Prop where
  origin : ∀ q ∈ after, q ∈ new ∨
    q ∈ before ∧ (oc = .replace → ∀ r ∈ new, S.conflicts t r q = false)
  kept : ∀ q ∈ before, (oc = .replace → ∀ r ∈ new, S.conflicts t r q = false) → q ∈ after
  added : oc ≠ .ignore → ∀ pre r post, new = pre ++ r :: post →
    (oc = .replace → ∀ q ∈ post, S.conflicts t q r = false) → r ∈ after
  keys : S.uniques t = [] → ∀ q ∈ before, ∃ r ∈ after, S.key t r = S.key t q

omit [DecidableEq T] in
theorem Filled.nil {oc : OnConflict} {t : T} {rows : List (Row t)} :
    Filled S oc t rows [] rows where
  origin q hq := .inr ⟨hq, fun _ r hr => absurd hr List.not_mem_nil⟩
  kept q hq _ := hq
  added _ pre r post h := by simp at h
  keys _ q hq := ⟨q, hq, rfl⟩

omit [DecidableEq T] in
/-- One row, then the others. -/
theorem Filled.cons {oc : OnConflict} {t : T} {r : Row t} {before mid new after : List (Row t)}
    (h₁ : Filled S oc t before [r] mid) (h₂ : Filled S oc t mid new after) :
    Filled S oc t before (r :: new) after where
  origin q hq := by
    rcases h₂.origin q hq with hnew | ⟨hmid, hno⟩
    · exact .inl (List.mem_cons_of_mem r hnew)
    · rcases h₁.origin q hmid with hr | ⟨hbefore, hno'⟩
      · exact .inl (List.mem_singleton.mp hr ▸ List.mem_cons_self)
      · refine .inr ⟨hbefore, fun hoc => List.forall_mem_cons.mpr ⟨?_, hno hoc⟩⟩
        exact hno' hoc r List.mem_cons_self
  kept q hq hno := by
    refine h₂.kept q (h₁.kept q hq fun hoc r' hr' => ?_) fun hoc r' hr' => ?_
    · exact hno hoc r' (List.mem_singleton.mp hr' ▸ List.mem_cons_self)
    · exact hno hoc r' (List.mem_cons_of_mem r hr')
  added hoc pre x post hsplit hpost := by
    cases pre with
    | nil =>
        obtain ⟨rfl, rfl⟩ := List.cons.inj hsplit
        refine h₂.kept r (h₁.added hoc [] r [] rfl fun _ _ h => absurd h List.not_mem_nil) ?_
        exact hpost
    | cons a pre => exact h₂.added hoc pre x post (List.cons.inj hsplit).2 hpost
  keys huniq q hq := by
    obtain ⟨q', hq', hk⟩ := h₁.keys huniq q hq
    obtain ⟨q'', hq'', hk'⟩ := h₂.keys huniq q' hq'
    exact ⟨q'', hq'', hk'.trans hk⟩

omit [DecidableEq T] in
/-- Every key of a new row is there afterwards, where the primary key is the
only one: the last row with that key stays. -/
theorem Filled.key_added {oc : OnConflict} {t : T} {before new after : List (Row t)}
    (h : Filled S oc t before new after) (huniq : S.uniques t = []) (hoc : oc ≠ .ignore)
    {r : Row t} (hr : r ∈ new) : ∃ q ∈ after, S.key t q = S.key t r := by
  have hlast : ∀ l : List (Row t), (∃ y ∈ l, S.key t y = S.key t r) → ∃ pre x post,
      l = pre ++ x :: post ∧ S.key t x = S.key t r ∧ ∀ y ∈ post, S.key t y ≠ S.key t r := by
    intro l
    induction l with
    | nil => exact fun ⟨y, hy, _⟩ => absurd hy List.not_mem_nil
    | cons a l ih =>
        rintro ⟨y, hy, hk⟩
        by_cases hl : ∃ y ∈ l, S.key t y = S.key t r
        · obtain ⟨pre, x, post, rfl, hx⟩ := ih hl
          exact ⟨a :: pre, x, post, rfl, hx⟩
        · refine ⟨[], a, l, rfl, ?_, fun z hz hk => hl ⟨z, hz, hk⟩⟩
          rcases List.mem_cons.mp hy with rfl | hy
          · exact hk
          · exact absurd ⟨y, hy, hk⟩ hl
  obtain ⟨pre, x, post, hsplit, hx, hpost⟩ := hlast new ⟨r, hr, rfl⟩
  refine ⟨x, h.added hoc pre x post hsplit fun _ y hy => ?_, hx⟩
  by_contra hc
  rcases conflicts_iff.mp (by simpa using hc) with hk | ⟨u, hu, -⟩
  · exact hpost y hy (hk.trans hx)
  · rw [huniq] at hu
    exact absurd hu List.not_mem_nil

omit [DecidableEq T] in
/-- A new row at the end. -/
theorem filled_append {oc : OnConflict} {t : T} {r : Row t} {before kept : List (Row t)}
    (hkept : ∀ q, q ∈ kept ↔ q ∈ before ∧ (oc = .replace → S.conflicts t r q = false)) :
    Filled S oc t before [r] (kept ++ [r]) where
  origin q hq := by
    rcases List.mem_append.mp hq with hq | hq
    · obtain ⟨hb, hno⟩ := (hkept q).mp hq
      exact .inr ⟨hb, fun hoc r' hr' => List.mem_singleton.mp hr' ▸ hno hoc⟩
    · exact .inl hq
  kept q hq hno := by
    refine List.mem_append_left _ ((hkept q).mpr ⟨hq, fun hoc => ?_⟩)
    exact hno hoc r List.mem_cons_self
  added _ pre x post hsplit _ := by
    obtain rfl : r = x := by
      have : x ∈ [r] := hsplit ▸ List.mem_append_right _ List.mem_cons_self
      exact (List.mem_singleton.mp this).symm
    exact List.mem_append_right _ List.mem_cons_self
  keys huniq q hq := by
    -- without further UNIQUE keys, a row that is replaced has the key of the new one
    cases hc : S.conflicts t r q with
    | false => exact ⟨q, List.mem_append_left _ ((hkept q).mpr ⟨hq, fun _ => hc⟩), rfl⟩
    | true =>
        refine ⟨r, List.mem_append_right _ List.mem_cons_self, ?_⟩
        rcases conflicts_iff.mp hc with hk | ⟨u, hu, -⟩
        · exact hk
        · rw [huniq] at hu
          exact absurd hu List.not_mem_nil

theorem filled_insert {oc : OnConflict} {t : T} {r : Row t} {c d : Conn Row}
    (hoff : c.foreignKeys = false) (h : S.insert oc t r c = (.ok (), d)) :
    Filled S oc t (c.db t) [r] (d.db t) ∧ (∀ t' ≠ t, d.db t' = c.db t') ∧
      d.foreignKeys = false := by
  have hset : ∀ rows : List (Row t), (∀ t' ≠ t, c.db.set t rows t' = c.db t') :=
    fun rows t' ht' => Db.set_of_ne _ ht' rows
  rw [insert_off hoff] at h
  by_cases hc : (c.db t).any (S.conflicts t r) = true
  · rw [if_pos hc] at h
    cases oc with
    | abort => cases h
    | ignore =>
        cases h
        refine ⟨⟨fun q hq => ?_, fun q hq _ => hq, fun hoc => absurd rfl hoc,
          fun _ q hq => ⟨q, hq, rfl⟩⟩, fun _ _ => rfl, hoff⟩
        exact .inr ⟨hq, fun hoc => by cases hoc⟩
    | replace =>
        cases h
        refine ⟨?_, hset _, hoff⟩
        show Filled S .replace t (c.db t) [r] (c.db.set t _ t)
        rw [Db.set_self]
        exact filled_append fun q => by simp [List.mem_filter]
  · rw [if_neg hc] at h
    cases h
    refine ⟨?_, hset _, hoff⟩
    show Filled S oc t (c.db t) [r] (c.db.set t _ t)
    rw [Db.set_self]
    refine filled_append fun q => ⟨fun hq => ⟨hq, fun _ => ?_⟩, fun hq => hq.1⟩
    by_contra hconflict
    exact hc (List.any_eq_true.mpr ⟨q, hq, by simpa using hconflict⟩)

end Sql
