/-
Aion2Hub/Backup/Replace.lean

When does a restore replace what was there?

`importUserBackup` empties eight user tables by name and leaves the other nine
(`childTables`) to ON DELETE CASCADE.  In the running application foreign keys
are off (`Reachable.flags`), so nothing cascades, and rows of those nine
tables stay.  The main results are

* `coupled_insertAll`: after the deletes, two restores of one backup go in
  lockstep on states whose child tables agree, up to the time stamps the
  imports write themselves;
* `restoreReplaces_iff`: restoring replaces the user data of two states
  exactly when both have empty child tables.
-/
import Aion2Hub.Storage.Lifecycle
import Aion2Hub.Lib.Relate

namespace Hub

open Sql Exec

/-! ### Equal up to the stamps of the import -/

/-- The columns that an import fills with its own time where the backup has
none. -/
def stamps : (t : Table) → Row t → List String
  | .appCharacter, r => [r.createdAt, r.updatedAt]
  | .plannerSettings, r => [r.updatedAt]
  | .plannerTemplate, r => [r.createdAt, r.updatedAt]
  | .plannerAssignment, r => [r.createdAt, r.updatedAt]
  | .buildScore, r => [r.updatedAt]
  | .buildScorePreset, r => [r.createdAt, r.updatedAt]
  | .economyItem, r => [r.createdAt, r.updatedAt]
  | .economyPrice, r => [r.recordedAt, r.createdAt, r.updatedAt]
  | .economyPriceWatch, r => [r.createdAt, r.updatedAt]
  | .lootRun, r => [r.createdAt, r.updatedAt]
  | .lootRunDrop, r => [r.createdAt, r.updatedAt]
  | .lootRunCost, r => [r.createdAt, r.updatedAt]
  | _, _ => []

/-- The row without these columns. -/
def unstamped : (t : Table) → Row t → Row t
  | .appCharacter, r => { r with createdAt := "", updatedAt := "" }
  | .plannerSettings, r => { r with updatedAt := "" }
  | .plannerTemplate, r => { r with createdAt := "", updatedAt := "" }
  | .plannerAssignment, r => { r with createdAt := "", updatedAt := "" }
  | .buildScore, r => { r with updatedAt := "" }
  | .buildScorePreset, r => { r with createdAt := "", updatedAt := "" }
  | .economyItem, r => { r with createdAt := "", updatedAt := "" }
  | .economyPrice, r => { r with recordedAt := "", createdAt := "", updatedAt := "" }
  | .economyPriceWatch, r => { r with createdAt := "", updatedAt := "" }
  | .lootRun, r => { r with createdAt := "", updatedAt := "" }
  | .lootRunDrop, r => { r with createdAt := "", updatedAt := "" }
  | .lootRunCost, r => { r with createdAt := "", updatedAt := "" }
  | _, r => r

/-- The same text, or the stamps of two imports. -/
def Stamped (now now' s s' : String) : Prop := s = s' ∨ s = now ∧ s' = now'

/-- The same row up to the stamps of two imports. -/
def SameRow (now now' : String) (t : Table) (r r' : Row t) : Prop :=
  unstamped t r = unstamped t r' ∧ List.Forall₂ (Stamped now now') (stamps t r) (stamps t r')

/-- The same user data up to the stamps of two imports. -/
def SameUserData (now now' : String) (db db' : Db Row) : Prop :=
  ∀ t ∈ userTables, List.Forall₂ (SameRow now now' t) (db t) (db' t)

variable {now now' : String}

theorem SameRow.refl {t : Table} (r : Row t) : SameRow now now' t r r :=
  ⟨rfl, List.forall₂_same.mpr fun _ _ => .inl rfl⟩

theorem sameRow_option_refl {t : Table} (o : Option (Row t)) :
    Option.Rel (SameRow now now' t) o o := by
  cases o with
  | none => exact .none
  | some r => exact .some (SameRow.refl r)

theorem key_unstamped (t : Table) (r : Row t) : key t (unstamped t r) = key t r := by
  cases t <;> rfl

theorem uniques_unstamped (t : Table) (r : Row t) :
    ∀ u ∈ uniques t, u (unstamped t r) = u r := by
  cases t <;> simp [uniques, unstamped]

theorem alike_sameRow : Alike schema (SameRow now now') where
  key {t r r'} h := by
    show key t r = key t r'
    rw [← key_unstamped t r, h.1, key_unstamped]
  uniques {t r r'} h u hu := by
    rw [← uniques_unstamped t r u hu, h.1, uniques_unstamped t r' u hu]

/-! ### Parsing at two times -/

theorem rel_bind {α β : Type} {R : β → β → Prop} {o : Option α} {f g : α → Option β}
    (h : ∀ a, Option.Rel R (f a) (g a)) : Option.Rel R (o >>= f) (o >>= g) := by
  cases o with
  | none => exact .none
  | some a => exact h a

theorem forall₂_filterMap {α β : Type} {R : β → β → Prop} {f g : α → Option β}
    (h : ∀ a, Option.Rel R (f a) (g a)) (l : List α) :
    List.Forall₂ R (l.filterMap f) (l.filterMap g) := by
  refine List.rel_filterMap (fun {a b} hab => ?_) (List.forall₂_same.mpr fun a _ => Eq.refl a)
  subst hab
  exact h _

theorem stamped_textOr (v : Js) (k : String) :
    Stamped now now' (textOr v k now) (textOr v k now') := by
  unfold textOr
  cases text v k with
  | none => exact .inr ⟨rfl, rfl⟩
  | some s => exact .inl rfl

/-- Two rows made of the same fields, with the stamps read from `v`. -/
theorem sameRow_stamps {t : Table} {r r' : Row t} {v : Js} (keys : List String)
    (hfields : unstamped t r = unstamped t r')
    (hr : stamps t r = keys.map fun k => textOr v k now)
    (hr' : stamps t r' = keys.map fun k => textOr v k now') : SameRow now now' t r r' := by
  refine ⟨hfields, ?_⟩
  rw [hr, hr', List.forall₂_map_left_iff, List.forall₂_map_right_iff]
  exact List.forall₂_same.mpr fun k _ => stamped_textOr v k

theorem same_parseCharacter (c : Js) :
    Option.Rel (SameRow now now' .appCharacter) (parseCharacter now c) (parseCharacter now' c) :=
  rel_bind fun _ => rel_bind fun _ =>
    .some (sameRow_stamps (v := c) ["createdAt", "updatedAt"] rfl rfl rfl)

theorem same_parseItem (i : Js) :
    Option.Rel (SameRow now now' .economyItem) (parseItem now i) (parseItem now' i) :=
  rel_bind fun _ => rel_bind fun _ =>
    .some (sameRow_stamps (v := i) ["createdAt", "updatedAt"] rfl rfl rfl)

theorem same_parsePrice (itemIds : List String) (p : Js) :
    Option.Rel (SameRow now now' .economyPrice) (parsePrice now itemIds p)
      (parsePrice now' itemIds p) :=
  rel_bind fun _ => rel_bind fun _ => rel_bind fun _ =>
    .some (sameRow_stamps (v := p) ["recordedAt", "createdAt", "updatedAt"] rfl rfl rfl)

theorem same_parseWatch (itemIds : List String) (w : Js) :
    Option.Rel (SameRow now now' .economyPriceWatch) (parseWatch now itemIds w)
      (parseWatch now' itemIds w) :=
  rel_bind fun _ => rel_bind fun _ => rel_bind fun _ => rel_bind fun _ =>
    .some (sameRow_stamps (v := w) ["createdAt", "updatedAt"] rfl rfl rfl)

theorem same_parseBuildScore (characterIds : List String) (b : Js) :
    Option.Rel (SameRow now now' .buildScore) (parseBuildScore now characterIds b)
      (parseBuildScore now' characterIds b) :=
  rel_bind fun _ => .some (sameRow_stamps (v := b) ["updatedAt"] rfl rfl rfl)

theorem same_parsePreset (characterIds : List String) (p : Js) :
    Option.Rel (SameRow now now' .buildScorePreset) (parsePreset now characterIds p)
      (parsePreset now' characterIds p) :=
  rel_bind fun _ => rel_bind fun _ => rel_bind fun _ => rel_bind fun _ =>
    .some (sameRow_stamps (v := p) ["createdAt", "updatedAt"] rfl rfl rfl)

theorem same_parseLootRun (characterIds : List String) (r : Js) :
    Option.Rel (SameRow now now' .lootRun) (parseLootRun now characterIds r)
      (parseLootRun now' characterIds r) :=
  rel_bind fun _ => rel_bind fun _ => rel_bind fun _ =>
    .some (sameRow_stamps (v := r) ["createdAt", "updatedAt"] rfl rfl rfl)

theorem same_parseDrop (runIds itemIds : List String) (d : Js) :
    Option.Rel (SameRow now now' .lootRunDrop) (parseDrop now runIds itemIds d)
      (parseDrop now' runIds itemIds d) :=
  rel_bind fun _ => rel_bind fun _ => rel_bind fun _ => rel_bind fun _ =>
    .some (sameRow_stamps (v := d) ["createdAt", "updatedAt"] rfl rfl rfl)

theorem same_parseCost (runIds itemIds : List String) (c : Js) :
    Option.Rel (SameRow now now' .lootRunCost) (parseCost now runIds itemIds c)
      (parseCost now' runIds itemIds c) :=
  rel_bind fun _ => rel_bind fun _ => rel_bind fun _ =>
    .some (sameRow_stamps (v := c) ["createdAt", "updatedAt"] rfl rfl rfl)

theorem same_parseTemplate (t : Js) :
    Option.Rel (SameRow now now' .plannerTemplate) (parseTemplate now t) (parseTemplate now' t) :=
  rel_bind fun _ => rel_bind fun _ => rel_bind fun _ =>
    .some (sameRow_stamps (v := t) ["createdAt", "updatedAt"] rfl rfl rfl)

theorem same_parseAssignment (characterIds templateIds : List String) (a : Js) :
    Option.Rel (SameRow now now' .plannerAssignment) (parseAssignment now characterIds templateIds a)
      (parseAssignment now' characterIds templateIds a) :=
  rel_bind fun _ => rel_bind fun _ => rel_bind fun _ =>
    .some (sameRow_stamps (v := a) ["createdAt", "updatedAt"] rfl rfl rfl)

/-- The settings of a server may also inherit from the default row. -/
theorem same_parseServerSettings {d d' : PlannerSettingsRow}
    (h : SameRow now now' .plannerSettings d d') (s : Js) :
    Option.Rel (SameRow now now' .plannerSettings) (parseServerSettings now d s)
      (parseServerSettings now' d' s) := by
  obtain ⟨id, hhmm, day, updatedAt⟩ := d
  obtain ⟨id', hhmm', day', updatedAt'⟩ := d'
  obtain ⟨rfl, rfl, rfl, -⟩ := PlannerSettingsRow.mk.inj h.1
  exact rel_bind fun _ => .some (sameRow_stamps (v := s) ["updatedAt"] rfl rfl rfl)

/-! ### The same rows at two times -/

/-- What an INSERT binds does not depend on the stamps. -/
theorem same_bound {t : Table} {bound : Row t → Option (Row t)}
    (hfields : ∀ r, (bound r).map (unstamped t) = bound (unstamped t r))
    (hstamps : ∀ r q, bound r = some q → stamps t q = stamps t r) {r r' : Row t}
    (h : SameRow now now' t r r') : Option.Rel (SameRow now now' t) (bound r) (bound r') := by
  have heq : (bound r).map (unstamped t) = (bound r').map (unstamped t) := by
    rw [hfields, hfields, h.1]
  cases hr : bound r with
  | none =>
      rw [hr] at heq
      cases hr' : bound r' with
      | none => exact .none
      | some q' =>
          rw [hr'] at heq
          cases heq
  | some q =>
      rw [hr] at heq
      cases hr' : bound r' with
      | none =>
          rw [hr'] at heq
          cases heq
      | some q' =>
          rw [hr'] at heq
          refine .some ⟨Option.some.inj heq, ?_⟩
          rw [hstamps r q hr, hstamps r' q' hr']
          exact h.2

/-- Two parsed backups that differ in stamps only. -/
structure Backup.Same (now now' : String) (b b' : Backup) : Prop where
  rows : ∀ t, List.Forall₂ (Option.Rel (SameRow now now' t)) (b.rows t) (b'.rows t)
  active : b.activeCharacterId = b'.activeCharacterId

theorem forall₂_map_some {α : Type} {R : α → α → Prop} {l l' : List α} (h : List.Forall₂ R l l') :
    List.Forall₂ (Option.Rel R) (l.map some) (l'.map some) := by
  rw [List.forall₂_map_left_iff, List.forall₂_map_right_iff]
  exact h.imp fun _ _ hr => .some hr

theorem forall₂_map_bound {t : Table} {bound : Row t → Option (Row t)} {l l' : List (Row t)}
    (hfields : ∀ r, (bound r).map (unstamped t) = bound (unstamped t r))
    (hstamps : ∀ r q, bound r = some q → stamps t q = stamps t r)
    (h : List.Forall₂ (SameRow now now' t) l l') :
    List.Forall₂ (Option.Rel (SameRow now now' t)) (l.map bound) (l'.map bound) := by
  rw [List.forall₂_map_left_iff, List.forall₂_map_right_iff]
  exact h.imp fun _ _ hr => same_bound hfields hstamps hr

/-- Sections that are the same up to stamps have the same ids. -/
theorem map_key_eq {t : Table} {l l' : List (Row t)} (h : List.Forall₂ (SameRow now now' t) l l') :
    l.map (key t) = l'.map (key t) := by
  induction h with
  | nil => rfl
  | cons hr _ ih =>
      rw [List.map_cons, List.map_cons, ih]
      exact congrArg (· :: _) (alike_sameRow.key hr)

/-- Parsing one backup at two times gives the same rows up to stamps. -/
theorem same_parseBackup (raw : Js) (version : Number) :
    Backup.Same now now' (parseBackup raw version now) (parseBackup raw version now') := by
  refine ⟨fun t => ?_, rfl⟩
  -- the ids that later sections refer to are the same at both times
  have hcharacterIds : ((objects (raw.get "characters")).filterMap (parseCharacter now)).map (·.id) =
      ((objects (raw.get "characters")).filterMap (parseCharacter now')).map (·.id) :=
    map_key_eq (forall₂_filterMap same_parseCharacter _)
  have hitemIds : ∀ economy : Js,
      ((objects (economy.get "items")).filterMap (parseItem now)).map (·.id) =
        ((objects (economy.get "items")).filterMap (parseItem now')).map (·.id) :=
    fun economy => map_key_eq (forall₂_filterMap same_parseItem _)
  have htemplateIds : ∀ planner : Js,
      ((objects (planner.get "templates")).filterMap (parseTemplate now)).map (·.id) =
        ((objects (planner.get "templates")).filterMap (parseTemplate now')).map (·.id) :=
    fun planner => map_key_eq (forall₂_filterMap same_parseTemplate _)
  have hrunIds : ∀ (loot : Js) (ids : List String),
      ((objects (loot.get "runs")).filterMap (parseLootRun now ids)).map (·.id) =
        ((objects (loot.get "runs")).filterMap (parseLootRun now' ids)).map (·.id) :=
    fun loot ids => map_key_eq (forall₂_filterMap (same_parseLootRun ids) _)
  have hdefault : SameRow now now' .plannerSettings (parseBackup raw version now).default
      (parseBackup raw version now').default :=
    ⟨rfl, .cons (.inr ⟨rfl, rfl⟩) .nil⟩
  cases t <;>
    simp only [Backup.rows, parseBackup, hcharacterIds, hitemIds, htemplateIds, hrunIds]
  case appCharacter => exact forall₂_map_some (forall₂_filterMap same_parseCharacter _)
  case economyItem => exact forall₂_map_some (forall₂_filterMap same_parseItem _)
  case buildScore => exact forall₂_map_some (forall₂_filterMap (same_parseBuildScore _) _)
  case buildScorePreset => exact forall₂_map_some (forall₂_filterMap (same_parsePreset _) _)
  case plannerAssignment =>
      exact forall₂_map_some (forall₂_filterMap (same_parseAssignment _ _) _)
  case plannerSettings =>
      refine forall₂_map_bound (fun r => ?_) (fun r q hq => ?_)
        (.cons hdefault (forall₂_filterMap (same_parseServerSettings hdefault) _))
      · simp [PlannerSettingsRow.bound, unstamped, Function.comp_def]
      · obtain ⟨x, -, rfl⟩ := Option.map_eq_some_iff.mp hq
        rfl
  case plannerTemplate =>
      refine forall₂_map_bound (fun r => ?_) (fun r q hq => ?_)
        (forall₂_filterMap same_parseTemplate _)
      · simp [PlannerTemplate.bound, unstamped, Function.comp_def]
      · obtain ⟨x, -, rfl⟩ := Option.map_eq_some_iff.mp hq
        rfl
  case economyPrice =>
      refine forall₂_map_bound (fun r => ?_) (fun r q hq => ?_)
        (forall₂_filterMap (same_parsePrice _) _)
      · simp [EconomyPrice.bound, unstamped, Function.comp_def]
      · obtain ⟨x, -, rfl⟩ := Option.map_eq_some_iff.mp hq
        rfl
  case economyPriceWatch =>
      refine forall₂_map_bound (fun r => ?_) (fun r q hq => ?_)
        (forall₂_filterMap (same_parseWatch _) _)
      · simp [EconomyPriceWatch.bound, unstamped, Function.comp_def]
      · obtain ⟨x, -, rfl⟩ := Option.map_eq_some_iff.mp hq
        rfl
  case lootRun =>
      refine forall₂_map_bound (fun r => rfl) (fun r q hq => ?_)
        (forall₂_filterMap (same_parseLootRun _) _)
      obtain rfl := Option.some.inj hq
      rfl
  case lootRunDrop =>
      refine forall₂_map_bound (fun r => ?_) (fun r q hq => ?_)
        (forall₂_filterMap (same_parseDrop _ _) _)
      · simp [LootRunDrop.bound, unstamped, Function.comp_def]
      · obtain ⟨x, -, rfl⟩ := Option.map_eq_some_iff.mp hq
        rfl
  case lootRunCost =>
      refine forall₂_map_bound (fun r => rfl) (fun r q hq => ?_)
        (forall₂_filterMap (same_parseCost _ _) _)
      obtain rfl := Option.some.inj hq
      rfl
  -- the other tables hold no stamps, or nothing is restored into them
  all_goals exact List.forall₂_same.mpr fun o _ => sameRow_option_refl o

/-! ### Restoring at two times -/

/-- The states of two restores: related user tables, foreign keys off. -/
abbrev RestoreRelated (now now' : String) : Conn → Conn → Prop :=
  Related (· ∈ userTables) (SameRow now now')

theorem coupled_insertRow {oc : OnConflict} {t : Table} (ht : t ∈ userTables)
    {o o' : Option (Row t)} (h : Option.Rel (SameRow now now' t) o o') :
    Coupled (RestoreRelated now now') (insertRow oc t o) (insertRow oc t o') := by
  cases h with
  | some hr => exact coupled_insert alike_sameRow ht hr
  | none =>
      show Coupled _ (if oc = .ignore then pure () else throw _)
        (if oc = .ignore then pure () else throw _)
      split
      · exact Coupled.pure
      · exact Coupled.throw

theorem coupled_insertTable {b b' : Backup} (h : Backup.Same now now' b b')
    {p : Table × OnConflict} (hp : p.1 ∈ userTables) :
    Coupled (RestoreRelated now now') (b.insertTable p) (b'.insertTable p) :=
  Coupled.forEach (h.rows p.1) fun _ _ hr => coupled_insertRow hp hr

theorem coupled_restoreActive {b b' : Backup} (h : Backup.Same now now' b b') :
    Coupled (RestoreRelated now now') b.restoreActive b'.restoreActive := by
  unfold Backup.restoreActive
  rw [h.active]
  cases nonEmpty b'.activeCharacterId with
  | none => exact Coupled.pure
  | some id =>
      refine coupled_upsert alike_sameRow (by decide) (SameRow.refl _) fun q q' hq => ?_
      -- a setting has no stamps, so the two rows are one
      obtain rfl : q = q' := hq.1
      exact SameRow.refl _

theorem same_autoAssignments {c c' : Conn} (h : RestoreRelated now now' c c') :
    List.Forall₂ (SameRow now now' .plannerAssignment) (autoAssignments now c.db)
      (autoAssignments now' c'.db) := by
  refine List.rel_flatMap (h.rows .appCharacter (by decide)) fun {r r'} hr => ?_
  refine List.rel_map (fun {t t'} ht => ?_) (h.rows .plannerTemplate (by decide))
  have hc : r.id = r'.id := alike_sameRow.key hr
  have ht : t.id = t'.id := alike_sameRow.key ht
  refine ⟨?_, .cons (.inr ⟨rfl, rfl⟩) (.cons (.inr ⟨rfl, rfl⟩) .nil)⟩
  simp only [unstamped, hc, ht]

/-- **Two restores of one backup go in lockstep** once the tables have been
emptied: both go through and leave the same user data up to their stamps, or
both fail. -/
theorem coupled_insertAll {b b' : Backup} (h : Backup.Same now now' b b') :
    Coupled (RestoreRelated now now') (b.insertAll now) (b'.insertAll now') := by
  refine (coupled_insertTable h (by decide)).bind ((coupled_restoreActive h).bind
    (Coupled.bind ?_ ?_))
  · have hall : ∀ p ∈ restoredTables, p.1 ∈ userTables := by decide
    refine Coupled.forEach (A := fun p p' => p = p' ∧ p ∈ restoredTables)
      (List.forall₂_same.mpr fun p hp => ⟨rfl, hp⟩) fun p p' hp => ?_
    obtain ⟨rfl, hp⟩ := hp
    exact coupled_insertTable h (hall p hp)
  · exact coupled_insertSelect alike_sameRow (by decide) fun c c' hc => same_autoAssignments hc

/-! ### Restoring replaces -/

/-- Every backup that some state exports leaves the same user data on both
states, if both imports succeed. -/
def RestoresAlike (c c' : Conn) : Prop :=
  ∀ (source source' d d' : Conn) (raw : Js) (exported now now' : ℤ),
    exportUserBackup exported source = (.ok raw, source') →
    importUserBackup raw now c = (.ok (), d) → importUserBackup raw now' c' = (.ok (), d') →
    SameUserData (stamp now) (stamp now') d.db d'.db

/-- A restore replaces the user data of two states: it leaves the same on
both, and nothing that it would not leave on a fresh installation. -/
def RestoreReplaces (c c' : Conn) : Prop :=
  RestoresAlike c c' ∧ ∀ installed, RestoresAlike c (opened none installed) ∧
    RestoresAlike c' (opened none installed)

/-- No table is left to the cascade with rows in it. -/
def NoChildRows (c : Conn) : Prop := ∀ t ∈ childTables, c.db t = []

/-- On states without child rows all that a restore finds is empty tables. -/
theorem restoresAlike_of_noChildRows {c c' : Conn}
    (hflags : c.foreignKeys = false ∧ c.saved = none)
    (hflags' : c'.foreignKeys = false ∧ c'.saved = none)
    (h : NoChildRows c) (h' : NoChildRows c') : RestoresAlike c c' := by
  intro source source' d d' raw exported now now' _ hd hd'
  obtain ⟨version, e, hv, he, hdb⟩ := importUserBackup_off hflags.1 hflags.2 hd
  obtain ⟨version', e', hv', he', hdb'⟩ := importUserBackup_off hflags'.1 hflags'.2 hd'
  obtain rfl : version = version' := Option.some.inj (hv.symm.trans hv')
  -- a user table is either emptied by name or a child table
  have hempty : ∀ t ∈ userTables, t ∈ clearedTables ∨ t ∈ childTables := by decide
  have hstart : RestoreRelated (stamp now) (stamp now')
      ⟨fun t => if t ∈ clearedTables then [] else c.db t, false, some c.db⟩
      ⟨fun t => if t ∈ clearedTables then [] else c'.db t, false, some c'.db⟩ := by
    refine ⟨rfl, rfl, fun t ht => ?_⟩
    show List.Forall₂ _ (if t ∈ clearedTables then [] else c.db t)
      (if t ∈ clearedTables then [] else c'.db t)
    rcases hempty t ht with hcleared | hchild
    · rw [if_pos hcleared, if_pos hcleared]
      exact .nil
    · rw [h t hchild, h' t hchild, ite_self]
      exact .nil
  intro t ht
  rw [hdb, hdb']
  rcases (coupled_insertAll (same_parseBackup raw version)).run hstart with
    ⟨x, x', hx, hx', hR⟩ | ⟨m, m', x, x', hx, hx'⟩
  · obtain rfl : e = x := by rw [he] at hx; cases hx; rfl
    obtain rfl : e' = x' := by rw [he'] at hx'; cases hx'; rfl
    exact hR.rows t ht
  · rw [he] at hx
    cases hx

/-! ### The backup of a fresh installation -/

/-- The user's data on a fresh installation: the default settings. -/
def freshRows (installed : ℤ) : UserRows where
  activeCharacterId := none
  characters := []
  default := asPlannerSettings (defaultSettingsRow installed)
  perServer := []
  templates := []
  assignments := []
  completions := []
  chargeUses := []
  durations := []
  buildScores := []
  presets := []
  items := []
  prices := []
  watches := []
  runs := []
  drops := []
  costs := []

theorem exportUserBackup_opened (installed exported : ℤ) :
    exportUserBackup exported (opened none installed) =
      (.ok ((freshRows installed).toJs (stamp exported)), opened none installed) := by
  have hactive : getActiveCharacterId (opened none installed) = (.ok none, opened none installed) :=
    rfl
  have hcharacters : listCharacters (opened none installed) = (.ok [], opened none installed) := rfl
  have hdefault : getPlannerSettings exported (opened none installed) =
      (.ok (asPlannerSettings (defaultSettingsRow installed)), opened none installed) := by
    show (Except.ok (asPlannerSettings (schema.read .plannerSettings (defaultSettingsRow installed))),
      opened none installed) = _
    rw [whole_defaultSettingsRow]
  have hserver : schema.selectBy .plannerSettings isServerSettings (asc (·.id) anyOrder)
      (opened none installed) = (.ok [], opened none installed) := by
    show (Except.ok ((orderBy (asc (·.id) anyOrder)
      ([defaultSettingsRow installed].filter isServerSettings)).map _), _) = _
    have hdefault : isServerSettings (defaultSettingsRow installed) = false :=
      isServerSettings_of_default rfl
    rw [List.filter_cons_of_neg (by rw [hdefault]; exact Bool.false_ne_true)]
    rfl
  have hrows : readUserRows exported (opened none installed) =
      (.ok (freshRows installed), opened none installed) := by
    unfold readUserRows
    rw [bind_of_ok hactive, bind_of_ok hcharacters, bind_of_ok hdefault, bind_of_ok hserver]
    rfl
  rw [exportUserBackup, bind_of_ok hrows]
  rfl

/-- The INSERTs for this backup, after the deletes. -/
theorem insertAll_freshRows (installed : ℤ) (exportedAt now : String) (db : Db Row)
    (saved : Option (Db Row)) :
    (parseBackup ((freshRows installed).toJs exportedAt) 4 now).insertAll now
        ⟨fun t => if t ∈ clearedTables then [] else db t, false, saved⟩ =
      (.ok (), ⟨Db.set (fun t => if t ∈ clearedTables then [] else db t) .plannerSettings
        [⟨"default", "09:00", 1, now⟩], false, saved⟩) :=
  rfl

/-- Restoring it works on every state, and leaves the child tables as they
were. -/
theorem importUserBackup_freshRows (installed now : ℤ) (exportedAt : String) {c : Conn}
    (hoff : c.foreignKeys = false) (hsaved : c.saved = none) :
    ∃ d, importUserBackup ((freshRows installed).toJs exportedAt) now c = (.ok (), d) ∧
      ∀ t ∈ childTables, d.db t = c.db t := by
  obtain ⟨db, enforced, saved⟩ := c
  obtain rfl : enforced = false := hoff
  obtain rfl : saved = none := hsaved
  have hrestore : (parseBackup ((freshRows installed).toJs exportedAt) 4 (stamp now)).restore
      (stamp now) ⟨db, false, some db⟩ =
        (.ok (), ⟨Db.set (fun t => if t ∈ clearedTables then [] else db t) .plannerSettings
          [⟨"default", "09:00", 1, stamp now⟩], false, some db⟩) := by
    rw [Backup.restore, bind_of_ok (clearUserTables_off rfl)]
    exact insertAll_freshRows installed exportedAt (stamp now) db (some db)
  have hkept : ∀ t ∈ childTables, t ∉ clearedTables ∧ t ≠ .plannerSettings := by decide
  rcases atomically_cases (c := ⟨db, false, none⟩) (criticalMessage "backup import") rfl
    (quiet_restore (b := parseBackup ((freshRows installed).toJs exportedAt) 4 (stamp now))) with
    ⟨d, hd, h⟩ | ⟨d, m, hd, -⟩
  · refine ⟨_, h, fun t ht => ?_⟩
    cases hd.symm.trans hrestore
    show Db.set (fun t => if t ∈ clearedTables then [] else db t) .plannerSettings _ t = db t
    rw [Db.set_of_ne _ (hkept t ht).2, if_neg (hkept t ht).1]
  · cases hd.symm.trans hrestore

/-- A state on which restores leave what they leave on a fresh installation
has no child rows: they would survive. -/
theorem noChildRows_of_restoresAlike {c : Conn} {installed : ℤ}
    (hflags : c.foreignKeys = false ∧ c.saved = none)
    (h : RestoresAlike c (opened none installed)) : NoChildRows c := by
  obtain ⟨d, hd, hkept⟩ := importUserBackup_freshRows 0 0 (stamp 0) hflags.1 hflags.2
  obtain ⟨d', hd', hkept'⟩ := importUserBackup_freshRows 0 0 (stamp 0)
    (opened_flags none installed).1 (opened_flags none installed).2
  have hsame := h _ _ d d' _ 0 0 0 (exportUserBackup_opened 0 0) hd hd'
  have huser : ∀ t ∈ childTables, t ∈ userTables ∧ t ≠ .plannerSettings := by decide
  intro t ht
  have hrows := hsame t (huser t ht).1
  have hfresh : (opened none installed).db t = [] := Db.set_of_ne _ (huser t ht).2 _
  rw [hkept t ht, hkept' t ht, hfresh] at hrows
  exact List.forall₂_nil_right_iff.mp hrows

theorem noChildRows_opened (installed : ℤ) : NoChildRows (opened none installed) := by
  have hne : ∀ t ∈ childTables, t ≠ .plannerSettings := by decide
  exact fun t ht => Db.set_of_ne _ (hne t ht) _

/-- **A restore replaces the user data of two states of the application
exactly when neither holds rows of the tables that the import leaves to the
cascade**: those rows survive every restore. -/
theorem restoreReplaces_iff {host : Host} {c c' : Conn} (hc : Reachable host c)
    (hc' : Reachable host c') : RestoreReplaces c c' ↔ NoChildRows c ∧ NoChildRows c' := by
  constructor
  · rintro ⟨-, h⟩
    exact ⟨noChildRows_of_restoresAlike hc.flags (h 0).1,
      noChildRows_of_restoresAlike hc'.flags (h 0).2⟩
  · rintro ⟨h, h'⟩
    refine ⟨restoresAlike_of_noChildRows hc.flags hc'.flags h h', fun installed => ⟨?_, ?_⟩⟩
    · exact restoresAlike_of_noChildRows hc.flags (opened_flags none installed) h
        (noChildRows_opened installed)
    · exact restoresAlike_of_noChildRows hc'.flags (opened_flags none installed) h'
        (noChildRows_opened installed)

/-- One item with a price. -/
def withPrice : Conn :=
  ((Step.op (.addEconomyPrice ⟨"Siel", "ore", 1, none⟩ fun j => nthDraw j 1)).run
    (Host.iso (Zone.fixed 0)) (opened none 0)).2

/-- A character on one side, an item and its price on the other. -/
theorem restoreReplaces_price : withCharacter.db .appCharacter ≠ [] ∧
    withPrice.db .economyItem ≠ [] ∧ withPrice.db .economyPrice ≠ [] ∧
    RestoreReplaces withCharacter withPrice := by
  have hcharacter : Reachable (Host.iso (Zone.fixed 0)) withCharacter := ⟨none, 0, .step .start trivial⟩
  have hprice : Reachable (Host.iso (Zone.fixed 0)) withPrice := ⟨none, 0, .step .start trivial⟩
  have hnone : ∀ t ∈ childTables,
      (withCharacter.db t).isEmpty = true ∧ (withPrice.db t).isEmpty = true := by decide +kernel
  refine ⟨List.cons_ne_nil _ _, List.cons_ne_nil _ _, List.cons_ne_nil _ _,
    (restoreReplaces_iff hcharacter hprice).mpr ⟨fun t ht => ?_, fun t ht => ?_⟩⟩
  · exact List.isEmpty_iff.mp (hnone t ht).1
  · exact List.isEmpty_iff.mp (hnone t ht).2

/-! ### Rows that survive -/

/-- Their assignment survives the restore of a backup that has neither. -/
theorem not_restoresAlike_withAssignment :
    ∃ c c', Reachable (Host.iso (Zone.fixed 0)) c ∧ Reachable (Host.iso (Zone.fixed 0)) c' ∧
      ¬ RestoresAlike c c' := by
  have hreach : Reachable (Host.iso (Zone.fixed 0)) withAssignment :=
    ⟨none, 0, reaches_withAssignment trivial trivial⟩
  refine ⟨withAssignment, opened none 0, hreach, ⟨none, 0, .start⟩, fun h => ?_⟩
  have hempty := noChildRows_of_restoresAlike hreach.flags h .plannerAssignment (by decide)
  rw [withAssignment_assignments] at hempty
  cases hempty

end Hub
