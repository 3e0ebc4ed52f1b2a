/-
Aion2Hub/Backup/Atomic.lean

An import either throws and changes nothing or leaves a valid database,
whatever value it is given.

The parser lets no row through that is not well formed
(`wellFormed_parseBackup`), the statements of the transaction keep a valid
database valid (`sound_restore`), and a transaction whose body throws is
undone.
-/
import Aion2Hub.Backup.Codec
import Aion2Hub.Storage.Sound

namespace Hub

open Sql Exec

/-! ### Valid databases -/

/-- A number that is at least zero, and so not NaN. -/
def NonNegative (x : Number) : Prop := Number.le 0 x = true

/-- What later operations rely on in a row.  Template types, cost kinds and
watch operators are well formed by their types. -/
def WellFormed : (t : Table) → Row t → Prop
  | .plannerTemplate, r => NonNegative r.estimateMinutes ∧
      (r.type ≠ .charge → r.rechargeHours = none ∧ r.maxStacks = none)
  | .economyItem, r => Trimmed r.name
  | .economyPrice, r => NonNegative r.price
  | .economyPriceWatch, r => NonNegative r.threshold
  | .lootRun, r => Trimmed r.content ∧ NonNegative r.seconds
  | .lootRunDrop, r => Number.le 1 r.qty = true
  | .lootRunCost, r => NonNegative r.qty ∧ NonNegative r.kinah
  | _, _ => True

/-- Every reference resolves, keys are unique and rows are well formed. -/
structure ValidDb (db : Db Row) : Prop where
  resolved : schema.Resolved db
  distinct : schema.Distinct db
  wellFormed : AllRows WellFormed db

theorem clearKeeps_wellFormed : schema.ClearKeeps WellFormed := by
  intro t fk hfk clear hclear r hr
  cases t with
  | lootRunDrop =>
      rcases List.mem_pair.mp hfk with rfl | rfl <;> cases hclear
      exact hr
  | lootRunCost =>
      rcases List.mem_pair.mp hfk with rfl | rfl <;> cases hclear
      exact hr
  | economyPrice | economyPriceWatch | lootRun =>
      obtain rfl := List.mem_singleton.mp hfk
      cases hclear
  | plannerTemplate | economyItem => exact absurd hfk List.not_mem_nil
  | _ => trivial

/-! ### Numbers -/

theorem nonNegative_fin {q : ℚ} (h : 0 ≤ q) : NonNegative (.fin q) :=
  Number.le_fin_iff.mpr (by simpa using h)

theorem nonNegative_zero : NonNegative 0 := nonNegative_fin (le_refl 0)

/-- What is stored of `Math.max(0, x)`. -/
theorem nonNegative_atLeast {x y : Number} (h : (Number.atLeast 0 x).bind = some y) :
    NonNegative y := by
  cases x with
  | fin q =>
      have hmax : Number.atLeast 0 (.fin q) =
          if Number.lt (.fin q) 0 = true then 0 else .fin q := rfl
      rw [hmax] at h
      split at h
      · exact Option.some.inj h ▸ nonNegative_zero
      · rename_i hlt
        have hq : 0 ≤ q := by simpa using mt Number.lt_fin_iff.mpr hlt
        exact Option.some.inj h ▸ nonNegative_fin hq
  | nan => cases h
  | posInf =>
      cases h
      rfl
  | negInf =>
      cases h
      exact nonNegative_zero

theorem nonNegative_natural {v : Js} {key : String} {y : Number}
    (h : (natural v key).bind = some y) : NonNegative y := by
  rw [natural] at h
  cases hx : number v key with
  | none =>
      rw [hx] at h
      cases h
      exact nonNegative_zero
  | some x =>
      rw [hx] at h
      exact nonNegative_atLeast h

theorem nonNegative_estimate {x : Option Number} {y : Number} (h : (estimate x).bind = some y) :
    NonNegative y :=
  nonNegative_atLeast h

/-- A stored value that falls back to 0. -/
theorem nonNegative_getD {x : Number} (h : ∀ y, x.bind = some y → NonNegative y) :
    NonNegative (x.bind.getD 0) := by
  cases hx : x.bind with
  | none => exact nonNegative_zero
  | some y => exact h y hx

/-- An integer that is not at most 0 is at least 1. -/
theorem one_le_natural {v : Js} {key : String} {y : Number}
    (hpos : Number.le (natural v key) 0 = false) (h : (natural v key).bind = some y) :
    Number.le 1 y = true := by
  have hnatural : natural v key = 0 ∨ ∃ x, natural v key = Number.atLeast 0 (Number.floor x) := by
    rw [natural]
    cases number v key with
    | none => exact .inl rfl
    | some x => exact .inr ⟨x, rfl⟩
  rcases hnatural with h₀ | ⟨x, hx⟩
  · rw [h₀] at hpos
    cases hpos
  · rw [hx] at hpos h
    cases x with
    | fin q =>
        have hmax : Number.atLeast 0 (Number.floor (.fin q)) =
            if Number.lt (.fin ⌊q⌋) 0 = true then 0 else .fin ⌊q⌋ := rfl
        rw [hmax] at hpos h
        split at hpos
        · cases hpos
        · rename_i hlt
          rw [if_neg hlt] at h
          obtain rfl := Option.some.inj h
          have hfloor : ((0 : ℕ) : ℚ) < (⌊q⌋ : ℚ) := Number.le_fin_eq_false_iff.mp hpos
          have hone : (1 : ℤ) ≤ ⌊q⌋ := by
            rw [Nat.cast_zero, Int.cast_pos] at hfloor
            omega
          refine Number.le_fin_iff.mpr ?_
          simpa using (Int.cast_le (R := ℚ)).mpr hone
    | nan => cases h
    | posInf =>
        cases h
        rfl
    | negInf => cases hpos

/-! ### What the parser lets through -/

section

variable {now : String} {ids itemIds runIds : List String} {v : Js}

theorem wellFormed_parseItem {r : EconomyItem} (h : parseItem now v = some r) :
    WellFormed .economyItem r := by
  simp only [parseItem, Option.bind_eq_bind, Option.bind_eq_some_iff, Option.pure_def,
    Option.some.injEq] at h
  obtain ⟨id, -, name, hname, rfl⟩ := h
  exact trimmed_of_eq_some hname

theorem wellFormed_parsePrice {r q : EconomyPrice} (h : parsePrice now itemIds v = some r)
    (hq : EconomyPrice.bound r = some q) : WellFormed .economyPrice q := by
  simp only [parsePrice, Option.bind_eq_bind, Option.bind_eq_some_iff, Option.pure_def,
    Option.some.injEq] at h
  obtain ⟨id, -, itemId, -, server, -, rfl⟩ := h
  obtain ⟨price, hprice, rfl⟩ := Option.map_eq_some_iff.mp hq
  exact nonNegative_natural hprice

theorem wellFormed_parseWatch {r q : EconomyPriceWatch} (h : parseWatch now itemIds v = some r)
    (hq : EconomyPriceWatch.bound r = some q) : WellFormed .economyPriceWatch q := by
  simp only [parseWatch, Option.bind_eq_bind, Option.bind_eq_some_iff, Option.pure_def,
    Option.some.injEq] at h
  obtain ⟨id, -, itemId, -, server, -, op, -, rfl⟩ := h
  obtain ⟨threshold, hthreshold, rfl⟩ := Option.map_eq_some_iff.mp hq
  exact nonNegative_natural hthreshold

theorem wellFormed_parseLootRun {r q : LootRun} (h : parseLootRun now ids v = some r)
    (hq : LootRun.bound r = some q) : WellFormed .lootRun q := by
  simp only [parseLootRun, Option.bind_eq_bind, Option.bind_eq_some_iff, Option.pure_def,
    Option.some.injEq] at h
  obtain ⟨id, -, characterId, -, content, hcontent, rfl⟩ := h
  obtain rfl := Option.some.inj hq
  exact ⟨trimmed_of_eq_some hcontent, nonNegative_getD fun y hy => nonNegative_natural hy⟩

theorem wellFormed_parseDrop {r q : LootRunDrop} (h : parseDrop now runIds itemIds v = some r)
    (hq : LootRunDrop.bound r = some q) : WellFormed .lootRunDrop q := by
  simp only [parseDrop, Option.bind_eq_bind, Option.bind_eq_some_iff, Option.pure_def,
    Option.some.injEq] at h
  obtain ⟨id, -, runId, -, itemName, -, _, hpos, rfl⟩ := h
  obtain ⟨qty, hqty, rfl⟩ := Option.map_eq_some_iff.mp hq
  exact one_le_natural ((Option.guard_eq_some' _).mp hpos) hqty

theorem wellFormed_parseCost {r q : LootRunCost} (h : parseCost now runIds itemIds v = some r)
    (hq : LootRunCost.bound r = some q) : WellFormed .lootRunCost q := by
  simp only [parseCost, Option.bind_eq_bind, Option.bind_eq_some_iff, Option.pure_def,
    Option.some.injEq] at h
  obtain ⟨id, -, runId, -, kind, -, rfl⟩ := h
  obtain rfl := Option.some.inj hq
  exact ⟨nonNegative_getD fun y hy => nonNegative_natural hy,
    nonNegative_getD fun y hy => nonNegative_natural hy⟩

end

/-- The INSERT of a template drops what belongs to charges only. -/
theorem wellFormed_bound_template {r q : PlannerTemplate} (hq : PlannerTemplate.bound r = some q) :
    WellFormed .plannerTemplate q := by
  obtain ⟨minutes, hminutes, rfl⟩ := Option.map_eq_some_iff.mp hq
  exact ⟨nonNegative_estimate hminutes, fun hne => ⟨if_neg hne, if_neg hne⟩⟩

/-- Every row that an import inserts is well formed. -/
theorem wellFormed_parseBackup {raw : Js} {version : Number} {now : String} {t : Table} {r : Row t}
    (hr : some r ∈ (parseBackup raw version now).rows t) : WellFormed t r := by
  cases t with
  | economyItem =>
      obtain ⟨r₀, hr₀, hbound⟩ := List.mem_map.mp hr
      obtain rfl := Option.some.inj hbound
      obtain ⟨v, -, hv⟩ := List.mem_filterMap.mp hr₀
      exact wellFormed_parseItem hv
  | economyPrice =>
      obtain ⟨r₀, hr₀, hbound⟩ := List.mem_map.mp hr
      obtain ⟨v, -, hv⟩ := List.mem_filterMap.mp hr₀
      exact wellFormed_parsePrice hv hbound
  | economyPriceWatch =>
      obtain ⟨r₀, hr₀, hbound⟩ := List.mem_map.mp hr
      obtain ⟨v, -, hv⟩ := List.mem_filterMap.mp hr₀
      exact wellFormed_parseWatch hv hbound
  | lootRun =>
      obtain ⟨r₀, hr₀, hbound⟩ := List.mem_map.mp hr
      obtain ⟨v, -, hv⟩ := List.mem_filterMap.mp hr₀
      exact wellFormed_parseLootRun hv hbound
  | lootRunDrop =>
      obtain ⟨r₀, hr₀, hbound⟩ := List.mem_map.mp hr
      obtain ⟨v, -, hv⟩ := List.mem_filterMap.mp hr₀
      exact wellFormed_parseDrop hv hbound
  | lootRunCost =>
      obtain ⟨r₀, hr₀, hbound⟩ := List.mem_map.mp hr
      obtain ⟨v, -, hv⟩ := List.mem_filterMap.mp hr₀
      exact wellFormed_parseCost hv hbound
  | plannerTemplate =>
      obtain ⟨r₀, -, hbound⟩ := List.mem_map.mp hr
      exact wellFormed_bound_template hbound
  | _ => trivial

/-! ### The transaction -/

/-- **An import is all or nothing on untrusted input**: it throws and the
connection is what it was, or it returns and the database is valid. -/
theorem importUserBackup_atomic {c : Conn} (hon : c.foreignKeys = true) (hsaved : c.saved = none)
    (h : ValidDb c.db) (raw : Js) (now : ℤ) :
    (∃ e, importUserBackup raw now c = (.error e, c)) ∨
      ∃ db, importUserBackup raw now c = (.ok (), { c with db := db }) ∧ ValidDb db := by
  rcases (importUserBackup_cases hsaved : _ ∨ ∃ e, importUserBackup raw now c = (.error e, c)) with
    ⟨version, d, -, hd, hrun⟩ | ⟨e, hrun⟩
  · obtain ⟨db, enforced, saved⟩ := c
    obtain rfl : enforced = true := hon
    obtain rfl : saved = none := hsaved
    have hquiet : Quiet ((parseBackup raw version (stamp now)).restore (stamp now)) := quiet_restore
    have hkeeps : Keeps (Conn.Inv (schema.Sound WellFormed) (some db))
        ((parseBackup raw version (stamp now)).restore (stamp now)) :=
      sound_restore clearKeeps_wellFormed (fun _ => trivial) (fun _ => trivial)
        fun _ _ hr => wellFormed_parseBackup hr
    have hflags : d.foreignKeys = true ∧ d.saved = some db := by
      have hkept := (hquiet.keeps true (some db)).apply (s := ⟨db, true, some db⟩) ⟨rfl, rfl⟩
      rwa [hd] at hkept
    have hsound : Conn.Inv (schema.Sound WellFormed) (some db) d := by
      have hkept := hkeeps.apply (s := ⟨db, true, some db⟩)
        ⟨⟨h.distinct, h.wellFormed, fun _ => h.resolved⟩, rfl⟩
      rwa [hd] at hkept
    obtain ⟨d, enforced', saved'⟩ := d
    obtain ⟨rfl, -⟩ := hflags
    exact .inr ⟨d, hrun, hsound.1.resolved rfl, hsound.1.distinct, hsound.1.rows⟩
  · exact .inl ⟨e, hrun⟩

/-- A fresh database is valid. -/
theorem validDb_fresh : ValidDb (withDefaults (fun _ => []) 0) where
  resolved t := by cases t <;> decide
  distinct t := by cases t <;> decide
  wellFormed t r hr := by
    cases t with
    | plannerSettings => trivial
    | _ => cases hr

/-- A backup with two characters. -/
def twoCharacters (id id' : String) : Js :=
  .obj [("schemaVersion", .num 4), ("characters", .arr
    [.obj [("id", .str id), ("name", .str "Kaisinel")],
      .obj [("id", .str id'), ("name", .str "Asmodia")]])]

def freshConn : Conn := ⟨withDefaults (fun _ => []) 0, true, none⟩

/-- On a fresh database an import of two characters of one id changes nothing,
and one of two ids is stored. -/
theorem importUserBackup_atomic_duplicate :
    (∃ e, importUserBackup (twoCharacters "c1" "c1") 1 freshConn = (.error e, freshConn)) ∧
      ∃ db, importUserBackup (twoCharacters "c1" "c2") 1 freshConn =
        (.ok (), { freshConn with db := db }) ∧ ValidDb db ∧ (db .appCharacter).length = 2 := by
  constructor
  · have hthrows : (importUserBackup (twoCharacters "c1" "c1") 1 freshConn).1.isOk = false := by
      decide +kernel
    rcases importUserBackup_atomic (c := freshConn) rfl rfl validDb_fresh
      (twoCharacters "c1" "c1") 1 with herror | ⟨db, hrun, -⟩
    · exact herror
    · rw [hrun] at hthrows
      cases hthrows
  · have hreturns : (importUserBackup (twoCharacters "c1" "c2") 1 freshConn).1.isOk = true := by
      decide +kernel
    have hstored : ((importUserBackup (twoCharacters "c1" "c2") 1 freshConn).2.db
        .appCharacter).length = 2 := by decide +kernel
    rcases importUserBackup_atomic (c := freshConn) rfl rfl validDb_fresh
      (twoCharacters "c1" "c2") 1 with ⟨e, hrun⟩ | ⟨db, hrun, hvalid⟩
    · rw [hrun] at hreturns
      cases hreturns
    · rw [hrun] at hstored
      exact ⟨db, hrun, hvalid, hstored⟩

end Hub
