/-
Aion2Hub/Lib/Query.lean

What ORDER BY yields: the rows sorted, so that the first of them is before all
others.
-/
import Mathlib.Data.String.Basic
import Aion2Hub.Lib.Sql

namespace Sql

variable {ρ κ : Type}

/-- Any two rows compare, and comparing is transitive. -/
structure IsOrder (before : ρ → ρ → Bool) : Prop where
  total : ∀ a b, before a b = true ∨ before b a = true
  trans : ∀ a b c, before a b = true → before b c = true → before a c = true

variable {before next : ρ → ρ → Bool} {rows : List ρ} {a b : ρ}

theorem IsOrder.sorted (h : IsOrder before) :
    (orderBy before rows).Pairwise fun a b => before a b = true := by
  have htotal : Std.Total fun a b => before a b = true := ⟨h.total⟩
  have htrans : IsTrans ρ fun a b => before a b = true := ⟨h.trans⟩
  exact List.pairwise_insertionSort _ rows

theorem IsOrder.refl (h : IsOrder before) (a : ρ) : before a a = true := (h.total a a).elim id id

/-- The first row of a query is one of the rows, and before all of them. -/
theorem IsOrder.head?_eq_some (h : IsOrder before) (ha : (orderBy before rows).head? = some a) :
    a ∈ rows ∧ ∀ b ∈ rows, before a b = true := by
  have hsorted : (orderBy before rows).Pairwise fun a b => before a b = true := h.sorted
  have hperm := orderBy_perm before rows
  cases hrows : orderBy before rows with
  | nil =>
      rw [hrows] at ha
      cases ha
  | cons first rest =>
      rw [hrows] at ha hsorted hperm
      cases ha
      refine ⟨hperm.mem_iff.mp List.mem_cons_self, fun b hb => ?_⟩
      rcases List.mem_cons.mp (hperm.mem_iff.mpr hb) with rfl | hrest
      · exact h.refl b
      · exact (List.pairwise_cons.mp hsorted).1 b hrest

/-- So is the first of the rows that satisfy a condition. -/
theorem IsOrder.find?_eq_some (h : IsOrder before) {p : ρ → Bool}
    (ha : (orderBy before rows).find? p = some a) :
    a ∈ rows ∧ p a = true ∧ ∀ b ∈ rows, p b = true → before a b = true := by
  obtain ⟨hpa, front, back, heq, hfront⟩ := List.find?_eq_some_iff_append.mp ha
  have hmem : ∀ b, b ∈ rows ↔ b ∈ front ++ a :: back := fun b => by
    rw [← heq, (orderBy_perm before rows).mem_iff]
  refine ⟨(hmem a).mpr (by simp), hpa, fun b hb hpb => ?_⟩
  have hsorted : (front ++ a :: back).Pairwise fun a b => before a b = true := heq ▸ h.sorted
  rcases List.mem_append.mp ((hmem b).mp hb) with hbefore | hafter
  · have hnot := hfront b hbefore
    rw [hpb] at hnot
    cases hnot
  · rcases List.mem_cons.mp hafter with rfl | hback
    · exact h.refl b
    · exact (List.pairwise_cons.mp (List.pairwise_append.mp hsorted).2.1).1 b hback

theorem isOrder_anyOrder : IsOrder (anyOrder : ρ → ρ → Bool) :=
  ⟨fun _ _ => .inl rfl, fun _ _ _ _ _ => rfl⟩

section

variable [LinearOrder κ] [BEq κ] [LawfulBEq κ] {f : ρ → κ}

theorem asc_iff : asc f next a b = true ↔ f a < f b ∨ f a = f b ∧ next a b = true := by
  rw [asc, Bool.or_eq_true, Bool.and_eq_true, decide_eq_true_iff, beq_iff_eq]

theorem desc_iff : desc f next a b = true ↔ f b < f a ∨ f a = f b ∧ next a b = true := by
  rw [desc, Bool.or_eq_true, Bool.and_eq_true, decide_eq_true_iff, beq_iff_eq]

@[simp] theorem asc_anyOrder_iff : asc f anyOrder a b = true ↔ f a ≤ f b := by
  rw [asc_iff, le_iff_lt_or_eq]
  simp [anyOrder]

@[simp] theorem desc_anyOrder_iff : desc f anyOrder a b = true ↔ f b ≤ f a := by
  rw [desc_iff, le_iff_lt_or_eq, @eq_comm κ (f b)]
  simp [anyOrder]

theorem IsOrder.asc (h : IsOrder next) : IsOrder (Sql.asc f next) where
  total := fun a b => by
    rw [asc_iff, asc_iff]
    rcases lt_trichotomy (f a) (f b) with hlt | heq | hgt
    · exact .inl (.inl hlt)
    · exact (h.total a b).imp (fun hab => .inr ⟨heq, hab⟩) fun hba => .inr ⟨heq.symm, hba⟩
    · exact .inr (.inl hgt)
  trans := fun a b c => by
    rw [asc_iff, asc_iff, asc_iff]
    rintro (hab | ⟨hab, nab⟩) (hbc | ⟨hbc, nbc⟩)
    · exact .inl (hab.trans hbc)
    · exact .inl (hbc ▸ hab)
    · exact .inl (hab ▸ hbc)
    · exact .inr ⟨hab.trans hbc, h.trans a b c nab nbc⟩

theorem IsOrder.desc (h : IsOrder next) : IsOrder (Sql.desc f next) where
  total := fun a b => by
    rw [desc_iff, desc_iff]
    rcases lt_trichotomy (f a) (f b) with hlt | heq | hgt
    · exact .inr (.inl hlt)
    · exact (h.total a b).imp (fun hab => .inr ⟨heq, hab⟩) fun hba => .inr ⟨heq.symm, hba⟩
    · exact .inl (.inl hgt)
  trans := fun a b c => by
    rw [desc_iff, desc_iff, desc_iff]
    rintro (hab | ⟨hab, nab⟩) (hbc | ⟨hbc, nbc⟩)
    · exact .inl (hbc.trans hab)
    · exact .inl (hbc ▸ hab)
    · exact .inl (hab ▸ hbc)
    · exact .inr ⟨hab.trans hbc, h.trans a b c nab nbc⟩

/-- The latest row is the last one, if the rows come in the order of time. -/
theorem head?_orderBy_desc {ρ κ : Type} [LinearOrder κ] [BEq κ] [LawfulBEq κ] {f : ρ → κ} {rows : List ρ}
    (h : rows.Pairwise fun a b => f a < f b) :
    (orderBy (Sql.desc f anyOrder) rows).head? = rows.getLast? := by
  cases hlast : rows.getLast? with
  | none =>
      obtain rfl := List.getLast?_eq_none_iff.mp hlast
      rfl
  | some last =>
      obtain ⟨init, rfl⟩ := List.getLast?_eq_some_iff.mp hlast
      have hne : orderBy (Sql.desc f anyOrder) (init ++ [last]) ≠ [] := by
        intro hnil
        have hlength := (orderBy_perm (Sql.desc f anyOrder) (init ++ [last])).length_eq
        rw [hnil] at hlength
        simp at hlength
      have hfirst := List.head?_eq_some_head hne
      obtain ⟨hmem, hbefore⟩ := (isOrder_anyOrder.desc (f := f)).head?_eq_some hfirst
      rw [hfirst]
      rcases List.mem_append.mp hmem with hinit | hend
      · have hlt := (List.pairwise_append.mp h).2.2 _ hinit last List.mem_cons_self
        have hle := desc_anyOrder_iff.mp (hbefore last (by simp))
        exact absurd hlt (not_lt.mpr hle)
      · rw [List.mem_singleton.mp hend]

end

end Sql
