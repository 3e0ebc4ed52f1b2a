/-
Aion2Hub/Lib/Aligned.lean

Lists that are related element by element (`List.Forall₂`): their elements,
their ends, their parts and their compositions.
-/
import Mathlib.Data.List.Forall2

namespace List

variable {α β γ : Type} {R : α → β → Prop} {l : List α} {l' : List β}

theorem Forall₂.exists_right (h : Forall₂ R l l') {x : α} (hx : x ∈ l) : ∃ y ∈ l', R x y := by
  induction h with
  | nil => exact absurd hx not_mem_nil
  | cons hxy _ ih =>
      rcases mem_cons.mp hx with rfl | hrest
      · exact ⟨_, mem_cons_self, hxy⟩
      · obtain ⟨y, hy, hR⟩ := ih hrest
        exact ⟨y, mem_cons_of_mem _ hy, hR⟩

theorem Forall₂.exists_left (h : Forall₂ R l l') {y : β} (hy : y ∈ l') : ∃ x ∈ l, R x y :=
  h.flip.exists_right hy

/-- Lists that are related element by element end alike. -/
theorem Forall₂.getLast? (h : Forall₂ R l l') : Option.Rel R l.getLast? l'.getLast? := by
  -- both ends are the heads of the reversed lists
  have hreverse : Forall₂ R l.reverse l'.reverse := rel_reverse h
  rw [getLast?_eq_head?_reverse, getLast?_eq_head?_reverse]
  generalize l.reverse = r, l'.reverse = r' at hreverse
  cases hreverse with
  | nil => exact .none
  | cons hr _ => exact .some hr

/-- Related lists, of which one is two lists in a row. -/
theorem Forall₂.append_left {l₁ l₂ : List α} (h : Forall₂ R (l₁ ++ l₂) l') :
    ∃ m₁ m₂, Forall₂ R l₁ m₁ ∧ Forall₂ R l₂ m₂ ∧ l' = m₁ ++ m₂ := by
  induction l₁ generalizing l' with
  | nil => exact ⟨[], l', .nil, h, rfl⟩
  | cons a l₁ ih =>
      cases h with
      | cons hab hrest =>
          obtain ⟨m₁, m₂, h₁, h₂, rfl⟩ := ih hrest
          exact ⟨_ :: m₁, m₂, .cons hab h₁, h₂, rfl⟩

theorem Forall₂.comp {S : β → γ → Prop} {Q : α → γ → Prop} {l'' : List γ} (h : Forall₂ R l l')
    (h' : Forall₂ S l' l'') (hcomp : ∀ a b e, R a b → S b e → Q a e) : Forall₂ Q l l'' := by
  induction h generalizing l'' with
  | nil =>
      cases h'
      exact .nil
  | cons hab _ ih =>
      cases h' with
      | cons hbe hrest => exact .cons (hcomp _ _ _ hab hbe) (ih hrest)

end List
