/-
Aion2Hub/Lib/Fades.lean

Programs that only take rows away from a table.

`Fades t view m` says that the rows of `t` after `m`, as far as `view` shows
them, are some of the rows before, in their order.  A DELETE does that to every
table, also where it sets a column to NULL that `view` does not show; so do the
statements about other tables.
-/
import Aion2Hub.Lib.Frame

namespace Sql

variable {T : Type} {Row : T → Type} {κ : Type}

/-- The rows of `t` only become fewer, as far as `view` shows them. -/
structure Fades {α : Type} (t : T) (view : Row t → κ) (m : Exec (Conn Row) α) : Prop where
  sublist : ∀ c, (((m c).2.db t).map view).Sublist ((c.db t).map view)

variable {S : Schema T Row} {α β : Type} {t : T} {view : Row t → κ} {m : Exec (Conn Row) α}
  {f : α → Exec (Conn Row) β}

/-! ### Programs -/

/-- A program that leaves the table takes nothing away. -/
theorem Leaves.fades {F : T → Prop} (h : Leaves F m) (ht : F t) : Fades t view m := by
  refine ⟨fun c => ?_⟩
  rw [h.same c t ht]

theorem Fades.pure {a : α} : Fades t view (Pure.pure a : Exec (Conn Row) α) :=
  ⟨fun _ => List.Sublist.refl _⟩

theorem Fades.throw {e : String} : Fades t view (Exec.throw e : Exec (Conn Row) α) :=
  ⟨fun _ => List.Sublist.refl _⟩

theorem Fades.ofOption {e : String} {o : Option α} :
    Fades t view (Exec.ofOption e o : Exec (Conn Row) α) := by
  cases o with
  | none => exact Fades.throw
  | some a => exact Fades.pure

theorem Fades.gets {g : Conn Row → α} : Fades t view (Exec.gets g) := ⟨fun _ => List.Sublist.refl _⟩

theorem Fades.bind (hm : Fades t view m) (hf : ∀ a, Fades t view (f a)) :
    Fades t view (m >>= f) := by
  refine ⟨fun c => ?_⟩
  have hfirst := hm.sublist c
  rcases h : m c with ⟨e | a, d⟩
  · rw [h] at hfirst
    rw [Exec.bind_of_error h]
    exact hfirst
  · rw [h] at hfirst
    rw [Exec.bind_of_ok h]
    exact ((hf a).sublist d).trans hfirst

theorem Fades.discard (hm : Fades t view m) : Fades t view m.discard :=
  hm.bind fun _ => Fades.pure

/-! ### Statements -/

/-- ON DELETE SET NULL does not touch what is shown. -/
theorem view_released (gone : T → List String)
    (hview : ∀ fk ∈ S.foreignKeys t, ∀ clear, fk.onDelete = .setNull clear →
      ∀ r, view (clear r) = view r) (r : Row t) :
    view ((S.foreignKeys t).foldl (ForeignKey.release gone) r) = view r := by
  have aux : ∀ l ⊆ S.foreignKeys t, ∀ r, view (l.foldl (ForeignKey.release gone) r) = view r := by
    intro l
    induction l with
    | nil => exact fun _ _ => rfl
    | cons fk l ih =>
        intro hl r
        have hfk := hl List.mem_cons_self
        rw [List.foldl_cons, ih fun _ h => hl (List.mem_cons_of_mem _ h)]
        unfold ForeignKey.release
        split
        · rfl
        · rename_i clear hclear
          split
          · exact hview fk hfk clear hclear r
          · rfl
  exact aux _ (List.Subset.refl _) r

/-- A DELETE, of whatever table, takes rows away. -/
theorem fades_delete [DecidableEq T] {t' : T} {p : Row t' → Bool}
    (hview : ∀ fk ∈ S.foreignKeys t, ∀ clear, fk.onDelete = .setNull clear →
      ∀ r, view (clear r) = view r) : Fades t view (S.delete t' p) := by
  refine ⟨fun c => ?_⟩
  show ((S.deleteDb c.foreignKeys c.db t' p t).map view).Sublist _
  unfold Schema.deleteDb
  split
  · unfold Schema.cascade
    rw [List.map_map]
    have hsame : view ∘ (fun r => (S.foreignKeys t).foldl
        (ForeignKey.release (S.spread c.db (S.keysWhere c.db t' p))) r) = view := by
      funext r
      exact view_released _ hview r
    rw [hsame]
    exact List.filter_sublist.map view
  · by_cases ht : t = t'
    · subst ht
      rw [Db.set_self]
      exact List.filter_sublist.map view
    · rw [Db.set_of_ne c.db ht]

end Sql
