/-
Aion2Hub/Lib/Greedy.lean

Choosing as many things as a budget allows.

`pick` walks a list and takes whatever still fits.  On a list in the order of
the weights it takes a prefix: once a thing does not fit, no later one does
(`pick_eq_take`).  The first things of such a list weigh the least among all
choices of their number (`sum_take_le`), so no choice that fits has more
elements than the prefix, and none of the same number weighs less
(`best_pick`).
-/
import Mathlib.Algebra.Order.BigOperators.Group.List
import Mathlib.Data.List.Sort
import Mathlib.Tactic.Linarith

namespace Greedy

variable {ι M : Type} [AddCommMonoid M]

/-- The sum of the weights. -/
def total (w : ι → M) (l : List ι) : M := (l.map w).sum

@[simp] theorem total_nil (w : ι → M) : total w [] = 0 := rfl

@[simp] theorem total_cons (w : ι → M) (a : ι) (l : List ι) :
    total w (a :: l) = w a + total w l := by
  simp [total]

/-- Take what fits on top of what is taken. -/
def pick (w : ι → M) (fits : M → Bool) : M → List ι → List ι
  | _, [] => []
  | sum, a :: l => if fits (sum + w a) then a :: pick w fits (sum + w a) l else pick w fits sum l

variable {w : ι → M} {fits : M → Bool} {l s : List ι}

@[simp] theorem total_append (w : ι → M) (l l' : List ι) :
    total w (l ++ l') = total w l + total w l' := by
  simp [total]

/-- One more thing at the end. -/
theorem pick_append_singleton (sum : M) (l : List ι) (a : ι) :
    pick w fits sum (l ++ [a]) = pick w fits sum l ++
      if fits (sum + total w (pick w fits sum l) + w a) then [a] else [] := by
  induction l generalizing sum with
  | nil => simp [pick]
  | cons b l ih =>
      rw [List.cons_append]
      unfold pick
      split
      · rw [ih, total_cons, List.cons_append, ← add_assoc]
      · exact ih sum

/-- A loop that carries the things taken so far, and keeps account of their
weight in a state of its own, computes `pick`. -/
theorem foldl_eq_pick {σ : Type} {account : M → σ} {step : List ι × σ → ι → List ι × σ}
    (hstep : ∀ p a q, l = p ++ a :: q →
      step (pick w fits 0 p, account (total w (pick w fits 0 p))) a =
        if fits (total w (pick w fits 0 p) + w a) then
          (pick w fits 0 p ++ [a], account (total w (pick w fits 0 p) + w a))
        else (pick w fits 0 p, account (total w (pick w fits 0 p)))) :
    l.foldl step ([], account 0) =
      (pick w fits 0 l, account (total w (pick w fits 0 l))) := by
  -- `p` is the part of the list that the loop has seen
  have hloop : ∀ q p, l = p ++ q →
      q.foldl step (pick w fits 0 p, account (total w (pick w fits 0 p))) =
        (pick w fits 0 l, account (total w (pick w fits 0 l))) := by
    intro q
    induction q with
    | nil =>
        rintro p rfl
        rw [List.append_nil, List.foldl_nil]
    | cons a q ih =>
        intro p hl
        have hnext := ih (p ++ [a]) (by rw [hl, List.append_assoc]; rfl)
        rw [List.foldl_cons, hstep p a q hl, ← hnext, pick_append_singleton, zero_add]
        by_cases ha : fits (total w (pick w fits 0 p) + w a) = true
        · rw [if_pos ha, if_pos ha, total_append, total_cons, total_nil, add_zero]
        · rw [if_neg ha, if_neg ha, List.append_nil]
  have hstart := hloop l [] rfl
  rwa [pick, total_nil] at hstart

theorem pick_sublist (sum : M) (l : List ι) : (pick w fits sum l).Sublist l := by
  induction l generalizing sum with
  | nil => exact List.Sublist.refl _
  | cons a l ih =>
      unfold pick
      split
      · exact (ih _).cons_cons a
      · exact (ih _).cons a

/-- Where nothing fits, nothing is taken. -/
theorem pick_eq_nil {sum : M} (h : ∀ a ∈ l, fits (sum + w a) = false) : pick w fits sum l = [] := by
  induction l with
  | nil => rfl
  | cons a l ih =>
      rw [pick, h a List.mem_cons_self, if_neg (by simp)]
      exact ih fun b hb => h b (List.mem_cons_of_mem a hb)

/-- What is taken fits. -/
theorem fits_pick {sum : M} (h : fits sum = true) (l : List ι) :
    fits (sum + total w (pick w fits sum l)) = true := by
  induction l generalizing sum with
  | nil => simpa [pick] using h
  | cons a l ih =>
      unfold pick
      split
      · rename_i ha
        rw [total_cons, ← add_assoc]
        exact ih ha
      · exact ih h

variable [LinearOrder M] [IsOrderedAddMonoid M]

/-- A choice from `l` that fits, with as many elements as possible and, among
those, of the least weight. -/
structure Best (w : ι → M) (fits : M → Bool) (l picked : List ι) : Prop where
  chosen : picked.Subperm l
  fitting : fits (total w picked) = true
  most : ∀ s : List ι, s.Subperm l → fits (total w s) = true → s.length ≤ picked.length
  least : ∀ s : List ι, s.Subperm l → s.length = picked.length → total w picked ≤ total w s

/-- From a list in the order of the weights a prefix is taken, and the next
thing does not fit. -/
theorem pick_eq_take (hfits : ∀ x y, x ≤ y → fits y = true → fits x = true)
    (hsort : l.Pairwise fun a b => w a ≤ w b) (sum : M) :
    ∃ k, pick w fits sum l = l.take k ∧
      (k < l.length → fits (sum + total w (l.take (k + 1))) = false) := by
  induction l generalizing sum with
  | nil => exact ⟨0, rfl, fun h => absurd h (Nat.not_lt_zero 0)⟩
  | cons a l ih =>
      obtain ⟨hle, hsort⟩ := List.pairwise_cons.mp hsort
      by_cases ha : fits (sum + w a) = true
      · obtain ⟨k, hk, hnext⟩ := ih hsort (sum + w a)
        refine ⟨k + 1, ?_, fun hlt => ?_⟩
        · rw [pick, if_pos ha, hk, List.take_succ_cons]
        · rw [List.take_succ_cons, total_cons, ← add_assoc]
          exact hnext (Nat.lt_of_succ_lt_succ hlt)
      · refine ⟨0, ?_, fun _ => ?_⟩
        · -- the others weigh at least as much
          have hrest : ∀ b ∈ l, fits (sum + w b) = false := by
            intro b hb
            by_contra hb'
            exact ha (hfits _ _ (add_le_add_right (hle b hb) sum) (by simpa using hb'))
          rw [pick, if_neg ha, pick_eq_nil hrest]
          rfl
        · simpa using ha

/-- So whatever is taken on the way through such a list is a prefix of it. -/
theorem pick_prefix_eq_take (hfits : ∀ x y, x ≤ y → fits y = true → fits x = true)
    (hsort : l.Pairwise fun a b => w a ≤ w b) {p : List ι} (hp : p <+: l) (sum : M) :
    ∃ k, pick w fits sum p = l.take k := by
  obtain ⟨q, rfl⟩ := hp
  obtain ⟨k, hk, -⟩ := pick_eq_take hfits (List.pairwise_append.mp hsort).1 sum
  refine ⟨min k p.length, ?_⟩
  rw [hk, List.take_append_of_le_length (Nat.min_le_right k p.length), List.take_eq_take_iff]
  omega

/-- The first things of a sorted list weigh the least, among its sublists of
their number. -/
theorem sum_take_le_of_sublist {ws xs : List M} (hsort : ws.Pairwise (· ≤ ·))
    (h : xs.Sublist ws) : (ws.take xs.length).sum ≤ xs.sum := by
  induction ws generalizing xs with
  | nil => simp [List.sublist_nil.mp h]
  | cons a ws ih =>
      obtain ⟨hle, htail⟩ := List.pairwise_cons.mp hsort
      cases xs with
      | nil => simp
      | cons x xs =>
          rw [List.length_cons, List.take_succ_cons, List.sum_cons, List.sum_cons]
          rcases List.sublist_cons_iff.mp h with h | ⟨r, hr, h⟩
          · -- the sublist skips `a`, which weighs no more than what it starts with
            have hx : a ≤ x := hle x (h.subset List.mem_cons_self)
            exact add_le_add hx (ih htail ((List.sublist_cons_self x xs).trans h))
          · obtain ⟨rfl, rfl⟩ := List.cons.inj hr
            exact add_le_add_right (ih htail h) x

theorem sum_take_le (hsort : l.Pairwise fun a b => w a ≤ w b) (h : s.Subperm l) :
    total w (l.take s.length) ≤ total w s := by
  have hl : (l.map w).Pairwise (· ≤ ·) := List.pairwise_map.mpr hsort
  have hmap : (s.map w).Subperm (l.map w) := by
    obtain ⟨s', hs', hsub⟩ := h
    exact ⟨s'.map w, hs'.map w, hsub.map w⟩
  let sorted : List M := (s.map w).insertionSort (· ≤ ·)
  have hperm : sorted.Perm (s.map w) := List.perm_insertionSort _ _
  have hsub : sorted.Sublist (l.map w) :=
    List.sublist_of_subperm_of_pairwise (hperm.subperm.trans hmap)
      (List.pairwise_insertionSort _ _) hl
  have hlen : sorted.length = s.length := by rw [hperm.length_eq, List.length_map]
  calc total w (l.take s.length) = ((l.map w).take sorted.length).sum := by
        rw [total, List.map_take, hlen]
    _ ≤ sorted.sum := sum_take_le_of_sublist hl hsub
    _ = total w s := hperm.sum_eq

/-- A longer prefix weighs at least as much. -/
theorem total_take_mono (hw : ∀ a ∈ l, 0 ≤ w a) {m n : ℕ} (h : m ≤ n) :
    total w (l.take m) ≤ total w (l.take n) := by
  obtain ⟨k, rfl⟩ := Nat.exists_eq_add_of_le h
  rw [List.take_add, total, total, List.map_append, List.sum_append]
  refine le_add_of_nonneg_right (List.sum_nonneg fun x hx => ?_)
  obtain ⟨a, ha, rfl⟩ := List.mem_map.mp hx
  exact hw a (List.mem_of_mem_drop (List.mem_of_mem_take ha))

/-- **Picking from a sorted list is best.** -/
theorem best_pick (hfits : ∀ x y, x ≤ y → fits y = true → fits x = true) (h₀ : fits 0 = true)
    (hw : ∀ a ∈ l, 0 ≤ w a) (hsort : l.Pairwise fun a b => w a ≤ w b) :
    Best w fits l (pick w fits 0 l) := by
  obtain ⟨k, hk, hnext⟩ := pick_eq_take hfits hsort 0
  refine ⟨(pick_sublist 0 l).subperm, ?_, fun s hs hfit => ?_, fun s hs hlen => ?_⟩
  · have htotal := fits_pick (w := w) h₀ l
    rwa [zero_add] at htotal
  · by_contra hmore
    rw [not_le, hk, List.length_take] at hmore
    have hlt : k < l.length := by
      have := hs.length_le
      omega
    have hle : total w (l.take (k + 1)) ≤ total w s :=
      (total_take_mono hw (by omega)).trans (sum_take_le hsort hs)
    have hnot := hnext hlt
    rw [zero_add, hfits _ _ hle hfit] at hnot
    cases hnot
  · have hprefix := sum_take_le hsort hs
    have hshort : l.take s.length = l.take k := by
      rw [hlen, hk, List.length_take]
      rcases Nat.le_total k l.length with hkl | hkl
      · rw [Nat.min_eq_left hkl]
      · rw [Nat.min_eq_right hkl, List.take_of_length_le hkl, List.take_of_length_le le_rfl]
    rwa [hk, ← hshort]

omit [IsOrderedAddMonoid M] in
/-- The order of the things does not matter. -/
theorem Best.of_perm {l' picked : List ι} (h : Best w fits l picked) (hperm : l.Perm l') :
    Best w fits l' picked :=
  ⟨hperm.subperm_left.mp h.chosen, h.fitting, fun s hs => h.most s (hperm.subperm_left.mpr hs),
    fun s hs => h.least s (hperm.subperm_left.mpr hs)⟩

end Greedy
