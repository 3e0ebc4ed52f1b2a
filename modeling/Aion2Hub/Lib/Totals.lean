/-
Aion2Hub/Lib/Totals.lean

Totals by key: the sum of each group of a list, and a list of totals that is
filled entry by entry.
-/
import Mathlib.Algebra.BigOperators.Group.List.Basic
import Mathlib.Data.List.Nodup
import Mathlib.Tactic.Common

variable {ι κ M : Type} [AddCommMonoid M] [DecidableEq κ]

/-! ### Groups -/

/-- The sum over the elements with a key. -/
def groupSum (key : ι → κ) (g : ι → M) (k : κ) (l : List ι) : M :=
  ((l.filter fun i => key i = k).map g).sum

section

variable {key : ι → κ} {g : ι → M} {k : κ} {i : ι} {l : List ι}

@[simp] theorem groupSum_nil : groupSum key g k [] = 0 := rfl

theorem groupSum_cons_of_eq (h : key i = k) : groupSum key g k (i :: l) = g i + groupSum key g k l := by
  have hfilter : (i :: l).filter (fun i => key i = k) = i :: l.filter fun i => key i = k :=
    List.filter_cons_of_pos (decide_eq_true h)
  rw [groupSum, hfilter, List.map_cons, List.sum_cons]
  rfl

theorem groupSum_cons_of_ne (h : key i ≠ k) : groupSum key g k (i :: l) = groupSum key g k l := by
  rw [groupSum, List.filter_cons_of_neg (by simpa using h)]
  rfl

theorem groupSum_append (l l' : List ι) :
    groupSum key g k (l ++ l') = groupSum key g k l + groupSum key g k l' := by
  rw [groupSum, List.filter_append, List.map_append, List.sum_append]
  rfl

theorem groupSum_eq_zero (h : ∀ i ∈ l, key i ≠ k) : groupSum key g k l = 0 := by
  have hnone : l.filter (fun i => key i = k) = [] := by
    apply List.filter_eq_nil_iff.mpr
    intro i hi
    simpa using h i hi
  rw [groupSum, hnone]
  rfl

/-- An element counts in exactly one of the groups. -/
theorem sum_groupSum_cons {keys : List κ} (hkeys : keys.Nodup) (hi : key i ∈ keys) :
    (keys.map fun k => groupSum key g k (i :: l)).sum =
      g i + (keys.map fun k => groupSum key g k l).sum := by
  induction keys with
  | nil => exact absurd hi List.not_mem_nil
  | cons k keys ih =>
      obtain ⟨hk, hkeys⟩ := List.nodup_cons.mp hkeys
      rw [List.map_cons, List.sum_cons, List.map_cons, List.sum_cons]
      by_cases heq : key i = k
      · have hothers : ∀ k' ∈ keys, groupSum key g k' (i :: l) = groupSum key g k' l := by
          intro k' hk'
          apply groupSum_cons_of_ne
          intro heq'
          exact hk (heq ▸ heq' ▸ hk')
        rw [groupSum_cons_of_eq heq, List.map_congr_left hothers, add_assoc]
      · have hrest := (List.mem_cons.mp hi).resolve_left heq
        rw [groupSum_cons_of_ne heq, ih hkeys hrest, add_left_comm]

/-- The groups of distinct keys that cover a list add up to its sum. -/
theorem sum_groupSum {keys : List κ} (hkeys : keys.Nodup) (hcover : ∀ i ∈ l, key i ∈ keys) :
    (keys.map fun k => groupSum key g k l).sum = (l.map g).sum := by
  induction l with
  | nil =>
      have hzero : keys.map (fun k => groupSum key g k []) = keys.map fun _ => (0 : M) := rfl
      rw [hzero, List.map_const', List.sum_replicate, nsmul_zero]
      rfl
  | cons i l ih =>
      obtain ⟨hi, hl⟩ := List.forall_mem_cons.mp hcover
      rw [sum_groupSum_cons hkeys hi, ih hl, List.map_cons, List.sum_cons]

/-- The groups of distinct keys add up to the sum of what they cover. -/
theorem sum_groupSum_filter {keys : List κ} (hkeys : keys.Nodup) :
    (keys.map fun k => groupSum key g k l).sum = ((l.filter fun i => key i ∈ keys).map g).sum := by
  rw [← sum_groupSum (l := l.filter fun i => key i ∈ keys) hkeys
    fun i hi => of_decide_eq_true (List.mem_filter.mp hi).2]
  apply congrArg List.sum
  apply List.map_congr_left
  intro k hk
  rw [groupSum, groupSum, List.filter_filter]
  congr 2
  apply List.filter_congr
  intro i _
  by_cases h : key i = k
  · simp [h, hk]
  · simp [h]

end

/-! ### Lists of totals -/

/-- Add to the total of a key; a new key comes last. -/
def addTo (k : κ) (x : M) : List (κ × M) → List (κ × M)
  | [] => [(k, 0 + x)]
  | p :: totals => if p.1 = k then (p.1, p.2 + x) :: totals else p :: addTo k x totals

/-- Add the entries one after the other. -/
def addAll (totals l : List (κ × M)) : List (κ × M) := l.foldl (fun totals p => addTo p.1 p.2 totals) totals

/-- The totals of a list of entries. -/
structure TotalsOf (l : List (κ × M)) (totals : List (κ × M)) : Prop where
  nodup : (totals.map Prod.fst).Nodup
  keys : ∀ k, k ∈ totals.map Prod.fst ↔ k ∈ l.map Prod.fst
  total : ∀ p ∈ totals, p.2 = groupSum Prod.fst Prod.snd p.1 l

theorem TotalsOf.nil : TotalsOf ([] : List (κ × M)) [] :=
  ⟨List.nodup_nil, fun _ => Iff.rfl, fun _ hp => absurd hp List.not_mem_nil⟩

theorem keys_addTo (k : κ) (x : M) (totals : List (κ × M)) :
    (addTo k x totals).map Prod.fst =
      if k ∈ totals.map Prod.fst then totals.map Prod.fst else totals.map Prod.fst ++ [k] := by
  induction totals with
  | nil => rfl
  | cons p totals ih =>
      rw [addTo]
      by_cases hp : p.1 = k
      · simp [hp]
      · have hp' : k ≠ p.1 := fun h => hp h.symm
        rw [if_neg hp, List.map_cons, ih]
        by_cases hk : k ∈ totals.map Prod.fst
        · simp [hk, hp']
        · rw [if_neg hk, if_neg (by simpa [hp'] using hk)]
          rfl

/-- The totals after one more entry. -/
theorem mem_addTo {k : κ} {x : M} {totals : List (κ × M)} (h : (totals.map Prod.fst).Nodup)
    {p : κ × M} (hp : p ∈ addTo k x totals) :
    (p.1 ≠ k ∧ p ∈ totals) ∨ (p.1 = k ∧ ∃ t, p.2 = t + x ∧
      ((k, t) ∈ totals ∨ k ∉ totals.map Prod.fst ∧ t = 0)) := by
  induction totals with
  | nil =>
      obtain rfl := List.mem_singleton.mp hp
      exact .inr ⟨rfl, 0, rfl, .inr ⟨List.not_mem_nil, rfl⟩⟩
  | cons q totals ih =>
      obtain ⟨hq, hrest⟩ := List.nodup_cons.mp h
      rw [addTo] at hp
      by_cases hk : q.1 = k
      · rw [if_pos hk] at hp
        rcases List.mem_cons.mp hp with rfl | hmem
        · exact .inr ⟨hk, q.2, rfl, .inl (hk ▸ List.mem_cons_self)⟩
        · have hne : p.1 ≠ k := fun heq => hq (hk ▸ heq ▸ List.mem_map_of_mem hmem)
          exact .inl ⟨hne, List.mem_cons_of_mem q hmem⟩
      · rw [if_neg hk] at hp
        rcases List.mem_cons.mp hp with rfl | hmem
        · exact .inl ⟨hk, List.mem_cons_self⟩
        · rcases ih hrest hmem with ⟨hne, hold⟩ | ⟨heq, t, ht, hold | ⟨hnew, hzero⟩⟩
          · exact .inl ⟨hne, List.mem_cons_of_mem q hold⟩
          · exact .inr ⟨heq, t, ht, .inl (List.mem_cons_of_mem q hold)⟩
          · refine .inr ⟨heq, t, ht, .inr ⟨?_, hzero⟩⟩
            intro hmem'
            rcases List.mem_cons.mp hmem' with heq' | hold
            · exact hk heq'.symm
            · exact hnew hold

/-- One more entry keeps the totals. -/
theorem TotalsOf.concat {l totals : List (κ × M)} (h : TotalsOf l totals) (k : κ) (x : M) :
    TotalsOf (l ++ [(k, x)]) (addTo k x totals) := by
  have hkeys := keys_addTo k x totals
  refine ⟨?_, ?_, ?_⟩
  · rw [hkeys]
    split
    · exact h.nodup
    · rename_i hk
      apply List.nodup_append.mpr
      refine ⟨h.nodup, List.nodup_singleton k, ?_⟩
      intro a ha b hb hab
      obtain rfl := List.mem_singleton.mp hb
      exact hk (hab ▸ ha)
  · intro k'
    rw [hkeys, List.map_append, List.mem_append, ← h.keys k']
    split
    · rename_i hk
      simp only [List.map_cons, List.map_nil, List.mem_singleton]
      exact ⟨.inl, fun hor => hor.elim id fun heq => heq ▸ hk⟩
    · rw [List.mem_append]
      rfl
  · intro p hp
    rw [groupSum_append]
    rcases mem_addTo h.nodup hp with ⟨hne, hold⟩ | ⟨heq, t, ht, hold⟩
    · rw [groupSum_cons_of_ne (fun hk => hne hk.symm), groupSum_nil, add_zero]
      exact h.total p hold
    · have hone : groupSum Prod.fst Prod.snd k [(k, x)] = x := by
        show (([(k, x)].filter fun i => i.1 = k).map Prod.snd).sum = x
        simp
      rw [ht, heq, hone]
      congr 1
      rcases hold with hold | ⟨hnew, rfl⟩
      · exact h.total (k, t) hold
      · symm
        apply groupSum_eq_zero
        intro q hq hqk
        exact hnew ((h.keys k).mpr (hqk ▸ List.mem_map_of_mem hq))

/-- Filling a list of totals entry by entry. -/
theorem TotalsOf.append {l totals : List (κ × M)} (h : TotalsOf l totals) (l' : List (κ × M)) :
    TotalsOf (l ++ l') (addAll totals l') := by
  induction l' generalizing l totals with
  | nil =>
      rw [List.append_nil]
      exact h
  | cons p l' ih =>
      have hstep := ih (h.concat p.1 p.2)
      rw [List.append_assoc] at hstep
      exact hstep

/-- The totals add up to the sum of all entries. -/
theorem TotalsOf.sum_eq {l totals : List (κ × M)} (h : TotalsOf l totals) :
    (totals.map Prod.snd).sum = (l.map Prod.snd).sum := by
  have hcover : ∀ p ∈ l, p.1 ∈ totals.map Prod.fst := fun p hp =>
    (h.keys p.1).mpr (List.mem_map_of_mem hp)
  have hgroups : totals.map Prod.snd =
      (totals.map Prod.fst).map fun k => groupSum Prod.fst Prod.snd k l := by
    rw [List.map_map]
    exact List.map_congr_left h.total
  rw [hgroups, sum_groupSum h.nodup hcover]
