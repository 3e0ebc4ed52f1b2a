/-
Aion2Hub/Lib/OrderedMap.lean

Maps that keep their keys in the order in which they were first set, as the
JavaScript `Map` does: setting a known key replaces its value where it stands,
setting a new one appends.
-/
import Mathlib.Data.List.Nodup
import Mathlib.Tactic.Common

/-- The entries of a map, oldest key first. -/
abbrev OrderedMap (κ ν : Type) := List (κ × ν)

namespace OrderedMap

variable {κ ν : Type} [DecidableEq κ]

def keys (m : OrderedMap κ ν) : List κ := m.map Prod.fst

def values (m : OrderedMap κ ν) : List ν := m.map Prod.snd

def set (m : OrderedMap κ ν) (k : κ) (v : ν) : OrderedMap κ ν :=
  if k ∈ m.keys then m.map fun p => if p.1 = k then (k, v) else p else m ++ [(k, v)]

/-- Sets the entries one after the other. -/
def setAll (m l : OrderedMap κ ν) : OrderedMap κ ν := l.foldl (fun m p => m.set p.1 p.2) m

theorem setAll_append (m l l' : OrderedMap κ ν) : m.setAll (l ++ l') = (m.setAll l).setAll l' :=
  List.foldl_append

def delete (m : OrderedMap κ ν) (k : κ) : OrderedMap κ ν := m.filter fun p => p.1 ≠ k

/-- What holds of all entries and of a new one holds after it has been set. -/
theorem forall_set {P : κ × ν → Prop} {m : OrderedMap κ ν} (hm : ∀ p ∈ m, P p) {k : κ} {v : ν}
    (h : P (k, v)) : ∀ p ∈ m.set k v, P p := by
  intro p hp
  rw [set] at hp
  split at hp
  · obtain ⟨q, hq, rfl⟩ := List.mem_map.mp hp
    split
    · exact h
    · exact hm q hq
  · rcases List.mem_append.mp hp with hold | hnew
    · exact hm p hold
    · rw [List.mem_singleton.mp hnew]
      exact h

theorem forall_setAll {P : κ × ν → Prop} {m l : OrderedMap κ ν} (hm : ∀ p ∈ m, P p)
    (hl : ∀ p ∈ l, P p) : ∀ p ∈ m.setAll l, P p := by
  induction l generalizing m with
  | nil => exact hm
  | cons p l ih =>
      obtain ⟨hp, hrest⟩ := List.forall_mem_cons.mp hl
      exact ih (forall_set hm hp) hrest

/-! ### The keys -/

/-- Setting a known key leaves the keys alone. -/
theorem keys_set_of_mem {m : OrderedMap κ ν} {k : κ} (h : k ∈ m.keys) (v : ν) :
    (m.set k v).keys = m.keys := by
  rw [set, if_pos h, keys, keys, List.map_map]
  apply List.map_congr_left
  intro p _
  show (if p.1 = k then (k, v) else p).1 = p.1
  split
  · rename_i hp
    exact hp.symm
  · rfl

/-- A new key comes last. -/
theorem keys_set_of_notMem {m : OrderedMap κ ν} {k : κ} (h : k ∉ m.keys) (v : ν) :
    (m.set k v).keys = m.keys ++ [k] := by
  rw [set, if_neg h, keys, List.map_append]
  rfl

theorem nodup_set {m : OrderedMap κ ν} (h : m.keys.Nodup) (k : κ) (v : ν) :
    (m.set k v).keys.Nodup := by
  by_cases hk : k ∈ m.keys
  · rw [keys_set_of_mem hk]
    exact h
  · rw [keys_set_of_notMem hk]
    apply List.nodup_append.mpr
    refine ⟨h, List.nodup_singleton k, ?_⟩
    intro a ha b hb hab
    obtain rfl := List.mem_singleton.mp hb
    exact hk (hab ▸ ha)

theorem nodup_setAll {m : OrderedMap κ ν} (h : m.keys.Nodup) (l : OrderedMap κ ν) :
    (m.setAll l).keys.Nodup := by
  induction l generalizing m with
  | nil => exact h
  | cons p l ih => exact ih (nodup_set h p.1 p.2)

theorem eraseDups_of_nodup {l : List κ} (h : l.Nodup) : l.eraseDups = l := by
  induction l with
  | nil => rfl
  | cons a l ih =>
      obtain ⟨ha, hl⟩ := List.nodup_cons.mp h
      have hfilter : l.filter (fun b => !b == a) = l := by
        apply List.filter_eq_self.mpr
        intro b hb
        have hne : b ≠ a := fun hba => ha (hba ▸ hb)
        simp [hne]
      rw [List.eraseDups_cons, hfilter, ih hl]

/-- The keys are those of the old map and then the new ones, each where it came
first. -/
theorem keys_setAll {m : OrderedMap κ ν} (h : m.keys.Nodup) (l : OrderedMap κ ν) :
    (m.setAll l).keys = (m.keys ++ keys l).eraseDups := by
  induction l generalizing m with
  | nil =>
      have hnil : m.keys ++ keys ([] : OrderedMap κ ν) = m.keys := List.append_nil _
      rw [hnil, eraseDups_of_nodup h]
      rfl
  | cons p l ih =>
      have hstep : (m.setAll (p :: l)).keys = ((m.set p.1 p.2).keys ++ keys l).eraseDups :=
        ih (nodup_set h p.1 p.2)
      rw [hstep]
      by_cases hp : p.1 ∈ m.keys
      · have hremove : (p.1 :: keys l).removeAll m.keys = (keys l).removeAll m.keys := by
          apply List.filter_cons_of_neg
          simp [hp]
        rw [keys_set_of_mem hp, List.eraseDups_append]
        show _ = (m.keys ++ p.1 :: keys l).eraseDups
        rw [List.eraseDups_append, hremove]
      · rw [keys_set_of_notMem hp, List.append_assoc]
        rfl

/-! ### The values -/

theorem lookup_cons_eq (p : κ × ν) (m : OrderedMap κ ν) (k : κ) :
    List.lookup k (p :: m) = if k = p.1 then some p.2 else m.lookup k := by
  by_cases hk : k = p.1
  · rw [if_pos hk, hk]
    exact List.lookup_cons_self
  · rw [if_neg hk, List.lookup_cons, beq_false_of_ne hk]

theorem lookup_map_replace (m : OrderedMap κ ν) (k k' : κ) (v : ν) :
    (m.map fun p => if p.1 = k then (k, v) else p).lookup k' =
      if k' = k then (m.lookup k).map fun _ => v else m.lookup k' := by
  induction m with
  | nil => simp
  | cons p m ih =>
      rw [List.map_cons, lookup_cons_eq, lookup_cons_eq, lookup_cons_eq, ih]
      by_cases hp : p.1 = k
      · by_cases hk : k' = k <;> simp [hp, hk]
      · have hne : k ≠ p.1 := fun h => hp h.symm
        by_cases hk : k' = k <;> simp [hp, hk, hne]

theorem mem_keys_iff {m : OrderedMap κ ν} {k : κ} : k ∈ m.keys ↔ (m.lookup k).isSome = true := by
  rw [List.lookup_isSome_iff, keys, List.mem_map]
  simp only [beq_iff_eq]
  exact ⟨fun ⟨p, hp, h⟩ => ⟨p, hp, h.symm⟩, fun ⟨p, hp, h⟩ => ⟨p, hp, h.symm⟩⟩

/-- A key that has been set has the value it was set to, the others keep
theirs. -/
theorem lookup_set (m : OrderedMap κ ν) (k k' : κ) (v : ν) :
    (m.set k v).lookup k' = if k' = k then some v else m.lookup k' := by
  rw [set]
  by_cases hk : k ∈ m.keys
  · rw [if_pos hk, lookup_map_replace]
    obtain ⟨old, hold⟩ := Option.isSome_iff_exists.mp (mem_keys_iff.mp hk)
    rw [hold]
    rfl
  · have hnone : m.lookup k = none := by
      rw [← Option.not_isSome_iff_eq_none, ← mem_keys_iff]
      exact hk
    rw [if_neg hk, List.lookup_append]
    by_cases hkk : k' = k
    · rw [hkk, hnone, if_pos rfl, lookup_cons_eq, if_pos rfl]
      rfl
    · rw [if_neg hkk, lookup_cons_eq, if_neg hkk]
      exact Option.or_none

/-- The last value that a key was set to wins. -/
theorem lookup_setAll (m l : OrderedMap κ ν) (k : κ) :
    (m.setAll l).lookup k = (l.reverse.lookup k).or (m.lookup k) := by
  induction l generalizing m with
  | nil => rfl
  | cons p l ih =>
      have hstep : (m.setAll (p :: l)).lookup k = _ := ih (m.set p.1 p.2)
      rw [hstep, lookup_set, List.reverse_cons, List.lookup_append, Option.or_assoc, lookup_cons_eq]
      by_cases hk : k = p.1 <;> simp [hk]

/-- Without repeated keys the entries are what the map answers. -/
theorem mem_iff_lookup {m : OrderedMap κ ν} (h : m.keys.Nodup) {k : κ} {v : ν} :
    (k, v) ∈ m ↔ m.lookup k = some v := by
  induction m with
  | nil => simp
  | cons p m ih =>
      obtain ⟨hp, hm⟩ := List.nodup_cons.mp h
      rw [lookup_cons_eq, List.mem_cons]
      by_cases hk : k = p.1
      · have hnot : (k, v) ∉ m := fun hmem => hp (hk ▸ List.mem_map_of_mem hmem)
        rw [if_pos hk, Option.some_inj, or_iff_left hnot, Prod.ext_iff]
        exact ⟨fun heq => heq.2.symm, fun heq => ⟨hk, heq.symm⟩⟩
      · have hne : (k, v) ≠ p := fun heq => hk (congrArg Prod.fst heq)
        simp [hk, hne, ih hm]

/-- Setting entries with new keys appends them. -/
theorem setAll_of_nodup {m l : OrderedMap κ ν} (h : (m.keys ++ keys l).Nodup) :
    m.setAll l = m ++ l := by
  induction l generalizing m with
  | nil => exact (List.append_nil m).symm
  | cons p l ih =>
      have hp : p.1 ∉ m.keys := fun hmem =>
        (List.nodup_append.mp h).2.2 p.1 hmem p.1 List.mem_cons_self rfl
      have hset : m.set p.1 p.2 = m ++ [p] := if_neg hp
      have hkeys : (keys (m ++ [p]) ++ keys l).Nodup := by
        rw [keys, List.map_append, List.append_assoc]
        exact h
      have hstep : m.setAll (p :: l) = (m.set p.1 p.2).setAll l := rfl
      rw [hstep, hset, ih hkeys, List.append_assoc]
      rfl

/-! ### Deleting -/

theorem keys_delete (m : OrderedMap κ ν) (k : κ) : (m.delete k).keys = m.keys.filter (· ≠ k) := by
  rw [delete, keys, keys, List.filter_map]
  rfl

theorem nodup_delete {m : OrderedMap κ ν} (h : m.keys.Nodup) (k : κ) : (m.delete k).keys.Nodup := by
  rw [keys_delete]
  exact h.filter _

/-- A key that has been deleted has no value, the others keep theirs. -/
theorem lookup_delete (m : OrderedMap κ ν) (k k' : κ) :
    (m.delete k).lookup k' = if k' = k then none else m.lookup k' := by
  induction m with
  | nil => simp [delete]
  | cons p m ih =>
      by_cases hp : p.1 = k
      · have hdrop : delete (p :: m) k = delete m k := List.filter_cons_of_neg (by simp [hp])
        rw [hdrop, ih, lookup_cons_eq, hp]
        by_cases hk : k' = k <;> simp [hk]
      · have hkept : delete (p :: m) k = p :: delete m k := List.filter_cons_of_pos (by simp [hp])
        rw [hkept, lookup_cons_eq, lookup_cons_eq, ih]
        by_cases hk : k' = k
        · have hne : k' ≠ p.1 := fun h => hp (h.symm.trans hk)
          rw [if_neg hne]
          simp [hk]
        · simp [hk]

theorem delete_cons_self {p : κ × ν} {m : OrderedMap κ ν} (h : p.1 ∉ m.keys) :
    delete (p :: m) p.1 = m := by
  rw [delete, List.filter_cons_of_neg (by simp)]
  apply List.filter_eq_self.mpr
  intro q hq
  have hne : q.1 ≠ p.1 := fun heq => h (heq ▸ List.mem_map_of_mem hq)
  exact decide_eq_true hne

/-- The entry of a key, and what is left without it. -/
theorem perm_delete {m : OrderedMap κ ν} (h : m.keys.Nodup) {k : κ} {v : ν}
    (hv : m.lookup k = some v) : m.Perm ((k, v) :: m.delete k) := by
  induction m with
  | nil => cases hv
  | cons p m ih =>
      obtain ⟨hp, hm⟩ := List.nodup_cons.mp h
      rw [lookup_cons_eq] at hv
      by_cases hk : k = p.1
      · rw [if_pos hk] at hv
        obtain rfl := Option.some.inj hv
        rw [hk, delete_cons_self hp]
      · rw [if_neg hk] at hv
        have hkept : delete (p :: m) k = p :: delete m k := by
          apply List.filter_cons_of_pos
          exact decide_eq_true fun heq => hk heq.symm
        rw [hkept]
        exact ((ih hm hv).cons p).trans (List.Perm.swap (k, v) p _)

/-! ### Values that carry their key -/

/-- The entries of values that carry their key. -/
def byKey (f : ν → κ) (l : List ν) : OrderedMap κ ν := l.map fun v => (f v, v)

section

variable {f : ν → κ}

omit [DecidableEq κ] in
theorem byKey_append (l l' : List ν) : byKey f (l ++ l') = byKey f l ++ byKey f l' := List.map_append

omit [DecidableEq κ] in
@[simp] theorem keys_byKey (l : List ν) : (byKey f l).keys = l.map f := List.map_map

omit [DecidableEq κ] in
@[simp] theorem values_byKey (l : List ν) : (byKey f l).values = l := by
  rw [byKey, values, List.map_map]
  exact List.map_id l

omit [DecidableEq κ] in
theorem reverse_byKey (l : List ν) : (byKey f l).reverse = byKey f l.reverse := List.map_reverse.symm

theorem lookup_byKey (l : List ν) (k : κ) : (byKey f l).lookup k = l.find? fun v => f v == k := by
  induction l with
  | nil => rfl
  | cons v l ih =>
      have hcons : byKey f (v :: l) = (f v, v) :: byKey f l := rfl
      rw [hcons, lookup_cons_eq, ih, List.find?_cons]
      by_cases hk : k = f v
      · simp [hk]
      · rw [if_neg hk, beq_false_of_ne fun h => hk h.symm]

/-- No key is repeated, and every value stands under its own. -/
structure Keyed (f : ν → κ) (m : OrderedMap κ ν) : Prop where
  nodup : m.keys.Nodup
  keyed : ∀ p ∈ m, p.1 = f p.2

namespace Keyed

variable {m : OrderedMap κ ν}

omit [DecidableEq κ] in
theorem nil : Keyed f ([] : OrderedMap κ ν) := ⟨List.nodup_nil, fun _ hp => absurd hp List.not_mem_nil⟩

omit [DecidableEq κ] in
theorem byKey {l : List ν} (h : (l.map f).Nodup) : Keyed f (byKey f l) := by
  constructor
  · rw [keys_byKey]
    exact h
  · intro p hp
    obtain ⟨v, -, rfl⟩ := List.mem_map.mp hp
    rfl

theorem setAll (h : Keyed f m) (l : List ν) : Keyed f (m.setAll (OrderedMap.byKey f l)) := by
  constructor
  · exact nodup_setAll h.nodup _
  · apply forall_setAll h.keyed
    intro p hp
    obtain ⟨v, -, rfl⟩ := List.mem_map.mp hp
    rfl

theorem delete (h : Keyed f m) (k : κ) : Keyed f (m.delete k) :=
  ⟨nodup_delete h.nodup k, fun p hp => h.keyed p (List.mem_of_mem_filter hp)⟩

theorem eq_of_lookup (h : Keyed f m) {k : κ} {v : ν} (hv : m.lookup k = some v) : f v = k :=
  (h.keyed (k, v) ((mem_iff_lookup h.nodup).mpr hv)).symm

omit [DecidableEq κ] in
theorem map_values (h : Keyed f m) : m.values.map f = m.keys := by
  rw [values, List.map_map]
  exact List.map_congr_left fun p hp => (h.keyed p hp).symm

end Keyed

end

end OrderedMap
