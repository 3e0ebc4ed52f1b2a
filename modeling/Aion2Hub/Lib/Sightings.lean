/-
Aion2Hub/Lib/Sightings.lean

A record of things that are seen one after the other.  A thing is written down
when it is seen for the first time; and so is each change, from the thing that
has been written down last to the one that is seen now.

Seeing a thing again at once adds nothing (`see_see`).  What was written down
last is not always what was seen last: `latest_record_iff` says what it is, and
`record_follows_iff` when the record ends with the last change.
-/
import Mathlib.Data.List.Induction
import Mathlib.Data.List.Nodup
import Mathlib.Tactic.Common

variable {α : Type} [DecidableEq α]

/-! ### Lists without repetition -/

/-- Add an element at the end, unless it is there. -/
def insertNew {β : Type} [DecidableEq β] (l : List β) (x : β) : List β := if x ∈ l then l else l ++ [x]

section

variable {l : List α} {x y : α}

@[simp] theorem mem_insertNew : y ∈ insertNew l x ↔ y ∈ l ∨ y = x := by
  rw [insertNew]
  split
  · rename_i hx
    constructor
    · exact .inl
    · rintro (hy | rfl)
      · exact hy
      · exact hx
  · rw [List.mem_append, List.mem_singleton]

theorem insertNew_of_mem (h : x ∈ l) : insertNew l x = l := if_pos h

theorem insertNew_of_notMem (h : x ∉ l) : insertNew l x = l ++ [x] := if_neg h

theorem nodup_insertNew (h : l.Nodup) : (insertNew l x).Nodup := by
  rw [insertNew]
  split
  · exact h
  · rename_i hx
    apply List.nodup_append.mpr
    refine ⟨h, List.nodup_singleton x, ?_⟩
    rintro a ha b hb rfl
    exact hx (List.mem_singleton.mp hb ▸ ha)

end

/-! ### Records -/

/-- What has been written down, in order. -/
@[ext] structure Sightings (α : Type) where
  seen : List α
  changes : List (α × α)

namespace Sightings

def empty : Sightings α := ⟨[], []⟩

/-- The thing that was written down last. -/
def latest (s : Sightings α) : Option α := s.seen.getLast?

def see (s : Sightings α) (x : α) : Sightings α where
  seen := insertNew s.seen x
  changes :=
    match s.latest with
    | some y => if y = x then s.changes else insertNew s.changes (y, x)
    | none => s.changes

/-- The record of a list of things. -/
def record (l : List α) : Sightings α := l.foldl see empty

section

variable {s : Sightings α} {l : List α} {x y : α}

@[simp] theorem record_nil : record ([] : List α) = empty := rfl

theorem record_concat (l : List α) (x : α) : record (l ++ [x]) = (record l).see x := by
  rw [record, List.foldl_append]
  rfl

theorem latest_see : (s.see x).latest = if x ∈ s.seen then s.latest else some x := by
  show (insertNew s.seen x).getLast? = _
  by_cases hx : x ∈ s.seen
  · rw [insertNew_of_mem hx, if_pos hx]
    rfl
  · rw [insertNew_of_notMem hx, if_neg hx, List.getLast?_concat]

theorem changes_see_of_latest (h : s.latest = some y) :
    (s.see x).changes = if y = x then s.changes else insertNew s.changes (y, x) := by
  rw [see, h]

theorem changes_see_of_none (h : s.latest = none) : (s.see x).changes = s.changes := by
  rw [see, h]

/-- Seeing a thing again at once adds nothing. -/
theorem see_see (s : Sightings α) (x : α) : (s.see x).see x = s.see x := by
  have hseen : x ∈ (s.see x).seen := mem_insertNew.mpr (.inr rfl)
  have hlatest := latest_see (s := s.see x) (x := x)
  rw [if_pos hseen] at hlatest
  ext1
  · exact insertNew_of_mem hseen
  · by_cases hx : x ∈ s.seen
    · have hsame : (s.see x).latest = s.latest := by rw [latest_see, if_pos hx]
      cases hs : s.latest with
      | none => exact changes_see_of_none (hsame.trans hs)
      | some y =>
          rw [changes_see_of_latest (hsame.trans hs), changes_see_of_latest hs]
          by_cases hy : y = x
          · rw [if_pos hy]
          · rw [if_neg hy, if_neg hy]
            exact insertNew_of_mem (mem_insertNew.mpr (.inr rfl))
    · have hnew : (s.see x).latest = some x := by rw [latest_see, if_neg hx]
      rw [changes_see_of_latest hnew, if_pos rfl]

theorem mem_seen_record : x ∈ (record l).seen ↔ x ∈ l := by
  induction l using List.reverseRecOn with
  | nil => exact Iff.rfl
  | append_singleton l z ih =>
      rw [record_concat, List.mem_append, List.mem_singleton, ← ih]
      exact mem_insertNew

theorem latest_record_concat (l : List α) (z : α) :
    (record (l ++ [z])).latest = if z ∈ l then (record l).latest else some z := by
  rw [record_concat, latest_see]
  simp only [mem_seen_record]

/-- **What was written down last** is the thing after whose first sight nothing
new has been seen. -/
theorem latest_record_iff (l : List α) (x : α) : (record l).latest = some x ↔
    ∃ u v, l = u ++ x :: v ∧ x ∉ u ∧ ∀ y ∈ v, y ∈ u ++ [x] := by
  induction l using List.reverseRecOn with
  | nil =>
      constructor
      · intro h
        cases h
      · rintro ⟨u, v, h, -⟩
        exact absurd h.symm (by simp)
  | append_singleton l z ih =>
      rw [latest_record_concat]
      constructor
      · intro h
        by_cases hz : z ∈ l
        · rw [if_pos hz] at h
          obtain ⟨u, v, rfl, hx, hv⟩ := ih.mp h
          refine ⟨u, v ++ [z], by simp, hx, ?_⟩
          intro y hy
          rcases List.mem_append.mp hy with hold | hnew
          · exact hv y hold
          · obtain rfl := List.mem_singleton.mp hnew
            rcases List.mem_append.mp hz with hu | hrest
            · exact List.mem_append_left _ hu
            · rcases List.mem_cons.mp hrest with rfl | hyv
              · exact List.mem_append_right _ List.mem_cons_self
              · exact hv y hyv
        · rw [if_neg hz] at h
          obtain rfl := Option.some.inj h
          exact ⟨l, [], rfl, hz, fun y hy => absurd hy List.not_mem_nil⟩
      · rintro ⟨u, v, h, hx, hv⟩
        induction v using List.reverseRecOn with
        | nil =>
            obtain ⟨rfl, hxz⟩ := List.append_inj' h rfl
            obtain rfl : z = x := by simpa using hxz
            exact if_neg hx
        | append_singleton v w _ =>
            have hsplit : l ++ [z] = (u ++ x :: v) ++ [w] := by rw [h]; simp
            obtain ⟨rfl, hzw⟩ := List.append_inj' hsplit rfl
            obtain rfl : z = w := by simpa using hzw
            have hz : z ∈ u ++ [x] := hv z (by simp)
            have hmem : z ∈ u ++ x :: v := by
              rcases List.mem_append.mp hz with hu | hx'
              · exact List.mem_append_left _ hu
              · obtain rfl := List.mem_singleton.mp hx'
                simp
            rw [if_pos hmem]
            exact ih.mpr ⟨u, v, rfl, hx, fun y hy => hv y (List.mem_append_left _ hy)⟩

/-! ### Changes -/

/-- What a record of a list is like. -/
structure Sound (s : Sightings α) : Prop where
  seen : s.seen.Nodup
  changes : s.changes.Nodup
  /-- A change is between two different things that have been seen. -/
  mem : ∀ p ∈ s.changes, p.1 ∈ s.seen ∧ p.2 ∈ s.seen ∧ p.1 ≠ p.2
  /-- Once there is a change from the latest thing, all new ones are. -/
  last : ∀ x y, s.latest = some x → (x, y) ∈ s.changes → ∃ z, s.changes.getLast? = some (x, z)

omit [DecidableEq α] in
theorem sound_empty : Sound (empty : Sightings α) :=
  ⟨List.nodup_nil, List.nodup_nil, fun _ h => absurd h List.not_mem_nil,
    fun _ _ _ h => absurd h List.not_mem_nil⟩

omit [DecidableEq α] in
theorem latest_mem (h : s.latest = some x) : x ∈ s.seen := List.mem_of_getLast? h

theorem mem_changes_see {p : α × α} (h : p ∈ (s.see x).changes) :
    p ∈ s.changes ∨ (s.latest = some p.1 ∧ p.2 = x ∧ p.1 ≠ x) := by
  cases hs : s.latest with
  | none =>
      rw [changes_see_of_none hs] at h
      exact .inl h
  | some y =>
      rw [changes_see_of_latest hs] at h
      by_cases hy : y = x
      · rw [if_pos hy] at h
        exact .inl h
      · rw [if_neg hy] at h
        rcases mem_insertNew.mp h with hold | rfl
        · exact .inl hold
        · exact .inr ⟨rfl, rfl, hy⟩

theorem Sound.see (h : Sound s) (x : α) : Sound (s.see x) where
  seen := nodup_insertNew h.seen
  changes := by
    cases hs : s.latest with
    | none =>
        rw [changes_see_of_none hs]
        exact h.changes
    | some y =>
        rw [changes_see_of_latest hs]
        split
        · exact h.changes
        · exact nodup_insertNew h.changes
  mem := by
    intro p hp
    rcases mem_changes_see hp with hold | ⟨hlatest, hx, hne⟩
    · obtain ⟨hfrom, hto, hp⟩ := h.mem p hold
      exact ⟨mem_insertNew.mpr (.inl hfrom), mem_insertNew.mpr (.inl hto), hp⟩
    · exact ⟨mem_insertNew.mpr (.inl (latest_mem hlatest)), mem_insertNew.mpr (.inr hx), hx ▸ hne⟩
  last := by
    intro y z hlatest hmem
    rw [latest_see] at hlatest
    by_cases hx : x ∈ s.seen
    · rw [if_pos hx] at hlatest
      rw [changes_see_of_latest hlatest] at hmem ⊢
      by_cases hy : y = x
      · rw [if_pos hy] at hmem ⊢
        exact h.last y z hlatest hmem
      · rw [if_neg hy] at hmem ⊢
        by_cases hold : (y, x) ∈ s.changes
        · rw [insertNew_of_mem hold] at hmem ⊢
          exact h.last y z hlatest hmem
        · rw [insertNew_of_notMem hold, List.getLast?_concat]
          exact ⟨x, rfl⟩
    · -- there is no change from a new thing
      rw [if_neg hx] at hlatest
      obtain rfl := Option.some.inj hlatest
      rcases mem_changes_see hmem with hold | ⟨-, -, hne⟩
      · exact absurd (h.mem _ hold).1 hx
      · exact absurd rfl hne

theorem sound_record (l : List α) : Sound (record l) := by
  induction l using List.reverseRecOn with
  | nil => exact sound_empty
  | append_singleton l z ih =>
      rw [record_concat]
      exact ih.see z

theorem record_replicate (l : List α) (x : α) (k : ℕ) :
    record (l ++ List.replicate (k + 1) x) = (record l).see x := by
  induction k with
  | zero => exact record_concat l x
  | succ k ih => rw [List.replicate_succ', ← List.append_assoc, record_concat, ih, see_see]

theorem exists_latest (l : List α) (x : α) : ∃ y, (record (l ++ [x])).latest = some y := by
  have hne : (record (l ++ [x])).seen ≠ [] := by
    apply List.ne_nil_of_mem
    exact mem_seen_record.mpr (List.mem_append_right l List.mem_cons_self)
  exact ⟨_, List.getLast?_eq_some_getLast hne⟩

/-- **The record ends with the last change**, from `p` to `q`, just when `q` had
never been seen before and `p` was what had been written down last. -/
theorem record_follows_iff (u : List α) {p q : α} (hpq : p ≠ q) (k : ℕ) :
    ((record (u ++ [p] ++ List.replicate (k + 1) q)).latest = some q ∧
      (record (u ++ [p] ++ List.replicate (k + 1) q)).changes.getLast? = some (p, q)) ↔
    q ∉ u ++ [p] ∧ (record (u ++ [p])).latest = some p := by
  rw [record_replicate, latest_see]
  obtain ⟨y, hy⟩ := exists_latest u p
  have hsound := sound_record (u ++ [p])
  constructor
  · rintro ⟨hlatest, hlast⟩
    by_cases hq : q ∈ (record (u ++ [p])).seen
    · -- `q` is the latest, so the step adds nothing; but the step to `p` was a change from `q`
      rw [if_pos hq] at hlatest
      rw [changes_see_of_latest hlatest, if_pos rfl] at hlast
      rw [latest_record_concat] at hlatest
      by_cases hp : p ∈ u
      · rw [if_pos hp] at hlatest
        have hchange : (q, p) ∈ (record (u ++ [p])).changes := by
          rw [record_concat, changes_see_of_latest hlatest, if_neg hpq.symm]
          exact mem_insertNew.mpr (.inr rfl)
        have hstill : (record (u ++ [p])).latest = some q := by
          rw [latest_record_concat, if_pos hp, hlatest]
        obtain ⟨z, hz⟩ := hsound.last q p hstill hchange
        rw [hlast] at hz
        exact absurd (congrArg Prod.fst (Option.some.inj hz)) hpq
      · rw [if_neg hp] at hlatest
        exact absurd (Option.some.inj hlatest) hpq
    · have hnew : (y, q) ∉ (record (u ++ [p])).changes := fun hmem => hq (hsound.mem _ hmem).2.1
      have hyq : y ≠ q := fun heq => hq (heq ▸ latest_mem hy)
      rw [changes_see_of_latest hy, if_neg hyq, insertNew_of_notMem hnew, List.getLast?_concat] at hlast
      have hyp : y = p := congrArg Prod.fst (Option.some.inj hlast)
      exact ⟨fun hmem => hq (mem_seen_record.mpr hmem), hyp ▸ hy⟩
  · rintro ⟨hq, hlatest⟩
    have hseen : q ∉ (record (u ++ [p])).seen := fun hmem => hq (mem_seen_record.mp hmem)
    have hnew : (p, q) ∉ (record (u ++ [p])).changes := fun hmem => hseen (hsound.mem _ hmem).2.1
    refine ⟨if_neg hseen, ?_⟩
    rw [changes_see_of_latest hlatest, if_neg hpq, insertNew_of_notMem hnew, List.getLast?_concat]

end

end Sightings
