/-
Aion2Hub/Lib/Record.lean

Objects that are used as maps from text, and sets of texts.

An object that has no property of a name may still answer to it, with what
every object inherits (`objectPrototype`); so a lookup has three outcomes.
-/
import Mathlib.Data.List.Nodup
import Mathlib.Tactic.Common

/-! ### Objects -/

/-- The names that every object answers to. -/
def objectPrototype : List String :=
  ["constructor", "__defineGetter__", "__defineSetter__", "hasOwnProperty", "__lookupGetter__",
    "__lookupSetter__", "isPrototypeOf", "propertyIsEnumerable", "toString", "valueOf", "__proto__",
    "toLocaleString"]

/-- The own properties of an object that is used as a map. -/
abbrev Record (α : Type) := List (String × α)

inductive Lookup (α : Type) where
  | undefined
  | inherited
  | own (x : α)

/-- `obj[key]`. -/
def Record.get {α : Type} (obj : Record α) (key : String) : Lookup α :=
  match obj.lookup key with
  | some x => .own x
  | none => if key ∈ objectPrototype then .inherited else .undefined

/-- `if (obj[key] === undefined) obj[key] = x`. -/
def Record.putNew {α : Type} (obj : Record α) (key : String) (x : α) : Record α :=
  match obj.get key with
  | .undefined => obj ++ [(key, x)]
  | _ => obj

theorem Record.get_eq_of_notMem {α : Type} (obj : Record α) {key : String} (h : key ∉ objectPrototype) :
    obj.get key = (obj.lookup key).elim .undefined .own := by
  rw [Record.get]
  cases obj.lookup key with
  | none => exact if_neg h
  | some x => rfl

theorem Record.lookup_putNew {α : Type} (obj : Record α) {key : String} (h : key ∉ objectPrototype)
    (key' : String) (x : α) :
    (obj.putNew key' x).lookup key =
      (obj.lookup key).or (if key' = key then some x else none) := by
  have happend : ∀ o : Record α, (o ++ [(key', x)]).lookup key =
      (o.lookup key).or (if key' = key then some x else none) := by
    intro o
    rw [List.lookup_append]
    congr 1
    by_cases hkey : key' = key
    · rw [if_pos hkey, hkey]
      exact List.lookup_cons_self
    · have hne : (key == key') = false := by simpa using Ne.symm hkey
      rw [if_neg hkey, List.lookup_cons, hne]
      rfl
  rw [Record.putNew]
  by_cases hkey : key' = key
  · subst hkey
    cases hlookup : obj.lookup key' with
    | none =>
        rw [Record.get, hlookup]
        dsimp only
        rw [if_neg h]
        dsimp only
        rw [happend, hlookup]
    | some y =>
        rw [Record.get, hlookup]
        exact hlookup
  · cases hget : obj.get key' with
    | undefined => exact happend obj
    | inherited => rw [if_neg hkey, Option.or_none]
    | own y => rw [if_neg hkey, Option.or_none]

/-- A name that every object answers to is never set. -/
theorem Record.get_putNew_inherited {α : Type} {obj : Record α} {key : String}
    (h : obj.get key = .inherited) (key' : String) (x : α) : (obj.putNew key' x).get key = .inherited := by
  rw [Record.putNew]
  cases hget : obj.get key' with
  | inherited => exact h
  | own y => exact h
  | undefined =>
      have hne : (key == key') = false := by
        rw [beq_eq_false_iff_ne]
        rintro rfl
        rw [h] at hget
        cases hget
      have hlookup : (obj ++ [(key', x)]).lookup key = obj.lookup key := by
        rw [List.lookup_append, List.lookup_cons, hne]
        exact Option.or_none
      show Record.get (obj ++ [(key', x)]) key = _
      rw [Record.get, hlookup]
      exact h

/-! ### Sets -/

/-- `set.add(x)`: a set is in the order of insertion. -/
def setAdd (s : List String) (x : String) : List String := if x ∈ s then s else s ++ [x]

/-- `Array.from(new Set(l))`. -/
def unique (l : List String) : List String := l.foldl setAdd []

/-- What a set gains: the new elements, each once, at the end. -/
theorem foldl_setAdd (l s : List String) : ∃ added, l.foldl setAdd s = s ++ added ∧
    added.Nodup ∧ ∀ x, x ∈ added ↔ x ∈ l ∧ x ∉ s := by
  induction l generalizing s with
  | nil => exact ⟨[], by simp⟩
  | cons a l ih =>
      obtain ⟨added, heq, hnodup, hmem⟩ := ih (setAdd s a)
      by_cases ha : a ∈ s
      · rw [setAdd, if_pos ha] at heq hmem
        refine ⟨added, by rw [List.foldl_cons, setAdd, if_pos ha, heq], hnodup, fun x => ?_⟩
        rw [hmem, List.mem_cons]
        constructor
        · rintro ⟨hx, hs⟩
          exact ⟨.inr hx, hs⟩
        · rintro ⟨rfl | hx, hs⟩
          · exact absurd ha hs
          · exact ⟨hx, hs⟩
      · rw [setAdd, if_neg ha] at heq hmem
        refine ⟨a :: added, ?_, ?_, fun x => ?_⟩
        · rw [List.foldl_cons, setAdd, if_neg ha, heq, List.append_assoc]
          rfl
        · refine List.nodup_cons.mpr ⟨fun h => ?_, hnodup⟩
          exact ((hmem a).mp h).2 (by simp)
        · rw [List.mem_cons, hmem, List.mem_cons, List.mem_append, List.mem_singleton]
          by_cases hx : x = a
          · subst hx
            simp [ha]
          · simp [hx]

theorem mem_unique (l : List String) (x : String) : x ∈ unique l ↔ x ∈ l := by
  obtain ⟨added, heq, -, hmem⟩ := foldl_setAdd l []
  rw [unique, heq, List.nil_append, hmem]
  simp

theorem nodup_unique (l : List String) : (unique l).Nodup := by
  obtain ⟨added, heq, hnodup, -⟩ := foldl_setAdd l []
  rw [unique, heq]
  exact hnodup
