/-
Aion2Hub/Storage/Characters.lean

`domains/appSettings.ts` and `domains/characters.ts`.

`now` is the time of `new Date()` and `id` the value of `randomUUID()`: an
operation that reads the clock or draws an id takes what it got as a
parameter.
-/
import Aion2Hub.Storage.Schema
import Aion2Hub.Lib.Host

namespace Hub

open Sql

/-- `new Date().toISOString()` at time `now`. -/
def stamp (now : ℤ) : String := Date.isoString now

theorem plain_stamp (now : ℤ) : Text.Plain (stamp now) := by
  intro h
  rw [stamp, Date.isoString, String.toList_ofList] at h
  exact absurd (Date.isoChars_subset now h) (by decide)

@[simp] theorem cut_stamp (now : ℤ) : Text.cut (stamp now) = stamp now := (plain_stamp now).cut

theorem stamp_ne_empty (x : ℤ) : stamp x ≠ "" := by
  intro hempty
  have hlist : (String.ofList (Date.isoChars x)).toList = [] := by
    show (stamp x).toList = []
    rw [hempty]
    rfl
  rw [String.toList_ofList] at hlist
  have hrest := (List.append_eq_nil_iff.mp hlist).2
  unfold Date.monthDayChars at hrest
  cases hrest

/-- `s ? String(s) : null`. -/
def nonEmpty (s : Option String) : Option String := s.filter (· ≠ "")

theorem nonEmpty_some {s : String} (h : s ≠ "") : nonEmpty (some s) = some s :=
  Option.filter_some_pos (by simpa using h)

theorem nonEmpty_eq {s : Option String} {t : String} (h : nonEmpty s = some t) : s = some t :=
  (Option.filter_eq_some_iff.mp h).1

theorem ne_of_nonEmpty {o : Option String} {s : String} (h : nonEmpty o = some s) : s ≠ "" := by
  simpa using (Option.filter_eq_some_iff.mp h).2

/-- The value bound to a NOT NULL column, which rejects the NULL that NaN is
bound as. -/
def notNull (x : Number) : Prog Number := Exec.ofOption "NOT NULL constraint failed" x.bind

/-! ### Settings of the application -/

def getSetting (key : String) : Prog (Option String) := do
  let row ← schema.selectOne .appSetting fun r => r.key == key
  pure (row.map (·.value))

def setSetting (key : String) (value : Option String) : Prog Unit :=
  match value with
  | none => schema.delete .appSetting fun r => r.key == key
  | some v => schema.upsert .appSetting ⟨key, v⟩ fun r => { r with value := v }

def getActiveCharacterId : Prog (Option String) := getSetting "activeCharacterId"

def setActiveCharacterId (characterId : Option String) : Prog Unit :=
  setSetting "activeCharacterId" characterId

/-! ### Characters -/

/-- The object made from a row: empty texts become null. -/
def asAppCharacter (r : AppCharacter) : AppCharacter :=
  { r with server := nonEmpty r.server, characterClass := nonEmpty r.characterClass }

def listCharacters : Prog (List AppCharacter) := do
  let rows ← schema.selectBy .appCharacter (fun _ => true)
    (desc (·.updatedAt) (desc (·.createdAt) anyOrder))
  pure (rows.map asAppCharacter)

def getCharacter (characterId : String) : Prog (Option AppCharacter) := do
  let row ← schema.selectOne .appCharacter fun r => r.id == characterId
  pure (row.map asAppCharacter)

/-- The character that is read of a row. -/
def characterOf (r : AppCharacter) : AppCharacter := asAppCharacter (schema.read .appCharacter r)

theorem getCharacter_eq (characterId : String) (c : Conn) : getCharacter characterId c =
    (.ok (((c.db .appCharacter).find? fun r => r.id == characterId).map characterOf), c) := by
  show (Except.ok ((((c.db .appCharacter).find? fun r => r.id == characterId).map
    (schema.read .appCharacter)).map asAppCharacter), c) = _
  rw [Option.map_map]
  rfl

theorem getCharacter_of_find {characterId : String} {c : Conn} {r : AppCharacter}
    (h : (c.db .appCharacter).find? (fun q => q.id == characterId) = some r) :
    getCharacter characterId c = (.ok (some (characterOf r)), c) := by
  rw [getCharacter_eq, h]
  rfl

theorem getCharacter_of_none {characterId : String} {c : Conn}
    (h : (c.db .appCharacter).find? (fun q => q.id == characterId) = none) :
    getCharacter characterId c = (.ok none, c) := by
  rw [getCharacter_eq, h]
  rfl

structure CharacterInput where
  name : String
  server : Option String
  characterClass : Option String

def createCharacter (input : CharacterInput) (id : String) (now : ℤ) : Prog String := do
  schema.insert .abort .appCharacter
    ⟨id, input.name, input.server, input.characterClass, stamp now, stamp now⟩
  -- Auto-assign all existing templates to new character.
  schema.insertSelect .ignore .plannerAssignment fun db => (db .plannerTemplate).map fun t =>
    ⟨"assign:" ++ id ++ ":" ++ t.id, id, t.id, true, none, stamp now, stamp now⟩
  pure id

def updateCharacter (id : String) (input : CharacterInput) (now : ℤ) : Prog Unit :=
  schema.update .appCharacter (fun r => r.id == id) fun r =>
    { r with
      name := input.name
      server := input.server
      characterClass := input.characterClass
      updatedAt := stamp now }

def deleteCharacter (characterId : String) : Prog Unit :=
  schema.delete .appCharacter fun r => r.id == characterId

end Hub
