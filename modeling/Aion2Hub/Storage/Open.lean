/-
Aion2Hub/Storage/Open.lean

`openDesktopDb` and the file it opens.

The file at `filePath` is read, written to a temporary name and renamed into
place, and each of the three calls may fail.  `persist` is careful: unless
both of its calls succeed the old file stays (`writeBack_file`).  Reading is
not: every error counts as "there is no file", so a fresh database is
persisted over a file that merely could not be read
(`keepsUserRows_openDesktopDb_iff`).
-/
import Aion2Hub.Storage.Lifecycle

namespace Hub

open Sql

/-- The outcomes of the calls: `none` when a call succeeds, otherwise the
error it fails with. -/
structure FileCalls where
  readFile : Option String
  writeFile : Option String
  rename : Option String

/-- The `try` around `readFile`; a file that is not there cannot be read. -/
def readExisting (calls : FileCalls) (file : Option (Db Row)) : Option (Db Row) :=
  match calls.readFile with
  | none => file
  | some _ => none

/-- The second half of `persist()`: `writeFile` to a temporary name, then
`rename`. -/
def writeBack (calls : FileCalls) (data : Db Row) (file : Option (Db Row)) :
    Except String Unit × Option (Db Row) :=
  match calls.writeFile with
  | some e => (.error e, file)
  | none =>
      match calls.rename with
      | some e => (.error e, file)
      | none => (.ok (), some data)

/-- `openDesktopDb`, with the file it leaves. -/
def openDesktopDb (calls : FileCalls) (file : Option (Db Row)) (now : ℤ) :
    Except String Conn × Option (Db Row) :=
  match (do init now; persist) (newDatabase (readExisting calls file)) with
  | (.error e, _) => (.error e, file)
  | (.ok data, c) =>
      match writeBack calls data file with
      | (.error e, file') => (.error e, file')
      | (.ok _, file') => (.ok c, file')

/-- What is written are the rows of the connection. -/
theorem init_persist (existing : Option (Db Row)) (now : ℤ) :
    (do init now; persist) (newDatabase existing) =
      (.ok (withDefaults (existing.getD fun _ => []) now), opened existing now) := by
  have hinit : init now (newDatabase existing) =
      (.ok (), ⟨withDefaults (existing.getD fun _ => []) now, true, none⟩) :=
    ensureDefaults_eq now _
  rw [Exec.bind_of_ok hinit, opened_eq]
  rfl

/-- The file is the old one, unless both calls succeed. -/
theorem writeBack_file (calls : FileCalls) (data : Db Row) (file : Option (Db Row)) :
    (writeBack calls data file).2 =
      if calls.writeFile = none ∧ calls.rename = none then some data else file := by
  unfold writeBack
  cases calls.writeFile <;> cases calls.rename <;> simp

theorem openDesktopDb_file (calls : FileCalls) (file : Option (Db Row)) (now : ℤ) :
    (openDesktopDb calls file now).2 =
      if calls.writeFile = none ∧ calls.rename = none then
        some (withDefaults ((readExisting calls file).getD fun _ => []) now)
      else file := by
  unfold openDesktopDb
  rw [init_persist]
  dsimp only
  rw [← writeBack_file]
  rcases writeBack calls _ file with ⟨e | u, file'⟩ <;> rfl

/-- The connection that is returned is the one the runs of `Db` start
from. -/
theorem openDesktopDb_conn {calls : FileCalls} {file file' : Option (Db Row)} {now : ℤ} {c : Conn}
    (h : openDesktopDb calls file now = (.ok c, file')) :
    c = opened (readExisting calls file) now ∧ file' = some c.db := by
  unfold openDesktopDb at h
  rw [init_persist] at h
  dsimp only at h
  unfold writeBack at h
  cases hwrite : calls.writeFile with
  | some e =>
      rw [hwrite] at h
      cases h
  | none =>
      cases hrename : calls.rename with
      | some e =>
          rw [hwrite, hrename] at h
          cases h
      | none =>
          rw [hwrite, hrename] at h
          cases h
          exact ⟨rfl, by rw [opened_eq]⟩

/-! ### The rows of the file -/

/-- The file is there and holds every user row of the database. -/
def KeepsUserRows (db : Db Row) (file : Option (Db Row)) : Prop :=
  ∃ db', file = some db' ∧ ∀ t ∈ userTables, ∀ r ∈ db t, r ∈ db' t

/-- The database has no user row that a fresh one made now would not have. -/
def OnlyDefaults (db : Db Row) (now : ℤ) : Prop :=
  (∀ t ∈ userTables, t ≠ .plannerSettings → db t = []) ∧
    ∀ r ∈ db .plannerSettings, r = defaultSettingsRow now

theorem mem_withDefaults {db : Db Row} {now : ℤ} {t : Table} {r : Row t} (hr : r ∈ db t) :
    r ∈ withDefaults db now t := by
  unfold withDefaults
  split
  · exact hr
  · by_cases ht : t = .plannerSettings
    · subst ht
      rw [Db.set_self]
      exact List.mem_append_left _ hr
    · rwa [Db.set_of_ne _ ht]

/-- A fresh database holds the rows of one that had nothing but the
defaults. -/
theorem keepsUserRows_fresh_iff {db : Db Row} {now : ℤ} :
    KeepsUserRows db (some (withDefaults (fun _ => []) now)) ↔ OnlyDefaults db now := by
  have hfresh : withDefaults (fun _ => []) now =
      Db.set (fun _ => []) .plannerSettings [defaultSettingsRow now] := rfl
  rw [hfresh]
  constructor
  · rintro ⟨db', heq, hrows⟩
    obtain rfl := Option.some.inj heq
    refine ⟨fun t ht hne => List.eq_nil_iff_forall_not_mem.mpr fun r hr => ?_, fun r hr => ?_⟩
    · have hmem := hrows t ht r hr
      rw [Db.set_of_ne _ hne] at hmem
      exact absurd hmem List.not_mem_nil
    · have hmem := hrows .plannerSettings (by decide) r hr
      rw [Db.set_self] at hmem
      exact List.mem_singleton.mp hmem
  · rintro ⟨hempty, hdefault⟩
    refine ⟨_, rfl, fun t ht r hr => ?_⟩
    by_cases hne : t = .plannerSettings
    · subst hne
      rw [Db.set_self, hdefault r hr]
      exact List.mem_cons_self
    · rw [hempty t ht hne] at hr
      exact absurd hr List.not_mem_nil

/-- **Opening keeps the stored rows exactly when the file could be read, or
nothing was written over it, or there was nothing to lose.** -/
theorem keepsUserRows_openDesktopDb_iff (calls : FileCalls) (db : Db Row) (now : ℤ) :
    KeepsUserRows db (openDesktopDb calls (some db) now).2 ↔
      calls.readFile = none ∨ calls.writeFile ≠ none ∨ calls.rename ≠ none ∨
        OnlyDefaults db now := by
  rw [openDesktopDb_file]
  by_cases hwrite : calls.writeFile = none ∧ calls.rename = none
  · rw [if_pos hwrite]
    cases hread : calls.readFile with
    | none =>
        refine iff_of_true ⟨_, rfl, fun t _ r hr => ?_⟩ (.inl rfl)
        have hexisting : readExisting calls (some db) = some db := by rw [readExisting, hread]
        rw [hexisting]
        exact mem_withDefaults hr
    | some e =>
        have hexisting : readExisting calls (some db) = none := by rw [readExisting, hread]
        rw [hexisting]
        simpa [hwrite.1, hwrite.2] using keepsUserRows_fresh_iff
  · rw [if_neg hwrite]
    refine iff_of_true ⟨db, rfl, fun _ _ _ hr => hr⟩ (.inr ?_)
    rcases not_and_or.mp hwrite with h | h
    · exact .inl h
    · exact .inr (.inl h)

/-- A busy file with one character is replaced by a fresh database. -/
theorem not_keepsUserRows_busy : ¬ KeepsUserRows withCharacter.db
    (openDesktopDb ⟨some "EBUSY", none, none⟩ (some withCharacter.db) 5).2 := by
  rintro ⟨db', hfile, hrows⟩
  rw [openDesktopDb_file, if_pos ⟨rfl, rfl⟩] at hfile
  obtain rfl := Option.some.inj hfile
  have hmem := hrows .appCharacter (by decide) ⟨"c1", "Kaisinel", none, none, stamp 1, stamp 1⟩
    List.mem_cons_self
  exact absurd hmem List.not_mem_nil

end Hub
