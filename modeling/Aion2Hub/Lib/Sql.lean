/-
Aion2Hub/Lib/Sql.lean

A small relational engine, with the parts of SQLite that decide whether
stored references stay meaningful:

* a schema gives each table a primary key, further UNIQUE keys and foreign
  keys with an ON DELETE action, and lists the tables so that a parent comes
  before its children;
* a connection holds the rows, the switch `PRAGMA foreign_keys` and the
  snapshot of an open transaction;
* a statement either does all of its work or throws and changes nothing, and
  it looks at foreign keys only while the switch is on;
* a query chooses and sorts the stored rows, and then its client reads them,
  which need not give it all of what is stored.

A table is a list of rows, in the order of insertion.  The rows of different
tables have different types, so a database is a dependent function of the
table.  The schema carries the proofs of its own well-formedness: that the
order of the tables is one in which cascades can be resolved in a single
pass, and that ON DELETE SET NULL only clears the column it is about.
-/
import Aion2Hub.Lib.Exec
import Mathlib.Data.List.Pairwise
import Mathlib.Data.List.Sort
import Mathlib.Logic.Function.Basic

namespace Sql

variable {T : Type} [DecidableEq T] {Row : T → Type}

/-! ### Schemas -/

/-- What becomes of a row when the row it refers to is deleted. -/
inductive OnDelete (ρ : Type) where
  | cascade
  | setNull (clear : ρ → ρ)

/-- A foreign key: the parent table, the referring column (`none` for NULL)
and the ON DELETE action. -/
structure ForeignKey (T ρ : Type) where
  parent : T
  column : ρ → Option String
  onDelete : OnDelete ρ

/-- A schema over the tables `T`.  `order` lists every table, parents before
children, and no table refers to itself.  `read` is what a client gets of a
stored row. -/
structure Schema (T : Type) (Row : T → Type) where
  key : (t : T) → Row t → String
  uniques : (t : T) → List (Row t → List String)
  foreignKeys : (t : T) → List (ForeignKey T (Row t))
  read : (t : T) → Row t → Row t
  order : List T
  mem_order : ∀ t, t ∈ order
  order_parents : order.Pairwise fun t t' => ∀ fk ∈ foreignKeys t, fk.parent ≠ t'
  no_self : ∀ t, ∀ fk ∈ foreignKeys t, fk.parent ≠ t
  clear_key : ∀ t, ∀ fk ∈ foreignKeys t, ∀ clear, fk.onDelete = .setNull clear →
    ∀ r, key t (clear r) = key t r
  clear_uniques : ∀ t, ∀ fk ∈ foreignKeys t, ∀ clear, fk.onDelete = .setNull clear →
    ∀ u ∈ uniques t, ∀ r, u (clear r) = u r
  clear_column : ∀ t, ∀ fk ∈ foreignKeys t, ∀ clear, fk.onDelete = .setNull clear →
    ∀ r, fk.column (clear r) = none
  clear_other : ∀ t, ∀ fk ∈ foreignKeys t, ∀ clear, fk.onDelete = .setNull clear →
    ∀ fk' ∈ foreignKeys t, ∀ r, fk'.column (clear r) = none ∨
      fk'.column (clear r) = fk'.column r

/-- The rows of every table. -/
abbrev Db (Row : T → Type) : Type := (t : T) → List (Row t)

/-- The same database with other rows in one table. -/
def Db.set (db : Db Row) (t : T) (rows : List (Row t)) : Db Row := Function.update db t rows

@[simp] theorem Db.set_self (db : Db Row) (t : T) (rows : List (Row t)) :
    db.set t rows t = rows := by
  simp [Db.set]

theorem Db.set_of_ne (db : Db Row) {t t' : T} (h : t' ≠ t) (rows : List (Row t)) :
    db.set t rows t' = db t' := by
  simp [Db.set, h]

/-- A connection: the rows, whether foreign keys are enforced, and the rows
at BEGIN while a transaction is open. -/
structure Conn (Row : T → Type) where
  db : Db Row
  foreignKeys : Bool
  saved : Option (Db Row)

/-! ### Conflicts and references -/

/-- Two rows of one table that cannot be there together. -/
def Schema.conflicts (S : Schema T Row) (t : T) (r r' : Row t) : Bool :=
  S.key t r == S.key t r' || (S.uniques t).any fun u => u r == u r'

/-- The table has a row with this primary key. -/
def Schema.hasKey (S : Schema T Row) (db : Db Row) (t : T) (k : String) : Prop :=
  ∃ q ∈ db t, S.key t q = k

instance (S : Schema T Row) (db : Db Row) (t : T) (k : String) : Decidable (S.hasKey db t k) :=
  inferInstanceAs (Decidable (∃ q ∈ db t, S.key t q = k))

/-- Every reference of the row is NULL or the key of an existing row. -/
def Schema.parentsExist (S : Schema T Row) (db : Db Row) (t : T) (r : Row t) : Prop :=
  ∀ fk ∈ S.foreignKeys t, ∀ k ∈ fk.column r, S.hasKey db fk.parent k

instance (S : Schema T Row) (db : Db Row) (t : T) (r : Row t) :
    Decidable (S.parentsExist db t r) :=
  inferInstanceAs (Decidable (∀ fk ∈ S.foreignKeys t, ∀ k ∈ fk.column r, S.hasKey db fk.parent k))

/-! ### Cascades -/

/-- The row refers through this key to one of the rows that are `gone`. -/
def ForeignKey.hits {ρ : Type} (fk : ForeignKey T ρ) (gone : T → List String) (r : ρ) : Prop :=
  ∃ k ∈ fk.column r, k ∈ gone fk.parent

instance {ρ : Type} (fk : ForeignKey T ρ) (gone : T → List String) (r : ρ) :
    Decidable (fk.hits gone r) :=
  inferInstanceAs (Decidable (∃ k ∈ fk.column r, k ∈ gone fk.parent))

/-- Does deleting the parent delete the row? -/
def OnDelete.isCascade {ρ : Type} : OnDelete ρ → Bool
  | .cascade => true
  | .setNull _ => false

/-- The row goes with one of the rows it refers to. -/
def Schema.doomed (S : Schema T Row) (gone : T → List String) (t : T) (r : Row t) : Prop :=
  ∃ fk ∈ S.foreignKeys t, fk.onDelete.isCascade = true ∧ fk.hits gone r

instance (S : Schema T Row) (gone : T → List String) (t : T) (r : Row t) :
    Decidable (S.doomed gone t r) :=
  inferInstanceAs (Decidable
    (∃ fk ∈ S.foreignKeys t, fk.onDelete.isCascade = true ∧ fk.hits gone r))

/-- One table's round of the cascade: the keys of its doomed rows are gone as
well. -/
def Schema.spreadStep (S : Schema T Row) (db : Db Row) (gone : T → List String) (t : T) :
    T → List String :=
  Function.update gone t (gone t ++ ((db t).filter (S.doomed gone t ·)).map (S.key t))

/-- All keys that go when the keys in `gone` do, in one pass over the
tables. -/
def Schema.spread (S : Schema T Row) (db : Db Row) (gone : T → List String) : T → List String :=
  S.order.foldl (S.spreadStep db) gone

/-- ON DELETE SET NULL for one foreign key. -/
def ForeignKey.release {ρ : Type} (gone : T → List String) (r : ρ) (fk : ForeignKey T ρ) : ρ :=
  match fk.onDelete with
  | .cascade => r
  | .setNull clear => if fk.hits gone r then clear r else r

/-- Delete the rows whose keys are in `gone`, with all ON DELETE actions. -/
def Schema.cascade (S : Schema T Row) (db : Db Row) (gone : T → List String) : Db Row := fun t =>
  ((db t).filter fun r => S.key t r ∉ S.spread db gone t).map fun r =>
    (S.foreignKeys t).foldl (ForeignKey.release (S.spread db gone)) r

/-- The primary keys of the rows of `t` that satisfy `p`. -/
def Schema.keysWhere (S : Schema T Row) (db : Db Row) (t : T) (p : Row t → Bool) :
    T → List String :=
  Function.update (fun _ => []) t (((db t).filter p).map (S.key t))

/-! ### Statements -/

/-- The rows after DELETE FROM `t` WHERE `p`. -/
def Schema.deleteDb (S : Schema T Row) (enforced : Bool) (db : Db Row) (t : T)
    (p : Row t → Bool) : Db Row :=
  if enforced then S.cascade db (S.keysWhere db t p)
  else db.set t ((db t).filter fun r => !p r)

/-- DELETE FROM `t` WHERE `p`. -/
def Schema.delete (S : Schema T Row) (t : T) (p : Row t → Bool) : Exec (Conn Row) Unit :=
  Exec.modify fun c => { c with db := S.deleteDb c.foreignKeys c.db t p }

/-- The conflict clause of an INSERT. -/
inductive OnConflict where
  | abort
  | ignore
  | replace
  deriving DecidableEq

/-- Append a row, if the references it holds are allowed. -/
def Schema.put (S : Schema T Row) (enforced : Bool) (db : Db Row) (t : T) (r : Row t) :
    Except String (Db Row) :=
  if enforced = true ∧ ¬ S.parentsExist db t r then .error "FOREIGN KEY constraint failed"
  else .ok (db.set t (db t ++ [r]))

/-- The rows after INSERT OR `oc` INTO `t` of one row. -/
def Schema.insertDb (S : Schema T Row) (oc : OnConflict) (enforced : Bool) (db : Db Row) (t : T)
    (r : Row t) : Except String (Db Row) :=
  match oc with
  | .abort =>
      if (db t).any (S.conflicts t r) then .error "UNIQUE constraint failed"
      else S.put enforced db t r
  | .ignore => if (db t).any (S.conflicts t r) then .ok db else S.put enforced db t r
  | .replace =>
      if (db t).any (S.conflicts t r) then
        S.put enforced (S.deleteDb enforced db t (S.conflicts t r)) t r
      else S.put enforced db t r

/-- INSERT OR `oc` INTO `t` of one row. -/
def Schema.insert (S : Schema T Row) (oc : OnConflict) (t : T) (r : Row t) :
    Exec (Conn Row) Unit := fun c =>
  match S.insertDb oc c.foreignKeys c.db t r with
  | .ok db => (.ok (), { c with db := db })
  | .error e => (.error e, c)

/-- INSERT OR `oc` INTO `t` SELECT …: one statement, so an error undoes the
rows it has added. -/
def Schema.insertSelect (S : Schema T Row) (oc : OnConflict) (t : T)
    (rows : Db Row → List (Row t)) : Exec (Conn Row) Unit := fun c =>
  match Exec.forEach (rows c.db) (S.insert oc t) c with
  | (.ok _, c') => (.ok (), c')
  | (.error e, _) => (.error e, c)

/-- No two rows of the table conflict. -/
def Schema.DistinctRows (S : Schema T Row) (t : T) (rows : List (Row t)) : Prop :=
  rows.Pairwise fun r r' => S.conflicts t r r' = false

instance (S : Schema T Row) (t : T) (rows : List (Row t)) : Decidable (S.DistinctRows t rows) :=
  inferInstanceAs (Decidable (rows.Pairwise _))

/-- UPDATE `t` SET `f` WHERE `p`, for updates that leave the primary key and
the foreign keys alone. -/
def Schema.update (S : Schema T Row) (t : T) (p : Row t → Bool) (f : Row t → Row t) :
    Exec (Conn Row) Unit := fun c =>
  let rows := (c.db t).map fun r => if p r then f r else r
  if S.DistinctRows t rows then (.ok (), { c with db := c.db.set t rows })
  else (.error "UNIQUE constraint failed", c)

/-- INSERT INTO `t` … ON CONFLICT(key) DO UPDATE SET `f`. -/
def Schema.upsert (S : Schema T Row) (t : T) (r : Row t) (f : Row t → Row t) :
    Exec (Conn Row) Unit := fun c =>
  if S.hasKey c.db t (S.key t r) then S.update t (fun q => S.key t q == S.key t r) f c
  else S.insert .abort t r c

/-- Any order will do. -/
def anyOrder {ρ : Type} : ρ → ρ → Bool := fun _ _ => true

/-- ORDER BY `f` ASC, then `next`: may the first row come before the
second? -/
def asc {ρ κ : Type} [LT κ] [DecidableLT κ] [BEq κ] (f : ρ → κ) (next : ρ → ρ → Bool) (a b : ρ) :
    Bool :=
  decide (f a < f b) || f a == f b && next a b

/-- ORDER BY `f` DESC, then `next`. -/
def desc {ρ κ : Type} [LT κ] [DecidableLT κ] [BEq κ] (f : ρ → κ) (next : ρ → ρ → Bool) (a b : ρ) :
    Bool :=
  decide (f b < f a) || f a == f b && next a b

/-- The rows of a query in the order it asks for; rows that compare equal
stay in the order of insertion. -/
def orderBy {ρ : Type} (before : ρ → ρ → Bool) (rows : List ρ) : List ρ :=
  rows.insertionSort fun a b => before a b

theorem orderBy_perm {ρ : Type} (before : ρ → ρ → Bool) (rows : List ρ) :
    (orderBy before rows).Perm rows :=
  List.perm_insertionSort _ rows

/-- SELECT * FROM `t` WHERE `p`. -/
def Schema.select (S : Schema T Row) (t : T) (p : Row t → Bool) : Exec (Conn Row) (List (Row t)) :=
  Exec.gets fun c => ((c.db t).filter p).map (S.read t)

/-- SELECT * FROM `t` WHERE `p` ORDER BY `before`. -/
def Schema.selectBy (S : Schema T Row) (t : T) (p : Row t → Bool)
    (before : Row t → Row t → Bool) : Exec (Conn Row) (List (Row t)) :=
  Exec.gets fun c => (orderBy before ((c.db t).filter p)).map (S.read t)

/-- SELECT * FROM `t` WHERE `p` LIMIT 1. -/
def Schema.selectOne (S : Schema T Row) (t : T) (p : Row t → Bool) :
    Exec (Conn Row) (Option (Row t)) :=
  Exec.gets fun c => ((c.db t).find? p).map (S.read t)

/-- `SQLITE_MAX_VARIABLE_NUMBER`. -/
def maxVariables : ℕ := 32766

/-- Prepare a statement with that many variables. -/
def bindVariables (n : ℕ) : Exec (Conn Row) Unit :=
  if n ≤ maxVariables then pure () else Exec.throw "too many SQL variables"

/-- The client gets all of the row. -/
def Schema.Whole (S : Schema T Row) (t : T) (r : Row t) : Prop := S.read t r = r

omit [DecidableEq T] in
theorem Schema.map_read {S : Schema T Row} {t : T} {rows : List (Row t)}
    (h : ∀ r ∈ rows, S.Whole t r) : rows.map (S.read t) = rows :=
  (List.map_congr_left h).trans (List.map_id rows)

omit [DecidableEq T] in
/-- The rows of a query are all there is exactly when the client gets all of
each. -/
theorem Schema.map_read_perm_iff {S : Schema T Row} {t : T} {rows rows' : List (Row t)}
    (hread : ∀ r, S.read t (S.read t r) = S.read t r) (hperm : rows'.Perm rows) :
    (rows'.map (S.read t)).Perm rows ↔ ∀ r ∈ rows, S.Whole t r := by
  constructor
  · intro h r hr
    obtain ⟨q, -, rfl⟩ := List.mem_map.mp (h.mem_iff.mpr hr)
    exact hread q
  · intro h
    have hmap := hperm.map (S.read t)
    rwa [map_read h] at hmap

/-- BEGIN. -/
def begin : Exec (Conn Row) Unit := fun c =>
  match c.saved with
  | none => (.ok (), { c with saved := some c.db })
  | some _ => (.error "cannot start a transaction within a transaction", c)

/-- COMMIT. -/
def commit : Exec (Conn Row) Unit := fun c =>
  match c.saved with
  | some _ => (.ok (), { c with saved := none })
  | none => (.error "cannot commit - no transaction is active", c)

/-- ROLLBACK. -/
def rollback : Exec (Conn Row) Unit := fun c =>
  match c.saved with
  | some db => (.ok (), { c with db := db, saved := none })
  | none => (.error "cannot rollback - no transaction is active", c)

/-- PRAGMA foreign_keys = ON, which does nothing inside a transaction. -/
def pragmaForeignKeysOn : Exec (Conn Row) Unit :=
  Exec.modify fun c => if c.saved.isSome then c else { c with foreignKeys := true }

/-- `Database.export()`: the rows as they are; the connection is closed and
opened again, so its pragmas and its open transaction are lost. -/
def exportDb : Exec (Conn Row) (Db Row) := fun c =>
  (.ok (c.saved.getD c.db), { db := c.saved.getD c.db, foreignKeys := false, saved := none })

end Sql
