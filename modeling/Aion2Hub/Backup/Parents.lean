/-
Aion2Hub/Backup/Parents.lean

The references of a restored database.

An import that nothing is enforced on leaves every reference resolved if the
rows that stay behind find their parents again (`ImportSafe`).  The proof
reads the parser for what the rows of a backup refer to (`parsed_refs`), and
the INSERTs for what becomes of each table (`filled_restoredTables`).
-/
import Aion2Hub.Storage.References
import Mathlib.Data.List.ReduceOption
import Mathlib.Data.Option.Basic

namespace Hub

open Sql Exec

/-! ### What the rows of a backup refer to -/

/-- The keys of the rows in a section of the backup that others refer to. -/
def Backup.ids (b : Backup) : Table → List String
  | .appCharacter => b.characters.map (·.id)
  | .plannerTemplate => b.templates.map (·.id)
  | .economyItem => b.items.map (·.id)
  | .lootRun => b.runs.map (·.id)
  | _ => []

/-- The row refers to keys in `ids` only. -/
def RefersTo (ids : Table → List String) (t : Table) (r : Row t) : Prop :=
  ∀ fk ∈ foreignKeys t, ∀ k ∈ fk.column r, k ∈ ids fk.parent

variable {now : String} {ids : Table → List String} {v : Js}

theorem knownId_mem {key id : String} {known : List String} (h : knownId v key known = some id) :
    id ∈ known := by
  obtain ⟨-, hmem⟩ := Option.filter_eq_some_iff.mp h
  exact of_decide_eq_true hmem

theorem nonEmpty_knownId_mem {key id : String} {known : List String}
    (h : nonEmpty (knownId v key known) = some id) : id ∈ known :=
  knownId_mem (Option.filter_eq_some_iff.mp h).1

theorem refersTo_single {t parent : Table} {r : Row t} {col : Row t → Option String}
    {od : OnDelete (Row t)} (hfk : foreignKeys t = [⟨parent, col, od⟩])
    (h : ∀ k ∈ col r, k ∈ ids parent) : RefersTo ids t r := by
  intro fk hmem k hk
  rw [hfk] at hmem
  obtain rfl := List.mem_singleton.mp hmem
  exact h k hk

theorem refersTo_pair {t p₁ p₂ : Table} {r : Row t} {col₁ col₂ : Row t → Option String}
    {od₁ od₂ : OnDelete (Row t)} (hfk : foreignKeys t = [⟨p₁, col₁, od₁⟩, ⟨p₂, col₂, od₂⟩])
    (h₁ : ∀ k ∈ col₁ r, k ∈ ids p₁) (h₂ : ∀ k ∈ col₂ r, k ∈ ids p₂) : RefersTo ids t r := by
  intro fk hmem k hk
  rw [hfk] at hmem
  rcases List.mem_pair.mp hmem with rfl | rfl
  · exact h₁ k hk
  · exact h₂ k hk

theorem mem_some {id k : String} {known : List String} (h : id ∈ known) (hk : k ∈ some id) :
    k ∈ known :=
  Option.mem_some_iff.mp hk ▸ h

theorem refersTo_parsePrice {r : EconomyPrice} (h : parsePrice now (ids .economyItem) v = some r) :
    RefersTo ids .economyPrice r := by
  simp only [parsePrice, Option.bind_eq_bind, Option.bind_eq_some_iff, Option.pure_def,
    Option.some.injEq] at h
  obtain ⟨id, -, itemId, hitem, server, -, rfl⟩ := h
  exact refersTo_single rfl fun k hk => mem_some (knownId_mem hitem) hk

theorem refersTo_parseWatch {r : EconomyPriceWatch}
    (h : parseWatch now (ids .economyItem) v = some r) : RefersTo ids .economyPriceWatch r := by
  simp only [parseWatch, Option.bind_eq_bind, Option.bind_eq_some_iff, Option.pure_def,
    Option.some.injEq] at h
  obtain ⟨id, -, itemId, hitem, server, -, op, -, rfl⟩ := h
  exact refersTo_single rfl fun k hk => mem_some (knownId_mem hitem) hk

theorem refersTo_parseBuildScore {r : BuildScoreRow}
    (h : parseBuildScore now (ids .appCharacter) v = some r) : RefersTo ids .buildScore r := by
  simp only [parseBuildScore, Option.bind_eq_bind, Option.bind_eq_some_iff, Option.pure_def,
    Option.some.injEq] at h
  obtain ⟨characterId, hcharacter, rfl⟩ := h
  exact refersTo_single rfl fun k hk => mem_some (knownId_mem hcharacter) hk

theorem refersTo_parsePreset {r : BuildScorePresetRow}
    (h : parsePreset now (ids .appCharacter) v = some r) : RefersTo ids .buildScorePreset r := by
  simp only [parsePreset, Option.bind_eq_bind, Option.bind_eq_some_iff, Option.pure_def,
    Option.some.injEq] at h
  obtain ⟨id, -, characterId, hcharacter, name, -, stats, -, rfl⟩ := h
  exact refersTo_single rfl fun k hk => mem_some (knownId_mem hcharacter) hk

theorem refersTo_parseLootRun {r : LootRun} (h : parseLootRun now (ids .appCharacter) v = some r) :
    RefersTo ids .lootRun r := by
  simp only [parseLootRun, Option.bind_eq_bind, Option.bind_eq_some_iff, Option.pure_def,
    Option.some.injEq] at h
  obtain ⟨id, -, characterId, hcharacter, content, -, rfl⟩ := h
  exact refersTo_single rfl fun k hk => mem_some (knownId_mem hcharacter) hk

theorem refersTo_parseDrop {r : LootRunDrop}
    (h : parseDrop now (ids .lootRun) (ids .economyItem) v = some r) :
    RefersTo ids .lootRunDrop r := by
  simp only [parseDrop, Option.bind_eq_bind, Option.bind_eq_some_iff, Option.pure_def,
    Option.some.injEq] at h
  obtain ⟨id, -, runId, hrun, itemName, -, -, -, rfl⟩ := h
  exact refersTo_pair rfl (fun k hk => mem_some (knownId_mem hrun) hk) fun k hk => knownId_mem hk

/-- Only a cost in items keeps its item. -/
theorem refersTo_parseCost {r : LootRunCost}
    (h : parseCost now (ids .lootRun) (ids .economyItem) v = some r) :
    RefersTo ids .lootRunCost r := by
  simp only [parseCost, Option.bind_eq_bind, Option.bind_eq_some_iff, Option.pure_def,
    Option.some.injEq] at h
  obtain ⟨id, -, runId, hrun, kind, -, rfl⟩ := h
  refine refersTo_pair rfl (fun k hk => mem_some (knownId_mem hrun) hk) fun k hk => ?_
  by_cases hkind : kind = .item
  · have hk : (if kind = .item then knownId v "itemId" (ids .economyItem) else none) = some k := hk
    rw [if_pos hkind] at hk
    exact knownId_mem hk
  · have hk : (if kind = .item then knownId v "itemId" (ids .economyItem) else none) = some k := hk
    rw [if_neg hkind] at hk
    cases hk

theorem refersTo_parseAssignment {r : PlannerAssignment}
    (h : parseAssignment now (ids .appCharacter) (ids .plannerTemplate) v = some r) :
    RefersTo ids .plannerAssignment r := by
  simp only [parseAssignment, Option.bind_eq_bind, Option.bind_eq_some_iff, Option.pure_def,
    Option.some.injEq] at h
  obtain ⟨id, -, characterId, hcharacter, templateId, htemplate, rfl⟩ := h
  exact refersTo_pair rfl (fun k hk => mem_some (nonEmpty_knownId_mem hcharacter) hk)
    fun k hk => mem_some (nonEmpty_knownId_mem htemplate) hk

theorem refersTo_parseCompletion {r : PlannerCompletion}
    (h : parseCompletion (ids .appCharacter) (ids .plannerTemplate) v = some r) :
    RefersTo ids .plannerCompletion r := by
  simp only [parseCompletion, Option.bind_eq_bind, Option.bind_eq_some_iff, Option.pure_def,
    Option.some.injEq] at h
  obtain ⟨id, -, characterId, hcharacter, templateId, htemplate, periodKey, -, completedAt, -,
    rfl⟩ := h
  exact refersTo_pair rfl (fun k hk => mem_some (nonEmpty_knownId_mem hcharacter) hk)
    fun k hk => mem_some (nonEmpty_knownId_mem htemplate) hk

theorem refersTo_parseChargeUse {r : PlannerChargeUse}
    (h : parseChargeUse (ids .appCharacter) (ids .plannerTemplate) v = some r) :
    RefersTo ids .plannerChargeUse r := by
  simp only [parseChargeUse, Option.bind_eq_bind, Option.bind_eq_some_iff, Option.pure_def,
    Option.some.injEq] at h
  obtain ⟨id, -, characterId, hcharacter, templateId, htemplate, usedAt, -, rfl⟩ := h
  exact refersTo_pair rfl (fun k hk => mem_some (nonEmpty_knownId_mem hcharacter) hk)
    fun k hk => mem_some (nonEmpty_knownId_mem htemplate) hk

/-- The check of a duration's template skips the empty text, which is then
stored as it is. -/
theorem refersTo_parseDuration {r : PlannerDuration}
    (h : parseDuration (ids .appCharacter) (ids .plannerTemplate) v = some r)
    (hempty : r.templateId = some "" → "" ∈ ids .plannerTemplate) :
    RefersTo ids .plannerDuration r := by
  simp only [parseDuration, Option.bind_eq_bind, Option.bind_eq_some_iff, Option.pure_def,
    Option.some.injEq] at h
  obtain ⟨id, -, characterId, hcharacter, _, hknown, startedAt, -, endedAt, -, rfl⟩ := h
  refine refersTo_pair rfl (fun k hk => mem_some (nonEmpty_knownId_mem hcharacter) hk)
    fun k hk => ?_
  by_cases hk₀ : k = ""
  · subst hk₀
    exact hempty hk
  · have hguard := (Option.guard_eq_some' _).mp hknown
    exact hguard k (Option.filter_eq_some_iff.mpr ⟨hk, by simpa using hk₀⟩)

/-- What an INSERT binds refers to what the parsed row referred to. -/
theorem refersTo_bound {t : Table} {bound : Row t → Option (Row t)}
    (hcolumns : ∀ r q, bound r = some q → ∀ fk ∈ foreignKeys t, fk.column q = fk.column r)
    {r q : Row t} (hq : bound r = some q) (h : RefersTo ids t r) : RefersTo ids t q := by
  intro fk hfk k hk
  rw [hcolumns r q hq fk hfk] at hk
  exact h fk hfk k hk

/-- The rows that an import inserts into a table have parents in the backup,
if no duration carries an empty template id. -/
theorem refersTo_parseBackup {raw : Js} {version : Number} {t : Table} {r : Row t}
    (hempty : ∀ d ∈ (parseBackup raw version now).durations, d.templateId = some "" →
      "" ∈ (parseBackup raw version now).ids .plannerTemplate)
    (hr : some r ∈ (parseBackup raw version now).rows t) :
    RefersTo (parseBackup raw version now).ids t r := by
  cases t
  case economyPrice =>
      obtain ⟨r₀, hr₀, hbound⟩ := List.mem_map.mp hr
      obtain ⟨v, -, hv⟩ := List.mem_filterMap.mp hr₀
      refine refersTo_bound (fun r q hq fk hfk => ?_) hbound (refersTo_parsePrice hv)
      obtain ⟨x, -, rfl⟩ := Option.map_eq_some_iff.mp hq
      obtain rfl := List.mem_singleton.mp hfk
      rfl
  case economyPriceWatch =>
      obtain ⟨r₀, hr₀, hbound⟩ := List.mem_map.mp hr
      obtain ⟨v, -, hv⟩ := List.mem_filterMap.mp hr₀
      refine refersTo_bound (fun r q hq fk hfk => ?_) hbound (refersTo_parseWatch hv)
      obtain ⟨x, -, rfl⟩ := Option.map_eq_some_iff.mp hq
      obtain rfl := List.mem_singleton.mp hfk
      rfl
  case buildScore =>
      obtain ⟨r₀, hr₀, hbound⟩ := List.mem_map.mp hr
      obtain rfl := Option.some.inj hbound
      obtain ⟨v, -, hv⟩ := List.mem_filterMap.mp hr₀
      exact refersTo_parseBuildScore hv
  case buildScorePreset =>
      obtain ⟨r₀, hr₀, hbound⟩ := List.mem_map.mp hr
      obtain rfl := Option.some.inj hbound
      obtain ⟨v, -, hv⟩ := List.mem_filterMap.mp hr₀
      exact refersTo_parsePreset hv
  case lootRun =>
      obtain ⟨r₀, hr₀, hbound⟩ := List.mem_map.mp hr
      obtain ⟨v, -, hv⟩ := List.mem_filterMap.mp hr₀
      refine refersTo_bound (fun r q hq fk hfk => ?_) hbound (refersTo_parseLootRun hv)
      obtain rfl := Option.some.inj hq
      obtain rfl := List.mem_singleton.mp hfk
      rfl
  case lootRunDrop =>
      obtain ⟨r₀, hr₀, hbound⟩ := List.mem_map.mp hr
      obtain ⟨v, -, hv⟩ := List.mem_filterMap.mp hr₀
      refine refersTo_bound (fun r q hq fk hfk => ?_) hbound (refersTo_parseDrop hv)
      obtain ⟨x, -, rfl⟩ := Option.map_eq_some_iff.mp hq
      rcases List.mem_pair.mp hfk with rfl | rfl <;> rfl
  case lootRunCost =>
      obtain ⟨r₀, hr₀, hbound⟩ := List.mem_map.mp hr
      obtain ⟨v, -, hv⟩ := List.mem_filterMap.mp hr₀
      refine refersTo_bound (fun r q hq fk hfk => ?_) hbound (refersTo_parseCost hv)
      obtain rfl := Option.some.inj hq
      rcases List.mem_pair.mp hfk with rfl | rfl <;> rfl
  case plannerAssignment =>
      obtain ⟨r₀, hr₀, hbound⟩ := List.mem_map.mp hr
      obtain rfl := Option.some.inj hbound
      obtain ⟨v, -, hv⟩ := List.mem_filterMap.mp hr₀
      exact refersTo_parseAssignment hv
  case plannerCompletion =>
      obtain ⟨r₀, hr₀, hbound⟩ := List.mem_map.mp hr
      obtain rfl := Option.some.inj hbound
      obtain ⟨v, -, hv⟩ := List.mem_filterMap.mp hr₀
      exact refersTo_parseCompletion hv
  case plannerChargeUse =>
      obtain ⟨r₀, hr₀, hbound⟩ := List.mem_map.mp hr
      obtain rfl := Option.some.inj hbound
      obtain ⟨v, -, hv⟩ := List.mem_filterMap.mp hr₀
      exact refersTo_parseChargeUse hv
  case plannerDuration =>
      obtain ⟨r₀, hr₀, hbound⟩ := List.mem_map.mp hr
      have hdefined := hempty r₀ hr₀
      obtain ⟨v, -, hv⟩ := List.mem_filterMap.mp hr₀
      refine refersTo_bound (fun r q hq fk hfk => ?_) hbound (refersTo_parseDuration hv hdefined)
      obtain ⟨x, -, rfl⟩ := Option.map_eq_some_iff.mp hq
      rcases List.mem_pair.mp hfk with rfl | rfl <;> rfl
  -- the other tables have no foreign keys, or nothing is inserted into them
  all_goals first
    | exact fun fk hfk => absurd hfk List.not_mem_nil
    | exact absurd hr List.not_mem_nil

/-! ### What becomes of the tables -/

theorem filled_insertTable {b : Backup} {oc : OnConflict} {t : Table} {c d : Conn}
    (hoff : c.foreignKeys = false) (h : b.insertTable (t, oc) c = (.ok (), d)) :
    Filled schema oc t (c.db t) (b.rows t).reduceOption (d.db t) ∧
      (oc ≠ .ignore → none ∉ b.rows t) ∧ (∀ t' ≠ t, d.db t' = c.db t') ∧
        d.foreignKeys = false := by
  have hloop : ∀ (rows : List (Option (Row t))) (c : Conn), c.foreignKeys = false →
      Exec.forEach rows (insertRow oc t) c = (.ok (), d) →
      Filled schema oc t (c.db t) rows.reduceOption (d.db t) ∧ (oc ≠ .ignore → none ∉ rows) ∧
        (∀ t' ≠ t, d.db t' = c.db t') ∧ d.foreignKeys = false := by
    intro rows
    induction rows with
    | nil =>
        intro c hoff h
        cases h
        exact ⟨Filled.nil, fun _ => List.not_mem_nil, fun _ _ => rfl, hoff⟩
    | cons o rows ih =>
        intro c hoff h
        obtain ⟨u, mid, hmid, hrest⟩ := bind_eq_ok h
        cases o with
        | none =>
            -- only OR IGNORE goes on after a row it cannot store
            by_cases hoc : oc = .ignore
            · rw [insertRow, if_pos hoc] at hmid
              cases hmid
              obtain ⟨hf, -, hsame, hoff'⟩ := ih c hoff hrest
              exact ⟨hf, fun hne => absurd hoc hne, hsame, hoff'⟩
            · rw [insertRow, if_neg hoc] at hmid
              cases hmid
        | some r =>
            obtain ⟨hone, hsame, hoff'⟩ := filled_insert hoff hmid
            obtain ⟨hf, hnone, hsame', hoff''⟩ := ih mid hoff' hrest
            refine ⟨hone.cons hf, fun hne => ?_, fun t' ht' => ?_, hoff''⟩
            · exact fun hmem => hnone hne (by simpa using hmem)
            · rw [hsame' t' ht', hsame t' ht']
  exact hloop (b.rows t) c hoff h

/-- The tables are filled one after the other, each from what it held
before. -/
theorem filled_forEach {b : Backup} {d : Conn} {l : List (Table × OnConflict)}
    (hl : (l.map (·.1)).Nodup) {c : Conn} (hoff : c.foreignKeys = false)
    (h : Exec.forEach l b.insertTable c = (.ok (), d)) :
    (∀ p ∈ l, Filled schema p.2 p.1 (c.db p.1) (b.rows p.1).reduceOption (d.db p.1) ∧
        (p.2 ≠ .ignore → none ∉ b.rows p.1)) ∧
      (∀ t ∉ l.map (·.1), d.db t = c.db t) ∧ d.foreignKeys = false := by
  induction l generalizing c with
  | nil =>
      cases h
      exact ⟨fun p hp => absurd hp List.not_mem_nil, fun _ _ => rfl, hoff⟩
  | cons p l ih =>
      have hp : p.1 ∉ l.map (·.1) := (List.nodup_cons.mp hl).1
      have hl := (List.nodup_cons.mp hl).2
      obtain ⟨u, mid, hmid, hrest⟩ := bind_eq_ok h
      obtain ⟨hf, hnone, hsame, hoff'⟩ := filled_insertTable hoff hmid
      obtain ⟨hfs, hsame', hoff''⟩ := ih hl hoff' hrest
      refine ⟨fun q hq => ?_, fun t ht => ?_, hoff''⟩
      · rcases List.mem_cons.mp hq with rfl | hq
        · rw [hsame' q.1 hp]
          exact ⟨hf, hnone⟩
        · have hne : q.1 ≠ p.1 := fun heq => hp (List.mem_map.mpr ⟨q, hq, heq⟩)
          rw [← hsame q.1 hne]
          exact hfs q hq
      · obtain ⟨hne, hrest⟩ := not_or.mp (mt List.mem_cons.mpr ht)
        rw [hsame' t hrest, hsame t hne]

/-! ### Which rows find their parents again -/

/-- The import leaves an item under this key: one that no later item of the
backup replaces. -/
def Backup.KeepsItem (b : Backup) (k : String) : Prop :=
  ∃ pre x post, b.items = pre ++ x :: post ∧ x.id = k ∧ ∀ y ∈ post, y.id ≠ k ∧ y.name ≠ x.name

/-- The import leaves a parent under this key, if there was one.  Loot runs
are never deleted, only replaced under their own key. -/
def Backup.Restores (b : Backup) : Table → String → Prop
  | .economyItem, k => b.KeepsItem k
  | .lootRun, _ => True
  | parent, k => k ∈ b.ids parent

/-- The rows that an import leaves behind and those it brings find their
parents. -/
structure ImportSafe (db : Db Row) (b : Backup) : Prop where
  leftover : ∀ t ∈ childTables, ∀ r ∈ db t,
    ((t, .replace) ∈ restoredTables → ∀ q, some q ∈ b.rows t → schema.conflicts t q r = false) →
    ∀ fk ∈ foreignKeys t, ∀ k ∈ fk.column r, b.Restores fk.parent k
  items : ∀ t r, some r ∈ b.rows t → ∀ fk ∈ foreignKeys t, fk.parent = .economyItem →
    ∀ k ∈ fk.column r, b.KeepsItem k
  durations : ∀ d ∈ b.durations, d.templateId = some "" → "" ∈ b.ids .plannerTemplate

/-- The keys the backup restores are there after its INSERTs. -/
theorem hasKey_of_restores {b : Backup} {before after : Db Row} {parent : Table} {k : String}
    (hparent : parent = .appCharacter ∨ parent = .plannerTemplate ∨ parent = .economyItem)
    (hfilled : ∀ p ∈ restoredTables, Filled schema p.2 p.1 (before p.1)
      (b.rows p.1).reduceOption (after p.1) ∧ (p.2 ≠ .ignore → none ∉ b.rows p.1))
    (hk : b.Restores parent k) : schema.hasKey after parent k := by
  -- a row of a table filled by plain INSERTs is there
  have habort : ∀ t, (t, OnConflict.abort) ∈ restoredTables → ∀ r, some r ∈ b.rows t →
      schema.hasKey after t (key t r) := by
    intro t ht r hr
    obtain ⟨pre, post, hsplit⟩ := List.append_of_mem (List.reduceOption_mem_iff.mpr hr)
    have hne : OnConflict.abort ≠ .ignore := by decide
    exact ⟨r, (hfilled _ ht).1.added hne pre r post hsplit nofun, rfl⟩
  rcases hparent with rfl | rfl | rfl
  · obtain ⟨r, hr, rfl⟩ := List.mem_map.mp (show k ∈ b.characters.map (·.id) from hk)
    exact habort .appCharacter (by decide) r (List.mem_map_of_mem hr)
  · obtain ⟨r, hr, rfl⟩ := List.mem_map.mp (show k ∈ b.templates.map (·.id) from hk)
    have hmem : PlannerTemplate.bound r ∈ b.rows .plannerTemplate := List.mem_map_of_mem hr
    cases hbound : PlannerTemplate.bound r with
    | none =>
        rw [hbound] at hmem
        exact absurd hmem ((hfilled (.plannerTemplate, .abort) (by decide)).2 (by decide))
    | some q =>
        rw [hbound] at hmem
        obtain ⟨x, -, rfl⟩ := Option.map_eq_some_iff.mp hbound
        have hkey := habort .plannerTemplate (by decide) _ hmem
        exact hkey
  · obtain ⟨pre, x, post, hsplit, rfl, hlater⟩ := hk
    have hrows : (b.rows .economyItem).reduceOption = pre ++ x :: post := by
      show (b.items.map some).reduceOption = _
      rw [hsplit, List.reduceOption, List.filterMap_map]
      exact List.filterMap_some
    refine ⟨x, (hfilled (.economyItem, .replace) (by decide)).1.added (by decide) pre x post hrows
      fun _ y hy => ?_, rfl⟩
    obtain ⟨hid, hname⟩ := hlater y hy
    have hno : ¬ schema.conflicts .economyItem y x = true := by
      rw [conflicts_iff]
      rintro (h | ⟨u, hu, h⟩)
      · exact hid h
      · obtain rfl := List.mem_singleton.mp hu
        exact hname (List.head_eq_of_cons_eq h)
    simpa using hno

/-- Outside the notices there are four parents. -/
theorem parent_cases {t : Table} (ht : t ∈ restoredTables.map (·.1))
    {fk : ForeignKey Table (Row t)} (hfk : fk ∈ foreignKeys t) :
    fk.parent = .lootRun ∨
      fk.parent = .appCharacter ∨ fk.parent = .plannerTemplate ∨ fk.parent = .economyItem := by
  revert fk ht
  cases t <;> simp [restoredTables, foreignKeys]

/-- The tables that no restore fills refer to notices only, or are the
alerts. -/
theorem parent_cases_of_notMem {t : Table} (ht : t ∉ restoredTables.map (·.1))
    {fk : ForeignKey Table (Row t)} (hfk : fk ∈ foreignKeys t) :
    t ∈ [Table.noticeItem, .noticeSnapshot, .noticeDiff] ∧
        fk.parent ∈ [Table.noticeItem, .noticeSnapshot, .noticeDiff] ∨ t = .economyAlertEvent := by
  revert fk ht
  cases t <;> simp [restoredTables, foreignKeys]

/-- What a backup names it restores, apart from items that are replaced. -/
theorem restores_of_mem_ids {b : Backup} {parent : Table} {k : String} (h : k ∈ b.ids parent)
    (hitem : parent = .economyItem → b.KeepsItem k) : b.Restores parent k := by
  cases parent <;> first
    | exact hitem rfl
    | exact trivial
    | exact h

/-- After the INSERTs of a safe import, before the last statement, every
reference resolves. -/
theorem resolved_of_filled {raw : Js} {version : Number} {db before after : Db Row}
    (hres : schema.Resolved db)
    (hsafe : ImportSafe db (parseBackup raw version now))
    (hbefore : ∀ t, t ≠ .plannerSettings → t ≠ .appSetting →
      before t = if t ∈ clearedTables then [] else db t)
    (hfilled : ∀ p ∈ restoredTables, Filled schema p.2 p.1 (before p.1)
      ((parseBackup raw version now).rows p.1).reduceOption (after p.1) ∧
        (p.2 ≠ .ignore → none ∉ (parseBackup raw version now).rows p.1))
    (hother : ∀ t ∉ restoredTables.map (·.1), after t = before t) :
    schema.Resolved after := by
  have hruns := hfilled (.lootRun, .replace) (by decide)
  intro t r hr fk hfk k hk
  by_cases hrestored : t ∈ restoredTables.map (·.1)
  · -- it is enough that the backup restores the parent, or that it is a run that is there
    suffices hparent : (parseBackup raw version now).Restores fk.parent k ∧
        (fk.parent = .lootRun → schema.hasKey after .lootRun k) by
      rcases parent_cases hrestored hfk with hloot | hcases
      · rw [hloot]
        exact hparent.2 hloot
      · exact hasKey_of_restores hcases hfilled hparent.1
    obtain ⟨⟨t, oc⟩, hp, rfl⟩ := List.mem_map.mp hrestored
    rcases (hfilled (t, oc) hp).1.origin r hr with hnew | ⟨hold, hno⟩
    · -- a row of the backup
      have hrow := List.reduceOption_mem_iff.mp hnew
      have hmem := refersTo_parseBackup hsafe.durations hrow fk hfk k hk
      refine ⟨restores_of_mem_ids hmem fun hitem => hsafe.items t r hrow fk hfk hitem k hk, ?_⟩
      intro hloot
      rw [hloot] at hmem
      obtain ⟨run, hrun, rfl⟩ := List.mem_map.mp hmem
      have hbound : some _ ∈ (parseBackup raw version now).rows .lootRun :=
        List.mem_map_of_mem (f := LootRun.bound) hrun
      have hthere := hruns.1.key_added rfl (by decide) (List.reduceOption_mem_iff.mpr hbound)
      exact hthere
    · -- a row that was left behind
      have hchild : ∀ t, t ∈ restoredTables.map (·.1) →
          t ≠ .plannerSettings ∧ t ≠ .appSetting ∧ (t ∈ clearedTables ∨ t ∈ childTables) := by
        decide
      obtain ⟨hne, hne', hwhere⟩ := hchild t hrestored
      rw [hbefore t hne hne'] at hold
      rcases hwhere with hcleared | hchild
      · rw [if_pos hcleared] at hold
        exact absurd hold List.not_mem_nil
      · have hkept : t ∉ clearedTables := by
          intro hcleared
          rw [if_pos hcleared] at hold
          exact absurd hold List.not_mem_nil
        rw [if_neg hkept] at hold
        have honce : ∀ p ∈ restoredTables, ∀ q ∈ restoredTables, p.1 = q.1 → p.2 = q.2 := by decide
        refine ⟨hsafe.leftover t hchild r hold (fun hreplace q hq => ?_) fk hfk k hk, ?_⟩
        · exact hno (honce _ hp _ hreplace rfl) q (List.reduceOption_mem_iff.mpr hq)
        · intro hloot
          have hthere := hres t r hold fk hfk k hk
          rw [hloot] at hthere
          obtain ⟨run, hrun, rfl⟩ := hthere
          refine hruns.1.keys rfl run ?_
          show run ∈ before .lootRun
          rw [hbefore .lootRun (by decide) (by decide)]
          exact hrun
  · -- notices, which no import touches, or tables without references or rows
    have hframe : ∀ t ∈ [Table.noticeItem, .noticeSnapshot, .noticeDiff], after t = db t := by
      intro t ht
      have hplace : ∀ t ∈ [Table.noticeItem, .noticeSnapshot, .noticeDiff],
          t ∉ restoredTables.map (·.1) ∧ t ≠ .plannerSettings ∧ t ≠ .appSetting ∧
            t ∉ clearedTables := by decide
      obtain ⟨h₁, h₂, h₃, h₄⟩ := hplace t ht
      rw [hother t h₁, hbefore t h₂ h₃, if_neg h₄]
    rcases parent_cases_of_notMem hrestored hfk with ⟨ht, hp⟩ | rfl
    · rw [hframe t ht] at hr
      obtain ⟨q, hq, hqk⟩ := hres t r hr fk hfk k hk
      exact ⟨q, by rwa [hframe fk.parent hp], hqk⟩
    · rw [hother _ hrestored, hbefore _ (by decide) (by decide), if_pos (by decide)] at hr
      exact absurd hr List.not_mem_nil

/-- **A safe import keeps every reference resolved**, though nothing is
enforced. -/
theorem resolved_importUserBackup {raw : Js} {now : ℤ} {c : Conn} (hoff : c.foreignKeys = false)
    (hsaved : c.saved = none) (hres : schema.Resolved c.db)
    (hsafe : ∀ version, schemaVersion raw = some version →
      ImportSafe c.db (parseBackup raw version (stamp now))) :
    schema.Resolved (importUserBackup raw now c).2.db := by
  rcases h : importUserBackup raw now c with ⟨e | u, d⟩
  · rcases importUserBackup_cases hsaved with ⟨_, _, _, _, h'⟩ | ⟨_, h'⟩
    · rw [h] at h'
      cases h'
    · rw [h] at h'
      cases h'
      exact hres
  · obtain ⟨version, d', hv, hinsert, hdb⟩ := importUserBackup_off hoff hsaved h
    obtain ⟨_, s₁, h₁, hrest⟩ := bind_eq_ok hinsert
    obtain ⟨_, s₂, h₂, hrest⟩ := bind_eq_ok hrest
    obtain ⟨_, s₃, h₃, hselect⟩ := bind_eq_ok hrest
    obtain ⟨-, -, hframe₁, hoff₁⟩ := filled_insertTable rfl h₁
    obtain ⟨hframe₂, hoff₂⟩ := restoreActive_frame h₂
    obtain ⟨hfilled, hother, hoff₃⟩ := filled_forEach (by decide) (hoff₂.trans hoff₁) h₃
    have hres₃ : schema.Resolved s₃.db := by
      refine resolved_of_filled hres (hsafe version hv) (fun t ht ht' => ?_) hfilled hother
      rw [hframe₂ t ht', hframe₁ t ht]
    -- the last statement assigns the templates that are there to the characters that are
    have hlast : Holds (fun _ _ => False) (schema.insertSelect .ignore .plannerAssignment
        (autoAssignments (stamp now)) s₃).2 := by
      refine (holding_insertSelect (by decide) fun c hc r hr => ?_).apply
        ⟨hoff₃, hres₃, fun _ _ => False.elim⟩
      obtain ⟨q, hq, hr⟩ := List.mem_flatMap.mp hr
      obtain ⟨t, ht, rfl⟩ := List.mem_map.mp hr
      exact parentsExist_pair rfl ⟨q, hq, rfl⟩ ⟨t, ht, rfl⟩
    rw [hselect] at hlast
    show schema.Resolved d.db
    rw [hdb]
    exact hlast.resolved

end Hub
