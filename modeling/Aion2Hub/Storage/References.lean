/-
Aion2Hub/Storage/References.lean

References over whole runs of the application.

In the running application foreign keys are off (`Reachable.flags`), so an
operation keeps every reference resolved only if its caller sees to it.
`OpSafe` says, operation by operation, what there is to see to: a delete takes
only rows that nothing refers to, and an insert names parents that exist.
The operations without a case there look their parents up themselves, or
write rows that refer to nothing.

For an import (`ImportSafe`) the rows of the child tables, which stay, must
find their parents again in the backup; an item must not be replaced by a
later one of the same name; and a duration must not carry an empty template
id.
-/
import Aion2Hub.Storage.Lifecycle
import Aion2Hub.Lib.Frame
import Aion2Hub.Lib.References

namespace Hub

open Sql Exec

/-- What every operation is proved to keep: references resolve, and the rows
in `K` are there. -/
abbrev Holds (K : Table → String → Prop) : Conn → Prop := Holding schema K

variable {K : Table → String → Prop} {host : Host}

/-- Parents that are in `K` exist. -/
theorem parentsExist_of_keys {t : Table} {r : Row t}
    (h : ∀ fk ∈ foreignKeys t, ∀ k ∈ fk.column r, K fk.parent k) (c : Conn) (hc : Holds K c) :
    schema.parentsExist c.db t r :=
  fun fk hfk k hk => hc.keys _ _ (h fk hfk k hk)

/-- A row of a table without foreign keys. -/
theorem parentsExist_of_nil {t : Table} {r : Row t} (h : foreignKeys t = []) (c : Conn)
    (_ : Holds K c) : schema.parentsExist c.db t r := by
  intro fk hfk
  have : fk ∈ foreignKeys t := hfk
  rw [h] at this
  exact absurd this List.not_mem_nil

/-- The tables that some foreign key refers to. -/
def parentTables : List Table :=
  [.noticeItem, .noticeSnapshot, .appCharacter, .plannerTemplate, .economyItem, .lootRun]

theorem leaf_of_notMem {t : Table} (h : t ∉ parentTables) : schema.Leaf t := by
  have hmem : ∀ t', ∀ fk ∈ foreignKeys t', fk.parent ∈ parentTables := by
    intro t'
    cases t' <;> simp [foreignKeys, parentTables]
  intro t' fk hfk hp
  exact h (hp ▸ hmem t' fk hfk)

/-- The references of a row to two tables, both by columns that are never
NULL. -/
theorem parentsExist_pair {t t₁ t₂ : Table} {r : Row t} {col₁ col₂ : Row t → String}
    {od₁ od₂ : OnDelete (Row t)}
    (h : foreignKeys t = [⟨t₁, fun r => some (col₁ r), od₁⟩, ⟨t₂, fun r => some (col₂ r), od₂⟩])
    {c : Conn} (h₁ : schema.hasKey c.db t₁ (col₁ r)) (h₂ : schema.hasKey c.db t₂ (col₂ r)) :
    schema.parentsExist c.db t r := by
  intro fk hfk k hk
  have hfk : fk ∈ foreignKeys t := hfk
  rw [h] at hfk
  rcases List.mem_pair.mp hfk with rfl | rfl
  · exact Option.mem_some_iff.mp hk ▸ h₁
  · exact Option.mem_some_iff.mp hk ▸ h₂

/-- The reference of a row to one table. -/
theorem parentsExist_single {t t₁ : Table} {r : Row t} {col₁ : Row t → String}
    {od₁ : OnDelete (Row t)} (h : foreignKeys t = [⟨t₁, fun r => some (col₁ r), od₁⟩])
    {c : Conn} (h₁ : schema.hasKey c.db t₁ (col₁ r)) : schema.parentsExist c.db t r := by
  intro fk hfk k hk
  have hfk : fk ∈ foreignKeys t := hfk
  rw [h] at hfk
  obtain rfl := List.mem_singleton.mp hfk
  exact Option.mem_some_iff.mp hk ▸ h₁

/-! ### Characters, settings, templates -/

theorem holds_setSetting {key : String} {value : Option String} :
    Keeps (Holds fun _ _ => False) (setSetting key value) := by
  cases value with
  | none => exact keeps_delete_leaf (leaf_of_notMem (by decide))
  | some v =>
      exact holding_upsert (parentsExist_of_nil rfl) (fun _ => rfl) fun fk hfk =>
        absurd hfk List.not_mem_nil

/-- A new character is assigned every template there is. -/
theorem holds_createCharacter {input : CharacterInput} {id : String} {now : ℤ} :
    Keeps (Holds K) (createCharacter input id now) := by
  refine Triple.bind (holding_insert_abort (parentsExist_of_nil rfl)) fun _ => ?_
  refine Triple.bind (Q := fun _ => Holds K) ?_ fun _ => Keeps.pure
  refine holding_forget (holding_insertSelect (by decide) fun c hc r hr => ?_)
  obtain ⟨t, ht, rfl⟩ := List.mem_map.mp hr
  exact parentsExist_pair rfl (hc.keys _ _ (.inr ⟨rfl, rfl⟩)) ⟨t, ht, rfl⟩

/-- A new template is assigned to every character there is. -/
theorem holds_createPlannerTemplate {input : TemplateInput} {draw : Draw} :
    Keeps (Holds K) (createPlannerTemplate input draw) := by
  refine Triple.bind (Q := fun _ => Holds K) Keeps.ofOption fun minutes => ?_
  refine Triple.bind (holding_insert_abort (parentsExist_of_nil rfl)) fun _ => ?_
  refine Triple.bind (Q := fun _ => Holds K) ?_ fun _ => Keeps.pure
  refine holding_forget (holding_insertSelect (by decide) fun c hc r hr => ?_)
  obtain ⟨q, hq, rfl⟩ := List.mem_map.mp hr
  exact parentsExist_pair rfl ⟨q, hq, rfl⟩ (hc.keys _ _ (.inr ⟨rfl, rfl⟩))

theorem holds_updatePlannerTemplate {id : String} {input : TemplateInput} {now : ℤ} :
    Keeps (Holds K) (updatePlannerTemplate id input now) := by
  unfold updatePlannerTemplate
  split
  · exact holding_update (fun _ => rfl) fun fk hfk => absurd hfk List.not_mem_nil
  · refine Keeps.bind Keeps.gets fun row => ?_
    split
    · exact Keeps.throw
    · exact Keeps.pure

theorem holds_createMissing {draws : ℕ → Draw} {ts : List TemplateInput}
    {existingKeys : List String} {created skipped : ℕ} :
    Keeps (Holds K) (createMissing host draws ts existingKeys created skipped) := by
  induction ts generalizing existingKeys created skipped with
  | nil => exact Keeps.pure
  | cons t ts ih =>
      unfold createMissing
      split
      · exact ih
      · exact holds_createPlannerTemplate.bind fun _ => ih

theorem holds_writePlannerSettings {id : String} {input : SettingsInput} {now : ℤ} :
    Keeps (Holds K) (writePlannerSettings id input now) :=
  Keeps.bind Keeps.ofOption fun _ => holding_upsert (parentsExist_of_nil rfl) (fun _ => rfl)
    fun _ hfk => absurd hfk List.not_mem_nil

theorem holds_getPlannerSettings {now : ℤ} : Keeps (Holds K) (getPlannerSettings now) := by
  refine Keeps.bind (Keeps.bind Keeps.gets fun _ => Keeps.pure) fun row => ?_
  cases row with
  | none =>
      exact Keeps.bind (holding_insert (by decide) (parentsExist_of_nil rfl)) fun _ => Keeps.pure
  | some settings => exact Keeps.pure

/-! ### Items

An item that is found by its name is referred to by the id that is read of it,
which is not the stored one if that holds U+0000. -/

/-- For every item with one of the names, what is read of its id is the id of
an item, or empty. -/
def ItemsReadable (db : Db Row) (named : String → Prop) : Prop :=
  ∀ r : EconomyItem, r ∈ db .economyItem → named r.name →
    Text.cut r.id = "" ∨ schema.hasKey db .economyItem (Text.cut r.id)

/-- The same of one row, for an item that is new or was there at the start. -/
def ItemReadable (named there : String → Prop) (r : EconomyItem) : Prop :=
  named r.name → Text.Plain r.id ∨ Text.cut r.id = "" ∨ there (Text.cut r.id)

/-- A property of items, as a property of all rows. -/
def ItemRows (Q : EconomyItem → Prop) : (t : Table) → Row t → Prop
  | .economyItem, r => Q r
  | _, _ => True

/-- The rows of items are readable. -/
def Readable (named there : String → Prop) (db : Db Row) : Prop :=
  AllRows (ItemRows (ItemReadable named there)) db

theorem readable_of_itemsReadable {db : Db Row} {named : String → Prop}
    (h : ItemsReadable db named) : Readable named (schema.hasKey db .economyItem) db := by
  intro t r hr
  cases t with
  | economyItem => exact fun hname => .inr (h r hr hname)
  | _ => trivial

section

variable {named there : String → Prop}

/-- A statement that adds a row which is no item. -/
theorem readable_insert {t : Table} (ht : t ≠ .economyItem) {r : Row t} :
    Keeps (fun c : Conn => Readable named there c.db) (schema.insert .abort t r) := by
  apply keeps_append_rows
  cases t with
  | economyItem => exact absurd rfl ht
  | _ => trivial

/-- A new item has a drawn id. -/
theorem readable_upsertEconomyItemByName {name : String} {category note : Option String}
    {draw : Draw} :
    Keeps (fun c : Conn => Readable named there c.db)
      (upsertEconomyItemByName name category note draw) := by
  refine Keeps.ofOption.bind fun name => Keeps.gets.bind fun existing => ?_
  split
  · exact Keeps.bind (keeps_update_rows fun r hr => hr) fun _ => Keeps.pure
  · exact Keeps.bind (keeps_append_rows fun _ => .inl draw.plain) fun _ => Keeps.pure

/-- The item that is found or created is there afterwards. -/
theorem holds_upsertEconomyItemByName {name : String} {category note : Option String}
    {draw : Draw} (hname : ∀ n, trimmed (some name) = some n → named n)
    (hthere : ∀ k, there k → K .economyItem k) :
    Triple (fun c => Holds K c ∧ Readable named there c.db)
      (upsertEconomyItemByName name category note draw)
      (fun item => Holds (Also K .economyItem item.id)) (Holds K) := by
  unfold upsertEconomyItemByName
  cases htrim : trimmed (some name) with
  | none => exact Triple.throw fun c hc => hc.1
  | some n =>
      rw [ofOption_some_bind]
      have hread : Triple (fun c => Holds K c ∧ Readable named there c.db)
          (schema.selectOne .economyItem fun r => r.name == n)
          (fun o c => (∀ item ∈ o, item.id ≠ "" → schema.hasKey c.db .economyItem item.id) ∧
            Holds K c) (Holds K) := by
        refine Triple.gets fun c hc => ⟨fun item hitem hid => ?_, hc.1⟩
        obtain ⟨r, hr, rfl⟩ := Option.map_eq_some_iff.mp hitem
        have hmem : r ∈ c.db .economyItem := List.mem_of_find?_eq_some hr
        have hrname : r.name = n :=
          of_decide_eq_true (List.find?_some (p := fun r : EconomyItem => r.name == n) hr)
        change Text.cut r.id ≠ "" at hid
        show schema.hasKey c.db .economyItem (Text.cut r.id)
        rcases hc.2 .economyItem r hmem (hrname ▸ hname n htrim) with hplain | hempty | hkey
        · rw [hplain.cut]
          exact ⟨r, hmem, rfl⟩
        · exact absurd hempty hid
        · exact hc.1.keys _ _ (hthere _ hkey)
      refine Triple.bind hread fun existing => ?_
      cases hex : existing.filter (·.id ≠ "") with
      | some item =>
          obtain ⟨rfl, hid⟩ := Option.filter_eq_some_iff.mp hex
          refine Triple.consequence (P := Holds (Also K .economyItem item.id)) ?_
            (fun c hc => ⟨hc.2.off, hc.2.resolved, fun t k hk => ?_⟩) (fun _ _ h => h)
            fun c (h : Holds (Also K .economyItem item.id) c) => h.forget
          · refine Triple.bind (Q := fun _ => Holds (Also K .economyItem item.id)) ?_ fun _ =>
              Triple.pure fun c h => h
            exact holding_update (fun _ => rfl) fun fk hfk => absurd hfk List.not_mem_nil
          · rcases hk with hk | ⟨rfl, rfl⟩
            · exact hc.2.keys t k hk
            · exact hc.1 item rfl (of_decide_eq_true hid)
      | none =>
          refine Triple.consequence (P := Holds K) ?_ (fun _ h => h.2) (fun _ _ h => h) fun _ h => h
          refine Triple.bind (holding_insert_abort (parentsExist_of_nil rfl)) fun _ => ?_
          exact Triple.pure fun c h => h

/-- The same, where items stay readable. -/
theorem reads_upsertEconomyItemByName {name : String} {category note : Option String}
    {draw : Draw} (hname : ∀ n, trimmed (some name) = some n → named n)
    (hthere : ∀ k, there k → K .economyItem k) :
    Triple (fun c => Holds K c ∧ Readable named there c.db)
      (upsertEconomyItemByName name category note draw)
      (fun item c => Holds (Also K .economyItem item.id) c ∧ Readable named there c.db)
      (fun c => Holds K c ∧ Readable named there c.db) :=
  ((holds_upsertEconomyItemByName hname hthere).and
    readable_upsertEconomyItemByName).consequence (fun _ h => ⟨h, h.2⟩) (fun _ _ h => h)
      fun _ h => h

/-- A key that a part of a program relies on may be forgotten after it. -/
theorem reads_forget {α : Type} {m : Prog α} {t : Table} {k : String}
    (h : Keeps (fun c => Holds (Also K t k) c ∧ Readable named there c.db) m) :
    Triple (fun c => Holds (Also K t k) c ∧ Readable named there c.db) m
      (fun _ c => Holds K c ∧ Readable named there c.db)
      (fun c => Holds K c ∧ Readable named there c.db) :=
  h.consequence (fun _ hc => hc) (fun _ _ hc => ⟨hc.1.forget, hc.2⟩) fun _ hc =>
    ⟨hc.1.forget, hc.2⟩

end

/-! ### Economy and loot -/

section

variable {named there : String → Prop}

theorem holds_insertAlerts {event : PriceEvent} {draws : ℕ → Draw} {ws : List EconomyPriceWatch}
    {triggered : List EconomyAlertEvent} (hitem : K .economyItem event.itemId) :
    Keeps (Holds K) (insertAlerts event draws ws triggered) := by
  induction ws generalizing triggered with
  | nil => exact Keeps.pure
  | cons w ws ih =>
      unfold insertAlerts
      split
      · refine Keeps.bind (holding_insert (by decide) fun c hc => ?_) fun _ => ih
        exact parentsExist_single rfl (hc.keys _ _ hitem)
      · exact ih

/-- After the item has been found or created, its prices, watches and alerts
may refer to it. -/
theorem holds_addEconomyPrice {input : PriceInput} {draws : ℕ → Draw}
    (hthere : ∀ k, there k → K .economyItem k) :
    Triple (fun c => Holds K c ∧
        Readable (fun n => trimmed (some input.itemName) = some n) there c.db)
      (addEconomyPrice input draws) (fun _ => Holds K) (Holds K) := by
  refine Triple.bind (Triple.ofOption (fun _ _ _ h => h) fun _ h => h.1) fun server => ?_
  refine Triple.bind (holds_upsertEconomyItemByName (fun _ h => h) hthere) fun item => ?_
  refine holding_forget (Keeps.bind ?_ fun _ => ?_)
  · exact holding_insert (by decide) fun c hc =>
      parentsExist_single rfl (hc.keys _ _ (.inr ⟨rfl, rfl⟩))
  · refine Keeps.bind ?_ fun _ => Keeps.pure
    exact Keeps.bind Keeps.gets fun rows => holds_insertAlerts (.inr ⟨rfl, rfl⟩)

theorem holds_createEconomyWatch {input : WatchInput} {draws : ℕ → Draw}
    (hthere : ∀ k, there k → K .economyItem k) :
    Triple (fun c => Holds K c ∧
        Readable (fun n => trimmed (some input.itemName) = some n) there c.db)
      (createEconomyWatch input draws) (fun _ => Holds K) (Holds K) := by
  refine Triple.bind (Triple.ofOption (fun _ _ _ h => h) fun _ h => h.1) fun server => ?_
  refine Triple.bind (holds_upsertEconomyItemByName (fun _ h => h) hthere) fun item => ?_
  refine holding_forget (Keeps.bind ?_ fun _ => Keeps.pure)
  exact holding_insert (by decide) fun c hc =>
    parentsExist_single rfl (hc.keys _ _ (.inr ⟨rfl, rfl⟩))

/-- A reference to a loot run, and one to an item that may be NULL. -/
theorem parentsExist_drop {r : LootRunDrop} (hrun : K .lootRun r.runId)
    (hitem : ∀ k ∈ r.itemId, K .economyItem k) (c : Conn) (hc : Holds K c) :
    schema.parentsExist c.db .lootRunDrop r := by
  refine parentsExist_of_keys (fun fk hfk k hk => ?_) c hc
  rcases List.mem_pair.mp hfk with rfl | rfl
  · exact Option.mem_some_iff.mp hk ▸ hrun
  · exact hitem k hk

theorem parentsExist_cost {r : LootRunCost} (hrun : K .lootRun r.runId)
    (hitem : ∀ k ∈ r.itemId, K .economyItem k) (c : Conn) (hc : Holds K c) :
    schema.parentsExist c.db .lootRunCost r := by
  refine parentsExist_of_keys (fun fk hfk k hk => ?_) c hc
  rcases List.mem_pair.mp hfk with rfl | rfl
  · exact Option.mem_some_iff.mp hk ▸ hrun
  · exact hitem k hk

/-- The name under which a drop looks its item up. -/
def DropInput.asks (d : DropInput) (name : String) : Prop :=
  trimmed d.itemName = some name ∧ Number.le (quantity d.qty) 0 = false

/-- The name under which a cost looks its item up. -/
def CostInput.asks (c : CostInput) (name : String) : Prop :=
  c.kind = .item ∧ trimmed c.itemName = some name ∧ Number.le (quantity c.qty) 0 = false

theorem holds_insertDrop {runId : String} {now : ℤ} {d : DropInput} {draws : ℕ → Draw}
    (hrun : K .lootRun runId) (hname : ∀ n, d.asks n → named n)
    (hthere : ∀ k, there k → K .economyItem k) :
    Keeps (fun c => Holds K c ∧ Readable named there c.db) (insertDrop runId now d draws) := by
  unfold insertDrop
  split
  · exact Keeps.pure
  · rename_i name htrim
    split
    · exact Keeps.pure
    · rename_i hqty
      have hnamed : ∀ n, trimmed (some name) = some n → named n := by
        intro n hn
        rw [trimmed_some (trimmed_of_eq_some htrim)] at hn
        exact hname n ⟨htrim.trans hn, Bool.eq_false_iff.mpr hqty⟩
      refine Triple.bind (reads_upsertEconomyItemByName hnamed hthere) fun item => ?_
      refine Triple.and (holding_forget ?_) (readable_insert (by decide))
      refine holding_insert (by decide) (parentsExist_drop (.inl hrun) fun k hk => ?_)
      exact .inr ⟨rfl, (Option.mem_some_iff.mp hk).symm⟩

theorem holds_insertCost {runId : String} {now : ℤ} {c : CostInput} {draws : ℕ → Draw}
    (hrun : K .lootRun runId) (hname : ∀ n, c.asks n → named n)
    (hthere : ∀ k, there k → K .economyItem k) :
    Keeps (fun c => Holds K c ∧ Readable named there c.db) (insertCost runId now c draws) := by
  unfold insertCost
  split
  · split
    · exact Keeps.pure
    · refine Triple.and ?_ (readable_insert (by decide))
      refine holding_insert (by decide) (parentsExist_cost hrun fun k hk => ?_)
      exact absurd hk (Option.not_mem_none k)
  · rename_i hkind
    split
    · exact Keeps.pure
    · rename_i name htrim
      split
      · exact Keeps.pure
      · rename_i hqty
        have hnamed : ∀ n, trimmed (some name) = some n → named n := by
          intro n hn
          rw [trimmed_some (trimmed_of_eq_some htrim)] at hn
          exact hname n ⟨hkind, htrim.trans hn, Bool.eq_false_iff.mpr hqty⟩
        refine Triple.bind (reads_upsertEconomyItemByName hnamed hthere) fun item => ?_
        refine Triple.and (holding_forget ?_) (readable_insert (by decide))
        refine holding_insert (by decide) (parentsExist_cost (.inl hrun) fun k hk => ?_)
        exact .inr ⟨rfl, (Option.mem_some_iff.mp hk).symm⟩

/-- The names under which a run looks items up. -/
def LootRunInput.asks (input : LootRunInput) (name : String) : Prop :=
  (∃ d ∈ input.drops, d.asks name) ∨ ∃ c ∈ input.costs, c.asks name

/-- A run is recorded for a character that has been looked up. -/
theorem holds_createLootRun {input : LootRunInput} {draw : Draw} {dropDraws costDraws : ℕ → ℕ → Draw}
    (hthere : ∀ k, there k → K .economyItem k) :
    Keeps (fun c => Holds K c ∧ Readable input.asks there c.db)
      (createLootRun host input draw dropDraws costDraws) := by
  refine Keeps.bind Keeps.ofOption fun characterId => Keeps.bind Keeps.ofOption fun content => ?_
  refine Triple.bind (holding_selectOne.and Keeps.gets) fun found => ?_
  cases found with
  | none => exact Triple.throw fun c hc => ⟨hc.1.2, hc.2⟩
  | some character =>
      refine Triple.consequence (P := fun c => Holds (Also K .appCharacter characterId) c ∧
        Readable input.asks there c.db) (reads_forget (Keeps.bind Keeps.ofOption fun character => ?_))
        (fun c hc => ⟨⟨hc.1.2.off, hc.1.2.resolved, fun t k hk => ?_⟩, hc.2⟩) (fun _ _ h => h)
        fun _ h => h
      · dsimp only
        refine Keeps.bind (holding_atomically ?_ ?_) fun _ => Keeps.pure
        · exact quiet_insert.bind fun _ => (Quiet.forEach fun _ => quiet_insertDrop).bind fun _ =>
            Quiet.forEach fun _ => quiet_insertCost
        · refine Triple.bind (Q := fun _ c =>
            Holds (Also (Also K .appCharacter characterId) .lootRun draw.id) c ∧
              Readable input.asks there c.db)
            (Triple.and (holding_insert_abort fun c hc => ?_) (readable_insert (by decide))) fun _ => ?_
          · exact parentsExist_single rfl (hc.keys _ _ (.inr ⟨rfl, rfl⟩))
          · refine reads_forget (Keeps.bind (Keeps.forEach fun d hd => ?_) fun _ =>
              Keeps.forEach fun c hc => ?_)
            · exact holds_insertDrop (.inr ⟨rfl, rfl⟩)
                (fun n hn => .inl ⟨d.1, List.fst_mem_of_mem_zipIdx hd, hn⟩)
                fun k hk => .inl (.inl (hthere k hk))
            · exact holds_insertCost (.inr ⟨rfl, rfl⟩)
                (fun n hn => .inr ⟨c.1, List.fst_mem_of_mem_zipIdx hc, hn⟩)
                fun k hk => .inl (.inl (hthere k hk))
      · rcases hk with hk | ⟨rfl, rfl⟩
        · exact hc.1.2.keys t k hk
        · obtain ⟨r, hr, hid, -⟩ := hc.1.1 character rfl
          exact ⟨r, hr, of_decide_eq_true hid⟩

end

end Hub
