/-
Aion2Hub/Economy/Items.lean

The item dictionary.

`upsertEconomyItemByName` finds the item of a name or creates it, and prices,
watches and loot runs all name their items through it.  `ItemsGrown` says what
any number of such calls make of the dictionary: the items that were there
only get another `updatedAt`, and each new name has got one item.  An item
whose texts hold a U+0000 is written back as it has been read, so this needs the
items that are asked for to be plain (`PlainItems`); `Asked` holds of all calls.
-/
import Aion2Hub.Lib.Frame
import Aion2Hub.Loot.Report

namespace Hub

open Sql Exec

/-! ### The dictionary -/

/-- An item, but for the time of its last use. -/
def untouched (r : EconomyItem) : EconomyItem := { r with updatedAt := "" }

/-- The category and the note hold no U+0000. -/
def PlainNotes (r : EconomyItem) : Prop :=
  (∀ s, r.category = some s → Text.Plain s) ∧ ∀ s, r.note = some s → Text.Plain s

/-- What is written back to an item is what has been there. -/
def PlainItem (r : EconomyItem) : Prop := Text.Plain r.id ∧ PlainNotes r

/-- The names, and the items that have them. -/
structure PlainItems (names : List String) (items : List EconomyItem) : Prop where
  plain : ∀ name ∈ names, Text.Plain name
  item : ∀ r ∈ items, r.name ∈ names → PlainItem r

theorem PlainItems.mono {names names' : List String} {items : List EconomyItem}
    (h : PlainItems names' items) (hsub : names ⊆ names') : PlainItems names items :=
  ⟨fun name hname => h.plain name (hsub hname), fun r hr hname => h.item r hr (hsub hname)⟩

theorem map_cut_eq_self_iff {o : Option String} :
    o.map Text.cut = o ↔ ∀ s, o = some s → Text.Plain s := by
  cases o with
  | none => simp
  | some s => simp [Text.cut_eq_self_iff]

theorem plain_of_map_cut (o : Option String) : ∀ s, o.map Text.cut = some s → Text.Plain s := by
  intro s hs
  obtain ⟨s₀, -, rfl⟩ := Option.map_eq_some_iff.mp hs
  exact Text.plain_cut s₀

theorem id_of_untouched {r r' : EconomyItem} (h : untouched r = untouched r') : r.id = r'.id := by
  have hid := congrArg EconomyItem.id h
  exact hid

theorem name_of_untouched {r r' : EconomyItem} (h : untouched r = untouched r') :
    r.name = r'.name := by
  have hname := congrArg EconomyItem.name h
  exact hname

/-- The dictionary has been asked for these names: no item has changed but for
the time of its last use, and each name that was missing has got one item,
without category and note. -/
structure ItemsGrown (names : List String) (items items' : List EconomyItem) : Prop where
  kept : ∃ new : List EconomyItem,
    items'.map untouched = items.map untouched ++ new ∧
      ∀ r ∈ new, Text.Plain r.id ∧ r.category = none ∧ r.note = none
  names : items'.map (·.name) = names.foldl setAdd (items.map (·.name))

theorem ItemsGrown.refl (items : List EconomyItem) : ItemsGrown [] items items :=
  ⟨⟨[], by simp⟩, rfl⟩

theorem ItemsGrown.trans {l l' : List String} {items items' items'' : List EconomyItem}
    (h : ItemsGrown l items items') (h' : ItemsGrown l' items' items'') :
    ItemsGrown (l ++ l') items items'' := by
  obtain ⟨new, heq, hnew⟩ := h.kept
  obtain ⟨new', heq', hnew'⟩ := h'.kept
  refine ⟨⟨new ++ new', by rw [heq', heq, List.append_assoc], fun r hr => ?_⟩, ?_⟩
  · exact (List.mem_append.mp hr).elim (hnew r) (hnew' r)
  · rw [h'.names, h.names, List.foldl_append]

/-- The item with this name is still there. -/
theorem ItemsGrown.mem {l : List String} {items items' : List EconomyItem}
    (h : ItemsGrown l items items') {r : EconomyItem} (hr : r ∈ items) :
    ∃ r' ∈ items', r'.id = r.id ∧ r'.name = r.name := by
  obtain ⟨new, heq, -⟩ := h.kept
  have hmem : untouched r ∈ items'.map untouched := by
    rw [heq]
    exact List.mem_append_left _ (List.mem_map_of_mem hr)
  obtain ⟨r', hr', hsame⟩ := List.mem_map.mp hmem
  exact ⟨r', hr', id_of_untouched hsame, name_of_untouched hsame⟩

theorem PlainItem.of_untouched {r r' : EconomyItem} (h : untouched r = untouched r')
    (hr : PlainItem r) : PlainItem r' := by
  have hcategory := congrArg EconomyItem.category h
  have hnote := congrArg EconomyItem.note h
  refine ⟨id_of_untouched h ▸ hr.1, fun s hs => hr.2.1 s ?_, fun s hs => hr.2.2 s ?_⟩
  · exact hcategory.trans hs
  · exact hnote.trans hs

/-- Items that have been asked for stay plain. -/
theorem ItemsGrown.plainItems {l names : List String} {items items' : List EconomyItem}
    (h : ItemsGrown l items items') (hplain : PlainItems names items) :
    PlainItems names items' := by
  refine ⟨hplain.plain, fun r hr hname => ?_⟩
  obtain ⟨new, heq, hnew⟩ := h.kept
  have hmem : untouched r ∈ items.map untouched ++ new := heq ▸ List.mem_map_of_mem hr
  rcases List.mem_append.mp hmem with hold | hadded
  · obtain ⟨q, hq, hsame⟩ := List.mem_map.mp hold
    exact (hplain.item q hq (name_of_untouched hsame ▸ hname)).of_untouched hsame
  · obtain ⟨hid, hcategory, hnote⟩ := hnew _ hadded
    refine ⟨hid, fun s hs => ?_, fun s hs => ?_⟩
    · cases hcategory.symm.trans hs
    · cases hnote.symm.trans hs

/-- What has been written to the dictionary under these names holds no
U+0000. -/
structure Asked (names : List String) (items items' : List EconomyItem) : Prop where
  written : ∀ r ∈ items', r ∈ items ∨ PlainNotes r
  asked : ∀ r ∈ items', r.name ∈ names → Text.Plain r.id → PlainNotes r

theorem Asked.refl (items : List EconomyItem) : Asked [] items items :=
  ⟨fun _ hr => .inl hr, fun _ _ hname => (List.not_mem_nil hname).elim⟩

theorem Asked.trans {l l' : List String} {items items' items'' : List EconomyItem}
    (h : Asked l items items') (h' : Asked l' items' items'') : Asked (l ++ l') items items'' := by
  refine ⟨fun r hr => ?_, fun r hr hname hid => ?_⟩
  · rcases h'.written r hr with hold | hnotes
    · exact h.written r hold
    · exact .inr hnotes
  · rcases List.mem_append.mp hname with hname | hname
    · rcases h'.written r hr with hold | hnotes
      · exact h.asked r hold hname hid
      · exact hnotes
    · exact h'.asked r hr hname hid

/-! ### Asking for a name -/

/-- **The item of a name**: afterwards it is in the dictionary, the only one
with the name. -/
structure ItemFound (name : String) (c d : Conn) (item : EconomyItem) : Prop where
  distinct : schema.DistinctRows .economyItem (d.db .economyItem)
  asked : Asked [name] (c.db .economyItem) (d.db .economyItem)
  grown : PlainItems [name] (c.db .economyItem) →
    ItemsGrown [name] (c.db .economyItem) (d.db .economyItem)
  stored : (∀ r ∈ c.db .economyItem, EconomyItem.name r = name → Text.Plain (EconomyItem.id r)) →
    ∃ r ∈ d.db .economyItem, r.id = item.id ∧ r.name = name
  name : item.name = name ∨ item.name = Text.cut name
  others : ∀ t ≠ .economyItem, d.db t = c.db t

theorem ItemFound.name_eq {name : String} {c d : Conn} {item : EconomyItem}
    (h : ItemFound name c d item) (hplain : Text.Plain name) : item.name = name :=
  h.name.elim id fun hcut => hcut.trans hplain.cut

theorem trimmed_some_eq {s t : String} (h : trimmed (some s) = some t) : t = Text.trim s := by
  rw [trimmed, Option.map_some] at h
  exact (Option.some.inj (Option.filter_eq_some_iff.mp h).1).symm

/-- What the update of an item that has been found makes of a row: the item with
the id that has been read gets the category and the note that have been read. -/
def writtenBack (item : EconomyItem) (time : String) (r : EconomyItem) : EconomyItem :=
  if r.id == Text.cut item.id then
    { r with
      category := item.category.map Text.cut
      note := item.note.map Text.cut
      updatedAt := time }
  else r

section

variable {item r : EconomyItem} {time name : String} {items : List EconomyItem}

theorem writtenBack_of_ne (h : r.id ≠ Text.cut item.id) : writtenBack item time r = r :=
  if_neg (by simpa using h)

theorem writtenBack_id : (writtenBack item time r).id = r.id := by
  unfold writtenBack
  split <;> rfl

theorem writtenBack_name : (writtenBack item time r).name = r.name := by
  unfold writtenBack
  split <;> rfl

theorem plainNotes_writtenBack (h : r.id = Text.cut item.id) :
    PlainNotes (writtenBack item time r) := by
  rw [writtenBack, if_pos (beq_iff_eq.mpr h)]
  exact ⟨plain_of_map_cut item.category, plain_of_map_cut item.note⟩

/-- A plain item is written back as it was. -/
theorem untouched_writtenBack (h : PlainItem item) :
    untouched (writtenBack item time item) = untouched item := by
  rw [writtenBack, if_pos (beq_iff_eq.mpr h.1.cut.symm), map_cut_eq_self_iff.mpr h.2.1,
    map_cut_eq_self_iff.mpr h.2.2]
  rfl

/-- No other item has its name. -/
theorem eq_of_name (hdistinct : schema.DistinctRows .economyItem items) (hitem : item ∈ items)
    (hr : r ∈ items) (hname : r.name = item.name) : r = item := by
  refine hdistinct.eq_of_conflicts hr hitem (conflicts_iff.mpr (.inr ⟨_, List.mem_cons_self, ?_⟩))
  exact congrArg (fun name => [name]) hname

theorem asked_writtenBack (hdistinct : schema.DistinctRows .economyItem items) (hitem : item ∈ items) :
    Asked [item.name] items (items.map (writtenBack item time)) := by
  constructor
  · intro r' hr'
    obtain ⟨r, hr, rfl⟩ := List.mem_map.mp hr'
    by_cases hid : r.id = Text.cut item.id
    · exact .inr (plainNotes_writtenBack hid)
    · rw [writtenBack_of_ne hid]
      exact .inl hr
  · intro r' hr' hname hid
    obtain ⟨r, hr, rfl⟩ := List.mem_map.mp hr'
    rw [writtenBack_name, List.mem_singleton] at hname
    rw [writtenBack_id] at hid
    obtain rfl := eq_of_name hdistinct hitem hr hname
    exact plainNotes_writtenBack hid.cut.symm

theorem itemsGrown_writtenBack (hdistinct : schema.DistinctRows .economyItem items)
    (hitem : item ∈ items) (hplain : PlainItem item) :
    ItemsGrown [item.name] items (items.map (writtenBack item time)) := by
  have hsame : ∀ r ∈ items, untouched (writtenBack item time r) = untouched r := by
    intro r hr
    by_cases hid : r.id = Text.cut item.id
    · obtain rfl : r = item := hdistinct.eq_of_key hr hitem (hid.trans hplain.1.cut)
      exact untouched_writtenBack hplain
    · rw [writtenBack_of_ne hid]
  have hkept : (items.map (writtenBack item time)).map untouched = items.map untouched := by
    rw [List.map_map]
    exact List.map_congr_left hsame
  have hnames : (items.map (writtenBack item time)).map (·.name) = items.map (·.name) := by
    rw [List.map_map]
    exact List.map_congr_left fun _ _ => writtenBack_name
  refine ⟨⟨[], by rw [hkept, List.append_nil], by simp⟩, ?_⟩
  rw [hnames, List.foldl_cons, List.foldl_nil, setAdd, if_pos (List.mem_map_of_mem hitem)]

end

/-- The item is there: it gets another time, and its category and its note are
written back as they have been read. -/
theorem ItemFound.of_update {name time : String} {c d : Conn} {item : EconomyItem} {u : Unit}
    (hdistinct : schema.DistinctRows .economyItem (c.db .economyItem))
    (hitem : item ∈ c.db .economyItem) (hname : item.name = name)
    (h : schema.update .economyItem (fun r => r.id == Text.cut item.id) (fun r =>
      { r with
        category := item.category.map Text.cut
        note := item.note.map Text.cut
        updatedAt := time }) c = (.ok u, d)) :
    ItemFound name c d { schema.read .economyItem item with updatedAt := time } := by
  subst hname
  let after : List (Row Table.economyItem) := (c.db .economyItem).map (writtenBack item time)
  obtain ⟨hrows, rfl⟩ : schema.DistinctRows .economyItem after ∧
      d = { c with db := c.db.set .economyItem after } := by
    unfold Schema.update at h
    dsimp only at h
    split at h
    · rename_i hrows
      cases h
      exact ⟨hrows, rfl⟩
    · cases h
  have hset : (c.db.set .economyItem after) .economyItem = after := Db.set_self c.db _ after
  refine ⟨?_, ?_, fun hplain => ?_, fun hplain => ⟨writtenBack item time item, ?_, ?_, writtenBack_name⟩,
    .inr rfl, fun t ht => Db.set_of_ne c.db ht after⟩
  · show schema.DistinctRows .economyItem ((c.db.set .economyItem after) .economyItem)
    rwa [hset]
  · show Asked [item.name] _ ((c.db.set .economyItem after) .economyItem)
    rw [hset]
    exact asked_writtenBack hdistinct hitem
  · show ItemsGrown [item.name] _ ((c.db.set .economyItem after) .economyItem)
    rw [hset]
    exact itemsGrown_writtenBack hdistinct hitem (hplain.item item hitem List.mem_cons_self)
  · show writtenBack item time item ∈ (c.db.set .economyItem after) .economyItem
    rw [hset]
    exact List.mem_map_of_mem hitem
  · exact writtenBack_id.trans (hplain item hitem rfl).cut.symm

/-- The item is new. -/
theorem ItemFound.of_insert {item : EconomyItem} {c d : Conn} {u : Unit}
    (hdistinct : schema.DistinctRows .economyItem (c.db .economyItem))
    (hid : Text.Plain item.id) (hcategory : item.category = none) (hnote : item.note = none)
    (h : schema.insert .abort .economyItem item c = (.ok u, d)) :
    ItemFound item.name c d item := by
  have hany := no_conflict_of_insert h
  obtain rfl := insert_abort_ok h
  let after : List (Row Table.economyItem) := c.db .economyItem ++ [item]
  have hset : (c.db.set .economyItem after) .economyItem = after := Db.set_self c.db _ after
  have hnew : item.name ∉ (c.db .economyItem).map (·.name) := by
    intro hmem
    obtain ⟨r, hr, hname⟩ := List.mem_map.mp hmem
    refine hany (List.any_eq_true.mpr ⟨r, hr, ?_⟩)
    show (item.id == r.id || ([item.name] == [r.name] || false)) = true
    rw [hname]
    simp
  have hnotes : PlainNotes item := by
    rw [PlainNotes, hcategory, hnote]
    exact ⟨nofun, nofun⟩
  refine ⟨?_, ?_, fun _ => ?_, fun _ => ⟨item, ?_, rfl, rfl⟩, .inl rfl,
    fun t ht => Db.set_of_ne c.db ht after⟩
  · show schema.DistinctRows .economyItem ((c.db.set .economyItem after) .economyItem)
    rw [hset]
    exact distinctRows_append hdistinct hany
  · show Asked [item.name] _ ((c.db.set .economyItem after) .economyItem)
    rw [hset]
    constructor
    · intro r hr
      rcases List.mem_append.mp hr with hold | hadded
      · exact .inl hold
      · obtain rfl := List.mem_singleton.mp hadded
        exact .inr hnotes
    · intro r hr hname _
      rcases List.mem_append.mp hr with hold | hadded
      · exact absurd (List.mem_singleton.mp hname ▸ List.mem_map_of_mem hold) hnew
      · obtain rfl := List.mem_singleton.mp hadded
        exact hnotes
  · show ItemsGrown [item.name] _ ((c.db.set .economyItem after) .economyItem)
    rw [hset]
    refine ⟨⟨[untouched item], List.map_append, ?_⟩, ?_⟩
    · intro r hr
      obtain rfl := List.mem_singleton.mp hr
      exact ⟨hid, hcategory, hnote⟩
    · rw [List.map_append, List.foldl_cons, List.foldl_nil, setAdd, if_neg hnew]
      rfl
  · show item ∈ (c.db.set .economyItem after) .economyItem
    rw [hset]
    exact List.mem_append_right _ List.mem_cons_self

/-- The id that is returned has been read or drawn. -/
theorem plain_of_upsert {name : String} {category note : Option String} {draw : Draw} {c d : Conn}
    {item : EconomyItem} (h : upsertEconomyItemByName name category note draw c = (.ok item, d)) :
    Text.Plain item.id := by
  obtain ⟨name, c₁, -, hrest⟩ := bind_eq_ok h
  obtain ⟨existing, c₂, hselect, hrest⟩ := bind_eq_ok hrest
  cases hexisting : existing.filter (fun r : EconomyItem => r.id ≠ "") with
  | none =>
      rw [hexisting] at hrest
      obtain ⟨u, c₃, -, hpure⟩ := bind_eq_ok hrest
      cases hpure
      exact draw.plain
  | some r =>
      rw [hexisting] at hrest
      obtain ⟨u, c₃, -, hpure⟩ := bind_eq_ok hrest
      cases hpure
      cases hselect
      obtain ⟨q, -, rfl⟩ := Option.map_eq_some_iff.mp (Option.filter_eq_some_iff.mp hexisting).1
      exact Text.plain_cut q.id

theorem upsertEconomyItemByName_ok {name : String} {draw : Draw} {c d : Conn} {item : EconomyItem}
    (hdistinct : schema.DistinctRows .economyItem (c.db .economyItem))
    (h : upsertEconomyItemByName name none none draw c = (.ok item, d)) :
    ItemFound (Text.trim name) c d item := by
  unfold upsertEconomyItemByName at h
  cases htrim : trimmed (some name) with
  | none =>
      rw [htrim] at h
      cases h
  | some name' =>
      obtain rfl := trimmed_some_eq htrim
      rw [htrim, ofOption_some_bind] at h
      have hselect : schema.selectOne .economyItem (fun r => r.name == Text.trim name) c =
          (.ok (((c.db .economyItem).find? fun r : EconomyItem => r.name == Text.trim name).map
            (schema.read .economyItem)), c) := rfl
      rw [bind_of_ok hselect] at h
      cases hexisting : (((c.db .economyItem).find? fun r : EconomyItem =>
          r.name == Text.trim name).map (schema.read .economyItem)).filter
            (fun r : EconomyItem => r.id ≠ "") with
      | some q =>
          rw [hexisting] at h
          obtain ⟨u, d', hupdate, hpure⟩ := bind_eq_ok h
          cases hpure
          obtain ⟨r, hfind, rfl⟩ := Option.map_eq_some_iff.mp (Option.filter_eq_some_iff.mp hexisting).1
          exact ItemFound.of_update hdistinct (List.mem_of_find?_eq_some hfind)
            (by simpa using List.find?_some hfind) hupdate
      | none =>
          rw [hexisting] at h
          obtain ⟨u, d', hinsert, hpure⟩ := bind_eq_ok h
          cases hpure
          exact ItemFound.of_insert hdistinct draw.plain rfl rfl hinsert

end Hub
