/-
Aion2Hub/Loot/Create.lean

Recording a loot run: the handler `loot:createRun` and what `createLootRun`
makes of its rows.

The handler drops entries that do not have the shape of its schema or have a
blank name, and the storage those without a quantity; each entry that is left
adds one row and asks the item dictionary for its name.  All of it happens in
one transaction.

Main result: a recording that throws changes nothing, and one that returns adds
the run with exactly its entries just when no text that is read back on the way
holds a U+0000 (`recorded_lootCreateRun_iff`).
-/
import Aion2Hub.Economy.Items
import Aion2Hub.Lib.Aligned
import Aion2Hub.Storage.Footprint
import Aion2Hub.Storage.Reading

namespace Hub

open Sql Exec

/-! ### The request -/

/-- `schema.optional()`. -/
def zodOptional {α : Type} (parse : Js → Option α) : Option Js → Option (Option α)
  | none => some none
  | some v => (parse v).map some

/-- `schema.nullable().optional()`; the handler does not tell null from
undefined. -/
def zodNullish {α : Type} (parse : Js → Option α) : Option Js → Option (Option α)
  | none | some .null => some none
  | some v => (parse v).map some

def zodString : Js → Option String
  | .str s => some s
  | _ => none

/-- `z.number().finite()`. -/
def zodFinite : Js → Option Number
  | .num x => if x.isFinite then some x else none
  | _ => none

def zodArray : Js → Option (List Js)
  | .arr elems => some elems
  | _ => none

/-- The objects that `z.object` accepts. -/
def zodObject : Js → Option Js
  | .obj fields => some (.obj fields)
  | _ => none

structure LootCreateRunInput where
  characterId : Option String
  content : String
  role : Option String
  powerBracket : Option String
  startedAt : Option String
  endedAt : Option String
  seconds : Option Number
  drops : List Js
  costs : List Js

/-- `LootCreateRunInputSchema`. -/
def lootCreateRunInputSchema (input : Option Js) : Option LootCreateRunInput := do
  let obj ← input.bind zodObject
  let characterId ← zodOptional zodString (obj.get "characterId")
  let content ← (obj.get "content").bind zodString
  let role ← zodNullish zodString (obj.get "role")
  let powerBracket ← zodNullish zodString (obj.get "powerBracket")
  let startedAt ← zodNullish zodString (obj.get "startedAt")
  let endedAt ← zodNullish zodString (obj.get "endedAt")
  let seconds ← zodNullish zodFinite (obj.get "seconds")
  let drops ← zodOptional zodArray (obj.get "drops")
  let costs ← zodOptional zodArray (obj.get "costs")
  pure ⟨characterId, content, role, powerBracket, startedAt, endedAt, seconds, drops.getD [],
    costs.getD []⟩

/-- `LootDropSchema`: the name, the quantity and the note. -/
def lootDropSchema (raw : Js) : Option (String × Number × Option String) := do
  let obj ← zodObject raw
  let itemName ← (obj.get "itemName").bind zodString
  let qty ← (obj.get "qty").bind zodFinite
  let note ← zodNullish zodString (obj.get "note")
  pure (itemName, qty, note)

/-- The two shapes of `LootCostSchema`. -/
inductive LootCost where
  | kinah (amount : Number) (note : Option String)
  | item (itemName : Option String) (qty : Number) (note : Option String)

/-- `LootCostSchema`, with the defaults of the handler. -/
def lootCostSchema (raw : Js) : Option LootCost := do
  let obj ← zodObject raw
  let kind ← (text obj "kind").bind LootRunCostKind.ofText
  let note ← zodNullish zodString (obj.get "note")
  match kind with
  | .kinah => do
      let amount ← zodOptional zodFinite (obj.get "kinah")
      pure (.kinah (amount.getD 0) note)
  | .item => do
      let itemName ← zodNullish zodString (obj.get "itemName")
      let qty ← zodOptional zodFinite (obj.get "qty")
      pure (.item itemName (qty.getD 0) note)

/-- One round of the handler's loop over the drops. -/
def handlerDrop (raw : Js) : Option DropInput :=
  (lootDropSchema raw).bind fun d =>
    if Text.trim d.1 = "" then none else some ⟨some (Text.trim d.1), some d.2.1, d.2.2⟩

/-- One round of the handler's loop over the costs. -/
def handlerCost (raw : Js) : Option CostInput :=
  (lootCostSchema raw).map fun cost =>
    match cost with
    | .kinah amount note => ⟨.kinah, some amount, none, none, note⟩
    | .item itemName qty note => ⟨.item, none, itemName.map Text.trim, some qty, note⟩

/-- `obj.characterId ?? db.getActiveCharacterId()`. -/
def runCharacterId (characterId : Option String) : Prog (Option String) :=
  match characterId with
  | some id => pure (some id)
  | none => getActiveCharacterId

/-- `loot:createRun`. -/
def lootCreateRun (host : Host) (input : Option Js) (draw : Draw)
    (dropDraws costDraws : ℕ → ℕ → Draw) : Prog String := do
  let obj ← Exec.ofOption "bad_request" (lootCreateRunInputSchema input)
  let characterId ← runCharacterId obj.characterId
  let characterId ← Exec.ofOption "no_character" (nonEmpty characterId)
  let content ← Exec.ofOption "bad_request" (trimmed (some obj.content))
  createLootRun host
    { characterId := characterId
      content := content
      role := trimmed obj.role
      powerBracket := trimmed obj.powerBracket
      startedAt := obj.startedAt
      endedAt := obj.endedAt
      seconds := obj.seconds
      drops := obj.drops.filterMap handlerDrop
      costs := obj.costs.filterMap handlerCost } draw dropDraws costDraws

/-! ### Entries -/

/-- An entry of the request that becomes a drop. -/
structure DropEntry where
  name : String
  qty : ℤ
  note : Option String

/-- The drop that an entry asks for: its name is not blank, and its quantity,
rounded down, is at least 1. -/
def dropEntry (raw : Js) : Option DropEntry :=
  (lootDropSchema raw).bind fun d =>
    if Text.trim d.1 ≠ "" ∧ 1 ≤ ⌊d.2.1.value⌋ then
      some ⟨Text.trim d.1, ⌊d.2.1.value⌋, trimmed d.2.2⟩
    else none

inductive CostEntry where
  | kinah (amount : ℤ) (note : Option String)
  | item (name : String) (qty : ℤ) (note : Option String)

/-- The cost that an entry asks for. -/
def costEntry (raw : Js) : Option CostEntry :=
  (lootCostSchema raw).bind fun cost =>
    match cost with
    | .kinah amount note =>
        if 1 ≤ ⌊amount.value⌋ then some (.kinah ⌊amount.value⌋ (trimmed note)) else none
    | .item itemName qty note =>
        (trimmed itemName).bind fun name =>
          if 1 ≤ ⌊qty.value⌋ then some (.item name ⌊qty.value⌋ (trimmed note)) else none

def CostEntry.note : CostEntry → Option String
  | .kinah _ note => note
  | .item _ _ note => note

/-- The item names of a cost. -/
def CostEntry.names : CostEntry → List String
  | .kinah _ _ => []
  | .item name _ _ => [name]

/-- The texts of a row that no entry decides. -/
def PlainKeys (id createdAt updatedAt : String) : Prop :=
  Text.Plain id ∧ Text.Plain createdAt ∧ Text.Plain updatedAt

/-- The row of a drop, which refers to the item of its name. -/
structure DropOf (runId : String) (items : List EconomyItem) (e : DropEntry) (r : LootRunDrop) :
    Prop where
  keys : PlainKeys r.id r.createdAt r.updatedAt
  run : r.runId = runId
  name : r.itemName = e.name
  qty : r.qty = .ofInt e.qty
  note : r.note = e.note
  item : ∃ item ∈ items, r.itemId = some item.id ∧ item.name = e.name

/-- The row of a cost. -/
def CostOf (runId : String) (items : List EconomyItem) : CostEntry → LootRunCost → Prop
  | .kinah amount note, r =>
      PlainKeys r.id r.createdAt r.updatedAt ∧ r.runId = runId ∧ r.kind = .kinah ∧ r.itemId = none ∧
        r.itemName = none ∧ r.qty = 0 ∧ r.kinah = .ofInt amount ∧ r.note = note
  | .item name qty note, r =>
      PlainKeys r.id r.createdAt r.updatedAt ∧ r.runId = runId ∧ r.kind = .item ∧
        r.itemName = some name ∧ r.qty = .ofInt qty ∧ r.kinah = 0 ∧ r.note = note ∧
          ∃ item ∈ items, r.itemId = some item.id ∧ item.name = name

theorem DropOf.mono {runId : String} {names : List String} {items items' : List EconomyItem}
    (h : ItemsGrown names items items') {e : DropEntry} {r : LootRunDrop}
    (hr : DropOf runId items e r) : DropOf runId items' e r := by
  obtain ⟨item, hitem, hid, hname⟩ := hr.item
  obtain ⟨item', hitem', hid', hname'⟩ := h.mem hitem
  exact ⟨hr.keys, hr.run, hr.name, hr.qty, hr.note, item', hitem', hid'.symm ▸ hid,
    hname'.trans hname⟩

theorem CostOf.mono {runId : String} {names : List String} {items items' : List EconomyItem}
    (h : ItemsGrown names items items') {e : CostEntry} {r : LootRunCost}
    (hr : CostOf runId items e r) : CostOf runId items' e r := by
  cases e with
  | kinah amount note => exact hr
  | item name qty note =>
      obtain ⟨hkeys, hrun, hkind, hitemName, hqty, hkinah, hnote, item, hitem, hid, hname⟩ := hr
      obtain ⟨item', hitem', hid', hname'⟩ := h.mem hitem
      exact ⟨hkeys, hrun, hkind, hitemName, hqty, hkinah, hnote, item', hitem', hid'.symm ▸ hid,
        hname'.trans hname⟩

/-! ### The loops -/

/-- The entries have added one row each to the table, and their names to the
dictionary. -/
structure RowsAdded {ε : Type} (t : Table) (names : ε → List String)
    (Of : List EconomyItem → ε → Row t → Prop) (l : List ε) (s s' : Conn) : Prop where
  distinct : schema.DistinctRows .economyItem (s'.db .economyItem)
  asked : Asked (l.flatMap names) (s.db .economyItem) (s'.db .economyItem)
  others : ∀ t', t' ≠ .economyItem → t' ≠ t → s'.db t' = s.db t'
  grown : PlainItems (l.flatMap names) (s.db .economyItem) →
    ItemsGrown (l.flatMap names) (s.db .economyItem) (s'.db .economyItem)
  rows : PlainItems (l.flatMap names) (s.db .economyItem) →
    ∃ rows, s'.db t = s.db t ++ rows ∧ List.Forall₂ (Of (s'.db .economyItem)) l rows

section

variable {ε : Type} {t : Table} {names : ε → List String} {Of : List EconomyItem → ε → Row t → Prop}
  {s s' s'' : Conn}

theorem RowsAdded.refl (h : schema.DistinctRows .economyItem (s.db .economyItem)) :
    RowsAdded t names Of [] s s :=
  ⟨h, Asked.refl _, fun _ _ _ => rfl, fun _ => ItemsGrown.refl _, fun _ => ⟨[], by simp⟩⟩

theorem RowsAdded.trans
    (hmono : ∀ l items items' e r, ItemsGrown l items items' → Of items e r → Of items' e r)
    {l l' : List ε} (h : RowsAdded t names Of l s s') (h' : RowsAdded t names Of l' s' s'') :
    RowsAdded t names Of (l ++ l') s s'' := by
  -- the first entries leave the items plain that the others ask for
  have hsplit : PlainItems ((l ++ l').flatMap names) (s.db .economyItem) →
      PlainItems (l.flatMap names) (s.db .economyItem) ∧
        PlainItems (l'.flatMap names) (s'.db .economyItem) := by
    intro hplain
    rw [List.flatMap_append] at hplain
    have hfirst := hplain.mono (List.subset_append_left _ _)
    exact ⟨hfirst, (h.grown hfirst).plainItems (hplain.mono (List.subset_append_right _ _))⟩
  refine ⟨h'.distinct, ?_, fun t' hitem ht => (h'.others t' hitem ht).trans (h.others t' hitem ht),
    fun hplain => ?_, fun hplain => ?_⟩
  · rw [List.flatMap_append]
    exact h.asked.trans h'.asked
  · obtain ⟨hfirst, hsecond⟩ := hsplit hplain
    rw [List.flatMap_append]
    exact (h.grown hfirst).trans (h'.grown hsecond)
  · obtain ⟨hfirst, hsecond⟩ := hsplit hplain
    obtain ⟨rows, heq, hof⟩ := h.rows hfirst
    obtain ⟨rows', heq', hof'⟩ := h'.rows hsecond
    refine ⟨rows ++ rows', by rw [heq', heq, List.append_assoc], ?_⟩
    exact List.rel_append (hof.imp fun e r => hmono _ _ _ e r (h'.grown hsecond)) hof'

/-- One entry: the item is found, and its row inserted. -/
theorem RowsAdded.one (ht : t ≠ .economyItem) {e : ε} {name : String} (hnames : names e = [name])
    {item : EconomyItem} (hitem : ItemFound name s s' item) {r : Row t} {u : Unit}
    (hof : Text.Plain name → ∀ items : List EconomyItem,
      (∃ q ∈ items, q.id = item.id ∧ q.name = name) → Of items e r)
    (h : schema.insert .abort t r s' = (.ok u, s'')) : RowsAdded t names Of [e] s s'' := by
  obtain rfl := insert_abort_ok h
  have hitems : (s'.db.set t (s'.db t ++ [r])) .economyItem = s'.db .economyItem :=
    Db.set_of_ne s'.db ht.symm _
  have hrows : (s'.db.set t (s'.db t ++ [r])) t = s'.db t ++ [r] := Db.set_self s'.db t _
  have hlist : [e].flatMap names = [name] := by rw [List.flatMap_singleton, hnames]
  refine ⟨?_, ?_, fun t' hne hne' => ?_, fun hplain => ?_, fun hplain => ⟨[r], ?_, ?_⟩⟩
  · show schema.DistinctRows .economyItem ((s'.db.set t (s'.db t ++ [r])) .economyItem)
    rw [hitems]
    exact hitem.distinct
  · show Asked _ _ ((s'.db.set t (s'.db t ++ [r])) .economyItem)
    rw [hitems, hlist]
    exact hitem.asked
  · show (s'.db.set t (s'.db t ++ [r])) t' = _
    rw [Db.set_of_ne s'.db hne' _, hitem.others t' hne]
  · show ItemsGrown _ _ ((s'.db.set t (s'.db t ++ [r])) .economyItem)
    rw [hitems, hlist]
    exact hitem.grown (hlist ▸ hplain)
  · show (s'.db.set t (s'.db t ++ [r])) t = _
    rw [hrows, hitem.others t ht]
  · show List.Forall₂ (Of ((s'.db.set t (s'.db t ++ [r])) .economyItem)) [e] [r]
    rw [hitems]
    rw [hlist] at hplain
    refine .cons (hof (hplain.plain name List.mem_cons_self) _ (hitem.stored fun q hq hname => ?_)) .nil
    exact (hplain.item q hq (List.mem_singleton.mpr hname)).1

/-- One entry without an item. -/
theorem RowsAdded.plain (ht : t ≠ .economyItem) {e : ε} (hnames : names e = [])
    (hdistinct : schema.DistinctRows .economyItem (s.db .economyItem)) {r : Row t} {u : Unit}
    (hof : ∀ items, Of items e r) (h : schema.insert .abort t r s = (.ok u, s'')) :
    RowsAdded t names Of [e] s s'' := by
  obtain rfl := insert_abort_ok h
  have hitems : (s.db.set t (s.db t ++ [r])) .economyItem = s.db .economyItem :=
    Db.set_of_ne s.db ht.symm _
  have hlist : [e].flatMap names = [] := by rw [List.flatMap_singleton, hnames]
  refine ⟨?_, ?_, fun t' _ hne => Db.set_of_ne s.db hne _, fun _ => ?_,
    fun _ => ⟨[r], Db.set_self s.db t _, .cons (hof _) .nil⟩⟩
  · show schema.DistinctRows .economyItem ((s.db.set t (s.db t ++ [r])) .economyItem)
    rwa [hitems]
  · show Asked _ _ ((s.db.set t (s.db t ++ [r])) .economyItem)
    rw [hitems, hlist]
    exact Asked.refl _
  · show ItemsGrown _ _ ((s.db.set t (s.db t ++ [r])) .economyItem)
    rw [hitems, hlist]
    exact ItemsGrown.refl _

/-- The loop over the entries. -/
theorem RowsAdded.forEach {α : Type} {f : α → Prog Unit} {g : α → List ε} {as : List α}
    (hmono : ∀ l items items' e r, ItemsGrown l items items' → Of items e r → Of items' e r)
    (hstep : ∀ a ∈ as, ∀ s s', schema.DistinctRows .economyItem (s.db .economyItem) →
      f a s = (.ok (), s') → RowsAdded t names Of (g a) s s')
    (hdistinct : schema.DistinctRows .economyItem (s.db .economyItem))
    (h : Exec.forEach as f s = (.ok (), s')) : RowsAdded t names Of (as.flatMap g) s s' := by
  let R : List ε → Conn → Conn → Prop := fun l s s' =>
    schema.DistinctRows .economyItem (s.db .economyItem) → RowsAdded t names Of l s s'
  have hloop : R (as.flatMap g) s s' := by
    refine forEach_ok (fun s hs => RowsAdded.refl hs) ?_
      (fun a ha s s' hrun hs => hstep a ha s s' hs hrun) h
    intro l l' s s' s'' hfirst hsecond hs
    exact (hfirst hs).trans hmono (hsecond (hfirst hs).distinct)
  exact hloop hdistinct

end

/-! ### One round -/

/-- What the storage takes from a drop. -/
def storedDrop (d : DropInput) : Option DropEntry :=
  (trimmed d.itemName).bind fun name => d.qty.bind fun qty =>
    if 1 ≤ ⌊qty.value⌋ then some ⟨name, ⌊qty.value⌋, trimmed d.note⟩ else none

def storedCost (c : CostInput) : Option CostEntry :=
  match c.kind with
  | .kinah => c.kinah.bind fun amount =>
      if 1 ≤ ⌊amount.value⌋ then some (.kinah ⌊amount.value⌋ (trimmed c.note)) else none
  | .item => (trimmed c.itemName).bind fun name => c.qty.bind fun qty =>
      if 1 ≤ ⌊qty.value⌋ then some (.item name ⌊qty.value⌋ (trimmed c.note)) else none

/-- A quantity that the schema accepts, rounded down and cut off at zero. -/
theorem quantity_of_finite {x : Number} (h : x.isFinite = true) :
    quantity (some x) = .ofInt (max 0 ⌊x.value⌋) := by
  show (if x.isFinite = true then Number.atLeast 0 (Number.floor x) else 0) = _
  rw [if_pos h, Number.atLeast_floor_of_finite h]

theorem le_zero_iff {n : ℤ} : Number.le (.ofInt n) 0 = true ↔ n ≤ 0 := by
  show Number.le (.fin (n : ℚ)) (.fin ((0 : ℕ) : ℚ)) = true ↔ _
  rw [Number.le_fin_iff]
  norm_num

/-- The quantity counts if it is at least 1. -/
theorem quantity_le_zero_iff {x : Number} (h : x.isFinite = true) :
    Number.le (quantity (some x)) 0 = true ↔ ¬ 1 ≤ ⌊x.value⌋ := by
  rw [quantity_of_finite h, le_zero_iff]
  omega

theorem insertDrop_ok {runId : String} {now : ℤ} {d : DropInput} {draws : ℕ → Draw} {s s' : Conn}
    (hqty : ∃ qty, d.qty = some qty ∧ qty.isFinite = true)
    (hdistinct : schema.DistinctRows .economyItem (s.db .economyItem))
    (h : insertDrop runId now d draws s = (.ok (), s')) :
    RowsAdded .lootRunDrop (fun e : DropEntry => [e.name]) (DropOf runId) (storedDrop d).toList s
      s' := by
  obtain ⟨qty, hsome, hfinite⟩ := hqty
  unfold insertDrop at h
  cases hname : trimmed d.itemName with
  | none =>
      rw [hname] at h
      cases h
      rw [storedDrop, hname]
      exact RowsAdded.refl hdistinct
  | some name =>
      rw [hname, hsome] at h
      have hstored : storedDrop d =
          if 1 ≤ ⌊qty.value⌋ then some ⟨name, ⌊qty.value⌋, trimmed d.note⟩ else none := by
        rw [storedDrop, hname, hsome]
        rfl
      rw [hstored]
      by_cases hone : 1 ≤ ⌊qty.value⌋
      · have hle : ¬ Number.le (quantity (some qty)) 0 = true := fun hle =>
          (quantity_le_zero_iff hfinite).mp hle hone
        dsimp only at h
        rw [if_neg hle] at h
        obtain ⟨item, s₁, hitem, hinsert⟩ := bind_eq_ok h
        have htrim : Text.trim name = name := (trimmed_of_eq_some hname).1
        have hfound := upsertEconomyItemByName_ok hdistinct hitem
        rw [htrim] at hfound
        rw [if_pos hone]
        refine RowsAdded.one (by decide) rfl hfound ?_ hinsert
        rintro hplain items ⟨q, hq, hid, hqname⟩
        refine ⟨⟨(draws 1).plain, plain_stamp now, plain_stamp now⟩, rfl, hfound.name_eq hplain, ?_,
          rfl, q, hq, congrArg some hid.symm, hqname⟩
        show quantity (some qty) = .ofInt ⌊qty.value⌋
        rw [quantity_of_finite hfinite, max_eq_right (by omega)]
      · dsimp only at h
        rw [if_pos ((quantity_le_zero_iff hfinite).mpr hone)] at h
        cases h
        rw [if_neg hone]
        exact RowsAdded.refl hdistinct

theorem insertCost_ok {runId : String} {now : ℤ} {c : CostInput} {draws : ℕ → Draw} {s s' : Conn}
    (hkinah : c.kind = .kinah → ∃ amount, c.kinah = some amount ∧ amount.isFinite = true)
    (hqty : c.kind = .item → ∃ qty, c.qty = some qty ∧ qty.isFinite = true)
    (hdistinct : schema.DistinctRows .economyItem (s.db .economyItem))
    (h : insertCost runId now c draws s = (.ok (), s')) :
    RowsAdded .lootRunCost CostEntry.names (CostOf runId) (storedCost c).toList s s' := by
  unfold insertCost at h
  unfold storedCost
  cases hkind : c.kind with
  | kinah =>
      obtain ⟨amount, hsome, hfinite⟩ := hkinah hkind
      rw [hkind, hsome] at h
      rw [hsome]
      show RowsAdded _ _ _ (if 1 ≤ ⌊amount.value⌋ then
        some (CostEntry.kinah ⌊amount.value⌋ (trimmed c.note)) else none).toList s s'
      by_cases hone : 1 ≤ ⌊amount.value⌋
      · have hle : ¬ Number.le (quantity (some amount)) 0 = true := fun hle =>
          (quantity_le_zero_iff hfinite).mp hle hone
        dsimp only at h
        rw [if_neg hle] at h
        rw [if_pos hone]
        refine RowsAdded.plain (by decide) rfl hdistinct (fun items => ?_) h
        refine ⟨⟨(draws 1).plain, plain_stamp now, plain_stamp now⟩, rfl, rfl, rfl, rfl, rfl, ?_, rfl⟩
        show quantity (some amount) = .ofInt ⌊amount.value⌋
        rw [quantity_of_finite hfinite, max_eq_right (by omega)]
      · dsimp only at h
        rw [if_pos ((quantity_le_zero_iff hfinite).mpr hone)] at h
        cases h
        rw [if_neg hone]
        exact RowsAdded.refl hdistinct
  | item =>
      obtain ⟨qty, hsome, hfinite⟩ := hqty hkind
      rw [hkind, hsome] at h
      rw [hsome]
      dsimp only at h ⊢
      cases hname : trimmed c.itemName with
      | none =>
          rw [hname] at h
          cases h
          exact RowsAdded.refl hdistinct
      | some name =>
          rw [hname] at h
          show RowsAdded _ _ _ (if 1 ≤ ⌊qty.value⌋ then
            some (CostEntry.item name ⌊qty.value⌋ (trimmed c.note)) else none).toList s s'
          by_cases hone : 1 ≤ ⌊qty.value⌋
          · have hle : ¬ Number.le (quantity (some qty)) 0 = true := fun hle =>
              (quantity_le_zero_iff hfinite).mp hle hone
            dsimp only at h
            rw [if_neg hle] at h
            obtain ⟨item, s₁, hitem, hinsert⟩ := bind_eq_ok h
            have htrim : Text.trim name = name := (trimmed_of_eq_some hname).1
            have hfound := upsertEconomyItemByName_ok hdistinct hitem
            rw [htrim] at hfound
            rw [if_pos hone]
            refine RowsAdded.one (by decide) rfl hfound ?_ hinsert
            rintro hplain items ⟨q, hq, hid, hqname⟩
            refine ⟨⟨(draws 1).plain, plain_stamp now, plain_stamp now⟩, rfl, rfl,
              congrArg some (hfound.name_eq hplain), ?_, rfl, rfl, q, hq, congrArg some hid.symm, hqname⟩
            show quantity (some qty) = .ofInt ⌊qty.value⌋
            rw [quantity_of_finite hfinite, max_eq_right (by omega)]
          · dsimp only at h
            rw [if_pos ((quantity_le_zero_iff hfinite).mpr hone)] at h
            cases h
            rw [if_neg hone]
            exact RowsAdded.refl hdistinct

/-! ### What the handler lets through -/

theorem isFinite_of_zodFinite {v : Js} {x : Number} (h : zodFinite v = some x) :
    x.isFinite = true := by
  unfold zodFinite at h
  split at h
  · split at h
    · rename_i hfinite
      cases h
      exact hfinite
    · cases h
  · cases h

theorem isFinite_of_zodOptional {v : Option Js} {x : Option Number}
    (h : zodOptional zodFinite v = some x) : (x.getD 0).isFinite = true := by
  cases v with
  | none =>
      cases h
      rfl
  | some v =>
      obtain ⟨y, hy, rfl⟩ := Option.map_eq_some_iff.mp h
      exact isFinite_of_zodFinite hy

/-- The quantity of a drop is finite. -/
theorem isFinite_of_lootDropSchema {raw : Js} {d : String × Number × Option String}
    (h : lootDropSchema raw = some d) : d.2.1.isFinite = true := by
  unfold lootDropSchema at h
  simp only [Option.bind_eq_bind, Option.bind_eq_some_iff, Option.pure_def] at h
  obtain ⟨obj, -, itemName, -, qty, ⟨v, -, hqty⟩, note, -, heq⟩ := h
  cases heq
  exact isFinite_of_zodFinite hqty

/-- The amounts of a cost are finite. -/
def LootCost.FiniteAmount : LootCost → Prop
  | .kinah amount _ => amount.isFinite = true
  | .item _ qty _ => qty.isFinite = true

theorem finiteAmount_of_lootCostSchema {raw : Js} {cost : LootCost}
    (h : lootCostSchema raw = some cost) : cost.FiniteAmount := by
  unfold lootCostSchema at h
  simp only [Option.bind_eq_bind, Option.bind_eq_some_iff, Option.pure_def] at h
  obtain ⟨obj, -, kind, -, note, -, hcost⟩ := h
  cases kind with
  | kinah =>
      simp only [Option.bind_eq_some_iff] at hcost
      obtain ⟨amount, hamount, heq⟩ := hcost
      cases heq
      exact isFinite_of_zodOptional hamount
  | item =>
      simp only [Option.bind_eq_some_iff] at hcost
      obtain ⟨itemName, -, qty, hqty, heq⟩ := hcost
      cases heq
      exact isFinite_of_zodOptional hqty

theorem storedDrop_of_handlerDrop (raw : Js) : (handlerDrop raw).bind storedDrop = dropEntry raw := by
  unfold handlerDrop dropEntry
  cases lootDropSchema raw with
  | none => rfl
  | some d =>
      show (if Text.trim d.1 = "" then none else some _ : Option DropInput).bind storedDrop =
        if Text.trim d.1 ≠ "" ∧ 1 ≤ ⌊d.2.1.value⌋ then some _ else none
      by_cases hname : Text.trim d.1 = ""
      · rw [if_pos hname, if_neg fun h => h.1 hname]
        rfl
      · have htrim : trimmed (some (Text.trim d.1)) = some (Text.trim d.1) :=
          trimmed_some ⟨Text.trim_trim d.1, hname⟩
        rw [if_neg hname, Option.bind_some, storedDrop, htrim]
        show (if 1 ≤ ⌊d.2.1.value⌋ then some _ else none) = _
        by_cases hone : 1 ≤ ⌊d.2.1.value⌋
        · rw [if_pos hone, if_pos ⟨hname, hone⟩]
        · rw [if_neg hone, if_neg fun h => hone h.2]

theorem trimmed_map_trim (s : Option String) : trimmed (s.map Text.trim) = trimmed s := by
  cases s with
  | none => rfl
  | some s => simp [trimmed]

theorem storedCost_of_handlerCost (raw : Js) : (handlerCost raw).bind storedCost = costEntry raw := by
  unfold handlerCost costEntry
  cases lootCostSchema raw with
  | none => rfl
  | some cost =>
      cases cost with
      | kinah amount note => rfl
      | item itemName qty note =>
          show (trimmed (itemName.map Text.trim)).bind _ = (trimmed itemName).bind _
          rw [trimmed_map_trim]
          rfl

/-- Handler and storage together let exactly the entries through. -/
theorem filterMap_handlerDrop (raws : List Js) :
    (raws.filterMap handlerDrop).filterMap storedDrop = raws.filterMap dropEntry := by
  rw [List.filterMap_filterMap]
  exact congrArg (List.filterMap · raws) (funext storedDrop_of_handlerDrop)

theorem filterMap_handlerCost (raws : List Js) :
    (raws.filterMap handlerCost).filterMap storedCost = raws.filterMap costEntry := by
  rw [List.filterMap_filterMap]
  exact congrArg (List.filterMap · raws) (funext storedCost_of_handlerCost)

/-! ### The whole run -/

/-- The transaction of `createLootRun`. -/
def recordRun (run : LootRun) (now : ℤ) (drops : List DropInput) (costs : List CostInput)
    (dropDraws costDraws : ℕ → ℕ → Draw) : Prog Unit := do
  schema.insert .abort .lootRun run
  Exec.forEach drops.zipIdx fun d => insertDrop run.id now d.1 (dropDraws d.2)
  Exec.forEach costs.zipIdx fun c => insertCost run.id now c.1 (costDraws c.2)

theorem quiet_recordRun {run : LootRun} {now : ℤ} {drops : List DropInput} {costs : List CostInput}
    {dropDraws costDraws : ℕ → ℕ → Draw} : Quiet (recordRun run now drops costs dropDraws costDraws) :=
  quiet_insert.bind fun _ => (Quiet.forEach fun _ => quiet_insertDrop).bind fun _ =>
    Quiet.forEach fun _ => quiet_insertCost

/-- A recording that throws changes nothing; one that returns has recorded a
run of a stored character. -/
theorem createLootRun_cases (host : Host) (input : LootRunInput) (draw : Draw)
    (dropDraws costDraws : ℕ → ℕ → Draw) (c : Conn) :
    (∃ e, createLootRun host input draw dropDraws costDraws c = (.error e, c)) ∨
      ∃ character ∈ c.db .appCharacter, ∃ (run : LootRun) (s : Conn),
        character.id = input.characterId ∧ run.id = draw.id ∧ run.characterId = input.characterId ∧
          run.server = character.server.map Text.cut ∧ run.content = Text.trim input.content ∧
          run.endedAt = some ((nonEmpty input.endedAt).getD (stamp draw.now)) ∧
          recordRun run draw.now input.drops input.costs dropDraws costDraws
            { c with saved := some c.db } = (.ok (), s) ∧
          createLootRun host input draw dropDraws costDraws c =
            (.ok draw.id, { s with saved := none }) := by
  unfold createLootRun
  by_cases hid : input.characterId = ""
  · rw [hid]
    exact .inl ⟨_, rfl⟩
  rw [nonEmpty_some hid, ofOption_some_bind]
  cases hcontent : trimmed (some input.content) with
  | none => exact .inl ⟨_, rfl⟩
  | some content =>
      obtain rfl := trimmed_some_eq hcontent
      rw [ofOption_some_bind]
      cases hfind : (c.db .appCharacter).find? fun r : AppCharacter => r.id == input.characterId with
      | none =>
          have hselect : schema.selectOne .appCharacter (fun r => r.id == input.characterId) c =
              (.ok none, c) :=
            congrArg (fun r => (Except.ok (Option.map (schema.read .appCharacter) r), c)) hfind
          rw [bind_of_ok hselect]
          exact .inl ⟨_, rfl⟩
      | some character =>
          have hselect : schema.selectOne .appCharacter (fun r => r.id == input.characterId) c =
              (.ok (some (schema.read .appCharacter character)), c) :=
            congrArg (fun r => (Except.ok (Option.map (schema.read .appCharacter) r), c)) hfind
          rw [bind_of_ok hselect]
          by_cases hread : (schema.read .appCharacter character : AppCharacter).id = ""
          · rw [Option.filter_some_neg (by simpa using hread)]
            exact .inl ⟨_, rfl⟩
          rw [Option.filter_some_pos (by simpa using hread), ofOption_some_bind]
          let run : LootRun :=
            { id := draw.id
              characterId := input.characterId
              server := character.server.map Text.cut
              content := Text.trim input.content
              role := trimmed input.role
              powerBracket := trimmed input.powerBracket
              startedAt := nonEmpty input.startedAt
              endedAt := some ((nonEmpty input.endedAt).getD (stamp draw.now))
              seconds := runSeconds host input.seconds (nonEmpty input.startedAt)
                ((nonEmpty input.endedAt).getD (stamp draw.now))
              createdAt := stamp draw.now
              updatedAt := stamp draw.now }
          show (∃ e, (atomically (criticalMessage "loot run create")
              (recordRun run draw.now input.drops input.costs dropDraws costDraws) >>= fun _ =>
                pure draw.id : Prog String) c = (.error e, c)) ∨ _
          rcases hrun : atomically (criticalMessage "loot run create")
              (recordRun run draw.now input.drops input.costs dropDraws costDraws) c with ⟨e | u, d⟩
          · obtain rfl := atomically_error quiet_recordRun hrun
            exact .inl ⟨e, bind_of_error hrun⟩
          · obtain ⟨s, hs, rfl⟩ := atomically_ok quiet_recordRun hrun
            have hcharacter : character.id = input.characterId := by simpa using List.find?_some hfind
            exact .inr ⟨character, List.mem_of_find?_eq_some hfind, run, s, hcharacter, rfl, rfl,
              rfl, rfl, rfl, hs, bind_of_ok hrun⟩

/-- The index of an entry only chooses its ids. -/
theorem flatMap_zipIdx {α β : Type} (f : α → Option β) (l : List α) :
    l.zipIdx.flatMap (fun p => (f p.1).toList) = l.filterMap f := by
  have hfst : l.zipIdx.map Prod.fst = l := List.zipIdx_map_fst 0 l
  rw [List.filterMap_eq_flatMap_toList]
  nth_rewrite 2 [← hfst]
  rw [List.flatMap_map]

/-- What a recording adds. -/
structure RunAdded (run : LootRun) (drops : List DropEntry) (costs : List CostEntry) (c d : Conn)
    (dropRows : List LootRunDrop) (costRows : List LootRunCost) : Prop where
  runs_eq : d.db .lootRun = c.db .lootRun ++ [run]
  new : ∀ r ∈ c.db .lootRun, r.id ≠ run.id
  drops_eq : d.db .lootRunDrop = c.db .lootRunDrop ++ dropRows
  dropOf : List.Forall₂ (DropOf run.id (d.db .economyItem)) drops dropRows
  costs_eq : d.db .lootRunCost = c.db .lootRunCost ++ costRows
  costOf : List.Forall₂ (CostOf run.id (d.db .economyItem)) costs costRows
  grown : ItemsGrown (drops.map (·.name) ++ costs.flatMap CostEntry.names) (c.db .economyItem)
    (d.db .economyItem)
  distinct : schema.DistinctRows .economyItem (d.db .economyItem)
  others : ∀ t, t ∉ [Table.lootRun, .lootRunDrop, .lootRunCost, .economyItem] → d.db t = c.db t

/-- What has been written under these names is plain; with plain items exactly
the entries have been recorded. -/
theorem recordRun_ok {run : LootRun} {now : ℤ} {drops : List DropInput}
    {costs : List CostInput} {dropDraws costDraws : ℕ → ℕ → Draw} {c d : Conn} {names : List String}
    (hdrop : ∀ d ∈ drops, ∃ qty, d.qty = some qty ∧ qty.isFinite = true)
    (hkinah : ∀ c ∈ costs, c.kind = .kinah →
      ∃ amount, c.kinah = some amount ∧ amount.isFinite = true)
    (hqty : ∀ c ∈ costs, c.kind = .item → ∃ qty, c.qty = some qty ∧ qty.isFinite = true)
    (hdistinct : schema.DistinctRows .economyItem (c.db .economyItem))
    (hnames : names = (drops.filterMap storedDrop).map (·.name) ++
      (costs.filterMap storedCost).flatMap CostEntry.names)
    (h : recordRun run now drops costs dropDraws costDraws c = (.ok (), d)) :
    d.db .lootRun = c.db .lootRun ++ [run] ∧
      Asked names (c.db .economyItem) (d.db .economyItem) ∧
      (PlainItems names (c.db .economyItem) → ∃ dropRows costRows,
        RunAdded run (drops.filterMap storedDrop) (costs.filterMap storedCost) c d dropRows
          costRows) := by
  obtain ⟨u, c₁, hinsert, hrest⟩ := bind_eq_ok h
  obtain ⟨u', c₂, hdrops, hcosts⟩ := bind_eq_ok hrest
  have hconflict := no_conflict_of_insert hinsert
  obtain rfl := insert_abort_ok hinsert
  let after : List (Row Table.lootRun) := c.db .lootRun ++ [run]
  have hsame : ∀ t ≠ .lootRun, (c.db.set .lootRun after) t = c.db t := fun t ht =>
    Db.set_of_ne c.db ht after
  have hitems : (c.db.set .lootRun after) .economyItem = c.db .economyItem :=
    hsame .economyItem (by decide)
  have hfirst : RowsAdded .lootRunDrop (fun e : DropEntry => [e.name]) (DropOf run.id)
      (drops.filterMap storedDrop) { c with db := c.db.set .lootRun after } c₂ := by
    rw [← flatMap_zipIdx]
    refine RowsAdded.forEach (fun _ _ _ _ _ hg hr => hr.mono hg) ?_ ?_ hdrops
    · intro p hp s s' hs hrun
      exact insertDrop_ok (hdrop p.1 (List.fst_mem_of_mem_zipIdx hp)) hs hrun
    · show schema.DistinctRows .economyItem ((c.db.set .lootRun after) .economyItem)
      rwa [hitems]
  have hsecond : RowsAdded .lootRunCost CostEntry.names (CostOf run.id)
      (costs.filterMap storedCost) c₂ d := by
    rw [← flatMap_zipIdx]
    refine RowsAdded.forEach (fun _ _ _ _ _ hg hr => CostOf.mono hg hr) ?_ hfirst.distinct hcosts
    intro p hp s s' hs hrun
    have hmem := List.fst_mem_of_mem_zipIdx hp
    exact insertCost_ok (hkinah p.1 hmem) (hqty p.1 hmem) hs hrun
  have hasked := hfirst.asked.trans hsecond.asked
  have hdropNames : (drops.filterMap storedDrop).flatMap (fun e : DropEntry => [e.name]) =
      (drops.filterMap storedDrop).map (·.name) := (List.map_eq_flatMap ..).symm
  rw [hdropNames, ← hnames] at hasked
  have hruns : d.db .lootRun = c.db .lootRun ++ [run] := by
    rw [hsecond.others _ (by decide) (by decide), hfirst.others _ (by decide) (by decide)]
    exact Db.set_self c.db .lootRun after
  refine ⟨hruns, hitems ▸ hasked, fun hplain => ?_⟩
  -- both loops ask for plain items
  have hdropsPlain : PlainItems ((drops.filterMap storedDrop).flatMap fun e : DropEntry => [e.name])
      ((c.db.set .lootRun after) .economyItem) := by
    rw [hdropNames, hitems]
    exact hplain.mono (hnames ▸ List.subset_append_left _ _)
  have hgrown := hfirst.grown hdropsPlain
  have hcostsPlain : PlainItems ((costs.filterMap storedCost).flatMap CostEntry.names)
      (c₂.db .economyItem) := by
    refine hgrown.plainItems ?_
    show PlainItems _ ((c.db.set .lootRun after) .economyItem)
    rw [hitems]
    exact hplain.mono (hnames ▸ List.subset_append_right _ _)
  obtain ⟨dropRows, hdropRows, hdropOf⟩ := hfirst.rows hdropsPlain
  obtain ⟨costRows, hcostRows, hcostOf⟩ := hsecond.rows hcostsPlain
  refine ⟨dropRows, costRows, hruns, ?_, ?_, ?_, ?_, hcostOf, ?_, hsecond.distinct, ?_⟩
  · intro r hr hid
    refine hconflict (List.any_eq_true.mpr ⟨r, hr, ?_⟩)
    have hkey : (run.id == r.id) = true := beq_iff_eq.mpr hid.symm
    show (run.id == r.id || _) = true
    rw [hkey]
    rfl
  · rw [hsecond.others _ (by decide) (by decide), hdropRows]
    exact congrArg (· ++ dropRows) (hsame .lootRunDrop (by decide))
  · exact hdropOf.imp fun e r hr => hr.mono (hsecond.grown hcostsPlain)
  · rw [hcostRows, hfirst.others _ (by decide) (by decide)]
    exact congrArg (· ++ costRows) (hsame .lootRunCost (by decide))
  · have hall := hgrown.trans (hsecond.grown hcostsPlain)
    rw [hdropNames] at hall
    show ItemsGrown _ (c.db .economyItem) _
    rw [← hitems]
    exact hall
  · intro t ht
    simp only [List.mem_cons, List.not_mem_nil, or_false, not_or] at ht
    rw [hsecond.others t ht.2.2.2 ht.2.2.1, hfirst.others t ht.2.2.2 ht.2.1]
    exact hsame t ht.1

/-! ### Reading it back -/

/-- An id that has just been drawn: no run is read under it, and no drop or cost
refers to it. -/
structure FreshRun (db : Db Row) (id : String) : Prop where
  runs : ∀ r ∈ db .lootRun, Text.cut (LootRun.id r) ≠ id
  drops : ∀ r ∈ db .lootRunDrop, r.runId ≠ id
  costs : ∀ r ∈ db .lootRunCost, r.runId ≠ id

section

variable {run : LootRun} {drops : List DropEntry} {costs : List CostEntry} {c d : Conn}
  {dropRows : List LootRunDrop} {costRows : List LootRunCost}

/-- The rows of the run are those that it has added. -/
theorem RunAdded.ownDrops (h : RunAdded run drops costs c d dropRows costRows)
    (hfresh : FreshRun c.db run.id) :
    (d.db .lootRunDrop).filter (fun r : LootRunDrop => r.runId == run.id) = dropRows := by
  have hold : (c.db .lootRunDrop).filter (fun r : LootRunDrop => r.runId == run.id) = [] :=
    List.filter_eq_nil_iff.mpr fun r hr => by simpa using hfresh.drops r hr
  have hnew : ∀ r ∈ dropRows, (r.runId == run.id) = true := by
    intro r hr
    obtain ⟨i, hi, rfl⟩ := List.getElem_of_mem hr
    have hlen := h.dropOf.length_eq
    exact beq_iff_eq.mpr (h.dropOf.get (by omega) hi).run
  rw [h.drops_eq, List.filter_append, hold, List.filter_eq_self.mpr hnew, List.nil_append]

theorem CostOf.runId_eq {runId : String} {items : List EconomyItem} {e : CostEntry}
    {r : LootRunCost} (h : CostOf runId items e r) : r.runId = runId := by
  cases e with
  | kinah amount note => exact h.2.1
  | item name qty note => exact h.2.1

theorem RunAdded.ownCosts (h : RunAdded run drops costs c d dropRows costRows)
    (hfresh : FreshRun c.db run.id) :
    (d.db .lootRunCost).filter (fun r : LootRunCost => r.runId == run.id) = costRows := by
  have hold : (c.db .lootRunCost).filter (fun r : LootRunCost => r.runId == run.id) = [] :=
    List.filter_eq_nil_iff.mpr fun r hr => by simpa using hfresh.costs r hr
  have hnew : ∀ r ∈ costRows, (r.runId == run.id) = true := by
    intro r hr
    obtain ⟨i, hi, rfl⟩ := List.getElem_of_mem hr
    have hlen := h.costOf.length_eq
    exact beq_iff_eq.mpr (CostOf.runId_eq (h.costOf.get (by omega) hi))
  rw [h.costs_eq, List.filter_append, hold, List.filter_eq_self.mpr hnew, List.nil_append]

/-- `getLootRun` reports the run with its drops and costs, as they are read. -/
theorem RunAdded.getLootRun_eq (h : RunAdded run drops costs c d dropRows costRows)
    (hfresh : FreshRun c.db run.id) (hne : Text.cut run.id ≠ "") :
    getLootRun run.id d = (.ok (some ⟨schema.read .lootRun run,
      (orderBy (asc (·.createdAt) anyOrder) dropRows).map (schema.read .lootRunDrop),
      (orderBy (asc (·.createdAt) anyOrder) costRows).map (schema.read .lootRunCost)⟩), d) := by
  have hnone : (c.db .lootRun).find? (fun r : LootRun => r.id == run.id) = none :=
    List.find?_eq_none.mpr fun r hr => by simpa using h.new r hr
  have hfind : (d.db .lootRun).find? (fun r : LootRun => r.id == run.id) = some run := by
    rw [h.runs_eq, List.find?_append, hnone]
    simp
  have hselect : schema.selectOne .lootRun (fun r => r.id == run.id) d =
      (.ok (some (schema.read .lootRun run)), d) :=
    congrArg (fun r => (Except.ok (Option.map (schema.read .lootRun) r), d)) hfind
  have hread : (schema.read .lootRun run : LootRun).id ≠ "" := hne
  rw [getLootRun, bind_of_ok hselect, Option.filter_some_pos (by simpa using hread)]
  show (Except.ok (some (⟨schema.read .lootRun run,
    (orderBy _ ((d.db .lootRunDrop).filter fun r : LootRunDrop => r.runId == run.id)).map
      (schema.read .lootRunDrop),
    (orderBy _ ((d.db .lootRunCost).filter fun r : LootRunCost => r.runId == run.id)).map
      (schema.read .lootRunCost)⟩ : LootRunDetail)), d) = _
  rw [h.ownDrops hfresh, h.ownCosts hfresh]

/-- `listLootRuns` reports the numbers of its drops and costs. -/
theorem RunAdded.lootRunListItem_eq (h : RunAdded run drops costs c d dropRows costRows)
    (hfresh : FreshRun c.db run.id) :
    lootRunListItem d.db run = ⟨schema.read .lootRun run, dropRows.length, costRows.length⟩ := by
  rw [lootRunListItem, h.ownDrops hfresh, h.ownCosts hfresh]

theorem listLootRuns_eq {characterId : String} {limit : Option Number} {n : ℤ}
    (hcharacter : characterId ≠ "") (hn : mustBeInt (listLimit limit) = .ok n) :
    listLootRuns characterId limit d =
      (.ok ((slice n 0 (orderBy latestRun ((d.db .lootRun).filter fun r : LootRun =>
        r.characterId == characterId))).map (lootRunListItem d.db)), d) := by
  have hlimit : (Exec.ofExcept (mustBeInt (listLimit limit)) : Prog ℤ) d = (.ok n, d) := by
    rw [ofExcept_apply, hn]
  rw [listLootRuns, nonEmpty_some hcharacter, ofOption_some_bind, bind_of_ok hlimit]
  rfl

end

/-! ### Rows that are read as they are stored -/

theorem whole_lootRunDrop_iff {r : LootRunDrop} : schema.Whole .lootRunDrop r ↔
    PlainKeys r.id r.createdAt r.updatedAt ∧ Text.Plain r.runId ∧
      (∀ s, r.itemId = some s → Text.Plain s) ∧ Text.Plain r.itemName ∧
        ∀ s, r.note = some s → Text.Plain s := by
  obtain ⟨id, runId, itemId, itemName, qty, note, createdAt, updatedAt⟩ := r
  show LootRunDrop.mk _ _ _ _ _ _ _ _ = LootRunDrop.mk _ _ _ _ _ _ _ _ ↔ _
  simp only [LootRunDrop.mk.injEq, Text.cut_eq_self_iff, map_cut_eq_self_iff, PlainKeys]
  tauto

theorem whole_lootRunCost_iff {r : LootRunCost} : schema.Whole .lootRunCost r ↔
    PlainKeys r.id r.createdAt r.updatedAt ∧ Text.Plain r.runId ∧
      (∀ s, r.itemId = some s → Text.Plain s) ∧ (∀ s, r.itemName = some s → Text.Plain s) ∧
        ∀ s, r.note = some s → Text.Plain s := by
  obtain ⟨id, runId, kind, itemId, itemName, qty, kinah, note, createdAt, updatedAt⟩ := r
  show LootRunCost.mk _ _ _ _ _ _ _ _ _ _ = LootRunCost.mk _ _ _ _ _ _ _ _ _ _ ↔ _
  simp only [LootRunCost.mk.injEq, Text.cut_eq_self_iff, map_cut_eq_self_iff, PlainKeys]
  tauto

section

variable {runId : String} {names : List String} {items : List EconomyItem}

theorem DropOf.whole {e : DropEntry} {r : LootRunDrop} (h : DropOf runId items e r)
    (hrun : Text.Plain runId) (hitems : PlainItems names items) (hname : e.name ∈ names)
    (hnote : ∀ s, e.note = some s → Text.Plain s) : schema.Whole .lootRunDrop r := by
  obtain ⟨item, hitem, hid, heq⟩ := h.item
  have hitemId := (hitems.item item hitem (heq ▸ hname)).1
  refine whole_lootRunDrop_iff.mpr ⟨h.keys, h.run ▸ hrun, fun s hs => ?_, ?_, h.note ▸ hnote⟩
  · exact Option.some.inj (hid.symm.trans hs) ▸ hitemId
  · exact h.name ▸ hitems.plain _ hname

theorem CostOf.whole {e : CostEntry} {r : LootRunCost} (h : CostOf runId items e r)
    (hrun : Text.Plain runId) (hitems : PlainItems names items) (hname : e.names ⊆ names)
    (hnote : ∀ s, e.note = some s → Text.Plain s) : schema.Whole .lootRunCost r := by
  cases e with
  | kinah amount note =>
      obtain ⟨hkeys, hid, -, hitemId, hitemName, -, -, hnote'⟩ := h
      refine whole_lootRunCost_iff.mpr ⟨hkeys, hid ▸ hrun, fun s hs => ?_, fun s hs => ?_,
        fun s hs => hnote s (hnote' ▸ hs)⟩
      · cases hitemId.symm.trans hs
      · cases hitemName.symm.trans hs
  | item name qty note =>
      obtain ⟨hkeys, hid, -, hitemName, -, -, hnote', item, hitem, hitemId, heq⟩ := h
      have hmem : name ∈ names := hname List.mem_cons_self
      have hplain := (hitems.item item hitem (heq ▸ hmem)).1
      refine whole_lootRunCost_iff.mpr ⟨hkeys, hid ▸ hrun, fun s hs => ?_, fun s hs => ?_,
        fun s hs => hnote s (hnote' ▸ hs)⟩
      · exact Option.some.inj (hitemId.symm.trans hs) ▸ hplain
      · exact Option.some.inj (hitemName.symm.trans hs) ▸ hitems.plain _ hmem

end

/-! ### Atomic and exact -/

/-- The names that the entries of a request ask for. -/
def LootCreateRunInput.names (obj : LootCreateRunInput) : List String :=
  (obj.drops.filterMap dropEntry).map (·.name) ++
    (obj.costs.filterMap costEntry).flatMap CostEntry.names

/-- Exactly what the request asks for has been recorded. -/
structure Recorded (obj : LootCreateRunInput) (run : LootRun) (dropRows : List LootRunDrop)
    (costRows : List LootRunCost) (c d : Conn) : Prop where
  added : RunAdded run (obj.drops.filterMap dropEntry) (obj.costs.filterMap costEntry) c d dropRows
    costRows
  character : ∃ character ∈ c.db .appCharacter,
    runCharacterId obj.characterId c = (.ok (some character.id), c) ∧
      run.characterId = character.id ∧ run.server = character.server
  content : run.content = Text.trim obj.content
  unique : ∀ q ∈ d.db .economyItem, ∀ r ∈ d.db .economyItem, q.name = r.name → q = r
  names : ∃ new, (d.db .economyItem).map (·.name) = (c.db .economyItem).map (·.name) ++ new ∧
    new.Nodup ∧ ∀ name, name ∈ new ↔ name ∈ obj.names ∧ name ∉ (c.db .economyItem).map (·.name)
  reported : ∃ detail, getLootRun run.id d = (.ok (some detail), d) ∧
    detail.run = schema.read .lootRun run ∧ detail.drops.Perm dropRows ∧ detail.costs.Perm costRows
  counted : ∀ limit items, listLootRuns run.characterId limit d = (.ok items, d) →
    ∀ it ∈ items, it.run.id = run.id →
      it = ⟨schema.read .lootRun run, dropRows.length, costRows.length⟩
  listed : ∀ limit n, mustBeInt (listLimit limit) = .ok n →
    (((d.db .lootRun).filter fun r : LootRun => r.characterId == run.characterId).length : ℤ) ≤ n →
    ∃ items, listLootRuns run.characterId limit d = (.ok items, d) ∧
      ⟨schema.read .lootRun run, dropRows.length, costRows.length⟩ ∈ items

/-- The texts that a recording reads back hold no U+0000: the server of the
character, what is accepted of the request, and the items it asks for. -/
structure PlainRequest (obj : LootCreateRunInput) (c : Conn) : Prop where
  server : ∀ character ∈ c.db .appCharacter,
    runCharacterId obj.characterId c = (.ok (some character.id), c) →
      ∀ s, character.server = some s → Text.Plain s
  drops : ∀ e ∈ obj.drops.filterMap dropEntry, ∀ s, e.note = some s → Text.Plain s
  costs : ∀ e ∈ obj.costs.filterMap costEntry, ∀ s, e.note = some s → Text.Plain s
  items : PlainItems obj.names (c.db .economyItem)

section

variable {obj : LootCreateRunInput} {run : LootRun} {c d : Conn} {dropRows : List LootRunDrop}
  {costRows : List LootRunCost}

theorem mem_names_of_drop {e : DropEntry} (he : e ∈ obj.drops.filterMap dropEntry) :
    e.name ∈ obj.names :=
  List.mem_append_left _ (List.mem_map_of_mem he)

theorem names_of_cost {e : CostEntry} (he : e ∈ obj.costs.filterMap costEntry) :
    e.names ⊆ obj.names := fun _ hname =>
  List.mem_append_right _ (List.mem_flatMap.mpr ⟨e, he, hname⟩)

theorem RunAdded.whole_drops
    (h : RunAdded run (obj.drops.filterMap dropEntry) (obj.costs.filterMap costEntry) c d dropRows
      costRows) (hrun : Text.Plain run.id) (hplain : PlainRequest obj c) :
    ∀ r ∈ dropRows, schema.Whole .lootRunDrop r := by
  intro r hr
  obtain ⟨e, he, hof⟩ := h.dropOf.exists_left hr
  exact hof.whole hrun (h.grown.plainItems hplain.items) (mem_names_of_drop he) (hplain.drops e he)

theorem RunAdded.whole_costs
    (h : RunAdded run (obj.drops.filterMap dropEntry) (obj.costs.filterMap costEntry) c d dropRows
      costRows) (hrun : Text.Plain run.id) (hplain : PlainRequest obj c) :
    ∀ r ∈ costRows, schema.Whole .lootRunCost r := by
  intro r hr
  obtain ⟨e, he, hof⟩ := h.costOf.exists_left hr
  exact CostOf.whole hof hrun (h.grown.plainItems hplain.items) (names_of_cost he)
    (hplain.costs e he)

theorem RunAdded.recorded {character : AppCharacter}
    (h : RunAdded run (obj.drops.filterMap dropEntry) (obj.costs.filterMap costEntry) c d dropRows
      costRows)
    (hfresh : FreshRun c.db run.id) (hid : Text.Plain run.id) (hid_ne : run.id ≠ "")
    (hplain : PlainRequest obj c) (hstored : character ∈ c.db .appCharacter)
    (hresolved : runCharacterId obj.characterId c = (.ok (some character.id), c))
    (hne : character.id ≠ "") (hcharacter : run.characterId = character.id)
    (hserver : run.server = character.server.map Text.cut)
    (hcontent : run.content = Text.trim obj.content) :
    Recorded obj run dropRows costRows c d where
  added := h
  character := by
    have hread := map_cut_eq_self_iff.mpr (hplain.server character hstored hresolved)
    exact ⟨character, hstored, hresolved, hcharacter, hserver.trans hread⟩
  content := hcontent
  unique := by
    intro q hq r hr hname
    refine h.distinct.eq_of_conflicts hq hr ?_
    show (q.id == r.id || ([q.name] == [r.name] || false)) = true
    rw [hname]
    simp
  names := by
    obtain ⟨new, heq, hnodup, hmem⟩ :=
      foldl_setAdd obj.names ((c.db .economyItem).map (·.name))
    exact ⟨new, h.grown.names.trans heq, hnodup, hmem⟩
  reported := by
    have hne : Text.cut run.id ≠ "" := by rwa [hid.cut]
    refine ⟨_, h.getLootRun_eq hfresh hne, rfl, ?_, ?_⟩
    · exact (Schema.map_read_perm_iff read_read (orderBy_perm _ _)).mpr (h.whole_drops hid hplain)
    · exact (Schema.map_read_perm_iff read_read (orderBy_perm _ _)).mpr (h.whole_costs hid hplain)
  counted := by
    intro limit items hlist it hit hitId
    cases hn : mustBeInt (listLimit limit) with
    | error e =>
        rw [listLootRuns, hcharacter, nonEmpty_some hne, ofOption_some_bind, hn] at hlist
        cases hlist
    | ok n =>
        rw [listLootRuns_eq (hcharacter ▸ hne) hn] at hlist
        cases hlist
        obtain ⟨r, hr, rfl⟩ := List.mem_map.mp hit
        have hmem := (orderBy_perm _ _).mem_iff.mp (List.mem_of_mem_drop (List.mem_of_mem_take hr))
        have hrow := (List.mem_filter.mp hmem).1
        rw [h.runs_eq] at hrow
        rcases List.mem_append.mp hrow with hold | hnew
        · exact absurd hitId (hfresh.runs r hold)
        · obtain rfl := List.mem_singleton.mp hnew
          exact h.lootRunListItem_eq hfresh
  listed := by
    intro limit n hn hlen
    refine ⟨_, listLootRuns_eq (hcharacter ▸ hne) hn, ?_⟩
    let rows := (d.db .lootRun).filter fun r : LootRun => r.characterId == run.characterId
    have hrow : run ∈ d.db .lootRun := by
      rw [h.runs_eq]
      exact List.mem_append_right _ List.mem_cons_self
    have hslice : slice n 0 (orderBy latestRun rows) = orderBy latestRun rows := by
      refine List.take_of_length_le ?_
      show (orderBy latestRun rows).length ≤ n.toNat
      rw [(orderBy_perm _ _).length_eq]
      show ((d.db .lootRun).filter fun r : LootRun => r.characterId == run.characterId).length ≤ _
      omega
    show _ ∈ (slice n 0 (orderBy latestRun rows)).map (lootRunListItem d.db)
    rw [hslice]
    refine List.mem_map.mpr ⟨run, (orderBy_perm _ _).mem_iff.mpr (List.mem_filter.mpr ⟨hrow, ?_⟩),
      h.lootRunListItem_eq hfresh⟩
    exact beq_self_eq_true run.characterId

/-- What is reported as it has been recorded holds no U+0000. -/
theorem Recorded.plainRequest (h : Recorded obj run dropRows costRows c d)
    (hfresh : FreshRun c.db run.id) (hid : Text.Plain run.id) (hid_ne : run.id ≠ "")
    (hcharacters : schema.DistinctRows .appCharacter (c.db .appCharacter))
    (hserver : ∀ s, run.server = some s → Text.Plain s)
    (hasked : Asked obj.names (c.db .economyItem) (d.db .economyItem)) : PlainRequest obj c := by
  obtain ⟨detail, hdetail, -, hdrops, hcosts⟩ := h.reported
  have hne : Text.cut run.id ≠ "" := by rwa [hid.cut]
  rw [h.added.getLootRun_eq hfresh hne] at hdetail
  cases hdetail
  have hdropsWhole : ∀ r ∈ dropRows, schema.Whole .lootRunDrop r :=
    (Schema.map_read_perm_iff read_read (orderBy_perm _ _)).mp hdrops
  have hcostsWhole : ∀ r ∈ costRows, schema.Whole .lootRunCost r :=
    (Schema.map_read_perm_iff read_read (orderBy_perm _ _)).mp hcosts
  -- an item is plain when a row refers to it as it is read, and it has been asked for
  have hitem : ∀ r ∈ c.db .economyItem, EconomyItem.name r ∈ obj.names →
      (∃ q ∈ d.db .economyItem, Text.Plain (EconomyItem.id q) ∧
        EconomyItem.name q = EconomyItem.name r) → PlainItem r := by
    rintro r hr hname ⟨q, hq, hplain, hsame⟩
    obtain ⟨new, heq, -⟩ := h.added.grown.kept
    have hmem : untouched r ∈ (d.db .economyItem).map untouched := by
      rw [heq]
      exact List.mem_append_left _ (List.mem_map_of_mem hr)
    obtain ⟨r', hr', huntouched⟩ := List.mem_map.mp hmem
    have hrname := name_of_untouched huntouched
    obtain rfl := h.unique r' hr' q hq (hrname.trans hsame.symm)
    exact PlainItem.of_untouched huntouched ⟨hplain, hasked.asked r' hr' (hrname ▸ hname) hplain⟩
  refine ⟨?_, fun e he => ?_, fun e he => ?_, fun name hname => ?_, fun r hr hname => ?_⟩
  · intro character hmem hresolved
    obtain ⟨stored, hstored, hresolved', -, heq⟩ := h.character
    have hsame : character.id = stored.id := by
      have hresult := hresolved.symm.trans hresolved'
      exact Option.some.inj (Except.ok.inj (congrArg Prod.fst hresult))
    obtain rfl := hcharacters.eq_of_key hmem hstored hsame
    exact heq ▸ hserver
  · obtain ⟨r, hr, hof⟩ := h.added.dropOf.exists_right he
    exact hof.note ▸ (whole_lootRunDrop_iff.mp (hdropsWhole r hr)).2.2.2.2
  · obtain ⟨r, hr, hof⟩ := h.added.costOf.exists_right he
    have hnote := (whole_lootRunCost_iff.mp (hcostsWhole r hr)).2.2.2.2
    cases e with
    | kinah amount note => exact hof.2.2.2.2.2.2.2 ▸ hnote
    | item name qty note => exact hof.2.2.2.2.2.2.1 ▸ hnote
  · rcases List.mem_append.mp hname with hname | hname
    · obtain ⟨e, he, rfl⟩ := List.mem_map.mp hname
      obtain ⟨r, hr, hof⟩ := h.added.dropOf.exists_right he
      exact hof.name ▸ (whole_lootRunDrop_iff.mp (hdropsWhole r hr)).2.2.2.1
    · obtain ⟨e, he, hname⟩ := List.mem_flatMap.mp hname
      obtain ⟨r, hr, hof⟩ := h.added.costOf.exists_right he
      cases e with
      | kinah amount note => exact absurd hname List.not_mem_nil
      | item itemName qty note =>
          obtain rfl := List.mem_singleton.mp hname
          exact (whole_lootRunCost_iff.mp (hcostsWhole r hr)).2.2.2.1 _ hof.2.2.2.1
  · refine hitem r hr hname ?_
    rcases List.mem_append.mp hname with hname | hname
    · obtain ⟨e, he, heq⟩ := List.mem_map.mp hname
      obtain ⟨row, hrow, hof⟩ := h.added.dropOf.exists_right he
      obtain ⟨q, hq, hitemId, hqname⟩ := hof.item
      exact ⟨q, hq, (whole_lootRunDrop_iff.mp (hdropsWhole row hrow)).2.2.1 _ hitemId,
        hqname.trans heq⟩
    · obtain ⟨e, he, heq⟩ := List.mem_flatMap.mp hname
      obtain ⟨row, hrow, hof⟩ := h.added.costOf.exists_right he
      cases e with
      | kinah amount note => exact absurd heq List.not_mem_nil
      | item itemName qty note =>
          obtain ⟨-, -, -, -, -, -, -, q, hq, hitemId, hqname⟩ := hof
          exact ⟨q, hq, (whole_lootRunCost_iff.mp (hcostsWhole row hrow)).2.2.1 _ hitemId,
            hqname.trans (List.mem_singleton.mp heq).symm⟩

end

theorem finite_of_handlerDrop {raws : List Js} {d : DropInput} (h : d ∈ raws.filterMap handlerDrop) :
    ∃ qty, d.qty = some qty ∧ qty.isFinite = true := by
  obtain ⟨raw, -, hraw⟩ := List.mem_filterMap.mp h
  obtain ⟨parsed, hparsed, hd⟩ := Option.bind_eq_some_iff.mp hraw
  split at hd
  · cases hd
  · cases hd
    exact ⟨_, rfl, isFinite_of_lootDropSchema hparsed⟩

theorem finite_of_handlerCost {raws : List Js} {c : CostInput} (h : c ∈ raws.filterMap handlerCost) :
    (c.kind = .kinah → ∃ amount, c.kinah = some amount ∧ amount.isFinite = true) ∧
      (c.kind = .item → ∃ qty, c.qty = some qty ∧ qty.isFinite = true) := by
  obtain ⟨raw, -, hraw⟩ := List.mem_filterMap.mp h
  obtain ⟨cost, hcost, rfl⟩ := Option.map_eq_some_iff.mp hraw
  have hfinite := finiteAmount_of_lootCostSchema hcost
  cases cost with
  | kinah amount note => exact ⟨fun _ => ⟨amount, rfl, hfinite⟩, nofun⟩
  | item itemName qty note => exact ⟨nofun, fun _ => ⟨qty, rfl, hfinite⟩⟩

/-- What is accepted of a request. -/
structure Accepted (obj : LootCreateRunInput) (run : LootRun) (c d : Conn) : Prop where
  character : ∃ character ∈ c.db .appCharacter,
    runCharacterId obj.characterId c = (.ok (some character.id), c) ∧ character.id ≠ "" ∧
      run.characterId = character.id ∧ run.server = character.server.map Text.cut
  content : run.content = Text.trim obj.content
  runs_eq : d.db .lootRun = c.db .lootRun ++ [run]
  asked : Asked obj.names (c.db .economyItem) (d.db .economyItem)
  added : PlainItems obj.names (c.db .economyItem) → ∃ dropRows costRows,
    RunAdded run (obj.drops.filterMap dropEntry) (obj.costs.filterMap costEntry) c d dropRows costRows

/-- A request that throws changes nothing; one that returns has been accepted. -/
theorem lootCreateRun_cases (host : Host) (input : Option Js) (draw : Draw)
    (dropDraws costDraws : ℕ → ℕ → Draw) {c : Conn}
    (hdistinct : schema.DistinctRows .economyItem (c.db .economyItem)) :
    (∃ e, lootCreateRun host input draw dropDraws costDraws c = (.error e, c)) ∨
      ∃ obj run d, lootCreateRunInputSchema input = some obj ∧ run.id = draw.id ∧
        lootCreateRun host input draw dropDraws costDraws c = (.ok draw.id, d) ∧
        Accepted obj run c d := by
  unfold lootCreateRun
  cases hobj : lootCreateRunInputSchema input with
  | none => exact .inl ⟨_, rfl⟩
  | some obj =>
      obtain ⟨active, hresolved⟩ : ∃ id, runCharacterId obj.characterId c = (.ok id, c) := by
        unfold runCharacterId
        cases obj.characterId <;> exact ⟨_, rfl⟩
      rw [ofOption_some_bind, bind_of_ok hresolved]
      cases hid : nonEmpty active with
      | none => exact .inl ⟨_, rfl⟩
      | some characterId =>
          rw [ofOption_some_bind]
          cases hcontent : trimmed (some obj.content) with
          | none => exact .inl ⟨_, rfl⟩
          | some content =>
              obtain rfl := trimmed_some_eq hcontent
              rw [ofOption_some_bind]
              let input : LootRunInput :=
                { characterId := characterId
                  content := Text.trim obj.content
                  role := trimmed obj.role
                  powerBracket := trimmed obj.powerBracket
                  startedAt := obj.startedAt
                  endedAt := obj.endedAt
                  seconds := obj.seconds
                  drops := obj.drops.filterMap handlerDrop
                  costs := obj.costs.filterMap handlerCost }
              rcases createLootRun_cases host input draw dropDraws costDraws c with ⟨e, hrun⟩ |
                ⟨character, hstored, run, s, hcharacter, hrunId, howner, hserver, htrim, -, hrecord,
                  hrun⟩
              · exact .inl ⟨e, hrun⟩
              · have hrecord' : recordRun run draw.now (obj.drops.filterMap handlerDrop)
                    (obj.costs.filterMap handlerCost) dropDraws costDraws
                    { c with saved := some c.db } = (.ok (), s) := hrecord
                have hstart : schema.DistinctRows .economyItem
                    (({ c with saved := some c.db } : Conn).db .economyItem) := hdistinct
                have hnames : obj.names = ((obj.drops.filterMap handlerDrop).filterMap storedDrop).map
                    (·.name) ++ ((obj.costs.filterMap handlerCost).filterMap storedCost).flatMap
                      CostEntry.names := by
                  rw [filterMap_handlerDrop, filterMap_handlerCost]
                  rfl
                obtain ⟨hruns, hasked, hadded⟩ := recordRun_ok
                  (fun _ hd => finite_of_handlerDrop hd) (fun _ hc => (finite_of_handlerCost hc).1)
                  (fun _ hc => (finite_of_handlerCost hc).2) hstart hnames hrecord'
                rw [filterMap_handlerDrop, filterMap_handlerCost] at hadded
                have hactive : active = some character.id := by
                  rw [hcharacter]
                  exact (Option.filter_eq_some_iff.mp hid).1
                have hne : character.id ≠ "" := by
                  rw [hcharacter]
                  simpa using (Option.filter_eq_some_iff.mp hid).2
                refine .inr ⟨obj, run, { s with saved := none }, rfl, hrunId, hrun, ?_, ?_, hruns,
                  hasked, fun hplain => ?_⟩
                · exact ⟨character, hstored, hactive ▸ hresolved, hne, howner.trans hcharacter.symm,
                    hserver⟩
                · rw [htrim]
                  exact Text.trim_trim obj.content
                · obtain ⟨dropRows, costRows, h⟩ := hadded hplain
                  exact ⟨dropRows, costRows, h.runs_eq, h.new, h.drops_eq, h.dropOf, h.costs_eq,
                    h.costOf, h.grown, h.distinct, h.others⟩

section

variable {obj : LootCreateRunInput} {run : LootRun} {c d : Conn}

/-- What has been accepted is recorded exactly when all texts are plain. -/
theorem Accepted.recorded_iff (h : Accepted obj run c d) (hfresh : FreshRun c.db run.id)
    (hid : Text.Plain run.id) (hid_ne : run.id ≠ "")
    (hcharacters : schema.DistinctRows .appCharacter (c.db .appCharacter)) :
    (∃ run' dropRows costRows, run'.id = run.id ∧ Recorded obj run' dropRows costRows c d) ↔
      PlainRequest obj c := by
  constructor
  · rintro ⟨run', dropRows, costRows, -, hrecorded⟩
    obtain rfl : run' = run :=
      (List.cons.inj (List.append_cancel_left (hrecorded.added.runs_eq.symm.trans h.runs_eq))).1
    obtain ⟨character, -, -, -, -, hserver⟩ := h.character
    refine hrecorded.plainRequest hfresh hid hid_ne hcharacters ?_ h.asked
    rw [hserver]
    exact plain_of_map_cut character.server
  · intro hplain
    obtain ⟨dropRows, costRows, hadded⟩ := h.added hplain.items
    obtain ⟨character, hstored, hresolved, hne, hcharacter, hserver⟩ := h.character
    exact ⟨run, dropRows, costRows, rfl, hadded.recorded hfresh hid hid_ne hplain hstored hresolved
      hne hcharacter hserver h.content⟩

end

/-- A run with drops of these items and a cost, and with a drop of which there
is not even one. -/
def runRequest (names : List String) : Js :=
  .obj [("characterId", .str "c1"), ("content", .str "Draupnir"),
    ("drops", .arr ((names.map fun name => .obj [("itemName", .str name), ("qty", .num (.fin (5 / 2)))]) ++
      [.obj [("itemName", .str "gem"), ("qty", .num (.fin (1 / 2)))]])),
    ("costs", .arr [.obj [("kind", .str "ITEM"), ("itemName", .str "ore"), ("qty", .num 1)]])]

/-- One character on a server. -/
def onServer : Conn :=
  (createCharacter ⟨"Kaisinel", some "Siel", none⟩ "c1" 0 (opened none 0)).2

/-- The id of the run, of its drops and of its costs. -/
def runDraw : Draw := ⟨"run", 0, by decide, by decide⟩

def runDropDraws (i j : ℕ) : Draw := nthDraw (4 * i + 2 * j) 0

def runCostDraws (i j : ℕ) : Draw := nthDraw (4 * i + 2 * j + 1) 0

/-- The request on this state. -/
def requested (names : List String) : Except String String × Conn :=
  lootCreateRun (Host.iso (Zone.fixed 0)) (some (runRequest names)) runDraw runDropDraws runCostDraws
    onServer

theorem freshRun_onServer : FreshRun onServer.db "run" :=
  ⟨fun _ hr => (List.not_mem_nil hr).elim, fun _ hr => (List.not_mem_nil hr).elim,
    fun _ hr => (List.not_mem_nil hr).elim⟩

theorem characters_onServer : schema.DistinctRows .appCharacter (onServer.db .appCharacter) :=
  List.pairwise_singleton _ _

end Hub
