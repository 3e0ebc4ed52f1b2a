/-
Aion2Hub/Economy/Alerts.lean

Alerts and the price entries that raise them.

A run of operations on prices, watches, items, alerts and loot runs has a
history: the price entries that it has made, each with the rows it met
(`priceEntries`).  The alerts of the database are those that the watches ask for at
these entries (`alertsExact_of_run`): what one step adds is said by
`alertsExact_step`, and steps compose (`AlertsExact.trans`).
-/
import Aion2Hub.Economy.Items
import Aion2Hub.Lib.Aligned
import Aion2Hub.Lib.Load
import Aion2Hub.Storage.Footprint

namespace Hub

open Sql Exec

/-! ### Steps -/

inductive EconomyStep where
  | addEconomyPrice (input : PriceInput) (draws : ℕ → Draw)
  | createEconomyWatch (input : WatchInput) (draws : ℕ → Draw)
  | setEconomyWatchActive (id : String) (active : Bool) (now : ℤ)
  | deleteEconomyWatch (watchId : String)
  | updateEconomyItem (id name : String) (category note : Option String) (now : ℤ)
  | markEconomyAlertRead (id : String) (now : ℤ)
  | createLootRun (input : LootRunInput) (draw : Draw) (dropDraws costDraws : ℕ → ℕ → Draw)

def EconomyStep.run (host : Host) : EconomyStep → Prog Unit
  | .addEconomyPrice input draws => (Hub.addEconomyPrice input draws).discard
  | .createEconomyWatch input draws => (Hub.createEconomyWatch input draws).discard
  | .setEconomyWatchActive id active now => Hub.setEconomyWatchActive id active now
  | .deleteEconomyWatch watchId => Hub.deleteEconomyWatch watchId
  | .updateEconomyItem id name category note now => Hub.updateEconomyItem id name category note now
  | .markEconomyAlertRead id now => Hub.markEconomyAlertRead id now
  | .createLootRun input draw dropDraws costDraws =>
      (Hub.createLootRun host input draw dropDraws costDraws).discard

/-- The connection after some steps, failed ones among them. -/
def afterSteps (host : Host) (steps : List EconomyStep) (c : Conn) : Conn :=
  steps.foldl (fun c step => (step.run host c).2) c

/-! ### The history of a run -/

/-- A price entry: the rows it met and left, what was entered, and the alerts
that the program has returned. -/
structure PriceEntry where
  before : Db Row
  after : Db Row
  input : PriceInput
  price : EconomyPrice
  triggered : List EconomyAlertEvent

/-- The entry that a step makes. -/
def EconomyStep.entry (c : Conn) : EconomyStep → Option PriceEntry
  | .addEconomyPrice input draws =>
      match Hub.addEconomyPrice input draws c with
      | (.ok (priceId, _, triggered), d) =>
          ((d.db .economyPrice).find? fun r => r.id == priceId).map fun price =>
            ⟨c.db, d.db, input, price, triggered⟩
      | (.error _, _) => none
  | _ => none

/-- The entries of a run. -/
def priceEntries (host : Host) : List EconomyStep → Conn → List PriceEntry
  | [], _ => []
  | step :: steps, c => (step.entry c).toList ++ priceEntries host steps (step.run host c).2

/-- A watch asks for an alert at an entry: it is active, for the same server
and the item that has the name now, and the price is within its threshold. -/
def Asks (e : PriceEntry) (w : EconomyPriceWatch) : Prop :=
  w.active = true ∧ Text.trim w.server = Text.trim e.input.server ∧
    (∃ item ∈ e.after .economyItem, item.id = w.itemId ∧ item.name = Text.trim e.input.itemName) ∧
    w.op.compare (amount e.input.price) (amount w.threshold) = true

instance (e : PriceEntry) : DecidablePred (Asks e) := fun w =>
  inferInstanceAs (Decidable (w.active = true ∧ Text.trim w.server = Text.trim e.input.server ∧
    (∃ item ∈ (e.after .economyItem : List EconomyItem), item.id = w.itemId ∧
      item.name = Text.trim e.input.itemName) ∧
    w.op.compare (amount e.input.price) (amount w.threshold) = true))

/-- The watches there were that ask for an alert. -/
def asking (e : PriceEntry) : List EconomyPriceWatch := (e.before .economyPriceWatch).filter (Asks e)

/-- The entries and watches that there has to be an alert for. -/
def due (es : List PriceEntry) : List (PriceEntry × EconomyPriceWatch) :=
  es.flatMap fun e => (asking e).map (Prod.mk e)

/-- The alert of a price entry and a watch; the name of its item is the one that
has been entered, as far as texts are read. -/
structure Raised (e : PriceEntry) (w : EconomyPriceWatch) (event : EconomyAlertEvent) : Prop where
  price : event.price = e.price.price
  op : event.op = w.op
  threshold : event.threshold = amount w.threshold
  server : event.server = e.price.server
  itemId : event.itemId = e.price.itemId
  itemName : Text.cut event.itemName = Text.cut (Text.trim e.input.itemName)
  triggeredAt : event.triggeredAt = e.price.recordedAt

/-- What an entry stores and returns. -/
structure Entered (e : PriceEntry) : Prop where
  server : e.price.server = Text.trim e.input.server
  price : e.price.price = amount e.input.price
  item : ∃ item ∈ e.after .economyItem, item.id = e.price.itemId ∧
    item.name = Text.trim e.input.itemName
  recordedAt : ∀ time, nonEmpty e.input.recordedAt = some time → e.price.recordedAt = time
  /-- The returned alerts are the added ones. -/
  triggered : e.after .economyAlertEvent = e.before .economyAlertEvent ++ e.triggered
  unread : ∀ event ∈ e.triggered, event.readAt = none

/-- Two alerts that may differ in when they were read. -/
def SameButRead (a b : EconomyAlertEvent) : Prop := b = { a with readAt := b.readAt }

/-- These entries have been made, and the alerts that were due have been
raised, one for each. -/
structure AlertsExact (c d : Conn) (es : List PriceEntry) : Prop where
  prices : d.db .economyPrice = c.db .economyPrice ++ es.map (·.price)
  entered : ∀ e ∈ es, Entered e
  events : ∃ old new pairs, d.db .economyAlertEvent = old ++ new ∧
    List.Forall₂ SameButRead (c.db .economyAlertEvent) old ∧ pairs.Perm (due es) ∧
    List.Forall₂ (fun pw event => Raised pw.1 pw.2 event) pairs new

/-! ### Steps compose -/

theorem SameButRead.refl (a : EconomyAlertEvent) : SameButRead a a := rfl

theorem SameButRead.trans {a b e : EconomyAlertEvent} (h : SameButRead a b) (h' : SameButRead b e) :
    SameButRead a e := by
  rw [SameButRead] at h h' ⊢
  rw [h', h]

theorem Raised.of_same {e : PriceEntry} {w : EconomyPriceWatch} {a b : EconomyAlertEvent}
    (h : Raised e w a) (hab : SameButRead a b) : Raised e w b := by
  rw [hab]
  exact ⟨h.price, h.op, h.threshold, h.server, h.itemId, h.itemName, h.triggeredAt⟩

/-- A run after a run. -/
theorem AlertsExact.trans {c d d' : Conn} {es es' : List PriceEntry} (h : AlertsExact c d es)
    (h' : AlertsExact d d' es') : AlertsExact c d' (es ++ es') := by
  obtain ⟨old, new, pairs, hrows, hold, hperm, hnew⟩ := h.events
  obtain ⟨old', new', pairs', hrows', hold', hperm', hnew'⟩ := h'.events
  rw [hrows] at hold'
  -- the second run may have marked alerts that the first one has raised
  obtain ⟨marked, raised, hmarked, hraised, rfl⟩ := hold'.append_left
  refine ⟨?_, ?_, marked, raised ++ new', pairs ++ pairs', ?_, ?_, ?_, ?_⟩
  · rw [h'.prices, h.prices, List.map_append, List.append_assoc]
  · intro e he
    exact (List.mem_append.mp he).elim (h.entered e) (h'.entered e)
  · rw [hrows', List.append_assoc]
  · exact hold.comp hmarked fun a b e hab hbe => hab.trans hbe
  · rw [due, List.flatMap_append]
    exact hperm.append hperm'
  · apply List.rel_append _ hnew'
    exact hnew.comp hraised fun pw a b hraise hab => hraise.of_same hab

/-- A step without an entry. -/
theorem AlertsExact.of_same {c d : Conn} (hprices : d.db .economyPrice = c.db .economyPrice)
    (halerts : List.Forall₂ SameButRead (c.db .economyAlertEvent) (d.db .economyAlertEvent)) :
    AlertsExact c d [] := by
  refine ⟨?_, fun e he => absurd he List.not_mem_nil, d.db .economyAlertEvent, [], [], ?_, halerts,
    List.Perm.refl _, .nil⟩
  · rw [hprices]
    exact (List.append_nil _).symm
  · exact (List.append_nil _).symm

theorem AlertsExact.of_leaves {α : Type} {F : Table → Prop} {m : Prog α} (h : Leaves F m)
    (hprice : F .economyPrice) (halert : F .economyAlertEvent) (c : Conn) :
    AlertsExact c (m c).2 [] := by
  apply AlertsExact.of_same (h.same c _ hprice)
  rw [h.same c _ halert]
  exact List.forall₂_same.mpr fun a _ => SameButRead.refl a

/-! ### What steps keep -/

/-- Watches name trimmed servers, their thresholds are natural numbers, and the
ids of items hold no U+0000. -/
def EconomyKept : (t : Table) → Row t → Prop
  | .economyPriceWatch, w => Trimmed w.server ∧ IsNatural w.threshold
  | .economyItem, r => Text.Plain r.id
  | _, _ => True

/-- The rows that alerts depend on are sound. -/
structure EconomySound (db : Db Row) : Prop where
  items : schema.DistinctRows .economyItem (db .economyItem)
  rows : AllRows EconomyKept db

/-- Items stay distinct. -/
theorem keeps_items_of_leaves {α : Type} {m : Prog α} (h : Leaves (· = Table.economyItem) m) :
    Keeps (fun c : Conn => schema.DistinctRows .economyItem (c.db .economyItem)) m := by
  apply h.keeps (I := fun db => schema.DistinctRows .economyItem (db .economyItem))
  intro db db' hsame hdb
  rw [hsame _ rfl]
  exact hdb

theorem keeps_items_upsert {name : String} {category note : Option String} {draw : Draw} :
    Keeps (fun c : Conn => schema.DistinctRows .economyItem (c.db .economyItem))
      (upsertEconomyItemByName name category note draw) := by
  refine Keeps.ofOption.bind fun name => Keeps.gets.bind fun existing => ?_
  split
  · exact keeps_distinct_update.bind fun _ => Keeps.pure
  · exact keeps_distinct_insert.bind fun _ => Keeps.pure

/-- A round of a loop of a loot run asks for an item and inserts a row. -/
theorem keeps_insertDrop {I : Conn → Prop} {runId : String} {now : ℤ} {d : DropInput}
    {draws : ℕ → Draw}
    (hupsert : ∀ name draw, Keeps I (upsertEconomyItemByName name none none draw))
    (hinsert : ∀ r, Keeps I (schema.insert .abort .lootRunDrop r)) :
    Keeps I (insertDrop runId now d draws) := by
  unfold insertDrop
  split
  · exact Keeps.pure
  split
  · exact Keeps.pure
  · exact (hupsert _ _).bind fun item => hinsert _

theorem keeps_insertCost {I : Conn → Prop} {runId : String} {now : ℤ} {cost : CostInput}
    {draws : ℕ → Draw}
    (hupsert : ∀ name draw, Keeps I (upsertEconomyItemByName name none none draw))
    (hinsert : ∀ r, Keeps I (schema.insert .abort .lootRunCost r)) :
    Keeps I (insertCost runId now cost draws) := by
  unfold insertCost
  split
  · split
    · exact Keeps.pure
    · exact hinsert _
  split
  · exact Keeps.pure
  split
  · exact Keeps.pure
  · exact (hupsert _ _).bind fun item => hinsert _

theorem keeps_createLootRun_of {I : Db Row → Prop} {host : Host} {input : LootRunInput} {draw : Draw}
    {dropDraws costDraws : ℕ → ℕ → Draw}
    (hupsert : ∀ name draw, Keeps (fun c : Conn => I c.db)
      (upsertEconomyItemByName name none none draw))
    (hinsert : ∀ t, t = .lootRun ∨ t = .lootRunDrop ∨ t = .lootRunCost →
      ∀ r, Keeps (fun c : Conn => I c.db) (schema.insert .abort t r)) :
    Keeps (fun c : Conn => I c.db) (createLootRun host input draw dropDraws costDraws) := by
  refine Keeps.ofOption.bind fun _ => Keeps.ofOption.bind fun _ => Keeps.gets.bind fun _ =>
    Keeps.ofOption.bind fun _ => Keeps.bind (keeps_atomically ?_ ?_) fun _ => Keeps.pure
  · exact quiet_insert.bind fun _ => (Quiet.forEach fun _ => quiet_insertDrop).bind fun _ =>
      Quiet.forEach fun _ => quiet_insertCost
  · refine (hinsert _ (.inl rfl) _).bind fun _ => Keeps.bind (Keeps.forEach fun _ _ => ?_) fun _ =>
      Keeps.forEach fun _ _ => ?_
    · exact keeps_insertDrop hupsert (hinsert _ (.inr (.inl rfl)))
    · exact keeps_insertCost hupsert (hinsert _ (.inr (.inr rfl)))

theorem keeps_items (host : Host) (step : EconomyStep) :
    Keeps (fun c : Conn => schema.DistinctRows .economyItem (c.db .economyItem)) (step.run host) := by
  cases step with
  | addEconomyPrice input draws =>
      refine Keeps.discard (Keeps.ofOption.bind fun server => keeps_items_upsert.bind fun item => ?_)
      refine keeps_distinct_insert.bind fun _ => Keeps.bind (Keeps.gets.bind fun rows => ?_) fun _ =>
        Keeps.pure
      exact keeps_items_of_leaves (leaves_insertAlerts (by decide))
  | createEconomyWatch input draws =>
      refine Keeps.discard (Keeps.ofOption.bind fun server => keeps_items_upsert.bind fun item => ?_)
      exact keeps_distinct_insert.bind fun _ => Keeps.pure
  | setEconomyWatchActive id active now => exact Keeps.ofOption.bind fun id => keeps_distinct_update
  | deleteEconomyWatch watchId =>
      apply keeps_items_of_leaves
      exact leaves_delete (schema.closed_single rfl) (by decide)
  | updateEconomyItem id name category note now =>
      exact Keeps.ofOption.bind fun id => Keeps.ofOption.bind fun name => keeps_distinct_update
  | markEconomyAlertRead id now => exact Keeps.ofOption.bind fun id => keeps_distinct_update
  | createLootRun input draw dropDraws costDraws =>
      apply Keeps.discard
      exact keeps_createLootRun_of (I := fun db => schema.DistinctRows .economyItem (db .economyItem))
        (fun _ _ => keeps_items_upsert) fun _ _ _ => keeps_distinct_insert

theorem clearKeeps_economyKept : schema.ClearKeeps EconomyKept := by
  intro t fk hfk clear hclear r hr
  cases t with
  | economyPriceWatch =>
      obtain rfl := List.mem_singleton.mp hfk
      cases hclear
  | economyItem => cases hfk
  | _ => trivial

theorem keeps_rows_of_leaves {α : Type} {m : Prog α}
    (h : Leaves (fun t => t = Table.economyPriceWatch ∨ t = .economyItem) m) :
    Keeps (fun c : Conn => AllRows EconomyKept c.db) m := by
  apply h.keeps
  intro db db' hsame hdb t r hr
  cases t with
  | economyPriceWatch =>
      rw [hsame _ (.inl rfl)] at hr
      exact hdb _ r hr
  | economyItem =>
      rw [hsame _ (.inr rfl)] at hr
      exact hdb _ r hr
  | _ => trivial

theorem keeps_rows_upsert {name : String} {category note : Option String} {draw : Draw} :
    Keeps (fun c : Conn => AllRows EconomyKept c.db)
      (upsertEconomyItemByName name category note draw) := by
  refine Keeps.ofOption.bind fun name => Keeps.gets.bind fun existing => ?_
  split
  · refine Keeps.bind (keeps_update_rows fun r hr => ?_) fun _ => Keeps.pure
    exact hr
  · refine Keeps.bind (keeps_append_rows ?_) fun _ => Keeps.pure
    exact draw.plain

theorem keeps_rows (host : Host) (step : EconomyStep) :
    Keeps (fun c : Conn => AllRows EconomyKept c.db) (step.run host) := by
  cases step with
  | addEconomyPrice input draws =>
      refine Keeps.discard (Keeps.ofOption.bind fun server => ?_)
      refine keeps_rows_upsert.bind fun item => ?_
      refine (keeps_rows_of_leaves (leaves_insert_abort (by decide))).bind fun _ => ?_
      refine Keeps.bind (Keeps.gets.bind fun rows => ?_) fun _ => Keeps.pure
      exact keeps_rows_of_leaves (leaves_insertAlerts (by decide))
  | createEconomyWatch input draws =>
      apply Keeps.discard
      unfold createEconomyWatch
      cases hserver : trimmed (some input.server) with
      | none => exact Keeps.throw
      | some server =>
          rw [ofOption_some_bind]
          refine keeps_rows_upsert.bind fun item => ?_
          refine Keeps.bind (keeps_append_rows ?_) fun _ => Keeps.pure
          exact ⟨trimmed_of_eq_some hserver, isNatural_amount input.threshold⟩
  | setEconomyWatchActive id active now =>
      refine Keeps.ofOption.bind fun id => keeps_update_rows ?_
      exact fun w hw => hw
  | deleteEconomyWatch watchId =>
      exact keeps_of_apply fun c hc => allRows_deleteDb clearKeeps_economyKept hc
  | updateEconomyItem id name category note now =>
      refine Keeps.ofOption.bind fun id => Keeps.ofOption.bind fun name => ?_
      exact keeps_update_rows fun r hr => hr
  | markEconomyAlertRead id now =>
      exact Keeps.ofOption.bind fun id => keeps_rows_of_leaves (leaves_update (by decide))
  | createLootRun input draw dropDraws costDraws =>
      apply Keeps.discard
      refine keeps_createLootRun_of (fun _ _ => keeps_rows_upsert) fun t ht r => ?_
      rcases ht with rfl | rfl | rfl <;> exact keeps_append_rows trivial

/-- Sound rows stay sound. -/
theorem EconomySound.step {host : Host} {c : Conn} (h : EconomySound c.db) (step : EconomyStep) :
    EconomySound (step.run host c).2.db :=
  ⟨(keeps_items host step).apply h.items, (keeps_rows host step).apply h.rows⟩

/-! ### One entry -/

/-- The alert that the loop inserts for a watch. -/
def alertFor (event : PriceEvent) (id : String) (w : EconomyPriceWatch) : EconomyAlertEvent where
  id := id
  server := event.server
  itemId := event.itemId
  itemName := event.itemName
  op := w.op
  threshold := w.threshold
  price := event.price
  triggeredAt := event.triggeredAt
  readAt := none

/-- The threshold of a watch is met. -/
def meets (price : Number) (w : EconomyPriceWatch) : Bool := w.op.compare price w.threshold

/-- Ids that are drawn for alerts are new, and each is drawn once. -/
structure FreshAlertIds (draws : ℕ → Draw) (db : Db Row) : Prop where
  distinct : ∀ i j, (draws i).id = (draws j).id → i = j
  unused : ∀ i, ∀ event ∈ db .economyAlertEvent, event.id ≠ (draws i).id

/-- The loop inserts an alert for each watch whose threshold is met, and
returns what it has inserted. -/
theorem insertAlerts_ok {event : PriceEvent} {draws : ℕ → Draw}
    (hdistinct : ∀ i j, (draws i).id = (draws j).id → i = j) (ws : List EconomyPriceWatch)
    (triggered : List EconomyAlertEvent) {c : Conn}
    (hitem : ∃ item ∈ c.db .economyItem, item.id = event.itemId)
    (hunused : ∀ i, triggered.length ≤ i → ∀ e ∈ c.db .economyAlertEvent, e.id ≠ (draws i).id) :
    ∃ new d, insertAlerts event draws ws triggered c = (.ok (triggered ++ new), d) ∧
      d.db .economyAlertEvent = c.db .economyAlertEvent ++ new ∧
      List.Forall₂ (fun w e => ∃ id, e = alertFor event id w)
        (ws.filter (meets event.price)) new := by
  induction ws generalizing triggered c with
  | nil => exact ⟨[], c, by rw [List.append_nil]; rfl, (List.append_nil _).symm, .nil⟩
  | cons w ws ih =>
      rw [insertAlerts]
      by_cases hw : meets event.price w = true
      · let alert := alertFor event (draws triggered.length).id w
        let after : List (Row Table.economyAlertEvent) := c.db .economyAlertEvent ++ [alert]
        let d : Conn := { c with db := c.db.set .economyAlertEvent after }
        have hinsert : schema.insert .abort .economyAlertEvent alert c = (.ok (), d) := by
          apply insert_fits_key rfl
          · exact hunused triggered.length le_rfl
          · intro _ fk hfk k hk
            obtain rfl := List.mem_singleton.mp hfk
            obtain rfl := Option.some.inj hk
            exact hitem
        have halerts : d.db .economyAlertEvent = after :=
          Db.set_self c.db Table.economyAlertEvent after
        obtain ⟨new, d', hrun, hrows, hnew⟩ := ih (triggered ++ [alert]) (c := d)
          (by
            show ∃ item ∈ (c.db.set .economyAlertEvent after) .economyItem, item.id = event.itemId
            rw [Db.set_of_ne c.db (by decide)]
            exact hitem)
          (by
            intro i hi e he
            rw [List.length_append, List.length_singleton] at hi
            rw [halerts] at he
            rcases List.mem_append.mp he with hold | hadded
            · exact hunused i (by omega) e hold
            · obtain rfl := List.mem_singleton.mp hadded
              intro hid
              have heq := hdistinct _ _ hid
              omega)
        refine ⟨alert :: new, d', ?_, ?_, ?_⟩
        · rw [meets] at hw
          rw [if_pos hw]
          refine (bind_of_ok hinsert).trans ?_
          rw [List.append_assoc] at hrun
          exact hrun
        · rw [hrows, halerts, List.append_assoc]
          rfl
        · rw [List.filter_cons_of_pos hw]
          exact .cons ⟨_, rfl⟩ hnew
      · rw [List.filter_cons_of_neg hw]
        rw [meets] at hw
        rw [if_neg hw]
        exact ih triggered hitem hunused

/-- A watch is for the item of a name just when it is for the item that has
been found for the name. -/
theorem itemId_eq_iff {items : List EconomyItem} (h : schema.DistinctRows .economyItem items)
    {item : EconomyItem} {name : String} (hstored : ∃ r ∈ items, r.id = item.id ∧ r.name = name)
    (id : String) : id = item.id ↔ ∃ r ∈ items, r.id = id ∧ r.name = name := by
  constructor
  · rintro rfl
    exact hstored
  · rintro ⟨r, hr, rfl, hname⟩
    obtain ⟨q, hq, hid, hname'⟩ := hstored
    have hsame : schema.conflicts .economyItem r q = true := by
      apply conflicts_iff.mpr
      refine .inr ⟨_, List.mem_cons_self, ?_⟩
      show [r.name] = [q.name]
      rw [hname, hname']
    rw [h.eq_of_conflicts hr hq hsame, hid]

theorem amount_of_isNatural {x : Number} (h : IsNatural x) : amount x = x := by
  rw [amount, if_pos h.isFinite, h.atLeast_floor]

/-- What an entry of a price has done. -/
structure PriceAdded (input : PriceInput) (c d : Conn) (p : EconomyPrice)
    (triggered : List EconomyAlertEvent) : Prop where
  server : p.server = Text.trim input.server
  price : p.price = amount input.price
  recordedAt : ∀ time, nonEmpty input.recordedAt = some time → p.recordedAt = time
  prices : d.db .economyPrice = c.db .economyPrice ++ [p]
  new : ∀ q ∈ c.db .economyPrice, EconomyPrice.id q ≠ p.id
  items : schema.DistinctRows .economyItem (d.db .economyItem)
  item : ∃ item ∈ d.db .economyItem, item.id = p.itemId ∧ item.name = Text.trim input.itemName
  alerts : d.db .economyAlertEvent = c.db .economyAlertEvent ++ triggered
  unread : ∀ event ∈ triggered, event.readAt = none
  triggered : ∃ ws : List EconomyPriceWatch,
    ws.Perm ((c.db .economyPriceWatch).filter fun w : EconomyPriceWatch =>
      meets p.price w && (w.server == p.server && w.itemId == p.itemId && w.active)) ∧
    List.Forall₂ (Raised ⟨c.db, d.db, input, p, triggered⟩) ws triggered

/-- An entry fails before it has stored a price, or stores it and all its
alerts. -/
theorem addEconomyPrice_cases {input : PriceInput} {draws : ℕ → Draw} {c : Conn}
    (hc : EconomySound c.db) (hfresh : FreshAlertIds (fun i => draws (i + 2)) c.db) :
    (∃ e d, addEconomyPrice input draws c = (.error e, d) ∧
      d.db .economyPrice = c.db .economyPrice ∧
      d.db .economyAlertEvent = c.db .economyAlertEvent) ∨
    ∃ p item triggered d, addEconomyPrice input draws c = (.ok (p.id, item, triggered), d) ∧
      PriceAdded input c d p triggered := by
  unfold addEconomyPrice
  cases hserver : trimmed (some input.server) with
  | none => exact .inl ⟨_, c, rfl, rfl, rfl⟩
  | some server =>
      obtain rfl := trimmed_some_eq hserver
      rw [ofOption_some_bind]
      have hleaves : Leaves (fun t => t ≠ Table.economyItem)
          (upsertEconomyItemByName input.itemName none none (draws 0)) :=
        leaves_upsertEconomyItemByName (by decide)
      have hsame := hleaves.same c
      rcases hupsert : upsertEconomyItemByName input.itemName none none (draws 0) c with ⟨e | item, s⟩
      · rw [hupsert] at hsame
        exact .inl ⟨e, s, bind_of_error hupsert, hsame _ (by decide), hsame _ (by decide)⟩
      rw [hupsert] at hsame
      have hitem := upsertEconomyItemByName_ok hc.items hupsert
      rw [bind_of_ok hupsert]
      let p : EconomyPrice := ⟨(draws 1).id, Text.trim input.server, item.id, amount input.price,
        (nonEmpty input.recordedAt).getD (stamp (draws 1).now), stamp (draws 1).now,
        stamp (draws 1).now⟩
      rcases hinsert : schema.insert .abort .economyPrice p s with ⟨e | u, s'⟩
      · obtain rfl := insert_error hinsert
        exact .inl ⟨e, s', bind_of_error hinsert, hsame _ (by decide), hsame _ (by decide)⟩
      have hany := no_conflict_of_insert hinsert
      obtain rfl := insert_abort_ok hinsert
      let after : List (Row Table.economyPrice) := s.db .economyPrice ++ [p]
      let s' : Conn := { s with db := s.db.set .economyPrice after }
      have hother : ∀ t ≠ Table.economyPrice, s'.db t = s.db t := fun t ht => Db.set_of_ne s.db ht after
      have hprices : s'.db .economyPrice = after := Db.set_self s.db Table.economyPrice after
      let event : PriceEvent := ⟨Text.trim input.server, item.id, item.name, amount input.price,
        (nonEmpty input.recordedAt).getD (stamp (draws 1).now)⟩
      let asked : List EconomyPriceWatch := (s'.db .economyPriceWatch).filter fun w : EconomyPriceWatch =>
        w.server == event.server && w.itemId == event.itemId && w.active
      let ws := orderBy (desc (·.createdAt) anyOrder) asked
      let read : EconomyPriceWatch → EconomyPriceWatch := schema.read .economyPriceWatch
      have hfound := hitem.stored fun r hr _ => hc.rows .economyItem r hr
      have hstored : ∃ r ∈ s'.db .economyItem, r.id = event.itemId := by
        obtain ⟨r, hr, hid, -⟩ := hfound
        rw [hother _ (by decide)]
        exact ⟨r, hr, hid⟩
      have hunused : ∀ i, ([] : List EconomyAlertEvent).length ≤ i →
          ∀ e ∈ s'.db .economyAlertEvent, e.id ≠ (draws (i + 2)).id := by
        intro i _ e he
        rw [hother _ (by decide), hsame _ (by decide)] at he
        exact hfresh.unused i e he
      obtain ⟨new, d, hrun, halerts, hnew⟩ :=
        insertAlerts_ok hfresh.distinct (ws.map read) [] hstored hunused
      have hloop : Leaves (fun t => t ≠ Table.economyAlertEvent)
          (insertAlerts event (fun i => draws (i + 2)) (ws.map read) []) := leaves_insertAlerts (by decide)
      have hkept := hloop.same s'
      rw [hrun] at hkept
      have htrigger : triggerWatchesForPrice event (fun i => draws (i + 2)) s' = (.ok new, d) := hrun
      have hkeep : ∀ t, t ≠ Table.economyItem → t ≠ .economyPrice → t ≠ .economyAlertEvent →
          d.db t = c.db t := by
        intro t hitem' hprice halert
        rw [hkept t halert, hother t hprice]
        exact hsame t hitem'
      have hitems : d.db .economyItem = s.db .economyItem :=
        (hkept _ (by decide)).trans (hother _ (by decide))
      refine .inr ⟨p, item, new, d, ?_, ?_⟩
      · refine (bind_of_ok hinsert).trans ((bind_of_ok htrigger).trans ?_)
        rfl
      exact
        { server := rfl
          price := rfl
          recordedAt := by
            intro time htime
            show (nonEmpty input.recordedAt).getD _ = time
            rw [htime]
            rfl
          prices := by
            rw [hkept _ (by decide), hprices]
            show s.db .economyPrice ++ [p] = _
            rw [hsame _ (by decide)]
          new := by
            intro q hq hid
            rw [← hsame .economyPrice (by decide)] at hq
            exact hany (List.any_eq_true.mpr ⟨q, hq, conflicts_of_key hid.symm⟩)
          items := by
            rw [hitems]
            exact hitem.distinct
          item := by
            rw [hitems]
            exact hfound
          alerts := by
            rw [halerts, hother _ (by decide), hsame _ (by decide)]
          triggered := by
            refine ⟨ws.filter (meets p.price), ?_, ?_⟩
            · rw [← List.filter_filter, ← hsame .economyPriceWatch (by decide),
                ← hother .economyPriceWatch (by decide)]
              exact (orderBy_perm _ asked).filter _
            · have hnatural : ∀ w ∈ ws.filter (meets p.price), IsNatural w.threshold := by
                intro w hw
                have hasked := (orderBy_perm _ asked).mem_iff.mp (List.mem_filter.mp hw).1
                have hmem := (List.mem_filter.mp hasked).1
                rw [hother _ (by decide), hsame _ (by decide)] at hmem
                exact (hc.rows .economyPriceWatch w hmem).2
              have hname : Text.cut item.name = Text.cut (Text.trim input.itemName) := by
                rcases hitem.name with hname | hname
                · rw [hname]
                · rw [hname, Text.cut_cut]
              -- reading a watch leaves its threshold as it is
              have hread : (ws.map read).filter (meets p.price) = (ws.filter (meets p.price)).map read :=
                List.filter_map ..
              rw [hread, List.forall₂_map_left_iff] at hnew
              refine ((List.forall₂_and_left _ _).mpr ⟨hnatural, hnew⟩).imp ?_
              rintro w e ⟨hw, id, rfl⟩
              exact ⟨rfl, rfl, (amount_of_isNatural hw).symm, rfl, rfl, hname, rfl⟩
          unread := by
            intro e he
            obtain ⟨w, -, id, rfl⟩ := hnew.exists_left he
            rfl }

/-! ### Steps and runs -/

/-- A step draws new ids for its alerts. -/
def EconomyStep.Fresh (step : EconomyStep) (db : Db Row) : Prop :=
  match step with
  | .addEconomyPrice _ draws => FreshAlertIds (fun i => draws (i + 2)) db
  | _ => True

/-- Every step of a run draws new ids for its alerts. -/
def RunFresh (host : Host) : List EconomyStep → Conn → Prop
  | [], _ => True
  | step :: steps, c => step.Fresh c.db ∧ RunFresh host steps (step.run host c).2

/-- The watches that ask for an alert, as the query finds them. -/
theorem asking_eq {e : PriceEntry} {p : EconomyPrice} {c d : Conn} (hc : AllRows EconomyKept c.db)
    (hbefore : e.before = c.db) (hafter : e.after = d.db)
    (h : PriceAdded e.input c d p e.triggered) :
    asking e = (c.db .economyPriceWatch).filter fun w : EconomyPriceWatch =>
      meets p.price w && (w.server == p.server && w.itemId == p.itemId && w.active) := by
  rw [asking, hbefore]
  apply List.filter_congr
  intro w hw
  obtain ⟨⟨htrim, -⟩, hnatural⟩ := hc .economyPriceWatch w hw
  obtain ⟨item, hitem, hid, hname⟩ := h.item
  have hname' := itemId_eq_iff h.items ⟨item, hitem, rfl, hname⟩ w.itemId
  rw [Bool.eq_iff_iff, decide_eq_true_iff, Asks, hafter, ← hname', htrim, amount_of_isNatural hnatural,
    hid, ← h.server, ← h.price]
  simp only [Bool.and_eq_true, beq_iff_eq, meets]
  tauto

/-- The entry of a price that has been added. -/
theorem entry_of_added {input : PriceInput} {draws : ℕ → Draw} {c d : Conn} {p : EconomyPrice}
    {item : EconomyItem} {triggered : List EconomyAlertEvent}
    (hrun : addEconomyPrice input draws c = (.ok (p.id, item, triggered), d))
    (h : PriceAdded input c d p triggered) :
    (EconomyStep.addEconomyPrice input draws).entry c = some ⟨c.db, d.db, input, p, triggered⟩ := by
  have hfind : (d.db .economyPrice).find? (fun r : EconomyPrice => r.id == p.id) = some p := by
    rw [h.prices, List.find?_append]
    have hnone : (c.db .economyPrice).find? (fun r : EconomyPrice => r.id == p.id) = none := by
      apply List.find?_eq_none.mpr
      intro q hq
      simpa using h.new q hq
    rw [hnone, Option.none_or]
    exact List.find?_cons_of_pos (beq_self_eq_true p.id)
  rw [EconomyStep.entry, hrun]
  dsimp only
  rw [hfind]
  rfl

/-- A price entry raises the alerts that are due for it. -/
theorem alertsExact_addEconomyPrice {input : PriceInput} {draws : ℕ → Draw} {c : Conn} {host : Host}
    (hc : EconomySound c.db) (hfresh : FreshAlertIds (fun i => draws (i + 2)) c.db) :
    AlertsExact c ((EconomyStep.addEconomyPrice input draws).run host c).2
      ((EconomyStep.addEconomyPrice input draws).entry c).toList := by
  rcases addEconomyPrice_cases hc hfresh with ⟨e, d, hrun, hprices, halerts⟩ | ⟨p, item, triggered, d,
    hrun, hadded⟩
  · have hentry : (EconomyStep.addEconomyPrice input draws).entry c = none := by
      rw [EconomyStep.entry, hrun]
    have hstate : ((EconomyStep.addEconomyPrice input draws).run host c).2 = d := by
      show ((Hub.addEconomyPrice input draws).discard c).2 = d
      rw [discard_snd, hrun]
    rw [hentry, hstate]
    apply AlertsExact.of_same hprices
    rw [halerts]
    exact List.forall₂_same.mpr fun a _ => SameButRead.refl a
  · have hstate : ((EconomyStep.addEconomyPrice input draws).run host c).2 = d := by
      show ((Hub.addEconomyPrice input draws).discard c).2 = d
      rw [discard_snd, hrun]
    rw [entry_of_added hrun hadded, hstate]
    let e : PriceEntry := ⟨c.db, d.db, input, p, triggered⟩
    have hasking : asking e = _ := asking_eq hc.rows rfl rfl hadded
    obtain ⟨ws, hperm, hraised⟩ := hadded.triggered
    refine ⟨hadded.prices, ?_, c.db .economyAlertEvent, triggered, ws.map (Prod.mk e), hadded.alerts,
      List.forall₂_same.mpr fun a _ => SameButRead.refl a, ?_, ?_⟩
    · intro e' he'
      obtain rfl := List.mem_singleton.mp he'
      exact ⟨hadded.server, hadded.price, hadded.item, hadded.recordedAt, hadded.alerts, hadded.unread⟩
    · show (ws.map (Prod.mk e)).Perm (due [e])
      rw [due, List.flatMap_singleton, hasking]
      exact hperm.map (Prod.mk e)
    · rw [List.forall₂_map_left_iff]
      exact hraised

theorem closed_alerts :
    schema.Closed fun t => t = .economyItem ∨ t = .economyPrice ∨ t = .economyAlertEvent := by
  intro t ht fk hfk
  rcases ht with rfl | rfl | rfl
  · exact absurd hfk List.not_mem_nil
  · obtain rfl := List.mem_singleton.mp hfk
    exact .inl rfl
  · obtain rfl := List.mem_singleton.mp hfk
    exact .inl rfl

/-- What `markEconomyAlertRead` does to an alert. -/
def MarkedRead (id : String) (a b : EconomyAlertEvent) : Prop :=
  SameButRead a b ∧ (a.id ≠ id → b = a)

/-- Marking an alert as read touches nothing else. -/
theorem markEconomyAlertRead_alerts (id : String) (now : ℤ) (c : Conn) :
    (∀ t ≠ Table.economyAlertEvent, (markEconomyAlertRead id now c).2.db t = c.db t) ∧
      List.Forall₂ (MarkedRead id) (c.db .economyAlertEvent)
        ((markEconomyAlertRead id now c).2.db .economyAlertEvent) := by
  have hleaves : Leaves (fun t => t ≠ Table.economyAlertEvent) (markEconomyAlertRead id now) :=
    Leaves.ofOption.bind fun id => leaves_update (by decide)
  refine ⟨fun t ht => hleaves.same c t ht, ?_⟩
  have hrefl : List.Forall₂ (MarkedRead id) (c.db .economyAlertEvent) (c.db .economyAlertEvent) :=
    List.forall₂_same.mpr fun a _ => ⟨SameButRead.refl a, fun _ => rfl⟩
  unfold markEconomyAlertRead
  cases hid : nonEmpty (some id) with
  | none => exact hrefl
  | some id' =>
      obtain rfl := Option.some.inj (nonEmpty_eq hid)
      rw [ofOption_some_bind]
      let hit : EconomyAlertEvent → Bool := fun r => r.id == id
      let read : EconomyAlertEvent → EconomyAlertEvent := fun r => { r with readAt := some (stamp now) }
      show List.Forall₂ (MarkedRead id) _
        ((schema.update Table.economyAlertEvent hit read c).2.db .economyAlertEvent)
      have hrows : (schema.update Table.economyAlertEvent hit read c).2.db .economyAlertEvent =
          c.db .economyAlertEvent ∨ (schema.update Table.economyAlertEvent hit read c).2.db
            .economyAlertEvent = (c.db .economyAlertEvent).map fun r => if hit r then read r else r :=
        update_self _ _ _ c
      rcases hrows with hsame | hmap
      · rw [hsame]
        exact hrefl
      · rw [hmap, List.forall₂_map_right_iff]
        apply List.forall₂_same.mpr
        intro a ha
        by_cases heq : a.id = id
        · rw [if_pos (beq_iff_eq.mpr heq)]
          exact ⟨rfl, fun hne => absurd heq hne⟩
        · rw [if_neg fun hhit => heq (beq_iff_eq.mp hhit)]
          exact ⟨SameButRead.refl a, fun _ => rfl⟩

/-- One step raises the alerts that are due for its entry, and no others. -/
theorem alertsExact_step {host : Host} {c : Conn} {step : EconomyStep} (hc : EconomySound c.db)
    (hfresh : step.Fresh c.db) : AlertsExact c (step.run host c).2 (step.entry c).toList := by
  cases step with
  | addEconomyPrice input draws => exact alertsExact_addEconomyPrice hc hfresh
  | createEconomyWatch input draws =>
      apply AlertsExact.of_leaves (F := fun t => t = .economyPrice ∨ t = .economyAlertEvent) _
        (.inl rfl) (.inr rfl)
      apply Leaves.discard
      exact Leaves.ofOption.bind fun server => (leaves_upsertEconomyItemByName (by decide)).bind
        fun item => (leaves_insert_abort (by decide)).bind fun _ => Leaves.pure
  | setEconomyWatchActive id active now =>
      apply AlertsExact.of_leaves (F := fun t => t = .economyPrice ∨ t = .economyAlertEvent) _
        (.inl rfl) (.inr rfl)
      exact Leaves.ofOption.bind fun id => leaves_update (by decide)
  | deleteEconomyWatch watchId =>
      apply AlertsExact.of_leaves
        (F := fun t => t = .economyItem ∨ t = .economyPrice ∨ t = .economyAlertEvent) _
        (.inr (.inl rfl)) (.inr (.inr rfl))
      exact leaves_delete closed_alerts (by decide)
  | updateEconomyItem id name category note now =>
      apply AlertsExact.of_leaves (F := fun t => t = .economyPrice ∨ t = .economyAlertEvent) _
        (.inl rfl) (.inr rfl)
      exact Leaves.ofOption.bind fun id => Leaves.ofOption.bind fun name => leaves_update (by decide)
  | markEconomyAlertRead id now =>
      obtain ⟨hothers, halerts⟩ := markEconomyAlertRead_alerts id now c
      exact AlertsExact.of_same (hothers _ (by decide)) (halerts.imp fun a b hab => hab.1)
  | createLootRun input draw dropDraws costDraws =>
      apply AlertsExact.of_leaves (F := fun t => t = .economyPrice ∨ t = .economyAlertEvent) _
        (.inl rfl) (.inr rfl)
      apply Leaves.discard
      exact leaves_createLootRun (by decide) (by decide) (by decide) (by decide)

/-- **The alerts are the matches at entry time**: after every run of steps
there is one for each price entry and each watch that asked for it then. -/
theorem alertsExact_of_run (host : Host) (steps : List EconomyStep) {c : Conn}
    (hc : EconomySound c.db) (hfresh : RunFresh host steps c) :
    AlertsExact c (afterSteps host steps c) (priceEntries host steps c) := by
  induction steps generalizing c with
  | nil =>
      apply AlertsExact.of_same rfl
      exact List.forall₂_same.mpr fun a _ => SameButRead.refl a
  | cons step steps ih =>
      exact (alertsExact_step hc hfresh.1).trans (ih (hc.step step) hfresh.2)

/-- Ids of different lengths. -/
def alertIds (i : ℕ) : Draw := nthDraw i 0

theorem alertIds_injective {i j : ℕ} (h : (alertIds i).id = (alertIds j).id) : i = j := by
  have hlength := congrArg (fun s : String => s.toList.length) h
  simpa [alertIds] using hlength

/-- A watch on ore for at most 100, and a price of 90. -/
def watchAndPrice : List EconomyStep :=
  [.createEconomyWatch ⟨" Siel ", "ore", .le, .fin 100⟩ alertIds,
    .addEconomyPrice ⟨"Siel", " ore", .fin (181 / 2), none⟩ alertIds]

theorem alertsExact_of_run_one : (due (priceEntries (Host.iso (.fixed 0)) watchAndPrice
      (opened none 0))).length = 1 ∧
    AlertsExact (opened none 0) (afterSteps (Host.iso (.fixed 0)) watchAndPrice (opened none 0))
      (priceEntries (Host.iso (.fixed 0)) watchAndPrice (opened none 0)) := by
  have hsound : EconomySound (opened none 0).db := by
    refine ⟨List.Pairwise.nil, fun t r hr => ?_⟩
    cases t with
    | economyPriceWatch => exact absurd hr List.not_mem_nil
    | economyItem => exact absurd hr List.not_mem_nil
    | _ => trivial
  have hfresh : RunFresh (Host.iso (.fixed 0)) watchAndPrice (opened none 0) := by
    refine ⟨trivial, ⟨fun i j hij => ?_, fun i e he => absurd he List.not_mem_nil⟩, trivial⟩
    exact Nat.add_right_cancel (alertIds_injective hij)
  exact ⟨by decide +kernel, alertsExact_of_run _ _ hsound hfresh⟩

end Hub
