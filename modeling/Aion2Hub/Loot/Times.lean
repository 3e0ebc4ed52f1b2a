/-
Aion2Hub/Loot/Times.lean

The order of the times that prices and runs are stored with.

`economy:addPrice` and `loot:createRun` keep the time they are given as it is
written, and SQL compares the texts.  For texts that `toISOString` writes in a
year of four digits this is the order of the instants, and
`timesOrdered_of_run` says what follows for every sequence of calls that are
given such texts, or none.  Another way to write a time breaks it
(`not_timesOrdered_offset`), although charge uses, completions and durations
are all rewritten by `toISOString` before they are stored.
-/
import Mathlib.Data.List.Find
import Aion2Hub.Loot.Create

namespace Hub

open Sql Exec Date

/-! ### Canonical times -/

/-- A text of `toISOString` with a year of four digits. -/
def Canonical (s : String) : Prop := ∃ t, FourDigitYear t ∧ s = isoString t

theorem canonical_stamp {now : ℤ} (h : FourDigitYear now) : Canonical (stamp now) := ⟨now, h, rfl⟩

/-- Canonical texts denote instants, and compare like them. -/
theorem Canonical.compare (host : Host) {s s' : String} (h : Canonical s) (h' : Canonical s') :
    ∃ t t', host.parseDate s = some t ∧ host.parseDate s' = some t' ∧ (s ≤ s' ↔ t ≤ t') := by
  obtain ⟨t, ht, rfl⟩ := h
  obtain ⟨t', ht', rfl⟩ := h'
  refine ⟨t, t', host.parse_iso t ht.valid, host.parse_iso t' ht'.valid, ?_⟩
  rw [← not_lt, isoString_lt_iff ht' ht, not_lt]

/-- A given time is empty, and then the clock is read, or canonical. -/
def GivenCanonical (given : Option String) : Prop := ∀ s, given = some s → s = "" ∨ Canonical s

theorem canonical_getD {given : Option String} {now : ℤ} (hgiven : GivenCanonical given)
    (hnow : FourDigitYear now) : Canonical ((nonEmpty given).getD (stamp now)) := by
  cases hs : nonEmpty given with
  | none => exact canonical_stamp hnow
  | some s =>
      obtain ⟨hsome, hne⟩ := Option.filter_eq_some_iff.mp hs
      exact (hgiven s hsome).resolve_left (by simpa using hne)

/-- The times of the stored prices and runs are canonical, and the prices are
those of items whose ids hold no U+0000. -/
structure TimesCanonical (db : Db Row) : Prop where
  prices : ∀ p ∈ db .economyPrice, Canonical p.recordedAt
  items : ∀ p ∈ db .economyPrice, Text.Plain p.itemId
  runs : ∀ r ∈ db .lootRun, ∀ e, r.endedAt = some e → Canonical e

/-! ### The calls -/

/-- `economy:addPrice`. -/
def economyAddPrice (input : Option Js) (draws : ℕ → Draw) :
    Prog (String × EconomyItem × List EconomyAlertEvent) := do
  let obj := Js.asRecord input
  let server := ((text obj "server").map Text.trim).getD ""
  let itemName := ((text obj "itemName").map Text.trim).getD ""
  let price := (Js.asNumber (obj.get "price")).getD 0
  let recordedAt := text obj "recordedAt"
  let server ← Exec.ofOption "bad_request" (nonEmpty (some server))
  let itemName ← Exec.ofOption "bad_request" (nonEmpty (some itemName))
  addEconomyPrice ⟨server, itemName, price, recordedAt⟩ draws

/-- A call that stores a time. -/
inductive TimedCall where
  | addPrice (input : Option Js) (draws : ℕ → Draw)
  | createRun (input : Option Js) (draw : Draw) (dropDraws costDraws : ℕ → ℕ → Draw)

def TimedCall.run (host : Host) : TimedCall → Prog Unit
  | .addPrice input draws => (economyAddPrice input draws).discard
  | .createRun input draw dropDraws costDraws =>
      (lootCreateRun host input draw dropDraws costDraws).discard

/-- The connection after some calls. -/
def afterCalls (host : Host) (calls : List TimedCall) (c : Conn) : Conn :=
  calls.foldl (fun c call => (call.run host c).2) c

/-- The time that a call is given. -/
def TimedCall.given : TimedCall → Option String
  | .addPrice input _ => text (Js.asRecord input) "recordedAt"
  | .createRun input _ _ _ => (lootCreateRunInputSchema input).bind (·.endedAt)

/-- The clock reading that a call stores when it is given no time. -/
def TimedCall.clock : TimedCall → ℤ
  | .addPrice _ draws => (draws 1).now
  | .createRun _ draw _ _ => draw.now

/-- The call stores a canonical time. -/
def TimedCall.IsCanonical (call : TimedCall) : Prop :=
  GivenCanonical call.given ∧ FourDigitYear call.clock

/-! ### What a call keeps -/

theorem TimesCanonical.congr {db db' : Db Row} (h : TimesCanonical db)
    (hsame : ∀ t, t = Table.economyPrice ∨ t = .lootRun → db' t = db t) : TimesCanonical db' := by
  refine ⟨fun p hp => h.prices p ?_, fun p hp => h.items p ?_, fun r hr => h.runs r ?_⟩
  · rwa [← hsame _ (.inl rfl)]
  · rwa [← hsame _ (.inl rfl)]
  · rwa [← hsame _ (.inr rfl)]

/-- A program that writes neither prices nor runs. -/
theorem keeps_of_leaves {α : Type} {m : Prog α}
    (h : Leaves (fun t => t = Table.economyPrice ∨ t = .lootRun) m) :
    Keeps (fun c : Conn => TimesCanonical c.db) m :=
  h.keeps fun _ _ hsame hdb => hdb.congr hsame

theorem keeps_insertPrice {p : EconomyPrice} (hp : Canonical p.recordedAt)
    (hitem : Text.Plain p.itemId) :
    Keeps (fun c : Conn => TimesCanonical c.db) (schema.insert .abort .economyPrice p) := by
  apply keeps_append
  intro db hdb
  let after : List (Row Table.economyPrice) := db .economyPrice ++ [p]
  have hset : (db.set .economyPrice after) .economyPrice = after := Db.set_self _ _ _
  have hruns : (db.set .economyPrice after) .lootRun = db .lootRun :=
    Db.set_of_ne db (by decide) after
  have hprice : ∀ q ∈ (db.set .economyPrice after) .economyPrice,
      Canonical (EconomyPrice.recordedAt q) ∧ Text.Plain (EconomyPrice.itemId q) := by
    intro q hq
    rw [hset] at hq
    rcases List.mem_append.mp hq with hold | hnew
    · exact ⟨hdb.prices q hold, hdb.items q hold⟩
    · obtain rfl := List.mem_singleton.mp hnew
      exact ⟨hp, hitem⟩
  refine ⟨fun q hq => (hprice q hq).1, fun q hq => (hprice q hq).2, fun r hr => ?_⟩
  change r ∈ (db.set .economyPrice after) .lootRun at hr
  rw [hruns] at hr
  exact hdb.runs r hr

theorem keeps_insertRun {run : LootRun} (hrun : ∀ e, run.endedAt = some e → Canonical e) :
    Keeps (fun c : Conn => TimesCanonical c.db) (schema.insert .abort .lootRun run) := by
  apply keeps_append
  intro db hdb
  let after : List (Row Table.lootRun) := db .lootRun ++ [run]
  have hset : (db.set .lootRun after) .lootRun = after := Db.set_self _ _ _
  have hprices : (db.set .lootRun after) .economyPrice = db .economyPrice :=
    Db.set_of_ne db (by decide) after
  refine ⟨fun p hp => ?_, fun p hp => ?_, fun r hr => ?_⟩
  · change p ∈ (db.set .lootRun after) .economyPrice at hp
    rw [hprices] at hp
    exact hdb.prices p hp
  · change p ∈ (db.set .lootRun after) .economyPrice at hp
    rw [hprices] at hp
    exact hdb.items p hp
  · change r ∈ (db.set .lootRun after) .lootRun at hr
    rw [hset] at hr
    rcases List.mem_append.mp hr with hold | hnew
    · exact hdb.runs r hold
    · obtain rfl := List.mem_singleton.mp hnew
      exact hrun

theorem keeps_addEconomyPrice {input : PriceInput} {draws : ℕ → Draw}
    (hgiven : GivenCanonical input.recordedAt) (hnow : FourDigitYear (draws 1).now) :
    Keeps (fun c : Conn => TimesCanonical c.db) (addEconomyPrice input draws) := by
  refine Keeps.ofOption.bind fun server => ?_
  refine (keeps_of_leaves (leaves_upsertEconomyItemByName (by decide))).bind_returned ?_
  rintro item ⟨s, s', hitem⟩
  refine (keeps_insertPrice (canonical_getD hgiven hnow) (plain_of_upsert hitem)).bind fun _ => ?_
  refine (Keeps.gets.bind fun rows => ?_).bind fun _ => Keeps.pure
  exact keeps_of_leaves (leaves_insertAlerts (by decide))

theorem keeps_createLootRun (host : Host) {input : LootRunInput} {draw : Draw}
    {dropDraws costDraws : ℕ → ℕ → Draw} (hgiven : GivenCanonical input.endedAt)
    (hnow : FourDigitYear draw.now) :
    Keeps (fun c : Conn => TimesCanonical c.db)
      (createLootRun host input draw dropDraws costDraws) := by
  refine Keeps.ofOption.bind fun characterId => Keeps.ofOption.bind fun content =>
    Keeps.gets.bind fun found => Keeps.ofOption.bind fun character => ?_
  refine Keeps.bind (keeps_atomically quiet_recordRun ?_) fun _ => Keeps.pure
  refine (keeps_insertRun fun e he => ?_).bind fun _ => ?_
  · obtain rfl := Option.some.inj he
    exact canonical_getD hgiven hnow
  · refine (Keeps.forEach fun d _ => ?_).bind fun _ => Keeps.forEach fun cost _ => ?_
    · exact keeps_of_leaves (leaves_insertDrop (by decide) (by decide))
    · exact keeps_of_leaves (leaves_insertCost (by decide) (by decide))

/-- **A call that stores a canonical time keeps all stored times canonical**,
also when it throws. -/
theorem keeps_timedCall (host : Host) {call : TimedCall} (h : call.IsCanonical) :
    Keeps (fun c : Conn => TimesCanonical c.db) (call.run host) := by
  obtain ⟨hgiven, hnow⟩ := h
  cases call with
  | addPrice input draws =>
      refine Keeps.discard (Keeps.ofOption.bind fun server => Keeps.ofOption.bind fun name => ?_)
      exact keeps_addEconomyPrice hgiven hnow
  | createRun input draw dropDraws costDraws =>
      apply Keeps.discard
      show Keeps _ (lootCreateRun host input draw dropDraws costDraws)
      unfold lootCreateRun
      cases hobj : lootCreateRunInputSchema input with
      | none => exact Keeps.throw
      | some obj =>
          have hended : GivenCanonical obj.endedAt := by
            have hbind : (lootCreateRunInputSchema input).bind (·.endedAt) = obj.endedAt := by
              rw [hobj]
              rfl
            intro s hs
            exact hgiven s (hbind.trans hs)
          have hid : Keeps (fun c : Conn => TimesCanonical c.db) (runCharacterId obj.characterId) := by
            unfold runCharacterId
            split
            · exact Keeps.pure
            · exact Keeps.gets.bind fun _ => Keeps.pure
          rw [ofOption_some_bind]
          refine hid.bind fun active => Keeps.ofOption.bind fun characterId =>
            Keeps.ofOption.bind fun content => ?_
          exact keeps_createLootRun host hended hnow

theorem timesCanonical_of_run (host : Host) {calls : List TimedCall}
    (hcalls : ∀ call ∈ calls, call.IsCanonical) {c : Conn} (hc : TimesCanonical c.db) :
    TimesCanonical (afterCalls host calls c).db := by
  induction calls generalizing c with
  | nil => exact hc
  | cons call calls ih =>
      refine ih (fun next hnext => hcalls next (List.mem_cons_of_mem call hnext)) ?_
      exact (keeps_timedCall host (hcalls call List.mem_cons_self)).apply hc

/-! ### The latest price -/

/-- The prices of an item on a server. -/
def pricesOf (db : Db Row) (server itemId : String) : List EconomyPrice :=
  (db .economyPrice).filter fun r => r.server == server && r.itemId == itemId

/-- One time denotes an instant that is not before that of another. -/
def NotBefore (host : Host) (s s' : String) : Prop :=
  ∃ t t', host.parseDate s = some t ∧ host.parseDate s' = some t' ∧ t' ≤ t

/-- What is looked up for an item: a price with the latest instant, or nothing
if it has no price. -/
def LatestUsed (host : Host) (db : Db Row) (server itemId : String) : Lookup Number → Prop
  | .own price => ∃ p ∈ pricesOf db server itemId, p.price = price ∧
      ∀ q ∈ pricesOf db server itemId, NotBefore host p.recordedAt q.recordedAt
  | .undefined => pricesOf db server itemId = []
  | .inherited => False

/-- The prices that are looked up are those with the latest instant. -/
def PricesOrdered (host : Host) (c : Conn) : Prop :=
  ∀ server itemIds prices, getLatestPricesByItemId server itemIds c = (.ok prices, c) →
    ∀ itemId ∈ itemIds, itemId ≠ "" → itemId ∉ objectPrototype →
      LatestUsed host c.db (Text.trim server) itemId (prices.get itemId)

/-- The first price of an item counts. -/
theorem lookup_foldl_putNew (rows : List EconomyPrice) (out : Record Number) {key : String}
    (h : key ∉ objectPrototype) :
    (rows.foldl (fun out r => out.putNew r.itemId r.price) out).lookup key =
      (out.lookup key).or ((rows.find? fun r => r.itemId == key).map (·.price)) := by
  induction rows generalizing out with
  | nil => simp
  | cons r rows ih =>
      rw [List.foldl_cons, ih, Record.lookup_putNew out h, Option.or_assoc]
      congr 1
      by_cases hkey : r.itemId = key
      · rw [if_pos hkey, List.find?_cons_of_pos (by simpa using hkey)]
        rfl
      · rw [if_neg hkey, List.find?_cons_of_neg (by simpa using hkey)]
        rfl

/-- The latest of the prices of an item on a server, as the store orders its
times; there may be several. -/
def IsLatest (db : Db Row) (server itemId : String) (p : EconomyPrice) : Prop :=
  p ∈ pricesOf db server itemId ∧ ∀ q ∈ pricesOf db server itemId,
    q.recordedAt < p.recordedAt ∨ q.recordedAt = p.recordedAt ∧ q.createdAt ≤ p.createdAt

/-- What is looked up for an item is its latest price, or nothing if it has
none. -/
def LatestFound (db : Db Row) (server itemId : String) : Lookup Number → Prop
  | .own price => ∃ p, IsLatest db server itemId p ∧ p.price = price
  | .undefined => pricesOf db server itemId = []
  | .inherited => False

/-- The prices of an item are among those that are asked for. -/
theorem mem_asked_iff (db : Db Row) (server : String) {itemId : String} {itemIds : List String}
    (hitem : itemId ∈ itemIds) (hne : itemId ≠ "") (r : EconomyPrice) :
    (r ∈ (db .economyPrice).filter (fun r : EconomyPrice =>
        r.server == server && decide (r.itemId ∈ unique (itemIds.filter (· ≠ "")))) ∧
      r.itemId = itemId) ↔ r ∈ pricesOf db server itemId := by
  have hasked : itemId ∈ unique (itemIds.filter (· ≠ "")) :=
    (mem_unique _ _).mpr (List.mem_filter.mpr ⟨hitem, by simpa using hne⟩)
  rw [pricesOf, List.mem_filter, List.mem_filter]
  constructor
  · rintro ⟨⟨hr, hwhere⟩, rfl⟩
    refine ⟨hr, ?_⟩
    rw [(Bool.and_eq_true_iff.mp hwhere).1]
    simp
  · rintro ⟨hr, hwhere⟩
    obtain ⟨hname, hid⟩ := Bool.and_eq_true_iff.mp hwhere
    have hid' : r.itemId = itemId := beq_iff_eq.mp hid
    refine ⟨⟨hr, ?_⟩, hid'⟩
    rw [hname, hid']
    simpa using hasked

/-- The price that is looked up for an item is its latest. -/
theorem latestPrices_get {db : Db Row} {name : String} {itemIds : List String}
    (hplain : ∀ p ∈ db .economyPrice, EconomyPrice.itemId p ∈ itemIds →
      Text.Plain (EconomyPrice.itemId p))
    {prices : Record Number} (h : latestPrices db (some name) itemIds = .ok prices) {itemId : String}
    (hitem : itemId ∈ itemIds) (hne : itemId ≠ "") (hproto : itemId ∉ objectPrototype) :
    LatestFound db (Text.trim name) itemId (prices.get itemId) := by
  unfold latestPrices at h
  cases hserver : trimmed (some name) with
  | none =>
      simp only [hserver] at h
      cases h
  | some server =>
      simp only [hserver] at h
      obtain rfl := trimmed_some_eq hserver
      let ids := unique (itemIds.filter (· ≠ ""))
      let rows : List EconomyPrice := (db .economyPrice).filter fun r =>
        r.server == Text.trim name && decide (r.itemId ∈ ids)
      let before : EconomyPrice → EconomyPrice → Bool :=
        desc (·.recordedAt) (desc (·.createdAt) anyOrder)
      have horder : IsOrder before := isOrder_anyOrder.desc.desc
      have hasked : itemId ∈ ids :=
        (mem_unique _ _).mpr (List.mem_filter.mpr ⟨hitem, by simpa using hne⟩)
      have hids : ids ≠ [] := List.ne_nil_of_mem hasked
      have heq : prices = (priceRows db (Text.trim name) ids).foldl
          (fun (out : Record Number) r => out.putNew r.itemId r.price) [] := by
        rw [if_neg hids] at h
        split at h
        · exact (Except.ok.inj h).symm
        · cases h
      -- the id of an item is read as it is stored
      have hread : ((orderBy before rows).map (schema.read .economyPrice)).find?
          (fun r : EconomyPrice => r.itemId == itemId) =
            ((orderBy before rows).find? fun r => r.itemId == itemId).map
              (schema.read .economyPrice) := by
        rw [List.find?_map]
        congr 1
        apply List.find?_congr
        intro r hr
        obtain ⟨hmem, hwhere⟩ := List.mem_filter.mp ((orderBy_perm _ _).mem_iff.mp hr)
        have hid : EconomyPrice.itemId r ∈ ids := of_decide_eq_true (Bool.and_eq_true_iff.mp hwhere).2
        have hitemId := (List.mem_filter.mp ((mem_unique _ _).mp hid)).1
        show (Text.cut r.itemId == itemId) = (r.itemId == itemId)
        rw [(hplain r hmem hitemId).cut]
      have hget : prices.get itemId = (((orderBy before rows).find? fun r =>
          r.itemId == itemId).map (·.price)).elim .undefined .own := by
        rw [Record.get_eq_of_notMem _ hproto, heq, lookup_foldl_putNew _ _ hproto, priceRows]
        show (Option.map _ (((orderBy before rows).map (schema.read .economyPrice)).find?
          (fun r : EconomyPrice => r.itemId == itemId))).elim _ _ = _
        rw [hread, Option.map_map]
        rfl
      have hrows := mem_asked_iff db (Text.trim name) hitem hne
      rw [hget]
      cases hfind : (orderBy before rows).find? fun r => r.itemId == itemId with
      | none =>
          show pricesOf db (Text.trim name) itemId = []
          rw [List.eq_nil_iff_forall_not_mem]
          intro r hr
          obtain ⟨hmem, hid⟩ := (hrows r).mpr hr
          have hnot := List.find?_eq_none.mp hfind r ((orderBy_perm _ _).mem_iff.mpr hmem)
          exact hnot (beq_iff_eq.mpr hid)
      | some p =>
          obtain ⟨hmem, hid, hbefore⟩ := horder.find?_eq_some hfind
          refine ⟨p, ⟨(hrows p).mp ⟨hmem, beq_iff_eq.mp hid⟩, fun q hq => ?_⟩, rfl⟩
          obtain ⟨hq', hqid⟩ := (hrows q).mpr hq
          rcases desc_iff.mp (hbefore q hq' (beq_iff_eq.mpr hqid)) with hlt | ⟨heq, hcreated⟩
          · exact .inl hlt
          · rcases desc_iff.mp hcreated with hlt | ⟨heq', -⟩
            · exact .inr ⟨heq.symm, hlt.le⟩
            · exact .inr ⟨heq.symm, heq'.symm.le⟩

/-- With canonical times the price that is looked up is the latest. -/
theorem pricesOrdered (host : Host) {c : Conn} (hc : TimesCanonical c.db) : PricesOrdered host c := by
  intro server itemIds prices hprices itemId hitem hne hproto
  have hlatest : latestPrices c.db (some server) itemIds = .ok prices := by
    have heq : pricesFor (some server) itemIds c = (latestPrices c.db (some server) itemIds, c) :=
      pricesFor_eq (some server) itemIds
    exact congrArg Prod.fst (heq.symm.trans hprices)
  have hfound := latestPrices_get (fun p hp _ => hc.items p hp) hlatest hitem hne hproto
  cases hget : prices.get itemId with
  | undefined =>
      rw [hget] at hfound
      exact hfound
  | inherited =>
      rw [hget] at hfound
      exact hfound
  | own price =>
      rw [hget] at hfound
      obtain ⟨p, ⟨hp, hbefore⟩, hprice⟩ := hfound
      refine ⟨p, hp, hprice, fun q hq => ?_⟩
      have hle : q.recordedAt ≤ p.recordedAt := by
        rcases hbefore q hq with hlt | ⟨heq, -⟩
        · exact hlt.le
        · exact heq.le
      obtain ⟨t, t', ht, ht', hiff⟩ := Canonical.compare host
        (hc.prices q (List.mem_filter.mp hq).1) (hc.prices p (List.mem_filter.mp hp).1)
      exact ⟨t', t, ht', ht, hiff.mp hle⟩

/-! ### The runs of a week -/

/-- The time of a run denotes an instant between those of two others. -/
def EndedWithin (host : Host) (run : LootRun) (startIso endIso : String) : Prop :=
  ∃ e, run.endedAt = some e ∧ NotBefore host e startIso ∧ NotBefore host endIso e

open scoped Classical in
/-- The runs of the character that ended between two times. -/
noncomputable def endedRuns (host : Host) (db : Db Row) (characterId startIso endIso : String) :
    List LootRun :=
  (db .lootRun).filter fun run =>
    run.characterId = characterId ∧ EndedWithin host run startIso endIso

/-- The report counts the runs of the character that ended in its week. -/
structure RunsOrdered {α : Type} (host : Host) (db : Db Row) (characterId : String)
    (report : LootWeeklyReport α) : Prop where
  counted : (weekRuns characterId report.weekStartIso report.weekEndIso db).Perm
    ((endedRuns host db characterId report.weekStartIso report.weekEndIso).map
      (schema.read .lootRun))
  number : report.totals.runs =
    (endedRuns host db characterId report.weekStartIso report.weekEndIso).length

theorem endedWithin_some {host : Host} {run : LootRun} {startIso endIso e : String}
    (he : run.endedAt = some e) :
    EndedWithin host run startIso endIso ↔ NotBefore host e startIso ∧ NotBefore host endIso e := by
  simp [EndedWithin, he]

/-- Canonical texts are in the order of the instants that they denote. -/
theorem Canonical.le_iff (host : Host) {s s' : String} (hs : Canonical s) (hs' : Canonical s') :
    s ≤ s' ↔ NotBefore host s' s := by
  obtain ⟨t, t', ht, ht', hle⟩ := hs.compare host hs'
  rw [hle]
  constructor
  · exact fun h => ⟨t', t, ht', ht, h⟩
  · rintro ⟨u', u, hu', hu, h⟩
    obtain rfl := Option.some.inj (ht.symm.trans hu)
    obtain rfl := Option.some.inj (ht'.symm.trans hu')
    exact h

/-- The request is about a week in the years 0 to 9999. -/
def AsksFourDigitYear (host : Host) (c : Conn) (input : LootReportInput) (now : ℤ) : Prop :=
  FourDigitYear (reportTime host input now) ∧
    ∀ start, resolveWeeklyStartLocal host.zone (reportTime host input now)
      (reportResets c.db (trimmed input.server)).1 (reportResets c.db (trimmed input.server)).2 =
        some start → FourDigitYear start

/-- With canonical times the runs of a week are those that ended in it. -/
theorem runsOrdered {α : Type} [Arithmetic α] {host : Host} {c : Conn} (hc : TimesCanonical c.db)
    {input : LootReportInput} {now : ℤ} (hasks : AsksFourDigitYear host c input now)
    {report : LootWeeklyReport α} (h : (getLootWeeklyReport α host input now c).1 = .ok report) :
    RunsOrdered host c.db input.characterId report := by
  classical
  obtain ⟨start, hstart, hweek⟩ := getLootWeeklyReport_ok h
  obtain ⟨hiso, hend, hnumber⟩ := accountWeek_counts hweek
  have hfirst : Canonical report.weekStartIso := ⟨start, hasks.2 start hstart, hiso⟩
  have hlast : Canonical report.weekEndIso := ⟨_, hasks.1, hend⟩
  have hcounted : (weekRuns input.characterId report.weekStartIso report.weekEndIso c.db).Perm
      ((endedRuns host c.db input.characterId report.weekStartIso report.weekEndIso).map
        (schema.read .lootRun)) := by
    apply List.Perm.map
    refine (orderBy_perm _ _).trans (List.Perm.of_eq (List.filter_congr fun run hrun => ?_))
    rw [Bool.eq_iff_iff, decide_eq_true_iff, Bool.and_eq_true_iff, beq_iff_eq]
    refine and_congr_right fun _ => ?_
    cases he : run.endedAt with
    | none => simp [EndedWithin, he]
    | some e =>
        have hcanonical := hc.runs run hrun e he
        rw [endedWithin_some he, Option.any_some, Bool.and_eq_true_iff, decide_eq_true_iff,
          decide_eq_true_iff]
        exact and_congr (hfirst.le_iff host hcanonical) (hcanonical.le_iff host hlast)
  refine ⟨hcounted, ?_⟩
  rw [← List.length_map (schema.read .lootRun), ← hcounted.length_eq, hiso, hend]
  exact hnumber

/-! ### Every sequence of calls -/

/-- **Stored times order as instants** when every call is given a canonical
time, or none: the price that is looked up for an item has the latest instant,
and a report counts the runs that ended between the beginning of its week and
its end. -/
theorem timesOrdered_of_run (α : Type) [Arithmetic α] (host : Host) {c : Conn}
    {calls : List TimedCall} (hc : TimesCanonical c.db)
    (hcalls : ∀ call ∈ calls, call.IsCanonical) :
    PricesOrdered host (afterCalls host calls c) ∧
      ∀ (input : LootReportInput) (now : ℤ) (report : LootWeeklyReport α),
        AsksFourDigitYear host (afterCalls host calls c) input now →
          (getLootWeeklyReport α host input now (afterCalls host calls c)).1 = .ok report →
            RunsOrdered host (afterCalls host calls c).db input.characterId report := by
  have hstored := timesCanonical_of_run host hcalls hc
  refine ⟨pricesOrdered host hstored, ?_⟩
  intro input now report hasks hreport
  exact runsOrdered hstored hasks hreport

/-- The `k`-th price of "ore" on the server "Siel". -/
def priceCall (k : ℕ) (recordedAt : String) (price : Number) : TimedCall :=
  .addPrice (some (.obj [("server", .str "Siel"), ("itemName", .str "ore"), ("price", .num price),
    ("recordedAt", .str recordedAt)])) fun i => nthDraw (2 * k + i) 0

/-- A run of the character "c1" without drops and costs. -/
def runCall (endedAt : String) : TimedCall :=
  .createRun (some (.obj [("characterId", .str "c1"), ("content", .str "Draupnir"),
    ("endedAt", .str endedAt)])) runDraw runDropDraws runCostDraws

/-- Two prices, and a run between them. -/
def pricedWeek : List TimedCall :=
  [priceCall 0 "1970-01-08T00:00:00.000Z" 2, priceCall 1 "1970-01-06T00:00:00.000Z" 1,
    runCall "1970-01-07T00:00:00.000Z"]

/-- What the prices of that week are stored as. -/
def weekPrices : List EconomyPrice :=
  [⟨"uu", "Siel", "u", amount 2, "1970-01-08T00:00:00.000Z", stamp 0, stamp 0⟩,
    ⟨"uuuu", "Siel", "u", amount 1, "1970-01-06T00:00:00.000Z", stamp 0, stamp 0⟩]

/-- What its run is stored as. -/
def weekRun : LootRun where
  id := "run"
  characterId := "c1"
  server := some "Siel"
  content := "Draupnir"
  role := none
  powerBracket := none
  startedAt := none
  endedAt := some "1970-01-07T00:00:00.000Z"
  seconds := 0
  createdAt := stamp 0
  updatedAt := stamp 0

/-- What is stored after that week. -/
structure StoresWeek (db : Db Row) : Prop where
  prices : db .economyPrice = weekPrices
  runs : db .lootRun = [weekRun]
  drops : db .lootRunDrop = []
  costs : db .lootRunCost = []
  resets : reportResets db none = ("09:00", 1)

theorem storesWeek_pricedWeek :
    StoresWeek (afterCalls (Host.iso (.fixed 0)) pricedWeek onServer).db :=
  ⟨rfl, rfl, rfl, rfl, rfl⟩

theorem isCanonical_pricedWeek : ∀ call ∈ pricedWeek, call.IsCanonical := by
  have hsixth : Canonical "1970-01-06T00:00:00.000Z" := ⟨432000000, by decide, by decide⟩
  have hseventh : Canonical "1970-01-07T00:00:00.000Z" := ⟨518400000, by decide, by decide⟩
  have heighth : Canonical "1970-01-08T00:00:00.000Z" := ⟨604800000, by decide, by decide⟩
  intro call hcall
  simp only [pricedWeek, List.mem_cons, List.not_mem_nil, or_false] at hcall
  rcases hcall with rfl | rfl | rfl
  · refine ⟨fun s hs => .inr ?_, by decide⟩
    obtain rfl := Option.some.inj hs
    exact heighth
  · refine ⟨fun s hs => .inr ?_, by decide⟩
    obtain rfl := Option.some.inj hs
    exact hsixth
  · refine ⟨fun s hs => .inr ?_, by decide⟩
    obtain rfl := Option.some.inj hs
    exact hseventh

/-- The price of the item "u" on the server "Siel" is the first in the order of
the prices. -/
theorem getLatestPrices_siel {c : Conn} {prices : List EconomyPrice}
    (h : c.db .economyPrice = prices) :
    getLatestPricesByItemId "Siel" ["u"] c = (.ok (((orderBy (desc (·.recordedAt)
      (desc (·.createdAt) anyOrder)) (prices.filter fun r : EconomyPrice =>
        r.server == "Siel" && decide (r.itemId ∈ ["u"]))).map (schema.read .economyPrice)).foldl
          (fun (out : Record Number) (r : EconomyPrice) => out.putNew r.itemId r.price) []), c) := by
  have hlatest : pricesFor (some "Siel") ["u"] c = _ := pricesFor_eq (some "Siel") ["u"]
  refine Eq.trans hlatest ?_
  show (Except.ok ((((orderBy (desc (·.recordedAt) (desc (·.createdAt) anyOrder))
    ((c.db .economyPrice).filter fun r : EconomyPrice =>
      r.server == "Siel" && decide (r.itemId ∈ ["u"]))).map (schema.read .economyPrice)).foldl
        (fun (out : Record Number) (r : EconomyPrice) => out.putNew r.itemId r.price) [])), c) = _
  rw [h]

/-- The report of that week counts its run. -/
theorem report_of_storesWeek {d : Conn} (h : StoresWeek d.db) :
    ∃ report : LootWeeklyReport Number,
      (getLootWeeklyReport Number (Host.iso (.fixed 0)) ⟨"c1", none, none⟩ 864000000 d).1 =
        .ok report ∧ report.totals.runs = 1 := by
  let input : LootReportInput := ⟨"c1", none, none⟩
  have htime : reportTime (Host.iso (.fixed 0)) input 864000000 = 864000000 := rfl
  have hstart : resolveWeeklyStartLocal (Host.iso (.fixed 0)).zone
      (reportTime (Host.iso (.fixed 0)) input 864000000)
      (reportResets d.db (trimmed input.server)).1
      (reportResets d.db (trimmed input.server)).2 = some 378000000 := by
    show resolveWeeklyStartLocal _ _ (reportResets d.db none).1 (reportResets d.db none).2 = _
    rw [h.resets, htime]
    exact weeklyPeriodStart_eq (by decide) 1
  have hruns : weekRuns input.characterId (isoString 378000000)
      (stamp (reportTime (Host.iso (.fixed 0)) input 864000000)) d.db = [weekRun] := by
    rw [htime, weekRuns, h.runs]
    rfl
  have hdrops : dropRows [weekRun] d.db = [] := by
    rw [dropRows, h.drops]
    rfl
  have hcosts : costRows [weekRun] d.db = [] := by
    rw [costRows, h.costs]
    rfl
  have hprices : latestPrices d.db (priceServer (trimmed input.server) [weekRun])
      (pricedItems (dropRows [weekRun] d.db) (costRows [weekRun] d.db)) = .ok [] := by
    rw [hdrops, hcosts]
    rfl
  have hreport : (getLootWeeklyReport Number (Host.iso (.fixed 0)) input 864000000 d).1 = _ :=
    report_of_runs (by decide : input.characterId ≠ "") hstart hruns (List.cons_ne_nil _ _)
      (by decide) hprices
  exact ⟨_, hreport, rfl⟩

theorem timesOrdered_of_run_epoch :
    let host := Host.iso (.fixed 0)
    let d := afterCalls host pricedWeek onServer
    PricesOrdered host d ∧ getLatestPricesByItemId "Siel" ["u"] d = (.ok [("u", amount 2)], d) ∧
      ∃ report : LootWeeklyReport Number,
        (getLootWeeklyReport Number host ⟨"c1", none, none⟩ 864000000 d).1 = .ok report ∧
          report.totals.runs = 1 ∧ RunsOrdered host d.db "c1" report := by
  intro host d
  have hstored : TimesCanonical onServer.db :=
    ⟨fun _ hp => (List.not_mem_nil hp).elim, fun _ hp => (List.not_mem_nil hp).elim,
      fun _ hr => (List.not_mem_nil hr).elim⟩
  obtain ⟨hprices, hreports⟩ := timesOrdered_of_run Number host hstored isCanonical_pricedWeek
  have hweek : StoresWeek d.db := storesWeek_pricedWeek
  have hlatest := getLatestPrices_siel hweek.prices
  have hasks : AsksFourDigitYear host d ⟨"c1", none, none⟩ 864000000 := by
    refine ⟨by decide, fun start h => ?_⟩
    change resolveWeeklyStartLocal (.fixed 0) 864000000 (reportResets d.db none).1
      (reportResets d.db none).2 = some start at h
    rw [hweek.resets] at h
    obtain rfl := Option.some.inj ((weeklyPeriodStart_eq (by decide) 1).symm.trans h)
    decide
  obtain ⟨report, hreport, hnumber⟩ := report_of_storesWeek hweek
  exact ⟨hprices, hlatest, report, hreport, hnumber, hreports _ _ _ hasks hreport⟩

/-- Noon in Seoul. -/
def noonInSeoul : String := "2024-05-01T12:00:00+09:00"

/-- A host that also reads `noonInSeoul`. -/
def seoulHost : Host where
  zone := .fixed 0
  parseDate := fun s =>
    (parseIso s).or (if s = noonInSeoul then some 1714532400000 else none)
  toLowerCase := String.toLower
  parse_iso := fun t h => by rw [parseIso_isoString h, Option.some_or]
  parse_valid := fun s t h => by
    rcases Option.or_eq_some_iff.mp h with hiso | ⟨-, hnoon⟩
    · exact parseIso_valid hiso
    · split_ifs at hnoon
      cases hnoon
      decide

/-- A price of noon in Seoul, and one of an hour after it. -/
def seoulCalls : List TimedCall :=
  [priceCall 0 noonInSeoul 1, priceCall 1 "2024-05-01T04:00:00.000Z" 2]

def seoulPrices : List EconomyPrice :=
  [⟨"uu", "Siel", "u", amount 1, noonInSeoul, stamp 0, stamp 0⟩,
    ⟨"uuuu", "Siel", "u", amount 2, "2024-05-01T04:00:00.000Z", stamp 0, stamp 0⟩]

theorem seoulPrices_stored :
    (afterCalls seoulHost seoulCalls (opened none 0)).db .economyPrice = seoulPrices := rfl

/-- The earlier of the two prices is used. -/
theorem not_timesOrdered_offset : ¬ ∀ (host : Host) (calls : List TimedCall),
    (∀ call ∈ calls, ∀ s, call.given = some s → ∃ t, host.parseDate s = some t) →
      PricesOrdered host (afterCalls host calls (opened none 0)) ∧
        ∀ (input : LootReportInput) (now : ℤ) (report : LootWeeklyReport Number),
          (getLootWeeklyReport Number host input now
            (afterCalls host calls (opened none 0))).1 = .ok report →
              RunsOrdered host (afterCalls host calls (opened none 0)).db input.characterId
                report := by
  intro h
  have hnoon : seoulHost.parseDate noonInSeoul = some 1714532400000 := by decide
  have hlater : seoulHost.parseDate "2024-05-01T04:00:00.000Z" = some 1714536000000 := by decide
  have hcalls : ∀ call ∈ seoulCalls, ∀ s, call.given = some s →
      ∃ t, seoulHost.parseDate s = some t := by
    intro call hcall s hs
    simp only [seoulCalls, List.mem_cons, List.not_mem_nil, or_false] at hcall
    rcases hcall with rfl | rfl
    · obtain rfl := Option.some.inj hs
      exact ⟨_, hnoon⟩
    · obtain rfl := Option.some.inj hs
      exact ⟨_, hlater⟩
  obtain ⟨hprices, -⟩ := h seoulHost seoulCalls hcalls
  generalize hd : afterCalls seoulHost seoulCalls (opened none 0) = d at hprices
  have hstored : d.db .economyPrice = seoulPrices := hd ▸ seoulPrices_stored
  have hused : LatestUsed seoulHost d.db "Siel" "u" (.own (amount 1)) :=
    hprices "Siel" ["u"] _ (getLatestPrices_siel hstored) "u" List.mem_cons_self (by decide)
      (by decide)
  have hboth : pricesOf d.db "Siel" "u" = seoulPrices := by
    show (d.db .economyPrice).filter (fun r : EconomyPrice =>
      r.server == "Siel" && r.itemId == "u") = _
    rw [hstored]
    rfl
  obtain ⟨p, hp, hprice, hlatest⟩ := hused
  rw [hboth] at hp hlatest
  have hearlier : p.recordedAt = noonInSeoul := by
    simp only [seoulPrices, List.mem_cons, List.not_mem_nil, or_false] at hp
    rcases hp with rfl | rfl
    · rfl
    · exact absurd hprice (by decide)
  obtain ⟨t, t', ht, ht', hle⟩ := hlatest _ (List.mem_cons_of_mem _ List.mem_cons_self)
  rw [hearlier, hnoon] at ht
  obtain rfl := Option.some.inj ht
  obtain rfl := Option.some.inj (hlater.symm.trans ht')
  exact absurd hle (by decide)

end Hub
