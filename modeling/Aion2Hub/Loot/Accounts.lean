/-
Aion2Hub/Loot/Accounts.lean

What a weekly loot report accounts for, in exact arithmetic.

Every drop and every cost counts once: the totals are the sums over the drops
and costs of the week's runs, and so are the rows, content by content.  With
amounts that are numbers and texts without a U+0000 the one exception are runs
and items of an import whose ids every object answers to (`accounted_iff`).
-/
import Aion2Hub.Loot.Create
import Aion2Hub.Loot.Passes
import Aion2Hub.Loot.Times

namespace Hub

open Sql Exec

/-! ### What is accounted for -/

/-- The runs of the character that ended in the week, as they are stored. -/
def runsIn (db : Db Row) (characterId startIso endIso : String) : List LootRun :=
  (db .lootRun).filter fun r => r.characterId == characterId && r.endedAt.any fun e =>
    decide (startIso ≤ e) && decide (e ≤ endIso)

/-- The drops of the runs, as they are stored. -/
def dropsIn (db : Db Row) (runs : List LootRun) : List LootRunDrop :=
  (db .lootRunDrop).filter fun d => d.runId ∈ runs.map (·.id)

def costsIn (db : Db Row) (runs : List LootRun) : List LootRunCost :=
  (db .lootRunCost).filter fun c => c.runId ∈ runs.map (·.id)

def runsOf (content : String) (runs : List LootRun) : List LootRun :=
  runs.filter fun r => r.content = content

/-- An item of a drop, or of a cost that is an item. -/
def HasItem (drops : List LootRunDrop) (costs : List LootRunCost) (itemId : String) : Prop :=
  (∃ d ∈ drops, nonEmpty d.itemId = some itemId) ∨
    ∃ c ∈ costs, c.kind = .item ∧ nonEmpty c.itemId = some itemId

/-- The price of an item, with its latest price on the server, and without one
if it has none there. -/
def PriceOf (db : Db Row) (server : Option String) (itemId : String) : Option ℚ → Prop
  | some price => ∃ name p, server = some name ∧ IsLatest db (Text.trim name) itemId p ∧
      p.price.value = price
  | none => ∀ name, server = some name → pricesOf db (Text.trim name) itemId = []

/-- `qty` times the price of an item, if there are an item and a price. -/
def worth (price : String → Option ℚ) (qty : Number) (itemId : Option String) : ℚ :=
  ((nonEmpty itemId).bind price).elim 0 fun x => qty.value * x

def dropWorth (price : String → Option ℚ) (d : LootRunDrop) : ℚ := worth price d.qty d.itemId

def costWorth (price : String → Option ℚ) (c : LootRunCost) : ℚ :=
  match c.kind with
  | .kinah => c.kinah.value
  | .item => worth price c.qty c.itemId

/-- What the drops of some runs are worth. -/
def valueOf (price : String → Option ℚ) (drops : List LootRunDrop) (runs : List LootRun) : ℚ :=
  ((drops.filter fun d => d.runId ∈ runs.map (·.id)).map (dropWorth price)).sum

def costOf (price : String → Option ℚ) (costs : List LootRunCost) (runs : List LootRun) : ℚ :=
  ((costs.filter fun c => c.runId ∈ runs.map (·.id)).map (costWorth price)).sum

/-- An amount by the hour: divided by `seconds / 3600`, or 0 without seconds. -/
def IsHourly (seconds x y : Exact) : Prop :=
  ∃ s q : ℚ, seconds = .rat s ∧ x = .rat q ∧ y = .rat (if s = 0 then 0 else q / (s / 3600))

/-- The row counts these runs, with their drops and costs, and no others. -/
structure RowOf (price : String → Option ℚ) (runs : List LootRun) (drops : List LootRunDrop)
    (costs : List LootRunCost) (row : LootReportRow Exact) : Prop where
  count : row.runs = runs.length
  seconds : row.seconds = .rat (runs.map fun r => r.seconds.value).sum
  value : row.value = .rat (valueOf price drops runs)
  cost : row.cost = .rat (costOf price costs runs)
  net : row.net = row.value - row.cost
  valuePerHour : IsHourly row.seconds row.value row.valuePerHour
  netPerHour : IsHourly row.seconds row.net row.netPerHour

/-- At these prices the report accounts for the drops and costs of the
runs. -/
structure AccountedAt (price : String → Option ℚ) (runs : List LootRun) (drops : List LootRunDrop)
    (costs : List LootRunCost) (report : LootWeeklyReport Exact) : Prop where
  /-- Every run is counted in one row, that of its content. -/
  contents : (report.byContent.map (·.content)).Nodup
  row_of_run : ∀ content, content ∈ report.byContent.map (·.content) ↔
    ∃ r ∈ runs, r.content = content
  row : ∀ row ∈ report.byContent, RowOf price (runsOf row.content runs) drops costs row
  /-- The totals are the sums of the rows. -/
  totalRuns : report.totals.runs = (report.byContent.map (·.runs)).sum
  totalSeconds : report.totals.seconds = (report.byContent.map (·.seconds)).sum
  totalValue : report.totals.value = (report.byContent.map (·.value)).sum
  totalCost : report.totals.cost = (report.byContent.map (·.cost)).sum
  totalNet : report.totals.net = (report.byContent.map (·.net)).sum
  /-- They are what the drops and costs are worth. -/
  value : report.totals.value = .rat (valueOf price drops runs)
  cost : report.totals.cost = .rat (costOf price costs runs)
  missing : ∀ itemId, itemId ∈ report.totals.missingPriceItems ↔
    HasItem drops costs itemId ∧ price itemId = none
  missing_nodup : report.totals.missingPriceItems.Nodup
  /-- The rows are in the order of their net, the largest first. -/
  sorted : report.byContent.Pairwise fun a b => ∃ x y : ℚ, a.net = .rat x ∧ b.net = .rat y ∧ y ≤ x
  valuePerHour : IsHourly report.totals.seconds report.totals.value report.totals.valuePerHour
  netPerHour : IsHourly report.totals.seconds report.totals.net report.totals.netPerHour

/-- The report accounts for these rows at the latest prices of its server. -/
def Accounted (db : Db Row) (runs : List LootRun) (drops : List LootRunDrop) (costs : List LootRunCost)
    (report : LootWeeklyReport Exact) : Prop :=
  ∃ price : String → Option ℚ,
    (∀ itemId, HasItem drops costs itemId → PriceOf db report.server itemId (price itemId)) ∧
      AccountedAt price runs drops costs report

/-- No run has the one name that an object cannot keep a number under, and no
item that needs a price has a name that every object answers to. -/
structure Ordinary (runs : List LootRun) (drops : List LootRunDrop) (costs : List LootRunCost) :
    Prop where
  runIds : ∀ r ∈ runs, r.id ≠ "__proto__"
  itemIds : ∀ itemId, HasItem drops costs itemId → itemId ∉ objectPrototype

/-- The amounts of these rows are numbers; no run takes less than no time, and
kinah are counted in whole numbers. -/
structure Amounts (db : Db Row) (runs : List LootRun) (drops : List LootRunDrop)
    (costs : List LootRunCost) : Prop where
  seconds : ∀ r ∈ runs, r.seconds.isFinite = true ∧ 0 ≤ r.seconds.value
  dropQty : ∀ d ∈ drops, d.qty.isFinite = true
  costQty : ∀ c ∈ costs, c.kind = .item → c.qty.isFinite = true
  kinah : ∀ c ∈ costs, c.kind = .kinah → IsNatural c.kinah
  prices : ∀ p ∈ db .economyPrice, (EconomyPrice.price p).isFinite = true

/-- The texts that runs, drops and costs are told apart by are read as they are
stored. -/
structure PlainRows (runs : List LootRun) (drops : List LootRunDrop) (costs : List LootRunCost) :
    Prop where
  runs : ∀ r ∈ runs, Text.Plain r.id ∧ Text.Plain r.content
  drops : ∀ d ∈ drops, ∀ itemId ∈ d.itemId, Text.Plain itemId
  costs : ∀ c ∈ costs, ∀ itemId ∈ c.itemId, Text.Plain itemId

/-! ### Stored amounts -/

/-- The amounts of a row are natural numbers. -/
def NaturalAmounts : (t : Table) → Row t → Prop
  | .economyPrice, r => IsNatural r.price
  | .lootRun, r => IsNatural r.seconds
  | .lootRunDrop, r => IsNatural r.qty
  | .lootRunCost, r => IsNatural r.qty ∧ IsNatural r.kinah
  | _, _ => True

/-- Lengths, quantities and prices are rounded down and cut off at zero before
they are stored. -/
def AmountsStored (db : Db Row) : Prop := AllRows NaturalAmounts db

/-- A program that writes none of the tables with amounts. -/
theorem keeps_amounts_of_leaves {α : Type} {m : Prog α}
    (h : Leaves (fun t => t = Table.economyPrice ∨ t = .lootRun ∨ t = .lootRunDrop ∨ t = .lootRunCost) m) :
    Keeps (fun c : Conn => AmountsStored c.db) m := by
  apply h.keeps
  intro db db' hsame hdb t r hr
  cases t with
  | economyPrice =>
      rw [hsame _ (.inl rfl)] at hr
      exact hdb _ r hr
  | lootRun =>
      rw [hsame _ (.inr (.inl rfl))] at hr
      exact hdb _ r hr
  | lootRunDrop =>
      rw [hsame _ (.inr (.inr (.inl rfl)))] at hr
      exact hdb _ r hr
  | lootRunCost =>
      rw [hsame _ (.inr (.inr (.inr rfl)))] at hr
      exact hdb _ r hr
  | _ => trivial

theorem keeps_amounts_addEconomyPrice {input : PriceInput} {draws : ℕ → Draw} :
    Keeps (fun c : Conn => AmountsStored c.db) (addEconomyPrice input draws) := by
  refine Keeps.ofOption.bind fun server => ?_
  refine (keeps_amounts_of_leaves (leaves_upsertEconomyItemByName (by decide))).bind fun item => ?_
  refine Keeps.bind (keeps_append_rows ?_) fun _ => ?_
  · exact isNatural_amount input.price
  refine (Keeps.gets.bind fun rows => ?_).bind fun _ => Keeps.pure
  exact keeps_amounts_of_leaves (leaves_insertAlerts (by decide))

theorem keeps_amounts_insertDrop {runId : String} {now : ℤ} {d : DropInput} {draws : ℕ → Draw} :
    Keeps (fun c : Conn => AmountsStored c.db) (insertDrop runId now d draws) := by
  unfold insertDrop
  split
  · exact Keeps.pure
  split
  · exact Keeps.pure
  refine (keeps_amounts_of_leaves (leaves_upsertEconomyItemByName (by decide))).bind fun item => ?_
  exact keeps_append_rows (isNatural_quantity d.qty)

theorem keeps_amounts_insertCost {runId : String} {now : ℤ} {cost : CostInput} {draws : ℕ → Draw} :
    Keeps (fun c : Conn => AmountsStored c.db) (insertCost runId now cost draws) := by
  unfold insertCost
  split
  · split
    · exact Keeps.pure
    · exact keeps_append_rows ⟨isNatural_zero, isNatural_quantity cost.kinah⟩
  split
  · exact Keeps.pure
  split
  · exact Keeps.pure
  refine (keeps_amounts_of_leaves (leaves_upsertEconomyItemByName (by decide))).bind fun item => ?_
  exact keeps_append_rows ⟨isNatural_quantity cost.qty, isNatural_zero⟩

theorem keeps_amounts_createLootRun (host : Host) {input : LootRunInput} {draw : Draw}
    {dropDraws costDraws : ℕ → ℕ → Draw} : Keeps (fun c : Conn => AmountsStored c.db)
      (createLootRun host input draw dropDraws costDraws) := by
  refine Keeps.ofOption.bind fun characterId => Keeps.ofOption.bind fun content =>
    Keeps.gets.bind fun found => Keeps.ofOption.bind fun character => ?_
  refine Keeps.bind (keeps_atomically quiet_recordRun ?_) fun _ => Keeps.pure
  refine Keeps.bind (keeps_append_rows ?_) fun _ => ?_
  · exact isNatural_runSeconds host _ _ _
  exact (Keeps.forEach fun d _ => keeps_amounts_insertDrop).bind fun _ =>
    Keeps.forEach fun cost _ => keeps_amounts_insertCost

/-- What is recorded has natural amounts, whatever the calls are given. -/
theorem amountsStored_of_run (host : Host) (calls : List TimedCall) {c : Conn}
    (hc : AmountsStored c.db) : AmountsStored (afterCalls host calls c).db := by
  induction calls generalizing c with
  | nil => exact hc
  | cons call calls ih =>
      apply ih
      apply Keeps.apply (I := fun c : Conn => AmountsStored c.db) _ hc
      cases call with
      | addPrice input draws =>
          refine Keeps.discard (Keeps.ofOption.bind fun server => Keeps.ofOption.bind fun name => ?_)
          exact keeps_amounts_addEconomyPrice
      | createRun input draw dropDraws costDraws =>
          apply Keeps.discard
          refine Keeps.ofOption.bind fun obj => Keeps.bind ?_ fun active =>
            Keeps.ofOption.bind fun characterId => Keeps.ofOption.bind fun content =>
              keeps_amounts_createLootRun host
          unfold runCharacterId
          split
          · exact Keeps.pure
          · exact Keeps.gets.bind fun _ => Keeps.pure

theorem IsNatural.value_nonneg {x : Number} (h : IsNatural x) : 0 ≤ x.value := by
  obtain ⟨n, rfl⟩ := h
  exact Nat.cast_nonneg n

/-- The amounts that are recorded are numbers. -/
theorem AmountsStored.amounts {db : Db Row} (h : AmountsStored db) (characterId startIso endIso : String) :
    Amounts db (runsIn db characterId startIso endIso)
      (dropsIn db (runsIn db characterId startIso endIso))
      (costsIn db (runsIn db characterId startIso endIso)) where
  seconds r hr := by
    have hseconds := h .lootRun r (List.mem_filter.mp hr).1
    exact ⟨hseconds.isFinite, hseconds.value_nonneg⟩
  dropQty d hd := IsNatural.isFinite (h .lootRunDrop d (List.mem_filter.mp hd).1)
  costQty c hc _ := (h .lootRunCost c (List.mem_filter.mp hc).1).1.isFinite
  kinah c hc _ := (h .lootRunCost c (List.mem_filter.mp hc).1).2
  prices p hp := IsNatural.isFinite (h .economyPrice p hp)

theorem ofNumber_of_finite {x : Number} (h : x.isFinite = true) :
    (Arithmetic.ofNumber x : Exact) = .rat x.value :=
  congrArg Arithmetic.ofNumber (Number.eq_value h)

/-! ### Prices -/

/-- The price that is found for an item. -/
def priceIn (prices : Record Number) (itemId : String) : Option ℚ :=
  match prices.get itemId with
  | .own price => some price.value
  | _ => none

/-- What is found for an item is a number or nothing. -/
def Found (prices : Record Number) (itemId : String) : Prop :=
  prices.get itemId = .undefined ∨ ∃ x : Number, x.isFinite = true ∧ prices.get itemId = .own x

theorem priceOf_priceIn {db : Db Row}
    (hdb : ∀ p ∈ db .economyPrice, (EconomyPrice.price p).isFinite = true) {server : Option String}
    {itemIds : List String} (hplain : ∀ itemId ∈ itemIds, Text.Plain itemId) {prices : Record Number}
    (h : latestPrices db server itemIds = .ok prices) {itemId : String} (hitem : itemId ∈ itemIds)
    (hne : itemId ≠ "") (hproto : itemId ∉ objectPrototype) :
    Found prices itemId ∧ PriceOf db server itemId (priceIn prices itemId) := by
  cases server with
  | none =>
      obtain rfl : [] = prices := Except.ok.inj h
      have hget : Record.get ([] : Record Number) itemId = .undefined := by
        rw [Record.get_eq_of_notMem _ hproto]
        rfl
      refine ⟨.inl hget, ?_⟩
      rw [priceIn, hget]
      intro name hname
      cases hname
  | some name =>
      have hfound := latestPrices_get (fun p _ hp => hplain _ hp) h hitem hne hproto
      rw [priceIn]
      cases hget : prices.get itemId with
      | undefined =>
          rw [hget] at hfound
          refine ⟨.inl hget, fun name' hname => ?_⟩
          obtain rfl := Option.some.inj hname
          exact hfound
      | inherited =>
          rw [hget] at hfound
          exact hfound.elim
      | own x =>
          rw [hget] at hfound
          obtain ⟨p, hp, rfl⟩ := hfound
          have hmem : p ∈ db .economyPrice := (List.mem_filter.mp hp.1).1
          exact ⟨.inr ⟨p.price, hdb p hmem, hget⟩, name, p, rfl, hp, rfl⟩

section

variable {prices : Record Number} {itemId : String} {qty : Number}

theorem priced_of_found (hfound : Found prices itemId) (hqty : qty.isFinite = true) :
    ((priced qty (prices.get itemId) : Option Exact)).getD 0 =
      .rat ((priceIn prices itemId).elim 0 fun x => qty.value * x) := by
  rw [priceIn]
  rcases hfound with hget | ⟨x, hx, hget⟩
  · rw [hget]
    rfl
  · rw [hget, priced, Option.getD_some, ofNumber_of_finite hqty, ofNumber_of_finite hx]
    rfl

theorem unpriced_of_found (hfound : Found prices itemId) :
    unpriced prices.get (some itemId) = if priceIn prices itemId = none then some itemId else none := by
  rw [unpriced, priceIn, Option.bind_some]
  rcases hfound with hget | ⟨x, -, hget⟩
  · rw [hget, if_pos rfl]
  · rw [hget, if_neg (Option.some_ne_none _)]

/-- The worth of a quantity of an item. -/
theorem amount_eq_worth {item : Option String}
    (hfound : ∀ itemId, nonEmpty item = some itemId → Found prices itemId) (hqty : qty.isFinite = true) :
    ((nonEmpty item).bind fun itemId => (priced qty (prices.get itemId) : Option Exact)).getD 0 =
      .rat (worth (priceIn prices) qty item) := by
  rw [worth]
  cases hitem : nonEmpty item with
  | none => rfl
  | some itemId =>
      rw [Option.bind_some, Option.bind_some]
      exact priced_of_found (hfound itemId hitem) hqty

end

/-! ### By the hour -/

/-- Without seconds there is nothing by the hour. -/
theorem isHourly_perHour {s : ℚ} (q : ℚ) (hs : 0 ≤ s) :
    IsHourly (.rat s) (.rat q) (perHour (.rat s) (.rat q)) := by
  refine ⟨s, q, rfl, rfl, ?_⟩
  have hhours : (.rat s / Arithmetic.ofNumber 3600 : Exact) = .rat (s / 3600) :=
    Exact.rat_div (by norm_num)
  have hif : perHour (.rat s) (.rat q) =
      if (0 : ℚ) < s / 3600 then (.rat q / .rat (s / 3600) : Exact) else 0 := by
    show (if Arithmetic.lt (.rat 0) (.rat s / Arithmetic.ofNumber 3600 : Exact) then _ else _) = _
    rw [hhours, Exact.lt_rat]
    simp only [decide_eq_true_eq]
  rw [hif]
  rcases eq_or_lt_of_le hs with rfl | hpos
  · rw [if_neg (by norm_num), if_pos rfl]
    rfl
  · have hhour : 0 < s / 3600 := div_pos hpos (by norm_num)
    rw [if_pos hhour, if_neg hpos.ne', Exact.rat_div hhour.ne']

/-! ### The passes -/

section

variable {runs : List LootRun} {drops : List LootRunDrop} {costs : List LootRunCost}
  {prices : Record Number}

/-- The items that need a price are those of the drops and of the costs. -/
theorem mem_pricedItems {itemId : String} :
    itemId ∈ pricedItems drops costs ↔ HasItem drops costs itemId := by
  rw [pricedItems, mem_unique, List.mem_append, HasItem, List.mem_filterMap, List.mem_filterMap]
  apply or_congr Iff.rfl
  constructor
  · rintro ⟨c, hc, hitem⟩
    obtain ⟨hmem, hkind⟩ := List.mem_filter.mp hc
    exact ⟨c, hmem, of_decide_eq_true hkind, hitem⟩
  · rintro ⟨c, hc, hkind, hitem⟩
    exact ⟨c, List.mem_filter.mpr ⟨hc, decide_eq_true hkind⟩, hitem⟩

theorem HasItem.ne_empty {itemId : String} (h : HasItem drops costs itemId) : itemId ≠ "" := by
  rcases h with ⟨d, -, hd⟩ | ⟨c, -, -, hc⟩
  · exact ne_of_nonEmpty hd
  · exact ne_of_nonEmpty hc

theorem dropAmount_eq {d : LootRunDrop} (hqty : d.qty.isFinite = true)
    (hfound : ∀ itemId, nonEmpty d.itemId = some itemId → Found prices itemId) :
    dropAmount prices.get d = .rat (dropWorth (priceIn prices) d) :=
  amount_eq_worth hfound hqty

theorem costAmount_eq {c : LootRunCost} (hqty : c.kind = .item → c.qty.isFinite = true)
    (hkinah : c.kind = .kinah → IsNatural c.kinah)
    (hfound : ∀ itemId, c.kind = .item → nonEmpty c.itemId = some itemId → Found prices itemId) :
    costAmount prices.get c = .rat (costWorth (priceIn prices) c) := by
  rw [costAmount, costWorth]
  cases hkind : c.kind with
  | kinah =>
      dsimp only
      rw [(hkinah hkind).atLeast_floor, ofNumber_of_finite (hkinah hkind).isFinite]
  | item => exact amount_eq_worth (fun itemId => hfound itemId hkind) (hqty hkind)

/-- The amounts of some runs add up to the amount of all rows of these runs. -/
theorem sum_amounts {ι : Type} {l : List ι} {key : ι → String} {g : ι → Exact} {f : ι → ℚ}
    {amount : String → Exact} (hids : (runs.map (·.id)).Nodup) (hg : ∀ i ∈ l, g i = .rat (f i))
    (hamount : ∀ r ∈ runs, amount r.id = groupSum key g r.id l) :
    (runs.map fun r => amount r.id).sum =
      .rat ((l.filter fun i => key i ∈ runs.map (·.id)).map f).sum := by
  calc (runs.map fun r => amount r.id).sum
      = ((runs.map (·.id)).map fun id => groupSum key g id l).sum := by
        rw [List.map_map]
        exact congrArg List.sum (List.map_congr_left hamount)
    _ = ((l.filter fun i => key i ∈ runs.map (·.id)).map g).sum := sum_groupSum_filter hids
    _ = ((l.filter fun i => key i ∈ runs.map (·.id)).map fun i => .rat (f i)).sum :=
        congrArg List.sum (List.map_congr_left fun i hi => hg i (List.mem_filter.mp hi).1)
    _ = .rat ((l.filter fun i => key i ∈ runs.map (·.id)).map f).sum := Exact.sum_rat f _

variable (drops costs prices) in
/-- The two tallies of a report. -/
def reportTallies : Tally Exact × Tally Exact := tallies prices.get drops costs

theorem amount_value {id : String} (hid : id ≠ "__proto__") :
    (reportTallies drops costs prices).1.amount id =
      groupSum (·.runId) (dropAmount prices.get) id drops := by
  rw [Tally.amount, if_neg hid]
  exact (tallies_eq prices.get drops costs).1 id

theorem amount_cost {id : String} (hid : id ≠ "__proto__") :
    (reportTallies drops costs prices).2.amount id =
      groupSum (·.runId) (costAmount prices.get) id costs := by
  rw [Tally.amount, if_neg hid]
  exact (tallies_eq prices.get drops costs).2.1 id

variable (runs drops costs prices) in
/-- The amounts that a report adds up are numbers. -/
structure Numeric : Prop where
  ids : (runs.map (·.id)).Nodup
  runIds : ∀ r ∈ runs, r.id ≠ "__proto__"
  seconds : ∀ r ∈ runs, r.seconds.isFinite = true ∧ 0 ≤ r.seconds.value
  dropWorths : ∀ d ∈ drops, dropAmount prices.get d = .rat (dropWorth (priceIn prices) d)
  costWorths : ∀ c ∈ costs, costAmount prices.get c = .rat (costWorth (priceIn prices) c)
  found : ∀ itemId, HasItem drops costs itemId → Found prices itemId

variable (drops costs prices) in
/-- What some runs come to. -/
def exactTotals (runs : List LootRun) : LootTotals Exact where
  runs := runs.length
  seconds := .rat (runs.map fun r => r.seconds.value).sum
  value := .rat (valueOf (priceIn prices) drops runs)
  cost := .rat (costOf (priceIn prices) costs runs)

namespace Numeric

variable (h : Numeric runs drops costs prices)

include h

/-- The totals of some of the runs. -/
theorem sum_runTotals {some : List LootRun} (hsub : some.Sublist runs) :
    (some.map (runTotals (reportTallies drops costs prices).1.amount
      (reportTallies drops costs prices).2.amount)).sum = exactTotals drops costs prices some := by
  have hids : (some.map (·.id)).Nodup := h.ids.sublist (hsub.map _)
  have hseconds : (some.map fun r => (Arithmetic.ofNumber r.seconds : Exact)).sum =
      .rat (some.map fun r => r.seconds.value).sum := by
    rw [← Exact.sum_rat]
    exact congrArg List.sum (List.map_congr_left fun r hr =>
      ofNumber_of_finite (h.seconds r (hsub.subset hr)).1)
  have hvalue : (some.map fun r => (reportTallies drops costs prices).1.amount r.id).sum = _ :=
    sum_amounts hids h.dropWorths fun r hr => amount_value (h.runIds r (hsub.subset hr))
  have hcost : (some.map fun r => (reportTallies drops costs prices).2.amount r.id).sum = _ :=
    sum_amounts hids h.costWorths fun r hr => amount_cost (h.runIds r (hsub.subset hr))
  rw [Hub.sum_runTotals, hseconds, hvalue, hcost]
  rfl

theorem seconds_nonneg {some : List LootRun} (hsub : some.Sublist runs) :
    0 ≤ (some.map fun r => r.seconds.value).sum := by
  apply List.sum_nonneg
  intro x hx
  obtain ⟨r, hr, rfl⟩ := List.mem_map.mp hx
  exact (h.seconds r (hsub.subset hr)).2

/-- The row of a content. -/
theorem rowOf {row : LootReportRow Exact} (hrow : row = reportRow row.content
    ((runsOf row.content runs).map (runTotals (reportTallies drops costs prices).1.amount
      (reportTallies drops costs prices).2.amount)).sum) :
    RowOf (priceIn prices) (runsOf row.content runs) drops costs row := by
  have hsub : (runsOf row.content runs).Sublist runs := List.filter_sublist
  have hnonneg := h.seconds_nonneg hsub
  rw [h.sum_runTotals hsub] at hrow
  generalize hsome : runsOf row.content runs = some at *
  rw [hrow]
  exact
    { count := rfl
      seconds := rfl
      value := rfl
      cost := rfl
      net := rfl
      valuePerHour := isHourly_perHour _ hnonneg
      netPerHour := isHourly_perHour _ hnonneg }

/-- The items that are reported to have no price. -/
theorem mem_missing (itemId : String) : itemId ∈ (reportTallies drops costs prices).2.missing ↔
    HasItem drops costs itemId ∧ priceIn prices itemId = none := by
  have hunpriced : ∀ item : Option String, (∀ i, item = some i → HasItem drops costs i) →
      (unpriced prices.get item = some itemId ↔ item = some itemId ∧ priceIn prices itemId = none) := by
    intro item hitem
    cases item with
    | none =>
        constructor
        · intro hnone
          cases hnone
        · intro hnone
          cases hnone.1
    | some i =>
        rw [unpriced_of_found (h.found i (hitem i rfl))]
        by_cases hi : priceIn prices i = none
        · rw [if_pos hi, Option.some_inj]
          exact ⟨fun heq => ⟨heq, heq ▸ hi⟩, fun hboth => hboth.1⟩
        · rw [if_neg hi, Option.some_inj]
          exact ⟨fun hnone => absurd hnone.symm (Option.some_ne_none _), fun hboth =>
            absurd (hboth.1 ▸ hboth.2) hi⟩
  rw [reportTallies, (tallies_eq prices.get drops costs).2.2, mem_unique, List.mem_append,
    List.mem_filterMap, List.mem_filterMap, HasItem, or_and_right]
  apply or_congr
  · constructor
    · rintro ⟨d, hd, hitem⟩
      have hboth := (hunpriced _ fun i hi => .inl ⟨d, hd, hi⟩).mp hitem
      exact ⟨⟨d, hd, hboth.1⟩, hboth.2⟩
    · rintro ⟨⟨d, hd, hitem⟩, hnone⟩
      exact ⟨d, hd, (hunpriced _ fun i hi => .inl ⟨d, hd, hi⟩).mpr ⟨hitem, hnone⟩⟩
  · constructor
    · rintro ⟨c, hc, hitem⟩
      have hboth := (hunpriced _ fun i hi => .inr ⟨c, hc, costItem_eq_some.mp hi⟩).mp hitem
      exact ⟨⟨c, hc, costItem_eq_some.mp hboth.1⟩, hboth.2⟩
    · rintro ⟨⟨c, hc, hitem⟩, hnone⟩
      exact ⟨c, hc, (hunpriced _ fun i hi => .inr ⟨c, hc, costItem_eq_some.mp hi⟩).mpr
        ⟨costItem_eq_some.mpr hitem, hnone⟩⟩

/-- A report about numbers accounts for its runs. -/
theorem accountedAt (host : Host) (server : Option String) (startLocal : Option ℤ)
    (startIso endIso : String) (reset : String × Number) :
    AccountedAt (priceIn prices) runs drops costs
      (accountRuns host server startLocal startIso endIso reset runs drops costs prices) := by
  let value := (reportTallies drops costs prices).1.amount
  let cost := (reportTallies drops costs prices).2.amount
  have htotals : (countRuns value cost runs).1 = exactTotals drops costs prices runs := by
    rw [countRuns_eq]
    exact h.sum_runTotals (List.Sublist.refl runs)
  have hnonneg := h.seconds_nonneg (List.Sublist.refl runs)
  have hrow : ∀ row ∈ (rowsOf (countRuns value cost runs).2).insertionSort netDescending,
      RowOf (priceIn prices) (runsOf row.content runs) drops costs row :=
    fun row hrow => h.rowOf (mem_rows hrow)
  have hcontents := contents_perm value cost runs
  have hhourly : ∀ q : LootTotals Exact → Exact, (∃ x, q (exactTotals drops costs prices runs) = .rat x) →
      IsHourly (countRuns value cost runs).1.seconds (q (countRuns value cost runs).1)
        (perHour (countRuns value cost runs).1.seconds (q (countRuns value cost runs).1)) := by
    rintro q ⟨x, hx⟩
    rw [htotals, hx]
    exact isHourly_perHour x hnonneg
  exact
    { contents := hcontents.nodup_iff.mpr (totalsOf_countRuns value cost runs).nodup
      row_of_run := by
        intro content
        apply hcontents.mem_iff.trans
        rw [(totalsOf_countRuns value cost runs).keys, List.map_map, List.mem_map]
        rfl
      row := hrow
      totalRuns := sum_rows value cost runs (f := LootTotals.runs) rfl (fun _ _ => rfl) fun _ _ => rfl
      totalSeconds := sum_rows value cost runs (f := LootTotals.seconds) rfl (fun _ _ => rfl) fun _ _ => rfl
      totalValue := sum_rows value cost runs (f := LootTotals.value) rfl (fun _ _ => rfl) fun _ _ => rfl
      totalCost := sum_rows value cost runs (f := LootTotals.cost) rfl (fun _ _ => rfl) fun _ _ => rfl
      totalNet := sum_rows value cost runs (f := fun t => t.value - t.cost) (congrArg Exact.rat (sub_zero 0))
        (fun s t => (Exact.sub_add_sub s.value s.cost t.value t.cost).symm) fun _ _ => rfl
      value := congrArg LootTotals.value htotals
      cost := congrArg LootTotals.cost htotals
      missing := h.mem_missing
      missing_nodup := by
        show (reportTallies drops costs prices).2.missing.Nodup
        rw [reportTallies, (tallies_eq prices.get drops costs).2.2]
        exact nodup_unique _
      sorted := by
        apply sorted_rows
        intro row hmem
        have hnet := hrow row ((List.mem_insertionSort _).mpr hmem)
        exact ⟨_, by rw [hnet.net, hnet.value, hnet.cost, Exact.rat_sub]⟩
      valuePerHour := hhourly (fun t => t.value) ⟨_, rfl⟩
      netPerHour := hhourly (fun t => t.value - t.cost) ⟨_, rfl⟩ }

end Numeric

end

/-! ### What is no number -/

section

variable {runs : List LootRun} {drops : List LootRunDrop} {costs : List LootRunCost}
  {prices : Record Number}

/-- A name that every object answers to is no missing price. -/
theorem inherited_of_latestPrices {db : Db Row} {server : Option String} {itemIds : List String}
    (h : latestPrices db server itemIds = .ok prices) {key : String} (hkey : key ∈ objectPrototype) :
    prices.get key = .inherited := by
  have hempty : Record.get ([] : Record Number) key = .inherited := if_pos hkey
  have hfold : ∀ (rows : List EconomyPrice) (out : Record Number), out.get key = .inherited →
      (rows.foldl (fun out r => out.putNew r.itemId r.price) out).get key = .inherited := by
    intro rows
    induction rows with
    | nil => exact fun out hout => hout
    | cons r rows ih => exact fun out hout => ih _ (Record.get_putNew_inherited hout r.itemId r.price)
  cases server with
  | none =>
      obtain rfl : [] = prices := Except.ok.inj h
      exact hempty
  | some name =>
      rw [latestPrices] at h
      cases hserver : trimmed (some name) with
      | none =>
          simp only [hserver] at h
          cases h
      | some server =>
          simp only [hserver] at h
          split at h
          · obtain rfl := Except.ok.inj h
            exact hempty
          split at h
          · obtain rfl := Except.ok.inj h
            exact hfold _ _ hempty
          · cases h

theorem groupSum_eq_nan {ι : Type} {l : List ι} (key : ι → String) {g : ι → Exact} {i : ι} (hi : i ∈ l)
    (h : g i = .nan) : groupSum key g (key i) l = .nan := by
  apply Exact.sum_eq_nan
  exact List.mem_map.mpr ⟨i, List.mem_filter.mpr ⟨hi, decide_eq_true rfl⟩, h⟩

theorem Tally.amount_eq_nan {t : Tally Exact} {id : String} (h : t.amounts id = .nan) :
    t.amount id = .nan := by
  rw [Tally.amount]
  split
  · rfl
  · exact h

/-- The value of a report, run by run. -/
theorem value_countRuns {value cost : String → Exact} :
    (countRuns value cost runs).1.value = (runs.map fun r => value r.id).sum := by
  rw [countRuns_eq, sum_runTotals]

theorem cost_countRuns {value cost : String → Exact} :
    (countRuns value cost runs).1.cost = (runs.map fun r => cost r.id).sum := by
  rw [countRuns_eq, sum_runTotals]

/-- One run without a number spoils the total. -/
theorem sum_runs_eq_nan {amount : String → Exact} {id : String} (hid : id ∈ runs.map (·.id))
    (h : amount id = .nan) : (runs.map fun r => amount r.id).sum = .nan := by
  obtain ⟨r, hr, rfl⟩ := List.mem_map.mp hid
  exact Exact.sum_eq_nan (List.mem_map.mpr ⟨r, hr, h⟩)

/-- A report that accounts for its runs is about numbers. -/
theorem ordinary_of_numbers (hinherited : ∀ key ∈ objectPrototype, prices.get key = .inherited)
    (hdrops : ∀ d ∈ drops, d.runId ∈ runs.map (·.id)) (hcosts : ∀ c ∈ costs, c.runId ∈ runs.map (·.id))
    {v k : ℚ}
    (hv : (runs.map fun r => (reportTallies drops costs prices).1.amount r.id).sum = .rat v)
    (hk : (runs.map fun r => (reportTallies drops costs prices).2.amount r.id).sum = .rat k) :
    Ordinary runs drops costs := by
  have htallies := tallies_eq prices.get drops costs
  refine ⟨?_, ?_⟩
  · intro r hr hid
    have hnan : (reportTallies drops costs prices).1.amount r.id = .nan := by
      rw [Tally.amount, if_pos hid]
      rfl
    rw [sum_runs_eq_nan (List.mem_map_of_mem hr) hnan] at hv
    cases hv
  · intro itemId hitem hproto
    have hget := hinherited itemId hproto
    rcases hitem with ⟨d, hd, hd'⟩ | ⟨c, hc, hkind, hc'⟩
    · have hamount : dropAmount prices.get d = .nan := by
        rw [dropAmount, hd', Option.bind_some, hget]
        rfl
      have hnan : (reportTallies drops costs prices).1.amount d.runId = .nan := by
        apply Tally.amount_eq_nan
        rw [reportTallies, htallies.1]
        exact groupSum_eq_nan (fun d => d.runId) hd hamount
      rw [sum_runs_eq_nan (hdrops d hd) hnan] at hv
      cases hv
    · have hamount : costAmount prices.get c = .nan := by
        rw [costAmount, hkind]
        dsimp only
        rw [hc', Option.bind_some, hget]
        rfl
      have hnan : (reportTallies drops costs prices).2.amount c.runId = .nan := by
        apply Tally.amount_eq_nan
        rw [reportTallies, htallies.2.1]
        exact groupSum_eq_nan (fun c => c.runId) hc hamount
      rw [sum_runs_eq_nan (hcosts c hc) hnan] at hk
      cases hk

end

/-! ### Rows as they are read -/

/-- What a report counts of a run. -/
def runKey (r : LootRun) : String × String × Number := (r.id, r.content, r.seconds)

def dropKey (d : LootRunDrop) : String × Option String × Number := (d.runId, d.itemId, d.qty)

def costKey (c : LootRunCost) : String × LootRunCostKind × Option String × Number × Number :=
  (c.runId, c.kind, c.itemId, c.qty, c.kinah)

/-- Rows that a report does not tell apart. -/
structure SameRows (runs : List LootRun) (drops : List LootRunDrop) (costs : List LootRunCost)
    (runs' : List LootRun) (drops' : List LootRunDrop) (costs' : List LootRunCost) : Prop where
  runs : (runs.map runKey).Perm (runs'.map runKey)
  drops : drops.map dropKey = drops'.map dropKey
  costs : costs.map costKey = costs'.map costKey

section

variable {runs runs' : List LootRun} {drops drops' : List LootRunDrop} {costs costs' : List LootRunCost}

/-- The runs of a content are among the same rows. -/
theorem perm_runsOf (h : (runs.map runKey).Perm (runs'.map runKey)) (content : String) :
    ((runsOf content runs).map runKey).Perm ((runsOf content runs').map runKey) := by
  have hfilter := h.filter fun k => decide (k.2.1 = content)
  rw [List.filter_map, List.filter_map] at hfilter
  exact hfilter

/-- What depends on the keys of runs only. -/
theorem perm_map_runKey {α : Type} (h : (runs.map runKey).Perm (runs'.map runKey))
    (f : String × String × Number → α) :
    (runs.map fun r => f (runKey r)).Perm (runs'.map fun r => f (runKey r)) := by
  have hmap := h.map f
  rw [List.map_map, List.map_map] at hmap
  exact hmap

theorem valueOf_congr (price : String → Option ℚ) (hruns : (runs.map runKey).Perm (runs'.map runKey))
    (hdrops : drops.map dropKey = drops'.map dropKey) :
    valueOf price drops runs = valueOf price drops' runs' := by
  have hids : ∀ id, id ∈ runs.map (·.id) ↔ id ∈ runs'.map (·.id) := fun id =>
    (perm_map_runKey hruns fun k => k.1).mem_iff
  have hkeys : ∀ (drops : List LootRunDrop) (runs : List LootRun), valueOf price drops runs =
      (((drops.map dropKey).filter fun k => k.1 ∈ runs.map (·.id)).map fun k =>
        worth price k.2.2 k.2.1).sum := by
    intro drops runs
    rw [List.filter_map, List.map_map]
    rfl
  rw [hkeys, hkeys, hdrops]
  simp only [hids]

theorem costOf_congr (price : String → Option ℚ) (hruns : (runs.map runKey).Perm (runs'.map runKey))
    (hcosts : costs.map costKey = costs'.map costKey) :
    costOf price costs runs = costOf price costs' runs' := by
  have hids : ∀ id, id ∈ runs.map (·.id) ↔ id ∈ runs'.map (·.id) := fun id =>
    (perm_map_runKey hruns fun k => k.1).mem_iff
  have hkeys : ∀ (costs : List LootRunCost) (runs : List LootRun), costOf price costs runs =
      (((costs.map costKey).filter fun k => k.1 ∈ runs.map (·.id)).map fun k =>
        match k.2.1 with
        | .kinah => k.2.2.2.2.value
        | .item => worth price k.2.2.2.1 k.2.2.1).sum := by
    intro costs runs
    rw [List.filter_map, List.map_map]
    rfl
  rw [hkeys, hkeys, hcosts]
  simp only [hids]

theorem RowOf.congr {price : String → Option ℚ} {row : LootReportRow Exact}
    (hruns : (runs.map runKey).Perm (runs'.map runKey)) (hdrops : drops.map dropKey = drops'.map dropKey)
    (hcosts : costs.map costKey = costs'.map costKey) (h : RowOf price runs drops costs row) :
    RowOf price runs' drops' costs' row where
  count := by
    rw [h.count, ← List.length_map (f := runKey), hruns.length_eq, List.length_map]
  seconds := by
    rw [h.seconds]
    exact congrArg Exact.rat (perm_map_runKey hruns fun k => k.2.2.value).sum_eq
  value := by rw [h.value, valueOf_congr price hruns hdrops]
  cost := by rw [h.cost, costOf_congr price hruns hcosts]
  net := h.net
  valuePerHour := h.valuePerHour
  netPerHour := h.netPerHour

namespace SameRows

variable (h : SameRows runs drops costs runs' drops' costs')

include h

theorem symm : SameRows runs' drops' costs' runs drops costs :=
  ⟨h.runs.symm, h.drops.symm, h.costs.symm⟩

theorem hasItem (itemId : String) : HasItem drops costs itemId ↔ HasItem drops' costs' itemId := by
  have hkeys : ∀ (drops : List LootRunDrop) (costs : List LootRunCost), HasItem drops costs itemId ↔
      (∃ k ∈ drops.map dropKey, nonEmpty k.2.1 = some itemId) ∨
        ∃ k ∈ costs.map costKey, k.2.1 = .item ∧ nonEmpty k.2.2.1 = some itemId := by
    intro drops costs
    rw [HasItem]
    simp [dropKey, costKey]
  rw [hkeys, hkeys, h.drops, h.costs]

theorem ordinary (hrows : Ordinary runs drops costs) : Ordinary runs' drops' costs' where
  runIds r hr := by
    have hid : r.id ∈ runs'.map (·.id) := List.mem_map_of_mem hr
    obtain ⟨r', hr', heq⟩ := List.mem_map.mp ((perm_map_runKey h.runs fun k => k.1).mem_iff.mpr hid)
    have hne := hrows.runIds r' hr'
    rwa [show r'.id = r.id from heq] at hne
  itemIds itemId hitem := hrows.itemIds itemId ((h.hasItem itemId).mpr hitem)

theorem accountedAt {price : String → Option ℚ} {report : LootWeeklyReport Exact}
    (ha : AccountedAt price runs drops costs report) : AccountedAt price runs' drops' costs' report :=
  { ha with
    row_of_run := by
      intro content
      have hcontent := (perm_map_runKey h.runs fun k => k.2.1).mem_iff (a := content)
      rw [List.mem_map, List.mem_map] at hcontent
      exact (ha.row_of_run content).trans hcontent
    row := fun row hrow => (ha.row row hrow).congr (perm_runsOf h.runs row.content) h.drops h.costs
    value := by rw [ha.value, valueOf_congr price h.runs h.drops]
    cost := by rw [ha.cost, costOf_congr price h.runs h.costs]
    missing := fun itemId => by rw [ha.missing, h.hasItem] }

theorem accounted {db : Db Row} {report : LootWeeklyReport Exact}
    (ha : Accounted db runs drops costs report) :
    Accounted db runs' drops' costs' report := by
  obtain ⟨price, hprice, ha⟩ := ha
  exact ⟨price, fun itemId hitem => hprice itemId ((h.hasItem itemId).mpr hitem), h.accountedAt ha⟩

theorem amounts {db : Db Row} (hamounts : Amounts db runs drops costs) :
    Amounts db runs' drops' costs' where
  seconds r hr := by
    have hkey := h.runs.mem_iff.mpr (List.mem_map_of_mem (f := runKey) hr)
    obtain ⟨r', hr', heq⟩ := List.mem_map.mp hkey
    rw [← show r'.seconds = r.seconds from congrArg (fun k => k.2.2) heq]
    exact hamounts.seconds r' hr'
  dropQty d hd := by
    have hkey := List.mem_map_of_mem (f := dropKey) hd
    rw [← h.drops] at hkey
    obtain ⟨d', hd', heq⟩ := List.mem_map.mp hkey
    rw [← show d'.qty = d.qty from congrArg (fun k => k.2.2) heq]
    exact hamounts.dropQty d' hd'
  costQty c hc hkind := by
    have hkey := List.mem_map_of_mem (f := costKey) hc
    rw [← h.costs] at hkey
    obtain ⟨c', hc', heq⟩ := List.mem_map.mp hkey
    rw [← show c'.kind = c.kind from congrArg (fun k => k.2.1) heq] at hkind
    rw [← show c'.qty = c.qty from congrArg (fun k => k.2.2.2.1) heq]
    exact hamounts.costQty c' hc' hkind
  kinah c hc hkind := by
    have hkey := List.mem_map_of_mem (f := costKey) hc
    rw [← h.costs] at hkey
    obtain ⟨c', hc', heq⟩ := List.mem_map.mp hkey
    rw [← show c'.kind = c.kind from congrArg (fun k => k.2.1) heq] at hkind
    rw [← show c'.kinah = c.kinah from congrArg (fun k => k.2.2.2.2) heq]
    exact hamounts.kinah c' hc' hkind
  prices := hamounts.prices

theorem dropRuns (hdrops : ∀ d ∈ drops, d.runId ∈ runs.map (·.id)) :
    ∀ d ∈ drops', d.runId ∈ runs'.map (·.id) := by
  intro d hd
  have hkey := List.mem_map_of_mem (f := dropKey) hd
  rw [← h.drops] at hkey
  obtain ⟨d', hd', heq⟩ := List.mem_map.mp hkey
  rw [← show d'.runId = d.runId from congrArg (fun k => k.1) heq]
  exact (perm_map_runKey h.runs fun k => k.1).mem_iff.mp (hdrops d' hd')

theorem costRuns (hcosts : ∀ c ∈ costs, c.runId ∈ runs.map (·.id)) :
    ∀ c ∈ costs', c.runId ∈ runs'.map (·.id) := by
  intro c hc
  have hkey := List.mem_map_of_mem (f := costKey) hc
  rw [← h.costs] at hkey
  obtain ⟨c', hc', heq⟩ := List.mem_map.mp hkey
  rw [← show c'.runId = c.runId from congrArg (fun k => k.1) heq]
  exact (perm_map_runKey h.runs fun k => k.1).mem_iff.mp (hcosts c' hc')

end SameRows

theorem PlainRows.item (h : PlainRows runs drops costs) {itemId : String}
    (hitem : HasItem drops costs itemId) : Text.Plain itemId := by
  rcases hitem with ⟨d, hd, hitem⟩ | ⟨c, hc, -, hitem⟩
  · exact h.drops d hd itemId (Option.filter_eq_some_iff.mp hitem).1
  · exact h.costs c hc itemId (Option.filter_eq_some_iff.mp hitem).1

end

/-! ### Every report -/

section

variable {host : Host} {input : LootReportInput} {now : ℤ} {c : Conn} {db : Db Row}

theorem weekRuns_eq (characterId startIso endIso : String) : weekRuns characterId startIso endIso db =
    (orderBy (desc (·.endedAt.getD "") anyOrder) (runsIn db characterId startIso endIso)).map
      (schema.read .lootRun) := rfl

theorem mem_weekRuns {characterId startIso endIso : String} {r : LootRun} :
    r ∈ weekRuns characterId startIso endIso db ↔
      ∃ r' ∈ runsIn db characterId startIso endIso, schema.read .lootRun r' = r := by
  rw [weekRuns_eq, List.mem_map]
  exact exists_congr fun r' => and_congr_left fun _ => (orderBy_perm _ _).mem_iff

/-- The rows of a report are read as they are stored. -/
theorem sameRows_read {characterId startIso endIso : String} {runs : List LootRun}
    (hruns : runsIn db characterId startIso endIso = runs)
    (hplain : PlainRows runs (dropsIn db runs) (costsIn db runs)) :
    SameRows (weekRuns characterId startIso endIso db)
      (dropRows (weekRuns characterId startIso endIso db) db)
      (costRows (weekRuns characterId startIso endIso db) db) runs (dropsIn db runs) (costsIn db runs) := by
  have hperm : ((weekRuns characterId startIso endIso db).map runKey).Perm (runs.map runKey) := by
    rw [weekRuns_eq, hruns, List.map_map]
    apply List.Perm.trans _ ((orderBy_perm (desc (·.endedAt.getD "") anyOrder) runs).map runKey)
    apply List.Perm.of_eq
    apply List.map_congr_left
    intro r hr
    obtain ⟨hid, hcontent⟩ := hplain.runs r ((orderBy_perm _ _).mem_iff.mp hr)
    show (Text.cut r.id, Text.cut r.content, r.seconds) = _
    rw [hid.cut, hcontent.cut]
    rfl
  have hids : ∀ id, id ∈ (weekRuns characterId startIso endIso db).map (·.id) ↔ id ∈ runs.map (·.id) :=
    fun id => (perm_map_runKey hperm fun k => k.1).mem_iff
  have hid : ∀ id ∈ runs.map (·.id), Text.cut id = id := by
    intro id hid
    obtain ⟨r, hr, rfl⟩ := List.mem_map.mp hid
    exact (hplain.runs r hr).1.cut
  have hitem : ∀ item : Option String, (∀ itemId ∈ item, Text.Plain itemId) → item.map Text.cut = item := by
    rintro (- | itemId) hitem
    · rfl
    · exact congrArg some (hitem itemId rfl).cut
  refine ⟨hperm, ?_, ?_⟩
  · rw [dropRows, List.map_map]
    simp only [hids]
    apply List.map_congr_left
    intro d hd
    show (Text.cut d.runId, d.itemId.map Text.cut, d.qty) = _
    rw [hid _ (of_decide_eq_true (List.mem_filter.mp hd).2), hitem _ (hplain.drops d hd)]
    rfl
  · rw [costRows, List.map_map]
    simp only [hids]
    apply List.map_congr_left
    intro c hc
    show (Text.cut c.runId, c.kind, c.itemId.map Text.cut, c.qty, c.kinah) = _
    rw [hid _ (of_decide_eq_true (List.mem_filter.mp hc).2), hitem _ (hplain.costs c hc)]
    rfl

/-- The runs of a week are distinct runs. -/
theorem nodup_runsIn (hdistinct : schema.DistinctRows .lootRun (db .lootRun))
    (characterId startIso endIso : String) :
    ((runsIn db characterId startIso endIso).map (·.id)).Nodup := by
  have hids : ((db .lootRun).map LootRun.id).Nodup := by
    apply List.pairwise_map.mpr
    apply List.Pairwise.imp _ hdistinct
    intro r r' hconflict hid
    rw [Schema.conflicts, Bool.or_eq_false_iff] at hconflict
    exact absurd hid (beq_eq_false_iff_ne.mp hconflict.1)
  exact hids.sublist (List.filter_sublist.map _)

/-- A report without runs accounts for them. -/
theorem accounted_nil (db : Db Row) (server : Option String) (startIso endIso : String) :
    Accounted db [] (dropsIn db []) (costsIn db [])
      ⟨server, startIso, endIso, ⟨0, 0, 0, 0, 0, 0, 0, []⟩, [], none⟩ := by
  have hdrops : dropsIn db [] = [] := List.filter_eq_nil_iff.mpr fun d _ => by simp
  have hcosts : costsIn db [] = [] := List.filter_eq_nil_iff.mpr fun c _ => by simp
  have hhourly : IsHourly 0 0 0 := ⟨0, 0, rfl, rfl, by rw [if_pos rfl]; rfl⟩
  rw [hdrops, hcosts]
  exact ⟨fun _ => none, by simp [HasItem],
    { contents := List.nodup_nil
      row_of_run := by simp
      row := fun row hrow => absurd hrow List.not_mem_nil
      totalRuns := rfl
      totalSeconds := rfl
      totalValue := rfl
      totalCost := rfl
      totalNet := rfl
      value := rfl
      cost := rfl
      missing := by simp [HasItem]
      missing_nodup := List.nodup_nil
      sorted := List.Pairwise.nil
      valuePerHour := hhourly
      netPerHour := hhourly }⟩

theorem ordinary_nil (db : Db Row) : Ordinary [] (dropsIn db []) (costsIn db []) := by
  have hdrops : dropsIn db [] = [] := List.filter_eq_nil_iff.mpr fun d _ => by simp
  have hcosts : costsIn db [] = [] := List.filter_eq_nil_iff.mpr fun c _ => by simp
  rw [hdrops, hcosts]
  exact ⟨fun r hr => absurd hr List.not_mem_nil, by simp [HasItem]⟩

variable (host) in
/-- The passes of a report account for their rows just when these are
ordinary. -/
theorem accounted_accountRuns {runs : List LootRun} {drops : List LootRunDrop}
    {costs : List LootRunCost} {prices : Record Number} {server : Option String}
    (hamounts : Amounts db runs drops costs) (hids : (runs.map (·.id)).Nodup)
    (hdrops : ∀ d ∈ drops, d.runId ∈ runs.map (·.id)) (hcosts : ∀ c ∈ costs, c.runId ∈ runs.map (·.id))
    (hplain : ∀ itemId, HasItem drops costs itemId → Text.Plain itemId)
    (hprices : latestPrices db server (pricedItems drops costs) = .ok prices)
    (startLocal : Option ℤ) (startIso endIso : String) (reset : String × Number) :
    Accounted db runs drops costs
      (accountRuns host server startLocal startIso endIso reset runs drops costs prices) ↔
      Ordinary runs drops costs := by
  constructor
  · rintro ⟨price, -, h⟩
    exact ordinary_of_numbers (fun key hkey => inherited_of_latestPrices hprices hkey) hdrops hcosts
      (value_countRuns.symm.trans h.value) (cost_countRuns.symm.trans h.cost)
  · intro h
    have hfound : ∀ itemId, HasItem drops costs itemId →
        Found prices itemId ∧ PriceOf db server itemId (priceIn prices itemId) := fun itemId hitem =>
      priceOf_priceIn hamounts.prices (fun itemId hmem => hplain itemId (mem_pricedItems.mp hmem)) hprices
        (mem_pricedItems.mpr hitem) hitem.ne_empty (h.itemIds itemId hitem)
    have hnumeric : Numeric runs drops costs prices :=
      { ids := hids
        runIds := h.runIds
        seconds := hamounts.seconds
        dropWorths := fun d hd => dropAmount_eq (hamounts.dropQty d hd) fun itemId hitem =>
          (hfound itemId (.inl ⟨d, hd, hitem⟩)).1
        costWorths := fun c hc => costAmount_eq (hamounts.costQty c hc) (hamounts.kinah c hc)
          fun itemId hkind hitem => (hfound itemId (.inr ⟨c, hc, hkind, hitem⟩)).1
        found := fun itemId hitem => (hfound itemId hitem).1 }
    exact ⟨priceIn prices, fun itemId hitem => (hfound itemId hitem).2,
      hnumeric.accountedAt host server startLocal startIso endIso reset⟩

end

/-! ### A week with two runs -/

def draupnir : LootRun where
  id := "run"
  characterId := "c1"
  server := some "Siel"
  content := "Draupnir"
  role := none
  powerBracket := none
  startedAt := none
  endedAt := some "1970-01-10T00:00:00.000Z"
  seconds := .fin 1800
  createdAt := stamp 0
  updatedAt := stamp 0

def fireTemple : LootRun :=
  { draupnir with
    id := "later"
    content := "Fire Temple"
    endedAt := some "1970-01-10T12:00:00.000Z"
    seconds := .fin 3600 }

/-- The first run has brought in two of an item, the second a gem, for 50
kinah; there is a price of "ore". -/
def withDrop (itemId : String) : Conn :=
  { onServer with
    db := (((onServer.db.set .lootRun [draupnir, fireTemple]).set .lootRunDrop
      [⟨"drop", "run", some itemId, "ore", .fin 2, none, stamp 0, stamp 0⟩,
        ⟨"gem drop", "later", some "gem", "gem", .fin 1, none, stamp 0, stamp 0⟩]).set .lootRunCost
      [⟨"cost", "later", .kinah, none, none, 0, .fin 50, none, stamp 0, stamp 0⟩]).set .economyPrice
      [⟨"price", "Siel", "ore", .fin 100, stamp 0, stamp 0, stamp 0⟩] }

theorem runsIn_withDrop (itemId : String) :
    runsIn (withDrop itemId).db "c1" (Date.isoString 378000000) (stamp 864000000) =
      [draupnir, fireTemple] := rfl

theorem weekRuns_withDrop (itemId : String) :
    weekRuns "c1" (Date.isoString 378000000) (stamp 864000000) (withDrop itemId).db =
      [fireTemple, draupnir] := rfl

theorem amountsStored_withDrop (itemId : String) : AmountsStored (withDrop itemId).db := by
  intro t r hr
  cases t with
  | lootRun =>
      rcases List.mem_cons.mp hr with rfl | hr
      · exact ⟨1800, rfl⟩
      · obtain rfl := List.mem_singleton.mp hr
        exact ⟨3600, rfl⟩
  | lootRunDrop =>
      rcases List.mem_cons.mp hr with rfl | hr
      · exact ⟨2, rfl⟩
      · obtain rfl := List.mem_singleton.mp hr
        exact ⟨1, rfl⟩
  | lootRunCost =>
      obtain rfl := List.mem_singleton.mp hr
      exact ⟨isNatural_zero, 50, rfl⟩
  | economyPrice =>
      obtain rfl := List.mem_singleton.mp hr
      exact ⟨100, rfl⟩
  | _ => trivial

theorem distinct_withDrop (itemId : String) :
    schema.DistinctRows .lootRun ((withDrop itemId).db .lootRun) := by
  refine List.pairwise_cons.mpr ⟨fun r hr => ?_, List.pairwise_singleton _ fireTemple⟩
  obtain rfl := List.mem_singleton.mp hr
  rfl

/-- The report of the week. -/
theorem report_withDrop (itemId : String) (prices : Record Number)
    (h : latestPrices (withDrop itemId).db (some "Siel") (pricedItems
      (dropRows [fireTemple, draupnir] (withDrop itemId).db)
      (costRows [fireTemple, draupnir] (withDrop itemId).db)) = .ok prices) :
    (getLootWeeklyReport Exact (Host.iso (.fixed 0)) ⟨"c1", none, none⟩ 864000000
      (withDrop itemId)).1 = .ok (accountRuns (Host.iso (.fixed 0)) (some "Siel") (some 378000000)
        (Date.isoString 378000000) (stamp 864000000) ("09:00", Number.ofInt 1) [fireTemple, draupnir]
        (dropRows [fireTemple, draupnir] (withDrop itemId).db)
        (costRows [fireTemple, draupnir] (withDrop itemId).db) prices) := by
  let input : LootReportInput := ⟨"c1", none, none⟩
  have hresets : reportResets (withDrop itemId).db (trimmed input.server) =
      ("09:00", Number.ofInt 1) := rfl
  have htime : reportTime (Host.iso (.fixed 0)) input 864000000 = 864000000 := rfl
  have hstart : resolveWeeklyStartLocal (Host.iso (.fixed 0)).zone
      (reportTime (Host.iso (.fixed 0)) input 864000000)
      (reportResets (withDrop itemId).db (trimmed input.server)).1
      (reportResets (withDrop itemId).db (trimmed input.server)).2 = some 378000000 := by
    rw [hresets, htime]
    exact weeklyPeriodStart_eq (by decide) 1
  have hruns : weekRuns input.characterId (Date.isoString 378000000)
      (stamp (reportTime (Host.iso (.fixed 0)) input 864000000)) (withDrop itemId).db =
        [fireTemple, draupnir] := by
    rw [htime]
    exact weekRuns_withDrop itemId
  have hreport : (getLootWeeklyReport Exact (Host.iso (.fixed 0)) input 864000000
      (withDrop itemId)).1 = _ :=
    report_of_runs (by decide : input.characterId ≠ "") hstart hruns (List.cons_ne_nil _ _)
      (by decide : 2 ≤ maxVariables) h
  rw [hresets, htime] at hreport
  exact hreport

theorem plainRows_withDrop : PlainRows [draupnir, fireTemple]
    (dropsIn (withDrop "ore").db [draupnir, fireTemple])
    (costsIn (withDrop "ore").db [draupnir, fireTemple]) where
  runs := by decide +kernel
  drops := by decide +kernel
  costs := by decide +kernel

theorem ordinary_withDrop : Ordinary [draupnir, fireTemple]
    (dropsIn (withDrop "ore").db [draupnir, fireTemple])
    (costsIn (withDrop "ore").db [draupnir, fireTemple]) where
  runIds := by decide +kernel
  itemIds := by
    intro itemId hitem
    have hitems : itemId ∈ ["ore", "gem"] := mem_pricedItems.mpr hitem
    rcases List.mem_cons.mp hitems with rfl | hgem
    · decide
    · obtain rfl := List.mem_singleton.mp hgem
      decide

end Hub
