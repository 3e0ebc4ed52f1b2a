/-
Aion2Hub/Storage/Economy.lean

`domains/economy.ts`: items, prices, watches and the alerts that a new price
triggers.
-/
import Aion2Hub.Storage.Planner

def EconomyPriceWatchOp.compare (price : Number) (op : EconomyPriceWatchOp) (threshold : Number) : Bool :=
  match op with
  | .lt => Number.lt price threshold
  | .le => Number.le price threshold
  | .gt => Number.lt threshold price
  | .ge => Number.le threshold price

namespace Hub

open Sql

/-- `typeof s === "string" && s.trim() ? s.trim() : null`. -/
def trimmed (s : Option String) : Option String := nonEmpty (s.map Text.trim)

/-- A text that trimming leaves alone and that is not empty. -/
def Trimmed (s : String) : Prop := Text.trim s = s ∧ s ≠ ""

theorem trimmed_some {s : String} (h : Trimmed s) : trimmed (some s) = some s := by
  rw [trimmed, Option.map_some, h.1]
  exact Option.filter_some_pos (by simpa using h.2)

theorem trimmed_of_eq_some {o : Option String} {s : String} (h : trimmed o = some s) :
    Trimmed s := by
  obtain ⟨hs, hne⟩ := Option.filter_eq_some_iff.mp h
  obtain ⟨s₀, -, rfl⟩ := Option.map_eq_some_iff.mp hs
  exact ⟨Text.trim_trim s₀, by simpa using hne⟩

/-- `Number.isFinite(x) ? Math.max(0, Math.floor(x)) : 0`. -/
def amount (x : Number) : Number := if x.isFinite then Number.atLeast 0 (Number.floor x) else 0

/-- A non-negative integer. -/
def IsNatural (x : Number) : Prop := ∃ n : ℕ, x = .fin n

theorem IsNatural.isFinite {x : Number} (h : IsNatural x) : x.isFinite = true := by
  obtain ⟨n, rfl⟩ := h
  rfl

/-- `Math.max(0, Math.floor(x))` changes no non-negative integer. -/
theorem IsNatural.atLeast_floor {x : Number} (h : IsNatural x) :
    Number.atLeast 0 (Number.floor x) = x := by
  obtain ⟨n, rfl⟩ := h
  have hfloor : Number.floor (.fin n) = .fin n := by
    rw [Number.floor, Int.floor_natCast]
    simp
  rw [hfloor]
  refine if_neg fun hlt => ?_
  have hlt : (n : ℚ) < ((0 : ℕ) : ℚ) := of_decide_eq_true hlt
  exact absurd (Nat.cast_lt.mp hlt) (Nat.not_lt_zero n)

theorem isNatural_ofInt {n : ℤ} (h : 0 ≤ n) : IsNatural (.ofInt n) := by
  obtain ⟨k, rfl⟩ := Int.eq_ofNat_of_zero_le h
  exact ⟨k, congrArg Number.fin (Int.cast_natCast k)⟩

theorem isNatural_zero : IsNatural 0 := ⟨0, rfl⟩

/-- A finite number is a natural number once it is rounded down and cut off. -/
theorem isNatural_atLeast_floor {x : Number} (h : x.isFinite = true) :
    IsNatural (Number.atLeast 0 (Number.floor x)) := by
  rw [Number.atLeast_floor_of_finite h]
  exact isNatural_ofInt (le_max_left 0 _)

theorem isNatural_amount (x : Number) : IsNatural (amount x) := by
  rw [amount]
  split
  · rename_i h
    exact isNatural_atLeast_floor h
  · exact isNatural_zero

/-! ### Items -/

def upsertEconomyItemByName (name : String) (category note : Option String) (draw : Draw) :
    Prog EconomyItem := do
  let name ← Exec.ofOption "bad_request" (trimmed (some name))
  let existing ← schema.selectOne .economyItem fun r => r.name == name
  match existing.filter (·.id ≠ "") with
  | some item => do
      let next : EconomyItem :=
        { item with
          category := (trimmed category).orElse fun _ => item.category
          note := (trimmed note).orElse fun _ => item.note
          updatedAt := stamp draw.now }
      schema.update .economyItem (fun r => r.id == item.id) fun r =>
        { r with category := next.category, note := next.note, updatedAt := next.updatedAt }
      pure next
  | none => do
      let item : EconomyItem :=
        ⟨draw.id, name, trimmed category, trimmed note, stamp draw.now, stamp draw.now⟩
      schema.insert .abort .economyItem item
      pure item

def updateEconomyItem (id name : String) (category note : Option String) (now : ℤ) :
    Prog Unit := do
  let id ← Exec.ofOption "bad_request" (nonEmpty (some id))
  let name ← Exec.ofOption "bad_request" (trimmed (some name))
  schema.update .economyItem (fun r => r.id == id) fun r =>
    { r with
      name := name
      category := trimmed category
      note := trimmed note
      updatedAt := stamp now }

def deleteEconomyItem (itemId : String) : Prog Unit :=
  schema.delete .economyItem fun r => r.id == itemId

/-! ### Prices and alerts -/

structure PriceEvent where
  server : String
  itemId : String
  itemName : String
  price : Number
  triggeredAt : String

/-- The loop over the active watches: one alert for each that matches. -/
def insertAlerts (event : PriceEvent) (draws : ℕ → Draw) :
    List EconomyPriceWatch → List EconomyAlertEvent → Prog (List EconomyAlertEvent)
  | [], triggered => pure triggered
  | w :: ws, triggered =>
      if w.op.compare event.price w.threshold then do
        let alert : EconomyAlertEvent :=
          { id := (draws triggered.length).id
            server := event.server
            itemId := event.itemId
            itemName := event.itemName
            op := w.op
            threshold := w.threshold
            price := event.price
            triggeredAt := event.triggeredAt
            readAt := none }
        schema.insert .abort .economyAlertEvent alert
        insertAlerts event draws ws (triggered ++ [alert])
      else insertAlerts event draws ws triggered

def triggerWatchesForPrice (event : PriceEvent) (draws : ℕ → Draw) :
    Prog (List EconomyAlertEvent) := do
  let rows ← schema.selectBy .economyPriceWatch
    (fun w => w.server == event.server && w.itemId == event.itemId && w.active)
    (desc (·.createdAt) anyOrder)
  insertAlerts event draws rows []

structure PriceInput where
  server : String
  itemName : String
  price : Number
  recordedAt : Option String

/-- `draws 0` is the item's id, `draws 1` the price's, the others are for
alerts. -/
def addEconomyPrice (input : PriceInput) (draws : ℕ → Draw) :
    Prog (String × EconomyItem × List EconomyAlertEvent) := do
  let server ← Exec.ofOption "bad_request" (trimmed (some input.server))
  let item ← upsertEconomyItemByName input.itemName none none (draws 0)
  let now := (draws 1).now
  let recordedAt := (nonEmpty input.recordedAt).getD (stamp now)
  schema.insert .abort .economyPrice
    ⟨(draws 1).id, server, item.id, amount input.price, recordedAt, stamp now, stamp now⟩
  let triggered ← triggerWatchesForPrice
    ⟨server, item.id, item.name, amount input.price, recordedAt⟩ (fun i => draws (i + 2))
  pure ((draws 1).id, item, triggered)

/-! ### Watches -/

structure WatchInput where
  server : String
  itemName : String
  op : EconomyPriceWatchOp
  threshold : Number

def createEconomyWatch (input : WatchInput) (draws : ℕ → Draw) : Prog EconomyPriceWatch := do
  let server ← Exec.ofOption "bad_request" (trimmed (some input.server))
  let item ← upsertEconomyItemByName input.itemName none none (draws 0)
  let now := (draws 1).now
  let watch : EconomyPriceWatch :=
    ⟨(draws 1).id, server, item.id, input.op, amount input.threshold, true, stamp now, stamp now⟩
  schema.insert .abort .economyPriceWatch watch
  pure watch

def setEconomyWatchActive (id : String) (active : Bool) (now : ℤ) : Prog Unit := do
  let id ← Exec.ofOption "bad_request" (nonEmpty (some id))
  schema.update .economyPriceWatch (fun r => r.id == id) fun r =>
    { r with active := active, updatedAt := stamp now }

def deleteEconomyWatch (watchId : String) : Prog Unit :=
  schema.delete .economyPriceWatch fun r => r.id == watchId

def markEconomyAlertRead (id : String) (now : ℤ) : Prog Unit := do
  let id ← Exec.ofOption "bad_request" (nonEmpty (some id))
  schema.update .economyAlertEvent (fun r => r.id == id) fun r =>
    { r with readAt := some (stamp now) }

end Hub
