/-
Aion2Hub/Storage/Loot.lean

The part of `domains/loot.ts` that writes: a run is recorded with its drops
and costs in one transaction.

The `i`-th drop draws its item's id as `dropDraws i 0` and its own as
`dropDraws i 1`; costs draw in the same way.
-/
import Aion2Hub.Storage.Economy

namespace Hub

open Sql

structure DropInput where
  itemName : Option String
  qty : Option Number
  note : Option String

structure CostInput where
  kind : LootRunCostKind
  kinah : Option Number
  itemName : Option String
  qty : Option Number
  note : Option String

structure LootRunInput where
  characterId : String
  content : String
  role : Option String
  powerBracket : Option String
  startedAt : Option String
  endedAt : Option String
  seconds : Option Number
  drops : List DropInput
  costs : List CostInput

/-- `typeof x === "number" && Number.isFinite(x) ? Math.max(0, Math.floor(x)) : 0`. -/
def quantity (x : Option Number) : Number := (x.map amount).getD 0

/-- The length of a run: as given, or between its two times, or 0. -/
def runSeconds (host : Host) (seconds : Option Number) (startedAt : Option String)
    (endedAt : String) : Number :=
  match seconds.filter Number.isFinite with
  | some x => amount x
  | none =>
      match startedAt.bind host.parseDate, host.parseDate endedAt with
      | some s, some e =>
          Number.atLeast 0 (Number.floor (Number.div (Number.sub (.ofInt e) (.ofInt s)) 1000))
      | _, _ => 0

theorem isNatural_quantity (x : Option Number) : IsNatural (quantity x) := by
  cases x with
  | none => exact isNatural_zero
  | some x => exact isNatural_amount x

/-- The time between two dates is finite. -/
theorem isNatural_runSeconds (host : Host) (seconds : Option Number) (startedAt : Option String)
    (endedAt : String) : IsNatural (runSeconds host seconds startedAt endedAt) := by
  rw [runSeconds]
  split
  · exact isNatural_amount _
  split
  · rename_i s e hs he
    obtain ⟨started, -, hstarted⟩ := Option.bind_eq_some_iff.mp hs
    have hs' := host.parse_valid _ _ hstarted
    have he' := host.parse_valid _ _ he
    have hlt : |(e : ℚ) + -(s : ℚ)| < 2 ^ 55 := by
      have hint : |e + -s| < 2 ^ 55 := by
        rw [Date.Valid, Date.maxTime, abs_le] at hs' he'
        rw [abs_lt]
        omega
      exact_mod_cast hint
    obtain ⟨x, hx, hxle⟩ := Number.toDouble_le_pow hlt (by norm_num) (by norm_num)
    have hxlt : |x / 1000| < 2 ^ 55 := by
      rw [abs_div, abs_of_pos (by norm_num : (0 : ℚ) < 1000), div_lt_iff₀ (by norm_num)]
      exact hxle.trans_lt (by norm_num)
    obtain ⟨y, hy, -⟩ := Number.toDouble_le_pow hxlt (by norm_num) (by norm_num)
    have hfinite : (Number.div (Number.sub (.ofInt e) (.ofInt s)) 1000).isFinite = true := by
      show (Number.div (Number.toDouble ((e : ℚ) + -(s : ℚ))) (.fin 1000)).isFinite = true
      rw [hx]
      show (if (1000 : ℚ) = 0 then Number.infOf x else Number.toDouble (x / 1000)).isFinite = true
      rw [if_neg (by norm_num), hy]
      rfl
    exact isNatural_atLeast_floor hfinite
  · exact isNatural_zero

/-- One round of the loop over the drops. -/
def insertDrop (runId : String) (now : ℤ) (d : DropInput) (draws : ℕ → Draw) : Prog Unit :=
  match trimmed d.itemName with
  | none => pure ()
  | some name =>
      if Number.le (quantity d.qty) 0 then pure ()
      else do
        let item ← upsertEconomyItemByName name none none (draws 0)
        schema.insert .abort .lootRunDrop
          ⟨(draws 1).id, runId, some item.id, item.name, quantity d.qty, trimmed d.note, stamp now,
            stamp now⟩

/-- One round of the loop over the costs. -/
def insertCost (runId : String) (now : ℤ) (c : CostInput) (draws : ℕ → Draw) : Prog Unit :=
  match c.kind with
  | .kinah =>
      if Number.le (quantity c.kinah) 0 then pure ()
      else schema.insert .abort .lootRunCost
        ⟨(draws 1).id, runId, .kinah, none, none, 0, quantity c.kinah, trimmed c.note, stamp now,
          stamp now⟩
  | .item =>
      match trimmed c.itemName with
      | none => pure ()
      | some name =>
          if Number.le (quantity c.qty) 0 then pure ()
          else do
            let item ← upsertEconomyItemByName name none none (draws 0)
            schema.insert .abort .lootRunCost
              ⟨(draws 1).id, runId, .item, some item.id, some item.name, quantity c.qty, 0,
                trimmed c.note, stamp now, stamp now⟩

/-- The message when a rollback fails as well. -/
def criticalMessage (action original rollback : String) : String :=
  "CRITICAL: " ++ action ++ " failed and rollback failed; DB may be corrupted. original=\"" ++
    original ++ "\" rollback=\"" ++ rollback ++ "\""

def createLootRun (host : Host) (input : LootRunInput) (draw : Draw)
    (dropDraws costDraws : ℕ → ℕ → Draw) : Prog String := do
  let characterId ← Exec.ofOption "bad_request" (nonEmpty (some input.characterId))
  let content ← Exec.ofOption "bad_request" (trimmed (some input.content))
  let character ← schema.selectOne .appCharacter fun r => r.id == characterId
  let character ← Exec.ofOption "no_character" (character.filter (·.id ≠ ""))
  let endedAt := (nonEmpty input.endedAt).getD (stamp draw.now)
  let startedAt := nonEmpty input.startedAt
  atomically (criticalMessage "loot run create") do
    schema.insert .abort .lootRun
      { id := draw.id
        characterId := characterId
        server := character.server
        content := content
        role := trimmed input.role
        powerBracket := trimmed input.powerBracket
        startedAt := startedAt
        endedAt := some endedAt
        seconds := runSeconds host input.seconds startedAt endedAt
        createdAt := stamp draw.now
        updatedAt := stamp draw.now }
    Exec.forEach input.drops.zipIdx fun d => insertDrop draw.id draw.now d.1 (dropDraws d.2)
    Exec.forEach input.costs.zipIdx fun c => insertCost draw.id draw.now c.1 (costDraws c.2)
  pure draw.id

def deleteLootRun (id characterId : String) : Prog Unit := do
  let id ← Exec.ofOption "bad_request" (nonEmpty (some id))
  let characterId ← Exec.ofOption "bad_request" (nonEmpty (some characterId))
  schema.delete .lootRun fun r => r.id == id && r.characterId == characterId

end Hub
