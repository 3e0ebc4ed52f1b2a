/-
Aion2Hub/Loot/Passes.lean

The passes of a weekly loot report, as sums: the two tallies are sums over the
drops and over the costs, run by run; the totals are sums over the runs, and so
are the rows, content by content (`Lib/Totals`).
-/
import Aion2Hub.Lib.Totals
import Aion2Hub.Loot.Report

/-! ### Exact sums -/

namespace Exact

theorem sum_rat {ι : Type} (f : ι → ℚ) (l : List ι) :
    (l.map fun i => rat (f i)).sum = rat (l.map f).sum := by
  induction l with
  | nil => rfl
  | cons i l ih => rw [List.map_cons, List.sum_cons, ih, List.map_cons, List.sum_cons, rat_add]

/-- One amount that is no number spoils a sum. -/
theorem sum_eq_nan {l : List Exact} (h : nan ∈ l) : l.sum = nan := by
  induction l with
  | nil => exact absurd h List.not_mem_nil
  | cons x l ih =>
      rw [List.sum_cons]
      rcases List.mem_cons.mp h with rfl | hrest
      · exact nan_add _
      · rw [ih hrest, add_nan]

theorem sub_add_sub (a b x y : Exact) : a - b + (x - y) = a + x - (b + y) := by
  cases a <;> cases b <;> cases x <;> cases y <;> try rfl
  exact congrArg rat (by ring)

end Exact
namespace Hub

open Sql Exec

/-! ### Amounts by run -/

/-- What the program adds for a drop. -/
def dropAmount (price : String → Lookup Number) (d : LootRunDrop) : Exact :=
  ((nonEmpty d.itemId).bind fun itemId => priced d.qty (price itemId)).getD 0

/-- What the program adds for a cost. -/
def costAmount (price : String → Lookup Number) (c : LootRunCost) : Exact :=
  match c.kind with
  | .kinah => Arithmetic.ofNumber (Number.atLeast 0 (Number.floor c.kinah))
  | .item => ((nonEmpty c.itemId).bind fun itemId => priced c.qty (price itemId)).getD 0

/-- The item that a cost needs a price for. -/
def costItem (c : LootRunCost) : Option String :=
  match c.kind with
  | .kinah => none
  | .item => nonEmpty c.itemId

/-- An item, if it has no price. -/
def unpriced (price : String → Lookup Number) (item : Option String) : Option String :=
  item.bind fun itemId =>
    match price itemId with
    | .undefined => some itemId
    | _ => none

theorem costItem_eq_some {c : LootRunCost} {itemId : String} :
    costItem c = some itemId ↔ c.kind = .item ∧ nonEmpty c.itemId = some itemId := by
  rw [costItem]
  cases c.kind <;> simp

section

variable {price : String → Lookup Number}

theorem amounts_add (t : Tally Exact) (runId : String) (x : Exact) (id : String) :
    (t.add runId x).amounts id = t.amounts id + if runId = id then x else 0 := by
  show (if id = runId then t.amounts id + x else t.amounts id) = _
  by_cases h : id = runId
  · rw [if_pos h, if_pos h.symm]
  · rw [if_neg h, if_neg (Ne.symm h), add_zero]

/-- The amount of a run after a list has been tallied. -/
theorem amounts_foldl {ι : Type} {step : Tally Exact → ι → Tally Exact} {key : ι → String}
    {g : ι → Exact}
    (hstep : ∀ t i id, (step t i).amounts id = t.amounts id + if key i = id then g i else 0)
    (l : List ι) (t : Tally Exact) (id : String) :
    (l.foldl step t).amounts id = t.amounts id + groupSum key g id l := by
  induction l generalizing t with
  | nil => exact (add_zero _).symm
  | cons i l ih =>
      rw [List.foldl_cons, ih, hstep, add_assoc]
      congr 1
      by_cases h : key i = id
      · rw [if_pos h, groupSum_cons_of_eq h]
      · rw [if_neg h, groupSum_cons_of_ne h, zero_add]

theorem amounts_tallyDrop (t : Tally Exact) (d : LootRunDrop) (id : String) :
    (tallyDrop price t d).amounts id = t.amounts id + if d.runId = id then dropAmount price d else 0 := by
  rw [tallyDrop, dropAmount]
  cases nonEmpty d.itemId with
  | none => simp
  | some itemId =>
      cases h : (priced d.qty (price itemId) : Option Exact) with
      | none => simp [Tally.addItem, h]
      | some x => simpa [Tally.addItem, h] using amounts_add t d.runId x id

theorem amounts_tallyCost (t : Tally Exact) (c : LootRunCost) (id : String) :
    (tallyCost price t c).amounts id = t.amounts id + if c.runId = id then costAmount price c else 0 := by
  rw [tallyCost, costAmount]
  cases c.kind with
  | kinah => exact amounts_add t c.runId _ id
  | item =>
      cases nonEmpty c.itemId with
      | none => simp
      | some itemId =>
          cases h : (priced c.qty (price itemId) : Option Exact) with
          | none => simp [Tally.addItem, h]
          | some x => simpa [Tally.addItem, h] using amounts_add t c.runId x id

/-! ### Items without a price -/

variable (price) in
theorem missing_tallyDrop (t : Tally Exact) (d : LootRunDrop) : (tallyDrop price t d).missing =
    (unpriced price (nonEmpty d.itemId)).elim t.missing (setAdd t.missing) := by
  rw [tallyDrop, unpriced]
  cases nonEmpty d.itemId with
  | none => rfl
  | some itemId =>
      show (t.addItem d.runId itemId (priced d.qty (price itemId))).missing = _
      rw [Option.bind_some]
      cases price itemId <;> rfl

variable (price) in
theorem missing_tallyCost (t : Tally Exact) (c : LootRunCost) : (tallyCost price t c).missing =
    (unpriced price (costItem c)).elim t.missing (setAdd t.missing) := by
  rw [tallyCost, costItem, unpriced]
  cases c.kind with
  | kinah => rfl
  | item =>
      dsimp only
      cases nonEmpty c.itemId with
      | none => rfl
      | some itemId =>
          show (t.addItem c.runId itemId (priced c.qty (price itemId))).missing = _
          rw [Option.bind_some]
          cases price itemId <;> rfl

theorem missing_foldl {ι : Type} {step : Tally Exact → ι → Tally Exact} {item : ι → Option String}
    (hstep : ∀ t i, (step t i).missing = (item i).elim t.missing (setAdd t.missing)) (l : List ι)
    (t : Tally Exact) : (l.foldl step t).missing = (l.filterMap item).foldl setAdd t.missing := by
  induction l generalizing t with
  | nil => rfl
  | cons i l ih =>
      rw [List.foldl_cons, ih, hstep]
      cases h : item i with
      | none => rw [List.filterMap_cons_none h, Option.elim_none]
      | some itemId => rw [List.filterMap_cons_some h, Option.elim_some, List.foldl_cons]

variable (price) in
/-- The two tallies, as sums over the drops and over the costs. -/
theorem tallies_eq (drops : List LootRunDrop) (costs : List LootRunCost) :
    (∀ id, (tallies price drops costs : Tally Exact × Tally Exact).1.amounts id =
      groupSum (·.runId) (dropAmount price) id drops) ∧
    (∀ id, (tallies price drops costs : Tally Exact × Tally Exact).2.amounts id =
      groupSum (·.runId) (costAmount price) id costs) ∧
    (tallies price drops costs : Tally Exact × Tally Exact).2.missing =
      unique (drops.filterMap (fun d => unpriced price (nonEmpty d.itemId)) ++
        costs.filterMap fun c => unpriced price (costItem c)) := by
  refine ⟨fun id => ?_, fun id => ?_, ?_⟩
  · exact (amounts_foldl amounts_tallyDrop drops _ id).trans (zero_add _)
  · exact (amounts_foldl amounts_tallyCost costs _ id).trans (zero_add _)
  · rw [unique, List.foldl_append]
    have hdrops := missing_foldl (missing_tallyDrop price) drops ⟨fun _ => 0, []⟩
    have hcosts := missing_foldl (missing_tallyCost price) costs
      (⟨fun _ => 0, (drops.foldl (tallyDrop price) ⟨fun _ => 0, []⟩ : Tally Exact).missing⟩ : Tally Exact)
    exact hcosts.trans (congrArg (fun missing => List.foldl setAdd missing _) hdrops)

end

/-! ### Totals -/

instance : Add (LootTotals Exact) where
  add s t := ⟨s.runs + t.runs, s.seconds + t.seconds, s.value + t.value, s.cost + t.cost⟩

instance : Zero (LootTotals Exact) where
  zero := LootTotals.zero

theorem LootTotals.add_eq (s t : LootTotals Exact) : s + t =
    ⟨s.runs + t.runs, s.seconds + t.seconds, s.value + t.value, s.cost + t.cost⟩ := rfl

instance : AddCommMonoid (LootTotals Exact) where
  add_assoc s t u := by
    simp only [LootTotals.add_eq, add_assoc]
  zero_add t := by
    show LootTotals.mk (0 + t.runs) (0 + t.seconds) (0 + t.value) (0 + t.cost) = t
    simp only [zero_add]
  add_zero t := by
    show LootTotals.mk (t.runs + 0) (t.seconds + 0) (t.value + 0) (t.cost + 0) = t
    simp only [add_zero]
  add_comm s t := by
    simp only [LootTotals.add_eq, add_comm]
  nsmul := nsmulRec

/-- What one run adds to the totals. -/
def runTotals (value cost : String → Exact) (r : LootRun) : LootTotals Exact :=
  ⟨1, Arithmetic.ofNumber r.seconds, value r.id, cost r.id⟩

section

variable {value cost : String → Exact}

theorem countContent_eq (content : String) (seconds value cost : Exact)
    (totals : List (String × LootTotals Exact)) :
    countContent content seconds value cost totals = addTo content ⟨1, seconds, value, cost⟩ totals := by
  induction totals with
  | nil => rfl
  | cons p totals ih =>
      rw [countContent, addTo, ih]
      rfl

theorem countRuns_eq (runs : List LootRun) : countRuns value cost runs =
    ((runs.map (runTotals value cost)).sum,
      addAll [] (runs.map fun r => (r.content, runTotals value cost r))) := by
  have hloop : ∀ acc : LootTotals Exact × List (String × LootTotals Exact), (runs.foldl (fun acc r =>
      (acc.1.count (Arithmetic.ofNumber r.seconds) (value r.id) (cost r.id),
        countContent r.content (Arithmetic.ofNumber r.seconds) (value r.id) (cost r.id) acc.2)) acc) =
      (acc.1 + (runs.map (runTotals value cost)).sum,
        addAll acc.2 (runs.map fun r => (r.content, runTotals value cost r))) := by
    induction runs with
    | nil =>
        intro acc
        rw [List.map_nil, List.sum_nil, add_zero]
        rfl
    | cons r runs ih =>
        intro acc
        rw [List.foldl_cons, ih, countContent_eq, List.map_cons, List.sum_cons, ← add_assoc]
        rfl
  rw [countRuns, hloop, ← show (0 : LootTotals Exact) = LootTotals.zero from rfl, zero_add]

theorem sum_runTotals (runs : List LootRun) : (runs.map (runTotals value cost)).sum =
    ⟨runs.length, (runs.map fun r => Arithmetic.ofNumber r.seconds).sum,
      (runs.map fun r => value r.id).sum, (runs.map fun r => cost r.id).sum⟩ := by
  induction runs with
  | nil => rfl
  | cons r runs ih =>
      rw [List.map_cons, List.sum_cons, ih]
      show LootTotals.mk (1 + runs.length) _ _ _ = _
      rw [Nat.add_comm, List.length_cons, List.map_cons, List.map_cons, List.map_cons, List.sum_cons,
        List.sum_cons, List.sum_cons]
      rfl

end

/-- A total of totals, field by field. -/
theorem sum_field {M : Type} [AddMonoid M] {f : LootTotals Exact → M} (hzero : f 0 = 0)
    (hadd : ∀ s t, f (s + t) = f s + f t) (l : List (LootTotals Exact)) :
    f l.sum = (l.map f).sum := by
  induction l with
  | nil => exact hzero
  | cons t l ih => rw [List.sum_cons, hadd, ih, List.map_cons, List.sum_cons]

/-! ### Rows -/

/-- The number that a row is sorted by. -/
def netOf (row : LootReportRow Exact) : ℚ :=
  match row.net with
  | .rat q => q
  | .nan => 0

/-- Rows with a number for their net are sorted by it, the largest first. -/
theorem sorted_rows {rows : List (LootReportRow Exact)} (h : ∀ row ∈ rows, ∃ q : ℚ, row.net = .rat q) :
    (rows.insertionSort netDescending).Pairwise fun a b =>
      ∃ x y : ℚ, a.net = .rat x ∧ b.net = .rat y ∧ y ≤ x := by
  have hnet : ∀ row ∈ rows, row.net = .rat (netOf row) := by
    intro row hrow
    obtain ⟨q, hq⟩ := h row hrow
    rw [netOf, hq]
  have hcompare : ∀ a ∈ rows, ∀ b ∈ rows, netDescending a b ↔ netOf a ≥ netOf b := by
    intro a ha b hb
    rw [netDescending, hnet a ha, hnet b hb, Exact.rat_sub]
    show decide ((0 : ℚ) < netOf b - netOf a) = false ↔ _
    rw [decide_eq_false_iff_not, sub_pos, not_lt]
  have hsorted : ((rows.insertionSort netDescending).map netOf).Pairwise (· ≥ ·) := by
    rw [List.map_insertionSort netDescending (· ≥ ·) netOf rows hcompare]
    exact List.pairwise_insertionSort _ _
  apply (List.pairwise_map.mp hsorted).imp_of_mem
  intro a b ha hb hle
  exact ⟨netOf a, netOf b, hnet a ((List.mem_insertionSort _).mp ha),
    hnet b ((List.mem_insertionSort _).mp hb), hle⟩

section

variable (value cost : String → Exact) (runs : List LootRun)

theorem totalsOf_countRuns : TotalsOf (runs.map fun r => (r.content, runTotals value cost r))
    (countRuns value cost runs).2 := by
  rw [countRuns_eq]
  exact TotalsOf.nil.append _

/-- The totals of a content are those of its runs. -/
theorem total_of_content {p : String × LootTotals Exact} (hp : p ∈ (countRuns value cost runs).2) :
    p.2 = ((runs.filter fun r => r.content = p.1).map (runTotals value cost)).sum := by
  rw [(totalsOf_countRuns value cost runs).total p hp, groupSum, List.filter_map, List.map_map]
  rfl

variable {value cost runs}

/-- The rows of a report, before they are sorted. -/
def rowsOf (perContent : List (String × LootTotals Exact)) : List (LootReportRow Exact) :=
  perContent.map fun kv => reportRow kv.1 kv.2

theorem mem_rows {row : LootReportRow Exact}
    (hrow : row ∈ (rowsOf (countRuns value cost runs).2).insertionSort netDescending) :
    row = reportRow row.content
      ((runs.filter fun r => r.content = row.content).map (runTotals value cost)).sum := by
  obtain ⟨p, hp, rfl⟩ := List.mem_map.mp ((List.mem_insertionSort _).mp hrow)
  exact congrArg (reportRow p.1) (total_of_content value cost runs hp)

variable (value cost runs)

/-- A total is the sum over the rows. -/
theorem sum_rows {M : Type} [AddCommMonoid M] {f : LootTotals Exact → M} (hzero : f 0 = 0)
    (hadd : ∀ s t, f (s + t) = f s + f t) {g : LootReportRow Exact → M}
    (hg : ∀ content t, g (reportRow content t) = f t) :
    f (countRuns value cost runs).1 =
      (((rowsOf (countRuns value cost runs).2).insertionSort netDescending).map g).sum := by
  have hall : (countRuns value cost runs).1 = ((countRuns value cost runs).2.map Prod.snd).sum := by
    rw [(totalsOf_countRuns value cost runs).sum_eq, List.map_map, countRuns_eq]
    rfl
  calc f (countRuns value cost runs).1
      = (((countRuns value cost runs).2.map Prod.snd).map f).sum := by
        rw [hall]
        exact sum_field hzero hadd _
    _ = ((rowsOf (countRuns value cost runs).2).map g).sum := by
        rw [rowsOf, List.map_map, List.map_map]
        apply congrArg List.sum
        apply List.map_congr_left
        intro p hp
        exact (hg p.1 p.2).symm
    _ = _ := ((List.perm_insertionSort _ _).map g).sum_eq.symm

/-- The contents of the rows. -/
theorem contents_perm :
    (((rowsOf (countRuns value cost runs).2).insertionSort netDescending).map (·.content)).Perm
      ((countRuns value cost runs).2.map Prod.fst) := by
  have hperm := (List.perm_insertionSort netDescending (rowsOf (countRuns value cost runs).2)).map
    (·.content)
  rw [rowsOf, List.map_map] at hperm
  exact hperm

end

end Hub
