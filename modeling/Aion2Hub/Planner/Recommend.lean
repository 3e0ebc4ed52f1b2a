/-
Aion2Hub/Planner/Recommend.lean

What to do in the time that is left: `recommendPlannerItems` of the desktop
and `recommendForBudget` of the web planner.

Both sort the candidates by their estimates and take whatever still fits, the
one by the sum so far and the other by the time that remains.  Both are
`Greedy.pick`, as long as their arithmetic is exact: the minutes of the desktop
are whole numbers between 1 and 240, while the seconds of the web can be any
fractions, and a subtraction can round.

Main results: the picks of the desktop are the best possible
(`recommends_recommendPlannerItems`), and so are those of the web where no
difference is rounded (`recommends_recommendForBudget`), as for whole seconds
(`exactBudget_of_whole`).
-/
import Aion2Hub.Lib.Greedy
import Aion2Hub.Lib.Js

namespace Hub

open Greedy

/-- The order of the comparator `f(a) - f(b)`: `a` may stay before `b` unless
the difference is positive. -/
def ascending {ι : Type} (f : ι → Number) (a b : ι) : Prop := Number.lt (f b) (f a) = false

instance {ι : Type} (f : ι → Number) : DecidableRel (ascending f) :=
  fun a b => inferInstanceAs (Decidable (Number.lt (f b) (f a) = false))

/-! ### Minutes: the desktop -/

structure PlannerRecommendItem where
  templateId : String
  estimateMinutes : Number

inductive RecommendSource where
  | avg
  | estimate
  deriving DecidableEq

structure PlannerRecommendPick where
  templateId : String
  estimateMinutes : Number
  source : RecommendSource
  deriving DecidableEq

/-- `Math.min(240, Math.max(1, Math.round(x)))`. -/
def clampMinutes (x : Number) : Number := Number.atMost 240 (Number.atLeast 1 (Number.round x))

/-- The average, if it is finite and positive, or the estimate; five minutes
stand for an estimate that is missing or not positive. -/
def recommendCandidate (avgSeconds : Option Number) (it : PlannerRecommendItem) :
    PlannerRecommendPick :=
  match avgSeconds.filter fun s => s.isFinite && Number.lt 0 s with
  | some s => ⟨it.templateId, clampMinutes (Number.div s 60), .avg⟩
  | none =>
      let base := if it.estimateMinutes.isFinite then it.estimateMinutes else 0
      ⟨it.templateId, clampMinutes (if Number.le base 0 then 5 else base), .estimate⟩

/-- One round of the loop over the ordered candidates. -/
def recommendStep (budgetMinutes : Number) (acc : List PlannerRecommendPick × Number)
    (it : PlannerRecommendPick) : List PlannerRecommendPick × Number :=
  if Number.lt budgetMinutes (Number.add acc.2 it.estimateMinutes) then acc
  else (acc.1 ++ [it], Number.add acc.2 it.estimateMinutes)

structure PlannerRecommendation where
  picked : List PlannerRecommendPick
  totalMinutes : Number
  deriving DecidableEq

def recommendCandidates (items : List PlannerRecommendItem)
    (avgSecondsByTemplateId : String → Option Number) : List PlannerRecommendPick :=
  items.map fun it => recommendCandidate (avgSecondsByTemplateId it.templateId) it

/-- `[...candidates].sort((a, b) => a.estimateMinutes - b.estimateMinutes)`. -/
def byMinutes (candidates : List PlannerRecommendPick) : List PlannerRecommendPick :=
  candidates.insertionSort (ascending (·.estimateMinutes))

def recommendPlannerItems (budgetMinutes : Number) (items : List PlannerRecommendItem)
    (avgSecondsByTemplateId : String → Option Number) : PlannerRecommendation :=
  let budgetMinutes := Number.atLeast 0 (Number.floor budgetMinutes)
  let ordered := byMinutes (recommendCandidates items avgSecondsByTemplateId)
  let res := ordered.foldl (recommendStep budgetMinutes) ([], 0)
  ⟨res.1, res.2⟩

/-! ### Seconds: the web -/

structure RecommendCandidate where
  id : String
  estimatedSeconds : Number
  deriving DecidableEq

structure RecommendResult where
  selected : List RecommendCandidate
  totalSeconds : Number
  remainingSeconds : Number
  deriving DecidableEq

/-- The candidates with a finite and positive estimate. -/
def estimated (candidates : List RecommendCandidate) : List RecommendCandidate :=
  candidates.filter fun c => c.estimatedSeconds.isFinite && Number.lt 0 c.estimatedSeconds

/-- `.sort((a, b) => a.estimatedSeconds - b.estimatedSeconds)`. -/
def bySeconds (candidates : List RecommendCandidate) : List RecommendCandidate :=
  candidates.insertionSort (ascending (·.estimatedSeconds))

/-- One round of the loop: the selection so far, and the seconds that remain. -/
def selectStep (acc : List RecommendCandidate × Number) (candidate : RecommendCandidate) :
    List RecommendCandidate × Number :=
  if Number.le candidate.estimatedSeconds acc.2 then
    (acc.1 ++ [candidate], Number.sub acc.2 candidate.estimatedSeconds)
  else acc

def recommendForBudget (candidates : List RecommendCandidate) (budgetSeconds : Number) :
    RecommendResult :=
  let sorted := bySeconds (estimated candidates)
  let res := sorted.foldl selectStep ([], Number.atLeast 0 budgetSeconds)
  ⟨res.1, Number.sub budgetSeconds res.2, res.2⟩

/-! ### The goal -/

/-- The sum is within the budget. -/
def within (budget : Number) (sum : ℚ) : Bool := Number.le (.fin sum) budget

/-- The estimates are finite, the picks are a best choice within the budget,
and their sum is what is reported. -/
structure Recommends {ι : Type} (estimate : ι → Number) (budget : Number) (candidates picked : List ι)
    (reported : Number) : Prop where
  finite : ∀ c ∈ candidates, (estimate c).isFinite = true
  best : Best (fun c => (estimate c).value) (within budget) candidates picked
  reported : reported = .fin (total (fun c => (estimate c).value) picked)

section

variable {ι : Type} {estimate : ι → Number} {l : List ι} {budget : Number}

/-- Sorting by finite estimates sorts by their values. -/
theorem pairwise_ascending (h : ∀ c ∈ l, (estimate c).isFinite = true) :
    (l.insertionSort (ascending estimate)).Pairwise fun a b =>
      (estimate a).value ≤ (estimate b).value := by
  have hrel : ∀ a ∈ l, ∀ b ∈ l,
      ascending estimate a b ↔ (estimate a).value ≤ (estimate b).value := by
    intro a ha b hb
    unfold ascending
    rw [Number.eq_value (h a ha), Number.eq_value (h b hb), ← Bool.not_eq_true, Number.lt_fin_iff,
      not_lt]
    rfl
  have hmap := List.map_insertionSort (ascending estimate) (· ≤ ·) (fun c => (estimate c).value) l hrel
  have hsorted := List.pairwise_insertionSort (· ≤ ·) (l.map fun c => (estimate c).value)
  rw [← hmap] at hsorted
  exact List.pairwise_map.mp hsorted

theorem within_mono {x y : ℚ} (hxy : x ≤ y) (hy : within budget y = true) :
    within budget x = true := by
  cases budget with
  | fin b => exact Number.le_fin_iff.mpr (hxy.trans (Number.le_fin_iff.mp hy))
  | posInf => rfl
  | negInf => cases hy
  | nan => cases hy

end

/-! ### The desktop -/

/-- A clamped number of minutes is whole. -/
def WholeMinutes (x : Number) : Prop := ∃ m : ℤ, 1 ≤ m ∧ m ≤ 240 ∧ x = .ofInt m

theorem wholeMinutes_clampMinutes {x : Number} (hx : x ≠ .nan) : WholeMinutes (clampMinutes x) := by
  cases x with
  | nan => exact absurd rfl hx
  | posInf => exact ⟨240, by norm_num, le_rfl, rfl⟩
  | negInf => exact ⟨1, le_rfl, by norm_num, rfl⟩
  | fin q =>
      refine ⟨min 240 (max 1 ⌊q + 1 / 2⌋), by omega, by omega, ?_⟩
      show Number.atMost (.ofInt 240) (Number.atLeast (.ofInt 1) (.ofInt ⌊q + 1 / 2⌋)) = _
      rw [Number.atLeast_ofInt, Number.atMost_ofInt]

theorem wholeMinutes_recommendCandidate (avgSeconds : Option Number) (it : PlannerRecommendItem) :
    WholeMinutes (recommendCandidate avgSeconds it).estimateMinutes := by
  unfold recommendCandidate
  split
  · rename_i s hs
    apply wholeMinutes_clampMinutes
    obtain ⟨-, hfin⟩ := Option.filter_eq_some_iff.mp hs
    have hs : s = .fin s.value := Number.eq_value (Bool.and_eq_true_iff.mp hfin).1
    rw [hs]
    have hsixty : ¬ (60 : ℚ) = 0 := by norm_num
    show (if (60 : ℚ) = 0 then Number.infOf s.value else Number.toDouble (s.value / 60)) ≠ .nan
    rw [if_neg hsixty]
    exact Number.toDouble_ne_nan _
  · apply wholeMinutes_clampMinutes
    have hbase : (if it.estimateMinutes.isFinite = true then it.estimateMinutes else 0) ≠ .nan := by
      split
      · rename_i hfin
        rw [Number.eq_value hfin]
        nofun
      · nofun
    generalize (if it.estimateMinutes.isFinite = true then it.estimateMinutes else 0) = base at hbase
    split
    · nofun
    · exact hbase

/-- A sum of minutes is a whole number, and not too large for a double. -/
theorem total_minutes {l : List PlannerRecommendPick} (h : ∀ c ∈ l, WholeMinutes c.estimateMinutes) :
    ∃ n : ℤ, 0 ≤ n ∧ n ≤ 240 * l.length ∧ total (fun c => c.estimateMinutes.value) l = n := by
  induction l with
  | nil => exact ⟨0, le_rfl, by simp, by simp⟩
  | cons c l ih =>
      obtain ⟨m, hm, hm', heq⟩ := h c List.mem_cons_self
      obtain ⟨n, hn, hn', htotal⟩ := ih fun d hd => h d (List.mem_cons_of_mem c hd)
      refine ⟨m + n, by omega, ?_, ?_⟩
      · rw [List.length_cons]
        push_cast
        omega
      · rw [total_cons, htotal, heq, Int.cast_add]
        rfl

theorem lt_floor_budget {budget : Number} (h : Number.le 0 budget = true) (n : ℤ) :
    Number.lt (Number.atLeast 0 (Number.floor budget)) (.ofInt n) = !within budget n := by
  cases budget with
  | fin b =>
      have hb : 0 ≤ b := Number.le_fin_iff.mp h
      show Number.lt (Number.atLeast (.ofInt 0) (.ofInt ⌊b⌋)) (.ofInt n) = _
      rw [Number.atLeast_ofInt, max_eq_right (Int.floor_nonneg.mpr hb), Bool.eq_iff_iff,
        Bool.not_eq_true']
      show Number.lt (.fin ⌊b⌋) (.fin n) = true ↔ Number.le (.fin n) (.fin b) = false
      rw [Number.lt_fin_iff, Number.le_fin_eq_false_iff, Int.cast_lt, Int.floor_lt]
  | posInf => rfl
  | negInf => cases h
  | nan => cases h

/-- One round of the loop takes a candidate that is within the budget. -/
theorem recommendStep_eq {budget : Number} (hbudget : Number.le 0 budget = true)
    {picked : List PlannerRecommendPick} {it : PlannerRecommendPick} {n : ℤ}
    (hit : WholeMinutes it.estimateMinutes) (hn : 0 ≤ n) (hn' : n + 240 ≤ 2 ^ 53) :
    recommendStep (Number.atLeast 0 (Number.floor budget)) (picked, .fin n) it =
      if within budget (n + it.estimateMinutes.value) then
        (picked ++ [it], .fin (n + it.estimateMinutes.value))
      else (picked, .fin n) := by
  obtain ⟨m, hm, hm', heq⟩ := hit
  have hadd : Number.add (.fin n) it.estimateMinutes = .ofInt (n + m) := by
    rw [heq]
    exact Number.add_ofInt (abs_le.mpr ⟨by omega, by omega⟩)
  have hval : (n : ℚ) + it.estimateMinutes.value = ((n + m : ℤ) : ℚ) := by
    rw [heq, Int.cast_add]
    rfl
  unfold recommendStep
  dsimp only
  rw [hadd, hval, lt_floor_budget hbudget]
  cases within budget ((n + m : ℤ) : ℚ) <;> rfl

/-- **The desktop's picks are the best possible.**  A JavaScript array has
fewer than `2 ^ 32` elements. -/
theorem recommends_recommendPlannerItems {budgetMinutes : Number} {items : List PlannerRecommendItem}
    {avgSecondsByTemplateId : String → Option Number} (hlen : items.length < 2 ^ 32)
    (hbudget : Number.le 0 budgetMinutes = true) :
    Recommends (·.estimateMinutes) budgetMinutes (recommendCandidates items avgSecondsByTemplateId)
      (recommendPlannerItems budgetMinutes items avgSecondsByTemplateId).picked
      (recommendPlannerItems budgetMinutes items avgSecondsByTemplateId).totalMinutes := by
  let candidates := recommendCandidates items avgSecondsByTemplateId
  let weight : PlannerRecommendPick → ℚ := fun c => c.estimateMinutes.value
  have hwhole : ∀ c ∈ candidates, WholeMinutes c.estimateMinutes := by
    intro c hc
    obtain ⟨it, -, rfl⟩ := List.mem_map.mp hc
    exact wholeMinutes_recommendCandidate _ it
  have hfinite : ∀ c ∈ candidates, c.estimateMinutes.isFinite = true := by
    intro c hc
    obtain ⟨m, -, -, heq⟩ := hwhole c hc
    rw [heq]
    rfl
  have hperm : (byMinutes candidates).Perm candidates := List.perm_insertionSort _ _
  have hsort : (byMinutes candidates).Pairwise fun a b => weight a ≤ weight b :=
    pairwise_ascending hfinite
  have hnonneg : ∀ c ∈ byMinutes candidates, 0 ≤ weight c := by
    intro c hc
    obtain ⟨m, hm, -, heq⟩ := hwhole c (hperm.mem_iff.mp hc)
    show 0 ≤ c.estimateMinutes.value
    rw [heq]
    show (0 : ℚ) ≤ m
    exact_mod_cast (by omega : (0 : ℤ) ≤ m)
  have hloop : (byMinutes candidates).foldl
      (recommendStep (Number.atLeast 0 (Number.floor budgetMinutes))) ([], .fin 0) =
        (pick weight (within budgetMinutes) 0 (byMinutes candidates),
          .fin (total weight (pick weight (within budgetMinutes) 0 (byMinutes candidates)))) := by
    refine foldl_eq_pick fun p a q hl => ?_
    have hmem : ∀ c ∈ pick weight (within budgetMinutes) 0 p, WholeMinutes c.estimateMinutes := by
      intro c hc
      refine hwhole c (hperm.mem_iff.mp ?_)
      rw [hl]
      exact List.mem_append_left _ ((pick_sublist 0 p).subset hc)
    obtain ⟨n, hn, hn', htotal⟩ := total_minutes hmem
    have hshort : (pick weight (within budgetMinutes) 0 p).length < 2 ^ 32 := by
      have hp : p.length ≤ (byMinutes candidates).length := by
        rw [hl, List.length_append]
        omega
      have hall : (byMinutes candidates).length = items.length := by
        rw [hperm.length_eq]
        exact List.length_map _
      have hsub : (pick weight (within budgetMinutes) 0 p).Sublist p := pick_sublist 0 p
      have hle := hsub.length_le
      omega
    have ha : WholeMinutes a.estimateMinutes := by
      refine hwhole a (hperm.mem_iff.mp ?_)
      rw [hl]
      exact List.mem_append_right _ List.mem_cons_self
    show recommendStep _ (_, .fin (total weight _)) a = _
    rw [htotal]
    exact recommendStep_eq hbudget ha hn (by omega)
  have hbest : Best weight (within budgetMinutes) (byMinutes candidates)
      (pick weight (within budgetMinutes) 0 (byMinutes candidates)) :=
    best_pick (fun x y => within_mono) hbudget hnonneg hsort
  have hres : recommendPlannerItems budgetMinutes items avgSecondsByTemplateId =
      ⟨pick weight (within budgetMinutes) 0 (byMinutes candidates),
        .fin (total weight (pick weight (within budgetMinutes) 0 (byMinutes candidates)))⟩ := by
    let step := recommendStep (Number.atLeast 0 (Number.floor budgetMinutes))
    show (⟨((byMinutes candidates).foldl step ([], Number.fin 0)).1,
      ((byMinutes candidates).foldl step ([], Number.fin 0)).2⟩ : PlannerRecommendation) = _
    rw [hloop]
  rw [hres]
  exact ⟨hfinite, hbest.of_perm hperm, rfl⟩

/-! ### The web -/

/-- Taking the smallest estimates one by one, as long as they fit, rounds
neither their sum nor what remains of the budget. -/
def ExactBudget (candidates : List RecommendCandidate) (budget : ℚ) : Prop :=
  ∀ k, total (·.estimatedSeconds.value) ((bySeconds (estimated candidates)).take k) ≤ budget →
    Number.IsDouble
      (.fin (total (·.estimatedSeconds.value) ((bySeconds (estimated candidates)).take k))) ∧
    Number.IsDouble
      (.fin (budget - total (·.estimatedSeconds.value) ((bySeconds (estimated candidates)).take k)))

theorem mem_estimated {candidates : List RecommendCandidate} {c : RecommendCandidate}
    (h : c ∈ estimated candidates) :
    c.estimatedSeconds.isFinite = true ∧ 0 ≤ c.estimatedSeconds.value := by
  obtain ⟨hfin, hpos⟩ := Bool.and_eq_true_iff.mp (List.mem_filter.mp h).2
  rw [Number.eq_value hfin] at hpos
  exact ⟨hfin, (Number.lt_fin_iff.mp hpos).le⟩

/-- One round of the loop takes a candidate that is within the budget. -/
theorem selectStep_eq {budget sum : ℚ} {selected : List RecommendCandidate}
    {c : RecommendCandidate} (hfin : c.estimatedSeconds.isFinite = true)
    (hexact : sum + c.estimatedSeconds.value ≤ budget →
      Number.IsDouble (.fin (budget - (sum + c.estimatedSeconds.value)))) :
    selectStep (selected, .fin (budget - sum)) c =
      if within (.fin budget) (sum + c.estimatedSeconds.value) then
        (selected ++ [c], .fin (budget - (sum + c.estimatedSeconds.value)))
      else (selected, .fin (budget - sum)) := by
  have hle : Number.le c.estimatedSeconds (.fin (budget - sum)) =
      within (.fin budget) (sum + c.estimatedSeconds.value) := by
    rw [Number.eq_value hfin, Bool.eq_iff_iff, within, Number.le_fin_iff, Number.le_fin_iff]
    constructor <;> intro h <;> simp only [Number.value] at * <;> linarith
  unfold selectStep
  dsimp only
  rw [hle]
  by_cases h : within (.fin budget) (sum + c.estimatedSeconds.value) = true
  · have hsub : Number.sub (.fin (budget - sum)) c.estimatedSeconds =
        .fin (budget - (sum + c.estimatedSeconds.value)) := by
      have hdouble := hexact (Number.le_fin_iff.mp h)
      have harith : budget - sum + -c.estimatedSeconds.value =
          budget - (sum + c.estimatedSeconds.value) := by ring
      rw [Number.eq_value hfin]
      show Number.toDouble (budget - sum + -c.estimatedSeconds.value) = _
      rw [harith]
      exact hdouble
    rw [if_pos h, if_pos h, hsub]
  · rw [if_neg h, if_neg h]

/-- **The web's picks are the best possible**, where nothing is rounded. -/
theorem recommends_recommendForBudget {candidates : List RecommendCandidate} {budget : ℚ}
    (hbudget : 0 ≤ budget) (hexact : ExactBudget candidates budget) :
    Recommends (·.estimatedSeconds) (.fin budget) (estimated candidates)
      (recommendForBudget candidates (.fin budget)).selected
      (recommendForBudget candidates (.fin budget)).totalSeconds := by
  let weight : RecommendCandidate → ℚ := fun c => c.estimatedSeconds.value
  let sorted := bySeconds (estimated candidates)
  let picked := pick weight (within (.fin budget)) 0 sorted
  have hperm : sorted.Perm (estimated candidates) := List.perm_insertionSort _ _
  have hfinite : ∀ c ∈ estimated candidates, c.estimatedSeconds.isFinite = true :=
    fun c hc => (mem_estimated hc).1
  have hsort : sorted.Pairwise fun a b => weight a ≤ weight b := pairwise_ascending hfinite
  have hmono : ∀ x y, x ≤ y → within (.fin budget) y = true → within (.fin budget) x = true :=
    fun x y => within_mono
  have hbest : Best weight (within (.fin budget)) sorted picked :=
    best_pick hmono (Number.le_fin_iff.mpr hbudget)
      (fun c hc => (mem_estimated (hperm.mem_iff.mp hc)).2) hsort
  let remaining : ℚ → Number := fun sum => .fin (budget - sum)
  have hloop : sorted.foldl selectStep ([], remaining 0) =
      (picked, remaining (total weight picked)) := by
    refine foldl_eq_pick fun p a q hl => ?_
    have ha : a ∈ sorted := hl ▸ List.mem_append_right _ List.mem_cons_self
    refine selectStep_eq (hfinite a (hperm.mem_iff.mp ha)) fun hfit => ?_
    -- with `a` the picks are still the smallest estimates
    have hprefix : p ++ [a] <+: sorted := ⟨q, by rw [hl, List.append_assoc]; rfl⟩
    obtain ⟨k, hk⟩ := pick_prefix_eq_take hmono hsort hprefix 0
    have hin : within (.fin budget) (total weight (pick weight (within (.fin budget)) 0 p) + weight a)
        = true := Number.le_fin_iff.mpr hfit
    rw [pick_append_singleton, zero_add, if_pos hin] at hk
    have htotal := congrArg (total weight) hk
    rw [total_append, total_cons, total_nil, add_zero] at htotal
    have hdouble := (hexact k (by rw [← htotal]; exact hfit)).2
    rwa [← htotal] at hdouble
  have hpicked : total weight picked ≤ budget := Number.le_fin_iff.mp hbest.fitting
  obtain ⟨k, hk⟩ := pick_prefix_eq_take hmono hsort (List.prefix_refl sorted) 0
  obtain ⟨hsum, -⟩ := hexact k (by rw [← hk]; exact hpicked)
  have hres : recommendForBudget candidates (.fin budget) =
      ⟨picked, .fin (total weight picked), .fin (budget - total weight picked)⟩ := by
    have hstart : Number.atLeast 0 (.fin budget) = remaining 0 := by
      have hnot : ¬ Number.lt (.fin budget) (.fin 0) = true := by
        rw [Number.lt_fin_iff, not_lt]
        exact hbudget
      show (if Number.lt (.fin budget) (.fin 0) = true then _ else Number.fin budget) =
        Number.fin (budget - 0)
      rw [if_neg hnot, sub_zero]
    have htotal : Number.sub (.fin budget) (remaining (total weight picked)) =
        .fin (total weight picked) := by
      show Number.toDouble (budget + -(budget - total weight picked)) = _
      rw [neg_sub, add_sub_cancel]
      have htake : picked = sorted.take k := hk
      rw [htake]
      exact hsum
    show (⟨(sorted.foldl selectStep ([], Number.atLeast 0 (.fin budget))).1,
      Number.sub (.fin budget) (sorted.foldl selectStep ([], Number.atLeast 0 (.fin budget))).2,
      (sorted.foldl selectStep ([], Number.atLeast 0 (.fin budget))).2⟩ : RecommendResult) = _
    rw [hstart, hloop, htotal]
  rw [hres]
  exact ⟨hfinite, hbest.of_perm hperm, rfl⟩

/-- Whole seconds are never rounded. -/
theorem exactBudget_of_whole {candidates : List RecommendCandidate} {budget : ℤ}
    (hbudget : budget ≤ 2 ^ 53)
    (hwhole : ∀ c ∈ estimated candidates, ∃ n : ℤ, c.estimatedSeconds = .ofInt n) :
    ExactBudget candidates budget := by
  have htotal : ∀ l : List RecommendCandidate, (∀ c ∈ l, c ∈ estimated candidates) →
      ∃ n : ℤ, 0 ≤ n ∧ total (·.estimatedSeconds.value) l = n := by
    intro l hl
    induction l with
    | nil => exact ⟨0, le_rfl, by simp⟩
    | cons c l ih =>
        have hc := hl c List.mem_cons_self
        obtain ⟨n, hn, hsum⟩ := ih fun d hd => hl d (List.mem_cons_of_mem c hd)
        obtain ⟨m, hm⟩ := hwhole c hc
        have hpos : (0 : ℚ) ≤ m := by
          have hnonneg := (mem_estimated hc).2
          rwa [hm] at hnonneg
        have hpos' : 0 ≤ m := by exact_mod_cast hpos
        refine ⟨m + n, by omega, ?_⟩
        rw [total_cons, hsum, hm, Int.cast_add]
        rfl
  intro k hk
  obtain ⟨n, hn, hsum⟩ := htotal ((bySeconds (estimated candidates)).take k) fun c hc =>
    (List.perm_insertionSort _ _).mem_iff.mp (List.mem_of_mem_take hc)
  rw [hsum] at hk ⊢
  have hle : n ≤ budget := by exact_mod_cast hk
  constructor
  · exact Number.toDouble_intCast (abs_le.mpr ⟨by omega, by omega⟩)
  · rw [← Int.cast_sub]
    exact Number.toDouble_intCast (abs_le.mpr ⟨by omega, by omega⟩)

/-! ### Both -/

/-- **Both recommendations are the best possible ones**: the desktop's for
every array and every budget that is not negative, the web's for every such
budget that is finite, where taking the smallest estimates from it rounds
nothing. -/
theorem recommendations_best {items : List PlannerRecommendItem}
    {avgSecondsByTemplateId : String → Option Number} {budgetMinutes : Number}
    {candidates : List RecommendCandidate} {budgetSeconds : ℚ} (hlen : items.length < 2 ^ 32)
    (hminutes : Number.le 0 budgetMinutes = true) (hseconds : 0 ≤ budgetSeconds)
    (hexact : ExactBudget candidates budgetSeconds) :
    Recommends (·.estimateMinutes) budgetMinutes (recommendCandidates items avgSecondsByTemplateId)
        (recommendPlannerItems budgetMinutes items avgSecondsByTemplateId).picked
        (recommendPlannerItems budgetMinutes items avgSecondsByTemplateId).totalMinutes ∧
      Recommends (·.estimatedSeconds) (.fin budgetSeconds) (estimated candidates)
        (recommendForBudget candidates (.fin budgetSeconds)).selected
        (recommendForBudget candidates (.fin budgetSeconds)).totalSeconds :=
  ⟨recommends_recommendPlannerItems hlen hminutes, recommends_recommendForBudget hseconds hexact⟩

theorem recommendations_best_whole :
    Recommends (·.estimateMinutes) 15 (recommendCandidates [⟨"t1", 20⟩, ⟨"t2", 10⟩] fun _ => none)
        (recommendPlannerItems 15 [⟨"t1", 20⟩, ⟨"t2", 10⟩] fun _ => none).picked
        (recommendPlannerItems 15 [⟨"t1", 20⟩, ⟨"t2", 10⟩] fun _ => none).totalMinutes ∧
      Recommends (·.estimatedSeconds) (.fin ((90 : ℤ) : ℚ)) (estimated [⟨"a", .ofInt 60⟩, ⟨"b", .ofInt 45⟩])
        (recommendForBudget [⟨"a", .ofInt 60⟩, ⟨"b", .ofInt 45⟩] (.fin ((90 : ℤ) : ℚ))).selected
        (recommendForBudget [⟨"a", .ofInt 60⟩, ⟨"b", .ofInt 45⟩] (.fin ((90 : ℤ) : ℚ))).totalSeconds := by
  refine recommendations_best (by decide) rfl (by norm_num) (exactBudget_of_whole (by norm_num) ?_)
  intro c hc
  rcases List.mem_pair.mp (List.mem_filter.mp hc).1 with rfl | rfl
  · exact ⟨60, rfl⟩
  · exact ⟨45, rfl⟩

/-- With an infinite budget the web reports NaN, and where a difference is
rounded it takes more than the budget. -/
theorem recommendForBudget_inexact :
    ¬ Recommends (·.estimatedSeconds) .posInf (estimated [⟨"a", 1⟩])
        (recommendForBudget [⟨"a", 1⟩] .posInf).selected
        (recommendForBudget [⟨"a", 1⟩] .posInf).totalSeconds ∧
      ¬ Recommends (·.estimatedSeconds) 1 (estimated [⟨"a", .fin (1 / 2 ^ 60)⟩, ⟨"b", 1⟩])
        (recommendForBudget [⟨"a", .fin (1 / 2 ^ 60)⟩, ⟨"b", 1⟩] 1).selected
        (recommendForBudget [⟨"a", .fin (1 / 2 ^ 60)⟩, ⟨"b", 1⟩] 1).totalSeconds := by
  constructor
  · intro h
    have hreported := h.reported
    cases hreported
  · intro h
    have hselected : (recommendForBudget [⟨"a", .fin (1 / 2 ^ 60)⟩, ⟨"b", 1⟩] 1).selected =
        [⟨"a", .fin (1 / 2 ^ 60)⟩, ⟨"b", 1⟩] := by
      decide +kernel
    have hfit := h.best.fitting
    rw [hselected] at hfit
    have hsum : (1 / 2 ^ 60 + (1 + 0) : ℚ) ≤ 1 := Number.le_fin_iff.mp hfit
    norm_num at hsum

end Hub
