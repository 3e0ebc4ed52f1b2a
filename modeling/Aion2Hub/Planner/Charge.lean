/-
Aion2Hub/Planner/Charge.lean

The countdown of a charge (`getPlannerOverview`, `useCharge`, `undoCharge`).

The uses of a charge are counted in a sliding window, and the next recharge
is when the oldest use in it runs out.  That is the truth as long as fewer
uses than there are stacks are later than the oldest one; with more of them
the stack that comes back is already spent, and the countdown names a time at
which nothing changes (`tellsTruth_iff`).
-/
import Mathlib.RingTheory.Coprime.Lemmas
import Aion2Hub.Lib.Query
import Aion2Hub.Lib.Window
import Aion2Hub.Planner.Today

namespace Hub

open Sql Exec

/-! ### Exact windows and stacks -/

/-- The longest window, a million hours. -/
def maxWindow : ℤ := 3600000000000

/-- Recharge hours that are a whole number of milliseconds are a multiple of
1/128. -/
theorem exists_of_whole {q : ℚ} (hq : Number.IsDouble (.fin q)) {w : ℤ}
    (hw : q * 3600000 = w) : ∃ j : ℤ, q * 2 ^ 7 = j := by
  obtain ⟨k, r, hr⟩ := Number.exists_scaled hq
  rcases Nat.lt_or_ge k 8 with hk | hk
  · refine ⟨r * 2 ^ (7 - k), ?_⟩
    push_cast
    rw [← hr, mul_assoc, ← pow_add, show k + (7 - k) = 7 by omega]
  · obtain ⟨i, rfl⟩ : ∃ i, k = 7 + i := ⟨k - 7, by omega⟩
    have hprod : (28125 : ℚ) * r = w * 2 ^ i := by
      rw [← hr, ← hw, pow_add]
      ring
    have hdvd : (2 : ℤ) ^ i ∣ 28125 * r := by
      refine ⟨w, ?_⟩
      rw [mul_comm (2 ^ i)]
      exact_mod_cast hprod
    have hcop : IsCoprime ((2 : ℤ) ^ i) 28125 := IsCoprime.pow_left ⟨-14062, 1, by norm_num⟩
    obtain ⟨j, hj⟩ := hcop.dvd_of_dvd_mul_left hdvd
    refine ⟨j, ?_⟩
    have hpow : (2 : ℚ) ^ i ≠ 0 := by positivity
    have hcast : (r : ℚ) = 2 ^ i * j := by exact_mod_cast hj
    refine mul_right_cancel₀ hpow ?_
    rw [mul_assoc, ← pow_add, hr, hcast, mul_comm]

/-- A whole number of milliseconds comes out exactly. -/
theorem windowMs_whole {q : ℚ} (hq : Number.IsDouble (.fin q)) (h₀ : 0 < q) (h₁ : q ≤ 1000000)
    {w : ℤ} (hw : q * 3600000 = w) : windowMs (.fin q) = Number.ofInt w := by
  obtain ⟨j, hj⟩ := exists_of_whole hq hw
  have hjpos : 0 < j := by
    have : (0 : ℚ) < j := hj ▸ by positivity
    exact_mod_cast this
  have hjle : j ≤ 128000000 := by
    have : (j : ℚ) ≤ 128000000 := by
      rw [← hj]
      linarith
    exact_mod_cast this
  have hexact : ∀ {x : ℚ} {a : ℤ}, x * 2 ^ 7 = a → 0 < a → a < 2 ^ 53 →
      Number.toDouble x = .fin x := fun hx ha₀ ha₁ =>
    Number.toDouble_dyadic hx (abs_lt.mpr ⟨by omega, ha₁⟩) (by norm_num)
  have h60 : Number.toDouble (q * 60) = .fin (q * 60) :=
    hexact (a := 60 * j) (by push_cast; rw [← hj]; ring) (by omega) (by omega)
  have h3600 : Number.toDouble (q * 60 * 60) = .fin (q * 60 * 60) :=
    hexact (a := 3600 * j) (by push_cast; rw [← hj]; ring) (by omega) (by omega)
  have hms : Number.toDouble (q * 60 * 60 * 1000) = .fin (q * 60 * 60 * 1000) :=
    hexact (a := 3600000 * j) (by push_cast; rw [← hj]; ring) (by omega) (by omega)
  show Number.mul (Number.mul (Number.toDouble (q * 60)) 60) 1000 = _
  rw [h60]
  show Number.mul (Number.toDouble (q * 60 * 60)) 1000 = _
  rw [h3600]
  show Number.toDouble (q * 60 * 60 * 1000) = .fin w
  rw [hms, ← hw]
  congr 1
  ring

/-- Any window of up to a million hours is at most that long. -/
theorem windowMs_le {q : ℚ} (h₀ : 0 < q) (h₁ : q ≤ 1000000) :
    ∃ x, windowMs (.fin q) = .fin x ∧ |x| ≤ maxWindow := by
  have step : ∀ {x : ℚ} {n m : ℤ}, |x| ≤ n → n * m < 2 ^ 53 → 0 ≤ m →
      ∃ y, Number.mul (.fin x) (Number.ofInt m) = .fin y ∧ |y| ≤ ((n * m : ℤ) : ℚ) := by
    intro x n m hx hlt hm
    refine Number.toDouble_bounded ?_ hlt
    push_cast
    rw [abs_mul, abs_of_nonneg (Int.cast_nonneg hm)]
    exact mul_le_mul_of_nonneg_right hx (Int.cast_nonneg hm)
  have hq : |q| ≤ ((1000000 : ℤ) : ℚ) := by
    rw [abs_of_pos h₀]
    exact_mod_cast h₁
  obtain ⟨x, hx, hxle⟩ := step hq (m := 60) (by norm_num) (by norm_num)
  obtain ⟨y, hy, hyle⟩ := step hxle (m := 60) (by norm_num) (by norm_num)
  obtain ⟨z, hz, hzle⟩ := step hyle (m := 1000) (by norm_num) (by norm_num)
  refine ⟨z, ?_, by exact_mod_cast hzle⟩
  show Number.mul (Number.mul (Number.mul (.fin q) (Number.ofInt 60)) (Number.ofInt 60))
    (Number.ofInt 1000) = _
  rw [hx, hy, hz]

/-- `max(0, maxStacks - used)`, exactly. -/
def stacksLeft : Number → ℕ → Number
  | .fin m, used => .fin (max 0 (m - used))
  | x, _ => x

/-- Numbers of stacks that are counted exactly: from 1 to `2 ^ 53`, or
infinitely many. -/
def Countable : Number → Prop
  | .fin m => Number.IsDouble (.fin m) ∧ 1 ≤ m ∧ m < 2 ^ 53
  | .posInf => True
  | _ => False

/-- Stacks are counted exactly. -/
theorem availableStacks_eq {m : Number} (h : Countable m) (used : ℕ) :
    availableStacks m used = stacksLeft m used := by
  cases m with
  | posInf => rfl
  | negInf => exact h.elim
  | nan => exact h.elim
  | fin m =>
      obtain ⟨hdouble, h₁, h₂⟩ := h
      have hsub : Number.sub (.fin m) (Number.ofInt used) = Number.toDouble (m - used) := by
        show Number.toDouble (m + -((used : ℤ) : ℚ)) = _
        rw [Int.cast_natCast, sub_eq_add_neg]
      show Number.atLeast 0 (Number.sub (.fin m) (Number.ofInt used)) = .fin (max 0 (m - used))
      rw [hsub]
      rcases le_or_gt (m - used) 0 with hle | hgt
      · rw [Number.atLeast_toDouble_of_nonpos hle, max_eq_left hle]
        rfl
      · obtain ⟨k, a, hk, ha, -, ha₁⟩ := Number.exists_dyadic hdouble h₁ h₂
        have hscaled : (m - used) * 2 ^ k = ((a - used * 2 ^ k : ℤ) : ℚ) := by
          push_cast
          rw [sub_mul, ha]
        have hpos : 0 < a - used * 2 ^ k := by
          have : (0 : ℚ) < ((a - used * 2 ^ k : ℤ) : ℚ) := hscaled ▸ by positivity
          exact_mod_cast this
        have hle : (0 : ℤ) ≤ used * 2 ^ k := by positivity
        rw [Number.toDouble_dyadic hscaled (abs_lt.mpr ⟨by omega, by omega⟩) (by omega),
          max_eq_right hgt.le]
        show (if Number.lt (.fin (m - used)) (.fin _) = true then (0 : Number) else .fin (m - used)) = _
        rw [if_neg]
        rw [Number.lt_fin_iff]
        simpa using hgt.le

/-! ### Instants of the years 1000 to 9000 -/

/-- Instants of the years 1000 to 9000. -/
def InEra (t : ℤ) : Prop :=
  1000 ≤ (Calendar.ofDay (t / Date.msPerDay)).year ∧
    (Calendar.ofDay (t / Date.msPerDay)).year ≤ 9000

instance (t : ℤ) : Decidable (InEra t) := inferInstanceAs (Decidable (_ ∧ _))

/-- The longest window does not leave the years of four digits. -/
theorem InEra.near {t u : ℤ} (h : InEra t) (hu : |u - t| ≤ maxWindow) : Date.FourDigitYear u := by
  obtain ⟨hz, h₀, h₁⟩ := Calendar.marchYear_spec (t / Date.msPerDay)
  obtain ⟨hz', h₀', h₁'⟩ := Calendar.marchYear_spec (u / Date.msPerDay)
  have hdays : t / Date.msPerDay - 41668 ≤ u / Date.msPerDay ∧
      u / Date.msPerDay ≤ t / Date.msPerDay + 41668 := by
    have := abs_le.mp hu
    unfold maxWindow at this
    unfold Date.msPerDay
    omega
  unfold InEra at h
  unfold Date.FourDigitYear
  simp only [Calendar.ofDay] at h ⊢
  unfold Calendar.yearStart at hz hz'
  omega

theorem InEra.fourDigitYear {t : ℤ} (h : InEra t) : Date.FourDigitYear t := by
  refine h.near ?_
  rw [sub_self]
  decide

/-- They are far from the ends of the range of dates. -/
theorem InEra.size_le {t : ℤ} (h : InEra t) : |t| ≤ Date.maxTime - 2 * maxWindow := by
  obtain ⟨hz, h₀, h₁⟩ := Calendar.marchYear_spec (t / Date.msPerDay)
  unfold InEra at h
  simp only [Calendar.ofDay] at h
  unfold Calendar.yearStart at hz
  have hdays : -1000000 ≤ t / Date.msPerDay ∧ t / Date.msPerDay ≤ 4000000 := by omega
  unfold Date.msPerDay at hdays
  unfold Date.maxTime maxWindow
  exact abs_le.mpr (by omega)

/-! ### Runs -/

/-- Recharge hours that are positive and at most a million, and stacks that
are a number. -/
def ChargeNumbers (hours maxStacks : Option Number) : Prop :=
  (∃ q, hours = some (.fin q) ∧ Number.IsDouble (.fin q) ∧ 0 < q ∧ q ≤ 1000000) ∧
    ∀ m, maxStacks = some m → Number.IsDouble m

/-- A step of the templates and the charges at the time `t`. -/
def ChargeStep (host : Host) (t : ℤ) : Op → Prop
  | .createPlannerTemplate input draw =>
      draw.now = t ∧ (input.type = .charge → ChargeNumbers input.rechargeHours input.maxStacks)
  | .updatePlannerTemplate _ input now =>
      now = t ∧ (input.type = .charge → ChargeNumbers input.rechargeHours input.maxStacks)
  | .useCharge _ _ usedAtIso _ now => resolveDate host usedAtIso now = t
  | .undoCharge _ _ => True
  | _ => False

/-- The states that such steps at non-decreasing times reach from a database
without templates and charges; the last step was at the time `t` or before. -/
inductive ChargeRun (host : Host) : ℤ → Conn → Prop where
  | start {t : ℤ} {c : Conn} : schema.Distinct c.db →
      (c.foreignKeys = true → schema.Resolved c.db) → c.saved = none →
      c.db .plannerTemplate = [] → c.db .plannerChargeUse = [] → ChargeRun host t c
  | step {t t' : ℤ} {c : Conn} {op : Op} : ChargeRun host t c → t ≤ t' → InEra t' →
      ChargeStep host t' op → ChargeRun host t' (op.run host c).2

/-- A template of the run; its id was drawn. -/
structure ChargeTemplate (r : PlannerTemplate) : Prop where
  plain : Text.Plain r.id
  numbers : r.type = .charge → ChargeNumbers r.rechargeHours r.maxStacks

/-- A use that has been recorded by the time `t`. -/
def UsedBy (t : ℤ) (u : PlannerChargeUse) : Prop :=
  ∃ s, u.usedAt = Date.isoString s ∧ InEra s ∧ s ≤ t

theorem chargeNumbers_chargeOnly {hours maxStacks : Option Number}
    (h : ChargeNumbers hours maxStacks) :
    ChargeNumbers (chargeOnly .charge hours) (chargeOnly .charge maxStacks) := by
  obtain ⟨⟨q, rfl, hq⟩, hstacks⟩ := h
  refine ⟨⟨q, rfl, hq⟩, fun m hm => ?_⟩
  cases maxStacks with
  | none => cases hm
  | some n =>
      have hn := hstacks n rfl
      cases n with
      | nan => cases hm
      | _ =>
          cases hm
          exact hn

/-- What the run has stored. -/
theorem ChargeRun.rows {host : Host} {t : ℤ} {c : Conn} (h : ChargeRun host t c) :
    Conn.Inv (schema.Sound (PlannerRows ChargeTemplate (UsedBy t))) none c := by
  induction h with
  | @start t c hdistinct hresolved hsaved htemplates huses =>
      refine ⟨⟨hdistinct, fun table r hr => ?_, hresolved⟩, hsaved⟩
      cases table with
      | plannerTemplate => exact absurd (htemplates ▸ hr) List.not_mem_nil
      | plannerChargeUse => exact absurd (huses ▸ hr) List.not_mem_nil
      | _ => trivial
  | @step t t' c op _ hle hera hstep ih =>
      have hinv : Conn.Inv (schema.Sound (PlannerRows ChargeTemplate (UsedBy t'))) none c := by
        refine ⟨⟨ih.1.distinct, fun table r hr => ?_, ih.1.resolved⟩, ih.2⟩
        have hrow := ih.1.rows table r hr
        cases table with
        | plannerChargeUse =>
            obtain ⟨s, hs, hin, hst⟩ := hrow
            exact ⟨s, hs, hin, hst.trans hle⟩
        | _ => exact hrow
      refine sound_run ?_ hinv
      cases op with
      | createPlannerTemplate input draw =>
          refine fun minutes _ => ⟨draw.plain, fun htype => ?_⟩
          have hcharge : input.type = .charge := htype
          show ChargeNumbers (chargeOnly input.type _) (chargeOnly input.type _)
          rw [hcharge]
          exact chargeNumbers_chargeOnly (hstep.2 hcharge)
      | updatePlannerTemplate id input now =>
          refine fun minutes _ r hr => ⟨hr.plain, fun htype => ?_⟩
          have hcharge : input.type = .charge := htype
          show ChargeNumbers (chargeOnly input.type _) (chargeOnly input.type _)
          rw [hcharge]
          exact chargeNumbers_chargeOnly (hstep.2 hcharge)
      | useCharge characterId templateId usedAtIso id now =>
          have hresolved : resolveDate host usedAtIso now = t' := hstep
          exact ⟨t', by rw [hresolved]; rfl, hera, le_refl t'⟩
      | undoCharge => trivial
      | _ => exact absurd hstep id

/-! ### The uses in the window -/

/-- The time of a use. -/
def useTime (host : Host) (u : PlannerChargeUse) : ℤ := (host.parseDate u.usedAt).getD 0

/-- The uses of a charge that are less than `w` milliseconds old. -/
def liveUses (host : Host) (characterId templateId : String) (w now : ℤ) (db : Db Row) :
    List PlannerChargeUse :=
  Window.live (useTime host) w now
    ((db .plannerChargeUse).filter (isUseOf characterId templateId))

section

variable {host : Host} {t now now' w : ℤ} {c : Conn} {characterId templateId : String}
  {db : Db Row}

variable (host) in
theorem useTime_of_usedBy {u : PlannerChargeUse} (h : UsedBy t u) :
    u.usedAt = Date.isoString (useTime host u) ∧ InEra (useTime host u) ∧ useTime host u ≤ t ∧
      host.parseDate u.usedAt = some (useTime host u) := by
  obtain ⟨s, hs, hin, hle⟩ := h
  have hvalid : Date.Valid s := by
    have := hin.size_le
    unfold maxWindow at this
    exact this.trans (by omega)
  have hparse : host.parseDate u.usedAt = some s := hs ▸ host.parse_iso s hvalid
  have htime : useTime host u = s := by rw [useTime, hparse, Option.getD_some]
  exact htime ▸ ⟨hs, hin, hle, hparse⟩

/-- The query finds the uses in the window, if all texts have years of four
digits. -/
theorem usesAfter_perm (huses : ∀ u ∈ db .plannerChargeUse, UsedBy t u)
    (hcutoff : Date.FourDigitYear (now - w)) :
    (usesAfter characterId templateId (Date.isoString (now - w)) db).Perm
      (liveUses host characterId templateId w now db) := by
  refine (orderBy_perm _ _).trans (List.Perm.of_eq ?_)
  rw [liveUses, Window.live, List.filter_filter]
  refine List.filter_congr fun u hu => ?_
  obtain ⟨htext, hera, -, -⟩ := useTime_of_usedBy host (huses u hu)
  rw [Bool.and_comm]
  congr 1
  rw [htext, decide_eq_decide]
  exact Date.isoString_lt_iff hcutoff hera.fourDigitYear

/-- The oldest use comes first. -/
theorem usesAfter_head {cutoff : String} {first : PlannerChargeUse}
    (huses : ∀ u ∈ db .plannerChargeUse, UsedBy t u)
    (h : (usesAfter characterId templateId cutoff db).head? = some first) :
    ∀ u ∈ usesAfter characterId templateId cutoff db, useTime host first ≤ useTime host u := by
  have hmem : ∀ u ∈ (db .plannerChargeUse).filter (fun r =>
      isUseOf characterId templateId r && decide (cutoff < r.usedAt)), UsedBy t u :=
    fun u hu => huses u (List.mem_filter.mp hu).1
  have horder : IsOrder (asc PlannerChargeUse.usedAt anyOrder) := isOrder_anyOrder.asc
  obtain ⟨hfirst, hbefore⟩ := horder.head?_eq_some h
  intro u hu
  have hu' := (orderBy_perm _ _).mem_iff.mp hu
  obtain ⟨htext, hera, -, -⟩ := useTime_of_usedBy host (hmem first hfirst)
  obtain ⟨htext', hera', -, -⟩ := useTime_of_usedBy host (hmem u hu')
  have hle : first.usedAt ≤ u.usedAt := asc_anyOrder_iff.mp (hbefore u hu')
  by_contra hlt
  rw [htext, htext'] at hle
  exact hle.not_gt (Date.isoString_lt hera'.fourDigitYear hera.fourDigitYear (not_le.mp hlt))

end

/-! ### What the overview reports -/

/-- A charge whose window is `w` milliseconds and whose stacks are counted
exactly. -/
structure ExactCharge (w : ℤ) (m : Number) (r : PlannerTemplate) : Prop where
  window : windowMs (r.rechargeHours.getD 0) = Number.ofInt w
  pos : 0 < w
  le : w ≤ maxWindow
  maxStacks : r.maxStacks.getD 0 = m
  countable : Countable m

section

variable {host : Host} {t now w : ℤ} {m : Number} {characterId : String} {r : PlannerTemplate}
  {db : Db Row}

theorem stacksLeft_zero (h : Countable m) : stacksLeft m 0 = m := by
  cases m with
  | fin x =>
      have hle : (0 : ℚ) ≤ x := zero_le_one.trans h.2.1
      show Number.fin (max 0 (x - ((0 : ℕ) : ℚ))) = _
      rw [Nat.cast_zero, sub_zero, max_eq_right hle]
  | _ => rfl

/-- Fewer stacks than all are left exactly when there are uses and the stacks
are not infinitely many. -/
theorem le_stacksLeft_iff (h : Countable m) (used : ℕ) :
    Number.le m (stacksLeft m used) = true ↔ used = 0 ∨ m = .posInf := by
  cases m with
  | posInf => exact iff_of_true rfl (.inr rfl)
  | negInf => exact h.elim
  | nan => exact h.elim
  | fin x =>
      have hone : (1 : ℚ) ≤ x := h.2.1
      show Number.le (.fin x) (.fin (max 0 (x - used))) = true ↔ _
      rw [Number.le_fin_iff, le_max_iff]
      constructor
      · rintro (h₀ | h₁)
        · linarith
        · refine .inl ?_
          have : (used : ℚ) ≤ 0 := by linarith
          exact Nat.le_zero.mp (by exact_mod_cast this)
      · rintro (rfl | hinf)
        · right
          simp
        · cases hinf

/-- **What a charge item says**: the stacks left, and, if some are missing,
when the oldest use in the window runs out. -/
theorem chargeItem_spec (hr : ExactCharge w m r) (huses : ∀ u ∈ db .plannerChargeUse, UsedBy t u)
    (hnow : |now| ≤ Date.maxTime - maxWindow) (hcutoff : Date.FourDigitYear (now - w)) :
    ∃ item, chargeItem host characterId now db r = .ok item ∧ item.templateId = r.id ∧
      item.available = stacksLeft m (liveUses host characterId r.id w now db).length ∧
      ((item.nextRechargeAt = none ∧
          (liveUses host characterId r.id w now db = [] ∨ m = .posInf)) ∨
        ∃ u ∈ liveUses host characterId r.id w now db,
          (∀ v ∈ liveUses host characterId r.id w now db, useTime host u ≤ useTime host v) ∧
          item.nextRechargeAt = some (Date.isoString (useTime host u + w)) ∧ m ≠ .posInf) := by
  have hpos := hr.pos
  have hle := hr.le
  have hsmall : maxWindow < 2 ^ 53 ∧ Date.maxTime < 2 ^ 53 := by decide
  obtain ⟨hnow₀, hnow₁⟩ := abs_le.mp hnow
  have hdate : cutoffDate now (windowMs (r.rechargeHours.getD 0)) = some (now - w) := by
    rw [cutoffDate, hr.window, Number.sub_ofInt (abs_le.mpr (by omega)), Date.ofNum_ofInt]
    exact Date.timeClip_of_valid (abs_le.mpr (by omega))
  have hperm : (usesAfter characterId r.id (Date.isoString (now - w)) db).Perm
      (liveUses host characterId r.id w now db) := usesAfter_perm huses hcutoff
  have havail : availableStacks m (usesAfter characterId r.id (Date.isoString (now - w)) db).length
      = stacksLeft m (liveUses host characterId r.id w now db).length := by
    rw [availableStacks_eq hr.countable, hperm.length_eq]
  have hitem : ∀ next, nextRecharge host (Number.ofInt w) m
      (usesAfter characterId r.id (Date.isoString (now - w)) db) = .ok next →
      ∃ item, chargeItem host characterId now db r = .ok item ∧ item.templateId = r.id ∧
        item.available = stacksLeft m (liveUses host characterId r.id w now db).length ∧
        item.nextRechargeAt = next := by
    intro next hnext
    let uses := usesAfter characterId r.id (Date.isoString (now - w)) db
    refine ⟨⟨r.id, r.title, r.rechargeHours.getD 0, m, uses.length,
      availableStacks m uses.length, next⟩, ?_, rfl, havail, rfl⟩
    unfold chargeItem
    dsimp only
    rw [hdate, hr.window, hr.maxStacks]
    dsimp only [Date.toISOString, bind, Except.bind]
    rw [hnext]
    rfl
  cases hafter : usesAfter characterId r.id (Date.isoString (now - w)) db with
  | nil =>
      have hnil : liveUses host characterId r.id w now db = [] := List.nil_perm.mp (hafter ▸ hperm)
      obtain ⟨item, hok, hid, hleft, hnext⟩ := hitem none (by rw [hafter]; rfl)
      exact ⟨item, hok, hid, hleft, .inl ⟨hnext, .inl hnil⟩⟩
  | cons first rest =>
      rw [hafter] at hperm havail
      have hmem : first ∈ liveUses host characterId r.id w now db :=
        hperm.mem_iff.mp List.mem_cons_self
      have hmin : ∀ v ∈ liveUses host characterId r.id w now db,
          useTime host first ≤ useTime host v := fun v hv => by
        refine usesAfter_head huses (by rw [hafter]; rfl) v ?_
        rw [hafter]
        exact hperm.mem_iff.mpr hv
      have hstored : first ∈ db .plannerChargeUse :=
        (List.mem_filter.mp (Window.mem_live.mp hmem).1).1
      obtain ⟨htext, hera, -, hparse⟩ := useTime_of_usedBy host (huses first hstored)
      have hrecharge : rechargeDate host (Text.cut first.usedAt) (Number.ofInt w) =
          some (useTime host first + w) := by
        have := abs_le.mp hera.size_le
        have hplain : Text.cut first.usedAt = first.usedAt :=
          (htext ▸ plain_stamp _ : Text.Plain first.usedAt).cut
        rw [rechargeDate, hplain, hparse]
        show Date.ofNum (Number.add (Number.ofInt _) (Number.ofInt w)) = _
        rw [Number.add_ofInt (abs_le.mpr (by omega)), Date.ofNum_ofInt]
        exact Date.timeClip_of_valid (abs_le.mpr (by omega))
      have hlen : (liveUses host characterId r.id w now db).length ≠ 0 := by
        rw [← hperm.length_eq]
        exact Nat.succ_ne_zero _
      have hnext : nextRecharge host (Number.ofInt w) m (first :: rest) =
          if Number.le m (stacksLeft m (liveUses host characterId r.id w now db).length) = true
          then .ok none else .ok (some (Date.isoString (useTime host first + w))) := by
        rw [nextRecharge, havail, hrecharge]
        rfl
      by_cases hinf : m = .posInf
      · rw [if_pos ((le_stacksLeft_iff hr.countable _).mpr (.inr hinf))] at hnext
        obtain ⟨item, hok, hid, hleft, hnone⟩ := hitem none (by rw [hafter, hnext])
        exact ⟨item, hok, hid, hleft, .inl ⟨hnone, .inr hinf⟩⟩
      · rw [if_neg fun hle => ((le_stacksLeft_iff hr.countable _).mp hle).elim hlen hinf] at hnext
        obtain ⟨item, hok, hid, hleft, hsome⟩ := hitem _ (by rw [hafter, hnext])
        exact ⟨item, hok, hid, hleft, .inr ⟨first, hmem, hmin, hsome, hinf⟩⟩

end

/-- The charge of a template in the overview at `now`. -/
def reported (host : Host) (characterId : String) (now : ℤ) (c : Conn) (templateId : String) :
    Option PlannerChargeItem :=
  match (getPlannerOverview host characterId none now c).1 with
  | .ok o => o.charges.find? fun i => i.templateId == templateId
  | .error _ => none

section

variable {host : Host} {t now w : ℤ} {m : Number} {characterId : String} {r : PlannerTemplate}
  {c : Conn}

/-- There is one item of each id, so it is the item of the template. -/
theorem find?_item {l : List PlannerTemplate} {items : List PlannerChargeItem}
    {f : PlannerTemplate → Except String PlannerChargeItem}
    (hf : ∀ r item, f r = .ok item → item.templateId = r.id)
    (h : List.Forall₂ (fun r item => f r = .ok item) l items) (hr : r ∈ l)
    (hunique : ∀ q ∈ l, q.id = r.id → q = r) :
    ∃ item, items.find? (fun i => i.templateId == r.id) = some item ∧ f r = .ok item := by
  induction h with
  | nil => exact absurd hr List.not_mem_nil
  | @cons q item l items hq _ ih =>
      by_cases hid : q.id = r.id
      · have heq : q = r := hunique q List.mem_cons_self hid
        refine ⟨item, ?_, heq ▸ hq⟩
        rw [List.find?_cons_of_pos]
        exact beq_iff_eq.mpr ((hf q item hq).trans hid)
      · have hmem : r ∈ l := (List.mem_cons.mp hr).resolve_left fun heq => hid (heq ▸ rfl)
        rw [List.find?_cons_of_neg]
        · exact ih hmem fun q' hq' => hunique q' (List.mem_cons_of_mem q hq')
        · exact fun hbeq => hid ((hf q item hq).symm.trans (beq_iff_eq.mp hbeq))

theorem chargeItem_templateId {item : PlannerChargeItem}
    (h : chargeItem host characterId now c.db r = .ok item) : item.templateId = r.id := by
  unfold chargeItem at h
  dsimp only at h
  rcases hd : Date.toISOString (cutoffDate now (windowMs (r.rechargeHours.getD 0))) with e | cutoff
  · rw [hd] at h
    cases h
  · rw [hd] at h
    dsimp only [bind, Except.bind] at h
    split at h
    · cases h
    · cases h
      rfl

/-- In the run every overview is there, and the item of a template is what
`chargeItem` makes of what is read of it. -/
theorem reported_eq (h : ChargeRun host t c) (hcharacter : schema.hasKey c.db .appCharacter characterId)
    (hr : r ∈ assignedRows characterId c.db) (htype : r.type = .charge)
    (hnow : |now| ≤ Date.maxTime - maxWindow) :
    ∃ item, reported host characterId now c r.id = some item ∧
      chargeItem host characterId now c.db (schema.read .plannerTemplate r) = .ok item := by
  have hrows := h.rows.1.rows
  obtain ⟨q, hq, hid⟩ := hcharacter
  obtain ⟨ch, hch⟩ : ∃ ch, (c.db .appCharacter).find? (fun q => q.id == characterId) = some ch :=
    Option.isSome_iff_exists.mp (List.find?_isSome.mpr ⟨q, hq, beq_iff_eq.mpr hid⟩)
  have huses : ∀ u ∈ c.db .plannerChargeUse, UseWithin host maxWindow u := fun u hu => by
    obtain ⟨htext, hera, -, hparse⟩ := useTime_of_usedBy host (hrows .plannerChargeUse u hu)
    have hplain : Text.Plain u.usedAt := htext ▸ plain_stamp _
    refine ⟨_, hplain.cut.symm ▸ hparse, hera.size_le.trans ?_⟩
    unfold maxWindow
    omega
  have hwindow : ∀ r ∈ c.db .plannerTemplate, WindowAtMost maxWindow r := fun r hr htype => by
    obtain ⟨⟨q, hhours, -, hpos, hle⟩, -⟩ := (hrows .plannerTemplate r hr).numbers htype
    rw [hhours]
    exact windowMs_le hpos hle
  obtain ⟨o, ho⟩ : ∃ o, overviewOf host characterId (characterOf ch) now
      (effectiveSettings now c.db (characterOf ch).server) c.db = .ok o := by
    refine overviewOf_ok_iff.mpr fun r hr htype => ?_
    obtain ⟨q, hq, rfl⟩ := List.mem_map.mp hr
    exact chargeFits_of_bounds hnow htype (hwindow q (mem_assignedRows.mp hq).1) huses
  have hreported : reported host characterId now c r.id =
      o.charges.find? fun i => i.templateId == r.id := by
    unfold reported
    rw [getPlannerOverview_eq hch]
    show (match overviewOf host characterId (characterOf ch) now _ c.db with
      | .ok o => _ | .error _ => none) = _
    rw [ho]
  obtain ⟨-, -, -, -, hcharges⟩ := overviewOf_eq_ok ho
  have hplain : ∀ q ∈ assignedRows characterId c.db, (schema.read .plannerTemplate q).id = q.id :=
    fun q hq => (hrows .plannerTemplate q (mem_assignedRows.mp hq).1).plain.cut
  rw [hreported, ← hplain r hr]
  refine find?_item (fun _ _ => chargeItem_templateId) (forall₂_of_mapM_ok hcharges)
    (List.mem_filter.mpr ⟨List.mem_map_of_mem hr, decide_eq_true htype⟩) fun q hq hid => ?_
  obtain ⟨q, hrow, rfl⟩ := List.mem_map.mp (List.mem_filter.mp hq).1
  rw [hplain q hrow, hplain r hr] at hid
  have hdistinct := h.rows.1.distinct .plannerTemplate
  exact congrArg _
    (hdistinct.eq_of_key (mem_assignedRows.mp hrow).1 (mem_assignedRows.mp hr).1 hid)

end

/-! ### The countdown tells the truth -/

/-- The uses of the last `hours` hours. -/
def usesInLast (host : Host) (characterId templateId : String) (hours : ℚ) (now : ℤ) (db : Db Row) :
    List PlannerChargeUse :=
  (db .plannerChargeUse).filter fun u => isUseOf characterId templateId u &&
    decide ((now : ℚ) - hours * 3600000 < useTime host u ∧ useTime host u ≤ now)

/-- What the overview at `now` says of a charge is what later overviews
show. -/
structure TellsTruth (host : Host) (characterId : String) (c : Conn) (templateId : String)
    (hours : ℚ) (m : Number) (now : ℤ) (item : PlannerChargeItem) : Prop where
  available : item.available =
    stacksLeft m (usesInLast host characterId templateId hours now c.db).length
  full : item.nextRechargeAt = none ↔ item.available = m
  next : ∀ text, item.nextRechargeAt = some text → ∃ recharge, host.parseDate text = some recharge ∧
    now < recharge ∧
    (∀ now', now ≤ now' → now' < recharge → ∃ same,
      reported host characterId now' c templateId = some same ∧ same.available = item.available) ∧
    ∃ later, reported host characterId recharge c templateId = some later ∧
      Number.lt item.available later.available = true

/-- Fewer uses than there are stacks are later than the oldest. -/
def OldestFrees (host : Host) (m : Number) (uses : List PlannerChargeUse) : Prop :=
  ∀ u ∈ uses, (∀ v ∈ uses, useTime host u ≤ useTime host v) →
    Number.lt (Number.ofInt (Window.laterThan (useTime host) u uses).length) m = true

section

variable {host : Host} {t now w : ℤ} {m : Number} {hours : ℚ} {characterId : String}
  {r : PlannerTemplate} {c : Conn}

theorem usesInLast_eq {db : Db Row} {templateId : String}
    (huses : ∀ u ∈ db .plannerChargeUse, UsedBy t u) (hnow : t ≤ now) (hw : hours * 3600000 = w) :
    usesInLast host characterId templateId hours now db =
      liveUses host characterId templateId w now db := by
  rw [liveUses, Window.live, List.filter_filter, usesInLast]
  refine List.filter_congr fun u hu => ?_
  obtain ⟨-, -, hle, -⟩ := useTime_of_usedBy host (huses u hu)
  rw [Bool.and_comm]
  congr 1
  rw [hw, decide_eq_decide]
  have hiff : (now : ℚ) - w < useTime host u ↔ now - w < useTime host u := by
    rw [← Int.cast_sub, Int.cast_lt]
  rw [hiff]
  exact ⟨And.left, fun h => ⟨h, by omega⟩⟩

/-- When fewer uses count, there are more stacks, if there are any. -/
theorem lt_stacksLeft_iff {x : ℚ} {k n : ℕ} (h : k < n) :
    Number.lt (stacksLeft (.fin x) n) (stacksLeft (.fin x) k) = true ↔ (k : ℚ) < x := by
  have hcast : (k : ℚ) < n := by exact_mod_cast h
  show Number.lt (.fin (max 0 (x - n))) (.fin (max 0 (x - k))) = true ↔ _
  rw [Number.lt_fin_iff]
  constructor
  · intro hlt
    by_contra hle
    rw [max_eq_left (by linarith), max_eq_left (by linarith)] at hlt
    exact lt_irrefl _ hlt
  · intro hlt
    rw [max_eq_right (by linarith : (0 : ℚ) ≤ x - k)]
    exact max_lt (by linarith) (by linarith)

/-- The same for an exact charge and the uses in its window. -/
theorem tellsTruth_iff_live (h : ChargeRun host t c) (ht : t ≤ now) (hnow : InEra now)
    (hcharacter : schema.hasKey c.db .appCharacter characterId)
    (hr : r ∈ assignedRows characterId c.db) (htype : r.type = .charge)
    (hexact : ExactCharge w m r) (hw : hours * 3600000 = w) :
    (∃ item, reported host characterId now c r.id = some item ∧
      TellsTruth host characterId c r.id hours m now item) ↔
      OldestFrees host m (usesInLast host characterId r.id hours now c.db) := by
  have huses : ∀ u ∈ c.db .plannerChargeUse, UsedBy t u := h.rows.1.rows .plannerChargeUse
  have hpos := hexact.pos
  have hle := hexact.le
  have hera := abs_le.mp hnow.size_le
  rw [usesInLast_eq huses ht hw]
  let live := fun s => liveUses host characterId r.id w s c.db
  -- what is reported at any time not too far from the years of the run
  have hat : ∀ s, |s| ≤ Date.maxTime - maxWindow → Date.FourDigitYear (s - w) →
      ∃ item, reported host characterId s c r.id = some item ∧
        item.available = stacksLeft m (live s).length ∧
        ((item.nextRechargeAt = none ∧ (live s = [] ∨ m = .posInf)) ∨
          ∃ u ∈ live s, (∀ v ∈ live s, useTime host u ≤ useTime host v) ∧
            item.nextRechargeAt = some (Date.isoString (useTime host u + w)) ∧ m ≠ .posInf) := by
    intro s hs hyear
    obtain ⟨item, hreported, hitem⟩ := reported_eq h hcharacter hr htype hs
    have hread : ExactCharge w m (schema.read .plannerTemplate r) :=
      ⟨hexact.window, hexact.pos, hexact.le, hexact.maxStacks, hexact.countable⟩
    have hid : (schema.read .plannerTemplate r).id = r.id :=
      (h.rows.1.rows .plannerTemplate r (mem_assignedRows.mp hr).1).plain.cut
    obtain ⟨item', hitem', -, havail, hnext⟩ := chargeItem_spec hread huses hs hyear
    rw [hitem] at hitem'
    cases hitem'
    rw [hid] at havail hnext
    exact ⟨item, hreported, havail, hnext⟩
  have hnow' : |now| ≤ Date.maxTime - maxWindow := abs_le.mpr (by unfold maxWindow at *; omega)
  obtain ⟨item, hreported, havail, hnext⟩ :=
    hat now hnow' (hnow.near (abs_le.mpr (by omega)))
  have hlive : usesInLast host characterId r.id hours now c.db = live now := usesInLast_eq huses ht hw
  rcases hnext with ⟨hnone, hfull⟩ | ⟨u, hu, hmin, hsome, hfinite⟩
  · -- nothing is missing, and nothing is said
    refine iff_of_true ⟨item, hreported, ?_, ?_, ?_⟩ ?_
    · rw [havail, hlive]
    · refine iff_of_true hnone ?_
      rw [havail]
      rcases hfull with hnil | rfl
      · rw [hnil, List.length_nil, stacksLeft_zero hexact.countable]
      · rfl
    · intro text htext
      rw [hnone] at htext
      cases htext
    · intro u hu _
      rcases hfull with hnil | rfl
      · have hin : u ∈ live now := hu
        rw [hnil] at hin
        cases hin
      · rfl
  · -- the recharge is when the oldest use runs out
    obtain ⟨x, rfl⟩ : ∃ x, m = .fin x := by
      cases m with
      | fin x => exact ⟨x, rfl⟩
      | posInf => exact absurd rfl hfinite
      | negInf => exact hexact.countable.elim
      | nan => exact hexact.countable.elim
    obtain ⟨hstored, hafter⟩ := Window.mem_live.mp hu
    obtain ⟨-, huera, hut, -⟩ :=
      useTime_of_usedBy host (huses u (List.mem_filter.mp hstored).1)
    have husize := abs_le.mp huera.size_le
    have hparse : host.parseDate (Date.isoString (useTime host u + w)) = some (useTime host u + w) :=
      host.parse_iso _ (abs_le.mpr (by omega))
    obtain ⟨later, hlater, hlavail, -⟩ := hat (useTime host u + w)
      (abs_le.mpr (by omega)) (by rw [add_sub_cancel_right]; exact huera.fourDigitYear)
    have hexpired : live (useTime host u + w) = Window.laterThan (useTime host) u (live now) :=
      Window.live_expired hu
    have hfewer : (Window.laterThan (useTime host) u (live now)).length < (live now).length :=
      Window.length_laterThan_lt hu
    have hmore : Number.lt item.available later.available = true ↔
        Number.lt (Number.ofInt (Window.laterThan (useTime host) u (live now)).length) (.fin x) =
          true := by
      rw [havail, hlavail, hexpired, lt_stacksLeft_iff hfewer]
      show _ ↔ Number.lt (.fin _) (.fin x) = true
      rw [Number.lt_fin_iff, Int.cast_natCast]
    constructor
    · rintro ⟨item', hreported', htruth⟩ v hv hvmin
      rw [hreported] at hreported'
      cases hreported'
      obtain ⟨recharge, hrecharge, -, -, later', hlater', hlt⟩ := htruth.next _ hsome
      rw [hparse] at hrecharge
      cases hrecharge
      rw [hlater] at hlater'
      cases hlater'
      have hsame : useTime host v = useTime host u := le_antisymm (hvmin u hu) (hmin v hv)
      have hcount : Window.laterThan (useTime host) v (live now) =
          Window.laterThan (useTime host) u (live now) := by
        rw [Window.laterThan, hsame, Window.laterThan]
      exact hcount ▸ hmore.mp hlt
    · intro hfrees
      refine ⟨item, hreported, ?_, ?_, ?_⟩
      · rw [havail, hlive]
      · rw [hsome]
        refine iff_of_false (Option.some_ne_none _) fun heq => ?_
        have hself : Number.le (.fin x) (stacksLeft (.fin x) (live now).length) = true := by
          rw [← havail, heq, Number.le_fin_iff]
        rcases (le_stacksLeft_iff hexact.countable _).mp hself with hzero | hinf
        · exact absurd hfewer (by omega)
        · cases hinf
      · intro text htext
        rw [hsome] at htext
        cases htext
        refine ⟨_, hparse, by omega, fun now' h₀ h₁ => ?_, later, hlater,
          hmore.mpr (hfrees u hu hmin)⟩
        obtain ⟨same, hsame, hsavail, -⟩ := hat now' (abs_le.mpr (by omega))
          (hnow.near (abs_le.mpr (by omega)))
        refine ⟨same, hsame, ?_⟩
        have huntil : live now' = live now := Window.live_until hmin h₀ h₁
        rw [hsavail, havail, huntil]

/-- **The countdown tells the truth exactly when the oldest use frees a
stack**, for recharge hours that are a whole number of milliseconds and stacks
below `2 ^ 53` or infinitely many, at any time of any run. -/
theorem tellsTruth_iff (h : ChargeRun host t c) (ht : t ≤ now) (hnow : InEra now)
    (hcharacter : schema.hasKey c.db .appCharacter characterId)
    (hr : r ∈ assignedRows characterId c.db) (htype : r.type = .charge)
    (hhours : r.rechargeHours = some (.fin hours)) (hwhole : hours * 3600000 = w)
    (hm : r.maxStacks = some m) (hone : Number.le 1 m = true)
    (hcount : m = .posInf ∨ Number.lt m (Number.ofInt (2 ^ 53)) = true) :
    (∃ item, reported host characterId now c r.id = some item ∧
      TellsTruth host characterId c r.id hours m now item) ↔
      OldestFrees host m (usesInLast host characterId r.id hours now c.db) := by
  obtain ⟨⟨q, hq, hdouble, hpos, hle⟩, hstacks⟩ :=
    (h.rows.1.rows .plannerTemplate r (mem_assignedRows.mp hr).1).numbers htype
  obtain rfl : hours = q := by
    rw [hhours] at hq
    cases hq
    rfl
  refine tellsTruth_iff_live h ht hnow hcharacter hr htype ⟨?_, ?_, ?_, ?_, ?_⟩ hwhole
  · rw [hhours]
    exact windowMs_whole hdouble hpos hle hwhole
  · have : (0 : ℚ) < w := hwhole ▸ by linarith
    exact_mod_cast this
  · have : (w : ℚ) ≤ 3600000000000 := hwhole ▸ by linarith
    exact_mod_cast this
  · rw [hm]
    rfl
  · rcases hcount with rfl | hlt
    · trivial
    · cases m with
      | fin x =>
          refine ⟨hstacks _ hm, Number.le_fin_iff.mp hone, ?_⟩
          have hx := Number.lt_fin_iff.mp hlt
          exact_mod_cast hx
      | posInf => trivial
      | negInf => cases hone
      | nan => cases hone

end

/-! ### Two short runs -/

/-- A daily charge with one stack has been created. -/
def withDailyCharge : Conn :=
  ((Op.createPlannerTemplate ⟨"Raid", .charge, none, some 24, some 1⟩ templateDraw).run
    (Host.iso (Zone.fixed 0)) withCharacter).2

/-- It is used at the time 3. -/
def withOneUse : Conn :=
  ((Op.useCharge "c1" "t1" none "u1" 3).run (Host.iso (Zone.fixed 0)) withDailyCharge).2

/-- It is used again, though no stack is left. -/
def withTwoUses : Conn :=
  ((Op.useCharge "c1" "t1" none "u2" 4).run (Host.iso (Zone.fixed 0)) withOneUse).2

def dailyCharge : PlannerTemplate :=
  ⟨"t1", "Raid", .charge, 0, some 24, some 1, stamp 2, stamp 2⟩

theorem isDouble_intCast {n : ℤ} (h : |n| ≤ 2 ^ 53) : Number.IsDouble (Number.ofInt n) :=
  Number.toDouble_intCast h

theorem chargeRun_withDailyCharge : ChargeRun (Host.iso (Zone.fixed 0)) 2 withDailyCharge := by
  have hdistinct : schema.Distinct withCharacter.db := by
    intro table
    cases table with
    | appCharacter => exact List.pairwise_singleton _ _
    | plannerSettings => exact List.pairwise_singleton _ _
    | _ => exact List.Pairwise.nil
  have hnumbers : ChargeNumbers (some 24) (some 1) := by
    have h24 : Number.IsDouble (Number.ofInt 24) := isDouble_intCast (by norm_num)
    have h1 : Number.IsDouble (Number.ofInt 1) := isDouble_intCast (by norm_num)
    refine ⟨⟨24, rfl, h24, by norm_num, by norm_num⟩, fun m hm => ?_⟩
    cases hm
    exact h1
  have hstart : ChargeRun (Host.iso (Zone.fixed 0)) 1 withCharacter :=
    .start hdistinct (fun hon => Bool.noConfusion hon) rfl rfl rfl
  have hera : InEra 2 := by decide
  have hstep : ChargeStep (Host.iso (Zone.fixed 0)) 2
      (.createPlannerTemplate ⟨"Raid", .charge, none, some 24, some 1⟩ templateDraw) :=
    ⟨rfl, fun _ => hnumbers⟩
  exact hstart.step (by decide) hera hstep

theorem chargeRun_withOneUse : ChargeRun (Host.iso (Zone.fixed 0)) 3 withOneUse := by
  have hstep : ChargeStep (Host.iso (Zone.fixed 0)) 3 (.useCharge "c1" "t1" none "u1" 3) := rfl
  exact chargeRun_withDailyCharge.step (by decide) (by decide) hstep

theorem chargeRun_withTwoUses : ChargeRun (Host.iso (Zone.fixed 0)) 4 withTwoUses := by
  have hstep : ChargeStep (Host.iso (Zone.fixed 0)) 4 (.useCharge "c1" "t1" none "u2" 4) := rfl
  exact chargeRun_withOneUse.step (by decide) (by decide) hstep

/-- The daily charge is shown to the character. -/
theorem assigned_dailyCharge {c : Conn} (ht : c.db .plannerTemplate = [dailyCharge])
    (ha : c.db .plannerAssignment = [⟨"assign:t1:c1", "c1", "t1", true, none, stamp 2, stamp 2⟩]) :
    dailyCharge ∈ assignedRows "c1" c.db := by
  rw [mem_assignedRows, ht, ha]
  exact ⟨List.mem_cons_self, _, List.mem_cons_self, rfl, rfl, rfl⟩

theorem tellsTruth_iff_oneUse : ∃ item,
    reported (Host.iso (Zone.fixed 0)) "c1" 5 withOneUse "t1" = some item ∧
      TellsTruth (Host.iso (Zone.fixed 0)) "c1" withOneUse "t1" 24 1 5 item := by
  have hcharacter : schema.hasKey withOneUse.db .appCharacter "c1" :=
    ⟨⟨"c1", "Kaisinel", none, none, stamp 1, stamp 1⟩, List.mem_cons_self, rfl⟩
  have hmax : Number.lt 1 (Number.ofInt (2 ^ 53)) = true := by
    show Number.lt (Number.ofInt 1) (Number.ofInt (2 ^ 53)) = true
    rw [Number.lt_ofInt]
    rfl
  have hiff := @tellsTruth_iff (Host.iso (Zone.fixed 0)) 3 5 86400000 1 24 "c1" dailyCharge
    withOneUse chargeRun_withOneUse (by decide) (by decide) hcharacter
    (assigned_dailyCharge rfl rfl) rfl rfl (by norm_num) rfl (by decide) (.inr hmax)
  refine hiff.mpr fun u hu _ => ?_
  have hlen : ∀ id, (usesInLast (Host.iso (Zone.fixed 0)) "c1" id 24 5 withOneUse.db).length ≤ 1 :=
    fun id => List.length_filter_le _ _
  have hlater := @Window.length_laterThan_lt _ (useTime (Host.iso (Zone.fixed 0))) _ _ hu
  have hzero := Nat.lt_one_iff.mp (hlater.trans_le (hlen _))
  rw [hzero]
  rfl

/-- The countdown does not tell the truth in every state of a run: after two
uses of one stack it names a time at which none comes back. -/
theorem exists_not_tellsTruth : ∃ c, ChargeRun (Host.iso (Zone.fixed 0)) 4 c ∧
    schema.hasKey c.db .appCharacter "c1" ∧ dailyCharge ∈ assignedRows "c1" c.db ∧
    ¬ ∃ item, reported (Host.iso (Zone.fixed 0)) "c1" 5 c "t1" = some item ∧
      TellsTruth (Host.iso (Zone.fixed 0)) "c1" c "t1" 24 1 5 item := by
  have hcharacter : schema.hasKey withTwoUses.db .appCharacter "c1" :=
    ⟨⟨"c1", "Kaisinel", none, none, stamp 1, stamp 1⟩, List.mem_cons_self, rfl⟩
  have hassigned : dailyCharge ∈ assignedRows "c1" withTwoUses.db :=
    assigned_dailyCharge rfl rfl
  have hexact : ExactCharge 86400000 1 dailyCharge := by
    refine ⟨windowMs_ofInt (by decide) (by decide), by decide, by decide, rfl, ?_⟩
    exact ⟨isDouble_intCast (n := 1) (by norm_num), le_refl 1, by norm_num⟩
  have htime : ∀ s, Date.Valid s → ∀ id, useTime (Host.iso (Zone.fixed 0))
      ⟨id, "c1", "t1", Date.isoString s⟩ = s := fun s hs id => by
    rw [useTime, (Host.iso (Zone.fixed 0)).parse_iso s hs, Option.getD_some]
  have h3 : useTime (Host.iso (Zone.fixed 0)) ⟨"u1", "c1", "t1", Date.isoString 3⟩ = 3 :=
    htime 3 (by decide) "u1"
  have h4 : useTime (Host.iso (Zone.fixed 0)) ⟨"u2", "c1", "t1", Date.isoString 4⟩ = 4 :=
    htime 4 (by decide) "u2"
  have hrecent : ∀ {u : PlannerChargeUse} {s : ℤ}, useTime (Host.iso (Zone.fixed 0)) u = s →
      0 ≤ s → s ≤ 5 → ((5 : ℤ) : ℚ) - 24 * 3600000 < useTime (Host.iso (Zone.fixed 0)) u ∧
        useTime (Host.iso (Zone.fixed 0)) u ≤ 5 := by
    rintro u s rfl h₀ h₅
    have hcast : (0 : ℚ) ≤ useTime (Host.iso (Zone.fixed 0)) u := by exact_mod_cast h₀
    exact ⟨by norm_num; linarith, h₅⟩
  refine ⟨withTwoUses, chargeRun_withTwoUses, hcharacter, hassigned, fun htruth => ?_⟩
  have hfrees := (tellsTruth_iff_live chargeRun_withTwoUses (by decide) (by decide) hcharacter
    hassigned rfl hexact (by norm_num)).mp htruth
  have hlive : usesInLast (Host.iso (Zone.fixed 0)) "c1" dailyCharge.id 24 5 withTwoUses.db =
      [⟨"u1", "c1", "t1", Date.isoString 3⟩, ⟨"u2", "c1", "t1", Date.isoString 4⟩] := by
    refine List.filter_eq_self.mpr fun u hu => Bool.and_eq_true_iff.mpr ⟨?_, decide_eq_true ?_⟩
    · rcases List.mem_pair.mp hu with rfl | rfl <;> rfl
    · rcases List.mem_pair.mp hu with rfl | rfl
      · exact hrecent h3 (by decide) (by decide)
      · exact hrecent h4 (by decide) (by decide)
  rw [hlive] at hfrees
  have hlt := hfrees _ List.mem_cons_self fun v hv => by
    rcases List.mem_pair.mp hv with rfl | rfl
    · exact le_refl _
    · rw [h3, h4]
      decide
  have hlater : Window.laterThan (useTime (Host.iso (Zone.fixed 0)))
      ⟨"u1", "c1", "t1", Date.isoString 3⟩ [⟨"u1", "c1", "t1", Date.isoString 3⟩,
        ⟨"u2", "c1", "t1", Date.isoString 4⟩] = [⟨"u2", "c1", "t1", Date.isoString 4⟩] := by
    rw [Window.laterThan, List.filter_cons_of_neg, List.filter_cons_of_pos, List.filter_nil]
    · rw [h3, h4]
      decide
    · simp
  rw [hlater] at hlt
  exact absurd hlt (by decide)

end Hub
