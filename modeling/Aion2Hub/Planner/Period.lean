/-
Aion2Hub/Planner/Period.lean

The planner's calendar: the period keys of the main process
(`main/planner/period.ts`) and the next reset instants of the renderer
(`renderer/src/planner/reset.ts`), which recomputes the period start with
code of its own.

In a zone with a fixed offset both are the same two cycles, one of a day and
one of a week, as long as no instant on the way leaves the range of dates:
`dailyPeriodStart_eq` and `weeklyPeriodStart_eq` are the two facts about the
code that the results on period keys are taken from.
-/
import Aion2Hub.Lib.Cycle
import Aion2Hub.Lib.Host

namespace Hub

open Date

/-! ### Reset times -/

/-- Hour and minute of a reset. -/
structure Hhmm where
  hour : ℤ
  minute : ℤ
  deriving DecidableEq

/-- `\d` -/
def isDigit (c : Char) : Bool := '0' ≤ c && c ≤ '9'

/-- The groups of `/^(\d{1,2}):(\d{2})$/`. -/
def hhmmGroups : List Char → Option (List Char × List Char)
  | [a, ':', c, d] => if isDigit a && isDigit c && isDigit d then some ([a], [c, d]) else none
  | [a, b, ':', c, d] =>
      if isDigit a && isDigit b && isDigit c && isDigit d then some ([a, b], [c, d]) else none
  | _ => none

/-- A text that is a time of day.  The groups are digits, so only the upper
bounds of the source's checks can fail. -/
def matchHhmm (hhmm : String) : Option Hhmm :=
  (hhmmGroups (Text.trim hhmm).toList).bind fun p =>
    if 23 < Decimal.value p.1 ∨ 59 < Decimal.value p.2 then none
    else some ⟨Decimal.value p.1, Decimal.value p.2⟩

/-- `parseHhmm` of the main process: 9:00 when the text is no time. -/
def parseHhmm (hhmm : String) : Hhmm := (matchHhmm hhmm).getD ⟨9, 0⟩

/-- Milliseconds from midnight to the reset. -/
def Hhmm.ms (r : Hhmm) : ℤ := r.hour * 3600000 + r.minute * 60000

theorem parseHhmm_range (hhmm : String) :
    0 ≤ (parseHhmm hhmm).ms ∧ (parseHhmm hhmm).ms < msPerDay := by
  unfold parseHhmm
  rcases h : matchHhmm hhmm with _ | r
  · exact ⟨by decide, by decide⟩
  · obtain ⟨p, -, hp⟩ := Option.bind_eq_some_iff.mp h
    split at hp
    · cases hp
    · rename_i hb
      cases hp
      push Not at hb
      show 0 ≤ (Decimal.value p.1 : ℤ) * 3600000 + (Decimal.value p.2 : ℤ) * 60000 ∧
        (Decimal.value p.1 : ℤ) * 3600000 + (Decimal.value p.2 : ℤ) * 60000 < 86400000
      omega

/-! ### Texts of dates -/

/-- `String(n).padStart(2, "0")`. -/
def pad2 (n : ℤ) : String := String.ofList (n.repr.toList.leftpad 2 '0')

/-- Year, month and day of a date. -/
def civilText (c : Calendar.Civil) : String :=
  c.year.repr ++ "-" ++ pad2 (c.month + 1) ++ "-" ++ pad2 c.day

/-- The parts of an invalid date are NaN. -/
def formatLocalDateKey (z : Zone) (d : Option ℤ) : String :=
  match d with
  | some t => civilText (civil z t)
  | none => "NaN-NaN-NaN"

theorem toList_pad2 {n : ℤ} (h₀ : 0 ≤ n) (h₁ : n < 100) :
    (pad2 n).toList = Decimal.fixed 2 n.toNat := by
  have key : ∀ k < 100, (Nat.toDigits 10 k).leftpad 2 '0' = Decimal.fixed 2 k := by decide
  obtain ⟨k, rfl⟩ := Int.eq_ofNat_of_zero_le h₀
  show (String.ofList ((Nat.repr k).toList.leftpad 2 '0')).toList = Decimal.fixed 2 k
  rw [String.toList_ofList, Nat.toList_repr]
  exact key k (by omega)

theorem pad2_injective {m n : ℤ} (hm : 0 ≤ m ∧ m < 100) (hn : 0 ≤ n ∧ n < 100)
    (h : (pad2 m).toList = (pad2 n).toList) : m = n := by
  rw [toList_pad2 hm.1 hm.2, toList_pad2 hn.1 hn.2] at h
  have hval := congrArg Decimal.value h
  rw [Decimal.value_fixed, Decimal.value_fixed] at hval
  omega

theorem natText_injective {m n : ℕ} (h : m.repr = n.repr) : m = n := by
  have hdigits := congrArg (fun s : String => Nat.ofDigitChars 10 s.toList 0) h
  simpa using hdigits

/-- Only a negative number is written with a sign. -/
theorem intText_injective {a b : ℤ} (h : a.repr = b.repr) : a = b := by
  have hsign : ∀ m n : ℕ, m.repr ≠ "-" ++ n.repr := by
    intro m n heq
    have hmem : '-' ∈ m.repr.toList := by simp [heq]
    rw [Nat.toList_repr] at hmem
    exact absurd (Nat.isDigit_of_mem_toDigits (by decide) (by decide) hmem) (by decide)
  cases a with
  | ofNat m =>
      cases b with
      | ofNat n => exact congrArg Int.ofNat (natText_injective h)
      | negSucc n => exact absurd h (hsign m (n + 1))
  | negSucc m =>
      cases b with
      | ofNat n => exact absurd h.symm (hsign n (m + 1))
      | negSucc n =>
          have hsucc := natText_injective ((String.append_right_inj "-").mp h)
          exact congrArg Int.negSucc (Nat.succ.inj hsucc)

/-- The text of a day determines the day. -/
theorem civilText_ofDay_injective {a b : ℤ}
    (h : civilText (Calendar.ofDay a) = civilText (Calendar.ofDay b)) : a = b := by
  obtain ⟨ma₀, ma₁, da₀, da₁⟩ := Calendar.ofDay_range a
  obtain ⟨mb₀, mb₁, db₀, db₁⟩ := Calendar.ofDay_range b
  refine Calendar.ofDay_injective ?_
  have hlen : ∀ {n : ℤ}, 0 ≤ n → n < 100 → (pad2 n).toList.length = 2 := fun h₀ h₁ => by
    rw [toList_pad2 h₀ h₁, Decimal.length_fixed]
  have hl := congrArg String.toList h
  unfold civilText at hl
  simp only [String.toList_append] at hl
  obtain ⟨hl, hday⟩ := List.append_inj' hl
    (by rw [hlen (by omega) (by omega), hlen (by omega) (by omega)])
  obtain ⟨hl, -⟩ := List.append_inj' hl rfl
  obtain ⟨hl, hmonth⟩ := List.append_inj' hl
    (by rw [hlen (by omega) (by omega), hlen (by omega) (by omega)])
  obtain ⟨hyear, -⟩ := List.append_inj' hl rfl
  have hy := intText_injective (String.toList_injective hyear)
  have hm := pad2_injective (by omega) (by omega) hmonth
  have hd := pad2_injective (by omega) (by omega) hday
  revert hy hm hd
  generalize Calendar.ofDay a = ca
  generalize Calendar.ofDay b = cb
  intro hy hm hd
  obtain ⟨ya, ma, da⟩ := ca
  obtain ⟨yb, mb, db⟩ := cb
  simp only at hy hm hd
  rw [hy, hd, show ma = mb by omega]

/-! ### Period starts -/

/-- `dailyPeriodKey` up to the formatting: today's reset, or yesterday's
when it is still to come.  A comparison with an invalid date is false. -/
def dailyPeriodStart (z : Zone) (now : ℤ) (dailyResetHhmm : String) : Option ℤ :=
  let r := parseHhmm dailyResetHhmm
  let start := setHours z (some now) r.hour r.minute
  if start.any (now < ·) then setDate z start fun x => x - 1 else start

def dailyPeriodKey (z : Zone) (now : ℤ) (dailyResetHhmm : String) : String :=
  "D:" ++ formatLocalDateKey z (dailyPeriodStart z now dailyResetHhmm)

/-- `Number.isFinite(day) ? Math.max(0, Math.min(6, day)) : 1`. -/
def clampResetDay (weeklyResetDay : Number) : Number :=
  if weeklyResetDay.isFinite then Number.atLeast 0 (Number.atMost 6 weeklyResetDay) else 1

/-- `(nowDay - resetDay + 7) % 7`. -/
def daysSinceReset (nowDay : ℤ) (resetDay : Number) : Number :=
  Number.mod (Number.add (Number.sub (Number.ofInt nowDay) resetDay) 7) 7

/-- `weeklyPeriodKey` up to the formatting. -/
def weeklyPeriodStart (z : Zone) (now : ℤ) (dailyResetHhmm : String) (weeklyResetDay : Number) :
    Option ℤ :=
  let r := parseHhmm dailyResetHhmm
  let since := daysSinceReset (getDay z now) (clampResetDay weeklyResetDay)
  let day := setDateTo z (some now) fun x => Number.sub (Number.ofInt x) since
  let start := setHours z day r.hour r.minute
  if start.any (now < ·) then setDate z start fun x => x - 7 else start

def weeklyPeriodKey (z : Zone) (now : ℤ) (dailyResetHhmm : String) (weeklyResetDay : Number) :
    String :=
  "W:" ++ formatLocalDateKey z (weeklyPeriodStart z now dailyResetHhmm weeklyResetDay)

/-! ### The renderer -/

namespace Renderer

/-- The renderer's `parseHhmm` also says whether the text was a time. -/
def parseHhmm (hhmm : String) : Bool × Hhmm :=
  ((matchHhmm hhmm).isSome, (matchHhmm hhmm).getD ⟨9, 0⟩)

theorem parseHhmm_snd (hhmm : String) : (parseHhmm hhmm).2 = Hub.parseHhmm hhmm := rfl

def nextDailyResetAt (z : Zone) (now : ℤ) (dailyResetHhmm : String) : Option ℤ :=
  let r := (parseHhmm dailyResetHhmm).2
  let reset := setHours z (some now) r.hour r.minute
  if reset.any (now < ·) then reset else setDate z reset fun x => x + 1

/-- The same statements as in `weeklyPeriodKey`. -/
def weeklyResetStartAt (z : Zone) (now : ℤ) (dailyResetHhmm : String) (weeklyResetDay : Number) :
    Option ℤ :=
  weeklyPeriodStart z now dailyResetHhmm weeklyResetDay

def nextWeeklyResetAt (z : Zone) (now : ℤ) (dailyResetHhmm : String) (weeklyResetDay : Number) :
    Option ℤ :=
  setDate z (weeklyResetStartAt z now dailyResetHhmm weeklyResetDay) fun x => x + 7

end Renderer

/-! ### The two cycles -/

/-- The daily resets in the zone with offset `o`. -/
def dailyCycle (o : ℤ) (r : Hhmm) : PeriodCycle := ⟨msPerDay, r.ms - o, by decide⟩

/-- The weekly resets on weekday `day`; day 0 of the calendar is a
Thursday. -/
def weeklyCycle (o : ℤ) (r : Hhmm) (day : ℤ) : PeriodCycle :=
  ⟨7 * msPerDay, (day - 4) * msPerDay + r.ms - o, by decide⟩

/-- The weekday an integer setting stands for. -/
def resetDay (day : ℤ) : ℤ := max 0 (min 6 day)

theorem resetDay_range (day : ℤ) : 0 ≤ resetDay day ∧ resetDay day ≤ 6 := by
  unfold resetDay
  omega

theorem clampResetDay_ofInt (day : ℤ) : clampResetDay (Number.ofInt day) = Number.ofInt (resetDay day) :=
  (congrArg (Number.atLeast (Number.ofInt 0)) (Number.atMost_ofInt 6 day)).trans
    (Number.atLeast_ofInt 0 _)

theorem daysSinceReset_ofInt {nowDay day : ℤ} (hn : 0 ≤ nowDay ∧ nowDay ≤ 6)
    (hd : 0 ≤ day ∧ day ≤ 6) :
    daysSinceReset nowDay (Number.ofInt day) = Number.ofInt ((nowDay - day + 7) % 7) := by
  have hsub : Number.sub (Number.ofInt nowDay) (Number.ofInt day) = Number.ofInt (nowDay - day) :=
    Number.sub_ofInt (abs_le.mpr ⟨by omega, by omega⟩)
  have hadd : Number.add (Number.ofInt (nowDay - day)) (Number.ofInt 7) =
      Number.ofInt (nowDay - day + 7) :=
    Number.add_ofInt (abs_le.mpr ⟨by omega, by omega⟩)
  show Number.mod (Number.add (Number.sub _ _) (Number.ofInt 7)) (Number.ofInt 7) = _
  rw [hsub, hadd, Number.mod_ofInt (by omega) (by omega)]

section

variable {o now : ℤ} {hhmm : String}

/-- Today's reset, in the zone with offset `o`. -/
def todaysReset (o now : ℤ) (r : Hhmm) : ℤ := (now + o) / msPerDay * msPerDay + r.ms - o

theorem todaysReset_near (o now : ℤ) (hhmm : String) :
    now - msPerDay < todaysReset o now (parseHhmm hhmm) ∧
      todaysReset o now (parseHhmm hhmm) < now + msPerDay := by
  obtain ⟨h₀, h₁⟩ := parseHhmm_range hhmm
  unfold todaysReset
  unfold msPerDay at *
  omega

theorem todaysReset_on (o now : ℤ) (r : Hhmm) : (dailyCycle o r).On (todaysReset o now r) := by
  refine ⟨(now + o) / msPerDay, ?_⟩
  show (now + o) / msPerDay * msPerDay + r.ms - o - (r.ms - o) = msPerDay * _
  rw [mul_comm msPerDay]
  omega

theorem setHours_today (h : Inside 1 1 now) :
    setHours (.fixed o) (some now) (parseHhmm hhmm).hour (parseHhmm hhmm).minute =
      some (todaysReset o now (parseHhmm hhmm)) := by
  obtain ⟨h₀, h₁⟩ := todaysReset_near o now hhmm
  exact h.timeClip (by rw [one_mul]; exact h₀.le) (by rw [one_mul]; exact h₁.le)

/-- The daily start is the start of the day's cycle. -/
theorem dailyPeriodStart_eq (h : Inside 1 1 now) :
    dailyPeriodStart (.fixed o) now hhmm = some ((dailyCycle o (parseHhmm hhmm)).start now) := by
  obtain ⟨h₀, h₁⟩ := todaysReset_near o now hhmm
  have hon := todaysReset_on o now (parseHhmm hhmm)
  show (if Option.any _ (setHours _ _ _ _) = true then _ else _) = _
  rw [setHours_today h]
  split
  · rename_i hlt
    have hlt : now < todaysReset o now (parseHhmm hhmm) := of_decide_eq_true hlt
    rw [setDate_fixed_sub, one_mul, h.timeClip (by omega) (by omega),
      PeriodCycle.start_of_lt _ hon hlt h₁.le]
    rfl
  · rename_i hge
    have hge : ¬ now < todaysReset o now (parseHhmm hhmm) := fun hlt => hge (decide_eq_true hlt)
    refine congrArg some (PeriodCycle.start_unique _ hon (by omega) ?_).symm
    show now < _ + msPerDay
    omega

/-- The renderer's next daily reset is the end of the day's cycle. -/
theorem nextDailyResetAt_eq (h : Inside 1 1 now) : Renderer.nextDailyResetAt (.fixed o) now hhmm =
    some ((dailyCycle o (parseHhmm hhmm)).next now) := by
  obtain ⟨h₀, h₁⟩ := todaysReset_near o now hhmm
  have hon := todaysReset_on o now (parseHhmm hhmm)
  unfold Renderer.nextDailyResetAt
  dsimp only
  rw [Renderer.parseHhmm_snd, setHours_today h]
  split
  · rename_i hlt
    exact congrArg some (PeriodCycle.next_of_lt _ hon (of_decide_eq_true hlt) h₁.le).symm
  · rename_i hge
    have hge : ¬ now < todaysReset o now (parseHhmm hhmm) := fun hlt => hge (decide_eq_true hlt)
    have hstart : (dailyCycle o (parseHhmm hhmm)).start now = todaysReset o now (parseHhmm hhmm) :=
      PeriodCycle.start_unique _ hon (by omega) (by show now < _ + msPerDay; omega)
    rw [setDate_fixed, one_mul, h.timeClip (by omega) (by omega), PeriodCycle.next, hstart]
    rfl

/-- The reset time on the last reset day, today included. -/
def thisWeeksReset (o now : ℤ) (r : Hhmm) (day : ℤ) : ℤ :=
  ((now + o) / msPerDay - (Calendar.weekDay ((now + o) / msPerDay) - day + 7) % 7) * msPerDay +
    r.ms - o

theorem thisWeeksReset_near (o now : ℤ) (hhmm : String) (day : ℤ) :
    now - 7 * msPerDay < thisWeeksReset o now (parseHhmm hhmm) day ∧
      thisWeeksReset o now (parseHhmm hhmm) day < now + msPerDay := by
  obtain ⟨h₀, h₁⟩ := parseHhmm_range hhmm
  unfold thisWeeksReset
  unfold msPerDay at *
  omega

/-- The reset on the last reset day up to the day `q`. -/
theorem weeklyCycle_on (o q : ℤ) (r : Hhmm) (day : ℤ) : (weeklyCycle o r day).On
    ((q - (Calendar.weekDay q - day + 7) % 7) * msPerDay + r.ms - o) := by
  have hdvd : ∃ k, q - (Calendar.weekDay q - day + 7) % 7 - (day - 4) = 7 * k := by
    unfold Calendar.weekDay
    exact ⟨_, (Int.mul_ediv_cancel' (by omega)).symm⟩
  obtain ⟨k, hk⟩ := hdvd
  refine ⟨k, ?_⟩
  show _ * msPerDay + r.ms - o - ((day - 4) * msPerDay + r.ms - o) = 7 * msPerDay * k
  rw [mul_right_comm, ← hk]
  ring

theorem thisWeeksReset_on (o now : ℤ) (r : Hhmm) (day : ℤ) :
    (weeklyCycle o r day).On (thisWeeksReset o now r day) :=
  weeklyCycle_on o _ r day

theorem setHours_thisWeek (h : Inside 7 1 now) {day : ℤ} (hd : 0 ≤ day ∧ day ≤ 6) :
    setHours (.fixed o)
        (setDateTo (.fixed o) (some now) fun x => Number.sub (Number.ofInt x)
          (daysSinceReset (getDay (.fixed o) now) (Number.ofInt day)))
        (parseHhmm hhmm).hour (parseHhmm hhmm).minute =
      some (thisWeeksReset o now (parseHhmm hhmm) day) := by
  obtain ⟨h₀, h₁⟩ := thisWeeksReset_near o now hhmm day
  have hday : 0 ≤ getDay (.fixed o) now ∧ getDay (.fixed o) now ≤ 6 := by
    show 0 ≤ ((now + o) / msPerDay + 4) % 7 ∧ ((now + o) / msPerDay + 4) % 7 ≤ 6
    omega
  let since := (getDay (.fixed o) now - day + 7) % 7
  have hsince : 0 ≤ since ∧ since ≤ 6 := by
    show 0 ≤ (_ : ℤ) % 7 ∧ (_ : ℤ) % 7 ≤ 6
    omega
  have hsub : ∀ x : ℤ, 1 ≤ x → x ≤ 31 →
      Number.sub (Number.ofInt x) (Number.ofInt since) = Number.ofInt (x - since) :=
    fun x hx₁ hx₂ => Number.sub_ofInt (abs_le.mpr ⟨by omega, by omega⟩)
  have hmul : 0 ≤ since * msPerDay ∧ since * msPerDay ≤ 6 * msPerDay := by
    unfold msPerDay
    omega
  have hlocal : (now - since * msPerDay + o) / msPerDay = (now + o) / msPerDay - since := by
    unfold msPerDay
    omega
  rw [daysSinceReset_ofInt hday hd, setDateTo_ofInt hsub, setDate_fixed_sub,
    h.timeClip (by omega) (by unfold msPerDay at *; omega), setHours_fixed, hlocal]
  exact h.timeClip h₀.le (by rw [one_mul]; exact h₁.le)

/-- The weekly start is the start of the week's cycle. -/
theorem weeklyPeriodStart_eq (h : Inside 7 1 now) (day : ℤ) :
    weeklyPeriodStart (.fixed o) now hhmm (Number.ofInt day) =
      some ((weeklyCycle o (parseHhmm hhmm) (resetDay day)).start now) := by
  obtain ⟨h₀, h₁⟩ := thisWeeksReset_near o now hhmm (resetDay day)
  have hon := thisWeeksReset_on o now (parseHhmm hhmm) (resetDay day)
  unfold weeklyPeriodStart
  dsimp only
  rw [clampResetDay_ofInt, setHours_thisWeek h (resetDay_range day)]
  split
  · rename_i hlt
    have hlt : now < thisWeeksReset o now (parseHhmm hhmm) (resetDay day) := of_decide_eq_true hlt
    have hpos : 0 < msPerDay := by decide
    rw [setDate_fixed_sub, h.timeClip (by omega) (by omega),
      PeriodCycle.start_of_lt _ hon hlt (by show _ ≤ now + 7 * msPerDay; omega)]
    rfl
  · rename_i hge
    have hge : ¬ now < thisWeeksReset o now (parseHhmm hhmm) (resetDay day) :=
      fun hlt => hge (decide_eq_true hlt)
    refine congrArg some (PeriodCycle.start_unique _ hon (by omega) ?_).symm
    show now < _ + 7 * msPerDay
    omega

/-- The renderer's next weekly reset is the end of the week's cycle. -/
theorem nextWeeklyResetAt_eq (h : Inside 7 7 now) (day : ℤ) :
    Renderer.nextWeeklyResetAt (.fixed o) now hhmm (Number.ofInt day) =
      some ((weeklyCycle o (parseHhmm hhmm) (resetDay day)).next now) := by
  have hinside : Inside 7 1 now :=
    ⟨h.1, h.valid (by unfold msPerDay; omega) (by unfold msPerDay; omega)⟩
  have hle := PeriodCycle.start_le (weeklyCycle o (parseHhmm hhmm) (resetDay day)) now
  have hlt := PeriodCycle.lt_next (weeklyCycle o (parseHhmm hhmm) (resetDay day)) now
  unfold Renderer.nextWeeklyResetAt Renderer.weeklyResetStartAt
  rw [weeklyPeriodStart_eq hinside, setDate_fixed]
  refine h.timeClip ?_ ?_
  · have hpos : 0 < msPerDay := by decide
    refine le_trans ?_ hlt.le
    omega
  · exact add_le_add_left hle _

theorem dailyPeriodKey_eq (h : Inside 1 1 now) : dailyPeriodKey (.fixed o) now hhmm =
    "D:" ++ civilText (civil (.fixed o) ((dailyCycle o (parseHhmm hhmm)).start now)) := by
  rw [dailyPeriodKey, dailyPeriodStart_eq h]
  rfl

theorem weeklyPeriodKey_eq (h : Inside 7 1 now) (day : ℤ) :
    weeklyPeriodKey (.fixed o) now hhmm (Number.ofInt day) = "W:" ++ civilText
      (civil (.fixed o) ((weeklyCycle o (parseHhmm hhmm) (resetDay day)).start now)) := by
  rw [weeklyPeriodKey, weeklyPeriodStart_eq h]
  rfl

/-- Two resets with one date are one. -/
theorem eq_of_civilText {r : Hhmm} {s s' : ℤ} (hs : (dailyCycle o r).On s)
    (hs' : (dailyCycle o r).On s')
    (h : civilText (civil (.fixed o) s) = civilText (civil (.fixed o) s')) : s = s' := by
  have hday : (s + o) / msPerDay = (s' + o) / msPerDay := civilText_ofDay_injective h
  obtain ⟨k, hk⟩ := hs
  obtain ⟨k', hk'⟩ := hs'
  have hk : s - (r.ms - o) = msPerDay * k := hk
  have hk' : s' - (r.ms - o) = msPerDay * k' := hk'
  unfold msPerDay at *
  omega

/-- A weekly reset is a daily reset. -/
theorem on_dailyCycle {r : Hhmm} {day s : ℤ} (hs : (weeklyCycle o r day).On s) :
    (dailyCycle o r).On s := by
  obtain ⟨k, hk⟩ := hs
  refine ⟨7 * k + (day - 4), ?_⟩
  have hk : s - ((day - 4) * msPerDay + r.ms - o) = 7 * msPerDay * k := hk
  show s - (r.ms - o) = msPerDay * (7 * k + (day - 4))
  linarith

/-- The daily keys of two instants agree exactly when the instants have one
reset before them. -/
theorem dailyPeriodKey_eq_iff {t : ℤ} (h : Inside 1 1 now) (ht : Inside 1 1 t) :
    dailyPeriodKey (.fixed o) t hhmm = dailyPeriodKey (.fixed o) now hhmm ↔
      (dailyCycle o (parseHhmm hhmm)).start t = (dailyCycle o (parseHhmm hhmm)).start now := by
  rw [dailyPeriodKey_eq h, dailyPeriodKey_eq ht, String.append_right_inj]
  refine ⟨eq_of_civilText (PeriodCycle.on_start _ t) (PeriodCycle.on_start _ now), fun heq => ?_⟩
  rw [heq]

theorem weeklyPeriodKey_eq_iff {t day : ℤ} (h : Inside 7 1 now) (ht : Inside 7 1 t) :
    weeklyPeriodKey (.fixed o) t hhmm (Number.ofInt day) =
        weeklyPeriodKey (.fixed o) now hhmm (Number.ofInt day) ↔
      (weeklyCycle o (parseHhmm hhmm) (resetDay day)).start t =
        (weeklyCycle o (parseHhmm hhmm) (resetDay day)).start now := by
  rw [weeklyPeriodKey_eq h, weeklyPeriodKey_eq ht, String.append_right_inj]
  refine ⟨eq_of_civilText (on_dailyCycle (PeriodCycle.on_start _ t)) (on_dailyCycle (PeriodCycle.on_start _ now)),
    fun heq => ?_⟩
  rw [heq]

end

end Hub
