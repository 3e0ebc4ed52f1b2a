/-
Aion2Hub/Web/Period.lean

The calendar of the web planner (`packages/modules/planner/lib/period.ts`),
compared with that of the desktop.

The web module shifts the clock back by the reset hour and reads the date;
the desktop sets the clock to the reset time and steps back.  Both find the
start of the same cycle (`sameCalendar`).  At the very ends of the range of
dates they part, since only one of them leaves the range.
-/
import Aion2Hub.Planner.Period

namespace Hub

open Date

namespace Web

/-! ### The web module -/

def toDateKey (z : Zone) (d : Option ℤ) : String := formatLocalDateKey z d

def getDailyPeriodKey (z : Zone) (now resetHour : ℤ) : String :=
  toDateKey z (setHour z (some now) fun x => x - resetHour)

/-- An invalid date has no weekday, and stays invalid. -/
def getWeeklyPeriodKey (z : Zone) (now resetDay resetHour : ℤ) : String :=
  let shifted := setHour z (some now) fun x => x - resetHour
  let back := shifted.bind fun t =>
    setDate z (some t) fun x => x - (getDay z t - resetDay + 7).tmod 7
  toDateKey z (setHours z back 0 0)

def getNextDailyResetAt (z : Zone) (now resetHour : ℤ) : Option ℤ :=
  let next := setHours z (some now) resetHour 0
  if next.any (· ≤ now) then setDate z next fun x => x + 1 else next

def getNextWeeklyResetAt (z : Zone) (now resetDay resetHour : ℤ) : Option ℤ :=
  (setHours z (some now) resetHour 0).bind fun next =>
    let diff := (resetDay - getDay z next + 7).tmod 7
    let diff := if diff = 0 ∧ next ≤ now then 7 else diff
    setDate z (some next) fun x => x + diff

end Web

/-! ### One calendar -/

/-- The desktop's text for a full hour. -/
def hourText (h : ℤ) : String := h.repr ++ ":00"

/-- The key stays as it is now until the reset, and is another one then. -/
def ChangesAt (key : ℤ → String) (now : ℤ) (reset : Option ℤ) : Prop :=
  ∃ r, reset = some r ∧ now < r ∧ (∀ t, now ≤ t → t < r → key t = key now) ∧ key r ≠ key now

/-- At the instant `now` the two planners agree on the dates and on the next
resets, and the web keys change at the resets. -/
structure SameCalendar (z : Zone) (now h d : ℤ) : Prop where
  daily : dailyPeriodKey z now (hourText h) = "D:" ++ Web.getDailyPeriodKey z now h
  weekly : weeklyPeriodKey z now (hourText h) (Number.ofInt d) =
    "W:" ++ Web.getWeeklyPeriodKey z now d h
  nextDaily : Web.getNextDailyResetAt z now h = Renderer.nextDailyResetAt z now (hourText h)
  nextWeekly : Web.getNextWeeklyResetAt z now d h =
    Renderer.nextWeeklyResetAt z now (hourText h) (Number.ofInt d)
  dailyChanges : ChangesAt (Web.getDailyPeriodKey z · h) now (Web.getNextDailyResetAt z now h)
  weeklyChanges : ChangesAt (Web.getWeeklyPeriodKey z · d h) now (Web.getNextWeeklyResetAt z now d h)

theorem parseHhmm_hourText {h : ℤ} (hh : 0 ≤ h ∧ h ≤ 23) : parseHhmm (hourText h) = ⟨h, 0⟩ := by
  have key : ∀ k < 24, matchHhmm (hourText (k : ℕ)) = some ⟨k, 0⟩ := by decide
  obtain ⟨k, rfl⟩ := Int.eq_ofNat_of_zero_le hh.1
  rw [parseHhmm, key k (by omega)]
  rfl

section

variable {o now h d : ℤ}

/-- Eight days either side hold every instant that the code passes
through. -/
theorem inside_of_eight (hin : Inside 8 8 now) {t : ℤ} (h₀ : now ≤ t)
    (h₁ : t ≤ now + 7 * msPerDay) : Inside 8 1 t := by
  refine ⟨hin.valid ?_ ?_, hin.valid ?_ ?_⟩ <;> unfold msPerDay at * <;> omega

/-- Shifting the clock back by `h` hours gives the day on which the daily
cycle started. -/
theorem web_daily (hin : Inside 8 1 now) (hh : 0 ≤ h ∧ h ≤ 23) :
    Web.getDailyPeriodKey (.fixed o) now h =
      civilText (civil (.fixed o) ((dailyCycle o ⟨h, 0⟩).start now)) := by
  have hvalid : now - 8 * msPerDay ≤ now - h * 3600000 ∧ now - h * 3600000 ≤ now + 1 * msPerDay := by
    unfold msPerDay
    omega
  have hday : ((dailyCycle o ⟨h, 0⟩).start now + o) / msPerDay =
      (now - h * 3600000 + o) / msPerDay := by
    obtain ⟨k, hk⟩ := PeriodCycle.on_start (dailyCycle o ⟨h, 0⟩) now
    have hk : (dailyCycle o ⟨h, 0⟩).start now - (h * 3600000 + 0 * 60000 - o) = msPerDay * k := hk
    have hle := PeriodCycle.start_le (dailyCycle o ⟨h, 0⟩) now
    have hlt : now < (dailyCycle o ⟨h, 0⟩).start now + msPerDay :=
      PeriodCycle.lt_next (dailyCycle o ⟨h, 0⟩) now
    unfold msPerDay at *
    omega
  show formatLocalDateKey _ (setHour _ _ _) = _
  rw [setHour_fixed_sub, hin.timeClip hvalid.1 hvalid.2]
  show civilText (Calendar.ofDay ((now - h * 3600000 + o) / msPerDay)) = _
  rw [← hday]
  rfl

/-- The same, followed by the steps back to the reset day. -/
theorem web_weekly (hin : Inside 8 1 now) (hh : 0 ≤ h ∧ h ≤ 23) (hd : 0 ≤ d ∧ d ≤ 6) :
    Web.getWeeklyPeriodKey (.fixed o) now d h =
      civilText (civil (.fixed o) ((weeklyCycle o ⟨h, 0⟩ d).start now)) := by
  let day := (now - h * 3600000 + o) / msPerDay
  let diff := (Calendar.weekDay day - d + 7) % 7
  have hday : day * msPerDay ≤ now - h * 3600000 + o ∧
      now - h * 3600000 + o < day * msPerDay + msPerDay := by
    show (now - h * 3600000 + o) / msPerDay * msPerDay ≤ _ ∧
      _ < (now - h * 3600000 + o) / msPerDay * msPerDay + msPerDay
    unfold msPerDay
    omega
  have hdiff : 0 ≤ diff ∧ diff ≤ 6 := by
    show 0 ≤ (_ : ℤ) % 7 ∧ (_ : ℤ) % 7 ≤ 6
    omega
  have htmod : (getDay (.fixed o) (now - h * 3600000) - d + 7).tmod 7 = diff := by
    have hweek : 0 ≤ Calendar.weekDay day := by
      show 0 ≤ (_ : ℤ) % 7
      omega
    exact Int.tmod_eq_emod_of_nonneg (by show 0 ≤ Calendar.weekDay day - d + 7; omega)
  have hstart : (weeklyCycle o ⟨h, 0⟩ d).start now =
      (day - diff) * msPerDay + (h * 3600000 + 0 * 60000) - o := by
    refine PeriodCycle.start_unique _ (weeklyCycle_on o day ⟨h, 0⟩ d) ?_ ?_
    · unfold msPerDay at *
      omega
    · show now < _ + 7 * msPerDay
      unfold msPerDay at *
      omega
  have hback : (now - h * 3600000 - diff * msPerDay + o) / msPerDay = day - diff := by
    unfold msPerDay at *
    omega
  have hreset : ((weeklyCycle o ⟨h, 0⟩ d).start now + o) / msPerDay = day - diff := by
    rw [hstart]
    unfold msPerDay at *
    omega
  have hmidnight : ((day - diff) * msPerDay + (0 * 3600000 + 0 * 60000) - o + o) / msPerDay =
      day - diff := by
    unfold msPerDay
    omega
  have hback₁ : timeClip (now - h * 3600000) = some (now - h * 3600000) :=
    hin.timeClip (by unfold msPerDay; omega) (by unfold msPerDay; omega)
  have hback₂ : timeClip (now - h * 3600000 - diff * msPerDay) =
      some (now - h * 3600000 - diff * msPerDay) :=
    hin.timeClip (by unfold msPerDay; omega) (by unfold msPerDay; omega)
  have hback₃ : timeClip ((day - diff) * msPerDay + (0 * 3600000 + 0 * 60000) - o) =
      some ((day - diff) * msPerDay + (0 * 3600000 + 0 * 60000) - o) :=
    hin.timeClip (by unfold msPerDay at *; omega) (by unfold msPerDay at *; omega)
  unfold Web.getWeeklyPeriodKey
  dsimp only
  rw [setHour_fixed_sub, hback₁, Option.bind_some, htmod, setDate_fixed_sub, hback₂, setHours_fixed,
    hback, hback₃]
  show civilText (Calendar.ofDay (((day - diff) * msPerDay + _ - o + o) / msPerDay)) =
    civilText (Calendar.ofDay (((weeklyCycle o ⟨h, 0⟩ d).start now + o) / msPerDay))
  rw [hmidnight, hreset]

/-- The web module moves a reset that is not in the future on by a day, the
desktop keeps one that is. -/
theorem web_nextDaily (hin : Inside 1 1 now) (hh : 0 ≤ h ∧ h ≤ 23) :
    Web.getNextDailyResetAt (.fixed o) now h =
      some ((dailyCycle o ⟨h, 0⟩).next now) := by
  rw [← parseHhmm_hourText hh, ← nextDailyResetAt_eq hin]
  unfold Web.getNextDailyResetAt Renderer.nextDailyResetAt
  dsimp only
  rw [Renderer.parseHhmm_snd, parseHhmm_hourText hh]
  rcases setHours (.fixed o) (some now) h 0 with _ | reset
  · rfl
  · rw [Option.any_some, Option.any_some]
    rcases le_or_gt reset now with hle | hlt
    · rw [if_pos (decide_eq_true hle), if_neg (by simpa using hle)]
    · rw [if_neg (by simpa using hlt), if_pos (decide_eq_true hlt)]

/-- Going forward from today's reset to the reset day. -/
theorem web_nextWeekly (hin : Inside 1 7 now) (hh : 0 ≤ h ∧ h ≤ 23) (hd : 0 ≤ d ∧ d ≤ 6) :
    Web.getNextWeeklyResetAt (.fixed o) now d h =
      some ((weeklyCycle o ⟨h, 0⟩ d).next now) := by
  let today := (now + o) / msPerDay
  let next := today * msPerDay + (h * 3600000 + 0 * 60000) - o
  let ahead := (d - Calendar.weekDay today + 7) % 7
  have htoday : today * msPerDay ≤ now + o ∧ now + o < today * msPerDay + msPerDay := by
    show (now + o) / msPerDay * msPerDay ≤ _ ∧ _ < (now + o) / msPerDay * msPerDay + msPerDay
    unfold msPerDay
    omega
  have hnext : now - msPerDay < next ∧ next < now + msPerDay := by
    show now - msPerDay < today * msPerDay + _ - o ∧ today * msPerDay + _ - o < now + msPerDay
    unfold msPerDay at *
    omega
  have hahead : 0 ≤ ahead ∧ ahead ≤ 6 := by
    show 0 ≤ (_ : ℤ) % 7 ∧ (_ : ℤ) % 7 ≤ 6
    omega
  have hday : (next + o) / msPerDay = today := by
    show (today * msPerDay + (h * 3600000 + 0 * 60000) - o + o) / msPerDay = today
    unfold msPerDay
    omega
  have htmod : (d - getDay (.fixed o) next + 7).tmod 7 = ahead := by
    show (d - Calendar.weekDay ((next + o) / msPerDay) + 7).tmod 7 = ahead
    rw [hday]
    refine Int.tmod_eq_emod_of_nonneg ?_
    unfold Calendar.weekDay
    omega
  have hon : (weeklyCycle o ⟨h, 0⟩ d).On (next + ahead * msPerDay) := by
    have hzero : (Calendar.weekDay (today + ahead) - d + 7) % 7 = 0 := by
      show ((today + (d - (today + 4) % 7 + 7) % 7 + 4) % 7 - d + 7) % 7 = 0
      omega
    have hpoint := weeklyCycle_on o (today + ahead) ⟨h, 0⟩ d
    rw [hzero, sub_zero] at hpoint
    have heq : (today + ahead) * msPerDay + Hhmm.ms ⟨h, 0⟩ - o = next + ahead * msPerDay := by
      show _ + (h * 3600000 + 0 * 60000) - o = today * msPerDay + (h * 3600000 + 0 * 60000) - o + _
      ring
    rwa [heq] at hpoint
  have hclip : timeClip next = some next := hin.timeClip (by omega) (by unfold msPerDay at *; omega)
  unfold Web.getNextWeeklyResetAt
  rw [setHours_fixed, show timeClip _ = some next from hclip, Option.bind_some]
  dsimp only
  rw [htmod, setDate_fixed]
  split
  · -- today is the reset day and its reset has passed: a week from it
    rename_i hcase
    obtain ⟨hzero, hle⟩ := hcase
    have hon' : (weeklyCycle o ⟨h, 0⟩ d).On (next + 7 * msPerDay) := by
      obtain ⟨k, hk⟩ := hon
      refine ⟨k + 1, ?_⟩
      rw [mul_add, mul_one, ← hk, hzero]
      show _ = next + 0 * msPerDay - _ + 7 * msPerDay
      ring
    rw [hin.timeClip (by unfold msPerDay at *; omega) (by omega)]
    refine congrArg some (PeriodCycle.next_of_lt _ hon' (by unfold msPerDay at *; omega) ?_).symm
    show _ ≤ now + 7 * msPerDay
    omega
  · rename_i hcase
    rw [hin.timeClip (by unfold msPerDay at *; omega) (by unfold msPerDay at *; omega)]
    refine congrArg some (PeriodCycle.next_of_lt _ hon ?_ ?_).symm
    · unfold msPerDay at *
      omega
    · show _ ≤ now + 7 * msPerDay
      unfold msPerDay at *
      omega

/-- A key that is an injective text of the start of a cycle changes at the
end of the window. -/
theorem changesAt_cycle {c : PeriodCycle} {key text : ℤ → String}
    (hkey : ∀ t, now ≤ t → t ≤ c.next now → key t = text (c.start t))
    (hinj : ∀ s s', c.On s → c.On s' → text s = text s' → s = s') :
    ChangesAt key now (some (c.next now)) := by
  have hlt := c.lt_next now
  refine ⟨c.next now, rfl, hlt, fun t h₀ h₁ => ?_, fun heq => ?_⟩
  · rw [hkey t h₀ h₁.le, hkey now le_rfl hlt.le, (c.start_eq_iff h₀).mpr h₁]
  · rw [hkey _ hlt.le le_rfl, hkey now le_rfl hlt.le, c.start_next] at heq
    exact (c.start_lt_next now).ne' (hinj _ _ (c.on_next now) (c.on_start now) heq)

/-- **The web planner and the desktop planner use one calendar**, as long as
the eight days before and after the instant are dates. -/
theorem sameCalendar (o : ℤ) {now h d : ℤ} (hin : Inside 8 8 now) (hh : 0 ≤ h ∧ h ≤ 23)
    (hd : 0 ≤ d ∧ d ≤ 6) : SameCalendar (.fixed o) now h d := by
  have hpos : 0 < msPerDay := by decide
  have hnow : Inside 8 1 now := inside_of_eight hin le_rfl (by omega)
  have hweek : Inside 1 7 now := ⟨hin.valid (by omega) (by omega), hin.valid (by omega) (by omega)⟩
  have hd' : resetDay d = d := by unfold resetDay; omega
  have hdaily : ∀ t, now ≤ t → t ≤ (dailyCycle o ⟨h, 0⟩).next now → Web.getDailyPeriodKey (.fixed o) t h =
      civilText (civil (.fixed o) ((dailyCycle o ⟨h, 0⟩).start t)) := fun t h₀ h₁ => by
    have hle : (dailyCycle o ⟨h, 0⟩).next now ≤ now + msPerDay :=
      add_le_add_left (PeriodCycle.start_le _ now) _
    exact web_daily (inside_of_eight hin h₀ (by omega)) hh
  have hweekly : ∀ t, now ≤ t → t ≤ (weeklyCycle o ⟨h, 0⟩ d).next now →
      Web.getWeeklyPeriodKey (.fixed o) t d h =
        civilText (civil (.fixed o) ((weeklyCycle o ⟨h, 0⟩ d).start t)) := fun t h₀ h₁ => by
    have hle : (weeklyCycle o ⟨h, 0⟩ d).next now ≤ now + 7 * msPerDay :=
      add_le_add_left (PeriodCycle.start_le _ now) _
    exact web_weekly (inside_of_eight hin h₀ (by omega)) hh hd
  constructor
  case daily =>
    rw [dailyPeriodKey_eq (hnow.shrink (by decide) (by decide)), parseHhmm_hourText hh,
      web_daily hnow hh]
  case weekly =>
    rw [weeklyPeriodKey_eq (hnow.shrink (by decide) (by decide)), parseHhmm_hourText hh, hd',
      web_weekly hnow hh hd]
  case nextDaily =>
    rw [web_nextDaily (hnow.shrink (by decide) (by decide)) hh,
      nextDailyResetAt_eq (hnow.shrink (by decide) (by decide)), parseHhmm_hourText hh]
  case nextWeekly =>
    rw [web_nextWeekly hweek hh hd,
      nextWeeklyResetAt_eq ⟨hin.valid (by omega) (by omega), hweek.2⟩, parseHhmm_hourText hh, hd']
  case dailyChanges =>
    rw [web_nextDaily (hnow.shrink (by decide) (by decide)) hh]
    exact changesAt_cycle hdaily fun _ _ hs hs' => eq_of_civilText hs hs'
  case weeklyChanges =>
    rw [web_nextWeekly hweek hh hd]
    exact changesAt_cycle hweekly fun _ _ hs hs' =>
      eq_of_civilText (on_dailyCycle hs) (on_dailyCycle hs')

theorem sameCalendar_wednesday : SameCalendar (.fixed 0) 1769601600000 6 1 :=
  sameCalendar 0 (by decide) (by decide) (by decide)

/-- In the last instant of the range the reset of the same day is no date
any more: the desktop's key has no date in it, the web module's has. -/
theorem not_sameCalendar_maxTime : Valid maxTime ∧ ¬ SameCalendar (.fixed 0) maxTime 9 1 := by
  refine ⟨by decide, fun hsame => ?_⟩
  have hdesktop : dailyPeriodKey (.fixed 0) maxTime (hourText 9) = "D:NaN-NaN-NaN" := by decide
  have hweb : Web.getDailyPeriodKey (.fixed 0) maxTime 9 = "275760-09-12" := by decide
  have hdaily := hsame.daily
  rw [hdesktop, hweb] at hdaily
  exact absurd hdaily (by decide)

end

end Hub
