import AnimeFeedFlux.Schedule.Recurrence

/-!
# The dates of a recurrence

Which dates a recurrence selects is a rule of the calendar: it speaks of day numbers, weeks and
months, and knows no clock.  `dateFires` computes it by way of instants.  It builds the
midnight that begins a day, which a transition may have jumped over, and it subtracts two
midnights, which saturates after some 292 years.  What it counts are the days those midnights
are resolved to.
-/

namespace AnimeFeedFlux.Cron

open Calendar GoStrings List Zone

/-! ## The rule -/

/-- The day of the week of a day. -/
def weekdayOf (d : ℤ) : ℤ := (d + 1) % 7

/-- The week of a day, from Sunday to Saturday. -/
def week (d : ℤ) : ℤ := (d + 1) / 7

/-- The month of a day, counted over the years. -/
def monthIndex (d : ℤ) : ℤ := 12 * (civil d).year + (civil d).month

namespace Recurrence

/-- What a monthly recurrence asks of day `d`, besides its month; `later` is the day a week on. -/
def OnDay (r : Recurrence) (d later : ℤ) : Prop :=
  if r.setPos ≠ 0 then
    weekdayOf d ∈ r.weekdays ∧
      if r.setPos = setPosLast then (civil later).month ≠ (civil d).month
      else 7 * (r.setPos - 1) < (civil d).day ∧ (civil d).day ≤ 7 * r.setPos
  else if r.monthDay = lastDayOfMonth then (civil (d + 1)).month ≠ (civil d).month
  else (civil d).day = r.monthDay
deriving Decidable

/-- The rule for day `d`, counted from day `a`. -/
def selects (r : Recurrence) (a d : ℤ) : Prop :=
  match r.freq with
  | .daily => r.interval ∣ d - a
  | .weekly => weekdayOf d ∈ r.weekdays ∧ r.interval ∣ week d - week a
  | .monthly => r.interval ∣ monthIndex d - monthIndex a ∧ r.OnDay d (d + 7)
  | .unknown _ => False

instance (r : Recurrence) (a d : ℤ) : Decidable (r.selects a d) := by
  unfold selects
  cases r.freq <;> infer_instance

end Recurrence

/-! ## What the code counts -/

/-- The day of the instant that the midnight of `d` is resolved to. -/
def midnight (z : Zone) (d : ℤ) : ℤ := Zone.wall z (Zone.date z (86400 * d)) / 86400

/-- The day of the instant that the start of the week of `d` is resolved to. -/
def sunday (z : Zone) (d : ℤ) : ℤ :=
  let w := Zone.wall z (Zone.date z (86400 * d))
  Zone.wall z (Zone.date z (w - 86400 * Zone.weekday w)) / 86400

/-- The days in a `Duration`. -/
def span (n : ℤ) : ℤ := max (-106751) (min 106751 n)

theorem days_add (y m d n : ℤ) : days y m (d + n) = days y m d + n := by
  simp only [days]
  omega

theorem dateOnly_eq (z : Zone) (w : ℤ) : dateOnly z w = wall z (date z (86400 * (w / 86400))) := by
  rw [dateOnly, Zone.Date, unix, days_civil]
  simp

theorem addDays_eq (z : Zone) (w n : ℤ) : addDays z w n = wall z (date z (w + 86400 * n)) := by
  have hunix : unix (year w) (month w) (day w + n) (hour w) (minute w) (sec w) = w + 86400 * n := by
    rw [unix, days_add, days_civil, hour, minute, sec]
    omega
  rw [addDays, Zone.Date, hunix]

theorem utcMidnight_eq (w : ℤ) : utcMidnight w = w / 86400 * (24 * Time.hour) := by
  rw [utcMidnight, Zone.Date, unix, days_civil, date]
  simp only [utc, Time.hour, Time.minute, Time.second]
  omega

/-- **The days between two readings**, as far as a `Duration` goes. -/
theorem daysBetween_eq (a b : ℤ) : daysBetween a b = span (b / 86400 - a / 86400) := by
  rw [daysBetween, utcMidnight_eq, utcMidnight_eq, sub, ← Int.sub_mul]
  generalize b / 86400 - a / 86400 = n
  have hhour : 24 * Time.hour = 86400000000000 := rfl
  rw [hhour, span]
  by_cases hn : 0 ≤ n
  · rw [Int.tdiv_eq_ediv_of_nonneg (by omega)]
    omega
  · rw [← Int.neg_inj, ← Int.neg_tdiv, Int.tdiv_eq_ediv_of_nonneg (by omega)]
    omega

theorem positiveModulo_eq_zero {a b : ℤ} (hb : 1 ≤ b) : positiveModulo a b = 0 ↔ b ∣ a := by
  have hlo := Int.lt_tmod_of_pos a (show 0 < b by omega)
  rw [positiveModulo, if_neg (by omega), Int.dvd_iff_tmod_eq_zero]
  split_ifs with h
  · omega
  · rfl

theorem weekday_eq (w : ℤ) : (weekday w : ℤ) = weekdayOf (w / 86400) := by
  simp only [weekday, weekdayOf]
  omega

theorem days_succ_month (w : ℤ) : days (year w) (month w + 1) 0 = monthEnd (w / 86400) - 1 := by
  obtain ⟨hm, hm', -, -⟩ := civil_bounds (w / 86400)
  simp only [days, year, month, monthEnd]
  rcases Nat.lt_or_ge (civil (w / 86400)).month 12 with h | h
  · have hyear : (((civil (w / 86400)).month : ℤ) + 1 - 1) / 12 = 0 := by omega
    have hmonth : (((civil (w / 86400)).month + 1 - 1 : ℤ) % 12).toNat =
        (civil (w / 86400)).month := by
      omega
    rw [hyear, hmonth, Int.add_zero]
    omega
  · have hdec : (civil (w / 86400)).month = 12 := by omega
    have hsucc := daysBeforeYear_succ (civil (w / 86400)).year
    have hlast : daysBeforeMonth (isLeap (civil (w / 86400)).year) (12 + 1) =
        if isLeap (civil (w / 86400)).year then 366 else 365 := by
      cases isLeap (civil (w / 86400)).year <;> rfl
    have hjan : daysBeforeMonth (isLeap ((civil (w / 86400)).year + 1)) 1 = 0 := by
      cases isLeap ((civil (w / 86400)).year + 1) <;> rfl
    have hyear : (((12 : ℕ) : ℤ) + 1 - 1) / 12 = 1 := by decide
    have hmonth : ((((12 : ℕ) : ℤ) + 1 - 1) % 12).toNat + 1 = 1 := by decide
    rw [hdec, hlast, hyear, hmonth, hjan]
    omega

/-- The last day of the month is the one whose successor is in another month. -/
theorem day_eq_daysInMonth (w : ℤ) : day w = daysInMonth (year w) (month w) ↔
      (civil (w / 86400 + 1)).month ≠ (civil (w / 86400)).month := by
  have hlast : daysInMonth (year w) (month w) = (civil (monthEnd (w / 86400) - 1)).day := by
    rw [daysInMonth, Zone.Date, unix, days_succ_month, date, day]
    simp [utc]
  obtain ⟨hyear, hmonth⟩ := civil_monthEnd_sub (w / 86400)
  have hn := dayNumber_civil (w / 86400)
  have hend := dayNumber_civil (monthEnd (w / 86400) - 1)
  have hlt := (civil_month_bounds (w / 86400)).2
  rw [month_ne_iff (by omega) (by omega), hlast, day]
  simp only [dayNumber, hyear, hmonth] at hn hend
  simp only [monthEnd] at hend ⊢
  omega

theorem isNthWeekdayOfMonth_iff {z : Zone} {w wd n : ℤ} :
    isNthWeekdayOfMonth z w wd n ↔ weekdayOf (w / 86400) = wd ∧
      if n = setPosLast then (civil (addDays z w 7 / 86400)).month ≠ (civil (w / 86400)).month
      else 7 * (n - 1) < (civil (w / 86400)).day ∧ (civil (w / 86400)).day ≤ 7 * n := by
  rw [isNthWeekdayOfMonth, weekday_eq]
  by_cases hday : weekdayOf (w / 86400) = wd
  · rw [if_neg (not_not.2 hday)]
    by_cases hlast : n = setPosLast
    · rw [if_pos hlast, if_pos hlast, decide_eq_true_eq]
      exact ⟨fun h => ⟨hday, h⟩, fun h => h.2⟩
    rw [if_neg hlast, if_neg hlast, decide_eq_true_eq, day]
    have hb := (civil_bounds (w / 86400)).2.2.1
    omega
  · rw [if_pos hday]
    constructor
    · intro h
      cases h
    · intro h
      exact absurd h.1 hday

/-! ### `dateFires`, by frequency -/

namespace Recurrence

variable {r : Recurrence} {w : ℤ}

/-- The day of the anchor. -/
def anchorDay (r : Recurrence) : ℤ := r.anchorReading / 86400

/-- The date of the reading `w` qualifies: the days, weeks or months that the code counts from
the anchor are a multiple of the interval, and the day is one that is asked for. -/
def Qualifies (r : Recurrence) (w : ℤ) : Prop :=
  let d := w / 86400
  match r.freq with
  | .daily => r.interval ∣ span (midnight r.zone d - midnight r.zone r.anchorDay)
  | .weekly =>
    weekdayOf d ∈ r.weekdays ∧
      r.interval ∣ (span (sunday r.zone d - sunday r.zone r.anchorDay)).tdiv 7
  | .monthly =>
    r.interval ∣ monthIndex d - monthIndex r.anchorDay ∧ r.OnDay d (addDays r.zone w 7 / 86400)
  | .unknown _ => False

theorem dateFires_daily (h : r.freq = .daily) : r.dateFires w ↔
      r.interval ∣ span (midnight r.zone (w / 86400) - midnight r.zone r.anchorDay) := by
  simp [dateFires, h, positiveModulo_eq_zero r.bounded.interval, daysBetween_eq, dateOnly_eq,
    midnight, anchorDay]

theorem dateFires_weekly (h : r.freq = .weekly) :
    r.dateFires w ↔ weekdayOf (w / 86400) ∈ r.weekdays ∧
      r.interval ∣ (span (sunday r.zone (w / 86400) - sunday r.zone r.anchorDay)).tdiv 7 := by
  simp only [dateFires, h, Bool.and_eq_true, decide_eq_true_eq, contains_iff_mem,
    positiveModulo_eq_zero r.bounded.interval, daysBetween_eq, dateOnly_eq, weekStart, addDays_eq,
    weekday_eq, sunday, anchorDay, Int.mul_neg, ← Int.sub_eq_add_neg]

theorem exists_weekday (r : Recurrence) (h : r.freq = .monthly) (hpos : r.setPos ≠ 0) :
    ∃ wd, r.weekdays = [wd] := by
  have hfreq := r.bounded.freq
  simp only [Rule.checkFreq, h, if_pos hpos] at hfreq
  split_ifs at hfreq with _ hlen
  exact length_eq_one_iff.1 (not_not.1 hlen)

theorem dateFires_monthly (h : r.freq = .monthly) :
    r.dateFires w ↔ r.interval ∣ monthIndex (w / 86400) - monthIndex r.anchorDay ∧
      r.OnDay (w / 86400) (addDays r.zone w 7 / 86400) := by
  have hmonths : monthsBetween r.anchorReading w =
      monthIndex (w / 86400) - monthIndex r.anchorDay := by
    simp only [monthsBetween, monthIndex, anchorDay, year, month]
    omega
  simp only [dateFires, h, Bool.and_eq_true, decide_eq_true_eq,
    positiveModulo_eq_zero r.bounded.interval, hmonths]
  refine and_congr_right fun _ => ?_
  rw [OnDay]
  by_cases hpos : r.setPos = 0
  · rw [if_neg (not_not.2 hpos), if_neg (not_not.2 hpos)]
    by_cases hday : r.monthDay = lastDayOfMonth
    · rw [if_pos hday, if_pos hday, decide_eq_true_eq, day_eq_daysInMonth]
    rw [if_neg hday, if_neg hday, decide_eq_true_eq]
    rfl
  · obtain ⟨wd, hwd⟩ := r.exists_weekday h hpos
    rw [if_pos hpos, if_pos hpos, hwd, head?_cons, Option.any_some, isNthWeekdayOfMonth_iff,
      mem_singleton]

/-- **The filter, in terms of interval, anchor and day.** -/
theorem dateFires_iff : r.dateFires w ↔ r.Qualifies w := by
  cases h : r.freq with
  | daily => rw [dateFires_daily h, Qualifies, h]
  | weekly => rw [dateFires_weekly h, Qualifies, h]
  | monthly => rw [dateFires_monthly h, Qualifies, h]
  | unknown n => simp [dateFires, Qualifies, h]

/-! ## Where the code follows the rule -/

/-- By how much the days or weeks that the code counts from the anchor differ from those of the
rule. -/
def drift (r : Recurrence) (d : ℤ) : ℤ :=
  match r.freq with
  | .daily => span (midnight r.zone d - midnight r.zone r.anchorDay) - (d - r.anchorDay)
  | .weekly =>
    (span (sunday r.zone d - sunday r.zone r.anchorDay)).tdiv 7 - (week d - week r.anchorDay)
  | _ => 0

/-- A count that is off by `drift` is a multiple of `interval` when the right one is. -/
def Harmless (interval count drift : ℤ) : Prop :=
  interval ∣ drift ∨ ¬interval ∣ count ∧ ¬interval ∣ count + drift
deriving Decidable

/-- The midnights of the date and of the anchor are resolved to days that are as far apart, up
to a multiple of the interval, and the date a week after a last weekday is not moved across the
end of the month. -/
def Faithful (r : Recurrence) (w : ℤ) : Prop :=
  let d := w / 86400
  match r.freq with
  | .daily => Harmless r.interval (d - r.anchorDay) (r.drift d)
  | .weekly =>
    weekdayOf d ∈ r.weekdays → Harmless r.interval (week d - week r.anchorDay) (r.drift d)
  | .monthly =>
    r.setPos = setPosLast → weekdayOf d ∈ r.weekdays →
      r.interval ∣ monthIndex d - monthIndex r.anchorDay →
      ((civil (addDays r.zone w 7 / 86400)).month = (civil d).month ↔
        (civil (d + 7)).month = (civil d).month)
  | .unknown _ => True

instance (r : Recurrence) (w : ℤ) : Decidable (r.Faithful w) := by
  unfold Faithful
  cases r.freq <;> infer_instance

theorem harmless_iff {i n e : ℤ} : (i ∣ n + e ↔ i ∣ n) ↔ Harmless i n e := by
  constructor
  · intro h
    by_cases hn : i ∣ n
    · exact .inl ((Int.dvd_iff_dvd_of_dvd_add (h.2 hn)).1 hn)
    · exact .inr ⟨hn, fun hne => hn (h.1 hne)⟩
  · rintro (he | ⟨hn, hne⟩)
    · exact Int.dvd_add_left he
    · exact iff_of_false hne hn

/-- **`dateFires` is the rule of the calendar exactly where it counts faithfully.** -/
theorem dateFires_selects_iff (r : Recurrence) (t : ℤ) :
    (r.dateFires (Zone.wall r.zone (Time.seconds t)) = true ↔
      r.selects r.anchorDay (Zone.wall r.zone (Time.seconds t) / 86400)) ↔
    r.Faithful (Zone.wall r.zone (Time.seconds t)) := by
  generalize wall r.zone (Time.seconds t) = w
  cases h : r.freq with
  | daily =>
    have hdrift : span (midnight r.zone (w / 86400) - midnight r.zone r.anchorDay) =
        w / 86400 - r.anchorDay + r.drift (w / 86400) := by
      simp only [drift, h]
      omega
    rw [dateFires_daily h, hdrift]
    simp only [selects, Faithful, h]
    exact harmless_iff
  | weekly =>
    have hdrift : (span (sunday r.zone (w / 86400) - sunday r.zone r.anchorDay)).tdiv 7 =
        week (w / 86400) - week r.anchorDay + r.drift (w / 86400) := by
      simp only [drift, h]
      omega
    rw [dateFires_weekly h, hdrift]
    simp only [selects, Faithful, h, ← harmless_iff]
    exact and_congr_right_iff
  | monthly =>
    rw [dateFires_monthly h]
    simp only [selects, OnDay, Faithful, h]
    by_cases hlast : r.setPos = setPosLast
    · have hpos : r.setPos ≠ 0 := by rw [hlast]; decide
      rw [if_pos hpos, if_pos hpos, if_pos hlast, if_pos hlast, and_congr_right_iff,
        and_congr_right_iff, ne_eq, ne_eq, not_iff_not]
      exact ⟨fun hsame _ hday hmonths => hsame hmonths hday,
        fun hsame hmonths hday => hsame hlast hday hmonths⟩
    · rw [if_neg hlast, if_neg hlast]
      exact iff_of_true Iff.rfl fun hlast' => absurd hlast' hlast
  | unknown n =>
    simp only [dateFires, selects, Faithful, h]
    simp

/-- Every second day at `12:30` in Santiago, from 4 September 2026 on. -/
def everyOther : Recurrence where
  freq := .daily
  interval := 2
  hour := 12
  minute := 30
  anchor := instant 2026 9 4 16 0
  loc := some santiago
  zone := santiago
  timeOfDay := daily santiago 30 12
  loc_eq := rfl
  checked := rfl
  parsed := parse_daily santiago (by decide) (by decide)
  anchored := by decide +kernel

/-- **A midnight that does not exist takes the day with it**: 6 September is two days after the
anchor, and its midnight is resolved to the 5th. -/
theorem not_dateFires_everyOther : newRecurrence everyOther.toRule = .ok everyOther ∧
    everyOther.selects everyOther.anchorDay
      (Zone.wall santiago (Time.seconds (instant 2026 9 6 15 30)) / 86400) ∧
    everyOther.dateFires (Zone.wall santiago (Time.seconds (instant 2026 9 6 15 30))) = false :=
  ⟨newRecurrence_toRule _, by decide +kernel, by decide +kernel⟩

end Recurrence

end AnimeFeedFlux.Cron
