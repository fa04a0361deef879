import AnimeFeedFlux.Lib.Periods
import AnimeFeedFlux.Schedule.Anchors
import AnimeFeedFlux.Schedule.Occurrences

/-!
# What the dates of a recurrence say about it

In a zone whose offset from UTC never changes, `dateFires` can be read backwards: from the dates on
which a recurrence fires follow its weekdays, its interval and the day it counts from, as far as
these have an effect.  An interval beyond the longest `Duration` fires in one day or one week
alone.  A day of the month that the months of the interval do not have never fires, and says
nothing.
-/

namespace AnimeFeedFlux.Cron

open Calendar Periods List Zone

/-! ## Days of a month -/

theorem le_monthLength (y : ℤ) {m : ℕ} (hm : 1 ≤ m) (hm' : m ≤ 12) : 28 ≤ monthLength y m := by
  have key : ∀ leap : Bool, ∀ m ≤ 12, 1 ≤ m →
      28 ≤ daysBeforeMonth leap (m + 1) - daysBeforeMonth leap m := by
    decide
  exact key (isLeap y) m hm' hm

theorem monthLength_le {y y' : ℤ} (h : isLeap y → isLeap y') {m : ℕ} (hm : m ≤ 12) :
    monthLength y m ≤ monthLength y' m := by
  have key : ∀ leap leap' : Bool, (leap = true → leap' = true) → ∀ m ≤ 12,
      daysBeforeMonth leap (m + 1) - daysBeforeMonth leap m ≤
        daysBeforeMonth leap' (m + 1) - daysBeforeMonth leap' m := by
    decide
  exact key (isLeap y) (isLeap y') h m hm

/-- Among the years `4 * n`, `8 * n` and `16 * n` after a leap year there is another one. -/
theorem exists_isLeap {y : ℤ} (h : isLeap y) (n : ℤ) : ∃ k, k ∣ 16 ∧ isLeap (y + k * n) := by
  have hleap : ∀ y : ℤ, isLeap y = true ↔ y % 4 = 0 ∧ (y % 100 ≠ 0 ∨ y % 400 = 0) := by
    intro y
    simp [isLeap]
  rw [hleap] at h
  by_cases h4 : isLeap (y + 4 * n) = true
  · exact ⟨4, by decide, h4⟩
  by_cases h8 : isLeap (y + 8 * n) = true
  · exact ⟨8, by decide, h8⟩
  refine ⟨16, by decide, ?_⟩
  rw [hleap] at h4 h8 ⊢
  omega

section
variable {y : ℤ} {m : ℕ} {day : ℤ}

theorem monthIndex_days (hm : 1 ≤ m) (hm' : m ≤ 12) (hd : 1 ≤ day)
    (hd' : day ≤ monthLength y m) : monthIndex (days y m day) = 12 * y + m := by
  rw [monthIndex, civil_days hm hm' hd hd']

theorem month_ne_days (hm : 1 ≤ m) (hm' : m ≤ 12) (hd : 1 ≤ day) (hd' : day ≤ monthLength y m)
    {k : ℤ} (hk : 0 ≤ k) (hk' : k ≤ 28) (h : monthLength y m < day + k) :
    (civil (days y m day + k)).month ≠ (civil (days y m day)).month := by
  have hcivil := civil_days hm hm' hd hd'
  have hnumber := dayNumber_civil (days y m day)
  rw [month_ne_iff hk hk', monthEnd]
  rw [hcivil] at hnumber ⊢
  simp only [dayNumber] at hnumber
  simp only [monthLength] at h
  dsimp only
  omega

end

theorem exists_month (i : ℤ) : ∃ y : ℤ, ∃ m : ℕ, 1 ≤ m ∧ m ≤ 12 ∧ i = 12 * y + m :=
  ⟨(i - 1) / 12, ((i - 1) % 12).toNat + 1, by omega, by omega, by omega⟩

theorem exists_sameDay (d n : ℤ) :
    ∃ k d', k ∣ 192 ∧ monthIndex d' = monthIndex d + k * n ∧ (civil d').day = (civil d).day := by
  obtain ⟨k, hk, hleap⟩ : ∃ k, k ∣ 16 ∧
      (isLeap (civil d).year = true → isLeap ((civil d).year + k * n) = true) := by
    by_cases h : isLeap (civil d).year = true
    · obtain ⟨k, hk, hleap⟩ := exists_isLeap h n
      exact ⟨k, hk, fun _ => hleap⟩
    · exact ⟨16, by decide, fun h' => absurd h' h⟩
  obtain ⟨hm, hm', hd, -⟩ := civil_bounds d
  have hday : ((civil d).day : ℤ) ≤ monthLength ((civil d).year + k * n) (civil d).month :=
    Int.le_trans (civil_day_le d) (monthLength_le hleap hm')
  refine ⟨12 * k, days ((civil d).year + k * n) (civil d).month (civil d).day, ?_, ?_, ?_⟩
  · exact Int.mul_dvd_mul_left 12 hk
  · rw [monthIndex_days hm hm' (by omega) hday, monthIndex, Int.mul_add, Int.mul_assoc]
    omega
  · rw [civil_days hm hm' (by omega) hday]
    simp

/-! ### The weekdays of a month -/

theorem exists_weekdayOf (s : ℤ) {wd : ℤ} (h : 0 ≤ wd) (h' : wd ≤ 6) :
    ∃ j, 0 ≤ j ∧ j ≤ 6 ∧ weekdayOf (s + j) = wd := by
  refine ⟨(wd - weekdayOf s) % 7, by omega, by omega, ?_⟩
  simp only [weekdayOf]
  omega

theorem exists_nthWeekday (i : ℤ) {wd p : ℤ} (h : 0 ≤ wd) (h' : wd ≤ 6) (hp : 1 ≤ p) (hp' : p ≤ 4) :
    ∃ d, monthIndex d = i ∧ weekdayOf d = wd ∧ 7 * (p - 1) < (civil d).day ∧
      (civil d).day ≤ 7 * p := by
  obtain ⟨y, m, hm, hm', rfl⟩ := exists_month i
  have hlength := le_monthLength y hm hm'
  obtain ⟨j, hj, hj', hwd⟩ := exists_weekdayOf (days y m (7 * (p - 1) + 1)) h h'
  rw [← days_add] at hwd
  refine ⟨_, monthIndex_days hm hm' (by omega) (by omega), hwd, ?_⟩
  rw [civil_days hm hm' (by omega) (by omega)]
  dsimp only
  omega

theorem exists_lastWeekday (i : ℤ) {wd : ℤ} (h : 0 ≤ wd) (h' : wd ≤ 6) :
    ∃ d, monthIndex d = i ∧ weekdayOf d = wd ∧ (civil (d + 7)).month ≠ (civil d).month := by
  obtain ⟨y, m, hm, hm', rfl⟩ := exists_month i
  have hlength := le_monthLength y hm hm'
  obtain ⟨j, hj, hj', hwd⟩ := exists_weekdayOf (days y m (monthLength y m - 6)) h h'
  rw [← days_add] at hwd
  exact ⟨_, monthIndex_days hm hm' (by omega) (by omega), hwd,
    month_ne_days hm hm' (by omega) (by omega) (by omega) (by omega) (by omega)⟩

theorem exists_lastDay (i : ℤ) :
    ∃ d, monthIndex d = i ∧ (civil (d + 1)).month ≠ (civil d).month := by
  obtain ⟨y, m, hm, hm', rfl⟩ := exists_month i
  have hlength := le_monthLength y hm hm'
  exact ⟨_, monthIndex_days hm hm' (by omega) (Int.le_refl _),
    month_ne_days hm hm' (by omega) (Int.le_refl _) (by omega) (by omega) (by omega)⟩

/-! ## A zone without transitions -/

section
variable {z : Zone}

theorem midnight_of_fixed (h : z.Fixed) (d : ℤ) : midnight z d = d := by
  rw [midnight, h.wall_date, Int.mul_ediv_cancel_left d (by decide)]

theorem sunday_of_fixed (h : z.Fixed) (d : ℤ) : sunday z d = 7 * week d - 1 := by
  simp only [sunday, h.wall_date, weekday_eq, weekdayOf, week]
  omega

theorem addDays_of_fixed (h : z.Fixed) (w n : ℤ) : addDays z w n = w + 86400 * n := by
  rw [addDays_eq, h.wall_date]

end

theorem span_weeks (x y : ℤ) : (span (7 * x - 1 - (7 * y - 1))).tdiv 7 = clamp 15250 (x - y) := by
  have hspan : span (7 * x - 1 - (7 * y - 1)) = span (7 * (x - y)) := by
    congr 1
    omega
  rw [hspan, span, clamp]
  generalize x - y = n
  by_cases hn : 0 ≤ n
  · rw [Int.tdiv_eq_ediv_of_nonneg (by omega)]
    omega
  · rw [← Int.neg_inj, ← Int.neg_tdiv, Int.tdiv_eq_ediv_of_nonneg (by omega)]
    omega

/-- No month that is counted from the day `a` has the day `day`. -/
def NeverOn (day n a : ℤ) : Prop :=
  ∀ d, n ∣ monthIndex d - monthIndex a → ((civil d).day : ℤ) ≠ day

namespace Recurrence

/-! ## The dates -/

/-- The two fire on the same dates, at the same time of day. -/
structure SameFirings (r r' : Recurrence) : Prop where
  dates : ∀ d, r.firesOn d = true ↔ r'.firesOn d = true
  clock : (∃ d, r.firesOn d = true) → r'.hour = r.hour ∧ r'.minute = r.minute

variable {r r' : Recurrence}

theorem fires_daily (hz : r.zone.Fixed) (h : r.freq = .daily) (d : ℤ) :
    r.firesOn d ↔ Hits 106751 r.interval r.anchorDay d := by
  rw [firesOn, dateFires_daily h, midnight_of_fixed hz, midnight_of_fixed hz, reading_div]
  rfl

theorem fires_weekly (hz : r.zone.Fixed) (h : r.freq = .weekly) (d : ℤ) : r.firesOn d ↔
      weekdayOf d ∈ r.weekdays ∧ Hits 15250 r.interval (week r.anchorDay) (week d) := by
  rw [firesOn, dateFires_weekly h, sunday_of_fixed hz, sunday_of_fixed hz, span_weeks, reading_div]
  rfl

theorem fires_monthly (hz : r.zone.Fixed) (h : r.freq = .monthly) (d : ℤ) : r.firesOn d ↔
      r.interval ∣ monthIndex d - monthIndex r.anchorDay ∧ r.OnDay d (d + 7) := by
  have hweek : (r.reading d + 86400 * 7) / 86400 = d + 7 := by
    have := r.reading_div d
    omega
  rw [firesOn, dateFires_monthly h, addDays_of_fixed hz, hweek, reading_div]

/-- Where each month has its day, the months that fire are those that are counted. -/
theorem exists_onDay (h : r.freq = .monthly) (hday : r.setPos = 0 → r.monthDay = lastDayOfMonth)
    (i : ℤ) : ∃ d, monthIndex d = i ∧ r.OnDay d (d + 7) := by
  have hchecked := Rule.checkFreq_eq_none.1 r.bounded.freq
  rw [h] at hchecked
  simp only [OnDay]
  by_cases hpos : r.setPos = 0
  · obtain ⟨d, hd, hlast⟩ := exists_lastDay i
    exact ⟨d, hd, by rwa [if_neg (not_not.2 hpos), if_pos (hday hpos)]⟩
  obtain ⟨hrange, -, hvalid⟩ := hchecked.1 hpos
  obtain ⟨wd, hwd⟩ := r.exists_weekday h hpos
  have hbounds : 0 ≤ wd ∧ wd ≤ 6 :=
    (validWeekdays_eq_none.1 hvalid).1 wd (by rw [hwd]; exact mem_singleton_self wd)
  by_cases hlast : r.setPos = setPosLast
  · obtain ⟨d, hd, hday, hend⟩ := exists_lastWeekday i hbounds.1 hbounds.2
    refine ⟨d, hd, ?_⟩
    rw [if_pos hpos, if_pos hlast, hwd, hday]
    exact ⟨mem_singleton_self wd, hend⟩
  · have hne : r.setPos ≠ -1 := hlast
    obtain ⟨d, hd, hday, hnth⟩ :=
      exists_nthWeekday i hbounds.1 hbounds.2 (p := r.setPos) (by omega) (by omega)
    refine ⟨d, hd, ?_⟩
    rw [if_pos hpos, if_neg hlast, hwd, hday]
    exact ⟨mem_singleton_self wd, hnth⟩

/-! ## The fields, from the dates -/

section
variable (hz : r.zone.Fixed) (hz' : r'.zone.Fixed)
  (h : ∀ d, r.firesOn d ↔ r'.firesOn d)

include hz hz' h

theorem eq_of_daily (hfreq : r.freq = .daily) (hfreq' : r'.freq = .daily) :
    r.interval = 1 ∧ r'.interval = 1 ∨ r.anchorDay = r'.anchorDay ∧
      (r.interval = r'.interval ∨ 106751 < r.interval ∧ 106751 < r'.interval) := by
  refine eq_of_hits (by decide) r.bounded.interval r'.bounded.interval fun d => ?_
  rw [← fires_daily hz hfreq, ← fires_daily hz' hfreq']
  exact h d

theorem mem_weekdays_of_weekly (hfreq : r.freq = .weekly) (hfreq' : r'.freq = .weekly) {wd : ℤ}
    (hwd : wd ∈ r.weekdays) : wd ∈ r'.weekdays := by
  have hchecked := Rule.checkFreq_eq_none.1 r.bounded.freq
  rw [hfreq] at hchecked
  have hbounds := (validWeekdays_eq_none.1 hchecked.2).1 wd hwd
  -- The day `wd` of the week of the anchor fires.
  have hday : weekdayOf (7 * week r.anchorDay - 1 + wd) = wd := by
    rw [weekdayOf]
    omega
  have hweek : week (7 * week r.anchorDay - 1 + wd) = week r.anchorDay := by
    rw [week]
    omega
  have hfires := (h (7 * week r.anchorDay - 1 + wd)).1
    ((fires_weekly hz hfreq _).2 ⟨by rwa [hday], by rw [hweek]; exact hits_origin (by decide) _ _⟩)
  have hmem := ((fires_weekly hz' hfreq' _).1 hfires).1
  rwa [hday] at hmem

theorem eq_of_weekly (hfreq : r.freq = .weekly) (hfreq' : r'.freq = .weekly) :
    r.interval = 1 ∧ r'.interval = 1 ∨ week r.anchorDay = week r'.anchorDay ∧
      (r.interval = r'.interval ∨ 15250 < r.interval ∧ 15250 < r'.interval) := by
  have hchecked := Rule.checkFreq_eq_none.1 r.bounded.freq
  rw [hfreq] at hchecked
  obtain ⟨wd, hwd⟩ := exists_mem_of_ne_nil _ hchecked.1
  have hbounds := (validWeekdays_eq_none.1 hchecked.2).1 wd hwd
  have hwd' := mem_weekdays_of_weekly hz hz' h hfreq hfreq' hwd
  refine eq_of_hits (by decide) r.bounded.interval r'.bounded.interval fun k => ?_
  have hday : weekdayOf (7 * k - 1 + wd) = wd := by
    rw [weekdayOf]
    omega
  have hweek : week (7 * k - 1 + wd) = k := by
    rw [week]
    omega
  have hk := h (7 * k - 1 + wd)
  rw [fires_weekly hz hfreq, fires_weekly hz' hfreq', hday, hweek] at hk
  exact ⟨fun hits => (hk.1 ⟨hwd, hits⟩).2, fun hits => (hk.2 ⟨hwd', hits⟩).2⟩

theorem eq_of_monthly (hfreq : r.freq = .monthly) (hfreq' : r'.freq = .monthly)
    (hday : r.setPos = 0 → r.monthDay = lastDayOfMonth)
    (hday' : r'.setPos = 0 → r'.monthDay = lastDayOfMonth) :
    r.interval = r'.interval ∧ r.interval ∣ monthIndex r'.anchorDay - monthIndex r.anchorDay := by
  refine eq_of_multiples r.bounded.interval r'.bounded.interval fun i => ?_
  constructor
  · intro hi
    obtain ⟨d, rfl, hd⟩ := exists_onDay hfreq hday i
    exact ((fires_monthly hz' hfreq' d).1 ((h d).1 ((fires_monthly hz hfreq d).2 ⟨hi, hd⟩))).1
  · intro hi
    obtain ⟨d, rfl, hd⟩ := exists_onDay hfreq' hday' i
    exact ((fires_monthly hz hfreq d).1 ((h d).2 ((fires_monthly hz' hfreq' d).2 ⟨hi, hd⟩))).1

theorem weekdays_of_monthly (hfreq : r.freq = .monthly) (hfreq' : r'.freq = .monthly)
    (hpos : r.setPos ≠ 0) (hpos' : r'.setPos ≠ 0) : r.weekdays = r'.weekdays := by
  obtain ⟨wd, hwd⟩ := r.exists_weekday hfreq hpos
  obtain ⟨wd', hwd'⟩ := r'.exists_weekday hfreq' hpos'
  obtain ⟨d, hd, hon⟩ := exists_onDay hfreq (fun h0 => absurd h0 hpos) (monthIndex r.anchorDay)
  have hfires := (h d).1 ((fires_monthly hz hfreq d).2
    ⟨by rw [hd, Int.sub_self]; exact Int.dvd_zero _, hon⟩)
  have hon' := ((fires_monthly hz' hfreq' d).1 hfires).2
  rw [OnDay, if_pos hpos, hwd, mem_singleton] at hon
  rw [OnDay, if_pos hpos', hwd', mem_singleton] at hon'
  rw [hwd, hwd', ← hon.1, ← hon'.1]

section
variable (hfreq : r.freq = .monthly) (hfreq' : r'.freq = .monthly) (hpos : r.setPos = 0)
  (hpos' : r'.setPos = 0) (hday : r'.monthDay = r.monthDay) (hlast : r.monthDay ≠ lastDayOfMonth)

include hfreq hfreq' hpos hpos' hday hlast

theorem dvd_iff_of_monthDay {d : ℤ} (hd : ((civil d).day : ℤ) = r.monthDay) :
    r.interval ∣ monthIndex d - monthIndex r.anchorDay ↔
      r'.interval ∣ monthIndex d - monthIndex r'.anchorDay := by
  have hon : r.OnDay d (d + 7) := by rwa [OnDay, if_neg (not_not.2 hpos), if_neg hlast]
  have hon' : r'.OnDay d (d + 7) := by rwa [OnDay, if_neg (not_not.2 hpos'), hday, if_neg hlast]
  have hboth := h d
  rw [fires_monthly hz hfreq, fires_monthly hz' hfreq'] at hboth
  exact ⟨fun hi => (hboth.1 ⟨hi, hon⟩).1, fun hi => (hboth.2 ⟨hi, hon'⟩).1⟩

theorem neverOn_of_monthDay (hnever : NeverOn r.monthDay r.interval r.anchorDay) :
    NeverOn r.monthDay r'.interval r'.anchorDay := by
  intro d hcount hd
  exact hnever d ((dvd_iff_of_monthDay hz hz' h hfreq hfreq' hpos hpos' hday hlast hd).2 hcount) hd

/-- A day that some counted month has gives the interval up to a factor of 192, and the anchor up
to the interval. -/
theorem dvd_of_monthDay (hever : ¬NeverOn r.monthDay r.interval r.anchorDay) :
    r.interval ∣ 192 * r'.interval ∧ (r'.interval = r.interval →
        r.interval ∣ monthIndex r'.anchorDay - monthIndex r.anchorDay) := by
  have hiff : ∀ d, ((civil d).day : ℤ) = r.monthDay → _ := fun d =>
    dvd_iff_of_monthDay hz hz' h hfreq hfreq' hpos hpos' hday hlast
  obtain ⟨d, hd⟩ := not_forall.1 hever
  obtain ⟨hcount, hd⟩ := Classical.not_imp.1 hd
  have hcount' := (hiff d (not_not.1 hd)).1 hcount
  constructor
  · obtain ⟨k, d', hk, hindex, hsame⟩ := exists_sameDay d r'.interval
    have hshift : r.interval ∣ monthIndex d' - monthIndex r.anchorDay := by
      refine (hiff d' (by rw [hsame]; exact not_not.1 hd)).2 ?_
      rw [hindex, Int.add_comm, Int.add_sub_assoc]
      exact Int.dvd_add (Int.dvd_mul_left _ _) hcount'
    rw [hindex, Int.add_comm, Int.add_sub_assoc] at hshift
    exact Int.dvd_trans ((Int.dvd_add_left hcount).1 hshift) (Int.mul_dvd_mul_right _ hk)
  · intro heq
    rw [heq] at hcount'
    have hdiff := Int.dvd_sub hcount hcount'
    rwa [sub_sub_sub_cancel_left] at hdiff

end

end

/-! ### A recurrence that fires every day -/

/-- Every day, or every weekday of every week. -/
def EveryDay (r : Recurrence) : Prop :=
  r.interval = 1 ∧ (r.freq = .daily ∨ r.freq = .weekly ∧ ∀ wd, 0 ≤ wd → wd ≤ 6 → wd ∈ r.weekdays)

theorem firesOn_of_everyDay (h : r.EveryDay) (d : ℤ) : r.firesOn d := by
  obtain ⟨hinterval, hdaily | ⟨hweekly, hall⟩⟩ := h
  · rw [firesOn, dateFires_daily hdaily, hinterval]
    exact Int.one_dvd _
  rw [firesOn, dateFires_weekly hweekly, hinterval, reading_div]
  have hday : 0 ≤ weekdayOf d ∧ weekdayOf d ≤ 6 := by
    rw [weekdayOf]
    omega
  exact ⟨hall _ hday.1 hday.2, Int.one_dvd _⟩

theorem everyDay_of_firesOn (hz : r.zone.Fixed) (h : ∀ d, r.firesOn d) : r.EveryDay := by
  cases hfreq : r.freq with
  | daily =>
    have hnext := (fires_daily hz hfreq (1 + r.anchorDay)).1 (h _)
    rw [Hits, clamp_of_le (by omega) (by omega), Int.add_sub_cancel] at hnext
    have hle := Int.le_of_dvd (by decide) hnext
    have hge := r.bounded.interval
    exact ⟨by omega, .inl hfreq⟩
  | weekly =>
    have hnext := ((fires_weekly hz hfreq (7 * (1 + week r.anchorDay))).1 (h _)).2
    have hweek : week (7 * (1 + week r.anchorDay)) = 1 + week r.anchorDay := by
      rw [week]
      omega
    rw [hweek, Hits, clamp_of_le (by omega) (by omega), Int.add_sub_cancel] at hnext
    have hle := Int.le_of_dvd (by decide) hnext
    have hge := r.bounded.interval
    refine ⟨by omega, .inr ⟨hfreq, ?_⟩⟩
    intro wd hlo hhi
    have hmem := ((fires_weekly hz hfreq (wd - 1)).1 (h _)).1
    have hday : weekdayOf (wd - 1) = wd := by
      rw [weekdayOf]
      omega
    rwa [hday] at hmem
  | monthly =>
    -- It would fire on two days in a row, the first two of a month.
    exfalso
    have hfirst := ((fires_monthly hz hfreq 0).1 (h _)).2
    have hsecond := ((fires_monthly hz hfreq 1).1 (h _)).2
    have hday : (civil 0).day = 1 ∧ (civil 1).day = 2 := by decide
    have hmonth : (civil (0 + 1)).month = (civil 0).month := by decide
    simp only [OnDay] at hfirst hsecond
    by_cases hpos : r.setPos = 0
    · rw [if_neg (not_not.2 hpos)] at hfirst hsecond
      by_cases hlast : r.monthDay = lastDayOfMonth
      · rw [if_pos hlast] at hfirst
        exact hfirst hmonth
      · rw [if_neg hlast] at hfirst hsecond
        omega
    · obtain ⟨wd, hwd⟩ := r.exists_weekday hfreq hpos
      rw [if_pos hpos, hwd, mem_singleton] at hfirst hsecond
      have hdiff : weekdayOf 0 ≠ weekdayOf 1 := by decide
      exact hdiff (hfirst.1.trans hsecond.1.symm)
  | unknown n =>
    have := r.bounded.freq
    rw [Rule.checkFreq_eq_none, hfreq] at this
    exact this.elim

end Recurrence

end AnimeFeedFlux.Cron
