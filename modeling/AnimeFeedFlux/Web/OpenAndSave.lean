import AnimeFeedFlux.Schedule.SameDates
import AnimeFeedFlux.Web.ScheduleControl

/-!
# Opening and saving a schedule

A recurrence that `Resolve` accepts, opened in the editor and saved without a change.  It is
accepted again.  Whether it fires on the same dates depends on what the message and the draft
keep: a frequency or a weekday in another spelling than theirs is replaced, so is an anchor that is
absent or not written plainly, and an interval beyond 32 bits is cut.
-/

namespace AnimeFeedFlux

open Cron Calendar GoStrings Periods

/-! ## What is saved, resolved -/

/-- The anchor of a recurrence whose text has the date of this day, or no date. -/
def anchorInstant (z : Zone) (day : Option ℤ) : ℤ :=
  let t := day.elim 0 fun d => Zone.date z (86400 * d) * Time.second
  if t = 0 then unixEpoch else t

/-- The day that the saved recurrence counts from. -/
def savedAnchorDay (z : Zone) (anchor : String) (today : ℤ) : ℤ :=
  Zone.wall z (Time.seconds (anchorInstant z (savedDay anchor today))) / 86400

/-- What `r'`, which was saved, has of `r`, which was opened, under every frequency. -/
structure SavedBase (w : Written) (today : ℤ) (r r' : Recurrence) : Prop where
  zone : r'.zone = r.zone
  freq : r'.freq = r.freq
  interval : r'.interval = savedInterval r.interval
  hour : r'.hour = r.hour
  minute : r'.minute = r.minute
  anchorDay : r'.anchorDay = savedAnchorDay r.zone w.anchor today

/-- How `r'` differs from `r`. -/
structure SavedFrom (w : Written) (today : ℤ) (r r' : Recurrence) : Prop
    extends SavedBase w today r r' where
  weekdays : r.freq = .weekly → r'.weekdays = savedWeekdays w.weekdays today
  setPos : r.freq = .monthly → r'.setPos = r.setPos
  weekday : r.freq = .monthly → r.setPos ≠ 0 → r'.weekdays = [savedWeekday w.weekdays today]
  monthDay : r.freq = .monthly → r.setPos = 0 → r'.monthDay = r.monthDay

section
variable {locale : Cron.Locale} {w : Written} {tz : String} {r : Recurrence}

theorem lookup_isSome_of_plain {name : String} :
    (weekdayNames.lookup name).isSome ↔ PlainWeekday name := by
  constructor
  · intro h
    obtain ⟨d, hd⟩ := Option.isSome_iff_exists.1 h
    obtain ⟨l, l', hl, -⟩ := List.lookup_eq_some_iff.1 hd
    exact List.mem_map.2 ⟨(name, d), by rw [hl]; simp, rfl⟩
  · intro h
    have hnames : ∀ p ∈ weekdayNames, (weekdayNames.lookup p.1).isSome = true := by decide
    obtain ⟨p, hp, rfl⟩ := List.mem_map.1 h
    exact hnames p hp

variable {names : List String} {days : List ℤ}

/-- The days with plain names are among the days that are resolved, in their order. -/
theorem plainDays_sublist (hascii : locale.Ascii)
    (h : resolveWeekdays locale.lower names = .ok days) : (plainDays names).Sublist days := by
  have hall := resolveWeekdays_ok_iff.1 h
  clear h
  induction hall with
  | nil => exact .slnil
  | @cons name d names days hd _ ih =>
    rw [plainDays, List.filterMap_cons]
    cases hlookup : weekdayNames.lookup name with
    | none => exact ih.cons d
    | some d' =>
      have hplain : PlainWeekday name := lookup_isSome_of_plain.1 (by rw [hlookup]; rfl)
      rw [normal_of_plainWeekday hascii hplain, hlookup] at hd
      cases hd
      exact ih.cons_cons d

theorem nodup_savedWeekdays (hascii : locale.Ascii)
    (h : resolveWeekdays locale.lower names = .ok days) (hnodup : days.Nodup) (today : ℤ) :
    (savedWeekdays names today).Nodup := by
  rw [savedWeekdays]
  split
  · exact hnodup.sublist (plainDays_sublist hascii h)
  · simp

theorem weekdays_checked (hf : r.freq = .weekly ∨ r.freq = .monthly ∧ r.setPos ≠ 0) :
    r.weekdays ≠ [] ∧ r.weekdays.Nodup := by
  have hchecked := Rule.checkFreq_eq_none.1 r.bounded.freq
  rcases hf with hf | ⟨hf, hpos⟩
  · rw [hf] at hchecked
    exact ⟨hchecked.1, (validWeekdays_eq_none.1 hchecked.2).2⟩
  obtain ⟨wd, hwd⟩ := r.exists_weekday hf hpos
  rw [hwd]
  exact ⟨List.cons_ne_nil _ _, List.nodup_singleton wd⟩

variable (hascii : locale.Ascii) (h : resolve locale w tz = .ok r)
include hascii h

theorem exists_resolve_saved (today : ℤ) (days : List ℤ) (hrange : ∀ d ∈ days, 0 ≤ d ∧ d ≤ 6)
    (monthDay setPosition : ℤ)
    (hcheck : ∀ t, ((savedWritten locale w days monthDay setPosition today).rule r.freq days t
      r.zone).checkFreq = none) :
    ∃ r', resolve locale (savedWritten locale w days monthDay setPosition today) tz = .ok r' ∧
      SavedBase w today r r' ∧ r'.weekdays = days ∧ r'.setPos = setPosition ∧
      r'.monthDay = monthDay := by
  have hreads := reads_of_resolve h
  have hclock := r.bounded.hour
  have hclock' := r.bounded.minute
  have hhour : int32 w.hour = r.hour := by
    rw [← hreads.hour, int32_eq_self.2 (by omega)]
  have hminute : int32 w.minute = r.minute := by
    rw [← hreads.minute, int32_eq_self.2 (by omega)]
  have hresolved := resolveAnchor_saved locale r.zone w.anchor today
  have hdays := resolveWeekdays_names hascii hrange
  have hlookup := hreads.freq
  rw [← hhour] at hclock
  rw [← hminute] at hclock'
  obtain ⟨r', hr'⟩ := (exists_resolve_iff_bounded
    (w := savedWritten locale w days monthDay setPosition today) hreads.zone hlookup hdays
    hresolved).2 ⟨(savedInterval_bounds w.interval).1, hclock, hclock', hcheck _⟩
  have hreads' := reads_of_resolve hr'
  have hz : r'.zone = r.zone := Except.ok.inj (hreads'.zone.symm.trans hreads.zone)
  refine ⟨r', hr', ⟨hz, Option.some.inj (hreads'.freq.symm.trans hlookup), ?_,
    hreads'.hour.trans hhour, hreads'.minute.trans hminute, ?_⟩,
    Except.ok.inj (hreads'.weekdays.symm.trans hdays), hreads'.setPos, hreads'.monthDay⟩
  · rw [hreads'.interval, hreads.interval]
    rfl
  obtain ⟨t, ht, htime⟩ := hreads'.anchor
  rw [hz] at ht
  obtain rfl := Except.ok.inj (ht.symm.trans hresolved)
  rw [Recurrence.anchorDay, Recurrence.anchorReading, hz, htime]
  rfl

/-- A monthly recurrence has the day of the month, or the position and one weekday. -/
theorem exists_saved_monthly (hname : w.frequency = "monthly") (hf : r.freq = .monthly)
    (today : ℤ) :
    ∃ w' r', saved locale w today = some w' ∧ resolve locale w' tz = .ok r' ∧
      SavedFrom w today r r' := by
  have hreads := reads_of_resolve h
  have hchecked := Rule.checkFreq_eq_none.1 r.bounded.freq
  rw [hf] at hchecked
  simp only [hreads.setPos, hreads.monthDay] at hchecked
  have hweekly : r.freq ≠ .weekly := by rw [hf]; decide
  by_cases hpos : w.setPosition = 0
  · have hrange := hchecked.2 hpos
    have hday : int32 w.monthDay = w.monthDay := int32_eq_self.2 (by omega)
    have hzero : int32 w.setPosition = 0 := by rw [hpos]; decide
    have hsaved := saved_monthly hascii hname (fun _ => by omega) today
    rw [if_pos hzero, hday] at hsaved
    obtain ⟨r', hr', hbase, -, hsetPos, hmonthDay⟩ :=
      exists_resolve_saved hascii h today [] (by simp) w.monthDay 0 fun t => by
        rw [hf]
        exact Rule.checkFreq_eq_none.2 ⟨fun h0 => absurd rfl h0, fun _ => hrange⟩
    refine ⟨_, r', hsaved, hr', ⟨hbase, fun hw => absurd hw hweekly, ?_, ?_, ?_⟩⟩
    · exact fun _ => hsetPos.trans (hpos.symm.trans hreads.setPos.symm)
    · exact fun _ h0 => absurd (hreads.setPos.trans hpos) h0
    · exact fun _ _ => hmonthDay.trans hreads.monthDay.symm
  · obtain ⟨hrange, -, -⟩ := hchecked.1 hpos
    have hposition : int32 w.setPosition = w.setPosition := int32_eq_self.2 (by omega)
    have hsaved :=
      saved_monthly hascii hname (fun h0 => absurd (hposition.symm.trans h0) hpos) today
    rw [hposition, if_neg hpos] at hsaved
    have hdays : ∀ d ∈ [savedWeekday w.weekdays today], 0 ≤ d ∧ d ≤ 6 := by
      simpa using savedWeekday_bounds w.weekdays today
    obtain ⟨r', hr', hbase, hdays', hsetPos, -⟩ :=
      exists_resolve_saved hascii h today _ hdays 0 w.setPosition fun t => by
        rw [hf]
        exact Rule.checkFreq_eq_none.2 ⟨fun _ => ⟨hrange, rfl,
          validWeekdays_eq_none.2 ⟨hdays, List.nodup_singleton _⟩⟩, fun h0 => absurd h0 hpos⟩
    refine ⟨_, r', hsaved, hr', ⟨hbase, fun hw => absurd hw hweekly, ?_, ?_, ?_⟩⟩
    · exact fun _ => hsetPos.trans hreads.setPos.symm
    · exact fun _ _ => hdays'
    · exact fun _ h0 => absurd (hreads.setPos.symm.trans h0) hpos

/-- **What is saved of a plain frequency is accepted again.** -/
theorem exists_saved (hplain : PlainFrequency w.frequency) (today : ℤ) :
    ∃ w' r', saved locale w today = some w' ∧ resolve locale w' tz = .ok r' ∧
      SavedFrom w today r r' := by
  have hreads := reads_of_resolve h
  have hfreq := hreads.freq
  rw [normal_of_plainFrequency hascii hplain] at hfreq
  rcases frequency_cases hplain hfreq with ⟨hname, hf⟩ | ⟨hname, hf⟩ | ⟨hname, hf⟩
  · obtain ⟨r', hr', hbase, -⟩ := exists_resolve_saved hascii h today [] (by simp) 0 0
      fun t => by rw [hf]; rfl
    refine ⟨_, r', saved_daily hascii hname today, hr', ⟨hbase, ?_, ?_, ?_, ?_⟩⟩ <;>
      exact fun hne => absurd (hf.symm.trans hne) (by decide)
  · obtain ⟨-, hnodup⟩ := weekdays_checked (.inl hf)
    have hvalid : validWeekdays (savedWeekdays w.weekdays today) = none :=
      validWeekdays_eq_none.2 ⟨fun _ => savedWeekdays_bounds,
        nodup_savedWeekdays hascii hreads.weekdays hnodup today⟩
    have hne : savedWeekdays w.weekdays today ≠ [] := by
      rw [savedWeekdays]
      split
      · assumption
      · simp
    obtain ⟨r', hr', hbase, hdays, -⟩ := exists_resolve_saved hascii h today _
      (fun _ => savedWeekdays_bounds) 0 0 fun t => by
        rw [hf]
        exact Rule.checkFreq_eq_none.2 ⟨hne, hvalid⟩
    refine ⟨_, r', saved_weekly hascii hname today, hr', ⟨hbase, fun _ => hdays, ?_, ?_, ?_⟩⟩ <;>
      exact fun hm => absurd (hf.symm.trans hm) (by decide)
  · exact exists_saved_monthly hascii h hname hf today

/-- **A frequency in another spelling is saved as every day at noon.** -/
theorem exists_saved_of_not_plain (hplain : ¬PlainFrequency w.frequency) (today : ℤ) :
    ∃ w' r', saved locale w today = some w' ∧ resolve locale w' tz = .ok r' ∧ r'.EveryDay ∧
      r'.hour = 12 ∧ r'.minute = 0 := by
  have hname : PlainFrequency "daily" := by decide
  have hlookup : frequencyNames.lookup (toLower locale.lower (trimSpace "daily")) =
      some .daily := by
    rw [normal_of_plainFrequency hascii hname]
    decide
  have hanchor := resolveAnchor_saved locale r.zone "" today
  have hnone : savedDay "" today = sentAnchor (anchorText today) := by
    have hempty : sentAnchor "" = none := by decide
    rw [savedDay, hempty, Option.none_or]
  rw [hnone] at hanchor
  let w' : Written :=
    { frequency := "daily", interval := 1, hour := 12, minute := 0
      anchor := anchorTextOf (sentAnchor (anchorText today)) }
  have hresolve := exists_resolve_iff_bounded (w := w') (reads_of_resolve h).zone hlookup rfl
    hanchor
  have hnoon : (0 : ℤ) ≤ 12 ∧ (12 : ℤ) ≤ 23 := by decide
  have hsharp : (0 : ℤ) ≤ 0 ∧ (0 : ℤ) ≤ 59 := by decide
  obtain ⟨r', hr'⟩ := hresolve.2 ⟨Int.le_refl 1, hnoon, hsharp, rfl⟩
  have hreads := reads_of_resolve hr'
  refine ⟨w', r', saved_of_not_plain hascii hplain today, hr', ⟨hreads.interval, .inl ?_⟩,
    hreads.hour, hreads.minute⟩
  exact Option.some.inj (hreads.freq.symm.trans hlookup)

end

/-! ## The condition -/

/-- Opening and saving `w` on the day `today` keeps the firings of `r`. -/
def Preserved (locale : Cron.Locale) (w : Written) (tz : String) (today : ℤ) (r : Recurrence) :
    Prop :=
  ∃ w' r', saved locale w today = some w' ∧ resolve locale w' tz = .ok r' ∧ r.SameFirings r'

/-- The names of the weekdays are kept, or what replaces them is the same day. -/
def KeepsWeekdays (w : Written) (today : ℤ) (r : Recurrence) : Prop :=
  (∀ name ∈ w.weekdays, PlainWeekday name) ∨
    (∀ name ∈ w.weekdays, ¬PlainWeekday name) ∧ r.weekdays = [weekdayOf today]

/-- The interval is kept, or it and what is left of it are beyond all that is counted. -/
def KeepsInterval (limit n : ℤ) : Prop := n ≤ 2147483647 ∨ limit < savedInterval n

/-- The condition: the frequency is spelt plainly, and so is what else decides about the dates,
or its default does not make a difference. -/
def Survives (w : Written) (today : ℤ) (r : Recurrence) : Prop :=
  let a := savedAnchorDay r.zone w.anchor today
  if PlainFrequency w.frequency then
    match r.freq with
    | .daily =>
      r.interval = 1 ∨
        midnight r.zone a = midnight r.zone r.anchorDay ∧ KeepsInterval 106751 r.interval
    | .weekly =>
      KeepsWeekdays w today r ∧ (r.interval = 1 ∨
        sunday r.zone a = sunday r.zone r.anchorDay ∧ KeepsInterval 15250 r.interval)
    | .monthly =>
      (r.setPos ≠ 0 → KeepsWeekdays w today r) ∧
        (r.interval ≤ 2147483647 ∧ r.interval ∣ monthIndex a - monthIndex r.anchorDay ∨
          (r.setPos = 0 ∧ r.monthDay ≠ lastDayOfMonth) ∧
            NeverOn r.monthDay r.interval r.anchorDay ∧
              NeverOn r.monthDay (savedInterval r.interval) a)
    | .unknown _ => True
  else r.EveryDay ∧ r.hour = 12 ∧ r.minute = 0

/-! ## Intervals and weekdays -/

theorem savedInterval_eq_self {n : ℤ} (h : 1 ≤ n) (h' : n ≤ 2147483647) : savedInterval n = n := by
  rw [savedInterval, int32_eq_self.2 (by omega), if_neg (by omega)]

/-- An interval that is cut is no multiple of what is left, up to a factor of 192. -/
theorem le_of_dvd_savedInterval {n : ℤ} (h : n ∣ 192 * savedInterval n) : n ≤ 2147483647 := by
  by_contra hlt
  obtain ⟨hlo, hhi⟩ := savedInterval_bounds n
  obtain ⟨c, hc⟩ := h
  have hpos : 1 ≤ c := by
    by_contra hc0
    have := Int.mul_le_mul_of_nonneg_left (show c ≤ 0 by omega) (show 0 ≤ n by omega)
    omega
  by_cases hone : savedInterval n = 1
  · have := Int.mul_le_mul_of_nonneg_left hpos (show 0 ≤ n by omega)
    omega
  obtain ⟨q, hq⟩ : ∃ q, n = savedInterval n + 2 ^ 32 * q := by
    refine ⟨(n - int32 n) / 2 ^ 32, ?_⟩
    rw [savedInterval] at hone ⊢
    split at hone
    · exact absurd rfl hone
    rw [if_neg ‹_›, int32, Int.bmod]
    split <;> omega
  have hsmall : c < 2 ^ 6 := by
    by_contra hc64
    have := Int.mul_le_mul_of_nonneg_left (show 64 ≤ c by omega) (show 0 ≤ n by omega)
    omega
  have hdvd : (2 : ℤ) ^ 32 ∣ savedInterval n := by
    refine two_pow_dvd_of_mul_eq 6 (q := q) hpos hsmall ?_
    rw [← hq, Int.mul_comm c, ← hc]
    rfl
  have := Int.le_of_dvd (by omega) hdvd
  omega

section
variable {locale : Cron.Locale} {w : Written} {tz : String} {r : Recurrence} {today : ℤ}

theorem plainDays_eq_nil {names : List String} :
    plainDays names = [] ↔ ∀ name ∈ names, ¬PlainWeekday name := by
  simp only [plainDays, List.filterMap_eq_nil_iff, ← lookup_isSome_of_plain,
    Option.not_isSome_iff_eq_none]

theorem length_plainDays {names : List String} :
    (plainDays names).length = names.length ↔ ∀ name ∈ names, PlainWeekday name := by
  simp only [plainDays, List.length_filterMap_eq_countP, List.countP_eq_length,
    lookup_isSome_of_plain]

theorem KeepsInterval.dvd_iff {limit n x : ℤ} (h : KeepsInterval limit n) (hn : 1 ≤ n)
    (hlimit : limit < 2147483647) (hx : -limit ≤ x ∧ x ≤ limit) : n ∣ x ↔ savedInterval n ∣ x := by
  by_cases hkept : n ≤ 2147483647
  · rw [savedInterval_eq_self hn hkept]
  have hlt := h.resolve_left hkept
  rw [dvd_iff_of_lt (by omega) (by omega), dvd_iff_of_lt (by omega) (by omega)]

theorem span_bounds (n : ℤ) : -106751 ≤ span n ∧ span n ≤ 106751 := by
  rw [span]
  omega

theorem weeks_bounds (n : ℤ) : -15250 ≤ (span n).tdiv 7 ∧ (span n).tdiv 7 ≤ 15250 := by
  obtain ⟨hlo, hhi⟩ := span_bounds n
  exact ⟨Int.tdiv_le_tdiv (by decide) hlo, Int.tdiv_le_tdiv (by decide) hhi⟩

/-! ## The condition is enough -/

section
variable {r' : Recurrence} (hs : SavedFrom w today r r')
include hs

theorem SavedFrom.reading (d : ℤ) : r'.reading d = r.reading d := by
  rw [Recurrence.reading, Recurrence.reading, hs.hour, hs.minute]

theorem SavedFrom.daily (hf : r.freq = .daily)
    (h : r.interval = 1 ∨ midnight r.zone (savedAnchorDay r.zone w.anchor today) =
      midnight r.zone r.anchorDay ∧ KeepsInterval 106751 r.interval) (d : ℤ) :
    r.firesOn d ↔ r'.firesOn d := by
  rw [Recurrence.firesOn, Recurrence.firesOn, Recurrence.dateFires_daily hf,
    Recurrence.dateFires_daily (hs.freq.trans hf), hs.zone, hs.anchorDay, hs.interval, hs.reading]
  rcases h with hone | ⟨hday, hkept⟩
  · rw [hone]
    exact iff_of_true (Int.one_dvd _) (Int.one_dvd _)
  · rw [hday]
    exact hkept.dvd_iff r.bounded.interval (by decide) (span_bounds _)

theorem SavedFrom.weekly (hf : r.freq = .weekly)
    (hdays : ∀ d, d ∈ savedWeekdays w.weekdays today ↔ d ∈ r.weekdays)
    (h : r.interval = 1 ∨ sunday r.zone (savedAnchorDay r.zone w.anchor today) =
      sunday r.zone r.anchorDay ∧ KeepsInterval 15250 r.interval) (d : ℤ) :
    r.firesOn d ↔ r'.firesOn d := by
  rw [Recurrence.firesOn, Recurrence.firesOn, Recurrence.dateFires_weekly hf,
    Recurrence.dateFires_weekly (hs.freq.trans hf), hs.zone, hs.anchorDay, hs.interval, hs.reading,
    hs.weekdays hf, hdays]
  refine and_congr_right fun _ => ?_
  rcases h with hone | ⟨hday, hkept⟩
  · rw [hone]
    exact iff_of_true (Int.one_dvd _) (Int.one_dvd _)
  · rw [hday]
    exact hkept.dvd_iff r.bounded.interval (by decide) (weeks_bounds _)

theorem SavedFrom.monthly (hf : r.freq = .monthly)
    (hdays : r.setPos ≠ 0 → ∀ d, d ∈ [savedWeekday w.weekdays today] ↔ d ∈ r.weekdays)
    (hkept : r.interval ≤ 2147483647) (hdvd : r.interval ∣
      monthIndex (savedAnchorDay r.zone w.anchor today) - monthIndex r.anchorDay) (d : ℤ) :
    r.firesOn d ↔ r'.firesOn d := by
  rw [Recurrence.firesOn, Recurrence.firesOn, Recurrence.dateFires_monthly hf,
    Recurrence.dateFires_monthly (hs.freq.trans hf), hs.zone, hs.anchorDay, hs.interval,
    hs.reading, savedInterval_eq_self r.bounded.interval hkept, r.reading_div]
  refine and_congr ?_ ?_
  · have hsum : monthIndex d - monthIndex r.anchorDay =
        monthIndex d - monthIndex (savedAnchorDay r.zone w.anchor today) +
          (monthIndex (savedAnchorDay r.zone w.anchor today) - monthIndex r.anchorDay) := by
      omega
    rw [hsum]
    exact Int.dvd_add_left hdvd
  · rw [Recurrence.OnDay, Recurrence.OnDay, hs.setPos hf]
    by_cases hpos : r.setPos = 0
    · rw [if_neg (not_not.2 hpos), if_neg (not_not.2 hpos), hs.monthDay hf hpos]
    · rw [if_pos hpos, if_pos hpos, hs.weekday hf hpos, hdays hpos]

theorem SavedFrom.never (hf : r.freq = .monthly) (hpos : r.setPos = 0)
    (hlast : r.monthDay ≠ lastDayOfMonth) (hnever : NeverOn r.monthDay r.interval r.anchorDay)
    (hnever' : NeverOn r.monthDay (savedInterval r.interval)
      (savedAnchorDay r.zone w.anchor today)) (d : ℤ) :
    r.firesOn d ↔ r'.firesOn d := by
  rw [Recurrence.firesOn, Recurrence.firesOn, Recurrence.dateFires_monthly hf,
    Recurrence.dateFires_monthly (hs.freq.trans hf), hs.anchorDay, hs.interval, hs.reading,
    r.reading_div]
  simp only [Recurrence.OnDay, hs.setPos hf, hs.monthDay hf hpos, if_neg (not_not.2 hpos),
    if_neg hlast]
  exact iff_of_false (fun hd => hnever d hd.1 hd.2) fun hd => hnever' d hd.1 hd.2

end

/-! ## And necessary, in a zone without transitions -/

section
variable {r' : Recurrence} (hz : r.zone.Fixed) (hs : SavedFrom w today r r')
  (hdates : ∀ d, r.firesOn d ↔ r'.firesOn d)
include hz hs hdates

theorem SavedFrom.of_daily (hf : r.freq = .daily) :
    r.interval = 1 ∨ midnight r.zone (savedAnchorDay r.zone w.anchor today) =
      midnight r.zone r.anchorDay ∧ KeepsInterval 106751 r.interval := by
  have heq := Recurrence.eq_of_daily hz (hs.zone ▸ hz) hdates hf (hs.freq.trans hf)
  rw [hs.anchorDay, hs.interval] at heq
  have hbounds := savedInterval_bounds r.interval
  rcases heq with ⟨hone, -⟩ | ⟨hday, hinterval⟩
  · exact .inl hone
  refine .inr ⟨by rw [hday], ?_⟩
  rcases hinterval with heq | ⟨-, hlt⟩
  · exact .inl (by omega)
  · exact .inr hlt

theorem SavedFrom.of_weekly (hf : r.freq = .weekly) :
    (∀ d, d ∈ savedWeekdays w.weekdays today ↔ d ∈ r.weekdays) ∧
      (r.interval = 1 ∨ sunday r.zone (savedAnchorDay r.zone w.anchor today) =
        sunday r.zone r.anchorDay ∧ KeepsInterval 15250 r.interval) := by
  have hz' : r'.zone.Fixed := hs.zone ▸ hz
  have hf' := hs.freq.trans hf
  have heq := Recurrence.eq_of_weekly hz hz' hdates hf hf'
  rw [hs.anchorDay, hs.interval] at heq
  have hbounds := savedInterval_bounds r.interval
  constructor
  · intro d
    rw [← hs.weekdays hf]
    exact ⟨Recurrence.mem_weekdays_of_weekly hz' hz (fun d => (hdates d).symm) hf' hf,
      Recurrence.mem_weekdays_of_weekly hz hz' hdates hf hf'⟩
  · rcases heq with ⟨hone, -⟩ | ⟨hweek, hinterval⟩
    · exact .inl hone
    · refine .inr ⟨by rw [sunday_of_fixed hz, sunday_of_fixed hz, hweek], ?_⟩
      rcases hinterval with heq | ⟨-, hlt⟩
      · exact .inl (by omega)
      · exact .inr hlt

theorem SavedFrom.of_monthly (hf : r.freq = .monthly) : r.interval ≤ 2147483647 ∧ r.interval ∣
        monthIndex (savedAnchorDay r.zone w.anchor today) - monthIndex r.anchorDay ∨
      (r.setPos = 0 ∧ r.monthDay ≠ lastDayOfMonth) ∧ NeverOn r.monthDay r.interval r.anchorDay ∧
        NeverOn r.monthDay (savedInterval r.interval) (savedAnchorDay r.zone w.anchor today) := by
  have hz' : r'.zone.Fixed := hs.zone ▸ hz
  have hf' := hs.freq.trans hf
  have hbounds := savedInterval_bounds r.interval
  by_cases hday : r.setPos = 0 ∧ r.monthDay ≠ lastDayOfMonth
  · obtain ⟨hpos, hlast⟩ := hday
    have hpos' := (hs.setPos hf).trans hpos
    have hmonthDay := hs.monthDay hf hpos
    by_cases hnever : NeverOn r.monthDay r.interval r.anchorDay
    · have hnever' := Recurrence.neverOn_of_monthDay hz hz' hdates hf hf' hpos hpos' hmonthDay hlast
        hnever
      rw [hs.interval, hs.anchorDay] at hnever'
      exact .inr ⟨⟨hpos, hlast⟩, hnever, hnever'⟩
    · have hdvd := Recurrence.dvd_of_monthDay hz hz' hdates hf hf' hpos hpos' hmonthDay hlast hnever
      rw [hs.interval, hs.anchorDay] at hdvd
      have hkept := le_of_dvd_savedInterval hdvd.1
      exact .inl ⟨hkept, hdvd.2 (savedInterval_eq_self r.bounded.interval hkept)⟩
  · have hlast : r.setPos = 0 → r.monthDay = lastDayOfMonth := fun hpos => by
      by_contra hlast
      exact hday ⟨hpos, hlast⟩
    have hlast' : r'.setPos = 0 → r'.monthDay = lastDayOfMonth := by
      intro hpos'
      rw [hs.setPos hf] at hpos'
      rw [hs.monthDay hf hpos', hlast hpos']
    have heq := Recurrence.eq_of_monthly hz hz' hdates hf hf' hlast hlast'
    rw [hs.interval, hs.anchorDay] at heq
    exact .inl ⟨by omega, heq.2⟩

theorem SavedFrom.weekdays_of_monthly (hf : r.freq = .monthly) (hpos : r.setPos ≠ 0) :
    [savedWeekday w.weekdays today] = r.weekdays := by
  rw [← hs.weekday hf hpos]
  exact (Recurrence.weekdays_of_monthly hz (hs.zone ▸ hz) hdates hf (hs.freq.trans hf) hpos
    (by rwa [hs.setPos hf])).symm

end

variable (hascii : locale.Ascii) (h : resolve locale w tz = .ok r)
include hascii h

/-- **The weekdays are kept** exactly if the same are saved. -/
theorem keepsWeekdays_iff (hne : r.weekdays ≠ []) (hnodup : r.weekdays.Nodup) :
    KeepsWeekdays w today r ↔ ∀ d, d ∈ savedWeekdays w.weekdays today ↔ d ∈ r.weekdays := by
  have hresolved := (reads_of_resolve h).weekdays
  have hsub := plainDays_sublist hascii hresolved
  have hlength := (resolveWeekdays_ok_iff.1 hresolved).length_eq
  rw [KeepsWeekdays, ← length_plainDays, ← plainDays_eq_nil, savedWeekdays]
  by_cases hplain : plainDays w.weekdays = []
  · rw [if_neg (not_not.2 hplain)]
    have hzero : ¬(plainDays w.weekdays).length = w.weekdays.length := by
      rw [hplain, hlength]
      exact fun h0 => hne (List.length_eq_zero_iff.1 h0.symm)
    constructor
    · rintro (hall | ⟨-, hdays⟩)
      · exact absurd hall hzero
      · intro d
        rw [hdays]
    · intro hsame
      refine .inr ⟨hplain, ?_⟩
      have hperm : [weekdayOf today].Perm r.weekdays :=
        (List.perm_ext_iff_of_nodup (List.nodup_singleton _) hnodup).2 hsame
      exact (List.perm_singleton.1 hperm.symm)
  · rw [if_pos hplain]
    constructor
    · rintro (hall | ⟨hnone, -⟩)
      · rw [hsub.eq_of_length (hall.trans hlength)]
        exact fun d => Iff.rfl
      · exact absurd hnone hplain
    · intro hsame
      have hperm : (plainDays w.weekdays).Perm r.weekdays :=
        (List.perm_ext_iff_of_nodup (hnodup.sublist hsub) hnodup).2 hsame
      exact .inl (hperm.length_eq.trans hlength.symm)

theorem savedWeekday_eq {wd : ℤ} (hwd : r.weekdays = [wd]) :
    [savedWeekday w.weekdays today] = savedWeekdays w.weekdays today := by
  have hsub := plainDays_sublist hascii (reads_of_resolve h).weekdays
  rw [hwd] at hsub
  rw [savedWeekdays, savedWeekday]
  rcases List.sublist_singleton.1 hsub with hplain | hplain
  · simp [hplain]
  · simp [hplain]

/-- **What survives is preserved**, in every zone. -/
theorem preserved_of_survives (hsurvives : Survives w today r) : Preserved locale w tz today r := by
  rw [Survives] at hsurvives
  by_cases hplain : PlainFrequency w.frequency
  · rw [if_pos hplain] at hsurvives
    obtain ⟨w', r', hsaved, hr', hs⟩ := exists_saved hascii h hplain today
    refine ⟨w', r', hsaved, hr', ?_, fun _ => ⟨hs.hour, hs.minute⟩⟩
    cases hf : r.freq with
    | daily =>
      rw [hf] at hsurvives
      exact hs.daily hf hsurvives
    | weekly =>
      rw [hf] at hsurvives
      obtain ⟨hne, hnodup⟩ := weekdays_checked (.inl hf)
      exact hs.weekly hf ((keepsWeekdays_iff hascii h hne hnodup).1 hsurvives.1) hsurvives.2
    | monthly =>
      rw [hf] at hsurvives
      obtain ⟨hdays, ⟨hkept, hdvd⟩ | ⟨⟨hpos, hlast⟩, hnever, hnever'⟩⟩ := hsurvives
      · refine hs.monthly hf (fun hpos => ?_) hkept hdvd
        obtain ⟨hne, hnodup⟩ := weekdays_checked (.inr ⟨hf, hpos⟩)
        obtain ⟨wd, hwd⟩ := r.exists_weekday hf hpos
        rw [savedWeekday_eq hascii h hwd]
        exact (keepsWeekdays_iff hascii h hne hnodup).1 (hdays hpos)
      · exact hs.never hf hpos hlast hnever hnever'
    | unknown n =>
      have hchecked := r.bounded.freq
      rw [Rule.checkFreq_eq_none, hf] at hchecked
      exact hchecked.elim
  · rw [if_neg hplain] at hsurvives
    obtain ⟨hevery, hhour, hminute⟩ := hsurvives
    obtain ⟨w', r', hsaved, hr', hevery', hhour', hminute'⟩ :=
      exists_saved_of_not_plain hascii h hplain today
    refine ⟨w', r', hsaved, hr', fun d => ?_, fun _ => ?_⟩
    · exact iff_of_true (r.firesOn_of_everyDay hevery d) (r'.firesOn_of_everyDay hevery' d)
    rw [hhour, hhour', hminute, hminute']
    exact ⟨rfl, rfl⟩

/-- **What is preserved survives**, where the offset never changes. -/
theorem survives_of_preserved (hz : r.zone.Fixed) (hpreserved : Preserved locale w tz today r) :
    Survives w today r := by
  obtain ⟨w', r', hsaved, hr', hdates, hclock⟩ := hpreserved
  rw [Survives]
  by_cases hplain : PlainFrequency w.frequency
  · rw [if_pos hplain]
    obtain ⟨x, y, hx, hy, hs⟩ := exists_saved hascii h hplain today
    obtain rfl := Option.some.inj (hx.symm.trans hsaved)
    obtain rfl := Except.ok.inj (hy.symm.trans hr')
    cases hf : r.freq with
    | daily => exact hs.of_daily hz hdates hf
    | weekly =>
      obtain ⟨hne, hnodup⟩ := weekdays_checked (.inl hf)
      obtain ⟨hdays, hcount⟩ := hs.of_weekly hz hdates hf
      exact ⟨(keepsWeekdays_iff hascii h hne hnodup).2 hdays, hcount⟩
    | monthly =>
      refine ⟨fun hpos => ?_, hs.of_monthly hz hdates hf⟩
      obtain ⟨hne, hnodup⟩ := weekdays_checked (.inr ⟨hf, hpos⟩)
      obtain ⟨wd, hwd⟩ := r.exists_weekday hf hpos
      refine (keepsWeekdays_iff hascii h hne hnodup).2 fun d => ?_
      rw [← savedWeekday_eq hascii h hwd, hs.weekdays_of_monthly hz hdates hf hpos]
    | unknown n => trivial
  · rw [if_neg hplain]
    obtain ⟨x, y, hx, hy, hevery, hhour, hminute⟩ :=
      exists_saved_of_not_plain hascii h hplain today
    obtain rfl := Option.some.inj (hx.symm.trans hsaved)
    obtain rfl := Except.ok.inj (hy.symm.trans hr')
    have hall : ∀ d, r.firesOn d = true := fun d => (hdates d).2 (y.firesOn_of_everyDay hevery d)
    obtain ⟨hh, hm⟩ := hclock ⟨0, hall 0⟩
    exact ⟨r.everyDay_of_firesOn hz hall, hh.symm.trans hhour, hm.symm.trans hminute⟩

/-- **Opening and saving preserves the firings** of what survives, in every zone, and of nothing
else where the offset from UTC never changes. -/
theorem preserved_iff_survives (today : ℤ) :
    (Survives w today r → Preserved locale w tz today r) ∧
      (r.zone.Fixed → (Preserved locale w tz today r ↔ Survives w today r)) :=
  ⟨preserved_of_survives hascii h, fun hz =>
    ⟨survives_of_preserved hascii h hz, preserved_of_survives hascii h⟩⟩

end

/-- UTC under every name, and the letters of ASCII. -/
def utcLocale : Cron.Locale where
  loadLocation _ := .ok utc
  dateError s := s
  lower := Char.toLower

/-- Mondays and Thursdays of every second week, from the second week of March 2026 on. -/
def everyOtherWeek : Written :=
  { frequency := "weekly", interval := 2, weekdays := ["thursday", "monday"]
    anchor := "2026-03-09", hour := 7, minute := 30 }

/-- On Mondays, in the spelling of a sentence. -/
def onMondays : Written :=
  { frequency := "Weekly", interval := 1, weekdays := ["Monday"], hour := 7, minute := 0 }

theorem exists_ok_of_isOk {α : Type} {x : Except Cron.ParseError α} (h : x.isOk) :
    ∃ a, x = .ok a := by
  cases x with
  | error e => cases h
  | ok a => exact ⟨a, rfl⟩

/-- What is due every second week is preserved, with its days and its anchor. -/
theorem preserved_iff_survives_everyOtherWeek :
    ∃ r, resolve utcLocale everyOtherWeek "UTC" = .ok r ∧ r.interval = 2 ∧
      Survives everyOtherWeek (Zone.days 2026 3 1) r ∧
      Preserved utcLocale everyOtherWeek "UTC" (Zone.days 2026 3 1) r := by
  obtain ⟨r, hr⟩ := exists_ok_of_isOk
    (show (resolve utcLocale everyOtherWeek "UTC").isOk = true by decide +kernel)
  have hreads := reads_of_resolve hr
  have hfreq : r.freq = .weekly := Option.some.inj (hreads.freq.symm.trans (by decide +kernel))
  have hzone : r.zone = utc := (Except.ok.inj hreads.zone).symm
  have hanchor : r.anchorDay = Zone.days 2026 3 9 := by
    obtain ⟨t, ht, hr⟩ := hreads.anchor
    have hday : resolveAnchor utcLocale utc "2026-03-09" = .ok (instant 2026 3 9 0 0) := by
      decide +kernel
    rw [hzone] at ht
    obtain rfl := Except.ok.inj (ht.symm.trans hday)
    rw [Recurrence.anchorDay, Recurrence.anchorReading, hr, hzone]
    decide +kernel
  have hsurvives : Survives everyOtherWeek (Zone.days 2026 3 1) r := by
    have hplain : PlainFrequency everyOtherWeek.frequency := by decide
    rw [Survives, if_pos hplain, hfreq, hanchor, hzone, hreads.interval]
    exact ⟨.inl (by decide), .inr ⟨by decide +kernel, .inl (by decide)⟩⟩
  exact ⟨r, hr, hreads.interval, hsurvives,
    ((preserved_iff_survives (fun _ _ => rfl) hr _).2 (by rw [hzone]; exact fun _ => rfl)).2
      hsurvives⟩

/-- **A capital letter turns Mondays at seven into every day at noon.** -/
theorem not_preserved_onMondays : ∃ r, resolve utcLocale onMondays "UTC" = .ok r ∧
      ¬Preserved utcLocale onMondays "UTC" (Zone.days 2026 3 1) r := by
  obtain ⟨r, hr⟩ := exists_ok_of_isOk
    (show (resolve utcLocale onMondays "UTC").isOk = true by decide +kernel)
  refine ⟨r, hr, fun h => ?_⟩
  have hreads := reads_of_resolve hr
  have hzone : r.zone = utc := (Except.ok.inj hreads.zone).symm
  have hplain : ¬PlainFrequency onMondays.frequency := by decide
  have hsurvives :=
    survives_of_preserved (fun _ _ => rfl) hr (by rw [hzone]; exact fun _ => rfl) h
  rw [Survives, if_neg hplain, hreads.hour] at hsurvives
  exact absurd hsurvives.2.1 (by decide)

end AnimeFeedFlux
