import AnimeFeedFlux.Rpc.RecurrenceConv
import AnimeFeedFlux.Schedule.Dates

/-!
# The schedule control of the editor

`schedulecontrol.go`: the editor opens the recurrence of a message as a draft, with a value for
every control on screen, and saves the draft as a message again.  A control that the message says
nothing about shows a value of the current day.
-/

namespace AnimeFeedFlux

open Cron GoStrings List

inductive ScheduleUnit
  | day
  | week
  | month
  | year
  deriving DecidableEq, Repr

inductive MonthlyMode
  | onDay
  | onWeekday
  deriving DecidableEq, Repr

structure ScheduleDraft where
  unit : ScheduleUnit
  interval : ℤ
  weekdays : List ℤ
  mode : MonthlyMode
  monthDay : ℤ
  setPosition : ℤ
  monthWeekday : ℤ
  hour : ℤ
  minute : ℤ
  anchor : String
  deriving DecidableEq, Repr

/-- `DefaultScheduleDraft`, on the day `today`. -/
def defaultScheduleDraft (today : ℤ) : ScheduleDraft :=
  { unit := .day, interval := 1, weekdays := [weekdayOf today], mode := .onDay
    monthDay := (Calendar.civil today).day, setPosition := 1, monthWeekday := weekdayOf today
    hour := 12, minute := 0, anchor := anchorText today }

def weekdayName (locale : Cron.Locale) (d : ℤ) : String := toLower locale.lower (weekdayString d)

/-- The days that `time.Weekday` ranges over. -/
def allWeekdays : List ℤ := [0, 1, 2, 3, 4, 5, 6]

/-! ## Drafts and recipes -/

def ScheduleDraft.toRecurrence (locale : Cron.Locale) (d : ScheduleDraft) : Written :=
  let interval := if d.interval < 1 then 1 else d.interval
  let monthly (interval : ℤ) : Written :=
    match d.mode with
    | .onWeekday =>
      { frequency := "monthly", interval, weekdays := [weekdayName locale d.monthWeekday]
        setPosition := d.setPosition, hour := d.hour, minute := d.minute, anchor := d.anchor }
    | .onDay =>
      { frequency := "monthly", interval, monthDay := d.monthDay, hour := d.hour
        minute := d.minute, anchor := d.anchor }
  match d.unit with
  | .week =>
    { frequency := "weekly", interval, weekdays := d.weekdays.map (weekdayName locale)
      hour := d.hour, minute := d.minute, anchor := d.anchor }
  | .month => monthly interval
  | .year => monthly (interval * 12)
  | .day =>
    { frequency := "daily", interval, hour := d.hour, minute := d.minute, anchor := d.anchor }

def parseWeekdays (locale : Cron.Locale) (names : List String) : List ℤ :=
  names.filterMap fun name =>
    allWeekdays.find? fun wd => weekdayName locale wd == toLower locale.lower (trimSpace name)

def fromRecurrence (locale : Cron.Locale) (r : Written) (today : ℤ) : ScheduleDraft :=
  let interval := if r.interval < 1 then 1 else r.interval
  let d :=
    { defaultScheduleDraft today with
      interval, hour := r.hour, minute := r.minute
      anchor := if r.anchor ≠ "" then r.anchor else anchorText today }
  let days := parseWeekdays locale r.weekdays
  let frequency := toLower locale.lower r.frequency
  if frequency = "weekly" then
    { d with unit := .week, weekdays := if days ≠ [] then days else d.weekdays }
  else if frequency = "monthly" then
    let d :=
      if interval % 12 = 0 ∧ 12 ≤ interval then { d with unit := .year, interval := interval / 12 }
      else { d with unit := .month }
    if r.setPosition ≠ 0 then
      { d with
        mode := .onWeekday, setPosition := r.setPosition
        monthWeekday := match days with
          | [day] => day
          | _ => d.monthWeekday }
    else { d with mode := .onDay, monthDay := if r.monthDay ≠ 0 then r.monthDay else d.monthDay }
  else { d with unit := .day }

/-! ## Drafts and messages -/

def protoWeekdayFor : List (ℤ × Affv1.Weekday) :=
  [(0, .sunday), (1, .monday), (2, .tuesday), (3, .wednesday), (4, .thursday), (5, .friday),
    (6, .saturday)]

def weekdayForProto : List (Affv1.Weekday × ℤ) := protoWeekdayFor.map Prod.swap

def protoFrequencyFor : List (String × Affv1.Frequency) :=
  [("daily", .daily), ("weekly", .weekly), ("monthly", .monthly)]

def frequencyForProto : List (Affv1.Frequency × String) := protoFrequencyFor.map Prod.swap

def draftFromProto (locale : Cron.Locale) (pr : Option Affv1.Recurrence) (today : ℤ) :
    ScheduleDraft :=
  match pr with
  | none => defaultScheduleDraft today
  | some pr =>
    match frequencyForProto.lookup pr.frequency with
    | none => defaultScheduleDraft today
    | some frequency =>
      fromRecurrence locale
        { frequency, interval := pr.interval
          weekdays := pr.weekdays.filterMap fun d =>
            (weekdayForProto.lookup d).map (weekdayName locale)
          monthDay := pr.monthDay, setPosition := pr.setPosition, hour := pr.hour
          minute := pr.minute, anchor := anchorFromProto pr.anchor }
        today

/-- `ScheduleDraft.ToProto`.  The names of the weekdays differ, so the order in which the map is
walked does not matter. -/
def ScheduleDraft.toProto (locale : Cron.Locale) (d : ScheduleDraft) : Affv1.Recurrence :=
  let r := d.toRecurrence locale
  { frequency := (protoFrequencyFor.lookup r.frequency).getD .unspecified
    interval := int32 r.interval
    weekdays := r.weekdays.filterMap fun name =>
      (protoWeekdayFor.find? fun p => weekdayName locale p.1 == name).map (·.2)
    monthDay := int32 r.monthDay, setPosition := int32 r.setPosition, hour := int32 r.hour
    minute := int32 r.minute, anchor := anchorToProto r.anchor }

/-- A stored recurrence, opened in the editor on the day `today` and saved. -/
def saved (locale : Cron.Locale) (r : Written) (today : ℤ) : Option Written :=
  recurrenceFromProto (some ((draftFromProto locale (recurrenceToProto (some r)) today).toProto
    locale))

/-! ## Weekdays, there and back -/

section
variable {locale : Cron.Locale}

theorem weekdayName_ascii (hascii : locale.Ascii) (d : ℤ) :
    weekdayName locale d = toLower Char.toLower (weekdayString d) := by
  have hletters : ["Sunday", "Monday", "Tuesday", "Wednesday", "Thursday", "Friday",
      "Saturday", ""].all (fun s => s.toList.all (fun c => decide (c.toNat < 0x80))) = true := by
    decide
  have hmem : weekdayString d ∈ ["Sunday", "Monday", "Tuesday", "Wednesday", "Thursday", "Friday",
      "Saturday", ""] := by
    rw [weekdayString, getD_eq_getElem?_getD]
    cases hd : ["Sunday", "Monday", "Tuesday", "Wednesday", "Thursday", "Friday",
        "Saturday"][d.toNat]? with
    | none => decide
    | some s => exact mem_append_left [""] (mem_of_getElem? hd)
  have hall := all_eq_true.1 (all_eq_true.1 hletters _ hmem)
  rw [weekdayName, toLower, toLower, map_congr_left]
  intro c hc
  exact hascii c (by simpa using hall c hc)

/-- The days whose names have the plain spelling. -/
def plainDays (names : List String) : List ℤ := names.filterMap (weekdayNames.lookup ·)

variable {d : ℤ} {days : List ℤ}

theorem plainDays_bounds {names : List String} (h : d ∈ plainDays names) : 0 ≤ d ∧ d ≤ 6 := by
  obtain ⟨name, -, hd⟩ := mem_filterMap.1 h
  have hvalues : ∀ p ∈ weekdayNames, 0 ≤ p.2 ∧ p.2 ≤ 6 := by decide
  obtain ⟨l, l', hl, -⟩ := lookup_eq_some_iff.1 hd
  exact hvalues (name, d) (by rw [hl]; simp)

theorem parse_weekday (hascii : locale.Ascii) (name : String) :
    ((weekdayProtos.lookup name).bind fun d =>
      (weekdayForProto.lookup d).map (weekdayName locale)).bind
      (fun text => allWeekdays.find? fun wd =>
        weekdayName locale wd == toLower locale.lower (trimSpace text)) =
      weekdayNames.lookup name := by
  by_cases h : PlainWeekday name
  · have hname : ∀ p ∈ weekdayNames, (weekdayProtos.lookup p.1).bind (fun d =>
        (weekdayForProto.lookup d).map fun d => toLower Char.toLower (weekdayString d)) =
        some p.1 := by
      decide
    have hday : ∀ p ∈ weekdayNames, (allWeekdays.find? fun wd =>
        toLower Char.toLower (weekdayString wd) == p.1) = weekdayNames.lookup p.1 := by
      decide
    obtain ⟨p, hp, rfl⟩ := mem_map.1 h
    simp [funext (weekdayName_ascii hascii), hname p hp, normal_of_plainWeekday hascii h, hday p hp]
  · have hnone := lookup_weekdayProtos_of_not_plain h
    have hnone' : weekdayNames.lookup name = none := by
      rw [lookup_eq_none_iff]
      intro p hp
      rw [bne_iff_ne]
      rintro rfl
      exact h (mem_map_of_mem hp)
    rw [hnone, hnone']
    rfl

theorem parseWeekdays_sent (hascii : locale.Ascii) (names : List String) :
    parseWeekdays locale ((names.filterMap (weekdayProtos.lookup ·)).filterMap fun d =>
      (weekdayForProto.lookup d).map (weekdayName locale)) = plainDays names := by
  rw [parseWeekdays, filterMap_filterMap, filterMap_filterMap, plainDays]
  congr 1
  funext name
  rw [← Option.bind_assoc]
  exact parse_weekday hascii name

theorem mem_allWeekdays (h : 0 ≤ d ∧ d ≤ 6) : d ∈ allWeekdays := by
  simp only [allWeekdays, mem_cons, not_mem_nil, or_false]
  omega

theorem weekdays_toProto (hascii : locale.Ascii) (h : ∀ d ∈ days, 0 ≤ d ∧ d ≤ 6) :
    ((days.map (weekdayName locale)).filterMap fun name =>
      (protoWeekdayFor.find? fun p => weekdayName locale p.1 == name).map (·.2)).filterMap
      (protoWeekdays.lookup ·) = days.map (weekdayName locale) := by
  have hday : ∀ d ∈ allWeekdays,
      ((protoWeekdayFor.find? fun p => toLower Char.toLower (weekdayString p.1) ==
        toLower Char.toLower (weekdayString d)).map (·.2)).bind (protoWeekdays.lookup ·) =
      some (toLower Char.toLower (weekdayString d)) := by
    decide
  induction days with
  | nil => rfl
  | cons d days ih =>
    have hrest := ih fun d hd => h d (mem_cons_of_mem _ hd)
    have hhead := hday d (mem_allWeekdays (h d mem_cons_self))
    simp only [funext (weekdayName_ascii hascii), filterMap_filterMap] at hrest ⊢
    rw [map_cons, filterMap_cons, hhead, hrest]

theorem resolveWeekdays_names (hascii : locale.Ascii) (h : ∀ d ∈ days, 0 ≤ d ∧ d ≤ 6) :
    resolveWeekdays locale.lower (days.map (weekdayName locale)) = .ok days := by
  have hday : ∀ d ∈ allWeekdays, PlainWeekday (toLower Char.toLower (weekdayString d)) ∧
      weekdayNames.lookup (toLower Char.toLower (weekdayString d)) = some d := by
    decide
  rw [resolveWeekdays_ok_iff, forall₂_map_left_iff, forall₂_same]
  intro d hd
  obtain ⟨hplain, hlookup⟩ := hday d (mem_allWeekdays (h d hd))
  rw [← weekdayName_ascii hascii] at hplain hlookup
  rw [normal_of_plainWeekday hascii hplain, hlookup]

end

/-! ## Anchors, there and back -/

/-- The day of an anchor that the message keeps: a date as `AnchorLayout` writes it, with nothing
around it, of the years that a `Timestamp` has. -/
def sentAnchor (anchor : String) : Option ℤ :=
  if anchor ≠ "" then (parseAnchor anchor).filter (0 ≤ ·) else none

/-- The text of an anchor that may be absent. -/
def anchorTextOf (day : Option ℤ) : String := day.elim "" anchorText

variable {d today : ℤ} {anchor : String}

theorem isValid_iff (h : (Calendar.civil d).year ≤ 9999) : Affv1.isValid (86400 * d) ↔ 0 ≤ d := by
  have hlt := Calendar.lt_daysBeforeYear_yearOfDay_succ d
  have hmono := Calendar.daysBeforeYear_mono (show Calendar.yearOfDay d + 1 ≤ 10000 by
    rw [Calendar.civil_year] at h
    omega)
  have hlast : Calendar.daysBeforeYear 10000 = 3652059 := by decide
  simp only [Affv1.isValid, Bool.and_eq_true, decide_eq_true_eq]
  omega

theorem anchorFromProto_toProto (anchor : String) :
    anchorFromProto (anchorToProto anchor) = anchorTextOf (sentAnchor anchor) := by
  rw [anchorToProto, sentAnchor]
  split
  · cases hday : parseAnchor anchor with
    | none => rfl
    | some d =>
      have hvalid := isValid_iff (year_of_parseAnchor hday).2
      rw [Option.map_some, anchorFromProto, Int.mul_ediv_cancel_left d (by decide)]
      by_cases hd : 0 ≤ d
      · rw [if_pos (hvalid.2 hd), Option.filter_some_pos (by simpa using hd)]
        rfl
      · rw [if_neg (mt hvalid.1 hd), Option.filter_some_neg (by simpa using hd)]
        rfl
  · rfl

theorem sentAnchor_some (h : sentAnchor anchor = some d) :
    0 ≤ d ∧ parseAnchor (anchorText d) = some d := by
  rw [sentAnchor] at h
  split at h
  · obtain ⟨hday, hd⟩ := Option.filter_eq_some_iff.1 h
    obtain ⟨h0, h1⟩ := year_of_parseAnchor hday
    exact ⟨by simpa using hd, parseAnchor_anchorText h0 h1⟩
  · cases h

theorem sentAnchor_anchorText (h : 0 ≤ d) (hparse : parseAnchor (anchorText d) = some d) :
    sentAnchor (anchorText d) = some d := by
  rw [sentAnchor, if_pos (anchorText_ne_empty d), hparse,
    Option.filter_some_pos (by simpa using h)]

/-- The day from which the saved recurrence counts: that of the anchor if the message keeps it,
otherwise the current one, and none if that is out of range too. -/
def savedDay (anchor : String) (today : ℤ) : Option ℤ :=
  (sentAnchor anchor).or (sentAnchor (anchorText today))

/-- **The anchor that is saved.** -/
theorem anchor_saved (anchor : String) (today : ℤ) :
    let opened := anchorFromProto (anchorToProto anchor)
    anchorFromProto (anchorToProto (if opened ≠ "" then opened else anchorText today)) =
      anchorTextOf (savedDay anchor today) := by
  simp only [anchorFromProto_toProto, savedDay]
  cases hsent : sentAnchor anchor with
  | none => rfl
  | some d =>
    obtain ⟨hd, hparse⟩ := sentAnchor_some hsent
    have hne : anchorTextOf (some d) ≠ "" := anchorText_ne_empty d
    have hback : sentAnchor (anchorTextOf (some d)) = some d := sentAnchor_anchorText hd hparse
    rw [if_pos hne, hback]
    rfl

theorem savedDay_some (h : savedDay anchor today = some d) :
    parseAnchor (anchorText d) = some d := by
  rcases Option.or_eq_some_iff.1 h with h | ⟨-, h⟩
  · exact (sentAnchor_some h).2
  · exact (sentAnchor_some h).2

theorem resolveAnchor_saved (locale : Cron.Locale) (loc : Zone) (anchor : String) (today : ℤ) :
    resolveAnchor locale loc (anchorTextOf (savedDay anchor today)) =
      .ok ((savedDay anchor today).elim 0 fun d => Zone.date loc (86400 * d) * Time.second) := by
  cases hday : savedDay anchor today with
  | none => rfl
  | some d =>
    rw [anchorTextOf, Option.elim_some, resolveAnchor, trimSpace_anchorText,
      if_neg (anchorText_ne_empty d), savedDay_some hday]
    rfl

/-! ## What is saved -/

/-- The interval that is saved. -/
def savedInterval (n : ℤ) : ℤ := if int32 n < 1 then 1 else int32 n

theorem savedInterval_bounds (n : ℤ) : 1 ≤ savedInterval n ∧ savedInterval n < 2147483648 := by
  have := int32_bounds n
  rw [savedInterval]
  split <;> omega

theorem int32_savedInterval (n : ℤ) : int32 (savedInterval n) = savedInterval n := by
  have := savedInterval_bounds n
  exact int32_eq_self.2 (by omega)

/-- The weekdays of the draft of a weekly recurrence. -/
def savedWeekdays (names : List String) (today : ℤ) : List ℤ :=
  if plainDays names ≠ [] then plainDays names else [weekdayOf today]

/-- The weekday of the draft of a monthly recurrence. -/
def savedWeekday (names : List String) (today : ℤ) : ℤ :=
  match plainDays names with
  | [day] => day
  | _ => weekdayOf today

theorem weekdayOf_bounds (d : ℤ) : 0 ≤ weekdayOf d ∧ weekdayOf d ≤ 6 := by
  rw [weekdayOf]
  omega

theorem savedWeekdays_bounds {names : List String} (h : d ∈ savedWeekdays names today) :
    0 ≤ d ∧ d ≤ 6 := by
  rw [savedWeekdays] at h
  split at h
  · exact plainDays_bounds h
  rw [mem_singleton.1 h]
  exact weekdayOf_bounds today

theorem savedWeekday_bounds (names : List String) (today : ℤ) :
    0 ≤ savedWeekday names today ∧ savedWeekday names today ≤ 6 := by
  rw [savedWeekday]
  split
  · rename_i day hdays
    have hmem : day ∈ plainDays names := by rw [hdays]; exact mem_singleton_self day
    exact plainDays_bounds hmem
  · exact weekdayOf_bounds today

section
variable {locale : Cron.Locale} {w : Written} {today : ℤ}

theorem draftFromProto_of_plain (h : PlainFrequency w.frequency) (today : ℤ) :
    draftFromProto locale (recurrenceToProto (some w)) today =
      fromRecurrence locale
        { frequency := w.frequency, interval := int32 w.interval
          weekdays := (w.weekdays.filterMap (weekdayProtos.lookup ·)).filterMap fun d =>
            (weekdayForProto.lookup d).map (weekdayName locale)
          monthDay := int32 w.monthDay, setPosition := int32 w.setPosition
          hour := int32 w.hour, minute := int32 w.minute
          anchor := anchorFromProto (anchorToProto w.anchor) } today := by
  have hnames : ∀ p ∈ frequencyNames,
      frequencyForProto.lookup ((frequencyProtos.lookup p.1).getD .unspecified) = some p.1 := by
    decide
  obtain ⟨p, hp, hname⟩ := mem_map.1 h
  have hfreq := hnames p hp
  rw [hname] at hfreq
  simp [draftFromProto, recurrenceToProto, hfreq]

/-- **What is saved**, from the recurrence of the draft. -/
theorem saved_eq (days : List ℤ) (hascii : locale.Ascii) {w' : Written}
    (hdraft : (draftFromProto locale (recurrenceToProto (some w)) today).toRecurrence locale = w')
    (hplain : PlainFrequency w'.frequency) (hdays : w'.weekdays = days.map (weekdayName locale))
    (hrange : ∀ d ∈ days, 0 ≤ d ∧ d ≤ 6) :
    saved locale w today = some
      { frequency := w'.frequency, interval := int32 w'.interval
        weekdays := days.map (weekdayName locale), monthDay := int32 w'.monthDay
        setPosition := int32 w'.setPosition, hour := int32 w'.hour, minute := int32 w'.minute
        anchor := anchorFromProto (anchorToProto w'.anchor) } := by
  have hnames : ∀ p ∈ frequencyNames,
      protoFrequencies.lookup ((protoFrequencyFor.lookup p.1).getD .unspecified) = some p.1 := by
    decide
  obtain ⟨p, hp, hname⟩ := mem_map.1 hplain
  have hfreq := hnames p hp
  rw [hname] at hfreq
  simp only [saved, ScheduleDraft.toProto, hdraft, recurrenceFromProto, hfreq, hdays,
    Option.map_some, weekdays_toProto hascii hrange]

/-- **A frequency in another spelling is lost**: the draft is the default, every day at noon. -/
theorem saved_of_not_plain (hascii : locale.Ascii) (h : ¬PlainFrequency w.frequency) (today : ℤ) :
    saved locale w today = some
      { frequency := "daily", interval := 1, hour := 12, minute := 0
        anchor := anchorTextOf (sentAnchor (anchorText today)) } := by
  have hopened : draftFromProto locale (recurrenceToProto (some w)) today =
      defaultScheduleDraft today := by
    have hfreq : frequencyForProto.lookup .unspecified = none := by decide
    simp [draftFromProto, recurrenceToProto, lookup_frequency_of_not_plain h, hfreq]
  have hdraft : (draftFromProto locale (recurrenceToProto (some w)) today).toRecurrence locale =
      { frequency := "daily", interval := 1, hour := 12, minute := 0
        anchor := anchorText today } := by
    rw [hopened]
    rfl
  have hplain : PlainFrequency "daily" := by decide
  have hsaved := saved_eq [] hascii hdraft hplain rfl (by simp)
  rw [hsaved, anchorFromProto_toProto]
  rfl

theorem lower_frequency (hascii : locale.Ascii) {name : String} (h : PlainFrequency name) :
    toLower locale.lower name = name := by
  have htrim : ∀ p ∈ frequencyNames, trimSpace p.1 = p.1 := by decide
  obtain ⟨p, hp, rfl⟩ := mem_map.1 h
  have hnormal := normal_of_plainFrequency hascii h
  rwa [htrim p hp] at hnormal

/-- The anchor of the draft. -/
def openedAnchor (anchor : String) (today : ℤ) : String :=
  if anchorFromProto (anchorToProto anchor) ≠ "" then anchorFromProto (anchorToProto anchor)
  else anchorText today

/-- What is stored of a recurrence with a plain frequency. -/
def savedWritten (locale : Cron.Locale) (w : Written) (days : List ℤ)
    (monthDay setPosition today : ℤ) :
    Written :=
  { frequency := w.frequency, interval := savedInterval w.interval
    weekdays := days.map (weekdayName locale), monthDay, setPosition, hour := int32 w.hour
    minute := int32 w.minute, anchor := anchorTextOf (savedDay w.anchor today) }

theorem saved_of_draft (hascii : locale.Ascii) (hplain : PlainFrequency w.frequency) {days : List ℤ}
    (hrange : ∀ d ∈ days, 0 ≤ d ∧ d ≤ 6) (monthDay setPosition : ℤ)
    (hdraft : (draftFromProto locale (recurrenceToProto (some w)) today).toRecurrence locale =
      { savedWritten locale w days (int32 monthDay) (int32 setPosition) today with
        anchor := openedAnchor w.anchor today }) :
    saved locale w today =
      some (savedWritten locale w days (int32 monthDay) (int32 setPosition) today) := by
  rw [saved_eq days hascii hdraft hplain rfl hrange, savedWritten]
  simp only [int32_savedInterval, int32_int32, openedAnchor, anchor_saved]

theorem savedInterval_twice (n : ℤ) :
    (if (if int32 n < 1 then 1 else int32 n) < 1 then 1
      else if int32 n < 1 then 1 else int32 n) = savedInterval n := by
  rw [savedInterval]
  split <;> omega

/-- **A daily recurrence**, opened and saved. -/
theorem saved_daily (hascii : locale.Ascii) (h : w.frequency = "daily") (today : ℤ) :
    saved locale w today = some (savedWritten locale w [] 0 0 today) := by
  have hplain : PlainFrequency "daily" := by decide
  refine saved_of_draft hascii (h ▸ hplain) (by simp) 0 0 ?_
  rw [draftFromProto_of_plain (h ▸ hplain)]
  simp only [fromRecurrence, h, lower_frequency hascii hplain, ScheduleDraft.toRecurrence]
  rw [if_neg (by decide), if_neg (by decide)]
  simp only [savedInterval_twice, savedWritten, h]
  rfl

/-- **A weekly recurrence**, opened and saved. -/
theorem saved_weekly (hascii : locale.Ascii) (h : w.frequency = "weekly") (today : ℤ) :
    saved locale w today =
      some (savedWritten locale w (savedWeekdays w.weekdays today) 0 0 today) := by
  have hplain : PlainFrequency "weekly" := by decide
  refine saved_of_draft hascii (h ▸ hplain) (fun _ => savedWeekdays_bounds) 0 0 ?_
  rw [draftFromProto_of_plain (h ▸ hplain)]
  simp only [fromRecurrence, h, lower_frequency hascii hplain, ScheduleDraft.toRecurrence,
    parseWeekdays_sent hascii, if_true, savedInterval_twice, savedWritten]
  rfl

theorem savedInterval_years (n : ℤ) (h : savedInterval n % 12 = 0 ∧ 12 ≤ savedInterval n) :
    (if savedInterval n / 12 < 1 then 1 else savedInterval n / 12) * 12 = savedInterval n := by
  rw [if_neg (by omega)]
  omega

/-- **A monthly recurrence**, opened and saved: a position goes with one weekday, and without a
position there is the day of the month. -/
theorem saved_monthly (hascii : locale.Ascii) (h : w.frequency = "monthly")
    (hday : int32 w.setPosition = 0 → int32 w.monthDay ≠ 0) (today : ℤ) :
    saved locale w today = some (if int32 w.setPosition = 0 then
        savedWritten locale w [] (int32 w.monthDay) 0 today
      else
        savedWritten locale w [savedWeekday w.weekdays today] 0 (int32 w.setPosition) today) := by
  have hplain : PlainFrequency "monthly" := by decide
  have hfold : (if int32 w.interval < 1 then 1 else int32 w.interval) =
      savedInterval w.interval := rfl
  have hmonths : ¬savedInterval w.interval < 1 := by
    have := savedInterval_bounds w.interval
    omega
  by_cases hpos : int32 w.setPosition = 0
  · rw [if_pos hpos]
    refine saved_of_draft hascii (h ▸ hplain) (by simp) w.monthDay 0 ?_
    rw [draftFromProto_of_plain (h ▸ hplain)]
    simp only [fromRecurrence, h, lower_frequency hascii hplain, if_true, hfold, hpos,
      if_pos (hday hpos), savedWritten]
    rw [if_neg (by decide), if_neg (by decide)]
    by_cases hyears : savedInterval w.interval % 12 = 0 ∧ 12 ≤ savedInterval w.interval
    · simp only [if_pos hyears, ScheduleDraft.toRecurrence, savedInterval_years _ hyears]
      rfl
    · simp only [if_neg hyears, ScheduleDraft.toRecurrence, if_neg hmonths]
      rfl
  · rw [if_neg hpos]
    refine saved_of_draft hascii (h ▸ hplain) (by simpa using savedWeekday_bounds _ _) 0
      w.setPosition ?_
    rw [draftFromProto_of_plain (h ▸ hplain)]
    simp only [fromRecurrence, h, lower_frequency hascii hplain, parseWeekdays_sent hascii,
      if_true, hfold, ne_eq, if_pos hpos, savedWritten]
    rw [if_neg (by decide)]
    by_cases hyears : savedInterval w.interval % 12 = 0 ∧ 12 ≤ savedInterval w.interval
    · simp only [if_pos hyears, ScheduleDraft.toRecurrence, savedInterval_years _ hyears]
      rfl
    · simp only [if_neg hyears, ScheduleDraft.toRecurrence, if_neg hmonths]
      rfl

end

end AnimeFeedFlux
