import AnimeFeedFlux.Schedule.Search
import Mathlib.Data.List.Forall2

/-!
# Recurrences

A recurrence is a schedule counted from a reference date: every so many days, weeks or months.
`NewRecurrence` checks it and builds a cron schedule for its time of day; `Next` walks the
firings of that schedule and keeps the first whose date qualifies.

A `time.Time` in the zone of the recurrence enters `dateFires` by its reading of the wall
clock, so the calendar functions are on readings.  A function of the source that builds a new
`time.Time` gives the reading at the instant `time.Date` picks.
-/

namespace AnimeFeedFlux.Cron

open GoStrings List

/-! ## `NewRecurrence` -/

inductive Frequency
  | daily
  | weekly
  | monthly
  | unknown (n : ℤ)
  deriving DecidableEq, Repr

def lastDayOfMonth : ℤ := -1

def setPosLast : ℤ := -1

/-- `time.Unix(0, 0)`. -/
def unixEpoch : ℤ := Zone.unix 1970 1 1 0 0 0 * Time.second

/-- A `Recurrence` as it is passed to `NewRecurrence`. -/
structure Rule where
  freq : Frequency
  interval : ℤ
  weekdays : List ℤ := []
  monthDay : ℤ := 0
  setPos : ℤ := 0
  hour : ℤ
  minute : ℤ
  anchor : ℤ := 0
  loc : Option Zone

/-- `Weekday.String`. -/
def weekdayString (d : ℤ) : String :=
  ["Sunday", "Monday", "Tuesday", "Wednesday", "Thursday", "Friday", "Saturday"].getD d.toNat ""

/-- The loop of `validWeekdays`; `seen` is its map. -/
def validWeekdaysFrom (seen : List ℤ) : List ℤ → Option String
  | [] => none
  | d :: days =>
    if d < 0 ∨ 6 < d then some ("schedule: invalid weekday " ++ toString d)
    else if d ∈ seen then some ("schedule: weekday " ++ weekdayString d ++ " listed twice")
    else validWeekdaysFrom (d :: seen) days

/-- `validWeekdays`: what is wrong with the days, if anything. -/
def validWeekdays (days : List ℤ) : Option String := validWeekdaysFrom [] days

theorem validWeekdaysFrom_eq_none {seen days : List ℤ} :
    validWeekdaysFrom seen days = none ↔
      (∀ d ∈ days, 0 ≤ d ∧ d ≤ 6 ∧ d ∉ seen) ∧ days.Nodup := by
  induction days generalizing seen with
  | nil => simp [validWeekdaysFrom]
  | cons d days ih =>
    rw [validWeekdaysFrom, nodup_cons, forall_mem_cons]
    split
    · rename_i hrange
      simp only [reduceCtorEq, false_iff]
      rintro ⟨⟨hd, -⟩, -⟩
      omega
    split
    · rename_i hseen
      simp only [reduceCtorEq, false_iff]
      exact fun h => h.1.1.2.2 hseen
    rename_i hrange hseen
    rw [ih]
    constructor
    · rintro ⟨hall, hnodup⟩
      refine ⟨⟨⟨by omega, by omega, hseen⟩, fun e he => ?_⟩, fun hd => ?_, hnodup⟩
      · obtain ⟨hlo, hhi, hnew⟩ := hall e he
        exact ⟨hlo, hhi, fun h => hnew (mem_cons_of_mem _ h)⟩
      · exact (hall d hd).2.2 mem_cons_self
    · rintro ⟨⟨-, hall⟩, hd, hnodup⟩
      refine ⟨fun e he => ⟨(hall e he).1, (hall e he).2.1, ?_⟩, hnodup⟩
      rw [mem_cons, not_or]
      exact ⟨fun h => hd (h ▸ he), (hall e he).2.2⟩

/-- **Valid weekdays are days of the week, each listed once.** -/
theorem validWeekdays_eq_none {days : List ℤ} :
    validWeekdays days = none ↔ (∀ d ∈ days, 0 ≤ d ∧ d ≤ 6) ∧ days.Nodup := by
  rw [validWeekdays, validWeekdaysFrom_eq_none]
  simp

namespace Rule

/-- The checks of `NewRecurrence` on the fields of one frequency. -/
def checkFreq (r : Rule) : Option String :=
  match r.freq with
  | .daily => none
  | .weekly =>
    if r.weekdays = [] then some "schedule: a weekly schedule needs at least one weekday"
    else validWeekdays r.weekdays
  | .monthly =>
    if r.setPos ≠ 0 then
      if r.setPos < setPosLast ∨ r.setPos = 0 ∨ 4 < r.setPos then
        some ("schedule: set position must be 1-4 or " ++ toString setPosLast ++
          " (last), got " ++ toString r.setPos)
      else if r.weekdays.length ≠ 1 then
        some "schedule: \"the Nth <weekday>\" needs exactly one weekday"
      else validWeekdays r.weekdays
    else if r.monthDay ≠ lastDayOfMonth ∧ (r.monthDay < 1 ∨ 31 < r.monthDay) then
      some ("schedule: day of month must be 1-31 or " ++ toString lastDayOfMonth ++
        " (last), got " ++ toString r.monthDay)
    else none
  | .unknown n => some ("schedule: unknown frequency " ++ toString n)

/-- The checks of `NewRecurrence` after the one for the zone. -/
def check (r : Rule) : Option String :=
  if r.interval < 1 then
    some ("schedule: interval must be at least 1, got " ++ toString r.interval)
  else if r.hour < 0 ∨ 23 < r.hour then
    some ("schedule: hour must be 0-23, got " ++ toString r.hour)
  else if r.minute < 0 ∨ 59 < r.minute then
    some ("schedule: minute must be 0-59, got " ++ toString r.minute)
  else r.checkFreq

/-- The cron expression of the time of day. -/
def timeOfDayExpr (r : Rule) : String := toString r.minute ++ " " ++ toString r.hour ++ " * * *"

end Rule

/-- A `Recurrence` that `NewRecurrence` returned. -/
structure Recurrence extends Rule where
  zone : Zone
  timeOfDay : Schedule
  loc_eq : loc = some zone
  checked : toRule.check = none
  parsed : parse toRule.timeOfDayExpr (some zone) = .ok timeOfDay
  anchored : anchor ≠ 0

theorem unixEpoch_ne_zero : unixEpoch ≠ 0 := by decide +kernel

def newRecurrence (r : Rule) : Except ParseError Recurrence :=
  match hloc : r.loc with
  | none => .error (.invalid "schedule: timezone is required")
  | some zone =>
    match hcheck : r.check with
    | some text => .error (.invalid text)
    | none =>
      match hparse : parse r.timeOfDayExpr (some zone) with
      | .error (.invalid text) =>
        .error (.invalid ("schedule: building time-of-day: " ++ text))
      | .error .panic => .error .panic
      | .ok timeOfDay =>
        .ok
          { r with
            anchor := if r.anchor = 0 then unixEpoch else r.anchor
            zone, timeOfDay, loc_eq := hloc, checked := hcheck, parsed := hparse
            anchored := by split <;> first | assumption | exact unixEpoch_ne_zero }

/-- **Every value of the type is one that `NewRecurrence` accepts.** -/
theorem newRecurrence_toRule (s : Recurrence) : newRecurrence s.toRule = .ok s := by
  obtain ⟨r, zone, timeOfDay, hloc, hcheck, hparse, hanchor⟩ := s
  simp only [newRecurrence]
  split
  · rename_i h
    rw [hloc] at h
    cases h
  rename_i zone' h
  obtain rfl := Option.some.inj (hloc.symm.trans h)
  split
  · rename_i h'
    rw [hcheck] at h'
    cases h'
  split
  all_goals
    rename_i h'
    rw [hparse] at h'
    cases h'
  simp only [if_neg hanchor]

variable {r : Rule} {tz : String}

/-- **What is accepted is what was passed**, with the epoch for a missing anchor. -/
theorem toRule_of_newRecurrence {s : Recurrence} (h : newRecurrence r = .ok s) :
    s.toRule = { r with anchor := if r.anchor = 0 then unixEpoch else r.anchor } := by
  simp only [newRecurrence] at h
  split at h
  · cases h
  split at h
  · cases h
  · split at h
    all_goals cases h
    rfl

/-! ### What the check leaves -/

/-- The bounds of a rule that passes the check. -/
structure Rule.Bounded (r : Rule) : Prop where
  interval : 1 ≤ r.interval
  hour : 0 ≤ r.hour ∧ r.hour ≤ 23
  minute : 0 ≤ r.minute ∧ r.minute ≤ 59
  freq : r.checkFreq = none

theorem Rule.check_eq_none : r.check = none ↔ r.Bounded := by
  simp only [Rule.check]
  constructor
  · intro h
    split_ifs at h with hi hh hm
    exact ⟨by omega, by omega, by omega, h⟩
  intro h
  have hh := h.hour
  have hm := h.minute
  rw [if_neg (by have := h.interval; omega), if_neg (by omega), if_neg (by omega)]
  exact h.freq

theorem Recurrence.bounded (r : Recurrence) : r.Bounded := Rule.check_eq_none.1 r.checked

theorem Rule.checkFreq_eq_none :
    r.checkFreq = none ↔ match r.freq with
      | .daily => True
      | .weekly => r.weekdays ≠ [] ∧ validWeekdays r.weekdays = none
      | .monthly =>
        (r.setPos ≠ 0 → (-1 ≤ r.setPos ∧ r.setPos ≤ 4) ∧ r.weekdays.length = 1 ∧
          validWeekdays r.weekdays = none) ∧
        (r.setPos = 0 → r.monthDay = -1 ∨ 1 ≤ r.monthDay ∧ r.monthDay ≤ 31)
      | .unknown _ => False := by
  rw [Rule.checkFreq]
  cases r.freq with
  | daily => simp
  | weekly => by_cases h : r.weekdays = [] <;> simp [h]
  | monthly =>
    dsimp only
    by_cases hpos : r.setPos = 0
    · rw [if_neg (not_not.2 hpos), lastDayOfMonth]
      split
      · rename_i h
        simp only [reduceCtorEq, false_iff]
        intro h'
        have := h'.2 hpos
        omega
      · simp only [true_iff]
        exact ⟨fun h' => absurd hpos h', fun _ => by omega⟩
    · rw [if_pos hpos, setPosLast]
      split
      · rename_i h
        simp only [reduceCtorEq, false_iff]
        intro h'
        have := (h'.1 hpos).1
        omega
      split
      · rename_i h
        simp only [reduceCtorEq, false_iff]
        exact fun h' => h (h'.1 hpos).2.1
      rename_i h hlen
      constructor
      · exact fun h' => ⟨fun _ => ⟨by omega, not_not.1 hlen, h'⟩, fun h0 => absurd h0 hpos⟩
      · exact fun h' => (h'.1 hpos).2.2
  | unknown n => simp

/-- The schedule of a time of day. -/
def daily (loc : Zone) (minute hour : ℕ) : Schedule :=
  weekly loc (toString (minute : ℤ) ++ " " ++ toString (hour : ℤ) ++ " * * *") (only minute)
    (only hour) (star 0 6)

theorem fields_daily {m h : String} (hm : m.toList ≠ [] ∧ ∀ c ∈ m.toList, isSpace c = false)
    (hh : h.toList ≠ [] ∧ ∀ c ∈ h.toList, isSpace c = false) :
    fields (m ++ " " ++ h ++ " * * *") = [m, h, "*", "*", "*"] := by
  have hlist : (m ++ " " ++ h ++ " * * *").toList =
      m.toList ++ ' ' :: (h.toList ++ ' ' :: ['*', ' ', '*', ' ', '*']) := by
    simp
  have hstars : List.splitOnP isSpace ['*', ' ', '*', ' ', '*'] = [['*'], ['*'], ['*']] := by decide
  rw [fields, GoStrings.fields, hlist, splitOnP_append_cons_of_forall_mem hm.2 _ (by decide),
    splitOnP_append_cons_of_forall_mem hh.2 _ (by decide), hstars]
  simp [hm.1, hh.1]

theorem parse_daily (loc : Zone) {minute hour : ℕ} (hminute : minute < 60) (hhour : hour < 24) :
    parse (toString (minute : ℤ) ++ " " ++ toString (hour : ℤ) ++ " * * *") (some loc) =
      .ok (daily loc minute hour) := by
  -- There are finitely many minutes and hours: each number is read back.
  have hdigits : ∀ n : ℕ, n < 60 → (toString (n : ℤ)).toList ≠ [] ∧
      (toString (n : ℤ)).toList.all (!isSpace ·) = true := by
    decide +kernel
  have htext : ∀ n : ℕ, n < 60 → (toString (n : ℤ)).toList ≠ [] ∧
      ∀ c ∈ (toString (n : ℤ)).toList, isSpace c = false := by
    intro n hn
    obtain ⟨hne, hall⟩ := hdigits n hn
    exact ⟨hne, by simpa using hall⟩
  have hm : ∀ m : ℕ, m < 60 → parseField "minute" (toString (m : ℤ)) 0 59 = .ok (only m) := by
    decide +kernel
  have hh : ∀ h : ℕ, h < 24 → parseField "hour" (toString (h : ℤ)) 0 23 = .ok (only h) := by
    decide +kernel
  have hdom : parseField "day-of-month" "*" 1 31 = .ok (star 1 31) := by decide +kernel
  have hmonth : parseField "month" "*" 1 12 = .ok (star 1 12) := by decide +kernel
  have hdow : parseField "day-of-week" "*" 0 6 = .ok (star 0 6) := by decide +kernel
  have hfields := fields_daily (htext minute hminute) (htext hour (by omega))
  simp only [parse, hfields, hm minute hminute, hh hour hhour, hdom, hmonth, hdow]
  rfl

/-- **The time of day is the schedule of the hour and the minute.** -/
theorem Recurrence.timeOfDay_eq (r : Recurrence) :
    r.timeOfDay = daily r.zone r.minute.toNat r.hour.toNat := by
  obtain ⟨hm, hm'⟩ := r.bounded.minute
  obtain ⟨hh, hh'⟩ := r.bounded.hour
  have hparse := parse_daily r.zone (show r.minute.toNat < 60 by omega)
    (show r.hour.toNat < 24 by omega)
  rw [Int.toNat_of_nonneg hm, Int.toNat_of_nonneg hh] at hparse
  exact Except.ok.inj (r.parsed.symm.trans hparse)

/-! ## The written form -/

/-- `feedspec.Recurrence`, the form a recipe stores. -/
structure Written where
  frequency : String
  interval : ℤ
  weekdays : List String := []
  monthDay : ℤ := 0
  setPosition : ℤ := 0
  hour : ℤ
  minute : ℤ
  anchor : String := ""

/-- What `Resolve` takes from outside: the zones by name, the text of a date that does not
parse, and the lower case of a letter. -/
structure Locale where
  loadLocation : String → Except String Zone
  dateError : String → String
  lower : Char → Char

/-- `unicode.ToLower` on the characters of ASCII. -/
def Locale.Ascii (locale : Locale) : Prop :=
  ∀ c : Char, c.toNat < 0x80 → locale.lower c = c.toLower

def frequencyNames : List (String × Frequency) :=
  [("daily", .daily), ("weekly", .weekly), ("monthly", .monthly)]

def weekdayNames : List (String × ℤ) :=
  [("sunday", 0), ("monday", 1), ("tuesday", 2), ("wednesday", 3), ("thursday", 4),
    ("friday", 5), ("saturday", 6)]

/-- The number that `n` digits write. -/
def digits (n : ℕ) (s : List Char) : Option ℤ :=
  if s.length = n ∧ s.all Char.isDigit then
    some (s.foldl (fun v c => 10 * v + (c.toNat - 48 : ℕ)) 0)
  else none

/-- The days of a month. -/
def monthLength (year : ℤ) (month : ℕ) : ℤ :=
  Calendar.daysBeforeMonth (Calendar.isLeap year) (month + 1) -
    Calendar.daysBeforeMonth (Calendar.isLeap year) month

/-- `time.ParseInLocation` for `AnchorLayout`: the day number of the date. -/
def parseAnchor (s : String) : Option ℤ := do
  let [y, m, d] := s.toList.splitOn '-' | none
  let year ← digits 4 y
  let month ← digits 2 m
  let day ← digits 2 d
  if 1 ≤ month ∧ month ≤ 12 ∧ 1 ≤ day ∧ day ≤ monthLength year month.toNat then
    some (Zone.days year month day)
  else none

/-- The loop of `Resolve` over the names of weekdays. -/
def resolveWeekdays (lower : Char → Char) : List String → Except String (List ℤ)
  | [] => .ok []
  | name :: names =>
    match weekdayNames.lookup (toLower lower (trimSpace name)) with
    | none => .error ("feedspec: unknown weekday " ++ quote name.toList)
    | some d => (resolveWeekdays lower names).map (d :: ·)

/-- **The names are read one by one.** -/
theorem resolveWeekdays_ok_iff {lower : Char → Char} {names : List String} {days : List ℤ} :
    resolveWeekdays lower names = .ok days ↔
      List.Forall₂ (fun name d => weekdayNames.lookup (toLower lower (trimSpace name)) = some d)
        names days := by
  induction names generalizing days with
  | nil =>
    rw [resolveWeekdays, forall₂_nil_left_iff, Except.ok.injEq]
    exact eq_comm
  | cons name names ih =>
    rw [resolveWeekdays]
    constructor
    · intro h
      split at h
      · cases h
      rename_i d hd
      cases hrest : resolveWeekdays lower names with
      | error e =>
        rw [hrest] at h
        cases h
      | ok rest =>
        rw [hrest] at h
        cases h
        exact .cons hd (ih.1 hrest)
    · intro h
      cases h with
      | cons hd hrest => simp only [hd, ih.2 hrest, Except.map]

/-- The anchor of `Resolve`: midnight of the written date, or the zero Time. -/
def resolveAnchor (locale : Locale) (loc : Zone) (anchor : String) : Except String ℤ :=
  if trimSpace anchor = "" then .ok 0
  else match parseAnchor (trimSpace anchor) with
    | none => .error ("feedspec: anchor " ++ quote anchor.toList ++
        " must be a date like 2026-08-06: " ++ locale.dateError (trimSpace anchor))
    | some day => .ok (Zone.date loc (86400 * day) * Time.second)

/-- `Recurrence.Resolve` of package `feedspec`. -/
def resolve (locale : Locale) (r : Written) (tz : String) : Except ParseError Recurrence :=
  match locale.loadLocation tz with
  | .error e => .error (.invalid ("feedspec: timezone " ++ quote tz.toList ++ ": " ++ e))
  | .ok loc =>
    match frequencyNames.lookup (toLower locale.lower (trimSpace r.frequency)) with
    | none => .error (.invalid ("feedspec: unknown frequency " ++ quote r.frequency.toList ++
        " (want daily, weekly or monthly)"))
    | some freq =>
      match resolveWeekdays locale.lower r.weekdays, resolveAnchor locale loc r.anchor with
      | .error e, _ => .error (.invalid e)
      | _, .error e => .error (.invalid e)
      | .ok weekdays, .ok anchor =>
        newRecurrence
          { freq, interval := r.interval, weekdays, monthDay := r.monthDay
            setPos := r.setPosition, hour := r.hour, minute := r.minute, anchor
            loc := some loc }

/-- What `Resolve` passes to `NewRecurrence`. -/
def Written.rule (w : Written) (freq : Frequency) (weekdays : List ℤ) (anchor : ℤ) (loc : Zone) :
    Rule :=
  { freq, interval := w.interval, weekdays, monthDay := w.monthDay
    setPos := w.setPosition, hour := w.hour, minute := w.minute, anchor
    loc := some loc }

variable {locale : Locale} {w : Written}

/-- **`Resolve` reads the fields one by one**, and passes them to `NewRecurrence`. -/
theorem resolve_ok_iff {r : Recurrence} :
    resolve locale w tz = .ok r ↔ ∃ loc freq weekdays anchor,
      locale.loadLocation tz = .ok loc ∧
      frequencyNames.lookup (toLower locale.lower (trimSpace w.frequency)) = some freq ∧
      resolveWeekdays locale.lower w.weekdays = .ok weekdays ∧
      resolveAnchor locale loc w.anchor = .ok anchor ∧
      newRecurrence (w.rule freq weekdays anchor loc) = .ok r := by
  constructor
  · intro h
    simp only [resolve] at h
    split at h
    · cases h
    rename_i loc hloc
    split at h
    · cases h
    rename_i freq hfreq
    split at h
    · cases h
    · cases h
    · rename_i weekdays anchor hdays hanchor
      exact ⟨loc, freq, weekdays, anchor, hloc, hfreq, hdays, hanchor, h⟩
  · rintro ⟨loc, freq, weekdays, anchor, hloc, hfreq, hdays, hanchor, h⟩
    simp only [resolve, hloc, hfreq, hdays, hanchor]
    exact h

/-- What `Resolve` has read. -/
structure Reads (locale : Locale) (w : Written) (tz : String) (r : Recurrence) : Prop where
  zone : locale.loadLocation tz = .ok r.zone
  freq : frequencyNames.lookup (toLower locale.lower (trimSpace w.frequency)) = some r.freq
  weekdays : resolveWeekdays locale.lower w.weekdays = .ok r.weekdays
  anchor : ∃ t, resolveAnchor locale r.zone w.anchor = .ok t ∧
    r.anchor = if t = 0 then unixEpoch else t
  interval : r.interval = w.interval
  monthDay : r.monthDay = w.monthDay
  setPos : r.setPos = w.setPosition
  hour : r.hour = w.hour
  minute : r.minute = w.minute

theorem reads_of_resolve {r : Recurrence} (h : resolve locale w tz = .ok r) :
    Reads locale w tz r := by
  obtain ⟨loc, freq, weekdays, anchor, hloc, hfreq, hdays, hanchor, hnew⟩ := resolve_ok_iff.1 h
  have hrule := toRule_of_newRecurrence hnew
  have hzone : loc = r.zone := Option.some.inj ((congrArg Rule.loc hrule).symm.trans r.loc_eq)
  subst hzone
  exact
    { zone := hloc
      freq := hfreq.trans (congrArg (some ·.freq) hrule).symm
      weekdays := hdays.trans (congrArg (Except.ok ·.weekdays) hrule).symm
      anchor := ⟨anchor, hanchor, congrArg Rule.anchor hrule⟩
      interval := congrArg Rule.interval hrule
      monthDay := congrArg Rule.monthDay hrule
      setPos := congrArg Rule.setPos hrule
      hour := congrArg Rule.hour hrule
      minute := congrArg Rule.minute hrule }

/-- **The check is all there is to it**: the time of day of a rule that passes is one that cron
reads. -/
theorem exists_newRecurrence_iff {zone : Zone} (hloc : r.loc = some zone) :
    (∃ s, newRecurrence r = .ok s) ↔ r.check = none := by
  constructor
  · rintro ⟨s, hs⟩
    simp only [newRecurrence] at hs
    split at hs
    · cases hs
    split at hs
    · cases hs
    · assumption
  · intro hcheck
    obtain ⟨hm, hm'⟩ := (Rule.check_eq_none.1 hcheck).minute
    obtain ⟨hh, hh'⟩ := (Rule.check_eq_none.1 hcheck).hour
    have hparse := parse_daily zone (show r.minute.toNat < 60 by omega)
      (show r.hour.toNat < 24 by omega)
    rw [Int.toNat_of_nonneg hm, Int.toNat_of_nonneg hh] at hparse
    refine ⟨{ r with
      anchor := if r.anchor = 0 then unixEpoch else r.anchor
      zone, timeOfDay := daily zone r.minute.toNat r.hour.toNat, loc_eq := hloc, checked := hcheck
      parsed := hparse
      anchored := ?_ }, ?_⟩
    · split
      · exact unixEpoch_ne_zero
      · assumption
    simp only [newRecurrence]
    split
    · rename_i h
      rw [hloc] at h
      cases h
    rename_i zone' h
    obtain rfl := Option.some.inj (hloc.symm.trans h)
    split
    · rename_i h'
      rw [hcheck] at h'
      cases h'
    split
    all_goals
      rename_i h'
      rw [Rule.timeOfDayExpr, hparse] at h'
      cases h'
    rfl

/-- **When `Resolve` accepts** what it has read. -/
theorem exists_resolve_iff_bounded {loc : Zone} {freq : Frequency} {weekdays : List ℤ} {anchor : ℤ}
    (hloc : locale.loadLocation tz = .ok loc)
    (hfreq : frequencyNames.lookup (toLower locale.lower (trimSpace w.frequency)) = some freq)
    (hdays : resolveWeekdays locale.lower w.weekdays = .ok weekdays)
    (hanchor : resolveAnchor locale loc w.anchor = .ok anchor) :
    (∃ r, resolve locale w tz = .ok r) ↔ (w.rule freq weekdays anchor loc).Bounded := by
  have hresolve : resolve locale w tz = newRecurrence (w.rule freq weekdays anchor loc) := by
    simp only [resolve, hloc, hfreq, hdays, hanchor]
    rfl
  rw [hresolve, exists_newRecurrence_iff rfl, Rule.check_eq_none]

/-! ## Calendar functions, on readings -/

/-- `Time.Sub`, which saturates. -/
def sub (t u : ℤ) : ℤ := max (-2 ^ 63) (min (2 ^ 63 - 1) (t - u))

def dateOnly (z : Zone) (w : ℤ) : ℤ :=
  Zone.wall z (Zone.Date z (Zone.year w) (Zone.month w) (Zone.day w) 0 0 0)

/-- `AddDate(0, 0, n)`. -/
def addDays (z : Zone) (w n : ℤ) : ℤ :=
  Zone.wall z (Zone.Date z (Zone.year w) (Zone.month w) (Zone.day w + n)
    (Zone.hour w) (Zone.minute w) (Zone.sec w))

/-- Midnight of the date of a reading, in UTC. -/
def utcMidnight (w : ℤ) : ℤ :=
  Zone.Date utc (Zone.year w) (Zone.month w) (Zone.day w) 0 0 0 * Time.second

def daysBetween (a b : ℤ) : ℤ := (sub (utcMidnight b) (utcMidnight a)).tdiv (24 * Time.hour)

def weekStart (z : Zone) (w : ℤ) : ℤ := addDays z w (-Zone.weekday w)

def monthsBetween (a b : ℤ) : ℤ :=
  (Zone.year b - Zone.year a) * 12 + Zone.month b - Zone.month a

def positiveModulo (a b : ℤ) : ℤ :=
  if b ≤ 0 then 0 else if a.tmod b < 0 then a.tmod b + b else a.tmod b

def daysInMonth (year month : ℤ) : ℕ := Zone.day (Zone.Date utc year (month + 1) 0 0 0 0)

def isNthWeekdayOfMonth (z : Zone) (w wd n : ℤ) : Bool :=
  if Zone.weekday w ≠ wd then false
  else if n = setPosLast then Zone.month (addDays z w 7) ≠ Zone.month w
  else ((Zone.day w : ℤ) - 1) / 7 + 1 = n

namespace Recurrence

/-- The reading of the anchor. -/
def anchorReading (r : Recurrence) : ℤ := Zone.wall r.zone (Time.seconds r.anchor)

/-- `Recurrence.dateFires`.  No recurrence that was checked gets to the index of an empty
list. -/
def dateFires (r : Recurrence) (w : ℤ) : Bool :=
  match r.freq with
  | .daily =>
    positiveModulo (daysBetween (dateOnly r.zone r.anchorReading) (dateOnly r.zone w))
      r.interval = 0
  | .weekly =>
    r.weekdays.contains (Zone.weekday w : ℤ) &&
      positiveModulo ((daysBetween (weekStart r.zone (dateOnly r.zone r.anchorReading))
        (weekStart r.zone (dateOnly r.zone w))).tdiv 7) r.interval = 0
  | .monthly =>
    positiveModulo (monthsBetween r.anchorReading w) r.interval = 0 &&
      if r.setPos ≠ 0 then r.weekdays.head?.any (isNthWeekdayOfMonth r.zone w · r.setPos)
      else if r.monthDay = lastDayOfMonth then
        Zone.day w = daysInMonth (Zone.year w) (Zone.month w)
      else (Zone.day w : ℤ) = r.monthDay
  | .unknown _ => false

/-! ## `Next` -/

/-- The body of the loop of `Recurrence.Next`: the next firing of the time of day, or what it
returns. -/
def body (r : Recurrence) (deadline t : ℤ) : ℤ ⊕ ℤ :=
  if t = 0 ∨ deadline < t then .inr 0
  else if r.dateFires (Zone.wall r.zone (Time.seconds t)) then .inr t
  else .inl (r.timeOfDay.nextTime r.zone t)

/-- `Recurrence.Next`, if its loop ends within `n` iterations. -/
def next (r : Recurrence) (home : Zone) (after : ℤ) (n : ℕ) : Option ℤ :=
  Loop.run (r.body (Schedule.deadline home after)) n (r.timeOfDay.nextTime home after)

/-- `Recurrence.Next` returns `x`. -/
def Returns (r : Recurrence) (home : Zone) (after x : ℤ) : Prop :=
  Loop.Returns (r.body (Schedule.deadline home after)) (r.timeOfDay.nextTime home after) x

end Recurrence

end AnimeFeedFlux.Cron
