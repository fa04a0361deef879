import AnimeFeedFlux.Lib.GoStrings
import AnimeFeedFlux.Lib.Loop
import AnimeFeedFlux.Lib.Zone
import AnimeFeedFlux.Time

/-!
# Cron expressions

A schedule is five sets of values and a time zone.  `Parse` reads the sets from an expression;
`Next` searches for the next minute whose fields lie in them.  The search stands at an instant
and moves: to the first of the next month or to the next midnight, both built from a reading
of the wall clock, or by an hour or a minute of real time.

Instants are nanoseconds from the zero `time.Time`, as everywhere; the search stands at whole
seconds.  `home` is the zone that `after` carries, which only its `AddDate` looks at.  The
zero Time is `0`.
-/

namespace AnimeFeedFlux.Cron

open GoStrings

/-! ## `Parse` -/

/-- `fieldSpec`: the values of the field, and whether its text was a bare `*`. -/
structure FieldSpec where
  set : List ℕ := []
  wildcard : Bool := false
  deriving DecidableEq, Repr

/-- Why an expression is not accepted.  A step near the largest integer makes the counter
wrap and the index panic. -/
inductive ParseError
  | invalid (text : String)
  | panic
  deriving DecidableEq, Repr

/-- The verb `%q`, for which all runes outside ASCII count as printable. -/
def quote (s : List Char) : String :=
  let escaped := s.flatMap fun c =>
    match ['\"', '\\', '\x07', '\x08', '\x0c', '\n', '\r', '\t', '\x0b'].idxOf? c with
    | some i => ['\\', ['\"', '\\', 'a', 'b', 'f', 'n', 'r', 't', 'v'].getD i c]
    | none =>
      if c < ' ' ∨ c = '\x7f' then
        ['\\', 'x', Nat.digitChar (c.toNat / 16), Nat.digitChar (c.toNat % 16)]
      else [c]
  "\"" ++ String.ofList escaped ++ "\""

def atoi (s : List Char) : Option ℤ :=
  let ds : List Char := match s with
    | '-' :: ds => ds
    | '+' :: ds => ds
    | ds => ds
  let n : ℤ := ds.foldl (fun n c => 10 * n + (c.toNat - 48 : ℕ)) 0
  let v := if s.head? = some '-' then -n else n
  if ds ≠ [] ∧ ds.all Char.isDigit ∧ -2 ^ 63 ≤ v ∧ v < 2 ^ 63 then some v else none

def splitStep (item : List Char) : Except String (List Char × ℤ) :=
  if '/' ∈ item then
    let stepStr := (item.dropWhile (· ≠ '/')).drop 1
    match atoi stepStr with
    | none => .error ("invalid step " ++ quote stepStr)
    | some step =>
      if step ≤ 0 then .error ("step must be positive, got " ++ toString step)
      else .ok (item.takeWhile (· ≠ '/'), step)
  else .ok (item, 1)

/-- The range of an item without its step. -/
def parseRange (base : List Char) (min max : ℤ) : Except String (ℤ × ℤ) :=
  if base = ['*'] then .ok (min, max)
  else if '-' ∈ base then
    let low := base.takeWhile (· ≠ '-')
    let high := (base.dropWhile (· ≠ '-')).drop 1
    match atoi low, atoi high with
    | none, _ => .error ("invalid range start " ++ quote low)
    | _, none => .error ("invalid range end " ++ quote high)
    | some lo, some hi =>
      if hi < lo then
        .error ("range start " ++ toString lo ++ " exceeds end " ++ toString hi)
      else .ok (lo, hi)
  else match atoi base with
    | none => .error ("invalid value " ++ quote base)
    | some n => .ok (n, n)

/-- The loop that marks the values of an item, from `v` to `hi`.  It marks at most the
length of the array. -/
def mark (hi step : ℤ) : ℕ → ℤ → Except ParseError (List ℕ)
  | 0, _ => .ok []
  | n + 1, v =>
    if hi < v then .ok []
    else if v < 0 then .error .panic
    else (mark hi step n ((v + step).bmod (2 ^ 64))).map (v.toNat :: ·)

/-- One item of a field. -/
def parseItem (name expr : String) (min max : ℤ) (item : List Char) : Except ParseError (List ℕ) :=
  let wrong (text : String) : ParseError :=
    .invalid ("schedule: " ++ name ++ " field " ++ quote expr.toList ++ ": " ++ text)
  if item = [] then .error (wrong "empty item")
  else match splitStep item with
    | .error e => .error (wrong e)
    | .ok (base, step) =>
      match parseRange base min max with
      | .error e => .error (wrong e)
      | .ok (lo, hi) =>
        if lo < min ∨ max < hi then
          .error (wrong ("value out of range [" ++ toString min ++ "," ++ toString max ++ "]"))
        else mark hi step 64 lo

def parseField (name expr : String) (min max : ℤ) : Except ParseError FieldSpec :=
  match (expr.toList.splitOn ',').mapM (parseItem name expr min max) with
  | .error e => .error e
  | .ok sets => .ok { set := sets.flatten, wildcard := expr = "*" }

structure Schedule where
  minute : FieldSpec
  hour : FieldSpec
  dom : FieldSpec
  month : FieldSpec
  dow : FieldSpec
  loc : Zone
  expr : String

def fields (s : String) : List String := (GoStrings.fields s).map String.ofList

def parse (expr : String) (tz : Option Zone) : Except ParseError Schedule :=
  match tz, fields expr with
  | none, _ => .error (.invalid "schedule: timezone is required")
  | some loc, [f₀, f₁, f₂, f₃, f₄] => do
    let minute ← parseField "minute" f₀ 0 59
    let hour ← parseField "hour" f₁ 0 23
    let dom ← parseField "day-of-month" f₂ 1 31
    let month ← parseField "month" f₃ 1 12
    let dow ← parseField "day-of-week" f₄ 0 6
    return { minute, hour, dom, month, dow, loc, expr }
  | some _, fs =>
    .error (.invalid ("schedule: expected 5 fields (minute hour day-of-month month " ++
      "day-of-week), got " ++ toString fs.length ++ " in " ++ quote expr.toList))

/-! ## Readings of the wall clock -/

namespace Schedule

variable (s : Schedule) (t : ℤ)

/-- `Schedule.dayMatches`, on a reading. -/
def dayMatches (w : ℤ) : Bool :=
  let domMatch := s.dom.set.contains (Zone.day w)
  let dowMatch := s.dow.set.contains (Zone.weekday w)
  if s.dom.wildcard && s.dow.wildcard then true
  else if s.dom.wildcard then dowMatch
  else if s.dow.wildcard then domMatch
  else domMatch || dowMatch

/-- Whether the schedule matches the minute of a reading. -/
def scheduled (w : ℤ) : Bool :=
  s.minute.set.contains (Zone.minute w) && s.hour.set.contains (Zone.hour w) &&
    s.month.set.contains (Zone.month w) && s.dayMatches w

/-- `time.Date` of the fields of `t`'s reading down to the minute: the instant the search
takes for canonical. -/
def canonical : ℤ :=
  let w := Zone.wall s.loc t
  Zone.Date s.loc (Zone.year w) (Zone.month w) (Zone.day w) (Zone.hour w) (Zone.minute w) 0

/-- The closure `nominal`: the reading at `t`, down to the minute, as an instant of UTC. -/
def nominal : ℤ :=
  let w := Zone.wall s.loc t
  Zone.Date (fun _ => 0) (Zone.year w) (Zone.month w) (Zone.day w) (Zone.hour w) (Zone.minute w) 0

def gapSkippedAScheduledHour (start stop : ℤ) : Bool :=
  let nf := s.nominal start
  let nt := s.nominal stop
  if nt - nf = stop - start then false
  else (List.range ((nt - nf - 1) / 60).toNat).any fun k => s.scheduled (nf + 60 * (k + 1))

/-! ## `Next` -/

/-- The first candidate of `Next`. -/
def start (after : ℤ) : ℤ := s.canonical (Time.seconds after) + 60

/-- `after.AddDate(8, 0, 0)`, in the zone of `after`. -/
def deadline (home : Zone) (after : ℤ) : ℤ :=
  Zone.AddDate home (Time.seconds after) 8 0 0 * Time.second + after % Time.second

/-- Midnight on the first of the month of `t`, a month later. -/
def nextMonth : ℤ :=
  let w := Zone.wall s.loc t
  Zone.AddDate s.loc (Zone.Date s.loc (Zone.year w) (Zone.month w) 1 0 0 0) 0 1 0

/-- Midnight on the day of `t`, a day later. -/
def nextDay : ℤ :=
  let w := Zone.wall s.loc t
  Zone.AddDate s.loc (Zone.Date s.loc (Zone.year w) (Zone.month w) (Zone.day w) 0 0 0) 0 0 1

/-- The minutes of `t`'s reading before `t`, by real subtraction. -/
def startOfHour : ℤ := t - Zone.minute (Zone.wall s.loc t) * 60

/-- The body of the loop of `Next`: the next candidate, or what it returns. -/
def body (deadline : ℤ) (t : ℤ) : ℤ ⊕ ℤ :=
  let w := Zone.wall s.loc t
  if deadline < t * Time.second then .inr 0
  else if !s.month.set.contains (Zone.month w) then .inl (s.nextMonth t)
  else if !s.dayMatches w then .inl (s.nextDay t)
  else if !s.hour.set.contains (Zone.hour w) then
    let next := s.startOfHour t + 3600
    if s.gapSkippedAScheduledHour (s.startOfHour t) next then .inr (next * Time.second)
    else .inl next
  else if t ≠ s.canonical t then .inl (t + 60)
  else if !s.minute.set.contains (Zone.minute w) then .inl (t + 60)
  else .inr (t * Time.second)

/-- `Schedule.Next`, if its loop ends within `n` iterations. -/
def next (home : Zone) (after : ℤ) (n : ℕ) : Option ℤ :=
  Loop.run (s.body (deadline home after)) n (s.start after)

/-- `Next` returns `r`. -/
def Returns (home : Zone) (after r : ℤ) : Prop :=
  Loop.Returns (s.body (deadline home after)) (s.start after) r

/-- The search of `Next` comes to stand at `t`. -/
def Visits (home : Zone) (after t : ℤ) : Prop :=
  Loop.Visits (s.body (deadline home after)) (s.start after) t

/-! ## What an iteration does -/

/-- The day of the reading at `t` is one of the schedule. -/
structure OnDay : Prop where
  month : s.month.set.contains (Zone.month (Zone.wall s.loc t)) = true
  day : s.dayMatches (Zone.wall s.loc t) = true

/-- The minute of the reading at `t` is one of the schedule, and `t` is the instant that
`time.Date` gives for it. -/
structure Regular : Prop where
  canonical : t = s.canonical t
  scheduled : s.scheduled (Zone.wall s.loc t) = true

instance : Decidable (s.OnDay t) :=
  decidable_of_iff (_ ∧ _) ⟨fun h => ⟨h.1, h.2⟩, fun h => ⟨h.month, h.day⟩⟩

instance : Decidable (s.Regular t) :=
  decidable_of_iff (_ ∧ _) ⟨fun h => ⟨h.1, h.2⟩, fun h => ⟨h.canonical, h.scheduled⟩⟩

/-- The iterations of the search at `t`, by their outcome. -/
inductive Move (s : Schedule) (deadline t : ℤ) : ℤ ⊕ ℤ → Prop
  | giveUp (hlate : deadline < t * Time.second) : Move s deadline t (.inr 0)
  | month (htime : t * Time.second ≤ deadline)
      (hmonth : s.month.set.contains (Zone.month (Zone.wall s.loc t)) = false) :
      Move s deadline t (.inl (s.nextMonth t))
  | day (htime : t * Time.second ≤ deadline)
      (hmonth : s.month.set.contains (Zone.month (Zone.wall s.loc t)) = true)
      (hday : s.dayMatches (Zone.wall s.loc t) = false) : Move s deadline t (.inl (s.nextDay t))
  | hour (htime : t * Time.second ≤ deadline) (hon : s.OnDay t)
      (hhour : s.hour.set.contains (Zone.hour (Zone.wall s.loc t)) = false)
      (hgap : s.gapSkippedAScheduledHour (s.startOfHour t) (s.startOfHour t + 3600) = false) :
      Move s deadline t (.inl (s.startOfHour t + 3600))
  | gap (htime : t * Time.second ≤ deadline) (hon : s.OnDay t)
      (hhour : s.hour.set.contains (Zone.hour (Zone.wall s.loc t)) = false)
      (hgap : s.gapSkippedAScheduledHour (s.startOfHour t) (s.startOfHour t + 3600) = true) :
      Move s deadline t (.inr ((s.startOfHour t + 3600) * Time.second))
  | minute (htime : t * Time.second ≤ deadline) (hon : s.OnDay t)
      (hhour : s.hour.set.contains (Zone.hour (Zone.wall s.loc t)) = true)
      (hnot : ¬s.Regular t) : Move s deadline t (.inl (t + 60))
  | fire (htime : t * Time.second ≤ deadline) (hregular : s.Regular t) :
      Move s deadline t (.inr (t * Time.second))

/-- **An iteration is one of these.** -/
theorem body_move (deadline t : ℤ) : s.Move deadline t (s.body deadline t) := by
  simp only [body, Bool.not_eq_true']
  split
  · exact .giveUp (by assumption)
  rename_i htime
  have htime : t * Time.second ≤ deadline := by omega
  split
  · exact .month htime (by assumption)
  rename_i hmonth
  rw [Bool.not_eq_false] at hmonth
  split
  · exact .day htime hmonth (by assumption)
  rename_i hday
  rw [Bool.not_eq_false] at hday
  split
  · split
    · exact .gap htime ⟨hmonth, hday⟩ (by assumption) (by assumption)
    · exact .hour htime ⟨hmonth, hday⟩ (by assumption)
        (Bool.eq_false_of_not_eq_true (by assumption))
  rename_i hhour
  rw [Bool.not_eq_false] at hhour
  split
  · rename_i hcanonical
    exact .minute htime ⟨hmonth, hday⟩ hhour fun h => hcanonical h.canonical
  rename_i hcanonical
  split
  · rename_i hminute
    refine .minute htime ⟨hmonth, hday⟩ hhour fun h => ?_
    have := h.scheduled
    simp only [scheduled, hminute, Bool.false_and, Bool.false_eq_true] at this
  · rename_i hminute
    rw [Bool.not_eq_false] at hminute
    refine .fire htime ⟨not_not.1 hcanonical, ?_⟩
    simp only [scheduled, hminute, hhour, hmonth, hday, Bool.and_self]

theorem scheduled_iff {s : Schedule} {w : ℤ} :
    s.scheduled w ↔ s.minute.set.contains (Zone.minute w) ∧
      s.hour.set.contains (Zone.hour w) ∧
      s.month.set.contains (Zone.month w) ∧ s.dayMatches w := by
  simp only [scheduled, Bool.and_eq_true, and_assoc]

theorem scheduled_minuteOf (w : ℤ) : s.scheduled (Zone.minuteOf w) = s.scheduled w := by
  simp [scheduled, dayMatches, Zone.minute_minuteOf, Zone.hour_minuteOf, Zone.month, Zone.day,
    Zone.weekday, Zone.days_minuteOf]

theorem canonical_eq : s.canonical t = Zone.date s.loc (Zone.minuteOf (Zone.wall s.loc t)) := by
  rw [canonical, Zone.Date, Zone.unix_minuteOf]

theorem nominal_eq : s.nominal t = Zone.minuteOf (Zone.wall s.loc t) := by
  rw [nominal, Zone.Date, Zone.unix_minuteOf, Zone.date, Int.sub_zero]

/-- The gap test finds a minute of the schedule strictly between the two readings. -/
theorem gapSkipped_iff {s : Schedule} {start stop : ℤ} :
    s.gapSkippedAScheduledHour start stop ↔ s.nominal stop - s.nominal start ≠ stop - start ∧
      ∃ w, w % 60 = 0 ∧ s.nominal start < w ∧ w < s.nominal stop ∧ s.scheduled w := by
  have hmod : s.nominal start % 60 = 0 := by simp [nominal_eq]
  simp only [gapSkippedAScheduledHour]
  split
  · rename_i heq
    simp [heq]
  rename_i hne
  simp only [List.any_eq_true, List.mem_range, ne_eq, hne, not_false_eq_true, true_and]
  constructor
  · rintro ⟨k, hk, hw⟩
    exact ⟨_, by omega, by omega, by omega, hw⟩
  rintro ⟨w, hw, hlo, hhi, hsched⟩
  refine ⟨((w - s.nominal start) / 60 - 1).toNat, by omega, ?_⟩
  have heq : s.nominal start + 60 * (↑((w - s.nominal start) / 60 - 1).toNat + 1) = w := by
    omega
  rw [heq]
  exact hsched

end Schedule

end AnimeFeedFlux.Cron
