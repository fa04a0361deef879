import AnimeFeedFlux.Schedule.Cron

/-!
# The search of `Next`

An hour step and a minute step lead forward by what they say.  A month or day skip goes to a
midnight built from the wall clock, and a midnight that a transition jumps over is resolved to
an instant before the transition in the zones west of UTC: the search comes back to where it
was.  In a repeated hour the first candidate is resolved too, to the first pass west of UTC,
and lies behind an `after` of the second.

`Ahead` is the condition under which a skip leads forward, `Resumes` the one under which the
search begins behind nothing.
-/

namespace AnimeFeedFlux.Cron

open List

/-! ## Zones and expressions for the examples -/

/-- UTC. -/
def utc : Zone := fun _ => 0

/-- An instant, by the clock of UTC. -/
def instant (year month day hour minute : ℤ) : ℤ :=
  Zone.unix year month day hour minute 0 * Time.second

/-- `America/New_York` in 2024. -/
def newYork : Zone := fun t =>
  if Zone.unix 2024 3 10 7 0 0 ≤ t ∧ t < Zone.unix 2024 11 3 6 0 0 then -14400 else -18000

/-- A Friday noon there, before the Sunday on which the clock goes forward. -/
def fridayNoon : ℤ := instant 2024 3 8 17 0

/-- `America/Santiago` in September 2026, where the clock jumps over the midnight of Sunday
the 6th. -/
def santiago : Zone := fun t => if t < Zone.unix 2026 9 6 4 0 0 then -14400 else -10800

/-- A field that is one value. -/
def only (v : ℕ) : FieldSpec := { set := [v] }

/-- A bare `*`. -/
def star (low high : ℕ) : FieldSpec := { set := List.range' low (high + 1 - low), wildcard := true }

/-- A schedule that fires on days of the week or on every day. -/
def weekly (loc : Zone) (expr : String) (minute hour dow : FieldSpec) : Schedule :=
  { minute, hour, dom := star 1 31, month := star 1 12, dow, loc, expr }

/-! ## Skips -/

namespace Schedule

/-- A skip of the search at `t` leads forward. -/
def Ahead (s : Schedule) (t : ℤ) : Prop :=
  if s.month.set.contains (Zone.month (Zone.wall s.loc t)) = false then t < s.nextMonth t
  else s.dayMatches (Zone.wall s.loc t) = false → t < s.nextDay t
deriving Decidable

theorem lt_startOfHour (s : Schedule) (t : ℤ) : t < s.startOfHour t + 3600 := by
  have := Zone.minute_lt (Zone.wall s.loc t)
  simp only [startOfHour]
  omega

variable {s : Schedule}

/-- **An iteration that does not return moves forward**, if its skip does. -/
theorem lt_of_body {deadline t t' : ℤ} (hahead : s.Ahead t) (hbody : s.body deadline t = .inl t') :
    t < t' ∧ t * Time.second ≤ deadline := by
  have hmove := s.body_move deadline t
  rw [hbody] at hmove
  cases hmove with
  | month htime hmonth =>
    rw [Ahead, if_pos hmonth] at hahead
    exact ⟨hahead, htime⟩
  | day htime hmonth hday =>
    rw [Ahead, if_neg (by rw [hmonth]; decide)] at hahead
    exact ⟨hahead hday, htime⟩
  | hour htime => exact ⟨s.lt_startOfHour t, htime⟩
  | minute htime => exact ⟨by omega, htime⟩

section
variable (s) (home : Zone) (after : ℤ)

/-- An iteration for each second up to the deadline. -/
def fuel : ℕ :=
  (Time.seconds (deadline home after) + 1 - s.start after).toNat + 1

theorem next_fuel (hahead : ∀ t, s.Visits home after t → s.Ahead t) :
    ∃ r, s.next home after (s.fuel home after) = some r := by
  refine Loop.run_of_measure (C := s.Ahead)
    (fun t => (Time.seconds (deadline home after) + 1 - t).toNat) ?_ (s.start after) hahead
  intro t t' ht hbody
  obtain ⟨hlt, htime⟩ := lt_of_body ht hbody
  have hle : t ≤ Time.seconds (deadline home after) := by
    simp only [Time.seconds, Time.second] at htime ⊢
    omega
  omega

/-- **A search whose skips all lead forward ends**, within an iteration for each second up to
the deadline. -/
theorem next_of_ahead (hahead : ∀ t, s.Visits home after t → s.Ahead t) :
    ∃ r, s.next home after
      ((Time.seconds (deadline home after) + 1 - s.start after).toNat + 1) = some r :=
  s.next_fuel home after hahead

end

/-- `30 2 * * 0` in New York. -/
def sundays : Schedule := weekly newYork "30 2 * * 0" (only 30) (only 2) (only 0)

/-- From a Friday over two midnights to the Sunday on which `02:30` is jumped over. -/
theorem next_of_ahead_sundays : parse "30 2 * * 0" (some newYork) = .ok sundays ∧
    (∀ t, sundays.Visits utc fridayNoon t → sundays.Ahead t) ∧
    ∃ r, sundays.next utc fridayNoon
      ((Time.seconds (deadline utc fridayNoon) + 1 - sundays.start fridayNoon).toNat + 1) =
        some r := by
  have hahead : ∀ t, sundays.Visits utc fridayNoon t → sundays.Ahead t := by
    intro t ht
    have hrun : sundays.next utc fridayNoon 5 = some (instant 2024 3 10 7 0) := by
      decide +kernel
    have hall : ∀ t ∈ Loop.trail (sundays.body (deadline utc fridayNoon)) 5
        (sundays.start fridayNoon), sundays.Ahead t := by
      decide +kernel
    exact hall t (Loop.mem_trail hrun ht)
  exact ⟨rfl, hahead, next_of_ahead _ _ _ hahead⟩

/-- `0 9 * * 1` in Santiago. -/
def mondays : Schedule := weekly santiago "0 9 * * 1" (only 0) (only 9) (only 1)

/-- **A midnight that does not exist stops the search for good**: on the Saturday before the
transition the next midnight is resolved to `23:00` of the same Saturday, again and again. -/
theorem not_returns_mondays : parse "0 9 * * 1" (some santiago) = .ok mondays ∧
    ¬∃ n r, mondays.next utc (instant 2026 9 5 16 0) n = some r := by
  refine ⟨rfl, ?_⟩
  rintro ⟨n, r, hr⟩
  have htrap : ∀ t, t = mondays.start (instant 2026 9 5 16 0) ∨ t = Zone.unix 2026 9 6 3 0 0 →
      ∃ t', mondays.body (deadline utc (instant 2026 9 5 16 0)) t = .inl t' ∧
        (t' = mondays.start (instant 2026 9 5 16 0) ∨ t' = Zone.unix 2026 9 6 3 0 0) := by
    rintro t (rfl | rfl)
    · exact ⟨Zone.unix 2026 9 6 3 0 0, by decide +kernel, .inr rfl⟩
    · exact ⟨Zone.unix 2026 9 6 3 0 0, by decide +kernel, .inr rfl⟩
  exact Loop.not_ends_of_trap htrap (.inl rfl) ⟨r, n, hr⟩

/-! ## Schedules for every day -/

/-- What `Next` returns, for a schedule whose searches end within `fuel`. -/
def nextTime (s : Schedule) (home : Zone) (after : ℤ) : ℤ :=
  (s.next home after (s.fuel home after)).getD 0

theorem ahead_of_daily (hmonth : ∀ m, 1 ≤ m → m ≤ 12 → m ∈ s.month.set)
    (hdom : s.dom.wildcard) (hdow : s.dow.wildcard) (t : ℤ) : s.Ahead t := by
  have hb := Calendar.civil_bounds (Zone.wall s.loc t / 86400)
  have hin : s.month.set.contains (Zone.month (Zone.wall s.loc t)) = true :=
    contains_iff_mem.2 (hmonth _ hb.1 hb.2.1)
  have hday : s.dayMatches (Zone.wall s.loc t) = true := by simp [dayMatches, hdom, hdow]
  rw [Ahead, if_neg (by rw [hin]; decide), hday]
  intro hfalse
  cases hfalse

/-- **A schedule for every day always returns.** -/
theorem returns_nextTime (hmonth : ∀ m, 1 ≤ m → m ≤ 12 → m ∈ s.month.set)
    (hdom : s.dom.wildcard) (hdow : s.dow.wildcard) (home : Zone) (after : ℤ) :
    s.Returns home after (s.nextTime home after) := by
  obtain ⟨r, hr⟩ := s.next_fuel home after fun t _ => ahead_of_daily hmonth hdom hdow t
  refine ⟨s.fuel home after, ?_⟩
  rw [nextTime, hr]
  exact hr

/-! ## `Next` iterated -/

/-- The firings of a schedule: what `Next` returns when it is called with what it returned
before, until it returns the zero Time. -/
inductive Firings (s : Schedule) : Zone → ℤ → List ℤ → Prop
  | nil (home : Zone) (after : ℤ) : Firings s home after []
  | cons {home : Zone} {after r : ℤ} {rs : List ℤ} (hr : s.Returns home after r) (hne : r ≠ 0)
      (hrs : Firings s s.loc r rs) : Firings s home after (r :: rs)

/-- Every call that returned one of the firings `rs` meets `C`. -/
def AlongCalls (s : Schedule) (C : Zone → ℤ → Prop) : Zone → ℤ → List ℤ → Prop
  | _, _, [] => True
  | home, after, r :: rs => C home after ∧ AlongCalls s C s.loc r rs

theorem AlongCalls.mono {C D : Zone → ℤ → Prop} (hCD : ∀ home after, C home after → D home after) :
    ∀ {rs : List ℤ} {home : Zone} {after : ℤ}, s.AlongCalls C home after rs →
      s.AlongCalls D home after rs
  | [], _, _, _ => trivial
  | _ :: _, _, _, h => ⟨hCD _ _ h.1, AlongCalls.mono hCD h.2⟩

/-- The search begins after `after`. -/
def Resumes (s : Schedule) (after : ℤ) : Prop := after < s.start after * Time.second
deriving Decidable

/-- A call begins after its argument, and its skips lead forward. -/
def Advances (s : Schedule) (home : Zone) (after : ℤ) : Prop :=
  s.Resumes after ∧ ∀ t, s.Visits home after t → s.Ahead t

variable {home : Zone} {after : ℤ}

theorem Advances.lt_of_visits {t : ℤ} (h : s.Advances home after) (ht : s.Visits home after t) :
    after < t * Time.second := by
  have hmono : ∀ {u v : ℤ}, u < v → after < u * Time.second → after < v * Time.second := by
    intro u v huv hu
    simp only [Time.second] at hu ⊢
    omega
  induction ht with
  | refl => exact h.1
  | step hprev hbody ih => exact hmono (lt_of_body (h.2 _ hprev) hbody).1 ih

/-- **What `Next` returns is later than its argument.** -/
theorem Advances.lt {r : ℤ} (h : s.Advances home after) (hr : s.Returns home after r)
    (hne : r ≠ 0) : after < r := by
  obtain ⟨t, ht, hbody⟩ := Loop.returns_iff.1 hr
  have hlt := h.lt_of_visits ht
  have hmove := s.body_move (deadline home after) t
  rw [hbody] at hmove
  cases hmove with
  | giveUp => exact absurd rfl hne
  | gap =>
    have := s.lt_startOfHour t
    simp only [Time.second] at hlt ⊢
    omega
  | fire => exact hlt

theorem Firings.increasing {rs : List ℤ} (hrs : s.Firings home after rs)
    (hcalls : s.AlongCalls s.Advances home after rs) : (after :: rs).Pairwise (· < ·) := by
  induction hrs with
  | nil => exact pairwise_singleton _ _
  | cons hr hne hrs ih =>
    have hlt := hcalls.1.lt hr hne
    have htail := ih hcalls.2
    refine pairwise_cons.2 ⟨?_, htail⟩
    intro x hx
    rcases mem_cons.1 hx with rfl | hx
    · exact hlt
    · exact hlt.trans ((pairwise_cons.1 htail).1 x hx)

/-- **What `Next` returns is later than its argument**, and iterating it gives later and later
instants, over every run of calls that begin after their argument and skip forward. -/
theorem strictlyLater_of_advances (s : Schedule) (home : Zone) (after : ℤ)
    (hcall : s.Advances home after) :
    (∀ r, s.Returns home after r → r ≠ 0 → after < r) ∧
    ∀ rs, s.Firings home after rs → s.AlongCalls s.Advances home after rs →
      (after :: rs).Pairwise (· < ·) := by
  constructor
  · intro r hr hne
    exact hcall.lt hr hne
  · intro rs hrs hcalls
    exact hrs.increasing hcalls

/-- `30 1 * * *` in New York. -/
def nightly : Schedule := weekly newYork "30 1 * * *" (only 30) (only 1) (star 0 6)

/-- When it fires around the repeated hour. -/
def twoNights : List ℤ := [instant 2024 11 3 5 30, instant 2024 11 4 6 30]

theorem ahead_nightly (t : ℤ) : nightly.Ahead t := ahead_of_daily (by decide) rfl rfl t

/-- Two nights, of which the first has the repeated hour. -/
theorem strictlyLater_of_advances_nightly : parse "30 1 * * *" (some newYork) = .ok nightly ∧
    nightly.Advances utc (instant 2024 11 3 4 0) ∧
    nightly.AlongCalls nightly.Advances utc (instant 2024 11 3 4 0) twoNights ∧
    nightly.Firings utc (instant 2024 11 3 4 0) twoNights ∧
    (instant 2024 11 3 4 0 :: twoNights).Pairwise (· < ·) := by
  have hfirst : nightly.next utc (instant 2024 11 3 4 0) 32 = some (instant 2024 11 3 5 30) := by
    decide +kernel
  have hsecond : nightly.next newYork (instant 2024 11 3 5 30) 150 =
      some (instant 2024 11 4 6 30) := by
    decide +kernel
  have hfirings : nightly.Firings utc (instant 2024 11 3 4 0) twoNights :=
    .cons ⟨_, hfirst⟩ (by decide) (.cons ⟨_, hsecond⟩ (by decide) (.nil _ _))
  have hcall : nightly.Advances utc (instant 2024 11 3 4 0) :=
    ⟨by decide +kernel, fun t _ => ahead_nightly t⟩
  have hcalls : nightly.AlongCalls nightly.Advances utc (instant 2024 11 3 4 0) twoNights :=
    ⟨hcall, ⟨by decide +kernel, fun t _ => ahead_nightly t⟩, trivial⟩
  exact ⟨rfl, hcall, hcalls, hfirings, (strictlyLater_of_advances _ _ _ hcall).2 _ hfirings hcalls⟩

/-- **From the second pass of a repeated hour the search fires in the first**: at `01:10` for
the second time, `01:30` for the first time is forty minutes ago. -/
theorem not_strictlyLater_nightly : parse "30 1 * * *" (some newYork) = .ok nightly ∧
    nightly.Returns utc (instant 2024 11 3 6 10) (instant 2024 11 3 5 30) ∧
    instant 2024 11 3 5 30 ≠ 0 ∧ ¬instant 2024 11 3 6 10 < instant 2024 11 3 5 30 := by
  have hrun : nightly.next utc (instant 2024 11 3 6 10) 20 = some (instant 2024 11 3 5 30) := by
    decide +kernel
  exact ⟨rfl, ⟨_, hrun⟩, by decide, by decide⟩

end Schedule

end AnimeFeedFlux.Cron
