import AnimeFeedFlux.Schedule.Dates
import AnimeFeedFlux.Schedule.Due

/-!
# One firing for each date

`Recurrence.Next` walks the firings of its time of day and keeps those whose date qualifies.
A date on which the time of day is jumped over is made up for at the end of the gap, and the
filter then looks at the date of that instant, which may be the next one.

A date is represented by an instant for the reasons a cron firing has: the instant that
`time.Date` gives for its time of day, or the end of a gap over it.
-/

namespace AnimeFeedFlux.Cron.Recurrence

open List Zone

variable {r : Recurrence} {home : Zone} {after t x : ℤ}

/-! ## Dates and instants -/

/-- The time of day on day `d`, as a reading. -/
def reading (r : Recurrence) (d : ℤ) : ℤ := 86400 * d + 3600 * r.hour + 60 * r.minute

/-- The filter, on a date. -/
def firesOn (r : Recurrence) (d : ℤ) : Bool := r.dateFires (r.reading d)

/-- The instant `x` stands for day `d`. -/
def Represents (r : Recurrence) (x d : ℤ) : Prop := r.timeOfDay.Accounts (r.reading d) x

/-- The second `t` shows the minute `w`, or ends a gap over it. -/
def Marks (z : Zone) (t w : ℤ) : Prop := Zone.minuteOf (Zone.wall z t) = w ∨ Zone.Skips z t w

theorem mem_months {m : ℕ} (hm : 1 ≤ m) (hm' : m ≤ 12) : m ∈ (star 1 12).set := by
  simp only [star, mem_range'_1]
  omega

theorem onDay (r : Recurrence) (t : ℤ) : r.timeOfDay.OnDay t := by
  rw [timeOfDay_eq]
  have hb := Calendar.civil_bounds (wall r.zone t / 86400)
  exact ⟨contains_iff_mem.2 (mem_months hb.1 hb.2.1), rfl⟩

theorem loc_timeOfDay (r : Recurrence) : r.timeOfDay.loc = r.zone := by
  rw [timeOfDay_eq]
  rfl

variable {w u deadline d stop : ℤ} {xs : List ℤ}

theorem scheduled_iff_reading (hw : w % 60 = 0) :
    r.timeOfDay.scheduled w ↔ w = r.reading (w / 86400) := by
  obtain ⟨hm, hm'⟩ := r.bounded.minute
  obtain ⟨hh, hh'⟩ := r.bounded.hour
  have hb := Calendar.civil_bounds (w / 86400)
  have hmonth : (star 1 12).set.contains (month w) = true :=
    contains_iff_mem.2 (mem_months hb.1 hb.2.1)
  have hday : r.timeOfDay.dayMatches w = true := by
    rw [timeOfDay_eq]
    rfl
  rw [Schedule.scheduled_iff, hday, timeOfDay_eq]
  simp only [daily, weekly, only, hmonth, contains_iff_mem, mem_singleton, and_true]
  simp only [minute, hour, reading]
  omega

theorem reading_mod (r : Recurrence) (d : ℤ) : r.reading d % 60 = 0 := by
  simp only [reading]
  omega

theorem reading_div (r : Recurrence) (d : ℤ) : r.reading d / 86400 = d := by
  obtain ⟨hm, hm'⟩ := r.bounded.minute
  obtain ⟨hh, hh'⟩ := r.bounded.hour
  simp only [reading]
  omega

theorem scheduled_reading (r : Recurrence) (d : ℤ) : r.timeOfDay.scheduled (r.reading d) :=
  (scheduled_iff_reading (r.reading_mod d)).2 (by rw [reading_div])

theorem represents_of_accounts (h : r.timeOfDay.Accounts w x) : r.Represents x (w / 86400) := by
  rw [Represents, ← (scheduled_iff_reading h.1).1 h.2.1]
  exact h

theorem exists_represents (h : r.timeOfDay.Due u) : ∃ d, r.Represents (u * Time.second) d := by
  rcases h with hregular | hskips
  · exact ⟨_, represents_of_accounts hregular.accounts⟩
  obtain ⟨w, hw⟩ := hskips.accounts
  exact ⟨_, represents_of_accounts hw⟩

theorem returns_timeOfDay (r : Recurrence) (home : Zone) (after : ℤ) :
    r.timeOfDay.Returns home after (r.timeOfDay.nextTime home after) := by
  rw [timeOfDay_eq]
  exact Schedule.returns_nextTime (fun _ => mem_months) rfl rfl home after

/-! ## `Next` iterated -/

/-- The search of `Next` comes to the firing `t` of the time of day. -/
def Visits (r : Recurrence) (home : Zone) (after t : ℤ) : Prop :=
  Loop.Visits (r.body (Schedule.deadline home after)) (r.timeOfDay.nextTime home after) t

/-- Runs of `Next` on what it returned before: the firings, and the instant up to which the
calls have searched.  Each call meets `C`. -/
inductive Runs (r : Recurrence) (C : Zone → ℤ → Prop) : Zone → ℤ → List ℤ → ℤ → Prop
  | here (home : Zone) (after : ℤ) : Runs r C home after [] after
  | gaveUp {home : Zone} {after : ℤ} (hC : C home after) (hx : r.Returns home after 0) :
      Runs r C home after [] (Schedule.deadline home after)
  | fired {home : Zone} {after x stop : ℤ} {xs : List ℤ} (hC : C home after)
      (hx : r.Returns home after x) (hne : x ≠ 0) (hxs : Runs r C r.zone x xs stop) :
      Runs r C home after (x :: xs) stop

/-- The firings `xs` between `after` and `stop` are those of the dates that fire: each stands
for such a date, no two for one, and a date whose time of day is shown or jumped over in that
span, and nowhere else, has its firing. -/
structure OneFiring (r : Recurrence) (after : ℤ) (xs : List ℤ) (stop : ℤ) : Prop where
  sound : ∀ x ∈ xs, ∃ d, r.firesOn d = true ∧ r.Represents x d
  once : xs.Pairwise fun x x' => ∀ d, ¬(r.Represents x d ∧ r.Represents x' d)
  complete : ∀ d, r.firesOn d = true → (∃ t, Marks r.zone t (r.reading d)) →
    (∀ t, Marks r.zone t (r.reading d) → after < t * Time.second ∧ t * Time.second ≤ stop) →
    ∃ x ∈ xs, r.Represents x d

/-! ## The condition -/

/-- The filter gives the same answer at `t` as for the dates that `t` stands for. -/
def Attributed (r : Recurrence) (t : ℤ) : Prop :=
  ∀ d, r.Represents t d → r.dateFires (Zone.wall r.zone (Time.seconds t)) = r.firesOn d

/-- The time of day comes again within eight years of `t`. -/
def Followed (r : Recurrence) (t : ℤ) : Prop :=
  ∃ u, r.timeOfDay.Due u ∧ t < u * Time.second ∧
    u * Time.second ≤ Schedule.deadline r.zone t

/-- A call whose searches for the time of day are clear, at instants that keep their dates. -/
structure NextClear (r : Recurrence) (home : Zone) (after : ℤ) : Prop where
  origin : r.timeOfDay.Due 0 → 0 ≤ after
  first : r.timeOfDay.CallClear home after
  attributed : ∀ t, r.Visits home after t → t ≠ 0 → r.Attributed t
  later : ∀ t, r.Visits home after t → t ≠ 0 → t ≤ Schedule.deadline home after →
    r.dateFires (Zone.wall r.zone (Time.seconds t)) = false →
    r.timeOfDay.CallClear r.zone t ∧ r.Followed t

/-- A time of day that is shown is shown at the instant `time.Date` gives for it, and one that
is jumped over is so once and is shown nowhere. -/
structure Resolves (r : Recurrence) : Prop where
  shown : ∀ t d, Zone.minuteOf (Zone.wall r.zone t) = r.reading d →
    Zone.minuteOf (Zone.wall r.zone (Zone.date r.zone (r.reading d))) = r.reading d
  skipped : r.timeOfDay.SkippedOnce

/-! ## One call -/

theorem body_eq_inl {t' : ℤ} (h : r.body deadline t = .inl t') :
    t ≠ 0 ∧ t ≤ deadline ∧ r.dateFires (wall r.zone (Time.seconds t)) = false ∧
      t' = r.timeOfDay.nextTime r.zone t := by
  simp only [body] at h
  split_ifs at h with hend hfires
  rw [not_or, Int.not_lt] at hend
  exact ⟨hend.1, hend.2, Bool.eq_false_of_not_eq_true hfires, (Sum.inl.inj h).symm⟩

theorem body_eq_inr (h : r.body deadline t = .inr x) : (x = 0 ∧ (t = 0 ∨ deadline < t)) ∨
    (x = t ∧ t ≠ 0 ∧ t ≤ deadline ∧ r.dateFires (wall r.zone (Time.seconds t))) := by
  simp only [body] at h
  split_ifs at h with hend hfires
  · exact .inl ⟨(Sum.inr.inj h).symm, hend⟩
  rw [not_or, Int.not_lt] at hend
  exact .inr ⟨(Sum.inr.inj h).symm, hend.1, hend.2, hfires⟩

/-- **The first due instant**, as a call of the time of day finds it. -/
theorem nextTime_spec (h : r.timeOfDay.CallClear home after)
    (horigin : r.timeOfDay.Due 0 → 0 ≤ after) :
    (r.timeOfDay.nextTime home after = 0 ∧ ∀ u, r.timeOfDay.Due u → after < u * Time.second →
      Schedule.deadline home after < u * Time.second) ∨
    (r.timeOfDay.nextTime home after ≠ 0 ∧ after < r.timeOfDay.nextTime home after ∧
      ∃ x, r.timeOfDay.nextTime home after = x * Time.second ∧ r.timeOfDay.Due x ∧
        ∀ u, r.timeOfDay.Due u → after < u * Time.second → x ≤ u) := by
  rcases h.returns r.onDay (r.returns_timeOfDay home after) with hzero | ⟨x, hx, hdue, hlt, hleast⟩
  · exact .inl hzero
  refine .inr ⟨?_, by rw [hx]; exact hlt, x, hx, hdue, hleast⟩
  intro hzero
  rw [hx] at hzero
  have hx0 : x = 0 := by
    simp only [Time.second] at hzero
    omega
  subst hx0
  have := horigin hdue
  omega

/-- How far the walk over the firings of the time of day has come. -/
structure Walked (r : Recurrence) (home : Zone) (after t : ℤ) : Prop where
  rejected : ∀ u, r.timeOfDay.Due u → after < u * Time.second →
    u * Time.second ≤ Schedule.deadline home after → t = 0 ∨ u * Time.second < t →
    r.Visits home after (u * Time.second) ∧
      r.dateFires (Zone.wall r.zone u) = false
  due : t ≠ 0 → after < t ∧ ∃ x, t = x * Time.second ∧ r.timeOfDay.Due x

theorem seconds_mul (u : ℤ) : Time.seconds (u * Time.second) = u := by
  simp only [Time.seconds, Time.second]
  omega

/-- **The walk comes to every due instant**, one after the other. -/
theorem NextClear.walked (h : r.NextClear home after) (ht : r.Visits home after t) :
    r.Walked home after t := by
  induction ht with
  | refl =>
    rcases nextTime_spec h.first h.origin with ⟨hzero, hnone⟩ | ⟨hne, hlt, x, hx, hdue, hleast⟩
    · refine ⟨fun u hdue hafter hle _ => ?_, fun hne => absurd hzero hne⟩
      have := hnone u hdue hafter
      omega
    refine ⟨fun u hdue hafter _ hbefore => ?_, fun _ => ⟨hlt, x, hx, hdue⟩⟩
    have hle := hleast u hdue hafter
    rcases hbefore with hzero | hbefore
    · exact absurd hzero hne
    rw [hx] at hbefore
    simp only [Time.second] at hbefore
    omega
  | @step t t' hprev hbody ih =>
    obtain ⟨hne, hle, hnot, rfl⟩ := body_eq_inl hbody
    obtain ⟨hafter, y, rfl, hy⟩ := ih.due hne
    obtain ⟨hcall, v, hv, hlt, hin⟩ := h.later _ hprev hne hle hnot
    have horigin : r.timeOfDay.Due 0 → 0 ≤ y * Time.second := by
      intro h0
      have := h.origin h0
      omega
    rcases nextTime_spec hcall horigin with ⟨-, hnone⟩ | ⟨hne', hlt', x, hx, hdue, hleast⟩
    · have := hnone v hv hlt
      omega
    refine ⟨fun u hu hafter' hle' hbefore => ?_, fun _ => ⟨by omega, x, hx, hdue⟩⟩
    have hbefore := hbefore.resolve_left hne'
    rcases Int.lt_trichotomy (u * Time.second) (y * Time.second) with hlt | heq | hgt
    · exact ih.rejected u hu hafter' hle' (.inr hlt)
    · have huy : u = y := by
        simp only [Time.second] at heq
        omega
      subst huy
      rw [seconds_mul] at hnot
      exact ⟨hprev, hnot⟩
    · have hxu := hleast u hu hgt
      rw [hx] at hbefore
      simp only [Time.second] at hbefore
      omega

theorem NextClear.returns (h : r.NextClear home after) (hx : r.Returns home after x) (hne : x ≠ 0) :
    after < x ∧ r.Attributed x ∧ (∃ u, x = u * Time.second ∧ r.timeOfDay.Due u) ∧
      r.dateFires (wall r.zone (Time.seconds x)) ∧
      ∀ u, r.timeOfDay.Due u → after < u * Time.second → u * Time.second < x →
        r.Attributed (u * Time.second) ∧ r.dateFires (wall r.zone u) = false := by
  obtain ⟨t, ht, hbody⟩ := Loop.returns_iff.1 hx
  obtain ⟨rfl, -⟩ | ⟨rfl, -, hle, hfires⟩ := body_eq_inr hbody
  · exact absurd rfl hne
  have hwalked := h.walked ht
  obtain ⟨hlt, hdue⟩ := hwalked.due hne
  refine ⟨hlt, h.attributed _ ht hne, hdue, hfires, fun u hu hafter hbefore => ?_⟩
  obtain ⟨hvisits, hnot⟩ := hwalked.rejected u hu hafter (by omega) (.inr hbefore)
  refine ⟨h.attributed _ hvisits fun hzero => ?_, hnot⟩
  have hu0 : u = 0 := by
    simp only [Time.second] at hzero
    omega
  subst hu0
  have := h.origin hu
  omega

theorem NextClear.gaveUp (h : r.NextClear home after) (hx : r.Returns home after 0)
    (hu : r.timeOfDay.Due u) (hafter : after < u * Time.second)
    (hle : u * Time.second ≤ Schedule.deadline home after) :
    r.Attributed (u * Time.second) ∧ r.dateFires (wall r.zone u) = false := by
  obtain ⟨t, ht, hbody⟩ := Loop.returns_iff.1 hx
  have hend : t = 0 ∨ Schedule.deadline home after < t := by
    obtain ⟨-, hend⟩ | ⟨rfl, hne, -⟩ := body_eq_inr hbody
    · exact hend
    · exact absurd rfl hne
  obtain ⟨hvisits, hnot⟩ := (h.walked ht).rejected u hu hafter hle (by omega)
  refine ⟨h.attributed _ hvisits fun hzero => ?_, hnot⟩
  have hu0 : u = 0 := by
    simp only [Time.second] at hzero
    omega
  subst hu0
  have := h.origin hu
  omega

/-- **A call in clear conditions returns.** -/
theorem NextClear.ends (h : r.NextClear home after) : ∃ x, r.Returns home after x := by
  have hfalls : ∀ t t', r.Visits home after t → r.body (Schedule.deadline home after) t = .inl t' →
      (if t' = 0 then 0 else (Schedule.deadline home after + 1 - t').toNat + 1) <
        (if t = 0 then 0 else (Schedule.deadline home after + 1 - t).toNat + 1) := by
    intro t t' ht hbody
    obtain ⟨hne, hle, hnot, rfl⟩ := body_eq_inl hbody
    obtain ⟨hafter, y, rfl, hy⟩ := (h.walked ht).due hne
    have horigin : r.timeOfDay.Due 0 → 0 ≤ y * Time.second := by
      intro h0
      have := h.origin h0
      omega
    rcases nextTime_spec (h.later _ ht hne hle hnot).1 horigin with ⟨hzero, -⟩ | ⟨hne', hlt, -⟩
    · rw [if_pos hzero, if_neg hne]
      omega
    · rw [if_neg hne', if_neg hne]
      omega
  obtain ⟨x, hx⟩ := Loop.run_of_measure (C := r.Visits home after) _ hfalls _ fun _ ht => ht
  exact ⟨x, _, hx⟩

/-! ## Whole runs -/

theorem Resolves.exists_due (h : r.Resolves) (ht : Marks r.zone t (r.reading d)) :
    ∃ u, r.timeOfDay.Due u ∧ Marks r.zone u (r.reading d) ∧ r.Represents (u * Time.second) d := by
  rcases ht with hshown | hskips
  · have hcanonical := h.shown t d hshown
    have hregular : r.timeOfDay.Regular (date r.zone (r.reading d)) := by
      constructor
      · rw [Schedule.canonical_eq, loc_timeOfDay, hcanonical]
      rw [← Schedule.scheduled_minuteOf, loc_timeOfDay, hcanonical]
      exact r.scheduled_reading d
    have hrepresents := represents_of_accounts hregular.accounts
    rw [loc_timeOfDay, hcanonical, reading_div] at hrepresents
    exact ⟨_, .inl hregular, .inl hcanonical, hrepresents⟩
  · have hskips' : Skips r.timeOfDay.loc t (r.reading d) := by
      rw [loc_timeOfDay]
      exact hskips
    exact ⟨t, .inr ⟨_, r.reading_mod d, r.scheduled_reading d, hskips'⟩, .inr hskips,
      r.reading_mod d, r.scheduled_reading d, .inr ⟨t, rfl, hskips'⟩⟩

theorem Runs.increasing (h : r.Runs r.NextClear home after xs stop) :
    (after :: xs).Pairwise (· < ·) := by
  induction h with
  | here => exact pairwise_singleton _ _
  | gaveUp => exact pairwise_singleton _ _
  | fired hC hx hne hxs ih =>
    have hlt := (hC.returns hx hne).1
    refine pairwise_cons.2 ⟨?_, ih⟩
    intro y hy
    rcases mem_cons.1 hy with rfl | hy
    · exact hlt
    · exact hlt.trans ((pairwise_cons.1 ih).1 y hy)

theorem Runs.sound (h : r.Runs r.NextClear home after xs stop) :
    ∀ x ∈ xs, ∃ d, r.firesOn d ∧ r.Represents x d := by
  induction h with
  | here => simp
  | gaveUp => simp
  | fired hC hx hne hxs ih =>
    intro y hy
    rcases mem_cons.1 hy with rfl | hy
    · obtain ⟨-, hattributed, ⟨u, rfl, hu⟩, hfires, -⟩ := hC.returns hx hne
      obtain ⟨d, hd⟩ := exists_represents hu
      exact ⟨d, (hattributed d hd).symm.trans hfires, hd⟩
    · exact ih y hy

theorem Runs.complete (h : r.Runs r.NextClear home after xs stop) (hu : r.timeOfDay.Due u)
    (hd : r.Represents (u * Time.second) d) (hfires : r.firesOn d) :
    after < u * Time.second → u * Time.second ≤ stop → u * Time.second ∈ xs := by
  -- An instant passed over was rejected, and the filter has the same answer for its date.
  have hpassed : ¬(r.Attributed (u * Time.second) ∧ r.dateFires (wall r.zone u) = false) := by
    rintro ⟨hattributed, hnot⟩
    have hsame := hattributed d hd
    rw [seconds_mul, hnot, hfires] at hsame
    cases hsame
  induction h with
  | here => omega
  | gaveUp hC hx =>
    intro hafter hle
    exact absurd (hC.gaveUp hx hu hafter hle) hpassed
  | @fired home after x stop xs hC hx hne hxs ih =>
    intro hafter hle
    obtain ⟨-, -, -, -, hbefore⟩ := hC.returns hx hne
    rcases Int.lt_trichotomy (u * Time.second) x with hlt | heq | hgt
    · exact absurd (hbefore u hu hafter hlt) hpassed
    · exact mem_cons.2 (.inl heq)
    · exact mem_cons.2 (.inr (ih hgt hle))

/-- **One firing for each date that fires, and no other**, over every run of calls in clear
conditions; and such calls return. -/
theorem oneFiring_of_nextClear (r : Recurrence) (home : Zone) (after : ℤ) (hresolves : r.Resolves) :
    (r.NextClear home after → ∃ x, r.Returns home after x) ∧
    ∀ xs stop, r.Runs r.NextClear home after xs stop → r.OneFiring after xs stop := by
  refine ⟨NextClear.ends, fun xs stop h => ⟨h.sound, ?_, ?_⟩⟩
  · refine (pairwise_cons.1 h.increasing).2.imp fun hlt d hboth => ?_
    exact absurd (hresolves.skipped.unique hboth.1 hboth.2) hlt.ne
  rintro d hfires ⟨t, ht⟩ hall
  obtain ⟨u, hu, hmarks, hrepresents⟩ := hresolves.exists_due ht
  obtain ⟨hafter, hle⟩ := hall u hmarks
  exact ⟨_, h.complete hu hrepresents hfires hafter hle, hrepresents⟩

/-! ## Zones that change on the hour -/

/-- The offsets of the zone are whole hours from `offset`, and they change at whole hours, by
less than 23 at a time. -/
structure OnTheHour (z : Zone) (offset : ℤ) : Prop where
  whole : ∀ t, (z t - offset) % 3600 = 0
  changes : ∀ t, z t ≠ z (t - 1) → (t + offset) % 3600 = 0
  short : ∀ t, z t < z (t - 1) + 82800

theorem OnTheHour.eq_of_le {z : Zone} {offset : ℤ} (h : OnTheHour z offset) (hle : t ≤ u)
    (hhour : (u + offset) / 3600 ≤ (t + offset) / 3600) : z u = z t := by
  induction u, hle using Int.leInduction with
  | base => rfl
  | succ u hle ih =>
    rw [← ih (by omega)]
    by_contra hne
    have := h.changes (u + 1) (by rwa [Int.add_sub_cancel])
    omega

section OnTheHour

variable {offset : ℤ}

variable (hz : OnTheHour r.zone offset)
include hz

theorem skipsMinute_mod (h : r.timeOfDay.SkipsMinute u) : (u + offset) % 3600 = 0 := by
  obtain ⟨w, -, -, hlo, hhi⟩ := h
  rw [loc_timeOfDay] at hlo hhi
  exact hz.changes u (by omega)

theorem canonical_mod (t : ℤ) : (r.timeOfDay.canonical t + offset) % 60 = 0 := by
  have hmod := minuteOf_mod (wall r.zone t)
  have := hz.whole (minuteOf (wall r.zone t) - r.zone (minuteOf (wall r.zone t)))
  rw [Schedule.canonical_eq, loc_timeOfDay, date]
  omega

theorem due_mod (h : r.timeOfDay.Due u) : (u + offset) % 60 = 0 := by
  rcases h with hregular | hskips
  · rw [hregular.canonical]
    exact canonical_mod hz u
  · have := skipsMinute_mod hz hskips
    omega

theorem visits_mod (ht : r.timeOfDay.Visits home after t) : (t + offset) % 60 = 0 := by
  induction ht with
  | refl =>
    have := canonical_mod hz (Time.seconds after)
    rw [Schedule.start]
    omega
  | @step t t' hprev hbody ih =>
    have hmove := r.timeOfDay.body_move (Schedule.deadline home after) t
    rw [hbody] at hmove
    cases hmove with
    | month _ hmonth => exact absurd (r.onDay t).month (by rw [hmonth]; decide)
    | day _ _ hday => exact absurd (r.onDay t).day (by rw [hday]; decide)
    | hour =>
      simp only [Schedule.startOfHour]
      omega
    | minute => omega

/-- A gap that ends with a minute of the hour of the schedule is too short to reach that hour of
the next day. -/
theorem not_skipsMinute_of_hour (hwhole : (t + offset) % 60 = 0)
    (hhour : r.timeOfDay.hour.set.contains (hour (wall r.zone t)) = true) :
    ¬r.timeOfDay.SkipsMinute (t + 60) := by
  intro hskips
  have hmod := skipsMinute_mod hz hskips
  obtain ⟨w, hw, hsched, hlo, hhi⟩ := hskips
  have hsame := hz.eq_of_le (t := t) (u := t + 60 - 1) (by omega) (by omega)
  have hshort := hz.short (t + 60)
  have hzone := hz.whole t
  have hreading := (scheduled_iff_reading hw).1 hsched
  obtain ⟨hm, hm'⟩ := r.bounded.minute
  obtain ⟨hh, hh'⟩ := r.bounded.hour
  rw [loc_timeOfDay] at hlo hhi
  rw [timeOfDay_eq] at hhour
  simp only [daily, weekly, only, contains_iff_mem, mem_singleton, hour, wall] at hhour
  simp only [reading] at hreading
  omega

theorem clear_of_onTheHour (hwhole : (t + offset) % 60 = 0) : r.timeOfDay.Clear t := by
  have hzone := hz.whole t
  have hstart : r.timeOfDay.startOfHour t + offset = (t + offset) / 3600 * 3600 := by
    simp only [Schedule.startOfHour, loc_timeOfDay, minute, wall]
    omega
  have hsame : ∀ {u v}, r.timeOfDay.startOfHour t ≤ u → u ≤ v →
      v < r.timeOfDay.startOfHour t + 3600 → r.zone v = r.zone u :=
    fun hle hle' hlt => hz.eq_of_le hle' (by omega)
  refine ⟨fun hhour u hle hlt => ?_, fun _ u hlt hlt' hskips => ?_, fun _ _ => ⟨?_, ?_⟩,
    fun _ _ _ => ⟨?_, ?_, ?_⟩, fun hhour _ => ⟨fun u hlt hlt' hdue => ?_, fun hskips => ?_⟩⟩
  · rw [loc_timeOfDay] at hhour ⊢
    have hhours : hour (wall r.zone u) = hour (wall r.zone t) := by
      apply hour_congr
      simp only [wall, hsame (by omega) hle hlt]
      omega
    rw [hhours]
    exact hhour
  · have := skipsMinute_mod hz hskips
    omega
  · rw [loc_timeOfDay, Int.add_sub_cancel]
    exact (hsame (Int.le_refl _) (by omega) (by omega)).symm
  · have := hz.whole (r.timeOfDay.startOfHour t + 3600)
    simp only [loc_timeOfDay, wall]
    omega
  · simp only [loc_timeOfDay, wall]
    omega
  · rw [loc_timeOfDay, hsame (Int.le_refl _) (by omega : _ ≤ t) (by omega)]
  · rw [loc_timeOfDay, hsame (by omega : _ ≤ t) (by omega) (by omega)]
  · have := due_mod hz hdue
    omega
  · rw [loc_timeOfDay] at hhour
    exact absurd hskips (not_skipsMinute_of_hour hz hwhole hhour)

/-- A call that begins in the minute after its argument, and not at the end of a gap. -/
theorem callClear_of_onTheHour (home : Zone)
    (hstart : r.timeOfDay.start after = minuteOf (Time.seconds after + offset) - offset + 60)
    (hlands : ¬r.timeOfDay.SkipsMinute (r.timeOfDay.start after)) :
    r.timeOfDay.CallClear home after := by
  refine ⟨?_, fun u hafter hlt hdue => ?_, fun hskips => absurd hskips hlands,
    fun t ht => clear_of_onTheHour hz (visits_mod hz ht)⟩
  · rw [Schedule.Resumes, hstart]
    simp only [minuteOf, Time.seconds, Time.second]
    omega
  have := due_mod hz hdue
  rw [hstart] at hlt
  simp only [minuteOf, Time.seconds, Time.second] at hafter hlt
  omega

end OnTheHour

/-! ### One offset -/

section Fixed

variable {offset : ℤ}

variable (hzone : r.zone = fun _ => offset)
include hzone

theorem not_skips_of_fixed : ¬Skips r.timeOfDay.loc t w := by
  rw [loc_timeOfDay, hzone]
  simp only [Skips]
  omega

theorem due_iff_of_fixed {u : ℤ} : r.timeOfDay.Due u ↔ ∃ d, u = r.reading d - offset := by
  constructor
  · rintro (hregular | ⟨w, -, -, hskips⟩)
    · have hcanonical := hregular.canonical
      have hsched := hregular.scheduled
      rw [Schedule.canonical_eq, loc_timeOfDay, hzone] at hcanonical
      rw [← Schedule.scheduled_minuteOf, scheduled_iff_reading (minuteOf_mod _),
        loc_timeOfDay, hzone] at hsched
      refine ⟨minuteOf (wall (fun _ => offset) u) / 86400, ?_⟩
      rw [← hsched]
      exact hcanonical
    · exact absurd hskips (not_skips_of_fixed hzone)
  · rintro ⟨d, rfl⟩
    have hmod := r.reading_mod d
    have hwall : minuteOf (wall (fun _ => offset) (r.reading d - offset)) = r.reading d := by
      simp only [wall, minuteOf]
      omega
    refine .inl ⟨?_, ?_⟩
    · rw [Schedule.canonical_eq, loc_timeOfDay, hzone, hwall]
      rfl
    · rw [← Schedule.scheduled_minuteOf, loc_timeOfDay, hzone, hwall]
      exact r.scheduled_reading d

theorem callClear_of_fixed (home : Zone) (after : ℤ) : r.timeOfDay.CallClear home after := by
  have hz : OnTheHour r.zone offset := by
    rw [hzone]
    constructor <;> simp
  refine callClear_of_onTheHour hz home ?_ fun ⟨_, _, _, hskips⟩ => not_skips_of_fixed hzone hskips
  simp [Schedule.start, Schedule.canonical_eq, loc_timeOfDay, hzone, date, wall]

theorem attributed_of_fixed (t : ℤ) : r.Attributed t := by
  rintro d ⟨-, -, ⟨ht, -⟩ | ⟨u, -, hskips⟩⟩
  · rw [ht, loc_timeOfDay, seconds_mul, firesOn, hzone]
    simp [wall, date]
  · exact absurd hskips (not_skips_of_fixed hzone)

omit hzone in
theorem lt_deadline_of_fixed (offset t : ℤ) :
    t + 86400 * Time.second ≤ Schedule.deadline (fun _ => offset) t := by
  have hmonth : ∀ (l l' : Bool) (m : ℕ),
      Calendar.daysBeforeMonth l m ≤ Calendar.daysBeforeMonth l' m + 1 := by
    intro l l' m
    simp only [Calendar.daysBeforeMonth]
    split_ifs <;> omega
  generalize hw : wall (fun _ => offset) (Time.seconds t) = w
  have hdays : days (year w) (month w) (day w) + 2 ≤
      days (year w + 8) (month w + 0) (day w + 0) := by
    have hle := hmonth (Calendar.isLeap (year w + ((month w : ℤ) - 1) / 12))
      (Calendar.isLeap (year w + 8 + ((month w : ℤ) - 1) / 12))
      ((((month w : ℤ) - 1) % 12).toNat + 1)
    simp only [days, Int.add_zero, Calendar.daysBeforeYear]
    omega
  rw [days_civil] at hdays
  simp only [Schedule.deadline, AddDate, hw, Date, date, unix]
  simp only [wall] at hw
  simp only [hour, minute, sec, Time.seconds, Time.second] at hw ⊢
  omega

theorem followed_of_fixed {d : ℤ} : r.Followed ((r.reading d - offset) * Time.second) := by
  refine ⟨r.reading (d + 1) - offset, (due_iff_of_fixed hzone).2 ⟨d + 1, rfl⟩, ?_, ?_⟩
  · simp only [reading, Time.second]
    omega
  have := lt_deadline_of_fixed offset ((r.reading d - offset) * Time.second)
  rw [hzone]
  simp only [reading, Time.second] at this ⊢
  omega

/-- **In a zone with one offset every call is in clear conditions.** -/
theorem nextClear_of_fixed (home : Zone) (hzero : 0 ≤ after) : r.NextClear home after := by
  have hnext : ∀ home after, r.timeOfDay.nextTime home after ≠ 0 →
      r.Followed (r.timeOfDay.nextTime home after) := by
    intro home after hne
    rcases (callClear_of_fixed hzone home after).returns r.onDay
      (r.returns_timeOfDay home after) with ⟨h0, -⟩ | ⟨x, hx, hdue, -, -⟩
    · exact absurd h0 hne
    obtain ⟨d, rfl⟩ := (due_iff_of_fixed hzone).1 hdue
    rw [hx]
    exact followed_of_fixed hzone
  refine ⟨fun _ => hzero, callClear_of_fixed hzone home after,
    fun t _ _ => attributed_of_fixed hzone t, fun t ht hne _ _ => ?_⟩
  refine ⟨callClear_of_fixed hzone r.zone t, ?_⟩
  cases ht with
  | refl => exact hnext _ _ hne
  | step _ hbody =>
    obtain ⟨-, -, -, rfl⟩ := body_eq_inl hbody
    exact hnext _ _ hne

end Fixed

/-! ### New York -/

theorem onTheHour_newYork : OnTheHour newYork 0 := by
  have hmarch : unix 2024 3 10 7 0 0 % 3600 = 0 := by decide +kernel
  have hnovember : unix 2024 11 3 6 0 0 % 3600 = 0 := by decide +kernel
  constructor <;> intro t <;> simp only [newYork] <;> split_ifs <;> omega

theorem resolves_of_newYork (hzone : r.zone = newYork) : r.Resolves := by
  refine ⟨fun t d hshown => ?_, Schedule.skippedOnce_newYork (r.loc_timeOfDay.trans hzone)⟩
  have hmod := r.reading_mod d
  have hmarch : unix 2024 3 10 7 0 0 % 3600 = 0 := by decide +kernel
  have hlong : unix 2024 3 10 7 0 0 + 18000 < unix 2024 11 3 6 0 0 := by decide +kernel
  generalize r.reading d = w at hshown hmod
  rw [hzone] at hshown ⊢
  simp only [minuteOf, wall, date, newYork] at hshown ⊢
  split_ifs at hshown ⊢ <;> omega

/-- The gap begins and ends on one day. -/
theorem attributed_of_newYork (hzone : r.zone = newYork) (hfreq : r.freq = .weekly) (t : ℤ) :
    r.Attributed t := by
  rintro d ⟨-, -, hd⟩
  rw [loc_timeOfDay, hzone] at hd
  have hreading := r.reading_div d
  have hday : wall newYork (Time.seconds t) / 86400 = d := by
    obtain ⟨rfl, hshown⟩ | ⟨u, rfl, hskips⟩ := hd
    · rw [seconds_mul, ← days_minuteOf, hshown, hreading]
    obtain rfl := Schedule.skips_newYork hskips
    have hgap : 86400 * days 2024 3 10 + 7200 ≤ r.reading d ∧
        r.reading d < 86400 * days 2024 3 10 + 10800 := hskips
    have hwall : wall newYork (unix 2024 3 10 7 0 0) / 86400 = days 2024 3 10 := by
      decide +kernel
    rw [seconds_mul]
    omega
  rw [Bool.eq_iff_iff, firesOn, dateFires_weekly hfreq, dateFires_weekly hfreq, hreading, hzone,
    hday]

theorem followed_of_nextTime (h : r.timeOfDay.CallClear r.zone t) (hzero : 0 ≤ t)
    (hne : r.timeOfDay.nextTime r.zone t ≠ 0)
    (hle : r.timeOfDay.nextTime r.zone t ≤ Schedule.deadline r.zone t) : r.Followed t := by
  obtain ⟨h0, -⟩ | ⟨-, hlt, x, hx, hdue, -⟩ := nextTime_spec h fun _ => hzero
  · exact absurd h0 hne
  rw [hx] at hlt hle
  exact ⟨x, hdue, hlt, hle⟩

/-- Sundays and Mondays at `02:30`. -/
def earlyDays : Recurrence where
  freq := .weekly
  interval := 1
  weekdays := [0, 1]
  hour := 2
  minute := 30
  anchor := unixEpoch
  loc := some newYork
  zone := newYork
  timeOfDay := daily newYork 30 2
  loc_eq := rfl
  checked := rfl
  parsed := parse_daily newYork (by decide) (by decide)
  anchored := unixEpoch_ne_zero

/-- The firings of the time of day that a call comes to. -/
def earlyDaysTrail (home : Zone) (after : ℤ) : List ℤ :=
  Loop.trail (earlyDays.body (Schedule.deadline home after)) 2
    (earlyDays.timeOfDay.nextTime home after)

theorem nextClear_earlyDays (hreturns : earlyDays.next home after 2 = some x)
    (hall : ∀ t ∈ after :: earlyDaysTrail home after,
      0 ≤ t ∧ earlyDays.timeOfDay.start t = minuteOf (Time.seconds t + 0) - 0 + 60 ∧
        earlyDays.timeOfDay.start t ≠ unix 2024 3 10 7 0 0 ∧
        earlyDays.timeOfDay.nextTime newYork t ≠ 0 ∧
        earlyDays.timeOfDay.nextTime newYork t ≤ Schedule.deadline newYork t) :
    earlyDays.NextClear home after := by
  have hcall : ∀ t ∈ after :: earlyDaysTrail home after, ∀ home',
      earlyDays.timeOfDay.CallClear home' t := by
    intro t ht home'
    obtain ⟨-, hstart, hne, -, -⟩ := hall t ht
    exact callClear_of_onTheHour onTheHour_newYork home' hstart
      fun ⟨_, _, _, hskips⟩ => hne (Schedule.skips_newYork hskips)
  refine ⟨fun _ => (hall _ mem_cons_self).1, hcall _ mem_cons_self home,
    fun t _ _ => attributed_of_newYork rfl rfl t, fun t ht _ _ _ => ?_⟩
  have hmem := mem_cons_of_mem after (Loop.mem_trail hreturns ht)
  obtain ⟨hzero, -, -, hne, hle⟩ := hall t hmem
  exact ⟨hcall t hmem _, followed_of_nextTime (hcall t hmem _) hzero hne hle⟩

/-- From a Friday over the Sunday on which `02:30` is jumped over to the Monday. -/
theorem oneFiring_of_nextClear_earlyDays :
    newRecurrence earlyDays.toRule = .ok earlyDays ∧ earlyDays.Resolves ∧
    earlyDays.Runs earlyDays.NextClear utc fridayNoon
      [instant 2024 3 10 7 0, instant 2024 3 11 6 30] (instant 2024 3 11 6 30) ∧
    earlyDays.OneFiring fridayNoon
      [instant 2024 3 10 7 0, instant 2024 3 11 6 30] (instant 2024 3 11 6 30) := by
  have hsunday : earlyDays.next utc fridayNoon 2 = some (instant 2024 3 10 7 0) := by
    decide +kernel
  have hmonday : earlyDays.next newYork (instant 2024 3 10 7 0) 2 =
      some (instant 2024 3 11 6 30) := by
    decide +kernel
  have hruns : earlyDays.Runs earlyDays.NextClear utc fridayNoon
      [instant 2024 3 10 7 0, instant 2024 3 11 6 30] (instant 2024 3 11 6 30) :=
    .fired (nextClear_earlyDays hsunday (by decide +kernel)) ⟨_, hsunday⟩ (by decide +kernel)
      (.fired (nextClear_earlyDays hmonday (by decide +kernel)) ⟨_, hmonday⟩ (by decide +kernel)
        (.here _ _))
  exact ⟨newRecurrence_toRule _, resolves_of_newYork rfl, hruns,
    (oneFiring_of_nextClear earlyDays utc _ (resolves_of_newYork rfl)).2 _ _ hruns⟩

/-! ## A gap at midnight -/

/-- `America/Nuuk` in March 2024, where the clock jumps over the last hour of Saturday the
30th. -/
def nuuk : Zone := fun t => if t < Zone.unix 2024 3 31 1 0 0 then -7200 else -3600

/-- Sundays at `23:30` there. -/
def lateSundays : Recurrence where
  freq := .weekly
  interval := 1
  weekdays := [0]
  hour := 23
  minute := 30
  anchor := unixEpoch
  loc := some nuuk
  zone := nuuk
  timeOfDay := daily nuuk 30 23
  loc_eq := rfl
  checked := rfl
  parsed := parse_daily nuuk (by decide) (by decide)
  anchored := unixEpoch_ne_zero

/-- **A firing that belongs to Saturday passes for one of Sunday**: `23:30` on Saturday is made
up for at midnight, which is on a Sunday. -/
theorem not_oneFiring_lateSundays : newRecurrence lateSundays.toRule = .ok lateSundays ∧
    lateSundays.Runs (fun _ _ => True) utc (instant 2024 3 30 12 0) [instant 2024 3 31 1 0]
      (instant 2024 3 31 1 0) ∧
    ¬lateSundays.OneFiring (instant 2024 3 30 12 0) [instant 2024 3 31 1 0]
      (instant 2024 3 31 1 0) := by
  have hreturns : lateSundays.Returns utc (instant 2024 3 30 12 0) (instant 2024 3 31 1 0) :=
    ⟨1, by decide +kernel⟩
  refine ⟨newRecurrence_toRule _, .fired trivial hreturns (by decide +kernel) (.here _ _), ?_⟩
  rintro ⟨hsound, -, -⟩
  have hstop : ∀ t, instant 2024 3 31 1 0 = t * Time.second → t = unix 2024 3 31 1 0 0 := by
    intro t ht
    simp only [instant, Time.second] at ht
    omega
  obtain ⟨d, hfires, -, -, ⟨hx, hshown⟩ | ⟨t, ht, hskips⟩⟩ :=
    hsound _ (mem_singleton_self _)
  · rw [hstop _ hx] at hshown
    have hmidnight : minuteOf (wall nuuk (unix 2024 3 31 1 0 0)) % 86400 = 0 := by
      decide +kernel
    have hreading : lateSundays.reading d = 86400 * d + 84600 := by
      simp only [reading, lateSundays]
      omega
    have hshown : minuteOf (wall nuuk (unix 2024 3 31 1 0 0)) =
        86400 * d + 84600 := hshown.trans hreading
    omega
  · rw [hstop _ ht] at hskips
    have hlo : unix 2024 3 31 1 0 0 + nuuk (unix 2024 3 31 1 0 0 - 1) =
        86400 * days 2024 3 30 + 82800 := by decide +kernel
    have hhi : unix 2024 3 31 1 0 0 + nuuk (unix 2024 3 31 1 0 0) =
        86400 * days 2024 3 30 + 86400 := by decide +kernel
    have hskips : 86400 * days 2024 3 30 + 82800 ≤ lateSundays.reading d ∧
        lateSundays.reading d < 86400 * days 2024 3 30 + 86400 := by
      rw [← hlo, ← hhi]
      exact hskips
    have hsaturday : d = days 2024 3 30 := by
      simp only [reading, lateSundays] at hskips
      omega
    rw [hsaturday] at hfires
    exact absurd hfires (by decide +kernel)

end AnimeFeedFlux.Cron.Recurrence
