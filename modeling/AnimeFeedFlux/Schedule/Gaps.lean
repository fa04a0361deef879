import AnimeFeedFlux.Schedule.Search

/-!
# Firings around a transition

A transition that moves the clock forward jumps over readings.  The schedule may name one of
them, and the promise is one firing, at the instant the gap ends.  `Next` looks for a gap when
it steps over an hour outside the schedule, and only then: a step by a minute and a skip to a
midnight cross the transition without looking.  The hour is one of real time, so a transition
inside it is reported at the end of the hour, and the minutes around the gap count as part of
it.
-/

namespace AnimeFeedFlux.Cron.Schedule

open List

/-! ## Coming to a transition -/

section
variable (s : Schedule) (stop t : ℤ) (home : Zone) (after : ℤ)

/-- The transition at `stop` jumps over a minute of the schedule. -/
def SkipsMinute : Prop :=
  ∃ w, w % 60 = 0 ∧ s.scheduled w = true ∧ Zone.Skips s.loc stop w

/-- A step to `t` does not lead past `stop`, and to `stop` only if the schedule fires there
anyway. -/
def Lands : Prop := t ≤ stop ∧ (t = stop → s.Regular stop)
deriving Decidable

/-- The offset before the hour that ends at `stop` is the one before `stop`, and the clock
shows a whole minute at `stop`. -/
def EndsHour : Prop :=
  s.loc (stop - 3600) = s.loc (stop - 1) ∧ Zone.wall s.loc stop % 60 = 0
deriving Decidable

/-- The iteration at `t` does not lose the gap that ends at `stop`: a skip leads forward, no
step leads past `stop`, and what leads to `stop` is an hour that ends there, unless the
schedule fires at `stop` anyway. -/
structure Approaches : Prop where
  month : s.month.set.contains (Zone.month (Zone.wall s.loc t)) = false →
    t < s.nextMonth t ∧ s.Lands stop (s.nextMonth t)
  day : s.month.set.contains (Zone.month (Zone.wall s.loc t)) = true →
    s.dayMatches (Zone.wall s.loc t) = false → t < s.nextDay t ∧ s.Lands stop (s.nextDay t)
  hour : s.OnDay t → s.hour.set.contains (Zone.hour (Zone.wall s.loc t)) = false →
    s.startOfHour t + 3600 = stop ∧ s.EndsHour stop ∨ s.Lands stop (s.startOfHour t + 3600)
  minute : s.OnDay t → s.hour.set.contains (Zone.hour (Zone.wall s.loc t)) = true →
    ¬s.Regular t → s.Lands stop (t + 60)

instance : Decidable (s.Approaches stop t) :=
  decidable_of_iff (_ ∧ _ ∧ _ ∧ _)
    ⟨fun h => ⟨h.1, h.2.1, h.2.2.1, h.2.2.2⟩, fun h => ⟨h.month, h.day, h.hour, h.minute⟩⟩

/-- A call before `stop` that does not lose the gap: it begins after its argument, and neither
gives up before `stop` nor passes it. -/
structure CallApproaches : Prop where
  resumes : s.Resumes after
  start : s.Lands stop (s.start after)
  inTime : ∀ t, s.Visits home after t → t ≤ stop → t * Time.second ≤ deadline home after
  approaches : ∀ t, s.Visits home after t → t < stop → s.Approaches stop t

/-- The calls made before `stop` when `Next` is iterated from `after`. -/
inductive CalledBefore (s : Schedule) (stop : ℤ) (home : Zone) (after : ℤ) : Zone → ℤ → Prop
  | first : CalledBefore s stop home after home after
  | again {home' : Zone} {after' r : ℤ} (h : CalledBefore s stop home after home' after')
      (hr : s.Returns home' after' r) (hbefore : r < stop * Time.second) :
      CalledBefore s stop home after s.loc r

end

variable {s : Schedule}

theorem EndsHour.gapSkipped {stop : ℤ} (h : s.EndsHour stop) (hskips : s.SkipsMinute stop) :
    s.gapSkippedAScheduledHour (stop - 3600) stop := by
  obtain ⟨w, hw, hsched, hlo, hhi⟩ := hskips
  have hstart : s.nominal (stop - 3600) = Zone.minuteOf (stop + s.loc (stop - 1)) - 3600 := by
    rw [nominal_eq, Zone.wall, h.1, Zone.minuteOf, Zone.minuteOf]
    omega
  have hstop : s.nominal stop = stop + s.loc stop := by
    rw [nominal_eq, Zone.minuteOf_of_mod h.2, Zone.wall]
  have hfloor : Zone.minuteOf (stop + s.loc (stop - 1)) ≤ stop + s.loc (stop - 1) := by
    rw [Zone.minuteOf]
    omega
  rw [gapSkipped_iff, hstart, hstop]
  exact ⟨by omega, w, hw, by omega, by omega, hsched⟩

variable {t : ℤ}

theorem Regular.onDay (h : s.Regular t) :
    s.OnDay t ∧ s.hour.set.contains (Zone.hour (Zone.wall s.loc t)) := by
  obtain ⟨-, hhour, hmonth, hday⟩ := scheduled_iff.1 h.scheduled
  exact ⟨⟨hmonth, hday⟩, hhour⟩

variable {home : Zone} {after : ℤ}

/-- From any instant it comes to, the search returns at `stop` at the latest. -/
theorem CallApproaches.returns_of_visits {stop : ℤ} (h : s.CallApproaches stop home after)
    (hskips : s.SkipsMinute stop) (n : ℕ) :
    ∀ t, (stop - t).toNat = n → s.Visits home after t → s.Lands stop t → after < t * Time.second →
      ∃ r, s.Returns home after r ∧ after < r ∧ r ≤ stop * Time.second := by
  induction n using Nat.strong_induction_on with
  | _ n ih =>
    intro t hn hvisits hlands hafter
    have hinTime := h.inTime t hvisits hlands.1
    -- A step that does not return leads on to an instant nearer to `stop`.
    have hgo : ∀ t', s.body (deadline home after) t = .inl t' → t < t' → s.Lands stop t' →
        ∃ r, s.Returns home after r ∧ after < r ∧ r ≤ stop * Time.second := by
      intro t' hbody hlt hlands'
      have hle := hlands'.1
      refine ih (stop - t').toNat (by omega) t' rfl (.step hvisits hbody) hlands' ?_
      simp only [Time.second] at hafter ⊢
      omega
    have hbefore : ¬s.Regular t → t < stop := by
      intro hnot
      rcases hlands.1.lt_or_eq with hlt | rfl
      · exact hlt
      · exact absurd (hlands.2 rfl) hnot
    have hmove := s.body_move (deadline home after) t
    cases hbody : s.body (deadline home after) t with
    | inl t' =>
      rw [hbody] at hmove
      cases hmove with
      | month htime hmonth =>
        have hlt := hbefore fun hreg =>
          Bool.false_ne_true (hmonth.symm.trans hreg.onDay.1.month)
        obtain ⟨hforward, hl⟩ := (h.approaches t hvisits hlt).month hmonth
        exact hgo _ hbody hforward hl
      | day htime hmonth hday =>
        have hlt := hbefore fun hreg =>
          Bool.false_ne_true (hday.symm.trans hreg.onDay.1.day)
        obtain ⟨hforward, hl⟩ := (h.approaches t hvisits hlt).day hmonth hday
        exact hgo _ hbody hforward hl
      | hour htime hon hhour hgap =>
        have hlt := hbefore fun hreg =>
          Bool.false_ne_true (hhour.symm.trans hreg.onDay.2)
        rcases (h.approaches t hvisits hlt).hour hon hhour with ⟨hend, hends⟩ | hl
        · have hfound := hends.gapSkipped hskips
          have hstart : s.startOfHour t = stop - 3600 := by omega
          rw [hend, hstart, hfound] at hgap
          cases hgap
        · exact hgo _ hbody (s.lt_startOfHour t) hl
      | minute htime hon hhour hnot =>
        have hl := (h.approaches t hvisits (hbefore hnot)).minute hon hhour hnot
        exact hgo _ hbody (by omega) hl
    | inr r =>
      refine ⟨r, Loop.returns_iff.2 ⟨t, hvisits, hbody⟩, ?_⟩
      rw [hbody] at hmove
      cases hmove with
      | giveUp hlate => omega
      | gap htime hon hhour hgap =>
        have hlt := hbefore fun hreg =>
          Bool.false_ne_true (hhour.symm.trans hreg.onDay.2)
        have hforward := s.lt_startOfHour t
        have hle : s.startOfHour t + 3600 ≤ stop := by
          rcases (h.approaches t hvisits hlt).hour hon hhour with ⟨hend, -⟩ | hl
          · exact hend.le
          · exact hl.1
        simp only [Time.second] at hafter ⊢
        omega
      | fire htime hregular =>
        have hle := hlands.1
        simp only [Time.second] at hafter ⊢
        omega

/-- **No minute of the schedule is lost to a transition** in a run whose calls before the
transition all come to it in an hour outside the schedule that ends there, or fire at its end
anyway. -/
theorem gapFires_of_approaches (s : Schedule) (home : Zone) (after stop : ℤ) (hzero : 0 ≤ after)
    (hskips : s.SkipsMinute stop) (hafter : after < stop * Time.second)
    (hcalls : ∀ home' after', s.CalledBefore stop home after home' after' →
      s.CallApproaches stop home' after') :
    ∃ rs, s.Firings home after rs ∧ stop * Time.second ∈ rs := by
  have hrun : ∀ (n : ℕ) (home' : Zone) (after' : ℤ), (stop * Time.second - after').toNat = n →
      0 ≤ after' → after' < stop * Time.second → s.CalledBefore stop home after home' after' →
      ∃ rs, s.Firings home' after' rs ∧ stop * Time.second ∈ rs := by
    intro n
    induction n using Nat.strong_induction_on with
    | _ n ih =>
      intro home' after' hn hzero' hafter' hcalled
      have hcall := hcalls home' after' hcalled
      obtain ⟨r, hr, hlt, hle⟩ :=
        hcall.returns_of_visits hskips _ _ rfl .refl hcall.start hcall.resumes
      have hne : r ≠ 0 := by omega
      rcases hle.lt_or_eq with hbefore | rfl
      · obtain ⟨rs, hrs, hmem⟩ := ih (stop * Time.second - r).toNat (by omega) s.loc r rfl
          (by omega) hbefore (.again hcalled hr hbefore)
        exact ⟨r :: rs, .cons hr hne hrs, mem_cons_of_mem r hmem⟩
      · exact ⟨_, .cons hr hne (.nil _ _), mem_singleton_self _⟩
  exact hrun _ home after rfl hzero hafter .first

/-- The clock of New York goes forward. -/
def springForward : ℤ := Zone.unix 2024 3 10 7 0 0

/-- The Sunday schedule comes to the transition of 10 March 2024 in the hour before it. -/
theorem gapFires_of_approaches_sundays : parse "30 2 * * 0" (some newYork) = .ok sundays ∧
    sundays.SkipsMinute springForward ∧
    (∀ home' after', sundays.CalledBefore springForward utc fridayNoon home' after' →
      sundays.CallApproaches springForward home' after') ∧
    ∃ rs, sundays.Firings utc fridayNoon rs ∧ springForward * Time.second ∈ rs := by
  have hskips : sundays.SkipsMinute springForward :=
    ⟨Zone.unix 2024 3 10 2 30 0, by decide +kernel, by decide +kernel, by decide +kernel⟩
  have hrun : sundays.next utc fridayNoon 5 = some (instant 2024 3 10 7 0) := by
    decide +kernel
  have hcall : sundays.CallApproaches springForward utc fridayNoon := by
    have hall : ∀ t ∈ Loop.trail (sundays.body (deadline utc fridayNoon)) 5
        (sundays.start fridayNoon), t * Time.second ≤ deadline utc fridayNoon ∧
          sundays.Approaches springForward t := by
      decide +kernel
    refine ⟨by decide +kernel, by decide +kernel, ?_, ?_⟩
    · intro t ht _
      exact (hall t (Loop.mem_trail hrun ht)).1
    · intro t ht _
      exact (hall t (Loop.mem_trail hrun ht)).2
  have hcalls : ∀ home' after', sundays.CalledBefore springForward utc fridayNoon home' after' →
      sundays.CallApproaches springForward home' after' := by
    have honly : ∀ home' after', sundays.CalledBefore springForward utc fridayNoon home' after' →
        home' = utc ∧ after' = fridayNoon := by
      intro home' after' hcalled
      induction hcalled with
      | first => exact ⟨rfl, rfl⟩
      | again _ hr hbefore ih =>
        obtain ⟨rfl, rfl⟩ := ih
        rw [hr.unique ⟨_, hrun⟩] at hbefore
        exact absurd hbefore (by decide +kernel)
    intro home' after' hcalled
    obtain ⟨rfl, rfl⟩ := honly home' after' hcalled
    exact hcall
  exact ⟨rfl, hskips, hcalls,
    gapFires_of_approaches _ _ _ _ (by decide +kernel) hskips (by decide +kernel) hcalls⟩

theorem regular_of_everyHour (hhours : ∀ h < 24, h ∈ s.hour.set) {rs : List ℤ}
    (hrs : s.Firings home after rs) : ∀ r ∈ rs, ∃ t, r = t * Time.second ∧ s.Regular t := by
  induction hrs with
  | nil => simp
  | @cons home after r rs hr hne hrs ih =>
    intro x hx
    rcases mem_cons.1 hx with rfl | hx
    · obtain ⟨t, -, hbody⟩ := Loop.returns_iff.1 hr
      have hmove := s.body_move (deadline home after) t
      rw [hbody] at hmove
      cases hmove with
      | giveUp => exact absurd rfl hne
      | gap htime hon hhour hgap =>
        rw [contains_iff_mem.2 (hhours _ (Zone.hour_lt _))] at hhour
        cases hhour
      | fire htime hregular => exact ⟨t, rfl, hregular⟩
    · exact ih x hx

/-- `30 * * * *` in New York. -/
def hourly : Schedule := weekly newYork "30 * * * *" (only 30) (star 0 23) (star 0 6)

/-- **An hourly schedule loses the hour that is jumped over**: `02:30` is a minute of the gap,
and no firing is at its end. -/
theorem not_gapFires_hourly : parse "30 * * * *" (some newYork) = .ok hourly ∧
    hourly.SkipsMinute springForward ∧
    instant 2024 3 10 6 0 < springForward * Time.second ∧
    ¬∃ rs, hourly.Firings utc (instant 2024 3 10 6 0) rs ∧ springForward * Time.second ∈ rs := by
  refine ⟨rfl, ?_, by decide +kernel, ?_⟩
  · exact ⟨Zone.unix 2024 3 10 2 30 0, by decide +kernel, by decide +kernel, by decide +kernel⟩
  rintro ⟨rs, hrs, hmem⟩
  obtain ⟨t, ht, hregular⟩ := regular_of_everyHour (by decide) hrs _ hmem
  have heq : t = springForward := by
    simp only [Time.second] at ht
    omega
  subst heq
  exact absurd hregular (by decide +kernel)

/-! ## Reasons for a firing -/

section
variable (s t home after)

/-- A minute of the schedule is a reason for a firing at `r`: `r` is the instant `time.Date`
gives for it, or the end of a gap that jumps over it. -/
def Accounts (w r : ℤ) : Prop :=
  w % 60 = 0 ∧ s.scheduled w = true ∧
    (r = Zone.date s.loc w * Time.second ∧ Zone.minuteOf (Zone.wall s.loc (Zone.date s.loc w)) = w ∨
      ∃ t, r = t * Time.second ∧ Zone.Skips s.loc t w)

/-- Every firing has a reason, and no two have one in common. -/
def Accounted (rs : List ℤ) : Prop :=
  (∀ r ∈ rs, ∃ w, s.Accounts w r) ∧ rs.Pairwise fun r r' => ∀ w, ¬(s.Accounts w r ∧ s.Accounts w r')

/-- An hour step that finds a gap at `t`: the clock shows a whole minute at `t`, and the offset
at both ends of the hour is the one at `t`. -/
def WholeHour : Prop :=
  s.OnDay t → s.hour.set.contains (Zone.hour (Zone.wall s.loc t)) = false →
    s.gapSkippedAScheduledHour (s.startOfHour t) (s.startOfHour t + 3600) = true →
    Zone.wall s.loc t % 60 = 0 ∧ s.loc (s.startOfHour t) = s.loc t ∧
      s.loc (s.startOfHour t + 3599) = s.loc t
deriving Decidable

/-- A minute of the schedule that a transition jumps over is jumped over by no other, and is
not shown at the instant `time.Date` gives for it. -/
def SkippedOnce : Prop :=
  ∀ w t, w % 60 = 0 → s.scheduled w = true → Zone.Skips s.loc t w →
    Zone.minuteOf (Zone.wall s.loc (Zone.date s.loc w)) ≠ w ∧
      ∀ t', Zone.Skips s.loc t' w → t' = t

/-- A call that advances and finds gaps in whole hours only. -/
structure CallAccounts : Prop where
  advances : s.Advances home after
  wholeHour : ∀ t, s.Visits home after t → s.WholeHour t

end

theorem Regular.accounts (h : s.Regular t) :
    s.Accounts (Zone.minuteOf (Zone.wall s.loc t)) (t * Time.second) := by
  have hdate : Zone.date s.loc (Zone.minuteOf (Zone.wall s.loc t)) = t := by
    rw [← canonical_eq]
    exact h.canonical.symm
  refine ⟨Zone.minuteOf_mod _, ?_, .inl ⟨by rw [hdate], by rw [hdate]⟩⟩
  rw [scheduled_minuteOf]
  exact h.scheduled

/-- A gap found in a whole hour is one over a minute of the schedule, at the end of the hour:
the other minutes between the two readings are of the hour itself, which is outside the
schedule. -/
theorem WholeHour.skipsMinute (h : s.WholeHour t) (hon : s.OnDay t)
    (hhour : s.hour.set.contains (Zone.hour (Zone.wall s.loc t)) = false)
    (hgap : s.gapSkippedAScheduledHour (s.startOfHour t) (s.startOfHour t + 3600)) :
    s.SkipsMinute (s.startOfHour t + 3600) := by
  obtain ⟨hwhole, hstart, hend⟩ := h hon hhour hgap
  obtain ⟨-, w, hw, hlo, hhi, hsched⟩ := gapSkipped_iff.1 hgap
  refine ⟨w, hw, hsched, ?_⟩
  have hbegin : s.startOfHour t + s.loc t = Zone.wall s.loc t - Zone.wall s.loc t % 3600 := by
    simp only [startOfHour, Zone.minute]
    simp only [Zone.wall] at hwhole ⊢
    omega
  have hnominal : s.nominal (s.startOfHour t) = s.startOfHour t + s.loc t := by
    rw [nominal_eq, Zone.wall, hstart, hbegin, Zone.minuteOf]
    omega
  have hlater : s.startOfHour t + s.loc t + 3600 ≤ w := by
    by_contra hlt
    have hsame : Zone.hour w = Zone.hour (Zone.wall s.loc t) := Zone.hour_congr (by omega)
    rw [← hsame, (scheduled_iff.1 hsched).2.1] at hhour
    cases hhour
  have hnext := Zone.minuteOf_le (Zone.wall s.loc (s.startOfHour t + 3600))
  rw [← nominal_eq, Zone.wall] at hnext
  have hlast : s.startOfHour t + 3600 - 1 = s.startOfHour t + 3599 := by omega
  rw [Zone.Skips, hlast, hend]
  exact ⟨by omega, by omega⟩

theorem SkipsMinute.accounts (h : s.SkipsMinute t) : ∃ w, s.Accounts w (t * Time.second) := by
  obtain ⟨w, hw, hsched, hskips⟩ := h
  exact ⟨w, hw, hsched, .inr ⟨t, rfl, hskips⟩⟩

theorem CallAccounts.accounts {r : ℤ} (h : s.CallAccounts home after) (hr : s.Returns home after r)
    (hne : r ≠ 0) : ∃ w, s.Accounts w r := by
  obtain ⟨t, ht, hbody⟩ := Loop.returns_iff.1 hr
  have hmove := s.body_move (deadline home after) t
  rw [hbody] at hmove
  cases hmove with
  | giveUp => exact absurd rfl hne
  | gap htime hon hhour hgap => exact ((h.wholeHour t ht).skipsMinute hon hhour hgap).accounts
  | fire htime hregular => exact ⟨_, hregular.accounts⟩

/-- Where a minute that is jumped over is so once and for all, a minute is the reason for one
instant. -/
theorem SkippedOnce.unique (h : s.SkippedOnce) {w r r' : ℤ} (hr : s.Accounts w r)
    (hr' : s.Accounts w r') : r = r' := by
  obtain ⟨hw, hsched, hr⟩ := hr
  obtain ⟨-, -, hr'⟩ := hr'
  rcases hr with ⟨rfl, hshown⟩ | ⟨t, rfl, hskips⟩ <;>
    rcases hr' with ⟨rfl, hshown'⟩ | ⟨t', rfl, hskips'⟩
  · rfl
  · exact absurd hshown (h w t' hw hsched hskips').1
  · exact absurd hshown' (h w t hw hsched hskips).1
  · rw [(h w t hw hsched hskips).2 t' hskips']

/-- **No spurious and no double firing**, over every run of calls that advance and find gaps in
whole hours only. -/
theorem accounted_of_wholeHour (s : Schedule) (home : Zone) (after : ℤ) (rs : List ℤ)
    (honce : s.SkippedOnce) (hrs : s.Firings home after rs)
    (hcalls : s.AlongCalls s.CallAccounts home after rs) : s.Accounted rs := by
  have hlt : (after :: rs).Pairwise (· < ·) :=
    hrs.increasing (hcalls.mono fun _ _ h => h.advances)
  refine ⟨?_, ?_⟩
  · clear hlt
    induction hrs with
    | nil => simp
    | cons hr hne hrs ih =>
      intro x hx
      rcases mem_cons.1 hx with rfl | hx
      · exact hcalls.1.accounts hr hne
      · exact ih hcalls.2 x hx
  · refine (pairwise_cons.1 hlt).2.imp fun hlt w hboth => ?_
    exact absurd (honce.unique hboth.1 hboth.2) hlt.ne

theorem skips_newYork {w : ℤ} (h : Zone.Skips newYork t w) : t = Zone.unix 2024 3 10 7 0 0 := by
  simp only [Zone.Skips, newYork] at h
  split_ifs at h <;> omega

/-- New York jumps over an hour once, and `time.Date` shows its minutes an hour early. -/
theorem skippedOnce_newYork (hloc : s.loc = newYork) : s.SkippedOnce := by
  intro w t hw _ hskips
  have hlong : Zone.unix 2024 3 10 7 0 0 + 18000 < Zone.unix 2024 11 3 6 0 0 := by decide +kernel
  rw [hloc] at hskips ⊢
  refine ⟨?_, fun t' ht' => (skips_newYork ht').trans (skips_newYork hskips).symm⟩
  obtain rfl := skips_newYork hskips
  simp only [Zone.Skips, newYork] at hskips
  have hdate : Zone.date newYork w = w + 14400 := by
    simp only [Zone.date, newYork]
    split_ifs at hskips ⊢ <;> omega
  have hwall : Zone.wall newYork (w + 14400) = w - 3600 := by
    simp only [Zone.wall, newYork]
    split_ifs at hskips ⊢ <;> omega
  rw [hdate, hwall]
  simp only [Zone.minuteOf]
  omega

theorem callAccounts_of_trail {n : ℕ} {r : ℤ} (hrun : s.next home after n = some r)
    (hresumes : s.Resumes after)
    (hall : ∀ t ∈ Loop.trail (s.body (deadline home after)) n (s.start after),
      s.Ahead t ∧ s.WholeHour t) : s.CallAccounts home after :=
  ⟨⟨hresumes, fun t ht => (hall t (Loop.mem_trail hrun ht)).1⟩,
    fun t ht => (hall t (Loop.mem_trail hrun ht)).2⟩

/-- When the Sunday schedule fires: at the end of the gap and on the next Sunday. -/
def twoSundays : List ℤ := [instant 2024 3 10 7 0, instant 2024 3 17 6 30]

/-- The Sunday schedule fires once for the Sunday of the transition and once for the next. -/
theorem accounted_of_wholeHour_sundays : parse "30 2 * * 0" (some newYork) = .ok sundays ∧
    sundays.Firings utc fridayNoon twoSundays ∧
    sundays.AlongCalls sundays.CallAccounts utc fridayNoon twoSundays ∧
    sundays.Accounted twoSundays := by
  have hfirst : sundays.next utc fridayNoon 5 = some (instant 2024 3 10 7 0) := by
    decide +kernel
  have hsecond : sundays.next newYork (instant 2024 3 10 7 0) 64 =
      some (instant 2024 3 17 6 30) := by
    decide +kernel
  have hrs : sundays.Firings utc fridayNoon twoSundays :=
    .cons ⟨_, hfirst⟩ (by decide) (.cons ⟨_, hsecond⟩ (by decide) (.nil _ _))
  have hcalls : sundays.AlongCalls sundays.CallAccounts utc fridayNoon twoSundays :=
    ⟨callAccounts_of_trail hfirst (by decide +kernel) (by decide +kernel),
      callAccounts_of_trail hsecond (by decide +kernel) (by decide +kernel), trivial⟩
  exact ⟨rfl, hrs, hcalls, accounted_of_wholeHour _ _ _ _ (skippedOnce_newYork rfl) hrs hcalls⟩

/-- `Pacific/Chatham` in September 2026: at `02:45` the clock moves to `03:45`. -/
def chatham : Zone := fun t => if t < Zone.unix 2026 9 26 14 0 0 then 45900 else 49500

/-- `50 3 * * *` there. -/
def afterGap : Schedule := weekly chatham "50 3 * * *" (only 50) (only 3) (star 0 6)

/-- **A minute that exists is taken for a skipped one**: `03:50` is five minutes after the gap,
and the search fires at `04:00` instead. -/
theorem not_accounted_afterGap : parse "50 3 * * *" (some chatham) = .ok afterGap ∧
    afterGap.Firings utc (instant 2026 9 26 12 0) [instant 2026 9 26 14 15] ∧
    ¬afterGap.Accounted [instant 2026 9 26 14 15] := by
  have hrun : afterGap.next utc (instant 2026 9 26 12 0) 3 = some (instant 2026 9 26 14 15) := by
    decide +kernel
  refine ⟨rfl, .cons ⟨_, hrun⟩ (by decide) (.nil _ _), ?_⟩
  have hstop : ∀ t, instant 2026 9 26 14 15 = t * Time.second →
      t = Zone.unix 2026 9 26 14 15 0 := by
    intro t ht
    simp only [instant, Time.second] at ht
    omega
  rintro ⟨hreason, -⟩
  obtain ⟨w, hw, hsched, ⟨hr, hshown⟩ | ⟨t, ht, hskips⟩⟩ := hreason _ (mem_singleton_self _)
  · rw [hstop _ hr] at hshown
    rw [← hshown] at hsched
    exact absurd hsched (by decide +kernel)
  rw [hstop _ ht] at hskips
  have hsame : afterGap.loc (Zone.unix 2026 9 26 14 15 0 - 1) =
      afterGap.loc (Zone.unix 2026 9 26 14 15 0) := by decide +kernel
  rw [Zone.Skips, hsame] at hskips
  omega

end AnimeFeedFlux.Cron.Schedule
