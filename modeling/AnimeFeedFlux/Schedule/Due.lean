import AnimeFeedFlux.Schedule.Gaps

/-!
# Searches that miss nothing

For a schedule of every day the search takes hour steps and minute steps only.  An instant is
due if the schedule fires there: at a minute of its own, or at the end of a gap over one.  A
search in clear conditions passes over no such instant and returns the first.
-/

namespace AnimeFeedFlux.Cron.Schedule

/-- The schedule is to fire at `u`. -/
def Due (s : Schedule) (u : ℤ) : Prop := s.Regular u ∨ s.SkipsMinute u

/-- What the iteration at `t` takes for granted.  An hour step: the whole of the hour ahead is
outside the schedule, no gap ends inside it, and one that ends with it is seen and is the only
one that is.  A minute step: nothing is due inside the minute, and no gap ends with it. -/
structure Clear (s : Schedule) (t : ℤ) : Prop where
  outside : s.hour.set.contains (Zone.hour (Zone.wall s.loc t)) = false →
    ∀ u, t ≤ u → u < s.startOfHour t + 3600 →
      s.hour.set.contains (Zone.hour (Zone.wall s.loc u)) = false
  unbroken : s.hour.set.contains (Zone.hour (Zone.wall s.loc t)) = false →
    ∀ u, t < u → u < s.startOfHour t + 3600 → ¬s.SkipsMinute u
  seen : s.hour.set.contains (Zone.hour (Zone.wall s.loc t)) = false →
    s.SkipsMinute (s.startOfHour t + 3600) → s.EndsHour (s.startOfHour t + 3600)
  wholeHour : s.WholeHour t
  minute : s.hour.set.contains (Zone.hour (Zone.wall s.loc t)) = true → ¬s.Regular t →
    (∀ u, t < u → u < t + 60 → ¬s.Due u) ∧ (s.SkipsMinute (t + 60) → s.Regular (t + 60))

/-- A call in clear conditions: nothing is due between its argument and its first candidate,
and every iteration finds what it takes for granted. -/
structure CallClear (s : Schedule) (home : Zone) (after : ℤ) : Prop where
  resumes : s.Resumes after
  nothing : ∀ u, after < u * Time.second → u < s.start after → ¬s.Due u
  lands : s.SkipsMinute (s.start after) → s.Regular (s.start after)
  clear : ∀ t, s.Visits home after t → s.Clear t

/-- Nothing due lies between `after` and `t`, and `t` is due only as a minute of its own. -/
structure Front (s : Schedule) (after t : ℤ) : Prop where
  later : after < t * Time.second
  nothing : ∀ u, after < u * Time.second → u < t → ¬s.Due u
  regular : s.SkipsMinute t → s.Regular t

variable {s : Schedule} {home : Zone} {after t : ℤ}

theorem Front.hour (h : s.Front after t) (hclear : s.Clear t)
    (hhour : s.hour.set.contains (Zone.hour (Zone.wall s.loc t)) = false) :
    ∀ u, after < u * Time.second → u < s.startOfHour t + 3600 → ¬s.Due u := by
  intro u hafter hlt hdue
  have hregular : t ≤ u → ¬s.Regular u := by
    intro hle hreg
    exact Bool.false_ne_true ((hclear.outside hhour u hle hlt).symm.trans hreg.onDay.2)
  rcases Int.lt_trichotomy u t with hu | rfl | hu
  · exact h.nothing u hafter hu hdue
  · exact hregular (Int.le_refl _) (hdue.elim id h.regular)
  · exact hdue.elim (hregular (Int.le_of_lt hu)) (hclear.unbroken hhour u hu hlt)

theorem Front.minute (h : s.Front after t) (hclear : s.Clear t)
    (hhour : s.hour.set.contains (Zone.hour (Zone.wall s.loc t))) (hnot : ¬s.Regular t) :
    ∀ u, after < u * Time.second → u < t + 60 → ¬s.Due u := by
  intro u hafter hlt hdue
  rcases Int.lt_trichotomy u t with hu | rfl | hu
  · exact h.nothing u hafter hu hdue
  · exact hnot (hdue.elim id h.regular)
  · exact (hclear.minute hhour hnot).1 u hu hlt hdue

/-- **The search stands before everything that is due.** -/
theorem CallClear.front (hdaily : ∀ t, s.OnDay t) (h : s.CallClear home after)
    (ht : s.Visits home after t) : s.Front after t := by
  induction ht with
  | refl => exact ⟨h.resumes, h.nothing, h.lands⟩
  | @step t t' hprev hbody ih =>
    have hclear := h.clear t hprev
    have hlater : ∀ {v : ℤ}, t < v → after < v * Time.second := by
      intro v hlt
      have := ih.later
      simp only [Time.second] at this ⊢
      omega
    have hmove := s.body_move (deadline home after) t
    rw [hbody] at hmove
    cases hmove with
    | month _ hmonth => exact absurd (hdaily t).month (by rw [hmonth]; decide)
    | day _ _ hday => exact absurd (hdaily t).day (by rw [hday]; decide)
    | hour _ _ hhour hgap =>
      refine ⟨hlater (s.lt_startOfHour t), ih.hour hclear hhour, fun hskips => ?_⟩
      have hfound := (hclear.seen hhour hskips).gapSkipped hskips
      rw [Int.add_sub_cancel, hgap] at hfound
      cases hfound
    | minute _ _ hhour hnot =>
      exact ⟨hlater (by omega), ih.minute hclear hhour hnot, (hclear.minute hhour hnot).2⟩

/-- **A call in clear conditions returns the first due instant after its argument**, or the
zero Time if none comes before its deadline. -/
theorem CallClear.returns (hdaily : ∀ t, s.OnDay t) (h : s.CallClear home after) {r : ℤ}
    (hr : s.Returns home after r) :
    (r = 0 ∧ ∀ u, s.Due u → after < u * Time.second → deadline home after < u * Time.second) ∨
    ∃ x, r = x * Time.second ∧ s.Due x ∧ after < x * Time.second ∧
      ∀ u, s.Due u → after < u * Time.second → x ≤ u := by
  obtain ⟨t, ht, hbody⟩ := Loop.returns_iff.1 hr
  have hfront := h.front hdaily ht
  have hmove := s.body_move (deadline home after) t
  rw [hbody] at hmove
  cases hmove with
  | giveUp hlate =>
    refine .inl ⟨rfl, fun u hdue hafter => ?_⟩
    have hle : t ≤ u := Int.not_lt.1 fun hlt => hfront.nothing u hafter hlt hdue
    simp only [Time.second] at hlate ⊢
    omega
  | gap _ hon hhour hgap =>
    have hclear := h.clear t ht
    refine .inr ⟨_, rfl, .inr (hclear.wholeHour.skipsMinute hon hhour hgap), ?_, ?_⟩
    · have := s.lt_startOfHour t
      have := hfront.later
      simp only [Time.second] at this ⊢
      omega
    · intro u hdue hafter
      exact Int.not_lt.1 fun hlt => hfront.hour hclear hhour u hafter hlt hdue
  | fire _ hregular =>
    refine .inr ⟨t, rfl, .inl hregular, hfront.later, ?_⟩
    intro u hdue hafter
    exact Int.not_lt.1 fun hlt => hfront.nothing u hafter hlt hdue

end AnimeFeedFlux.Cron.Schedule
