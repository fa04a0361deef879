import AnimeFeedFlux.Schedule.Occurrences

/-!
# Recurrences that never fire

`NewRecurrence` refuses rules that would never fire, one field at a time.  Whether a date ever
qualifies also depends on how the fields go together: every twelfth month from a February, on
the 30th, is no date at all.  And `Next` gives up eight years after its argument, so that a
rule whose dates are farther apart is one that does not fire either.
-/

namespace AnimeFeedFlux.Cron.Recurrence

open Zone

variable {r : Recurrence} {home : Zone} {after t x : ℤ}

/-- The firings of the time of day after `after`, one after the other, up to the deadline. -/
inductive Reaches (r : Recurrence) (home : Zone) (after : ℤ) : ℤ → Prop
  | first (hne : r.timeOfDay.nextTime home after ≠ 0)
      (hle : r.timeOfDay.nextTime home after ≤ Schedule.deadline home after) :
      Reaches r home after (r.timeOfDay.nextTime home after)
  | next {t : ℤ} (h : Reaches r home after t) (hne : r.timeOfDay.nextTime r.zone t ≠ 0)
      (hle : r.timeOfDay.nextTime r.zone t ≤ Schedule.deadline home after) :
      Reaches r home after (r.timeOfDay.nextTime r.zone t)

/-- `Next` returns an instant. -/
def Fires (r : Recurrence) (home : Zone) (after : ℤ) : Prop := ∃ x, r.Returns home after x ∧ x ≠ 0

theorem Reaches.inTime (h : r.Reaches home after t) : t ≠ 0 ∧ t ≤ Schedule.deadline home after := by
  cases h with
  | first hne hle => exact ⟨hne, hle⟩
  | next _ hne hle => exact ⟨hne, hle⟩

theorem body_of_fires (hne : t ≠ 0) {deadline : ℤ} (hle : t ≤ deadline)
    (hfires : r.dateFires (wall r.zone (Time.seconds t))) :
    r.body deadline t = .inr t := by
  rw [body, if_neg (by rw [not_or, Int.not_lt]; exact ⟨hne, hle⟩), if_pos hfires]

theorem body_of_not_fires (hne : t ≠ 0) {deadline : ℤ} (hle : t ≤ deadline)
    (hfires : r.dateFires (wall r.zone (Time.seconds t)) = false) :
    r.body deadline t = .inl (r.timeOfDay.nextTime r.zone t) := by
  rw [body, if_neg (by rw [not_or, Int.not_lt]; exact ⟨hne, hle⟩), if_neg (by rw [hfires]; decide)]

/-- The loop comes to every firing of the time of day, unless it has returned before. -/
theorem Reaches.visits (h : r.Reaches home after t) :
    r.Visits home after t ∨ r.Fires home after := by
  induction h with
  | first => exact .inl .refl
  | @next t h hne hle ih =>
    rcases ih with hvisits | hfires
    · obtain ⟨hne', hle'⟩ := h.inTime
      cases hdate : r.dateFires (wall r.zone (Time.seconds t)) with
      | true =>
        exact .inr ⟨t, Loop.returns_iff.2 ⟨t, hvisits, body_of_fires hne' hle' hdate⟩, hne'⟩
      | false => exact .inl (.step hvisits (body_of_not_fires hne' hle' hdate))
    · exact .inr hfires

theorem reaches_of_visits (h : r.Visits home after t) (hne : t ≠ 0)
    (hle : t ≤ Schedule.deadline home after) : r.Reaches home after t := by
  induction h with
  | refl => exact .first hne hle
  | step _ hbody ih =>
    obtain ⟨hne', hle', -, rfl⟩ := body_eq_inl hbody
    exact .next (ih hne' hle') hne hle

theorem fires_iff_reaches : r.Fires home after ↔ ∃ t, r.Reaches home after t ∧
      r.Qualifies (wall r.zone (Time.seconds t)) := by
  simp only [← dateFires_iff]
  constructor
  · rintro ⟨x, hx, hne⟩
    obtain ⟨t, ht, hbody⟩ := Loop.returns_iff.1 hx
    obtain ⟨rfl, -⟩ | ⟨rfl, -, hle, hfires⟩ := body_eq_inr hbody
    · exact absurd rfl hne
    · exact ⟨_, reaches_of_visits ht hne hle, hfires⟩
  · rintro ⟨t, ht, hfires⟩
    rcases ht.visits with hvisits | hreturned
    · obtain ⟨hne, hle⟩ := ht.inTime
      exact ⟨t, Loop.returns_iff.2 ⟨t, hvisits, body_of_fires hne hle hfires⟩, hne⟩
    · exact hreturned

theorem NextClear.fires_iff_dates (h : r.NextClear home after) :
    r.Fires home after ↔ ∃ d u, r.Qualifies (r.reading d) ∧ r.Represents (u * Time.second) d ∧
      r.timeOfDay.Due u ∧ after < u * Time.second ∧
      u * Time.second ≤ Schedule.deadline home after := by
  simp only [← dateFires_iff]
  constructor
  · rintro ⟨x, hx, hne⟩
    obtain ⟨hlt, hattributed, ⟨u, rfl, hu⟩, hfires, -⟩ := h.returns hx hne
    obtain ⟨d, hd⟩ := exists_represents hu
    refine ⟨d, u, (hattributed d hd).symm.trans hfires, hd, hu, hlt, ?_⟩
    obtain ⟨t, -, hbody⟩ := Loop.returns_iff.1 hx
    obtain ⟨hzero, -⟩ | ⟨rfl, -, hle, -⟩ := body_eq_inr hbody
    · exact absurd hzero hne
    · exact hle
  · rintro ⟨d, u, hfires, hd, hu, hafter, hle⟩
    obtain ⟨x, hx⟩ := h.ends
    refine ⟨x, hx, fun hzero => ?_⟩
    subst hzero
    obtain ⟨hattributed, hnot⟩ := h.gaveUp hx hu hafter hle
    have hsame := hattributed d hd
    rw [seconds_mul, hnot, firesOn, hfires] at hsame
    cases hsame

theorem fires_iff_of_fixed {offset : ℤ} (hzone : r.zone = fun _ => offset)
    (hzero : 0 ≤ after) : r.Fires home after ↔
      ∃ d, r.Qualifies (r.reading d) ∧ after < (r.reading d - offset) * Time.second ∧
        (r.reading d - offset) * Time.second ≤ Schedule.deadline home after := by
  rw [(nextClear_of_fixed hzone home hzero).fires_iff_dates]
  constructor
  · rintro ⟨d, u, hfires, ⟨-, -, ⟨hu, -⟩ | ⟨t, -, hskips⟩⟩, -, hafter, hle⟩
    · rw [loc_timeOfDay, hzone] at hu
      rw [hu] at hafter hle
      exact ⟨d, hfires, hafter, hle⟩
    · exact absurd hskips (not_skips_of_fixed hzone)
  · rintro ⟨d, hfires, hafter, hle⟩
    have hdue : r.timeOfDay.Due (r.reading d - offset) := (due_iff_of_fixed hzone).2 ⟨d, rfl⟩
    refine ⟨d, r.reading d - offset, hfires, ?_, hdue, hafter, hle⟩
    have hmod := r.reading_mod d
    refine ⟨hmod, r.scheduled_reading d, .inl ?_⟩
    rw [loc_timeOfDay, hzone]
    simp only [date, wall, minuteOf, true_and]
    omega

/-- **`Next` returns an instant iff within eight years the time of day comes on a date that
qualifies** by its day and by its distance from the anchor; in clear conditions, iff one of the
dates of these years does; and so in a zone with one offset. -/
theorem fires_iff (r : Recurrence) (home : Zone) (after : ℤ) :
    (r.Fires home after ↔ ∃ t, r.Reaches home after t ∧
      r.Qualifies (Zone.wall r.zone (Time.seconds t))) ∧
    (r.NextClear home after →
      (r.Fires home after ↔ ∃ d u, r.Qualifies (r.reading d) ∧ r.Represents (u * Time.second) d ∧
        r.timeOfDay.Due u ∧ after < u * Time.second ∧
        u * Time.second ≤ Schedule.deadline home after)) ∧
    ∀ offset, r.zone = (fun _ => offset) → 0 ≤ after →
      (r.Fires home after ↔ ∃ d, r.Qualifies (r.reading d) ∧
        after < (r.reading d - offset) * Time.second ∧
        (r.reading d - offset) * Time.second ≤ Schedule.deadline home after) :=
  ⟨fires_iff_reaches, NextClear.fires_iff_dates, fun _ => fires_iff_of_fixed⟩

/-- The 30th of every twelfth month, from February 2026 on, at `07:00` UTC. -/
def february30 : Recurrence where
  freq := .monthly
  interval := 12
  monthDay := 30
  hour := 7
  minute := 0
  anchor := instant 2026 2 1 0 0
  loc := some utc
  zone := utc
  timeOfDay := daily utc 0 7
  loc_eq := rfl
  checked := rfl
  parsed := parse_daily utc (by decide) (by decide)
  anchored := by decide +kernel

/-- The 29th instead, which is there in leap years. -/
def leapDays : Recurrence := { february30 with monthDay := 29, checked := rfl }

/-- The first leap day comes within the eight years. -/
theorem fires_iff_leapDays : newRecurrence leapDays.toRule = .ok leapDays ∧
    leapDays.NextClear utc (instant 2026 1 1 0 0) ∧ leapDays.Fires utc (instant 2026 1 1 0 0) := by
  have hzero : 0 ≤ instant 2026 1 1 0 0 := by decide +kernel
  have hqualifies : leapDays.Qualifies (leapDays.reading (days 2028 2 29)) :=
    dateFires_iff.1 (by decide +kernel)
  exact ⟨newRecurrence_toRule _, nextClear_of_fixed rfl utc hzero,
    ((fires_iff leapDays utc (instant 2026 1 1 0 0)).2.2 0 rfl hzero).2
      ⟨days 2028 2 29, hqualifies, by decide +kernel, by decide +kernel⟩⟩

theorem not_qualifies_february30 (d : ℤ) : ¬february30.Qualifies (february30.reading d) := by
  rw [← dateFires_iff, dateFires_monthly rfl, reading_div]
  rintro ⟨hmonths, hday⟩
  rw [OnDay, if_neg (by decide), if_neg (by decide)] at hday
  have hday : ((Calendar.civil d).day : ℤ) = 30 := hday
  have hanchor : monthIndex february30.anchorDay = 12 * 2026 + 2 := by decide +kernel
  have hmonths : 12 ∣ monthIndex d - monthIndex february30.anchorDay := hmonths
  rw [hanchor, monthIndex] at hmonths
  have hb := Calendar.civil_bounds d
  have hfebruary : (Calendar.civil d).month = 2 := by omega
  have hlength := Calendar.civil_day_le d
  rw [hfebruary, hday] at hlength
  have hshort : ∀ l : Bool,
      Calendar.daysBeforeMonth l (2 + 1) - Calendar.daysBeforeMonth l 2 < 30 := by
    decide
  have := hshort (Calendar.isLeap (Calendar.civil d).year)
  omega

/-- **A rule that is accepted and never fires.** -/
theorem not_fires_february30 : newRecurrence february30.toRule = .ok february30 ∧
    february30.Returns utc (instant 2026 1 1 0 0) 0 ∧
    ¬february30.Fires utc (instant 2026 1 1 0 0) := by
  have hafter : 0 ≤ instant 2026 1 1 0 0 := by decide +kernel
  have hzone : february30.zone = fun _ => 0 := rfl
  have hnot : ¬february30.Fires utc (instant 2026 1 1 0 0) := by
    rw [fires_iff_of_fixed hzone hafter]
    rintro ⟨d, hqualifies, -⟩
    exact not_qualifies_february30 d hqualifies
  obtain ⟨x, hx⟩ := (nextClear_of_fixed hzone utc hafter).ends
  have hzero : x = 0 := by
    by_contra hne
    exact hnot ⟨x, hx, hne⟩
  subst hzero
  exact ⟨newRecurrence_toRule _, hx, hnot⟩

end AnimeFeedFlux.Cron.Recurrence
