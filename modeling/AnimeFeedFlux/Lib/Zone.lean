import AnimeFeedFlux.Lib.Calendar

/-!
# Wall clocks

A time zone is its UTC offset, in seconds, as a function of the second.  Seconds are counted
from 1 January of year 1, UTC; the offset may change at any of them, so a zone has finitely
many transitions in any span of time and no other law.

`wall z t` is what the clock of the zone shows at `t`, as the seconds a clock in UTC counts
when it shows the same.  Going back, a reading may belong to no second, or to several.
`date` resolves it the way Go's `time.Date` does: it looks the offset up as if the reading
were UTC, and once more at the second that offset gives.
-/

namespace AnimeFeedFlux

/-- A time zone: the UTC offset in force at each second. -/
abbrev Zone := ℤ → ℤ

namespace Zone

open Calendar

/-- What the clock shows at `t`. -/
def wall (z : Zone) (t : ℤ) : ℤ := t + z t

/-- The second `time.Date` picks for the reading `w`. -/
def date (z : Zone) (w : ℤ) : ℤ := w - z (w - z w)

/-! ## Fields -/

section
variable (w : ℤ)

def year : ℤ := (civil (w / 86400)).year

def month : ℕ := (civil (w / 86400)).month

def day : ℕ := (civil (w / 86400)).day

/-- `Time.Weekday`, where Sunday is `0`.  The first day of year 1 is a Monday. -/
def weekday : ℕ := ((w / 86400 + 1) % 7).toNat

def hour : ℕ := (w % 86400 / 3600).toNat

def minute : ℕ := (w % 3600 / 60).toNat

/-- `Time.Second`. -/
def sec : ℕ := (w % 60).toNat

/-- The day number of a date whose month and day need not be in range. -/
def days (year month day : ℤ) : ℤ :=
  let y := year + (month - 1) / 12
  daysBeforeYear y + daysBeforeMonth (isLeap y) (((month - 1) % 12).toNat + 1) + (day - 1)

/-- The reading with the given fields. -/
def unix (year month day hour minute sec : ℤ) : ℤ :=
  86400 * days year month day + 3600 * hour + 60 * minute + sec

def Date (z : Zone) (year month day hour minute sec : ℤ) : ℤ :=
  date z (unix year month day hour minute sec)

def AddDate (z : Zone) (t : ℤ) (years months days : ℤ) : ℤ :=
  let w := wall z t
  Date z (year w + years) (month w + months) (day w + days) (hour w) (minute w) (sec w)

/-- The start of the minute of a reading. -/
def minuteOf : ℤ := w - w % 60

theorem minute_lt : minute w < 60 := by
  simp only [minute]
  omega

theorem hour_lt : hour w < 24 := by
  simp only [hour]
  omega

theorem days_civil : days (year w) (month w) (day w) = w / 86400 := by
  have hb := civil_bounds (w / 86400)
  have hm : (((month w : ℤ) - 1) % 12).toNat + 1 = month w := by
    simp only [month]
    omega
  have hy : ((month w : ℤ) - 1) / 12 = 0 := by
    simp only [month]
    omega
  have hd := dayNumber_civil (w / 86400)
  simp only [dayNumber] at hd
  simp only [days, hm, hy, Int.add_zero]
  exact hd

theorem unix_minuteOf : unix (year w) (month w) (day w) (hour w) (minute w) 0 = minuteOf w := by
  rw [unix, days_civil, minuteOf, hour, minute]
  omega

@[simp] theorem minuteOf_mod : minuteOf w % 60 = 0 := by
  rw [minuteOf]
  omega

theorem minuteOf_le : minuteOf w ≤ w := by
  rw [minuteOf]
  omega

theorem days_minuteOf : minuteOf w / 86400 = w / 86400 := by
  rw [minuteOf]
  omega

theorem hour_minuteOf : hour (minuteOf w) = hour w := by
  simp only [hour, minuteOf]
  omega

theorem minute_minuteOf : minute (minuteOf w) = minute w := by
  simp only [minute, minuteOf]
  omega

end

theorem minuteOf_of_mod {w : ℤ} (h : w % 60 = 0) : minuteOf w = w := by
  rw [minuteOf]
  omega

theorem hour_congr {w w' : ℤ} (h : w / 3600 = w' / 3600) : hour w = hour w' := by
  simp only [hour]
  omega

/-! ## Transitions -/

/-- The transition at `t` jumps over the reading `w`. -/
def Skips (z : Zone) (t w : ℤ) : Prop := t + z (t - 1) ≤ w ∧ w < t + z t
deriving Decidable

/-! ## Zones without transitions -/

/-- The offset never changes. -/
def Fixed (z : Zone) : Prop := ∀ t, z t = z 0

theorem Fixed.wall_date {z : Zone} (h : z.Fixed) (w : ℤ) : wall z (date z w) = w := by
  rw [wall, date, h, h (w - _), Int.sub_add_cancel]

end Zone

end AnimeFeedFlux
