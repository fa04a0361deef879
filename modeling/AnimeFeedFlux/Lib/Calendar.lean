import Mathlib.Data.Int.Basic
import Mathlib.Order.Basic

/-!
# The proleptic Gregorian calendar

Days are counted from 1 January of year 1, which is day `0`; days before it are negative.
`yearOfDay` finds the year by peeling off 400-, 100-, 4- and 1-year cycles, and
`daysBeforeYear` is its inverse: a day lies in the year it is assigned to, and in no
other.  The order theorem `civil_lt` is what a textual date comparison rests on.
-/

namespace AnimeFeedFlux.Calendar

/-- The day number of 1 January of year `y`. -/
def daysBeforeYear (y : ℤ) : ℤ :=
  365 * (y - 1) + (y - 1) / 4 - (y - 1) / 100 + (y - 1) / 400

/-- Whether `y` has a 29 February. -/
def isLeap (y : ℤ) : Bool := y % 4 == 0 && (y % 100 != 0 || y % 400 == 0)

/-- The year day `n` lies in.  The last century of a 400-year cycle and the last year of
a 4-year cycle may be one day longer than the others, hence the two `min`s. -/
def yearOfDay (n : ℤ) : ℤ :=
  let d400 := n % 146097
  let c := min (d400 / 36524) 3
  let d100 := d400 - 36524 * c
  let d4 := d100 % 1461
  400 * (n / 146097) + 100 * c + 4 * (d100 / 1461) + min (d4 / 365) 3 + 1

/-- The cycle decomposition behind `yearOfDay`: every day is `e` days into year `r` of
4-year cycle `q` of century `c` of 400-year cycle `a`. -/
private theorem exists_cycles (n : ℤ) : ∃ a c q r e : ℤ,
    yearOfDay n = 400 * a + 100 * c + 4 * q + r + 1 ∧
    n = 146097 * a + 36524 * c + 1461 * q + 365 * r + e ∧
    0 ≤ c ∧ c ≤ 3 ∧ 0 ≤ q ∧ q ≤ 24 ∧ 0 ≤ r ∧ r ≤ 3 ∧ 0 ≤ e ∧
    (e < 365 ∨ (e = 365 ∧ r = 3 ∧ (q < 24 ∨ c = 3))) := by
  have h400 : 0 ≤ n % 146097 ∧ n % 146097 < 146097 := by omega
  have hc : 0 ≤ min (n % 146097 / 36524) 3 ∧ min (n % 146097 / 36524) 3 ≤ 3 := by omega
  refine ⟨n / 146097, min (n % 146097 / 36524) 3,
    (n % 146097 - 36524 * min (n % 146097 / 36524) 3) / 1461,
    min ((n % 146097 - 36524 * min (n % 146097 / 36524) 3) % 1461 / 365) 3,
    (n % 146097 - 36524 * min (n % 146097 / 36524) 3) % 1461 -
      365 * min ((n % 146097 - 36524 * min (n % 146097 / 36524) 3) % 1461 / 365) 3,
    rfl, ?_, hc.1, hc.2, ?_⟩
  · omega
  have h100 : 0 ≤ n % 146097 - 36524 * min (n % 146097 / 36524) 3 ∧
      (n % 146097 - 36524 * min (n % 146097 / 36524) 3 < 36524 ∨ (min (n % 146097 / 36524) 3 = 3 ∧
          n % 146097 - 36524 * min (n % 146097 / 36524) 3 = 36524)) := by
    omega
  generalize n % 146097 - 36524 * min (n % 146097 / 36524) 3 = d at h100 ⊢
  generalize min (n % 146097 / 36524) 3 = c at h100 hc ⊢
  omega

private theorem daysBeforeYear_cycles {a c q r : ℤ} (hc : 0 ≤ c) (hc' : c ≤ 3) (hq : 0 ≤ q)
    (hq' : q ≤ 24) (hr : 0 ≤ r) (hr' : r ≤ 3) :
    daysBeforeYear (400 * a + 100 * c + 4 * q + r + 1) =
      146097 * a + 36524 * c + 1461 * q + 365 * r := by
  have h4 : (400 * a + 100 * c + 4 * q + r + 1 - 1) / 4 = 100 * a + 25 * c + q := by omega
  have h100 : (400 * a + 100 * c + 4 * q + r + 1 - 1) / 100 = 4 * a + c := by omega
  have h400 : (400 * a + 100 * c + 4 * q + r + 1 - 1) / 400 = a := by omega
  rw [daysBeforeYear, h4, h100, h400]
  omega

theorem daysBeforeYear_succ (y : ℤ) :
    daysBeforeYear (y + 1) = daysBeforeYear y + if isLeap y then 366 else 365 := by
  have hleap : isLeap y = true ↔ y % 4 = 0 ∧ (y % 100 ≠ 0 ∨ y % 400 = 0) := by
    simp [isLeap]
  simp only [daysBeforeYear]
  split_ifs with h
  · rw [hleap] at h
    omega
  · rw [hleap] at h
    omega

variable {y n d : ℤ} {m : ℕ}

theorem daysBeforeYear_mono {y' : ℤ} (h : y ≤ y') : daysBeforeYear y ≤ daysBeforeYear y' := by
  simp only [daysBeforeYear]
  omega

theorem daysBeforeYear_yearOfDay_le (n : ℤ) : daysBeforeYear (yearOfDay n) ≤ n := by
  obtain ⟨a, c, q, r, e, hy, hn, hc, hc', hq, hq', hr, hr', he, -⟩ := exists_cycles n
  rw [hy, daysBeforeYear_cycles hc hc' hq hq' hr hr']
  omega

theorem lt_daysBeforeYear_yearOfDay_succ (n : ℤ) : n < daysBeforeYear (yearOfDay n + 1) := by
  obtain ⟨a, c, q, r, e, hy, hn, hc, hc', hq, hq', hr, hr', he, hlt⟩ := exists_cycles n
  rw [daysBeforeYear_succ, hy, daysBeforeYear_cycles hc hc' hq hq' hr hr']
  split_ifs with h
  · omega
  have hnot : ¬(r = 3 ∧ (q < 24 ∨ c = 3)) := by
    rintro ⟨rfl, h'⟩
    apply h
    simp only [isLeap, Bool.and_eq_true, beq_iff_eq, Bool.or_eq_true, bne_iff_ne, ne_eq]
    omega
  omega

theorem yearOfDay_mono {m : ℤ} (h : m ≤ n) : yearOfDay m ≤ yearOfDay n := by
  by_contra hlt
  have hm := daysBeforeYear_yearOfDay_le m
  have hn := lt_daysBeforeYear_yearOfDay_succ n
  have := daysBeforeYear_mono (show yearOfDay n + 1 ≤ yearOfDay m by omega)
  omega

/-! ## Months -/

/-- Days before the first of month `m` (`1` to `12`; `13` gives the year's length). -/
def daysBeforeMonth (leap : Bool) (m : ℕ) : ℤ :=
  [0, 0, 31, 59, 90, 120, 151, 181, 212, 243, 273, 304, 334, 365].getD m 365 +
    if leap ∧ 2 < m then 1 else 0

/-- The month that day `d` of a year (counted from `0`) lies in. -/
def monthOfYearDay (leap : Bool) (d : ℤ) : ℕ :=
  if d < daysBeforeMonth leap 2 then 1
  else if d < daysBeforeMonth leap 3 then 2
  else if d < daysBeforeMonth leap 4 then 3
  else if d < daysBeforeMonth leap 5 then 4
  else if d < daysBeforeMonth leap 6 then 5
  else if d < daysBeforeMonth leap 7 then 6
  else if d < daysBeforeMonth leap 8 then 7
  else if d < daysBeforeMonth leap 9 then 8
  else if d < daysBeforeMonth leap 10 then 9
  else if d < daysBeforeMonth leap 11 then 10
  else if d < daysBeforeMonth leap 12 then 11
  else 12

/-- Every day of the year lies within its month, and months have at most 31 days. -/
theorem monthOfYearDay_spec (leap : Bool) (h0 : 0 ≤ d) (h1 : d < if leap then 366 else 365) :
    1 ≤ monthOfYearDay leap d ∧ monthOfYearDay leap d ≤ 12 ∧
    daysBeforeMonth leap (monthOfYearDay leap d) ≤ d ∧
    d < daysBeforeMonth leap (monthOfYearDay leap d + 1) ∧
    d < daysBeforeMonth leap (monthOfYearDay leap d) + 31 := by
  -- A year has finitely many days: the table is checked on each of them.
  have table : ∀ l : Bool, ∀ k : ℕ, k < 366 → (k : ℤ) < (if l then 366 else 365) →
      1 ≤ monthOfYearDay l k ∧ monthOfYearDay l k ≤ 12 ∧
      daysBeforeMonth l (monthOfYearDay l k) ≤ k ∧
      k < daysBeforeMonth l (monthOfYearDay l k + 1) ∧
      k < daysBeforeMonth l (monthOfYearDay l k) + 31 := by
    decide +kernel
  obtain ⟨k, rfl⟩ := Int.eq_ofNat_of_zero_le h0
  exact table leap k (by split_ifs at h1 <;> omega) h1

theorem daysBeforeMonth_mono (leap : Bool) {m' : ℕ} (h : m ≤ m') (h' : m' ≤ 13) :
    daysBeforeMonth leap m ≤ daysBeforeMonth leap m' := by
  have key : ∀ l : Bool, ∀ b ≤ 13, ∀ a ≤ b, daysBeforeMonth l a ≤ daysBeforeMonth l b := by
    decide
  exact key leap m' h' m h

/-! ## Dates -/

/-- A calendar date. -/
structure Date where
  year : ℤ
  month : ℕ
  day : ℕ
  deriving DecidableEq, Repr

/-- The date of day `n`. -/
def civil (n : ℤ) : Date :=
  let y := yearOfDay n
  let d := n - daysBeforeYear y
  let m := monthOfYearDay (isLeap y) d
  ⟨y, m, (d - daysBeforeMonth (isLeap y) m).toNat + 1⟩

/-- The day number of a date; `civil` inverts it. -/
def dayNumber (t : Date) : ℤ :=
  daysBeforeYear t.year + daysBeforeMonth (isLeap t.year) t.month + (t.day - 1)

private theorem yearDay_bounds (n : ℤ) : 0 ≤ n - daysBeforeYear (yearOfDay n) ∧
    n - daysBeforeYear (yearOfDay n) < if isLeap (yearOfDay n) then 366 else 365 := by
  have hle := daysBeforeYear_yearOfDay_le n
  have hlt := lt_daysBeforeYear_yearOfDay_succ n
  rw [daysBeforeYear_succ] at hlt
  omega

@[simp] theorem civil_year (n : ℤ) : (civil n).year = yearOfDay n := rfl

theorem civil_bounds (n : ℤ) :
    1 ≤ (civil n).month ∧ (civil n).month ≤ 12 ∧ 1 ≤ (civil n).day ∧ (civil n).day ≤ 31 := by
  obtain ⟨h0, h1⟩ := yearDay_bounds n
  obtain ⟨hm, hm', hlo, -, hhi⟩ := monthOfYearDay_spec _ h0 h1
  refine ⟨hm, hm', ?_, ?_⟩ <;> simp only [civil] <;> omega

@[simp] theorem dayNumber_civil (n : ℤ) : dayNumber (civil n) = n := by
  obtain ⟨h0, h1⟩ := yearDay_bounds n
  obtain ⟨-, -, hlo, -, -⟩ := monthOfYearDay_spec _ h0 h1
  simp only [dayNumber, civil]
  omega

theorem yearOfDay_eq (hlo : daysBeforeYear y ≤ n) (hhi : n < daysBeforeYear (y + 1)) :
    yearOfDay n = y := by
  have hle := daysBeforeYear_yearOfDay_le n
  have hlt := lt_daysBeforeYear_yearOfDay_succ n
  rcases Int.lt_trichotomy (yearOfDay n) y with h | h | h
  · have := daysBeforeYear_mono (show yearOfDay n + 1 ≤ y by omega)
    omega
  · exact h
  · have := daysBeforeYear_mono (show y + 1 ≤ yearOfDay n by omega)
    omega

theorem monthOfYearDay_eq {leap : Bool} (hm : 1 ≤ m) (hm' : m ≤ 12)
    (hlo : daysBeforeMonth leap m ≤ d) (hhi : d < daysBeforeMonth leap (m + 1)) :
    monthOfYearDay leap d = m := by
  have h0 := daysBeforeMonth_mono leap hm (by omega)
  have h13 := daysBeforeMonth_mono leap (show m + 1 ≤ 13 by omega) (Nat.le_refl 13)
  have hfirst : daysBeforeMonth leap 1 = 0 := by cases leap <;> rfl
  have hlast : daysBeforeMonth leap 13 = if leap then 366 else 365 := by cases leap <;> rfl
  obtain ⟨hk, hk', hlo', hhi', -⟩ := monthOfYearDay_spec leap (d := d) (by omega) (by omega)
  rcases Nat.lt_trichotomy (monthOfYearDay leap d) m with h | h | h
  · have := daysBeforeMonth_mono leap (show monthOfYearDay leap d + 1 ≤ m by omega) (by omega)
    omega
  · exact h
  · have := daysBeforeMonth_mono leap (show m + 1 ≤ monthOfYearDay leap d by omega) (by omega)
    omega

theorem civil_eq (hm : 1 ≤ m) (hm' : m ≤ 12)
    (hlo : daysBeforeYear y + daysBeforeMonth (isLeap y) m ≤ n)
    (hhi : n < daysBeforeYear y + daysBeforeMonth (isLeap y) (m + 1)) :
    civil n = ⟨y, m, (n - daysBeforeYear y - daysBeforeMonth (isLeap y) m).toNat + 1⟩ := by
  have h0 := daysBeforeMonth_mono (isLeap y) hm (by omega)
  have h13 := daysBeforeMonth_mono (isLeap y) (show m + 1 ≤ 13 by omega) (Nat.le_refl 13)
  have hfirst : daysBeforeMonth (isLeap y) 1 = 0 := by cases isLeap y <;> rfl
  have hlast : daysBeforeMonth (isLeap y) 13 = if isLeap y then 366 else 365 := by
    cases isLeap y <;> rfl
  have hyear : yearOfDay n = y := by
    apply yearOfDay_eq
    · omega
    rw [daysBeforeYear_succ]
    omega
  have hmonth : monthOfYearDay (isLeap y) (n - daysBeforeYear y) = m :=
    monthOfYearDay_eq hm hm' (by omega) (by omega)
  simp [civil, hyear, hmonth]

theorem civil_month_bounds (n : ℤ) :
    daysBeforeYear (civil n).year + daysBeforeMonth (isLeap (civil n).year) (civil n).month ≤ n ∧
    n < daysBeforeYear (civil n).year +
      daysBeforeMonth (isLeap (civil n).year) ((civil n).month + 1) := by
  obtain ⟨h0, h1⟩ := yearDay_bounds n
  obtain ⟨-, -, hlo, hhi, -⟩ := monthOfYearDay_spec _ h0 h1
  simp only [civil]
  omega

theorem civil_day_le (n : ℤ) :
    ((civil n).day : ℤ) ≤ daysBeforeMonth (isLeap (civil n).year) ((civil n).month + 1) -
      daysBeforeMonth (isLeap (civil n).year) (civil n).month := by
  have hn := dayNumber_civil n
  have hlt := (civil_month_bounds n).2
  simp only [dayNumber] at hn
  omega

/-- The day after the last day of the month of `n`. -/
def monthEnd (n : ℤ) : ℤ :=
  daysBeforeYear (civil n).year + daysBeforeMonth (isLeap (civil n).year) ((civil n).month + 1)

theorem civil_monthEnd_sub (n : ℤ) : (civil (monthEnd n - 1)).year = (civil n).year ∧
    (civil (monthEnd n - 1)).month = (civil n).month := by
  obtain ⟨hm, hm', -, -⟩ := civil_bounds n
  obtain ⟨hlo, hhi⟩ := civil_month_bounds n
  have hend : monthEnd n = daysBeforeYear (civil n).year +
      daysBeforeMonth (isLeap (civil n).year) ((civil n).month + 1) := rfl
  rw [civil_eq (y := (civil n).year) hm hm' (by omega) (by omega)]
  exact ⟨rfl, rfl⟩

/-- **A day is in another month than the day `k` later** iff the month ends in between, up to
four weeks. -/
theorem month_ne_iff {k : ℤ} (hk : 0 ≤ k) (hk' : k ≤ 28) :
    (civil (n + k)).month ≠ (civil n).month ↔ monthEnd n ≤ n + k := by
  obtain ⟨hm, hm', -, -⟩ := civil_bounds n
  obtain ⟨hlo, hhi⟩ := civil_month_bounds n
  have hshort : ∀ l : Bool, ∀ m, 1 ≤ m → m ≤ 11 →
      daysBeforeMonth l (m + 1) + 28 ≤ daysBeforeMonth l (m + 1 + 1) := by
    intro l m h h'
    have key : ∀ l : Bool, ∀ m ≤ 11, 1 ≤ m →
        daysBeforeMonth l (m + 1) + 28 ≤ daysBeforeMonth l (m + 1 + 1) := by
      decide
    exact key l m h' h
  constructor
  · intro hne
    by_contra hlt
    apply hne
    simp only [monthEnd] at hlt
    rw [civil_eq (y := (civil n).year) hm hm' (by omega) (by omega)]
  · intro hle
    simp only [monthEnd] at hle
    rcases Nat.lt_or_ge (civil n).month 12 with h12 | h12
    · have := hshort (isLeap (civil n).year) _ hm (by omega)
      rw [civil_eq (m := (civil n).month + 1) (y := (civil n).year) (by omega) (by omega) hle
        (by omega)]
      simp
    · have hlast : daysBeforeMonth (isLeap (civil n).year) (12 + 1) =
          if isLeap (civil n).year then 366 else 365 := by
        cases isLeap (civil n).year <;> rfl
      have hdec : (civil n).month = 12 := by omega
      rw [hdec] at hle hhi ⊢
      have hsucc := daysBeforeYear_succ (civil n).year
      have hjan : daysBeforeMonth (isLeap ((civil n).year + 1)) 1 = 0 := by
        cases isLeap ((civil n).year + 1) <;> rfl
      have hfeb : daysBeforeMonth (isLeap ((civil n).year + 1)) (1 + 1) = 31 := by
        cases isLeap ((civil n).year + 1) <;> rfl
      rw [civil_eq (m := 1) (y := (civil n).year + 1) (by omega) (by omega) (by omega) (by omega)]
      simp

/-- **Dates are ordered as days are**: year first, then month, then day of the month. -/
theorem civil_lt {m : ℤ} (h : m < n) : (civil m).year < (civil n).year ∨
    ((civil m).year = (civil n).year ∧ ((civil m).month < (civil n).month ∨
      ((civil m).month = (civil n).month ∧ (civil m).day < (civil n).day))) := by
  rcases Int.lt_or_eq_of_le (yearOfDay_mono (Int.le_of_lt h)) with hy | hy
  · exact .inl hy
  refine .inr ⟨hy, ?_⟩
  obtain ⟨h0, h1⟩ := yearDay_bounds m
  obtain ⟨h0', h1'⟩ := yearDay_bounds n
  obtain ⟨-, hm, hlo, hhi, -⟩ := monthOfYearDay_spec _ h0 h1
  obtain ⟨-, hm', hlo', hhi', -⟩ := monthOfYearDay_spec _ h0' h1'
  have hd := dayNumber_civil m
  have hd' := dayNumber_civil n
  simp only [dayNumber, civil] at hd hd' ⊢
  rw [hy] at *
  rcases lt_trichotomy (monthOfYearDay (isLeap (yearOfDay n)) (m - daysBeforeYear (yearOfDay n)))
    (monthOfYearDay (isLeap (yearOfDay n)) (n - daysBeforeYear (yearOfDay n))) with
    hlt | heq | hgt
  · exact .inl hlt
  · refine .inr ⟨heq, ?_⟩
    rw [heq] at hlo hhi ⊢
    omega
  · have := daysBeforeMonth_mono (isLeap (yearOfDay n)) (Nat.succ_le_of_lt hgt) (by omega)
    simp only [Nat.succ_eq_add_one] at this
    omega

end AnimeFeedFlux.Calendar
