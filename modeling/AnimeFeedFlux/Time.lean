import AnimeFeedFlux.Lib.Calendar
import AnimeFeedFlux.Lib.Digits

/-!
# Instants and their stored text

Every timestamp column of the store holds RFC 3339 text with nanoseconds, in UTC, and
every comparison SQLite makes on such a column is a comparison of that text.  An instant
is an integer, as Go counts it: nanoseconds from the zero `time.Time`,
`0001-01-01T00:00:00Z`.  `Truncate` and `Add` are integer arithmetic; `formatTime` is the
text.

The text order is not quite the order of the instants.  The fraction is written without
trailing zeros and dropped when it is zero, and `'.' < 'Z'`, so within one second the
whole-second text comes last.  Across seconds the order is right as long as the years have
four digits (`formatTime_lt`).
-/

namespace AnimeFeedFlux

open Calendar Digits List

namespace Time

/-- `time.Second`, in nanoseconds. -/
def second : ℤ := 1000000000

def minute : ℤ := 60 * second

def hour : ℤ := 60 * minute

def isZero (t : ℤ) : Bool := t == 0

/-- `t.Truncate(time.Second)`: rounding down to a whole second since the zero Time. -/
def truncate (t : ℤ) : ℤ := t - t % second

/-- The number of whole seconds since the zero Time. -/
def seconds (t : ℤ) : ℤ := t / second

/-- The number of whole days since the zero Time. -/
def days (t : ℤ) : ℤ := seconds t / 86400

def year (t : ℤ) : ℤ := yearOfDay (days t)

/-- `t.UnixNano()`, which wraps in 64 bits. -/
def unixNano (t : ℤ) : ℤ := (t - 62135596800 * second).bmod (2 ^ 64)

theorem truncate_eq (t : ℤ) : truncate t = second * seconds t := by
  simp only [truncate, seconds, second]
  omega

theorem truncate_le (t : ℤ) : truncate t ≤ t := by
  simp only [truncate, second]
  omega

@[simp] theorem truncate_truncate (t : ℤ) : truncate (truncate t) = truncate t := by
  simp only [truncate, second]
  omega

@[simp] theorem seconds_truncate (t : ℤ) : seconds (truncate t) = seconds t := by
  simp only [truncate, seconds, second]
  omega

variable {s t : ℤ}

theorem truncate_inj : truncate s = truncate t ↔ seconds s = seconds t := by
  simp only [truncate_eq, second]
  omega

@[simp] theorem seconds_add (t : ℤ) (k : ℤ) : seconds (t + k * second) = seconds t + k := by
  simp only [seconds, second]
  omega

@[simp] theorem seconds_add_second (t : ℤ) : seconds (t + second) = seconds t + 1 := by
  simp only [seconds, second]
  omega

theorem seconds_mono (h : s ≤ t) : seconds s ≤ seconds t := by
  simp only [seconds, second]
  omega

theorem lt_of_seconds_lt (h : seconds s < seconds t) : s < t := by
  simp only [seconds, second] at h
  omega

theorem year_le_of_seconds_le (h : seconds s ≤ seconds t) : year s ≤ year t := by
  apply yearOfDay_mono
  simp only [days]
  omega

theorem year_mono (h : s ≤ t) : year s ≤ year t :=
  year_le_of_seconds_le (seconds_mono h)

theorem seconds_lt_of_year_lt (h : year s < year t) : seconds s < seconds t := by
  by_contra hle
  have hyear := year_le_of_seconds_le (not_lt.mp hle)
  omega

end Time

/-- Midnight UTC on 1 March 2026. -/
def march2026 : ℤ := 63907920000 * Time.second

/-! ## The text of a timestamp column -/

/-- The year as Go writes it: at least four digits, with a sign when negative. -/
def yearText (y : ℤ) : List Char :=
  (if y < 0 then ['-'] else []) ++
    if y.natAbs < 10000 then pad 4 y.natAbs else Nat.toDigits 10 y.natAbs

/-- `2006-01-02T15:04:05` for the second `s` since the zero Time. -/
def secondText (s : ℤ) : List Char :=
  let d := civil (s / 86400)
  let r := (s % 86400).toNat
  yearText d.year ++ ('-' :: (pad 2 d.month ++ ('-' :: (pad 2 d.day ++ ('T' ::
    (pad 2 (r / 3600) ++ (':' :: (pad 2 (r / 60 % 60) ++ (':' :: pad 2 (r % 60))))))))))

/-- The fraction of a second: up to nine digits without trailing zeros, nothing at all for
a whole second. -/
def fractionText (nanos : ℕ) : List Char :=
  if nanos = 0 then [] else '.' :: ((pad 9 nanos).reverse.dropWhile (· == '0')).reverse

/-- `formatTime`: `t.UTC().Format(time.RFC3339Nano)`. -/
def formatTime (t : ℤ) : List Char :=
  secondText (Time.seconds t) ++ (fractionText (t % Time.second).toNat ++ ['Z'])

/-- The years `time.Parse` reads back: `2006` stands for exactly four digits. -/
def FourDigitYear (t : ℤ) : Prop := 0 ≤ Time.year t ∧ Time.year t ≤ 9999
deriving Decidable

/-- `parseTime` of the text a column holds for `t`: the instant itself when its year has
four digits, an error otherwise. -/
def parseTime (t : ℤ) : Option ℤ := if FourDigitYear t then some t else none

@[simp] theorem parseTime_eq_some {t u : ℤ} : parseTime t = some u ↔ FourDigitYear t ∧ t = u := by
  simp [parseTime]

theorem yearText_of_fourDigit {y : ℤ} (h0 : 0 ≤ y) (h1 : y ≤ 9999) :
    yearText y = pad 4 y.toNat := by
  have hn : y.natAbs = y.toNat := by omega
  rw [yearText, if_neg (by omega), if_pos (by omega), hn, nil_append]

theorem isDigit_of_mem_yearText {y : ℤ} {c : Char} (h : c ∈ yearText y) : c.isDigit ∨ c = '-' := by
  rcases mem_append.1 h with h | h
  · split at h
    · exact .inr (mem_singleton.1 h)
    · cases h
  · split at h
    · exact .inl (isDigit_of_mem_pad h)
    · exact .inl (Nat.isDigit_of_mem_toDigits (by decide) (by decide) h)

private theorem clockText_lt {r r' : ℕ} (h : r < r') (hr' : r' < 86400) :
    pad 2 (r / 3600) ++ (':' :: (pad 2 (r / 60 % 60) ++ (':' :: pad 2 (r % 60)))) <
      pad 2 (r' / 3600) ++ (':' :: (pad 2 (r' / 60 % 60) ++ (':' :: pad 2 (r' % 60)))) := by
  rcases Nat.lt_or_eq_of_le (show r / 3600 ≤ r' / 3600 by omega) with hh | hh
  · exact pad_append_lt hh (by omega) _ _
  refine append_cons_lt (by rw [hh]) _ ?_
  rcases Nat.lt_or_eq_of_le (show r / 60 % 60 ≤ r' / 60 % 60 by omega) with hm | hm
  · exact pad_append_lt hm (by omega) _ _
  exact append_cons_lt (by rw [hm]) _ (pad_lt (by omega) (by omega))

private theorem length_secondText {s : ℤ} (h0 : 0 ≤ yearOfDay (s / 86400))
    (h1 : yearOfDay (s / 86400) ≤ 9999) : (secondText s).length = 19 := by
  simp [secondText, yearText_of_fourDigit h0 h1]

/-- Within the four-digit years the date and time of day are ordered as the seconds are. -/
theorem secondText_lt {s s' : ℤ} (h : s < s') (h0 : 0 ≤ yearOfDay (s / 86400))
    (h1 : yearOfDay (s' / 86400) ≤ 9999) : secondText s < secondText s' := by
  have hmono : yearOfDay (s / 86400) ≤ yearOfDay (s' / 86400) :=
    yearOfDay_mono (by omega)
  obtain ⟨-, hm, -, hd⟩ := civil_bounds (s' / 86400)
  simp only [secondText, civil_year, yearText_of_fourDigit h0 (by omega),
    yearText_of_fourDigit (show 0 ≤ yearOfDay (s' / 86400) by omega) h1]
  have hr : (s' % 86400).toNat < 86400 := by omega
  -- Compare field by field: the first field that differs decides.
  rcases Int.lt_or_eq_of_le (show s / 86400 ≤ s' / 86400 by omega) with hday | hday
  · rcases civil_lt hday with hy | ⟨hy, hmd⟩
    · rw [civil_year, civil_year] at hy
      exact pad_append_lt (by omega) (by omega) _ _
    · rw [civil_year, civil_year] at hy
      refine append_cons_lt (by rw [hy]) _ ?_
      rcases hmd with hlt | ⟨heq, hlt⟩
      · exact pad_append_lt hlt (by omega) _ _
      · exact append_cons_lt (by rw [heq]) _ (pad_append_lt hlt (by omega) _ _)
  · have hlt : (s % 86400).toNat < (s' % 86400).toNat := by omega
    rw [hday]
    refine append_cons_lt rfl _ (append_cons_lt rfl _ (append_cons_lt rfl _ ?_))
    exact clockText_lt hlt hr

/-- **Across seconds the text is ordered as the instants are**, within the four-digit
years. -/
theorem formatTime_lt {t t' : ℤ} (h : Time.seconds t < Time.seconds t')
    (ht : FourDigitYear t) (ht' : FourDigitYear t') : formatTime t < formatTime t' := by
  have hlen : (secondText (Time.seconds t)).length = (secondText (Time.seconds t')).length := by
    rw [length_secondText ht.1 ht.2, length_secondText ht'.1 ht'.2]
  exact (append_lt_append_iff hlen).2 (.inl (secondText_lt h ht.1 ht'.2))

end AnimeFeedFlux
