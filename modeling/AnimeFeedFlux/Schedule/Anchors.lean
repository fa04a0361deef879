import AnimeFeedFlux.Schedule.Recurrence

/-!
# Anchors as text

A recipe writes the anchor of a recurrence as a date, `2006-01-02`.  Four digits stand for the
year, so the dates that are read back after they were written are those of the years 0 to 9999.
-/

namespace AnimeFeedFlux.Cron

open Calendar Digits GoStrings List Zone

/-- `Time.Format(AnchorLayout)`, for the day `d`. -/
def anchorText (d : ℤ) : String :=
  String.ofList (yearText (civil d).year ++
    ('-' :: (pad 2 (civil d).month ++ ('-' :: pad 2 (civil d).day))))

/-! ## Digits -/

variable {w n : ℕ} {s : List Char} {v d : ℤ}

theorem foldl_pad (h : n < 10 ^ w) :
    (pad w n).foldl (fun v c => 10 * v + ((c.toNat - 48 : ℕ) : ℤ)) 0 = n := by
  induction w generalizing n with
  | zero =>
    simp only [pow_zero, Nat.lt_one_iff] at h
    simp [pad, h]
  | succ w ih =>
    have hdigit : ∀ d < 10, (digit d).toNat - 48 = d := by decide
    have hdiv : n / 10 < 10 ^ w := by
      rw [pow_succ] at h
      omega
    rw [pad, foldl_append, ih hdiv, foldl_cons, foldl_nil, hdigit _ (Nat.mod_lt n (by decide))]
    omega

/-- **Padded digits are read back.** -/
theorem digits_pad (h : n < 10 ^ w) : digits w (pad w n) = some (n : ℤ) := by
  have hall : (pad w n).all Char.isDigit = true := by
    rw [all_eq_true]
    exact fun c hc => isDigit_of_mem_pad hc
  rw [digits, if_pos ⟨length_pad w n, hall⟩, foldl_pad h]

theorem foldl_digits_bounds (hs : ∀ c ∈ s, c.isDigit) (hv : 0 ≤ v) :
    0 ≤ s.foldl (fun v c => 10 * v + ((c.toNat - 48 : ℕ) : ℤ)) v ∧
      s.foldl (fun v c => 10 * v + ((c.toNat - 48 : ℕ) : ℤ)) v < (v + 1) * 10 ^ s.length := by
  induction s generalizing v with
  | nil => simp [hv]
  | cons c s ih =>
    have hc : c.toNat - 48 ≤ 9 := by
      have hdigit := hs c mem_cons_self
      have hnine : '9'.toNat = 57 := rfl
      rw [Char.isDigit_iff_toNat] at hdigit
      omega
    obtain ⟨hlo, hhi⟩ := ih (fun c hc => hs c (mem_cons_of_mem _ hc))
      (show 0 ≤ 10 * v + ((c.toNat - 48 : ℕ) : ℤ) by omega)
    refine ⟨hlo, hhi.trans_le ?_⟩
    calc (10 * v + ((c.toNat - 48 : ℕ) : ℤ) + 1) * 10 ^ s.length
        ≤ (v + 1) * 10 * 10 ^ s.length := by
          refine Int.mul_le_mul_of_nonneg_right (by omega) ?_
          exact Int.le_of_lt (Int.pow_pos (by decide))
      _ = (v + 1) * 10 ^ (c :: s).length := by
          rw [length_cons, pow_succ', Int.mul_assoc]

theorem digits_bounds (h : digits n s = some v) : 0 ≤ v ∧ v < 10 ^ n := by
  rw [digits] at h
  split at h
  · rename_i hs
    obtain ⟨rfl, hall⟩ := hs
    cases h
    simpa using foldl_digits_bounds (by simpa using hall) (Int.le_refl 0)
  · cases h

/-! ## Dates -/

theorem minus_notMem_pad (w n : ℕ) : ∀ c ∈ pad w n, (c == '-') = false := by
  intro c hc
  have hdigit := isDigit_of_mem_pad hc
  rw [beq_eq_false_iff_ne]
  rintro rfl
  exact absurd hdigit (by decide)

theorem splitOn_date {y m d : List Char} (hy : ∀ c ∈ y, (c == '-') = false)
    (hm : ∀ c ∈ m, (c == '-') = false) (hd : ∀ c ∈ d, (c == '-') = false) :
    (y ++ '-' :: (m ++ '-' :: d)).splitOn '-' = [y, m, d] := by
  rw [List.splitOn, splitOnP_append_cons_of_forall_mem hy _ (by decide),
    splitOnP_append_cons_of_forall_mem hm _ (by decide), splitOnP_eq_singleton hd]

theorem civil_days {year : ℤ} {month : ℕ} {day : ℤ} (hm : 1 ≤ month) (hm' : month ≤ 12)
    (hd : 1 ≤ day) (hd' : day ≤ monthLength year month) :
    civil (days year month day) = ⟨year, month, day.toNat⟩ := by
  have hdays : days year month day =
      daysBeforeYear year + daysBeforeMonth (isLeap year) month + (day - 1) := by
    have hyear : ((month : ℤ) - 1) / 12 = 0 := by omega
    have hmonth : (((month : ℤ) - 1) % 12).toNat + 1 = month := by omega
    simp [days, hyear, hmonth]
  rw [monthLength] at hd'
  rw [hdays, civil_eq (y := year) hm hm' (by omega) (by omega)]
  congr 1
  omega

theorem days_civil_eq (d : ℤ) : days (civil d).year (civil d).month (civil d).day = d := by
  have h := days_civil (86400 * d)
  rwa [year, month, day, Int.mul_ediv_cancel_left d (by decide)] at h

theorem year_of_parseAnchor {s : String} (h : parseAnchor s = some d) :
    0 ≤ (civil d).year ∧ (civil d).year ≤ 9999 := by
  simp only [parseAnchor] at h
  split at h
  · rename_i y m day hsplit
    simp only [Option.bind_eq_bind, Option.bind_eq_some_iff] at h
    obtain ⟨year, hyear, month, hmonth, day, hday, h⟩ := h
    split at h
    · rename_i hdate
      cases h
      have hbounds := digits_bounds hyear
      have hcivil : civil (days year month.toNat day) = ⟨year, month.toNat, day.toNat⟩ :=
        civil_days (by omega) (by omega) hdate.2.2.1 hdate.2.2.2
      rw [Int.toNat_of_nonneg (by omega)] at hcivil
      rw [hcivil]
      dsimp only
      omega
    · cases h
  · cases h

/-- **A date of the years 0 to 9999 is read back.** -/
theorem parseAnchor_anchorText (h0 : 0 ≤ (civil d).year) (h1 : (civil d).year ≤ 9999) :
    parseAnchor (anchorText d) = some d := by
  obtain ⟨hm, hm', hd, hd'⟩ := civil_bounds d
  have hsplit : (anchorText d).toList.splitOn '-' =
      [pad 4 (civil d).year.toNat, pad 2 (civil d).month, pad 2 (civil d).day] := by
    rw [anchorText, String.toList_ofList, yearText_of_fourDigit h0 h1]
    exact splitOn_date (minus_notMem_pad _ _) (minus_notMem_pad _ _) (minus_notMem_pad _ _)
  have hyear := digits_pad (w := 4) (n := (civil d).year.toNat) (by omega)
  have hmonth := digits_pad (w := 2) (n := (civil d).month) (by omega)
  have hday := digits_pad (w := 2) (n := (civil d).day) (by omega)
  have hlen : ((civil d).day : ℤ) ≤ monthLength (civil d).year (civil d).month := civil_day_le d
  rw [Int.toNat_of_nonneg h0] at hyear
  simp only [parseAnchor, hsplit, hyear, hmonth, hday, Option.bind_eq_bind, Option.bind_some]
  rw [if_pos (by rw [Int.toNat_natCast]; omega), days_civil_eq]

theorem isSpace_of_mem_anchorText {c : Char} (h : c ∈ (anchorText d).toList) :
    isSpace c = false := by
  have hdigit : c.isDigit ∨ c = '-' := by
    rw [anchorText, String.toList_ofList] at h
    simp only [mem_append, mem_cons] at h
    rcases h with h | h | h | h | h
    · exact isDigit_of_mem_yearText h
    · exact .inr h
    · exact .inl (isDigit_of_mem_pad h)
    · exact .inr h
    · exact .inl (isDigit_of_mem_pad h)
  rcases hdigit with hdigit | rfl
  · have hzero : '0'.toNat = 48 := rfl
    have hnine : '9'.toNat = 57 := rfl
    rw [Char.isDigit_iff_toNat] at hdigit
    simp [isSpace]
    omega
  · decide

@[simp] theorem trimSpace_anchorText (d : ℤ) : trimSpace (anchorText d) = anchorText d :=
  trimSpace_eq_self fun _ => isSpace_of_mem_anchorText

theorem anchorText_ne_empty (d : ℤ) : anchorText d ≠ "" := by
  intro h
  have hlist := congrArg String.toList h
  simp [anchorText] at hlist

end AnimeFeedFlux.Cron
