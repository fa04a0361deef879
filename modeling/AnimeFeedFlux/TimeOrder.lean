import AnimeFeedFlux.Lib.Fractions
import AnimeFeedFlux.Store.Items
import Mathlib.Data.List.Sort

/-!
# The order of stored timestamps

Across seconds the text of a timestamp is ordered as the instants are.  Within a second the
fraction decides, and it is written without trailing zeros in front of a `'Z'`, which is greater
than every digit and than the point.  So an instant that is a later one cut short after some
digit of its fraction, or at the second, comes after it.
-/

namespace AnimeFeedFlux

open Digits List

/-- The instant `a` is the later instant `b` cut short after some digit of its fraction. -/
def CutShort (a b : ℤ) : Prop := a < b ∧ ∃ k ≤ 9, a = b - b % 10 ^ k
deriving Decidable

/-- The texts of two instants compare as the instants do. -/
def TextOrder (a b : ℤ) : Prop :=
  (formatTime a < formatTime b ↔ a < b) ∧ (formatTime b < formatTime a ↔ b < a)

theorem fractionText_eq {n : ℕ} (h : n ≠ 0) : fractionText n = '.' :: trimZeros (pad 9 n) := by
  rw [fractionText, if_neg h, trimZeros]

theorem fractionText_lt_iff {m n : ℕ} (hlt : m < n) (hn : n < 10 ^ 9) :
    fractionText m ++ ['Z'] < fractionText n ++ ['Z'] ↔ ¬∃ k ≤ 9, m = n - n % 10 ^ k := by
  rw [← trimZeros_isPrefix_iff hlt hn, fractionText_eq (show n ≠ 0 by omega)]
  by_cases hm : m = 0
  · subst hm
    have hempty : trimZeros (pad 9 0) = [] := by decide
    rw [hempty]
    refine iff_of_false ?_ (not_not.2 List.nil_prefix)
    simp only [fractionText, if_true, nil_append, cons_append, cons_lt_cons_iff, not_or]
    exact ⟨by decide, fun h => absurd h.1 (by decide)⟩
  · obtain ⟨i, hi⟩ := trimZeros_append_zeros (pad 9 m)
    obtain ⟨j, hj⟩ := trimZeros_append_zeros (pad 9 n)
    have hdigit : ∀ {n : ℕ} {c : Char}, c ∈ trimZeros (pad 9 n) → '0' ≤ c ∧ c ≤ '9' :=
      fun hc => mem_pad ((trimZeros_isPrefix _).subset hc)
    have hpad := pad_lt hlt hn
    have hlen : (pad 9 m).length = (pad 9 n).length := by rw [length_pad, length_pad]
    rw [hi, hj] at hpad hlen
    have hiff := trimmed_lt_iff (fun c hc => (hdigit hc).1)
      (fun c hc => lt_of_le_of_lt (hdigit hc).2 (show '9' < 'Z' by decide)) hlen hpad
    rw [fractionText_eq hm, cons_append, cons_append, cons_lt_cons_iff, ← hiff]
    simp

variable {a b : ℤ}

theorem cutShort_iff (hsec : Time.seconds a = Time.seconds b) (hlt : a < b) :
    CutShort a b ↔ ∃ k ≤ 9, (a % Time.second).toNat =
      (b % Time.second).toNat - (b % Time.second).toNat % 10 ^ k := by
  rw [CutShort]
  refine (and_iff_right hlt).trans (exists_congr fun k => and_congr_right fun hk => ?_)
  have hsecond : Time.second = 10 ^ 9 := by norm_num [Time.second]
  have hrest : b % 10 ^ k = (((b % Time.second).toNat % 10 ^ k : ℕ) : ℤ) := by
    have hdvd : (10 : ℤ) ^ k ∣ Time.second := hsecond ▸ pow_dvd_pow 10 hk
    have hnonneg : 0 ≤ b % Time.second := Int.emod_nonneg _ (by decide)
    rw [← Int.emod_emod_of_dvd b hdvd, Int.natCast_mod, Int.toNat_of_nonneg hnonneg]
    norm_cast
  have hle := Nat.mod_le (b % Time.second).toNat (10 ^ k)
  rw [hrest]
  generalize (b % Time.second).toNat % 10 ^ k = rest at hle
  simp only [Time.seconds, Time.second] at hsec hle ⊢
  omega

theorem formatTime_lt_iff (hsec : Time.seconds a = Time.seconds b) (hlt : a < b) :
    formatTime a < formatTime b ↔ ¬CutShort a b := by
  have hbound : (b % Time.second).toNat < 10 ^ 9 := by
    simp only [Time.second]
    omega
  have hfraction : (a % Time.second).toNat < (b % Time.second).toNat := by
    simp only [Time.seconds, Time.second] at hsec ⊢
    omega
  rw [cutShort_iff hsec hlt, ← fractionText_lt_iff hfraction hbound, formatTime, formatTime, hsec,
    append_lt_append_iff rfl]
  simp

theorem CutShort.seconds_eq (h : CutShort a b) : Time.seconds a = Time.seconds b := by
  obtain ⟨hlt, k, hk, hcut⟩ := h
  have hsecond : Time.second = 10 ^ 9 := by norm_num [Time.second]
  have hdvd : (10 : ℤ) ^ k ∣ Time.second := hsecond ▸ pow_dvd_pow 10 hk
  have hle : b % 10 ^ k ≤ b % Time.second := by
    have hnonneg : 0 ≤ b % Time.second := Int.emod_nonneg _ (by decide)
    have hdiv := Int.ediv_nonneg hnonneg (show (0 : ℤ) ≤ 10 ^ k by positivity)
    have hsum := Int.mul_ediv_add_emod (b % Time.second) (10 ^ k)
    rw [Int.emod_emod_of_dvd b hdvd] at hsum
    have hprod := mul_nonneg (show (0 : ℤ) ≤ 10 ^ k by positivity) hdiv
    omega
  generalize b % 10 ^ k = rest at hle hcut
  simp only [Time.seconds, Time.second] at hle ⊢
  omega

theorem textOrder_of_lt (ha : FourDigitYear a) (hb : FourDigitYear b) (hlt : a < b) :
    TextOrder a b ↔ ¬CutShort a b := by
  have hforward : TextOrder a b ↔ formatTime a < formatTime b := by
    constructor
    · intro h
      exact h.1.2 hlt
    · intro h
      exact ⟨iff_of_true h hlt, iff_of_false (lt_asymm h) (lt_asymm hlt)⟩
  rw [hforward]
  rcases (Time.seconds_mono hlt.le).lt_or_eq with hsec | hsec
  · refine iff_of_true (formatTime_lt hsec ha hb) fun hcut => ?_
    rw [hcut.seconds_eq] at hsec
    exact lt_irrefl _ hsec
  · exact formatTime_lt_iff hsec hlt

/-- **Two timestamps are in order iff neither is the other cut short.** -/
theorem textOrder_iff (ha : FourDigitYear a) (hb : FourDigitYear b) :
    TextOrder a b ↔ ¬CutShort a b ∧ ¬CutShort b a := by
  rcases lt_trichotomy a b with hlt | rfl | hgt
  · rw [textOrder_of_lt ha hb hlt]
    exact (and_iff_left fun h => lt_asymm hlt h.1).symm
  · exact iff_of_true ⟨by simp, by simp⟩ ⟨fun h => lt_irrefl _ h.1, fun h => lt_irrefl _ h.1⟩
  · have hswap : TextOrder a b ↔ TextOrder b a := and_comm
    rw [hswap, textOrder_of_lt hb ha hgt]
    exact (and_iff_right fun h => lt_asymm hgt h.1).symm

/-! ## Queries -/

theorem TextOrder.le_iff (h : TextOrder a b) : formatTime a ≤ formatTime b ↔ a ≤ b := by
  rw [← not_lt, h.2, not_lt]

theorem maxText_eq_max {ts : List ℤ} (h : ∀ a ∈ ts, ∀ b ∈ ts, TextOrder a b) :
    maxText ts = ts.max? := by
  cases hmax : maxText ts with
  | none =>
    rw [maxText_eq_none.1 hmax]
    rfl
  | some m =>
    obtain ⟨hmem, hle⟩ := maxText_spec hmax
    refine (max?_eq_some_iff.2 ⟨hmem, fun t ht => ?_⟩).symm
    exact (h t ht m hmem).le_iff.1 (hle t ht)

/-- **The order of the stored text is that of the instants except where one is the other cut
short**; over values without such pairs, `MAX`, `ORDER BY` and comparisons with one of them
give what they give over the instants. -/
theorem formatTime_order_iff (ts : List ℤ) (hyears : ∀ t ∈ ts, FourDigitYear t) :
    (∀ a ∈ ts, ∀ b ∈ ts, TextOrder a b ↔ ¬CutShort a b ∧ ¬CutShort b a) ∧
    ((∀ a ∈ ts, ∀ b ∈ ts, ¬CutShort a b) → maxText ts = ts.max? ∧
      ts.insertionSort (fun a b => formatTime b ≤ formatTime a) =
        ts.insertionSort (fun a b => b ≤ a) ∧
      ∀ since ∈ ts,
        ts.filter (fun t => formatTime since ≤ formatTime t) = ts.filter (fun t => since ≤ t) ∧
        ts.filter (fun t => formatTime t < formatTime since) = ts.filter (fun t => t < since)) := by
  refine ⟨fun a ha b hb => textOrder_iff (hyears a ha) (hyears b hb), fun huncut => ?_⟩
  have horder : ∀ a ∈ ts, ∀ b ∈ ts, TextOrder a b := fun a ha b hb =>
    (textOrder_iff (hyears a ha) (hyears b hb)).2 ⟨huncut a ha b hb, huncut b hb a ha⟩
  refine ⟨maxText_eq_max horder, ?_, fun since hsince => ⟨?_, ?_⟩⟩
  · have hsort := map_insertionSort (fun a b => formatTime b ≤ formatTime a)
      (fun a b => b ≤ a) id ts fun a ha b hb => (horder b hb a ha).le_iff
    simpa using hsort
  · exact filter_congr fun t ht => decide_eq_decide.2 (horder since hsince t ht).le_iff
  · exact filter_congr fun t ht => decide_eq_decide.2 (horder t ht since hsince).1

/-- Two instants of one second, written with as many digits. -/
theorem formatTime_order_iff_tenths : TextOrder (march2026 + 100000000) (march2026 + 200000000) ∧
    maxText [march2026 + 100000000, march2026 + 200000000] = some (march2026 + 200000000) := by
  have hyears : ∀ t ∈ [march2026 + 100000000, march2026 + 200000000], FourDigitYear t := by
    decide +kernel
  have huncut : ∀ a ∈ [march2026 + 100000000, march2026 + 200000000],
      ∀ b ∈ [march2026 + 100000000, march2026 + 200000000], ¬CutShort a b := by
    decide +kernel
  obtain ⟨horder, hqueries⟩ := formatTime_order_iff _ hyears
  refine ⟨(horder _ (by simp) _ (by simp)).2 ⟨huncut _ (by simp) _ (by simp),
    huncut _ (by simp) _ (by simp)⟩, ?_⟩
  rw [(hqueries huncut).1]
  decide +kernel

/-- **A whole second comes after its own fractions.** -/
theorem not_textOrder_halfSecond : FourDigitYear march2026 ∧ FourDigitYear (march2026 + 500000000) ∧
    ¬TextOrder march2026 (march2026 + 500000000) := by
  refine ⟨by decide +kernel, by decide +kernel, fun h => ?_⟩
  exact absurd (h.1.2 (by decide +kernel)) (by decide +kernel)

end AnimeFeedFlux
