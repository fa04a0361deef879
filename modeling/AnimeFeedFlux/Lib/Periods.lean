import Mathlib.RingTheory.Coprime.Lemmas
import Mathlib.Tactic.LinearCombination

/-!
# Multiples of a period, from an origin

The points at a multiple of `n` from an origin `a`, where a distance is only counted up to `k`:
beyond it every point is taken to be at distance `k`.  Two such sets are equal only if they have
the same period and the same origin, or both periods are longer than any distance that is counted,
or both are one.
-/

namespace AnimeFeedFlux.Periods

open Int

/-- A distance, as far as it is counted. -/
def clamp (k x : ℤ) : ℤ := max (-k) (min k x)

/-- `d` is at a multiple of `n` from `a`. -/
def Hits (k n a d : ℤ) : Prop := n ∣ clamp k (d - a)

theorem clamp_of_le {k x : ℤ} (hlo : -k ≤ x) (hhi : x ≤ k) : clamp k x = x := by
  rw [clamp]
  omega

theorem clamp_of_ge {k x : ℤ} (hk : 0 ≤ k) (h : k ≤ x) : clamp k x = k := by
  rw [clamp]
  omega

theorem hits_origin {k : ℤ} (hk : 0 ≤ k) (n a : ℤ) : Hits k n a a := by
  rw [Hits, clamp_of_le (by omega) (by omega), sub_self]
  exact dvd_zero n

theorem dvd_iff_of_lt {n x : ℤ} (hlo : -n < x) (hhi : x < n) : n ∣ x ↔ x = 0 := by
  constructor
  · intro hdvd
    rcases lt_trichotomy x 0 with hneg | h0 | hpos
    · have := le_of_dvd (show 0 < -x by omega) (dvd_neg.2 hdvd)
      omega
    · exact h0
    · have := le_of_dvd hpos hdvd
      omega
  · intro h0
    rw [h0]
    exact dvd_zero n

section
variable {k n n' a a' : ℤ}

/-- Where both distances are at the limit or beyond, only the nearer origin can tell points
apart. -/
theorem not_lt_of_hits (hk : 1 ≤ k) (hn' : 2 ≤ n')
    (h : ∀ d, Hits k n a d ↔ Hits k n' a' d) : ¬a < a' := by
  intro hlt
  have hfar : ∀ j, 0 ≤ j → j ≤ k → j ≤ a' - a → (n ∣ k ↔ n' ∣ k - j) := by
    intro j hj hjk hja
    have hd := h (k - j + a')
    rwa [Hits, Hits, clamp_of_ge (by omega) (by omega), clamp_of_le (by omega) (by omega),
      Int.add_sub_cancel] at hd
  have hfirst : n ∣ k ↔ n' ∣ k := by simpa using hfar 0 (by omega) (by omega) (by omega)
  have hsecond : n ∣ k ↔ n' ∣ k - 1 := hfar 1 (by omega) (by omega) (by omega)
  have hnone : ¬n ∣ k := by
    intro hdvd
    have hone : n' ∣ 1 := by
      have := dvd_sub (hfirst.1 hdvd) (hsecond.1 hdvd)
      rwa [sub_sub_self] at this
    have := le_of_dvd (by decide) hone
    omega
  by_cases hnear : a' - a < k
  · -- The nearer origin is hit, so the period fits between the two.
    have hperiod : n' ∣ a' - a := by
      have hd := (h a).1 (hits_origin (by omega) n a)
      rw [Hits, clamp_of_le (by omega) (by omega)] at hd
      rwa [← neg_sub, dvd_neg] at hd
    have hle := le_of_dvd (by omega) hperiod
    have hmod := emod_nonneg k (show n' ≠ 0 by omega)
    have hmod' := emod_lt_of_pos k (show 0 < n' by omega)
    exact hnone ((hfar (k % n') hmod (by omega) (by omega)).2 (dvd_self_sub_emod))
  · refine hnone ((hfar k (by omega) (by omega) (by omega)).2 ?_)
    rw [sub_self]
    exact dvd_zero n'

/-- **The period and the origin can be read off.** -/
theorem eq_of_hits (hk : 1 ≤ k) (hn : 1 ≤ n) (hn' : 1 ≤ n')
    (h : ∀ d, Hits k n a d ↔ Hits k n' a' d) :
    n = 1 ∧ n' = 1 ∨ a = a' ∧ (n = n' ∨ k < n ∧ k < n') := by
  have hone : ∀ {m m' b b' : ℤ}, (∀ d, Hits k m b d ↔ Hits k m' b' d) → m = 1 → 1 ≤ m' →
      m' = 1 := by
    intro m m' b b' hm hm1 hm'
    have hd := (hm (1 + b')).1 (by rw [Hits, hm1]; exact one_dvd _)
    rw [Hits, clamp_of_le (by omega) (by omega), Int.add_sub_cancel] at hd
    have := le_of_dvd (by decide) hd
    omega
  by_cases h1 : n = 1
  · exact .inl ⟨h1, hone h h1 hn'⟩
  have h1' : n' ≠ 1 := fun h1' => h1 (hone (fun d => (h d).symm) h1' hn)
  have hlt := not_lt_of_hits hk (by omega) h
  have hgt := not_lt_of_hits hk (show 2 ≤ n by omega) fun d => (h d).symm
  have ha : a = a' := by omega
  subst ha
  refine .inr ⟨rfl, ?_⟩
  have hsmall : ∀ x, 0 ≤ x → x ≤ k → (n ∣ x ↔ n' ∣ x) := by
    intro x hx hxk
    have hd := h (x + a)
    rwa [Hits, Hits, Int.add_sub_cancel, clamp_of_le (by omega) hxk] at hd
  by_cases hnk : n ≤ k
  · have hdvd := (hsmall n (by omega) hnk).1 (dvd_refl n)
    have hle := le_of_dvd (by omega) hdvd
    have hdvd' := (hsmall n' (by omega) (by omega)).2 (dvd_refl n')
    have hle' := le_of_dvd (by omega) hdvd'
    exact .inl (by omega)
  · by_cases hnk' : n' ≤ k
    · have hdvd := (hsmall n' (by omega) hnk').2 (dvd_refl n')
      have hle := le_of_dvd (by omega) hdvd
      omega
    · exact .inr ⟨by omega, by omega⟩

theorem eq_of_multiples (hn : 1 ≤ n) (hn' : 1 ≤ n') (h : ∀ m, n ∣ m - a ↔ n' ∣ m - a') :
    n = n' ∧ n ∣ a' - a := by
  have hstep : ∀ {m m' b b' : ℤ}, (∀ x, m ∣ x - b ↔ m' ∣ x - b') → m' ∣ m := by
    intro m m' b b' hm
    have h0 := (hm b).1 (by rw [sub_self]; exact dvd_zero m)
    have h1 := (hm (m + b)).1 (by rw [Int.add_sub_cancel])
    rw [add_sub_assoc] at h1
    exact (dvd_add_left h0).1 h1
  refine ⟨le_antisymm ?_ ?_, (h a').2 (by rw [sub_self]; exact dvd_zero n')⟩
  · exact le_of_dvd (by omega) (hstep fun m => (h m).symm)
  · exact le_of_dvd (by omega) (hstep h)

end

/-! ## Numbers that are congruent modulo a power of two -/

theorem two_pow_dvd_of_odd {w m : ℤ} {k : ℕ} (hw : w % 2 = 1) (h : 2 ^ k ∣ w * m) : 2 ^ k ∣ m := by
  have hcoprime : IsCoprime (2 : ℤ) w := ⟨-(w / 2), 1, by omega⟩
  exact hcoprime.pow_left.dvd_of_dvd_mul_left h

/-- If `3 * 2 ^ j` times a number is less than `2 ^ j` times one that is congruent to it, then
both are congruent to zero. -/
theorem two_pow_dvd_of_mul_eq {m q : ℤ} {k : ℕ} (j : ℕ) {c : ℤ} (hc : 1 ≤ c) (hc' : c < 2 ^ j)
    (h : 3 * 2 ^ j * m = c * (m + 2 ^ k * q)) : 2 ^ k ∣ m := by
  induction j generalizing c with
  | zero => omega
  | succ j ih =>
    rw [pow_succ] at hc' h
    by_cases hodd : c % 2 = 1
    · refine two_pow_dvd_of_odd (w := 3 * (2 ^ j * 2) - c) (by omega) ⟨c * q, ?_⟩
      linear_combination h
    -- Both factors are even.
    obtain ⟨c', rfl⟩ : ∃ c', c = 2 * c' := ⟨c / 2, by omega⟩
    refine ih (c := c') (by omega) (by omega) ?_
    apply Int.eq_of_mul_eq_mul_left (show (2 : ℤ) ≠ 0 by decide)
    linear_combination h

end AnimeFeedFlux.Periods
