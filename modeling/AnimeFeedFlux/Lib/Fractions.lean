import AnimeFeedFlux.Lib.Digits
import Mathlib.Data.List.TakeWhile

/-!
# Decimal fractions without trailing zeros

The digits of a fraction are zero-padded and then lose their zeros at the end.  Under the
lexicographic order such texts are ordered as the fractions, if a text that is the beginning of
another comes before it.  A mark behind the last digit that is greater than every digit turns
just those pairs around.
-/

namespace AnimeFeedFlux.Digits

open List

/-! ## Padded decimals -/

theorem pad_add (u i n : ℕ) : pad (u + i) n = pad u (n / 10 ^ i) ++ pad i n := by
  induction i generalizing n with
  | zero => simp [pad]
  | succ i ih =>
    rw [← Nat.add_assoc, pad, ih, pad, Nat.div_div_eq_div_mul, ← Nat.pow_succ', append_assoc]

variable {w m n i : ℕ}

theorem pad_inj (hm : m < 10 ^ w) (hn : n < 10 ^ w) (h : pad w m = pad w n) : m = n := by
  rcases Nat.lt_trichotomy m n with hlt | heq | hgt
  · have := pad_lt hlt hn
    rw [h] at this
    exact absurd this (lt_irrefl _)
  · exact heq
  · have := pad_lt hgt hm
    rw [h] at this
    exact absurd this (lt_irrefl _)

theorem pad_mod (w n : ℕ) : pad w (n % 10 ^ w) = pad w n := by
  induction w generalizing n with
  | zero => rfl
  | succ w ih =>
    have hdiv : n % 10 ^ (w + 1) / 10 = n / 10 % 10 ^ w := by
      rw [Nat.pow_succ', Nat.mod_mul_right_div_self]
    have hmod : n % 10 ^ (w + 1) % 10 = n % 10 := by
      rw [Nat.pow_succ', Nat.mod_mul_right_mod]
    simp [pad, hdiv, hmod, ih]

theorem pad_zero (w : ℕ) : pad w 0 = List.replicate w '0' := by
  induction w with
  | zero => rfl
  | succ w ih =>
    rw [pad, Nat.zero_div, ih, replicate_succ']
    rfl

theorem pad_eq_zeros : pad i n = List.replicate i '0' ↔ n % 10 ^ i = 0 := by
  have hpos : 0 < 10 ^ i := Nat.pow_pos (by decide)
  rw [← pad_zero, ← pad_mod i n]
  constructor
  · intro h
    exact pad_inj (Nat.mod_lt _ hpos) hpos h
  · intro h
    rw [h]

theorem mem_pad {c : Char} (h : c ∈ pad w n) : '0' ≤ c ∧ c ≤ '9' := by
  induction w generalizing n with
  | zero => cases h
  | succ w ih =>
    rw [pad, mem_append, mem_singleton] at h
    rcases h with h | rfl
    · exact ih h
    have key : ∀ d < 10, '0' ≤ digit d ∧ digit d ≤ '9' := by decide
    exact key _ (Nat.mod_lt _ (by decide))

/-! ## Trailing zeros -/

/-- A text without its zeros at the end. -/
def trimZeros (l : List Char) : List Char := (l.reverse.dropWhile (· == '0')).reverse

theorem trimZeros_append_zeros (l : List Char) : ∃ i, l = trimZeros l ++ List.replicate i '0' := by
  refine ⟨(l.reverse.takeWhile (· == '0')).length, ?_⟩
  have hzeros : l.reverse.takeWhile (· == '0') =
      List.replicate (l.reverse.takeWhile (· == '0')).length '0' := by
    rw [eq_replicate_iff]
    refine ⟨rfl, fun c hc => ?_⟩
    simpa using mem_takeWhile_imp hc
  have hsplit := congrArg List.reverse
    (takeWhile_append_dropWhile (p := (· == '0')) (l := l.reverse))
  rw [reverse_append, reverse_reverse] at hsplit
  rw [trimZeros, ← reverse_replicate, ← hzeros]
  exact hsplit.symm

theorem trimZeros_isPrefix (l : List Char) : trimZeros l <+: l := by
  obtain ⟨i, hi⟩ := trimZeros_append_zeros l
  exact ⟨_, hi.symm⟩

theorem trimZeros_zeros_append (a : List Char) (i : ℕ) :
    trimZeros (a ++ List.replicate i '0') = trimZeros a := by
  rw [trimZeros, trimZeros, reverse_append, reverse_replicate]
  congr 1
  induction i with
  | zero => rfl
  | succ i ih =>
    rw [replicate_succ, cons_append, dropWhile_cons_of_pos (by rfl)]
    exact ih

theorem trimZeros_append (a : List Char) {b : List Char} (hb : ∃ c ∈ b, c ≠ '0') :
    trimZeros (a ++ b) = a ++ trimZeros b := by
  rw [trimZeros, trimZeros, reverse_append, dropWhile_append]
  have hne : b.reverse.dropWhile (· == '0') ≠ [] := by
    obtain ⟨c, hc, hc0⟩ := hb
    rw [Ne, dropWhile_eq_nil_iff]
    intro h
    exact hc0 (by simpa using h c (mem_reverse.2 hc))
  rw [if_neg (by simpa using hne)]
  simp

/-! ## The order of marked texts -/

theorem not_lt_zeros {p : List Char} (h0 : ∀ c ∈ p, '0' ≤ c) :
    ¬p < List.replicate p.length '0' := by
  induction p with
  | nil => simp
  | cons c p ih =>
    rw [length_cons, replicate_succ, cons_lt_cons_iff, not_or]
    refine ⟨not_lt.2 (h0 c (mem_cons_self ..)), ?_⟩
    rintro ⟨-, hlt⟩
    exact ih (fun c hc => h0 c (mem_cons_of_mem _ hc)) hlt

/-- **A mark greater than every digit turns around the pairs in which the smaller text is the
beginning of the greater**, and no other. -/
theorem trimmed_lt_iff {mark : Char} {P Q : List Char} (hP : ∀ c ∈ P, '0' ≤ c)
    (hQ : ∀ c ∈ Q, c < mark) {j : ℕ}
    (hlen : (P ++ List.replicate i '0').length = (Q ++ List.replicate j '0').length)
    (hlt : P ++ List.replicate i '0' < Q ++ List.replicate j '0') :
    P ++ [mark] < Q ++ [mark] ↔ ¬P <+: Q := by
  induction P generalizing Q with
  | nil =>
    refine iff_of_false ?_ (not_not.2 (List.nil_prefix))
    cases Q with
    | nil => exact lt_irrefl _
    | cons d Q =>
      have hd := hQ d (mem_cons_self ..)
      simp only [nil_append, cons_append, cons_lt_cons_iff, not_or]
      exact ⟨lt_asymm hd, fun h => absurd h.1 hd.ne'⟩
  | cons c P ih =>
    cases Q with
    | nil =>
      rw [nil_append] at hlt hlen
      have hzeros : j = (c :: P ++ List.replicate i '0').length := by
        rw [hlen, length_replicate]
      rw [hzeros] at hlt
      refine absurd hlt (not_lt_zeros fun x hx => ?_)
      rcases mem_append.1 hx with hx | hx
      · exact hP x hx
      · exact (eq_of_mem_replicate hx).ge
    | cons d Q =>
      simp only [cons_append, cons_lt_cons_iff] at hlt ⊢
      rw [cons_prefix_cons]
      rcases hlt with hcd | ⟨rfl, hlt⟩
      · exact iff_of_true (.inl hcd) fun h => hcd.ne h.1
      have hlen' : (P ++ List.replicate i '0').length = (Q ++ List.replicate j '0').length := by
        simpa using hlen
      have := ih (fun x hx => hP x (mem_cons_of_mem _ hx))
        (fun x hx => hQ x (mem_cons_of_mem _ hx)) hlen' hlt
      simpa [lt_irrefl] using this

/-! ## Beginnings of fractions -/

/-- **One fraction is the beginning of another** iff it is that one cut short after some
digit. -/
theorem trimZeros_isPrefix_iff (hlt : m < n) (hn : n < 10 ^ w) :
    trimZeros (pad w m) <+: trimZeros (pad w n) ↔ ∃ k ≤ w, m = n - n % 10 ^ k := by
  constructor
  · intro h
    obtain ⟨i, hi⟩ := trimZeros_append_zeros (pad w m)
    have hlen := congrArg List.length hi
    rw [length_pad, length_append, length_replicate] at hlen
    obtain ⟨u, hu⟩ : ∃ u, u = (trimZeros (pad w m)).length := ⟨_, rfl⟩
    have hw : w = u + i := by omega
    have hsplit : pad u (m / 10 ^ i) ++ pad i m = trimZeros (pad w m) ++ List.replicate i '0' := by
      rw [← pad_add, ← hw]
      exact hi
    obtain ⟨hhead, htail⟩ := append_inj hsplit (by rw [length_pad]; exact hu)
    have hbeginning : trimZeros (pad w m) <+: pad u (n / 10 ^ i) ++ pad i n := by
      rw [← pad_add, ← hw]
      exact h.trans (trimZeros_isPrefix _)
    have hsame : pad u (m / 10 ^ i) = pad u (n / 10 ^ i) := by
      rw [hhead]
      exact (prefix_of_prefix_length_le hbeginning (prefix_append _ _)
        (by rw [length_pad, ← hu])).eq_of_length (by rw [length_pad, ← hu])
    have hbound : n / 10 ^ i < 10 ^ u := by
      rw [Nat.div_lt_iff_lt_mul (Nat.pow_pos (by decide)), ← Nat.pow_add, ← hw]
      exact hn
    have hdiv : m / 10 ^ i = n / 10 ^ i :=
      pad_inj ((Nat.div_le_div_right hlt.le).trans_lt hbound) hbound hsame
    have hm := Nat.div_add_mod m (10 ^ i)
    have hn' := Nat.div_add_mod n (10 ^ i)
    rw [pad_eq_zeros.1 htail, hdiv] at hm
    exact ⟨i, by omega, by omega⟩
  · rintro ⟨k, hk, rfl⟩
    obtain ⟨u, rfl⟩ : ∃ u, w = u + k := ⟨w - k, by omega⟩
    have hpos : 0 < 10 ^ k := Nat.pow_pos (by decide)
    have hcut : n - n % 10 ^ k = 10 ^ k * (n / 10 ^ k) := by
      have := Nat.div_add_mod n (10 ^ k)
      omega
    have hrest : ∃ c ∈ pad k n, c ≠ '0' := by
      by_contra hall
      have hzeros : pad k n = List.replicate k '0' :=
        eq_replicate_iff.2 ⟨length_pad k n, fun c hc => by
          by_contra hne
          exact hall ⟨c, hc, hne⟩⟩
      have := pad_eq_zeros.1 hzeros
      omega
    have hzeros : pad k (n - n % 10 ^ k) = List.replicate k '0' := by
      rw [pad_eq_zeros, hcut, Nat.mul_mod_right]
    have hhead : (n - n % 10 ^ k) / 10 ^ k = n / 10 ^ k := by
      rw [hcut, Nat.mul_div_cancel_left _ hpos]
    rw [pad_add u k (n - n % 10 ^ k), hhead, hzeros, trimZeros_zeros_append, pad_add u k n,
      trimZeros_append _ hrest]
    exact (trimZeros_isPrefix _).trans (prefix_append _ _)

end AnimeFeedFlux.Digits
