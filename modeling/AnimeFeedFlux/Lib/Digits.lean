import Mathlib.Data.List.Lex
import Mathlib.Data.Char
import Mathlib.Tactic.NormNum

/-!
# Zero-padded decimals and the order of text

Text is a list of characters under the lexicographic order, which is what a byte-wise
comparison of UTF-8 text computes.  Zero-padded decimals of one width are ordered as the
numbers are, and a block of fixed width in front of a text decides the comparison before
what follows it (`append_lt_append_iff`): the two facts from which the order of any
fixed-layout timestamp is read off field by field.
-/

namespace AnimeFeedFlux.Digits

open List

/-- The character of a decimal digit. -/
def digit (d : ℕ) : Char := Char.ofNat (48 + d)

/-- The last `w` decimal digits of `n`, most significant first. -/
def pad : ℕ → ℕ → List Char
  | 0, _ => []
  | w + 1, n => pad w (n / 10) ++ [digit (n % 10)]

@[simp] theorem length_pad (w n : ℕ) : (pad w n).length = w := by
  induction w generalizing n with
  | zero => rfl
  | succ w ih => simp [pad, ih]

theorem isDigit_of_mem_pad {w n : ℕ} {c : Char} (h : c ∈ pad w n) : c.isDigit := by
  induction w generalizing n with
  | zero => cases h
  | succ w ih =>
    rcases mem_append.1 h with h | h
    · exact ih h
    obtain rfl := mem_singleton.1 h
    have key : ∀ d < 10, (digit d).isDigit := by decide
    exact key _ (Nat.mod_lt _ (by decide))

theorem digit_lt {d e : ℕ} (h : d < e) (he : e < 10) : digit d < digit e := by
  have key : ∀ e < 10, ∀ d < e, digit d < digit e := by decide
  exact key e he d h

/-- **A block of fixed width decides first.** -/
theorem append_lt_append_iff {a b c d : List Char} (h : a.length = b.length) :
    a ++ c < b ++ d ↔ a < b ∨ (a = b ∧ c < d) := by
  induction a generalizing b with
  | nil =>
    obtain rfl := length_eq_zero_iff.mp h.symm
    simp
  | cons x xs ih =>
    cases b with
    | nil => simp at h
    | cons y ys =>
      have hlen : xs.length = ys.length := by simpa using h
      simp only [cons_append, cons_lt_cons_iff, ih hlen, List.cons.injEq]
      tauto

theorem pad_lt {w m n : ℕ} (h : m < n) (hn : n < 10 ^ w) : pad w m < pad w n := by
  induction w generalizing m n with
  | zero => simp at hn; omega
  | succ w ih =>
    have hw : n / 10 < 10 ^ w := by rw [pow_succ] at hn; omega
    simp only [pad]
    rw [append_lt_append_iff (by simp)]
    rcases lt_or_eq_of_le (Nat.div_le_div_right h.le : m / 10 ≤ n / 10) with hlt | heq
    · exact .inl (ih hlt hw)
    refine .inr ⟨by rw [heq], ?_⟩
    rw [cons_lt_cons_iff]
    exact .inl (digit_lt (by omega) (by omega))

/-- A field that is earlier decides. -/
theorem pad_append_lt {w m n : ℕ} (h : m < n) (hn : n < 10 ^ w) (s t : List Char) :
    pad w m ++ s < pad w n ++ t :=
  (append_lt_append_iff (by simp)).2 (.inl (pad_lt h hn))

/-- Equal fields leave it to what follows their separator. -/
theorem append_cons_lt {a b s t : List Char} (h : a = b) (c : Char) (hst : s < t) :
    a ++ (c :: s) < b ++ (c :: t) := by
  rw [h]
  exact (append_lt_append_iff rfl).2 (.inr ⟨rfl, cons_lt_cons_iff.2 (.inr ⟨rfl, hst⟩)⟩)

end AnimeFeedFlux.Digits
