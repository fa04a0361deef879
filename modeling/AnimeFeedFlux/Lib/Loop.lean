import Mathlib.Data.Nat.Notation

/-!
# Loops that return from their body

A `for` loop without a condition ends when its body returns.  The body is a function
`body : σ → σ ⊕ ρ`: the next state, or the value returned.  Nothing says that such a loop
ends, so running it takes a number of iterations and may find it still going.
-/

namespace AnimeFeedFlux.Loop

universe u v
variable {σ : Type u} {ρ : Type v} (body : σ → σ ⊕ ρ)

/-- What the loop returns within `n` iterations from `s`, if it does. -/
def run : ℕ → σ → Option ρ
  | 0, _ => none
  | n + 1, s =>
    match body s with
    | .inl s' => run n s'
    | .inr r => some r

/-- The states in which the first `n` iterations from `s` begin. -/
def trail : ℕ → σ → List σ
  | 0, _ => []
  | n + 1, s =>
    s :: match body s with
      | .inl s' => trail n s'
      | .inr _ => []

/-- The states in which an iteration begins. -/
inductive Visits (s : σ) : σ → Prop
  | refl : Visits s s
  | step {t t' : σ} (h : Visits s t) (hbody : body t = .inl t') : Visits s t'

/-- The loop returns `r`. -/
def Returns (s : σ) (r : ρ) : Prop := ∃ n, run body n s = some r

/-- The loop returns after finitely many iterations. -/
def Ends (s : σ) : Prop := ∃ r, Returns body s r

variable {body}

@[simp] theorem run_zero (s : σ) : run body 0 s = none := rfl

variable {s s' t : σ} {r : ρ} {n : ℕ}

theorem run_of_inl (h : body s = .inl s') (n : ℕ) : run body (n + 1) s = run body n s' := by
  simp [run, h]

theorem run_of_inr (h : body s = .inr r) (n : ℕ) : run body (n + 1) s = some r := by
  simp [run, h]

theorem Visits.head (hbody : body s = .inl s') (h : Visits body s' t) : Visits body s t := by
  induction h with
  | refl => exact .step .refl hbody
  | step _ hlast ih => exact .step ih hlast

theorem visits_iff : Visits body s t ↔ t = s ∨ ∃ s', body s = .inl s' ∧ Visits body s' t := by
  constructor
  · intro h
    induction h with
    | refl => exact .inl rfl
    | step _ hbody ih =>
      rcases ih with rfl | ⟨s', hs', hvisits⟩
      · exact .inr ⟨_, hbody, .refl⟩
      · exact .inr ⟨s', hs', .step hvisits hbody⟩
  · rintro (rfl | ⟨s', hs', hvisits⟩)
    · exact .refl
    · exact hvisits.head hs'

theorem Returns.of_visits (h : Visits body s t) (hr : Returns body t r) : Returns body s r := by
  induction h with
  | refl => exact hr
  | step _ hbody ih =>
    obtain ⟨n, hn⟩ := hr
    exact ih ⟨n + 1, (run_of_inl hbody n).trans hn⟩

/-- **The value returned is that of a state the loop visits.** -/
theorem returns_iff : Returns body s r ↔ ∃ t, Visits body s t ∧ body t = .inr r := by
  constructor
  · rintro ⟨n, hn⟩
    induction n generalizing s with
    | zero => cases hn
    | succ n ih =>
      cases hbody : body s with
      | inl s' =>
        rw [run_of_inl hbody] at hn
        obtain ⟨t, ht, hr⟩ := ih hn
        exact ⟨t, ht.head hbody, hr⟩
      | inr r' =>
        rw [run_of_inr hbody] at hn
        cases hn
        exact ⟨s, .refl, hbody⟩
  · rintro ⟨t, ht, hr⟩
    exact .of_visits ht ⟨1, run_of_inr hr 0⟩

theorem run_mono : ∀ {s : σ}, run body n s = some r → ∀ m, run body (n + m) s = some r := by
  induction n with
  | zero => intro s h; cases h
  | succ n ih =>
    intro s h m
    rw [Nat.succ_add]
    cases hbody : body s with
    | inl s' =>
      rw [run_of_inl hbody] at h ⊢
      exact ih h m
    | inr r' =>
      rw [run_of_inr hbody] at h ⊢
      exact h

theorem mem_trail : ∀ {s t : σ}, run body n s = some r → Visits body s t → t ∈ trail body n s := by
  induction n with
  | zero => intro s t h; cases h
  | succ n ih =>
    intro s t h ht
    rw [trail, List.mem_cons]
    rcases visits_iff.1 ht with rfl | ⟨s', hs', ht'⟩
    · exact .inl rfl
    rw [run_of_inl hs'] at h
    rw [hs']
    exact .inr (ih h ht')

theorem Returns.unique {r' : ρ} (h : Returns body s r) (h' : Returns body s r') : r = r' := by
  obtain ⟨n, hn⟩ := h
  obtain ⟨m, hm⟩ := h'
  have hr := run_mono hn m
  rw [Nat.add_comm, run_mono hm n] at hr
  exact (Option.some.inj hr).symm

/-- **The rule for termination.**  A loop that ends an iteration with a smaller measure, in
every state it visits, returns within as many iterations as the measure says. -/
theorem run_of_measure {C : σ → Prop} (μ : σ → ℕ)
    (hfalls : ∀ t t', C t → body t = .inl t' → μ t' < μ t) (s : σ)
    (hC : ∀ t, Visits body s t → C t) : ∃ r, run body (μ s + 1) s = some r := by
  have hrun : ∀ n s, (∀ t, Visits body s t → C t) → μ s ≤ n → ∃ r, run body (n + 1) s = some r := by
    intro n
    induction n with
    | zero =>
      intro s hC hn
      cases hbody : body s with
      | inl s' =>
        have := hfalls s s' (hC s .refl) hbody
        omega
      | inr r => exact ⟨r, run_of_inr hbody 0⟩
    | succ n ih =>
      intro s hC hn
      cases hbody : body s with
      | inl s' =>
        have := hfalls s s' (hC s .refl) hbody
        rw [run_of_inl hbody]
        exact ih s' (fun t ht => hC t (ht.head hbody)) (by omega)
      | inr r => exact ⟨r, run_of_inr hbody _⟩
  exact hrun (μ s) s hC (Nat.le_refl _)

/-- A loop that stays among states from which it does not return does not end. -/
theorem not_ends_of_trap {P : σ → Prop} (htrap : ∀ t, P t → ∃ t', body t = .inl t' ∧ P t')
    (hs : P s) : ¬Ends body s := by
  have hvisits : ∀ t, Visits body s t → P t := by
    intro t ht
    induction ht with
    | refl => exact hs
    | step _ hbody ih =>
      obtain ⟨t', ht', hP⟩ := htrap _ ih
      rw [hbody] at ht'
      cases ht'
      exact hP
  rintro ⟨r, hr⟩
  obtain ⟨t, ht, hbody⟩ := returns_iff.1 hr
  obtain ⟨t', ht', -⟩ := htrap t (hvisits t ht)
  rw [hbody] at ht'
  cases ht'

end AnimeFeedFlux.Loop
