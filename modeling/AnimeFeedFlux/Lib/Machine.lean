import Mathlib.Data.List.Basic

/-!
# Runs of a deterministic machine

A machine is a step function `step : S → A → S`: the label `A` carries every choice
the environment makes (arguments, clock readings, outcomes of foreign calls), so a run
from a given state is determined by its list of labels.  This module supplies the
notions every statement about whole runs is made of, and the inductions that connect them.
-/

namespace AnimeFeedFlux.Machine

universe u v
variable {S : Type u} {A : Type v} (step : S → A → S)

/-- The state after running the labels `as` from `s`. -/
def exec (s : S) (as : List A) : S := as.foldl step s

/-- `P` holds in every state of the run, the first and the last included. -/
def Always (P : S → Prop) : S → List A → Prop
  | s, [] => P s
  | s, a :: as => P s ∧ Always P (step s a) as

/-- Every step of the run meets `C` in the state it is taken from. -/
def Meets (C : S → A → Prop) : S → List A → Prop
  | _, [] => True
  | s, a :: as => C s a ∧ Meets C (step s a) as

instance decidableMeets (C : S → A → Prop) [∀ s a, Decidable (C s a)] :
    ∀ (s : S) (as : List A), Decidable (Meets step C s as)
  | _, [] => inferInstanceAs (Decidable True)
  | s, a :: as =>
    have := decidableMeets C (step s a) as
    inferInstanceAs (Decidable (C s a ∧ Meets step C (step s a) as))

@[simp] theorem exec_nil (s : S) : exec step s [] = s := rfl

@[simp] theorem exec_cons (s : S) (a : A) (as : List A) :
    exec step s (a :: as) = exec step (step s a) as := rfl

theorem exec_append (s : S) (as bs : List A) :
    exec step s (as ++ bs) = exec step (exec step s as) bs := by
  simp [exec]

theorem exec_concat (s : S) (as : List A) (a : A) :
    exec step s (as ++ [a]) = step (exec step s as) a := by
  rw [exec_append, exec_cons, exec_nil]

theorem exec_induction (P : S → Prop) (hstep : ∀ s a, P s → P (step s a)) :
    ∀ (as : List A) (s : S), P s → P (exec step s as) := by
  intro as
  induction as with
  | nil => intro s hs; exact hs
  | cons a as ih => intro s hs; exact ih _ (hstep s a hs)

variable {P : S → Prop} {s : S} {a : A} {as : List A} {C : S → A → Prop}

@[simp] theorem always_nil : Always step P s [] ↔ P s := Iff.rfl

@[simp] theorem always_cons :
    Always step P s (a :: as) ↔ P s ∧ Always step P (step s a) as := Iff.rfl

@[simp] theorem meets_nil : Meets step C s [] := trivial

@[simp] theorem meets_cons :
    Meets step C s (a :: as) ↔ C s a ∧ Meets step C (step s a) as := Iff.rfl

theorem meets_append {bs : List A} :
    Meets step C s (as ++ bs) ↔ Meets step C s as ∧ Meets step C (exec step s as) bs := by
  induction as generalizing s with
  | nil => simp
  | cons a as ih => simp [ih, and_assoc]

theorem meets_and {D : S → A → Prop} :
    Meets step (fun s a => C s a ∧ D s a) s as ↔ Meets step C s as ∧ Meets step D s as := by
  induction as generalizing s with
  | nil => simp
  | cons a as ih => simp [ih, and_and_and_comm]

variable {step}

/-- **The invariant rule.**  What holds at the start and is kept by every step that meets
`C` holds throughout a run whose steps all meet `C`. -/
theorem always_of_meets (hstep : ∀ s a, P s → C s a → P (step s a)) :
    ∀ (as : List A) (s : S), P s → Meets step C s as → Always step P s as := by
  intro as
  induction as with
  | nil => intro s hs _; exact hs
  | cons a as ih =>
    intro s hs hm
    exact ⟨hs, ih (step s a) (hstep s a hs hm.1) hm.2⟩

theorem always_of_step (hstep : ∀ s a, P s → P (step s a)) :
    ∀ (as : List A) (s : S), P s → Always step P s as := by
  intro as
  induction as with
  | nil => exact fun s hs => hs
  | cons a as ih => exact fun s hs => ⟨hs, ih (step s a) (hstep s a hs)⟩

/-- **The rule for relations.**  A preorder that every step meeting `C` respects, from states
that satisfy an invariant, relates any two states of a run whose steps all meet `C`. -/
theorem related_of_meets {R : S → S → Prop} (P : S → Prop) (hrefl : ∀ s, P s → R s s)
    (htrans : ∀ {r s t}, R r s → R s t → R r t)
    (hstep : ∀ s a, P s → C s a → P (step s a) ∧ R s (step s a)) (before after : List A) (s : S)
    (hs : P s) (hm : Meets step C s (before ++ after)) :
    R (exec step s before) (exec step s (before ++ after)) := by
  induction before generalizing s with
  | cons a before ih => exact ih (step s a) (hstep s a hs hm.1).1 hm.2
  | nil =>
    rw [List.nil_append, exec_nil]
    rw [List.nil_append] at hm
    induction after generalizing s with
    | nil => exact hrefl s hs
    | cons a after ih =>
      obtain ⟨hP, hR⟩ := hstep s a hs hm.1
      exact htrans hR (ih (step s a) hP hm.2)

theorem Always.head : ∀ {as : List A}, Always step P s as → P s
  | [], h => h
  | _ :: _, h => h.1

/-- Where a step keeps `P` exactly if it meets `C`, a run keeps `P` exactly if all its steps
meet `C`. -/
theorem always_iff_meets {I : S → Prop} (hinv : ∀ s a, I s → I (step s a))
    (hstep : ∀ s a, I s → P s → (P (step s a) ↔ C s a)) :
    ∀ (as : List A) (s : S), I s → P s → (Always step P s as ↔ Meets step C s as) := by
  intro as
  induction as with
  | nil => intro s _ hs; simp [hs]
  | cons a as ih =>
    intro s hI hs
    rw [always_cons, meets_cons, ← hstep s a hI hs]
    constructor
    · exact fun h => ⟨h.2.head, (ih _ (hinv s a hI) h.2.head).1 h.2⟩
    · exact fun h => ⟨hs, (ih _ (hinv s a hI) h.1).2 h.2⟩

theorem Always.mono {Q : S → Prop} (hPQ : ∀ s, P s → Q s) :
    ∀ {as : List A} {s : S}, Always step P s as → Always step Q s as := by
  intro as
  induction as with
  | nil => intro s h; exact hPQ s h
  | cons a as ih => intro s h; exact ⟨hPQ s h.1, ih h.2⟩

theorem Always.last : ∀ {as : List A} {s : S}, Always step P s as → P (exec step s as) := by
  intro as
  induction as with
  | nil => intro s h; exact h
  | cons a as ih => intro s h; exact ih h.2

end AnimeFeedFlux.Machine
