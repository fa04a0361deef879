import Mathlib.Data.List.Basic

/-!
# Programs over an instruction set

A program issues one instruction at a time and goes on with the reply.  Nothing is said
about what an instruction does: `run` interprets a program over a state, one instruction
after the other, and a pool of threads (`Lib/Pool`) interleaves several.

What a program can be relied on to do whatever the replies are, `Along` states: every
instruction it issues is allowed by a protocol `G`, which may look at the thread's own log,
and its answer satisfies `Q`.  Interference cannot break such a statement, since it already
holds for every reply.
-/

namespace AnimeFeedFlux

/-- A program that issues instructions `q : ι`, is answered in `ρ q`, and returns an `α`. -/
inductive Prog {ι : Type} (ρ : ι → Type) (α : Type) : Type
  | done (a : α)
  | call (q : ι) (k : ρ q → Prog ρ α)

/-- What has been issued and answered so far, the latest first. -/
abbrev Log {ι : Type} (ρ : ι → Type) := List (Sigma ρ)

namespace Prog

variable {ι : Type} {ρ : ι → Type} {α β γ : Type}

/-- Go on with `f` once `p` has answered. -/
def bind : Prog ρ α → (α → Prog ρ β) → Prog ρ β
  | .done a, f => f a
  | .call q k, f => .call q fun r => (k r).bind f

instance : Monad (Prog ρ) where
  pure := .done
  bind := Prog.bind

/-- Issue one instruction and return its reply. -/
def ask (q : ι) : Prog ρ (ρ q) := .call q .done

@[simp] theorem pure_eq (a : α) : (pure a : Prog ρ α) = .done a := rfl

@[simp] theorem done_bind (a : α) (f : α → Prog ρ β) : (.done a >>= f) = f a := rfl

@[simp] theorem call_bind (q : ι) (k : ρ q → Prog ρ α) (f : α → Prog ρ β) :
    (.call q k >>= f) = .call q fun r => k r >>= f := rfl

@[simp] theorem ask_bind (q : ι) (f : ρ q → Prog ρ β) : (ask q >>= f) = .call q f := rfl

/-- The answer of a finished program. -/
def answer? : Prog ρ α → Option α
  | .done a => some a
  | .call _ _ => none

variable {p : Prog ρ α}

theorem answer?_eq_some {a : α} : p.answer? = some a ↔ p = .done a := by
  cases p <;> simp [answer?]

/-- Run `p` to its end with nobody else running. -/
def run {σ : Type} (perform : (q : ι) → σ → σ × ρ q) : Prog ρ α → σ → σ × α
  | .done a, s => (s, a)
  | .call q k, s => (k (perform q s).2).run perform (perform q s).1

section Run

variable {σ : Type} (perform : (q : ι) → σ → σ × ρ q)

@[simp] theorem run_done (a : α) (s : σ) : (done a : Prog ρ α).run perform s = (s, a) := rfl

@[simp] theorem run_call (q : ι) (k : ρ q → Prog ρ α) (s : σ) :
    (call q k).run perform s = (k (perform q s).2).run perform (perform q s).1 := rfl

@[simp] theorem run_ask (q : ι) (s : σ) : (ask q).run perform s = perform q s := rfl

theorem run_bind (p : Prog ρ α) (f : α → Prog ρ β) (s : σ) :
    (p >>= f).run perform s = (f (p.run perform s).2).run perform (p.run perform s).1 := by
  induction p generalizing s with
  | done a => rfl
  | call q k ih => exact ih _ _

end Run

/-! ## What holds along a program -/

/-- Every instruction `p` issues after the log `h` is allowed by `G`, and the answer it
comes to satisfies `Q`, whatever the replies. -/
def Along (G : Log ρ → ι → Prop) (Q : Log ρ → α → Prop) : Log ρ → Prog ρ α → Prop
  | h, .done a => Q h a
  | h, .call q k => G h q ∧ ∀ r, Along G Q (⟨q, r⟩ :: h) (k r)

variable {G : Log ρ → ι → Prop} {Q Q' : Log ρ → α → Prop} {h : Log ρ}

@[simp] theorem along_done {a : α} : Along G Q h (.done a) ↔ Q h a := Iff.rfl

@[simp] theorem along_ask {q : ι} {Q : Log ρ → ρ q → Prop} :
    Along G Q h (ask q) ↔ G h q ∧ ∀ r, Q (⟨q, r⟩ :: h) r := Iff.rfl

theorem along_ask_bind {q : ι} {f : ρ q → Prog ρ α} :
    Along G Q h (ask q >>= f) ↔ G h q ∧ ∀ r, Along G Q (⟨q, r⟩ :: h) (f r) := Iff.rfl

theorem along_of_forall (hG : ∀ h q, G h q) (hQ : ∀ h a, Q h a) (p : Prog ρ α) : Along G Q h p := by
  induction p generalizing h with
  | done a => exact hQ h a
  | call q k ih => exact ⟨hG h q, fun r => ih r⟩

/-- **Sequencing**: the second program starts from whatever log and answer the first ends
with. -/
theorem along_bind {f : α → Prog ρ β} {Q : Log ρ → β → Prop} :
    Along G Q h (p >>= f) ↔ Along G (fun h' a => Along G Q h' (f a)) h p := by
  induction p generalizing h with
  | done a => exact Iff.rfl
  | call q k ih => exact and_congr_right fun _ => forall_congr' fun r => ih r

theorem Along.mono (hp : Along G Q h p) (hQ : ∀ h' a, Q h' a → Q' h' a) : Along G Q' h p := by
  induction p generalizing h with
  | done a => exact hQ _ _ hp
  | call q k ih => exact ⟨hp.1, fun r => ih r (hp.2 r)⟩

theorem Along.weaken {G' : Log ρ → ι → Prop} (hp : Along G Q h p) (hG : ∀ h' q, G h' q → G' h' q) :
    Along G' Q h p := by
  induction p generalizing h with
  | done a => exact hp
  | call q k ih => exact ⟨hG _ _ hp.1, fun r => ih r (hp.2 r)⟩

/-- What the allowed instructions keep about the state, a sequential run keeps. -/
theorem Along.run_keeps {σ : Type} {perform : (q : ι) → σ → σ × ρ q} {P : σ → Prop}
    (hp : Along G Q h p) (hG : ∀ h' q s, G h' q → P s → P (perform q s).1) (s : σ) (hs : P s) :
    P (p.run perform s).1 := by
  induction p generalizing h s with
  | done a => exact hs
  | call q k ih => exact ih _ (hp.2 _) _ (hG h q s hp.1 hs)

theorem Along.run_answer {σ : Type} (perform : (q : ι) → σ → σ × ρ q) {P : α → Prop}
    (hp : Along G (fun _ a => P a) h p) (s : σ) : P (p.run perform s).2 := by
  induction p generalizing h s with
  | done a => exact hp
  | call q k ih => exact ih _ (hp.2 _) _

theorem Along.keeps {β : Type} {f : Log ρ → β} (hp : Along G Q h p)
    (hf : ∀ h' q r, G h' q → f (⟨q, r⟩ :: h') = f h') :
    Along G (fun h' a => Q h' a ∧ f h' = f h) h p := by
  induction p generalizing h with
  | done a => exact ⟨hp, rfl⟩
  | call q k ih =>
    refine ⟨hp.1, fun r => (ih r (hp.2 r)).mono fun h' a hQ => ⟨hQ.1, ?_⟩⟩
    exact hQ.2.trans (hf h q r hp.1)

theorem Along.suffix (hp : Along G Q h p) : Along G (fun h' a => Q h' a ∧ h <:+ h') h p := by
  induction p generalizing h with
  | done a => exact ⟨hp, List.suffix_refl _⟩
  | call q k ih =>
    refine ⟨hp.1, fun r => (ih r (hp.2 r)).mono fun h' a hQ => ⟨hQ.1, ?_⟩⟩
    exact (List.suffix_cons _ _).trans hQ.2

end Prog

end AnimeFeedFlux
