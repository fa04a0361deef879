import AnimeFeedFlux.Lib.Machine
import AnimeFeedFlux.Lib.Prog
import Mathlib.Algebra.GroupWithZero.Nat
import Mathlib.Algebra.Order.BigOperators.Group.List
import Mathlib.Algebra.Order.Group.Nat
import Mathlib.Data.List.Induction

/-!
# Interleaved programs

Any number of threads run programs over one shared state.  One label runs one instruction of
one thread, so a list of labels is an interleaving in which every instruction is atomic.  An
instruction can also fail, which answers it with an error and leaves the shared state alone;
the environment can move the shared state (the clock); and a crash loses the volatile part
of the state together with every thread that has not finished.

A thread is never removed: it keeps the request it was started for and the log of its
instructions and their replies.  A statement about "the call that did this" is a statement
about the log of a thread.
-/

namespace AnimeFeedFlux.Threads

open Machine List

/-- The parts of a system: its instructions `ι` with replies `ρ`, shared states `σ`, requests
`κ`, answers `α` and environment events `ε`. -/
structure System (ι : Type) (ρ : ι → Type) (σ κ α ε : Type) where
  /-- What an instruction does and replies. -/
  perform : (q : ι) → σ → σ × ρ q
  /-- What it replies when it fails; `none` when it cannot. -/
  fault : (q : ι) → Option (ρ q)
  /-- The program that serves a request. -/
  code : κ → Prog ρ α
  /-- The effect of an environment event. -/
  env : ε → σ → σ
  /-- What a restart of the process leaves of the shared state. -/
  reboot : σ → σ

/-- One request being served: what it has done, and what is left of its program (`none` once
a crash has taken it). -/
structure Thread {ι : Type} (ρ : ι → Type) (κ α : Type) where
  request : κ
  log : Log ρ := []
  rest : Option (Prog ρ α)

namespace Thread

variable {ι : Type} {ρ : ι → Type} {κ α : Type}

/-- The answer of a thread that has finished. -/
def answer? (t : Thread ρ κ α) : Option α := t.rest.bind Prog.answer?

/-- A thread that still has an instruction to issue. -/
def running (t : Thread ρ κ α) : Bool :=
  match t.rest with
  | some (.call _ _) => true
  | _ => false

/-- A crash takes the rest of every program that has not finished. -/
def crash (t : Thread ρ κ α) : Thread ρ κ α :=
  if t.running then { t with rest := none } else t

theorem answer?_eq_some {t : Thread ρ κ α} {a : α} :
    t.answer? = some a ↔ t.rest = some (.done a) := by
  cases hr : t.rest with
  | none => simp [answer?, hr]
  | some p => simp [answer?, hr, Prog.answer?_eq_some]

@[simp] theorem crash_request (t : Thread ρ κ α) : t.crash.request = t.request := by
  unfold crash
  split <;> rfl

@[simp] theorem crash_log (t : Thread ρ κ α) : t.crash.log = t.log := by
  unfold crash
  split <;> rfl

@[simp] theorem crash_running (t : Thread ρ κ α) : t.crash.running = false := by
  unfold crash
  by_cases hr : t.running
  · rw [if_pos hr]; rfl
  · rw [if_neg hr]; simpa using hr

theorem rest_of_crash {t : Thread ρ κ α} {p : Prog ρ α} (h : t.crash.rest = some p) :
    t.rest = some p := by
  unfold crash at h
  split at h
  · cases h
  · exact h

end Thread

/-- The shared state and the threads, in the order they were started. -/
structure Pool {ι : Type} (ρ : ι → Type) (σ κ α : Type) where
  shared : σ
  threads : List (Thread ρ κ α) := []

/-- The instruction thread `i` issues next, with the request it serves and its log. -/
def Pool.pending {ι : Type} {ρ : ι → Type} {σ κ α : Type} (w : Pool ρ σ κ α) (i : ℕ) :
    Option (κ × Log ρ × ι) :=
  match w.threads[i]? with
  | some ⟨c, h, some (.call q _)⟩ => some (c, h, q)
  | _ => none

/-- The labels: a request arrives, thread `i` issues its next instruction (which fails
unless `ok`), the environment moves, the process crashes and comes up again. -/
inductive Act (κ ε : Type)
  | request (c : κ)
  | run (i : ℕ) (ok : Bool)
  | env (e : ε)
  | crash
  deriving DecidableEq

/-- The instruction a step issues, with the request it is for and the log it comes after. -/
def Pool.issuing {ι : Type} {ρ : ι → Type} {σ κ α ε : Type} (w : Pool ρ σ κ α) :
    Act κ ε → Option (κ × Log ρ × ι)
  | .run i _ => w.pending i
  | _ => none

namespace System

variable {ι : Type} {ρ : ι → Type} {σ κ α ε : Type} (sys : System ι ρ σ κ α ε)

/-- What an instruction comes to, given whether it goes through. -/
def reply (ok : Bool) (q : ι) (s : σ) : Option (σ × ρ q) :=
  if ok then some (sys.perform q s) else (sys.fault q).map fun r => (s, r)

/-- The thread a request starts. -/
def spawn (c : κ) : Thread ρ κ α := { request := c, rest := some (sys.code c) }

/-- One label. -/
def step (w : Pool ρ σ κ α) : Act κ ε → Pool ρ σ κ α
  | .request c => { w with threads := w.threads ++ [sys.spawn c] }
  | .run i ok =>
    match w.threads[i]? with
    | some ⟨c, h, some (.call q k)⟩ =>
      match sys.reply ok q w.shared with
      | some (s', r) =>
        { shared := s', threads := w.threads.set i ⟨c, ⟨q, r⟩ :: h, some (k r)⟩ }
      | none => w
    | _ => w
  | .env e => { w with shared := sys.env e w.shared }
  | .crash => { shared := sys.reboot w.shared, threads := w.threads.map Thread.crash }

/-- Thread `i` issues `q` after the log `h`, serving `c`, and is answered `r`, which leaves
the shared state `s'`. -/
structure Issues (w : Pool ρ σ κ α) (i : ℕ) (ok : Bool) (c : κ) (h : Log ρ) (q : ι)
    (k : ρ q → Prog ρ α) (s' : σ) (r : ρ q) : Prop where
  thread : w.threads[i]? = some ⟨c, h, some (.call q k)⟩
  reply : sys.reply ok q w.shared = some (s', r)

variable {sys}

variable {w : Pool ρ σ κ α} {i : ℕ} {ok : Bool} {c : κ} {h : Log ρ} {q : ι} {s' : σ}
  {k : ρ q → Prog ρ α} {r : ρ q}

section
variable (hi : sys.Issues w i ok c h q k s' r)
include hi

theorem Issues.step_eq : sys.step w (.run i ok) =
      { shared := s', threads := w.threads.set i ⟨c, ⟨q, r⟩ :: h, some (k r)⟩ } := by
  simp [step, hi.thread, hi.reply]

theorem Issues.mem :
    ⟨c, h, some (.call q k)⟩ ∈ w.threads := mem_of_getElem? hi.thread

theorem Issues.shared :
    (sys.step w (.run i ok)).shared = s' := congrArg Pool.shared hi.step_eq

theorem Issues.thread_step :
    (sys.step w (.run i ok)).threads[i]? = some ⟨c, ⟨q, r⟩ :: h, some (k r)⟩ := by
  rw [hi.step_eq]
  exact getElem?_set_self (List.getElem?_eq_some_iff.1 hi.thread).1

theorem Issues.pending : w.pending i = some (c, h, q) := by
  simp [Pool.pending, hi.thread]

theorem Issues.issuing :
    w.issuing (.run i ok : Act κ ε) = some (c, h, q) := hi.pending

end

variable (sys) in
theorem issues_of_pending (hp : w.pending i = some (c, h, q)) :
    ∃ k, sys.Issues w i true c h q k (sys.perform q w.shared).1 (sys.perform q w.shared).2 := by
  unfold Pool.pending at hp
  split at hp
  · rename_i c' h' q' k ht
    obtain ⟨rfl, rfl, rfl⟩ : c' = c ∧ h' = h ∧ q' = q := by simpa using hp
    exact ⟨k, ht, rfl⟩
  · cases hp

variable (sys) in
/-- **What one instruction of one thread does**: nothing at all, or thread `i` issues its
next instruction and goes on with the reply. -/
theorem step_run_cases (w : Pool ρ σ κ α) (i : ℕ) (ok : Bool) : sys.step w (.run i ok) = w ∨
      ∃ c h q k s' r, sys.Issues w i ok c h q k s' r ∧ sys.step w (.run i ok) =
          { shared := s', threads := w.threads.set i ⟨c, ⟨q, r⟩ :: h, some (k r)⟩ } := by
  match ht : w.threads[i]? with
  | some ⟨c, h, some (.call q k)⟩ =>
    match hr : sys.reply ok q w.shared with
    | some (s', r) =>
      have hi : sys.Issues w i ok c h q k s' r := ⟨ht, hr⟩
      exact .inr ⟨c, h, q, k, s', r, hi, hi.step_eq⟩
    | none => exact .inl (by simp only [step, ht, hr])
  | some ⟨c, h, some (.done a)⟩ => exact .inl (by simp only [step, ht])
  | some ⟨c, h, none⟩ => exact .inl (by simp only [step, ht])
  | none => exact .inl (by simp only [step, ht])

/-- An instruction that goes through is performed, and one that fails leaves the state. -/
theorem reply_cases {s : σ} (h : sys.reply ok q s = some (s', r)) :
    (ok ∧ (s', r) = sys.perform q s) ∨ (ok = false ∧ s' = s ∧ sys.fault q = some r) := by
  cases ok with
  | true => exact .inl ⟨rfl, by simpa [reply] using h.symm⟩
  | false =>
    simp only [reply, Bool.false_eq_true, if_false, Option.map_eq_some_iff, Prod.mk.injEq] at h
    obtain ⟨r', hr', rfl, rfl⟩ := h
    exact .inr ⟨rfl, rfl, hr'⟩

/-- The shared state after an instruction is that of its effect, or as before. -/
theorem Issues.shared_cases (hi : sys.Issues w i ok c h q k s' r) :
    s' = (sys.perform q w.shared).1 ∨ s' = w.shared := by
  rcases reply_cases hi.reply with ⟨-, hp⟩ | ⟨-, rfl, -⟩
  · exact .inl (congrArg Prod.fst hp)
  · exact .inr rfl

/-! ## Every thread follows its protocol -/

section Protocol

variable (G : κ → Log ρ → ι → Prop) (Q : κ → Log ρ → α → Prop)

/-- From here on every thread keeps to `G` and answers within `Q`. -/
def Obeys (w : Pool ρ σ κ α) : Prop :=
  ∀ t ∈ w.threads, ∀ p, t.rest = some p → Prog.Along (G t.request) (Q t.request) t.log p

variable {G Q}

theorem Obeys.issues {w : Pool ρ σ κ α} (hw : Obeys G Q w) {i : ℕ} {ok : Bool} {c : κ}
    {h : Log ρ} {q : ι} {k : ρ q → Prog ρ α} {s' : σ} {r : ρ q}
    (hi : sys.Issues w i ok c h q k s' r) : G c h q :=
  (hw _ hi.mem _ rfl).1

theorem Obeys.answer {w : Pool ρ σ κ α} (hw : Obeys G Q w) {t : Thread ρ κ α}
    (ht : t ∈ w.threads) {a : α} (ha : t.answer? = some a) : Q t.request t.log a :=
  hw t ht _ (Thread.answer?_eq_some.1 ha)

/-- Programs that keep to the protocol when started keep to it at every step. -/
theorem Obeys.step (hcode : ∀ c, Prog.Along (G c) (Q c) [] (sys.code c)) (w : Pool ρ σ κ α)
    (a : Act κ ε) (hw : Obeys G Q w) : Obeys G Q (sys.step w a) := by
  cases a with
  | request c =>
    intro t ht p hp
    rcases mem_append.1 ht with ht | ht
    · exact hw t ht p hp
    rw [mem_singleton.1 ht] at hp ⊢
    cases hp
    exact hcode c
  | run i ok =>
    obtain heq | ⟨c, h, q, k, s', r, hi, heq⟩ := step_run_cases sys w i ok
    · rwa [heq]
    rw [heq]
    intro t ht p hp
    rcases mem_or_eq_of_mem_set ht with ht | rfl
    · exact hw t ht p hp
    cases hp
    exact (hw _ hi.mem _ rfl).2 r
  | env e => exact hw
  | crash =>
    intro t ht p hp
    obtain ⟨u, hu, rfl⟩ := mem_map.1 ht
    simpa using hw u hu p (Thread.rest_of_crash hp)

/-- **Every thread of every run follows its protocol.** -/
theorem obeys_exec (hcode : ∀ c, Prog.Along (G c) (Q c) [] (sys.code c)) (as : List (Act κ ε))
    (w : Pool ρ σ κ α) (hw : w.threads = []) : Obeys G Q (exec sys.step w as) :=
  exec_induction sys.step (Obeys G Q) (Obeys.step hcode) as w fun t ht => by simp [hw] at ht

end Protocol

/-! ## Threads along a run -/

variable {t : Thread ρ κ α}

variable (sys) in
/-- **What a step does to one thread**: nothing, a crash, or its own next instruction. -/
theorem thread_step_cases (w : Pool ρ σ κ α) (a : Act κ ε) (ht : w.threads[i]? = some t) :
    ∃ t', (sys.step w a).threads[i]? = some t' ∧
      (t' = t ∨ t' = t.crash ∨ ∃ ok c h q k s' r, sys.Issues w i ok c h q k s' r ∧
        t = ⟨c, h, some (.call q k)⟩ ∧ t' = ⟨c, ⟨q, r⟩ :: h, some (k r)⟩) := by
  cases a with
  | request c =>
    refine ⟨t, ?_, .inl rfl⟩
    rw [step, getElem?_append_left (List.getElem?_eq_some_iff.1 ht).1, ht]
  | run j ok =>
    obtain heq | ⟨c, h, q, k, s', r, hi, heq⟩ := step_run_cases sys w j ok
    · rw [heq]
      exact ⟨t, ht, .inl rfl⟩
    rw [heq]
    by_cases hij : j = i
    · subst hij
      obtain rfl := Option.some.inj (hi.thread.symm.trans ht)
      exact ⟨_, getElem?_set_self (List.getElem?_eq_some_iff.1 ht).1,
        .inr (.inr ⟨ok, c, h, q, k, s', r, hi, rfl, rfl⟩)⟩
    · exact ⟨t, by rw [getElem?_set_ne hij, ht], .inl rfl⟩
  | env e => exact ⟨t, ht, .inl rfl⟩
  | crash => exact ⟨t.crash, by simp [step, ht], .inr (.inl rfl)⟩

variable (sys) in
theorem thread_step (w : Pool ρ σ κ α) (a : Act κ ε) (ht : w.threads[i]? = some t) :
    ∃ t', (sys.step w a).threads[i]? = some t' ∧ t'.request = t.request ∧ t.log <:+ t'.log := by
  obtain ⟨t', ht', rfl | rfl | ⟨ok, c, h, q, k, s', r, -, rfl, rfl⟩⟩ :=
    thread_step_cases sys w a ht
  · exact ⟨t', ht', rfl, suffix_refl _⟩
  · exact ⟨t.crash, ht', t.crash_request, by simp⟩
  · exact ⟨_, ht', rfl, suffix_cons _ _⟩

variable (sys) in
theorem thread_exec (as : List (Act κ ε)) (w : Pool ρ σ κ α) (ht : w.threads[i]? = some t) :
    ∃ t', (exec sys.step w as).threads[i]? = some t' ∧ t'.request = t.request ∧
      t.log <:+ t'.log := by
  induction as generalizing w t with
  | nil => exact ⟨t, ht, rfl, suffix_refl _⟩
  | cons a as ih =>
    obtain ⟨u, hu, hureq, hulog⟩ := thread_step sys w a ht
    obtain ⟨t', ht', hreq, hlog⟩ := ih _ hu
    exact ⟨t', ht', hreq.trans hureq, hulog.trans hlog⟩

theorem extends_of_new {as bs as₁ as₂ : List (Act κ ε)} (heq : as ++ bs = as₁ ++ as₂) {j : ℕ}
    (hj : (exec sys.step w as).threads.length ≤ j)
    (ht : (exec sys.step w as₁).threads[j]? = some t) : ∃ cs, as₁ = as ++ cs := by
  rcases append_eq_append_iff.1 heq with ⟨cs, h, -⟩ | ⟨cs, rfl, -⟩
  · exact ⟨cs, h⟩
  obtain ⟨t', ht', -, -⟩ := thread_exec sys cs (exec sys.step w as₁) ht
  rw [← exec_append] at ht'
  exact absurd (List.getElem?_eq_some_iff.1 ht').1 (Nat.not_lt.2 hj)

/-- **What stands in a log was issued at a step of the run**, by that thread. -/
theorem logged_of_exec (hw : w.threads = []) (as : List (Act κ ε))
    (ht : (exec sys.step w as).threads[i]? = some t) {r : ρ q} (he : ⟨q, r⟩ ∈ t.log) :
    ∃ as₁ ok as₂ h k s', as = as₁ ++ .run i ok :: as₂ ∧
      sys.Issues (exec sys.step w as₁) i ok t.request h q k s' r := by
  induction as using List.reverseRecOn generalizing t with
  | nil => simp [hw] at ht
  | append_singleton as a ih =>
    -- Either the entry was there before the last step, or the last step wrote it.
    have earlier : ∀ u, (exec sys.step w as).threads[i]? = some u → u.request = t.request →
        ⟨q, r⟩ ∈ u.log → ∃ as₁ ok as₂ h k s', as ++ [a] = as₁ ++ .run i ok :: as₂ ∧
          sys.Issues (exec sys.step w as₁) i ok t.request h q k s' r := by
      intro u hu hreq hmem
      obtain ⟨as₁, ok, as₂, h, k, s', heq, hi⟩ := ih hu hmem
      rw [hreq] at hi
      exact ⟨as₁, ok, as₂ ++ [a], h, k, s', by simp [heq], hi⟩
    rw [exec_append, exec_cons, exec_nil] at ht
    cases a with
    | request c =>
      rw [step, getElem?_append] at ht
      split at ht
      · exact earlier t ht rfl he
      obtain rfl := mem_singleton.1 (mem_of_getElem? ht)
      simp [spawn] at he
    | run j ok =>
      obtain heq | ⟨c, h, q', k, s', r', hi, heq⟩ :=
        step_run_cases sys (exec sys.step w as) j ok
      · rw [heq] at ht
        exact earlier t ht rfl he
      rw [heq] at ht
      by_cases hij : j = i
      · subst hij
        rw [getElem?_set_self (List.getElem?_eq_some_iff.1 hi.thread).1] at ht
        obtain rfl := Option.some.inj ht
        rcases mem_cons.1 he with hnew | hold
        · cases hnew
          exact ⟨as, ok, [], h, k, s', rfl, hi⟩
        · exact earlier _ hi.thread rfl hold
      · rw [getElem?_set_ne hij] at ht
        exact earlier t ht rfl he
    | env e => exact earlier t ht rfl he
    | crash =>
      rw [step, getElem?_map, Option.map_eq_some_iff] at ht
      obtain ⟨u, hu, rfl⟩ := ht
      exact earlier u hu (by simp) (by simpa using he)

/-! ## Invariants -/

/-- What the instructions, the environment and a restart keep, every step keeps. -/
theorem shared_step {P : σ → Prop} (hperform : ∀ q s, P s → P (sys.perform q s).1)
    (henv : ∀ e s, P s → P (sys.env e s)) (hreboot : ∀ s, P s → P (sys.reboot s))
    (w : Pool ρ σ κ α) (a : Act κ ε) (hw : P w.shared) : P (sys.step w a).shared := by
  cases a with
  | request c => exact hw
  | run i ok =>
    obtain heq | ⟨c, h, q, k, s', r, hi, heq⟩ := step_run_cases sys w i ok
    · rwa [heq]
    rw [heq]
    rcases hi.shared_cases with rfl | rfl
    · exact hperform q w.shared hw
    · exact hw
  | env e => exact henv e _ hw
  | crash => exact hreboot _ hw

/-- **The rule for what entries tell.**  Let every entry of every log tell `F` about the pool.
A step keeps that, if the entry it adds does and what the others tell is still so. -/
theorem entries_step {F : Pool ρ σ κ α → Sigma ρ → Prop} (w : Pool ρ σ κ α) (a : Act κ ε)
    (hnew : ∀ i ok c h q k s' r, a = .run i ok → sys.Issues w i ok c h q k s' r →
      F (sys.step w a) ⟨q, r⟩)
    (hkeep : ∀ e, F w e → F (sys.step w a) e)
    (hw : ∀ t ∈ w.threads, ∀ e ∈ t.log, F w e) :
    ∀ t ∈ (sys.step w a).threads, ∀ e ∈ t.log, F (sys.step w a) e := by
  have old : ∀ t ∈ w.threads, ∀ e ∈ t.log, F (sys.step w a) e := fun t ht e he =>
    hkeep e (hw t ht e he)
  intro t ht e he
  cases a with
  | request c =>
    rcases mem_append.1 ht with ht | ht
    · exact old t ht e he
    rw [mem_singleton.1 ht] at he
    cases he
  | run i ok =>
    obtain heq | ⟨c, h, q, k, s', r, hi, heq⟩ := step_run_cases sys w i ok
    · rw [heq] at ht
      exact old t ht e he
    have hentry := hnew i ok c h q k s' r rfl hi
    rw [heq] at ht
    rcases mem_or_eq_of_mem_set ht with ht | rfl
    · exact old t ht e he
    rcases mem_cons.1 he with rfl | he
    · exact hentry
    · exact old _ hi.mem e he
  | env e' => exact old t ht e he
  | crash =>
    obtain ⟨u, hu, rfl⟩ := mem_map.1 ht
    rw [Thread.crash_log] at he
    exact old u hu e he

/-- **The rule for what threads know.**  Let every thread know `K` of the shared state.  A
step keeps that, if a new thread knows `K`, the thread that runs still knows it, and what it
does leaves the knowledge of the others intact. -/
theorem knows_step {K : σ → Thread ρ κ α → Prop} (w : Pool ρ σ κ α) (a : Act κ ε)
    (hnew : ∀ c, K w.shared (sys.spawn c))
    (hown : ∀ i ok c h q k s' r, a = .run i ok → sys.Issues w i ok c h q k s' r →
      K w.shared ⟨c, h, some (.call q k)⟩ → K s' ⟨c, ⟨q, r⟩ :: h, some (k r)⟩)
    (hothers : ∀ i ok c h q k s' r u, a = .run i ok → sys.Issues w i ok c h q k s' r →
      u ∈ w.threads → K w.shared u → K s' u)
    (henv : ∀ e t, K w.shared t → K (sys.env e w.shared) t)
    (hcrash : ∀ t, K w.shared t → K (sys.reboot w.shared) t.crash)
    (hw : ∀ t ∈ w.threads, K w.shared t) :
    ∀ t ∈ (sys.step w a).threads, K (sys.step w a).shared t := by
  cases a with
  | request c =>
    intro t ht
    rcases mem_append.1 ht with ht | ht
    · exact hw t ht
    rw [mem_singleton.1 ht]
    exact hnew c
  | run i ok =>
    obtain heq | ⟨c, h, q, k, s', r, hi, heq⟩ := step_run_cases sys w i ok
    · rwa [heq]
    rw [heq]
    intro t ht
    rcases mem_or_eq_of_mem_set ht with ht | rfl
    · exact hothers i ok c h q k s' r t rfl hi ht (hw t ht)
    · exact hown i ok c h q k s' r rfl hi (hw _ hi.mem)
  | env e => exact fun t ht => henv e t (hw t ht)
  | crash =>
    intro t ht
    obtain ⟨u, hu, rfl⟩ := mem_map.1 ht
    exact hcrash u (hw u hu)

end System

/-! ## Entries that occur once -/

/-- How many entries of all logs satisfy `p`. -/
def Pool.logged {ι : Type} {ρ : ι → Type} {σ κ α : Type} (p : Sigma ρ → Bool)
    (w : Pool ρ σ κ α) : ℕ :=
  (w.threads.map fun t => t.log.countP p).sum

variable {β : Type} {l : List β}

theorem sum_map_set (f : β → ℕ) {i : ℕ} {a : β} (b : β) (h : l[i]? = some a) :
    ((l.set i b).map f).sum + f a = (l.map f).sum + f b := by
  induction l generalizing i with
  | nil => simp at h
  | cons x l ih =>
    cases i with
    | zero =>
      obtain rfl : x = a := by simpa using h
      simp only [set_cons_zero, map_cons, sum_cons]
      omega
    | succ i =>
      have := ih (getElem?_cons_succ ▸ h)
      simp only [set_cons_succ, map_cons, sum_cons]
      omega

/-- Two places of a list that both count are one, when the whole counts at most one. -/
theorem index_unique (f : β → ℕ) (hl : (l.map f).sum ≤ 1) {i j : ℕ} {a b : β} (hi : l[i]? = some a)
    (hj : l[j]? = some b) (ha : 0 < f a) (hb : 0 < f b) : i = j := by
  by_contra hij
  have hle : ∀ {m : List β} {b : β}, b ∈ m → f b ≤ (m.map f).sum := fun hm =>
    le_sum_of_mem (mem_map_of_mem hm)
  induction l generalizing i j with
  | nil => simp at hi
  | cons x l ih =>
    rw [map_cons, sum_cons] at hl
    cases i with
    | zero =>
      cases j with
      | zero => exact hij rfl
      | succ j =>
        obtain rfl : x = a := by simpa using hi
        have := hle (mem_of_getElem? (getElem?_cons_succ ▸ hj))
        omega
    | succ i =>
      cases j with
      | zero =>
        obtain rfl : x = b := by simpa using hj
        have := hle (mem_of_getElem? (getElem?_cons_succ ▸ hi))
        omega
      | succ j =>
        exact ih (by omega) (getElem?_cons_succ ▸ hi) (getElem?_cons_succ ▸ hj)
          fun h => hij (by rw [h])

namespace System

variable {ι : Type} {ρ : ι → Type} {σ κ α ε : Type} {sys : System ι ρ σ κ α ε} {w : Pool ρ σ κ α}

theorem Issues.logged {i : ℕ} {ok : Bool} {c : κ} {h : Log ρ} {q : ι} {k : ρ q → Prog ρ α} {s' : σ}
    {r : ρ q} (hi : sys.Issues w i ok c h q k s' r) (p : Sigma ρ → Bool) :
    (sys.step w (.run i ok)).logged p = w.logged p + (p ⟨q, r⟩).toNat := by
  have hset := sum_map_set (fun t => t.log.countP p)
    (⟨c, ⟨q, r⟩ :: h, some (k r)⟩ : Thread ρ κ α) hi.thread
  have hlogged : (sys.step w (.run i ok)).logged p + h.countP p =
      w.logged p + (⟨q, r⟩ :: h).countP p := by
    rw [hi.step_eq]
    exact hset
  rw [countP_cons] at hlogged
  cases hp : p ⟨q, r⟩ with
  | true =>
    rw [hp, if_pos rfl] at hlogged
    rw [Bool.toNat_true]
    omega
  | false =>
    rw [hp, if_neg Bool.false_ne_true] at hlogged
    rw [Bool.toNat_false]
    omega

@[simp] theorem logged_request (p : Sigma ρ → Bool) (w : Pool ρ σ κ α) (c : κ) :
    (sys.step w (.request c)).logged p = w.logged p := by
  simp [step, Pool.logged, spawn]

@[simp] theorem logged_crash (p : Sigma ρ → Bool) (w : Pool ρ σ κ α) :
    (sys.step w .crash).logged p = w.logged p := by
  simp [step, Pool.logged, Function.comp_def]

/-- **The rule for what is spent.**  Let `v` say what the shared state still has to give, let
an answer that `p` counts cost one of it, and an answer that `q` counts add at most one.  Then
over all logs of a run `p` counts no more than there was at the start and `q` has added. -/
theorem logged_balance {p q : Sigma ρ → Bool} {v : σ → ℕ}
    (hperform : ∀ ins s, (p ⟨ins, (sys.perform ins s).2⟩).toNat + v (sys.perform ins s).1 ≤
      v s + (q ⟨ins, (sys.perform ins s).2⟩).toNat)
    (hfault : ∀ ins r, sys.fault ins = some r → p ⟨ins, r⟩ = false)
    (henv : ∀ e s, v (sys.env e s) ≤ v s) (hreboot : ∀ s, v (sys.reboot s) ≤ v s)
    (as : List (Act κ ε)) (hw : w.threads = []) :
    (exec sys.step w as).logged p + v (exec sys.step w as).shared ≤
      v w.shared + (exec sys.step w as).logged q := by
  refine exec_induction sys.step (fun w' => w'.logged p + v w'.shared ≤ v w.shared + w'.logged q)
    ?_ as w (by simp [Pool.logged, hw])
  intro w' a hle
  cases a with
  | request c =>
    rw [logged_request, logged_request]
    exact hle
  | run i ok =>
    obtain heq | ⟨c, h, ins, k, s', r, hi, heq⟩ := step_run_cases sys w' i ok
    · rwa [heq]
    rw [hi.logged p, hi.logged q, show (sys.step w' _).shared = s' from congrArg _ heq]
    rcases reply_cases hi.reply with ⟨-, hp⟩ | ⟨-, rfl, hf⟩
    · obtain rfl : s' = (sys.perform ins w'.shared).1 := congrArg Prod.fst hp
      obtain rfl : r = (sys.perform ins w'.shared).2 := congrArg Prod.snd hp
      have := hperform ins w'.shared
      omega
    · rw [hfault ins r hf, Bool.toNat_false]
      omega
  | env e =>
    have := henv e w'.shared
    exact (Nat.add_le_add_left this _).trans hle
  | crash =>
    have := hreboot w'.shared
    rw [logged_crash, logged_crash]
    exact (Nat.add_le_add_left this _).trans hle

/-- **The rule for what happens once.**  Let an instruction that is answered as `p` says find
a mark absent and leave it there for good.  Then over all logs of a run there is at most one
such answer. -/
theorem logged_le_one {p : Sigma ρ → Bool} {marked : σ → Prop}
    (hperform : ∀ q s, p ⟨q, (sys.perform q s).2⟩ → ¬marked s ∧ marked (sys.perform q s).1)
    (hfault : ∀ q r, sys.fault q = some r → p ⟨q, r⟩ = false)
    (hkeep : ∀ q s, marked s → marked (sys.perform q s).1)
    (henv : ∀ e s, marked s → marked (sys.env e s))
    (hreboot : ∀ s, marked s → marked (sys.reboot s)) (as : List (Act κ ε)) (hw : w.threads = []) :
    (exec sys.step w as).logged p ≤ 1 := by
  classical
  -- What is left to give: one, until the mark is there.
  let left : σ → ℕ := fun s => if marked s then 0 else 1
  have hmono : ∀ s s', (marked s → marked s') → left s' ≤ left s := by
    intro s s' h
    by_cases hs : marked s
    · simp [left, hs, h hs]
    · by_cases hs' : marked s' <;> simp [left, hs, hs']
  have hbalance := logged_balance (fun q s => ?_) hfault (fun e s => hmono _ _ (henv e s))
    (fun s => hmono _ _ (hreboot s)) as hw (p := p) (q := fun _ => false) (v := left)
  · have hfirst : left w.shared ≤ 1 := by
      by_cases h : marked w.shared <;> simp [left, h]
    have hnone : (exec sys.step w as).logged (fun _ => false) = 0 := by simp [Pool.logged]
    omega
  · cases hp : p ⟨q, (sys.perform q s).2⟩ with
    | true =>
      obtain ⟨habsent, hpresent⟩ := hperform q s hp
      simp [left, habsent, hpresent]
    | false => simpa using hmono _ _ (hkeep q s)

end System

end AnimeFeedFlux.Threads
