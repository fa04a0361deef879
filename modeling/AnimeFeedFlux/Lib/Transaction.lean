import Mathlib.Data.Nat.Notation

/-!
# Transactions that fail at any statement

A transaction works on a copy of the store.  `COMMIT` puts the copy in the store's place; when a
statement fails, the copy is dropped.  A statement fails by its own checks or because the
database does, and the second may happen to any statement, `BEGIN` and `COMMIT` included: `fault`
says after how many statements, and with what.

A body can look at the copy and at the replies of its statements, but not at a failure to come.
`Tx` carries that as a field, so every transaction is what it would be without the failure, or
nothing.
-/

namespace AnimeFeedFlux.Transaction

variable {S E α β : Type}

/-- The working copy, and the failure to come: after how many statements, and with what. -/
structure Staged (S E : Type) where
  copy : S
  fault : Option (ℕ × E)

/-- The body of a transaction.  A body that goes through although a failure is to come goes
through in the same way when none is. -/
structure Tx (S E α : Type) where
  run : Staged S E → Except E (α × Staged S E)
  steady : ∀ {w a w'}, run w = .ok (a, w') → run ⟨w.copy, none⟩ = .ok (a, ⟨w'.copy, none⟩)

namespace Tx

/-- No statement. -/
def pure (a : α) : Tx S E α where
  run w := .ok (a, w)
  steady h := by cases h; rfl

/-- One body after the other. -/
def bind (b : Tx S E α) (f : α → Tx S E β) : Tx S E β where
  run w :=
    match b.run w with
    | .error e => .error e
    | .ok (a, w') => (f a).run w'
  steady {w c w'} h := by
    cases hb : b.run w with
    | error e => rw [hb] at h; cases h
    | ok r =>
      rw [hb] at h
      simp only [b.steady hb]
      exact (f r.1).steady h

instance : Monad (Tx S E) where
  pure := Tx.pure
  bind := Tx.bind

/-- The body on its own: its answer and the copy it leaves. -/
def eval (b : Tx S E α) (s : S) : Except E (α × S) :=
  (b.run ⟨s, none⟩).map fun r => (r.1, r.2.copy)

end Tx

/-- A statement, unless its turn has come to fail. -/
def stmt (f : S → Except E (α × S)) : Tx S E α where
  run w :=
    match w.fault with
    | some (0, e) => .error e
    | some (k + 1, e) => (f w.copy).map fun r => (r.1, ⟨r.2, some (k, e)⟩)
    | none => (f w.copy).map fun r => (r.1, ⟨r.2, none⟩)
  steady {w a w'} h := by
    cases hf : f w.copy with
    | error e => rw [hf] at h; split at h <;> cases h
    | ok r =>
      rw [hf] at h
      split at h <;> cases h <;> rfl

/-- A statement that only reads. -/
def query (f : S → α) : Tx S E α := stmt fun s => .ok (f s, s)

/-- A statement that only writes. -/
def update (f : S → Except E S) : Tx S E Unit := stmt fun s => (f s).map ((), ·)

/-- The code gives up. -/
def fail (e : E) : Tx S E α where
  run _ := .error e
  steady h := by cases h

/-- The code gives up unless `p`. -/
def ensure (p : Prop) [Decidable p] (e : E) : Tx S E Unit := if p then Pure.pure () else fail e

/-! ## Bodies on their own -/

section Eval

variable (s : S)

@[simp] theorem eval_pure (a : α) : (Pure.pure a : Tx S E α).eval s = .ok (a, s) := rfl

@[simp] theorem eval_stmt (f : S → Except E (α × S)) : (stmt f).eval s = f s := by
  cases hf : f s <;> simp [Tx.eval, stmt, hf, Except.map]

@[simp] theorem eval_query (f : S → α) : (query f : Tx S E α).eval s = .ok (f s, s) :=
  eval_stmt s _

@[simp] theorem eval_update (f : S → Except E S) :
    (update f).eval s = (f s).map ((), ·) := eval_stmt s _

@[simp] theorem eval_fail (e : E) : (fail e : Tx S E α).eval s = .error e := rfl

@[simp] theorem eval_ensure (p : Prop) [Decidable p] (e : E) :
    (ensure p e : Tx S E Unit).eval s = if p then .ok ((), s) else .error e := by
  by_cases hp : p <;> simp [ensure, hp]

@[simp] theorem eval_bind (b : Tx S E α) (f : α → Tx S E β) : (b >>= f).eval s = match b.eval s with
      | .error e => .error e
      | .ok (a, s') => (f a).eval s' := by
  cases hb : b.run ⟨s, none⟩ with
  | error e => simp [Tx.eval, Bind.bind, Tx.bind, hb, Except.map]
  | ok r =>
    -- The failure that is not there is not there afterwards either.
    have hnone : r.2 = ⟨r.2.copy, none⟩ := by
      have := b.steady hb
      rw [hb] at this
      injection this with this
      exact (Prod.ext_iff.1 this).2
    simp only [Tx.eval, Bind.bind, Tx.bind, hb, Except.map]
    rw [← hnone]

end Eval

/-! ## Transactions -/

/-- The body between `BEGIN` and `COMMIT`, which write nothing but can fail. -/
def bracket (b : Tx S E α) : Tx S E α := do
  update .ok
  let a ← b
  update .ok
  return a

theorem eval_bracket (b : Tx S E α) (s : S) : (bracket b).eval s = b.eval s := by
  simp only [bracket, eval_bind, eval_update, eval_pure, Except.map]
  cases b.eval s <;> rfl

/-- The transaction.  A failure leads to the `ROLLBACK` that is deferred. -/
def transact (b : Tx S E α) (fault : Option (ℕ × E)) (s : S) : S × Except E α :=
  match (bracket b).run ⟨s, fault⟩ with
  | .ok (a, w) => (w.copy, .ok a)
  | .error e => (s, .error e)

/-- **A transaction does what its body does, or nothing.** -/
theorem transact_cases (b : Tx S E α) (fault : Option (ℕ × E)) (s : S) :
    (∃ e, transact b fault s = (s, .error e)) ∨
      ∃ a s', b.eval s = .ok (a, s') ∧ transact b fault s = (s', .ok a) := by
  cases hrun : (bracket b).run ⟨s, fault⟩ with
  | error e =>
    refine .inl ⟨e, ?_⟩
    rw [transact, hrun]
  | ok r =>
    refine .inr ⟨r.1, r.2.copy, ?_, ?_⟩
    · rw [← eval_bracket, Tx.eval, (bracket b).steady hrun]
      rfl
    · rw [transact, hrun]

end AnimeFeedFlux.Transaction
