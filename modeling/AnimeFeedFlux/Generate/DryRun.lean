import AnimeFeedFlux.Generate.Metering

/-!
# When an attempt ends without an error

An attempt needs an answer from the provider that validation can judge, and in it, or in
the answer to the one repair call, an item that passes; in watch mode an empty answer will
do.  This is a condition on what the provider answers, and with the context and the prompt
it decides whether a dry run ends without an error.
-/

namespace AnimeFeedFlux

section
variable (deps : Deps) (opts : Options)

/-- Validation reaches a verdict on every candidate. -/
def Judged (items : List GeneratedItem) : Prop :=
  ∀ gi ∈ items, ∃ v, deps.validate gi opts = .ok v

/-- Some candidate passes validation. -/
def Passes (items : List GeneratedItem) : Prop :=
  ∃ gi ∈ items, ∃ it, deps.validate gi opts = .ok (it, [])

theorem validateItems_ok (items : List GeneratedItem) : ∀ reasons : List (String × ℕ),
    (∃ valid, (validateItems deps opts items reasons).1 = .ok valid) ↔ Judged deps opts items := by
  induction items with
  | nil =>
    intro reasons
    simp [validateItems, Judged]
  | cons gi items ih =>
    intro reasons
    simp only [Judged, List.forall_mem_cons] at ih ⊢
    cases hv : deps.validate gi opts with
    | error e => simp [validateItems, hv]
    | ok v =>
      obtain ⟨it, rej⟩ := v
      cases rej with
      | nil =>
        simp only [validateItems, hv]
        rw [← ih reasons]
        cases hrest : validateItems deps opts items reasons with
        | mk out rs => cases out <;> simp
      | cons r rej => simp [validateItems, hv, ih]

theorem validateItems_ne_nil {items : List GeneratedItem} :
    ∀ {valid : List Item} {reasons : List (String × ℕ)},
      (validateItems deps opts items reasons).1 = .ok valid →
      (valid ≠ [] ↔ Passes deps opts items) := by
  induction items with
  | nil =>
    intro valid reasons h
    cases h
    simp [Passes]
  | cons gi items ih =>
    intro valid reasons h
    simp only [Passes, List.exists_mem_cons_iff] at ih ⊢
    cases hv : deps.validate gi opts with
    | error e => simp [validateItems, hv] at h
    | ok v =>
      obtain ⟨it, rej⟩ := v
      cases rej with
      | nil =>
        simp only [validateItems, hv] at h
        cases hrest : validateItems deps opts items reasons with
        | mk out rs =>
          rw [hrest] at h
          cases out with
          | error e => cases h
          | ok rest =>
            cases h
            simp
      | cons r rej =>
        simp only [validateItems, hv] at h
        rw [ih h]
        simp
end

section
variable (deps : Deps) (feed : Feed) (spec : GenSpec) (opts : Options)
  (system prompt requestID : String)

/-- One of the model's answers can be used: the first holds an item that passes or is a
permitted empty one, or the one to the repair call holds an item that passes. -/
def Usable (attempt : ℕ) : Prop :=
  ∃ r, deps.generate attempt false (spec.request system requestID prompt) = .ok r ∧
    Judged deps opts r.items ∧
    (Passes deps opts r.items ∨ (spec.watchMode = true ∧ r.items = []) ∨
      ∃ r₂, deps.generate attempt true (spec.request system requestID
          (prompt ++ "\n\n" ++ repairNote (validateItems deps opts r.items []).2)) = .ok r₂ ∧
        Judged deps opts r₂.items ∧ Passes deps opts r₂.items)

theorem callModel_eq_ok (attempt : ℕ) (repair : Bool) (reasons : List (String × ℕ)) (n : ℕ) :
    (callModel deps spec opts system requestID attempt repair prompt reasons).2 = .ok n ↔
      ∃ r, deps.generate attempt repair (spec.request system requestID prompt) = .ok r ∧
        Judged deps opts r.items ∧ r.items.length = n := by
  simp only [callModel]
  cases hres : deps.generate attempt repair (spec.request system requestID prompt) with
  | error e => simp
  | ok r =>
    have hjudged := validateItems_ok deps opts r.items reasons
    cases hval : validateItems deps opts r.items reasons with
    | mk out rs =>
      rw [hval] at hjudged
      cases out with
      | error e =>
        have hnot : ¬Judged deps opts r.items := by simpa using hjudged
        simp [hval, hnot]
      | ok valid =>
        have hj : Judged deps opts r.items := by simpa using hjudged
        simp [hval, hj]

theorem callModel_valid {attempt : ℕ} {repair : Bool} (reasons : List (String × ℕ)) {r : LlmResult}
    (hres : deps.generate attempt repair (spec.request system requestID prompt) = .ok r)
    (hj : Judged deps opts r.items) :
    let ar := (callModel deps spec opts system requestID attempt repair prompt reasons).1
    (ar.valid ≠ [] ↔ Passes deps opts r.items) ∧
      ar.rejectedReasons = (validateItems deps opts r.items reasons).2 := by
  obtain ⟨valid, hvalid⟩ := (validateItems_ok deps opts r.items reasons).mpr hj
  have hne := validateItems_ne_nil deps opts hvalid
  simp only [callModel, hres]
  cases hval : validateItems deps opts r.items reasons with
  | mk out rs =>
    rw [hval] at hvalid
    cases hvalid
    exact ⟨hne, rfl⟩

theorem repair_eq_none (attempt : ℕ) (reasons : List (String × ℕ)) :
    let second := callModel deps spec opts system requestID attempt true prompt reasons
    (match second.2 with
      | .error e => some e
      | .ok _ => if second.1.valid = [] then some .malformed else none) = none ↔
      ∃ r, deps.generate attempt true (spec.request system requestID prompt) = .ok r ∧
        Judged deps opts r.items ∧ Passes deps opts r.items := by
  intro second
  cases hsecond : second.2 with
  | error e =>
    simp only [reduceCtorEq, false_iff, not_exists, not_and]
    intro r hres hj
    have hok := (callModel_eq_ok deps spec opts system prompt requestID attempt true reasons
      r.items.length).mpr ⟨r, hres, hj, rfl⟩
    rw [show second.2 = _ from hsecond] at hok
    cases hok
  | ok n =>
    obtain ⟨r, hres, hj, -⟩ := (callModel_eq_ok deps spec opts system prompt requestID attempt
      true reasons n).mp hsecond
    have hvalid := (callModel_valid deps spec opts system prompt requestID reasons hres hj).1
    simp only [hres, Except.ok.injEq, exists_eq_left', hj, true_and, ← hvalid]
    by_cases hnil : second.1.valid = []
    · simp [second, hnil]
    · simp [second, hnil]

/-- **An attempt ends without an error exactly when one of the model's answers can be
used.** -/
theorem runAttempt_err (attempt : ℕ) :
    (runAttempt deps spec opts system prompt requestID attempt).2 = none ↔
      Usable deps spec opts system prompt requestID attempt := by
  simp only [runAttempt]
  cases hfirst : (callModel deps spec opts system requestID attempt false prompt []).2 with
  | error e =>
    -- No judged answer to the first call.
    have hnone : ¬Usable deps spec opts system prompt requestID attempt := by
      rintro ⟨r, hres, hj, -⟩
      have hok := (callModel_eq_ok deps spec opts system prompt requestID attempt false []
        r.items.length).mpr ⟨r, hres, hj, rfl⟩
      rw [hfirst] at hok
      cases hok
    simp [hnone]
  | ok n =>
    obtain ⟨r, hres, hj, hn⟩ := (callModel_eq_ok deps spec opts system prompt requestID attempt
      false [] n).mp hfirst
    obtain ⟨hvalid, hreasons⟩ := callModel_valid deps spec opts system prompt requestID [] hres hj
    have hrepair := repair_eq_none deps spec opts system
      (prompt ++ "\n\n" ++ repairNote (validateItems deps opts r.items []).2) requestID attempt
      (validateItems deps opts r.items []).2
    simp only [Usable, hres, Except.ok.injEq, exists_eq_left', hj, true_and, ← hvalid,
      ← hrepair, hreasons]
    have hempty : (spec.watchMode && n == 0) = true ↔ spec.watchMode = true ∧ r.items = [] := by
      simp [← hn]
    by_cases hne : (callModel deps spec opts system requestID attempt false prompt []).1.valid ≠ []
    · rw [if_pos hne]
      exact iff_of_true rfl (Or.inl hne)
    rw [if_neg hne]
    by_cases hquiet : (spec.watchMode && n == 0) = true
    · rw [if_pos hquiet]
      exact iff_of_true rfl (Or.inr (Or.inl (hempty.mp hquiet)))
    rw [if_neg hquiet]
    constructor
    · intro h
      exact Or.inr (Or.inr h)
    rintro (h | h | h)
    · exact absurd h hne
    · exact absurd (hempty.mpr h) hquiet
    · exact h

/-- What a dry run needs to end without an error: context, and then either nothing to judge
in watch mode, or a template that renders and a model answer that can be used. -/
def DryRunSucceeds : Prop :=
  match acquireContext deps feed spec deps.started with
  | .error _ => False
  | .ok (data, opts) =>
    (spec.watchMode = true ∧ feed.kind = .grounded ∧ opts.candidateURLs = []) ∨
      ∃ prompt, deps.render spec.userPromptTemplate data = .ok prompt ∧
        Usable deps spec opts (effectiveSystem spec) prompt
          (feed.slug ++ "-sample-" ++ toString (Time.unixNano deps.started)) 0

/-- **When a dry run ends without an error.** -/
theorem sample_err (hk : feed.kind ≠ .aggregate) :
    (sample deps feed spec).err = none ↔ DryRunSucceeds deps feed spec := by
  cases hctx : acquireContext deps feed spec deps.started with
  | error e => simp [sample, DryRunSucceeds, hk, hctx]
  | ok ctx =>
    obtain ⟨data, opts⟩ := ctx
    by_cases hquiet : spec.watchMode = true ∧ feed.kind = .grounded ∧ opts.candidateURLs = []
    · simp [sample, DryRunSucceeds, hctx, hquiet]
    have hguard : (spec.watchMode && feed.kind == .grounded && opts.candidateURLs.isEmpty)
        = false := by simpa [and_assoc] using hquiet
    cases hrender : deps.render spec.userPromptTemplate data with
    | error e => simp [sample, DryRunSucceeds, hk, hctx, hguard, hrender, hquiet]
    | ok prompt =>
      have herr := runAttempt_err deps spec opts (effectiveSystem spec) prompt
        (feed.slug ++ "-sample-" ++ toString (Time.unixNano deps.started)) 0
      simp only [sample, DryRunSucceeds, if_neg hk, hctx, hguard, hrender, hquiet,
        Bool.false_eq_true, if_false, false_or, Except.ok.injEq, exists_eq_left', ← herr]
      split
      · rename_i e he
        simp only [he, reduceCtorEq]
      · rename_i he
        simp only [he]
end

end AnimeFeedFlux
