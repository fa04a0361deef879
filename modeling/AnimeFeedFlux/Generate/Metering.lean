import AnimeFeedFlux.Generate.Runner

/-!
# What a pipeline records of its calls

The token counts a run or a sample reports are the estimates of exactly the provider calls
it made, on every path through it.  And it makes one exactly when it gets as far as a
prompt, a condition on its inputs alone.
-/

namespace AnimeFeedFlux

open List

/-- The recorded tokens are the estimates of exactly these calls. -/
def Metered (tokensIn tokensOut : ℕ) (calls : List Call) : Prop :=
  tokensIn = (calls.map Call.tokensIn).sum ∧ tokensOut = (calls.map Call.tokensOut).sum

theorem metered_nil : Metered 0 0 [] := ⟨rfl, rfl⟩

theorem Metered.append {i o i' o' : ℕ} {calls calls' : List Call} (h : Metered i o calls)
    (h' : Metered i' o' calls') : Metered (i + i') (o + o') (calls ++ calls') := by
  cases h.1
  cases h.2
  cases h'.1
  cases h'.2
  constructor <;> simp

theorem callModel_calls (deps : Deps) (spec : GenSpec) (opts : Options)
    (system requestID : String) (attempt : ℕ) (repair : Bool) (prompt : String)
    (reasons : List (String × ℕ)) :
    let ar := (callModel deps spec opts system requestID attempt repair prompt reasons).1
    Metered ar.tokensIn ar.tokensOut ar.calls ∧ ∃ req res, ar.calls = [.generate req res] := by
  simp only [callModel]
  split
  · rename_i e he
    simp [Metered, Call.tokensIn, Call.tokensOut, he]
  · rename_i r hr
    split <;> simp [Metered, Call.tokensIn, Call.tokensOut, hr]

section
variable (deps : Deps) (feed : Feed) (spec : GenSpec) (opts : Options)
  (system prompt requestID : String)

/-- An attempt makes a `Generate` call, and its calls are metered, whatever came of them. -/
theorem runAttempt_calls (attempt : ℕ) :
    let ar := (runAttempt deps spec opts system prompt requestID attempt).1
    Metered ar.tokensIn ar.tokensOut ar.calls ∧ ∃ req res, .generate req res ∈ ar.calls := by
  have hfirst := callModel_calls deps spec opts system requestID attempt false prompt []
  simp only [runAttempt]
  generalize callModel deps spec opts system requestID attempt false prompt [] = first
    at hfirst ⊢
  obtain ⟨hm, req, res, hcalls⟩ := hfirst
  have hmem : .generate req res ∈ first.1.calls := by simp [hcalls]
  split
  · exact ⟨hm, req, res, hmem⟩
  split
  · exact ⟨hm, req, res, hmem⟩
  · split
    · exact ⟨hm, req, res, hmem⟩
    · have hsecond := (callModel_calls deps spec opts system requestID attempt true
        (prompt ++ "\n\n" ++ repairNote first.1.rejectedReasons) first.1.rejectedReasons).1
      exact ⟨hm.append hsecond, req, res, mem_append_left _ hmem⟩

theorem metered_accept {p : Progress} (attempt : ℕ) (ar : AttemptResult)
    (h : Metered p.tokensIn p.tokensOut p.calls) :
    let q := p.accept deps feed attempt ar
    Metered q.tokensIn q.tokensOut q.calls ∧ q.calls = p.calls := by
  simp only [Progress.accept]
  split
  · exact ⟨h, rfl⟩
  · exact ⟨h, rfl⟩

/-- What a run gathers is metered, and has a `Generate` call exactly when it gets as far as a
prompt. -/
theorem gathered_calls :
    let p := gathered deps feed spec
    Metered p.tokensIn p.tokensOut p.calls ∧
      ((∃ req res, .generate req res ∈ p.calls) ∧ Prompts deps feed spec ∨
        p.calls = [] ∧ p.novelItems = [] ∧ ¬Prompts deps feed spec) := by
  refine gathered_rule (P := fun p => Metered p.tokensIn p.tokensOut p.calls)
    (Q := fun p => Metered p.tokensIn p.tokensOut p.calls ∧
      ((∃ req res, Call.generate req res ∈ p.calls) ∧ Prompts deps feed spec ∨
        p.calls = [] ∧ p.novelItems = [] ∧ ¬Prompts deps feed spec))
    (fun hnone => ⟨metered_nil, .inr ⟨rfl, rfl, hnone⟩⟩) metered_nil (fun _ hq => hq) ?_
  intro data opts _ hprompts prompt requestID attempt p hp
  obtain ⟨har, req, res, hmem⟩ :=
    runAttempt_calls deps spec opts (effectiveSystem spec) prompt requestID attempt
  generalize runAttempt deps spec opts (effectiveSystem spec) prompt requestID attempt = out
    at har hmem ⊢
  have hspend : Metered (p.spend out.1).tokensIn (p.spend out.1).tokensOut
      (p.spend out.1).calls := hp.append har
  have hcall : .generate req res ∈ (p.spend out.1).calls := mem_append_right _ hmem
  obtain ⟨haccept, hsame⟩ := metered_accept deps feed attempt out.1 hspend
  exact ⟨fun _ => ⟨hspend, .inl ⟨⟨req, res, hcall⟩, hprompts⟩⟩,
    ⟨haccept, .inl ⟨⟨req, res, hsame ▸ hcall⟩, hprompts⟩⟩, fun _ => haccept⟩

/-- The calls of a run are those of its attempts and, when there is something to publish, those
of stage 2. -/
theorem run_calls {o : Outcome} (h : run deps feed spec = some o) :
    Metered o.record.tokensIn o.record.tokensOut o.calls ∧ ∃ calls,
      o.calls = (gathered deps feed spec).calls ++ calls ∧
        ((gathered deps feed spec).novelItems = [] → calls = []) := by
  have hm := (gathered_calls deps feed spec).1
  rcases run_cases h with ⟨status, errorKind, runErr, -, -, rfl⟩ | ⟨hsome, requestID, rfl⟩
  · exact ⟨hm, [], (append_nil _).symm, fun _ => rfl⟩
  simp only [publish]
  split
  · exact ⟨hm, [], (append_nil _).symm, fun _ => rfl⟩
  · exact ⟨hm.append ⟨rfl, rfl⟩, _, rfl, fun hnone => absurd hnone hsome⟩

/-- **A run calls the provider exactly when it gets as far as a prompt.** -/
theorem generate_mem_run {o : Outcome} (h : run deps feed spec = some o) :
    (∃ req res, .generate req res ∈ o.calls) ↔ Prompts deps feed spec := by
  obtain ⟨-, calls, hcalls, hquiet⟩ := run_calls deps feed spec h
  rw [hcalls]
  rcases (gathered_calls deps feed spec).2 with
    ⟨⟨req, res, hmem⟩, hprompts⟩ | ⟨hcalls', hnone, hprompts⟩
  · exact iff_of_true ⟨req, res, mem_append_left _ hmem⟩ hprompts
  · simp [hcalls', hquiet hnone, hprompts]

theorem sample_metered :
    let s := sample deps feed spec
    Metered s.tokensIn s.tokensOut s.calls := by
  simp only [sample]
  split
  · exact metered_nil
  split
  · exact metered_nil
  · rename_i data opts hctx
    split
    · exact metered_nil
    split
    · exact metered_nil
    · rename_i prompt hrender
      have har := (runAttempt_calls deps spec opts (effectiveSystem spec) prompt
        (feed.slug ++ "-sample-" ++ toString (Time.unixNano deps.started)) 0).1
      split
      · exact har
      · exact har.append ⟨rfl, rfl⟩

/-- **A sample calls the provider exactly when it gets as far as a prompt.** -/
theorem generate_mem_sample (hk : feed.kind ≠ .aggregate) :
    (∃ req res, .generate req res ∈ (sample deps feed spec).calls) ↔ Prompts deps feed spec := by
  cases hctx : acquireContext deps feed spec deps.started with
  | error e => simp [sample, Prompts, hk, hctx]
  | ok ctx =>
    obtain ⟨data, opts⟩ := ctx
    by_cases hquiet : spec.watchMode = true ∧ feed.kind = .grounded ∧ opts.candidateURLs = []
    · simp [sample, Prompts, hctx, hquiet]
    have hguard : (spec.watchMode && feed.kind == .grounded && opts.candidateURLs.isEmpty)
        = false := by simpa [and_assoc] using hquiet
    cases hrender : deps.render spec.userPromptTemplate data with
    | error e =>
      simp [sample, Prompts, hk, hctx, hguard, hrender, Except.isOk, Except.toBool]
    | ok prompt =>
      have hp : Prompts deps feed spec := by
        simp [Prompts, hctx, hrender, hquiet, Except.isOk, Except.toBool]
      simp only [sample, if_neg hk, hctx, hguard, hrender, hp, Bool.false_eq_true, if_false,
        iff_true]
      obtain ⟨_, req, res, hmem⟩ := runAttempt_calls deps spec opts (effectiveSystem spec)
        prompt (feed.slug ++ "-sample-" ++ toString (Time.unixNano deps.started)) 0
      refine ⟨req, res, ?_⟩
      split
      · exact hmem
      · exact mem_append_left _ hmem
end

/-! ## What a run hands to the store -/

/-- What every run hands to the store: reject reasons that add up, embeddings of published
items only, and items only when it completed. -/
structure Outcome.Sound (o : Outcome) : Prop where
  reasons : sumReasons o.record.rejectReasons = o.record.itemsRejected
  embeddings : ∀ kv ∈ o.record.embeddings, kv.1 ∈ o.items.map (·.itemKey)
  status : o.record.status = .success ∨
    o.items = [] ∧ (o.record.status = .skipped ∨ o.record.status = .failed)

section
variable (deps : Deps) (feed : Feed) (spec : GenSpec) (p : Progress)

theorem closeRun_sound {status : RunStatus} (errorKind : String) (runErr : Option PipelineError)
    (h : status = .skipped ∨ status = .failed) :
    (closeRun deps feed spec p status errorKind runErr [] []).Sound :=
  ⟨rfl, by simp [closeRun], Or.inr ⟨rfl, h⟩⟩

theorem zipEmbeddings_mem {items : List Item} {vecs : List Embedding} {kv : String × Embedding}
    (h : kv ∈ zipEmbeddings items vecs) : kv.1 ∈ items.map (·.itemKey) := by
  simp only [zipEmbeddings] at h
  split at h
  · exact (of_mem_zip h).1
  · simp at h

theorem publish_sound (requestID : String) : (publish deps feed spec requestID p).Sound := by
  simp only [publish]
  split
  · exact closeRun_sound deps feed spec p _ _ (Or.inr rfl)
  · exact ⟨rfl, fun kv hkv => zipEmbeddings_mem hkv, Or.inl rfl⟩

theorem run_sound {o : Outcome} (h : run deps feed spec = some o) : o.Sound := by
  rcases run_cases h with ⟨_, _, _, hstatus, -, rfl⟩ | ⟨-, requestID, rfl⟩
  · exact closeRun_sound deps feed spec _ _ _ hstatus
  · exact publish_sound deps feed spec _ requestID
end

end AnimeFeedFlux
