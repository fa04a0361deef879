import AnimeFeedFlux.Wire.Executor
import AnimeFeedFlux.Wire.Gate

/-!
# The sampler

`sampleRPC` is `SampleServer.Sample`: look the feed up, apply the editor's draft, pass the
kill switch and the sampler's gate, run the dry pipeline, and store the sample together
with what it cost.  The cost is recorded by that last write and by nothing else, so a
sample that ends in an error records nothing.

As in an execution, every store access sees a `Moment` of its own.
-/

namespace AnimeFeedFlux

/-- `affv1.SampleDraft`; an empty field leaves the recipe's. -/
structure SampleDraft where
  systemPrompt : String := ""
  userPrompt : String := ""
  model : String := ""
  effort : String := ""
  deriving DecidableEq, Repr

/-- `affv1.SampleServiceSampleRequest`. -/
structure SampleRequest where
  feedID : ℕ
  sampleSize : ℤ := 0
  draft : Option SampleDraft := none
  deriving DecidableEq, Repr

/-- What happens around one request.  `validateTemplate` is `generate.ValidateTemplate`,
`none` when the template is fine; `buildCandidates` and `marshal` stand for the rendering of
the answer and its encoding. -/
structure SampleEnv where
  services : Services
  defaults : ProviderDefaults
  prices : String → Option Price
  validateTemplate : String → Option String
  buildCandidates : SampleOutcome → Except String String
  marshal : String → Except String String
  loading : Moment
  gate : Moment
  titles : Moment
  storing : Moment
  reporting : Moment
  gateAt : ℤ
  storedAt : ℤ
  reportedAt : ℤ

/-- `generate.Deps` of the sampler.  The provider is wrapped in the semaphore, and the
wrapper does not pass the formatting capability on. -/
def SampleEnv.deps (env : SampleEnv) : Deps :=
  { env.services with
    format := none
    recentTitles := fun feedID n => env.titles.read fun db => .ok (recentTitles db feedID n)
    candidates := fun feedID => .error (noFetcherText feedID)
    newestPublished := fun feedID => env.titles.read fun db => newestPublished db feedID }

/-! ## Checks before the pipeline -/

def smpValidateSampleSize (n : ℤ) : Except RpcError ℤ :=
  if n = 0 then .ok 1
  else if n < 1 ∨ 5 < n then
    .error ⟨.invalidArgument,
      "sample_size must be 1-5, got " ++ toString n ++ " (PLAN.md §12.3)", none⟩
  else .ok n

def smpValidEfforts : List String := ["smart", "fast", "quick"]

/-- `smpApplyDraft`; a draft's model is priced again. -/
def smpApplyDraft (env : SampleEnv) (spec : GenSpec) : Option SampleDraft → Except RpcError GenSpec
  | none => .ok spec
  | some d =>
    let spec := if d.systemPrompt ≠ "" then { spec with systemPrompt := d.systemPrompt } else spec
    let spec :=
      if d.userPrompt ≠ "" then { spec with userPromptTemplate := d.userPrompt } else spec
    let spec := if d.model ≠ "" ∧ d.model ≠ spec.model then
        let price := (env.prices d.model).getD ⟨0, 0⟩
        { spec with model := d.model, priceInputPerMToken := price.inputPerMTok,
                    priceOutputPerMToken := price.outputPerMTok }
      else spec
    if d.effort ≠ "" ∧ d.effort ∉ smpValidEfforts then
      .error ⟨.invalidArgument, "draft.effort \"" ++ d.effort ++
        "\" is not one of smart, fast, quick", none⟩
    else
      let spec := if d.effort ≠ "" then { spec with effort := d.effort } else spec
      match env.validateTemplate spec.systemPrompt with
      | some e => .error ⟨.invalidArgument, "draft system_prompt: " ++ e, none⟩
      | none =>
        match env.validateTemplate spec.userPromptTemplate with
        | some e => .error ⟨.invalidArgument, "draft user_prompt: " ++ e, none⟩
        | none => .ok spec

def smpEstimatedOutputTokensPerItem : ℤ := 400

/-- `smpProjectedTokens`: doubled for the one repair call. -/
def smpProjectedTokens (spec : GenSpec) : ℤ :=
  let items := if spec.itemsPerRun ≤ 0 then 1 else spec.itemsPerRun
  (estimateTokens spec.userPromptTemplate + estimateTokens spec.systemPrompt +
    items * smpEstimatedOutputTokensPerItem) * 2

/-- `feedLookup.GetFeedForSample`, with the errors `prepareSample` makes of its own. -/
def getFeedForSample (env : SampleEnv) (feedID : ℕ) : Except RpcError (Feed × GenSpec) :=
  match env.loading.read (loadFeedRow · feedID) with
  | .error .notFound => .error ⟨.notFound, "feed " ++ toString feedID ++ " not found", none⟩
  | .error e => .error ⟨.internal, "rpc: resolving feed " ++ toString feedID, some e⟩
  | .ok (_, none) => .error ⟨.internal, "rpc: resolving feed " ++ toString feedID, none⟩
  | .ok (feed, some fs) => .ok (feed, generateSpecFrom fs .manual env.prices env.defaults)

section
variable (env : SampleEnv) (fold : String → String) (cfg : Config) (req : SampleRequest)

/-- The kill switch and the sampler's gate. -/
def passGates (feedID : ℕ) (spec : GenSpec) : Except RpcError Unit :=
  match env.gate.read (loadGenerationSettings fold cfg.generationEnabled) with
  | .error e => .error ⟨.internal, "rpc: checking generation kill switch", some e⟩
  | .ok g =>
    if !g.enabled then
      .error ⟨.failedPrecondition, "generation is disabled: generation_disabled", none⟩
    else
      let verdict := if env.gate.live then
          checkSample fold env.gate.db feedID env.gateAt (smpProjectedTokens spec)
        else (false, "settings_lookup_failed")
      if verdict.1 then .ok ()
      else .error ⟨.failedPrecondition,
        "sample denied: budget cap reached (" ++ verdict.2 ++ ")", none⟩

/-- What `Sample` and `prepareSample` do before the gates: the feed, and its recipe with the
draft applied. -/
def resolveSample : Except RpcError (Feed × GenSpec) :=
  if req.feedID = 0 then .error ⟨.invalidArgument, "feed_id is required", none⟩
  else match smpValidateSampleSize req.sampleSize with
    | .error e => .error e
    | .ok size =>
      match getFeedForSample env req.feedID with
      | .error e => .error e
      | .ok (feed, spec) =>
        if feed.kind = .aggregate then
          .error ⟨.invalidArgument,
            "aggregate feeds have no generator to sample (PLAN.md §14.2)", none⟩
        else match smpApplyDraft env { spec with itemsPerRun := size } req.draft with
          | .error e => .error e
          | .ok spec => .ok (feed, spec)

/-- Everything before `generate.Sample`. -/
def admitSample : Except RpcError (Feed × GenSpec) :=
  match resolveSample env req with
  | .error e => .error e
  | .ok (feed, spec) =>
    match passGates env fold cfg feed.id spec with
    | .error e => .error e
    | .ok () => .ok (feed, spec)

/-! ## The request -/

def smpClassifySampleError (env : SampleEnv) (e : PipelineError) : RpcError :=
  let text := env.services.errorText e
  match e with
  | .provider (.llm .transient _ _) => ⟨.unavailable, text, none⟩
  | .provider (.llm .invalid _ _) => ⟨.invalidArgument, text, none⟩
  | .provider (.llm .fatal _ _) => ⟨.failedPrecondition, text, none⟩
  | .malformed => ⟨.invalidArgument, text, none⟩
  | _ => ⟨.internal, "rpc: sample failed: " ++ text, none⟩

/-- `prepareSample` from `generate.Sample` on: the answer and the provider calls made for
it. -/
def prepareSample : Except RpcError (Feed × SampleOutcome × String) × List Call :=
  match admitSample env fold cfg req with
  | .error e => (.error e, [])
  | .ok (feed, spec) =>
    let result := sample env.deps feed spec
    match result.err with
    | some e => (.error (smpClassifySampleError env e), result.calls)
    | none =>
      match env.buildCandidates result with
      | .error e =>
        (.error ⟨.internal, "rpc: building sample candidates: " ++ e, none⟩, result.calls)
      | .ok candidates => (.ok (feed, result, candidates), result.calls)

/-- `sampleTTL`, which the wiring leaves at its default. -/
def sampleTTL : ℤ := 24 * Time.hour

def remainingDailyUSD (fold : String → String) (now : ℤ) (db : DB) : Except StoreError ℚ :=
  match loadGenerationSettings fold true db with
  | .error e => .error e
  | .ok g =>
    if g.globalDailySpendCeilingUsd ≤ 0 then .ok 0
    else .ok (max 0 (g.globalDailySpendCeilingUsd - (globalSpend db now).usd))

/-- What a request leaves behind: the database after its one write, the provider calls it
made, and its answer, the sample's id and the remaining budget. -/
structure SampleExecution where
  db : DB
  calls : List Call := []
  answer : Except RpcError (ℕ × ℚ)

/-- `SampleServer.Sample`. -/
def sampleRPC : SampleExecution :=
  match prepareSample env fold cfg req with
  | (.error e, calls) => { db := env.storing.db, calls, answer := .error e }
  | (.ok (feed, result, candidates), calls) =>
    match env.marshal candidates with
    | .error e =>
      { db := env.storing.db, calls,
        answer := .error ⟨.internal, "rpc: encoding sample payload: " ++ e, none⟩ }
    | .ok payload =>
      match env.storing.read fun db => putSample db feed.id payload result.tokensIn
          result.tokensOut result.estCostUSD sampleTTL env.storedAt with
      | .error e =>
        { db := env.storing.db, calls,
          answer := .error ⟨.internal, "rpc: persisting sample", some e⟩ }
      | .ok (db, id) =>
        match env.reporting.read (remainingDailyUSD fold env.reportedAt) with
        | .error e =>
          { db, calls,
            answer := .error ⟨.internal, "rpc: reading remaining budget", some e⟩ }
        | .ok remaining => { db, calls, answer := .ok (id, remaining) }

end

/-! ## What a request calls -/

section
variable {env : SampleEnv} {fold : String → String} {cfg : Config} {req : SampleRequest}
  {feed : Feed} {spec : GenSpec}

theorem getFeedForSample_ok {feedID : ℕ} (h : getFeedForSample env feedID = .ok (feed, spec)) :
    feed.id = feedID ∧ feed.createdAt = 0 := by
  simp only [getFeedForSample] at h
  split at h
  · cases h
  · cases h
  · cases h
  · rename_i hload
    cases h
    exact loadFeedRow_ok (Moment.read_eq_ok.mp hload).2

/-- A feed that can be sampled has a generator and the id that was asked for, and no creation
time. -/
theorem resolveSample_ok (h : resolveSample env req = .ok (feed, spec)) :
    feed.kind ≠ .aggregate ∧ feed.id = req.feedID ∧ feed.createdAt = 0 := by
  simp only [resolveSample] at h
  split at h
  · cases h
  split at h
  · cases h
  · split at h
    · cases h
    · rename_i feed' spec' hget
      split at h
      · cases h
      rename_i hkind
      split at h
      · cases h
      cases h
      exact ⟨hkind, getFeedForSample_ok hget⟩

theorem passGates_eq_ok {feedID : ℕ} :
    passGates env fold cfg feedID spec = .ok () ↔ env.gate.live ∧
      (∃ g, loadGenerationSettings fold cfg.generationEnabled env.gate.db = .ok g ∧
        g.enabled) ∧
      (checkSample fold env.gate.db feedID env.gateAt (smpProjectedTokens spec)).1 := by
  cases hlive : env.gate.live with
  | false => simp [passGates, Moment.read, hlive]
  | true =>
    cases hset : loadGenerationSettings fold cfg.generationEnabled env.gate.db with
    | error e => simp [passGates, Moment.read, hlive, hset]
    | ok g =>
      cases hg : g.enabled with
      | false => simp [passGates, Moment.read, hlive, hset, hg]
      | true => simp [passGates, Moment.read, hlive, hset, hg]

theorem calls_sampleRPC : (sampleRPC env fold cfg req).calls =
      match admitSample env fold cfg req with
      | .error _ => []
      | .ok (feed, spec) => (sample env.deps feed spec).calls := by
  have hprep : (prepareSample env fold cfg req).2 = match admitSample env fold cfg req with
      | .error _ => []
      | .ok (feed, spec) => (sample env.deps feed spec).calls := by
    simp only [prepareSample]
    split
    · rfl
    split
    · rfl
    · split <;> rfl
  rw [← hprep]
  simp only [sampleRPC]
  split
  · rename_i e calls h
    simp [h]
  rename_i h
  rw [h]
  split
  · rfl
  split
  · rfl
  · split <;> rfl

/-- **A request calls the provider exactly when it resolves, passes the gates and gets as
far as a prompt.** -/
theorem generate_mem_sampleRPC :
    (∃ r res, .generate r res ∈ (sampleRPC env fold cfg req).calls) ↔
      ∃ feed spec, resolveSample env req = .ok (feed, spec) ∧
        passGates env fold cfg feed.id spec = .ok () ∧ Prompts env.deps feed spec := by
  rw [calls_sampleRPC]
  cases hspec : resolveSample env req with
  | error e => simp [admitSample, hspec]
  | ok r =>
    obtain ⟨feed, spec⟩ := r
    have hprompt := generate_mem_sample env.deps feed spec (resolveSample_ok hspec).1
    cases hgate : passGates env fold cfg feed.id spec with
    | error e => simp [admitSample, hspec, hgate]
    | ok u => simp [admitSample, hspec, hgate, hprompt]

end

end AnimeFeedFlux
