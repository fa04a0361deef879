import AnimeFeedFlux.Generate.Deps
import AnimeFeedFlux.Generate.Stamp

/-!
# The generation pipeline

`run` is `generate.Run` up to its single exit: acquire context, render the prompt, call the
model with at most one repair call per attempt, filter for novelty, retry while nothing new
came back, stamp, format, and hand one run record with its items to the store.  `sample` is
the dry run of the same steps.

Every provider call is logged with its answer, so that what was spent can be compared with
what is recorded.
-/

namespace AnimeFeedFlux

/-! ## Estimates and reject reasons -/

/-- `estimateTokens`: about four characters a token, rounded up. -/
def estimateTokens (s : String) : ℕ := (s.length + 3) / 4

def estimateCostUSD (tokensIn tokensOut : ℕ) (spec : GenSpec) : ℚ :=
  tokensIn / 1000000 * spec.priceInputPerMToken + tokensOut / 1000000 * spec.priceOutputPerMToken

/-- A provider call and its answer. -/
inductive Call
  | generate (req : LlmRequest) (res : Except ProviderError LlmResult)
  | format (req : FormatRequest) (res : Except ProviderError FormatResult)

/-- The estimate of what a call sent, whether or not it succeeded. -/
def Call.tokensIn : Call → ℕ
  | .generate req _ => estimateTokens req.system + estimateTokens req.prompt
  | .format req _ => estimateTokens req.system + estimateTokens req.prompt

/-- The estimate of what a call returned, nothing for a failed call. -/
def Call.tokensOut : Call → ℕ
  | .generate _ (.ok res) => estimateTokens res.raw
  | .format _ (.ok res) => estimateTokens res.raw
  | _ => 0

/-- `counts[reason] += n` on a map of counts. -/
def bump (counts : List (String × ℕ)) (reason : String) (n : ℕ) : List (String × ℕ) :=
  match counts with
  | [] => [(reason, n)]
  | (r, m) :: rest => if r = reason then (r, m + n) :: rest else (r, m) :: bump rest reason n

def sumReasons (counts : List (String × ℕ)) : ℕ := (counts.map (·.2)).sum

/-- `for k, v := range more { counts[k] += v }`. -/
def bumpAll (counts more : List (String × ℕ)) : List (String × ℕ) :=
  more.foldl (fun cs c => bump cs c.1 c.2) counts

/-! ## Step 1: context -/

def defaultRecentTitles : ℤ := 50

def defaultMaxCandidates : ℕ := 40

/-- `acquireContext`: recent titles for a generative feed, source articles for a grounded
one. -/
def acquireContext (deps : Deps) (feed : Feed) (spec : GenSpec) (now : ℤ) :
    Except PipelineError (PromptData × Options) :=
  let data : PromptData := { now, timezone := feed.timezone, feedTitle := feed.title,
                             itemsPerRun := spec.itemsPerRun }
  match feed.kind with
  | .generative =>
    let n := if spec.recentTitlesN ≤ 0 then defaultRecentTitles else spec.recentTitlesN
    match deps.recentTitles feed.id n with
    | .error e => .error (.recentTitles e)
    | .ok titles => .ok ({ data with recentTitles := titles }, { kind := feed.kind })
  | .grounded =>
    match deps.candidates feed.id with
    | .error e => .error (.candidates e)
    | .ok all =>
      let max := if spec.maxCandidates ≤ 0 then defaultMaxCandidates
                 else spec.maxCandidates.toNat
      let cands := all.take max
      .ok ({ data with candidates := cands },
           { kind := feed.kind, candidateURLs := cands.map (·.url) })
  | .aggregate => .error .aggregate

/-! ## Steps 2 to 4: one attempt -/

def watchSystemNote : String :=
  "You are checking for noteworthy events, not filling a quota. " ++
  "If nothing genuinely meets the brief right now, return an empty \"items\" array — " ++
  "an empty answer is correct and expected most of the time. Never invent or pad. " ++
  "When candidate articles are provided, they are a LIVE check of the outside world: release an " ++
  "item only for a candidate that is a genuine, new development meeting the brief — never " ++
  "re-report an old story, a minor update, or something merely related."

def effectiveSystem (spec : GenSpec) : String :=
  if !spec.watchMode then spec.systemPrompt
  else if spec.systemPrompt = "" then watchSystemNote
  else spec.systemPrompt ++ "\n\n" ++ watchSystemNote

def repairNote (reasons : List (String × ℕ)) : String :=
  if reasons = [] then
    "Your previous response was empty or unusable. Respond again, following the schema exactly."
  else
    "Your previous response was invalid: " ++
      ", ".intercalate ((reasons.map (·.1)).insertionSort (· ≤ ·)) ++
      ". Fix these issues and respond again, following the schema exactly."

/-- The validation loop over one answer: items without a rejection are kept, every
rejection is counted. -/
def validateItems (deps : Deps) (opts : Options) :
    List GeneratedItem → List (String × ℕ) → Except String (List Item) × List (String × ℕ)
  | [], reasons => (.ok [], reasons)
  | gi :: rest, reasons =>
    match deps.validate gi opts with
    | .error e => (.error e, reasons)
    | .ok (item, []) =>
      match validateItems deps opts rest reasons with
      | (.ok items, reasons) => (.ok (item :: items), reasons)
      | (.error e, reasons) => (.error e, reasons)
    | .ok (_, rej) =>
      validateItems deps opts rest (rej.foldl (fun rs r => bump rs r.reason 1) reasons)

/-- `attemptResult`, with the provider calls the attempt made. -/
structure AttemptResult where
  valid : List Item := []
  rejectedReasons : List (String × ℕ) := []
  tokensIn : ℕ := 0
  tokensOut : ℕ := 0
  watchEmpty : Bool := false
  calls : List Call := []

/-- The request of a model call. -/
def GenSpec.request (spec : GenSpec) (system requestID prompt : String) : LlmRequest :=
  { prompt, system, model := spec.model, effort := spec.effort, maxItems := spec.itemsPerRun,
    requestID, webSearch := spec.webSearch }

@[simp] theorem GenSpec.prompt_request (spec : GenSpec) (system requestID prompt : String) :
    (spec.request system requestID prompt).prompt = prompt := rfl

@[simp] theorem GenSpec.system_request (spec : GenSpec) (system requestID prompt : String) :
    (spec.request system requestID prompt).system = system := rfl

/-- The closure `call` of `runAttempt`: what one request costs, and the items of its answer
that validate. -/
def callModel (deps : Deps) (spec : GenSpec) (opts : Options) (system requestID : String)
    (attempt : ℕ) (repair : Bool) (prompt : String) (reasons : List (String × ℕ)) :
    AttemptResult × Except PipelineError ℕ :=
  let req := spec.request system requestID prompt
  let res := deps.generate attempt repair req
  let ar : AttemptResult := { rejectedReasons := reasons, calls := [.generate req res],
                              tokensIn := estimateTokens system + estimateTokens prompt }
  match res with
  | .error e => (ar, .error (.provider e))
  | .ok r =>
    let ar := { ar with tokensOut := estimateTokens r.raw }
    match validateItems deps opts r.items reasons with
    | (.error e, reasons) => ({ ar with rejectedReasons := reasons }, .error (.validate e))
    | (.ok valid, reasons) =>
      ({ ar with valid, rejectedReasons := reasons }, .ok r.items.length)

/-- The totals of a call and the repair call after it. -/
def AttemptResult.repairedBy (first second : AttemptResult) : AttemptResult :=
  { second with tokensIn := first.tokensIn + second.tokensIn
                tokensOut := first.tokensOut + second.tokensOut
                calls := first.calls ++ second.calls }

/-- `runAttempt`: one call and, if nothing of its answer validates, one repair call.  An
empty answer in watch mode is an answer. -/
def runAttempt (deps : Deps) (spec : GenSpec) (opts : Options)
    (system basePrompt requestID : String) (attempt : ℕ) :
    AttemptResult × Option PipelineError :=
  let first := callModel deps spec opts system requestID attempt false basePrompt []
  match first.2 with
  | .error e => (first.1, some e)
  | .ok rawCount =>
    if first.1.valid ≠ [] then (first.1, none)
    else if spec.watchMode && rawCount == 0 then ({ first.1 with watchEmpty := true }, none)
    else
      let second := callModel deps spec opts system requestID attempt true
        (basePrompt ++ "\n\n" ++ repairNote first.1.rejectedReasons) first.1.rejectedReasons
      (first.1.repairedBy second.1,
       match second.2 with
       | .error e => some e
       | .ok _ => if second.1.valid = [] then some .malformed else none)

/-! ## Step 5: novelty -/

/-- The loop of `filterNovel` with a gate, from position `i` on.  An item whose check fails
is rejected like a duplicate. -/
def filterNovelFrom (gate : Novelty) (attempt : ℕ) :
    ℕ → List Item → List (String × ℕ) → List Item × List Embedding × List (String × ℕ)
  | _, [], totals => ([], [], totals)
  | i, it :: rest, totals =>
    match gate.check attempt i (it.title ++ " " ++ it.summaryText) with
    | .error _ => filterNovelFrom gate attempt (i + 1) rest (bump totals "novelty_check_failed" 1)
    | .ok (true, _) =>
      filterNovelFrom gate attempt (i + 1) rest (bump totals "novelty_duplicate" 1)
    | .ok (false, vec) =>
      let (items, vecs, totals) := filterNovelFrom gate attempt (i + 1) rest totals
      (it :: items, if gate.vectors then vec :: vecs else vecs, totals)

def filterNovel (deps : Deps) (attempt : ℕ) (items : List Item) (totals : List (String × ℕ)) :
    List Item × List Embedding × List (String × ℕ) :=
  match deps.novelty with
  | none => (items, [], totals)
  | some gate => filterNovelFrom gate attempt 0 items totals

/-- What a run has gathered when its attempts are over. -/
structure Progress where
  novelItems : List Item := []
  novelVecs : List Embedding := []
  rejectTotals : List (String × ℕ) := []
  tokensIn : ℕ := 0
  tokensOut : ℕ := 0
  calls : List Call := []
  watchQuiet : Bool := false

/-- Adds an attempt to the totals. -/
def Progress.spend (p : Progress) (ar : AttemptResult) : Progress :=
  { p with tokensIn := p.tokensIn + ar.tokensIn, tokensOut := p.tokensOut + ar.tokensOut,
           rejectTotals := bumpAll p.rejectTotals ar.rejectedReasons,
           calls := p.calls ++ ar.calls }

/-- Adds an attempt's items, after the novelty gate for a generative feed. -/
def Progress.accept (p : Progress) (deps : Deps) (feed : Feed) (attempt : ℕ)
    (ar : AttemptResult) : Progress :=
  if feed.kind = .generative then
    let (items, vecs, totals) := filterNovel deps attempt ar.valid p.rejectTotals
    { p with novelItems := p.novelItems ++ items, novelVecs := p.novelVecs ++ vecs,
             rejectTotals := totals }
  else { p with novelItems := p.novelItems ++ ar.valid }

/-- The attempt loop of `Run`: `fuel` is how many attempts are left, `attempt` the number of
the next one. -/
def attempts (deps : Deps) (feed : Feed) (spec : GenSpec) (opts : Options)
    (prompt requestID : String) : ℕ → ℕ → Progress → Progress × Option PipelineError
  | 0, _, p => (p, none)
  | fuel + 1, attempt, p =>
    let (ar, aerr) := runAttempt deps spec opts (effectiveSystem spec) prompt requestID attempt
    let p := p.spend ar
    match aerr with
    | some e => (p, some e)
    | none =>
      if ar.watchEmpty then ({ p with watchQuiet := true }, none)
      else
        let p := p.accept deps feed attempt ar
        if p.novelItems ≠ [] ∨ feed.kind ≠ .generative then (p, none)
        else attempts deps feed spec opts prompt requestID fuel (attempt + 1) p

def maxAttempts (feed : Feed) (spec : GenSpec) : ℕ :=
  if feed.kind = .generative ∧ 0 < spec.maxNoveltyRetries then 1 + spec.maxNoveltyRetries.toNat
  else 1

/-! ## Stage 2: formatting -/

def formatSystemPrompt : String :=
  "You reformat one finished feed item for four output surfaces. " ++
  "Never change facts, never add information, never contradict the original. " ++
  "feed_html: the item body as clean rich HTML for RSS reader apps — simple markup only " ++
  "(p, em, strong, a, ul, ol, li, blockquote, h3), every link absolute, no scripts or styles or " ++
  "images. card_text: PLAIN TEXT, no markup, at most 280 characters — one tight, scannable " ++
  "teaser for a chat-app card; it must read complete on its own and make someone want to open " ++
  "the item. embed_text: PLAIN TEXT, no markup, at most 180 characters — one self-contained " ++
  "line for a tiny embedded widget; no teaser phrasing, just the essence. page_html: the item " ++
  "as a standalone reading page body — same HTML rules as feed_html but structured for " ++
  "comfortable reading (short paragraphs, subheadings where they help). If a quiz answer is " ++
  "provided it may appear in feed_html and page_html exactly as the original placed it, " ++
  "but card_text and embed_text must NEVER reveal or hint at it."

/-- One `Format` call: the item with its variants, or as it was when the call failed. -/
def formatItem (deps : Deps) (format : ℕ → FormatRequest → Except ProviderError FormatResult)
    (spec : GenSpec) (requestID : String) (i : ℕ) (it : Item) : Item × Call :=
  let req : FormatRequest := { prompt := deps.formatItemPrompt it, system := formatSystemPrompt,
                               model := spec.model, effort := spec.effort,
                               requestID := requestID ++ "-fmt-" ++ toString i }
  let res := format i req
  (match res with
   | .ok r => { it with formats := deps.validateFormats r.formats it }
   | .error _ => it,
   .format req res)

/-- `formatItems`: nothing happens without a provider that can format.  The estimates are
those of the calls. -/
def formatItems (deps : Deps) (spec : GenSpec) (items : List Item) (requestID : String) :
    List Item × List Call :=
  match deps.format with
  | none => (items, [])
  | some format => (items.mapIdx (formatItem deps format spec requestID)).unzip

/-! ## The pipelines -/

structure RunRecord where
  feedID : ℕ
  startedAt : ℤ
  finishedAt : ℤ
  status : RunStatus
  errorKind : String
  error : String
  accountScoped : Bool
  itemsAdded : ℕ
  itemsRejected : ℕ
  rejectReasons : List (String × ℕ)
  embeddings : List (String × Embedding)
  tokensIn : ℕ
  tokensOut : ℕ
  estCostUSD : ℚ
  trigger : Trigger

def PipelineError.isAccountScoped : PipelineError → Bool
  | .provider (.llm .fatal account _) => account
  | _ => false

def errorKindFromProvider : PipelineError → String
  | .provider (.llm kind _ _) => kind.text
  | _ => "provider_error"

/-- What a run hands to `CommitRun`, with its own error and its provider calls. -/
structure Outcome where
  record : RunRecord
  items : List Item := []
  runErr : Option PipelineError := none
  calls : List Call := []

section
variable (deps : Deps) (feed : Feed) (spec : GenSpec)

/-- The closure `commit` of `Run`, up to the store call. -/
def closeRun (p : Progress) (status : RunStatus) (errorKind : String)
    (runErr : Option PipelineError) (items : List Item) (embeddings : List (String × Embedding)) :
    Outcome :=
  { record := { feedID := feed.id, startedAt := deps.started, finishedAt := deps.finished,
                status, errorKind, error := (runErr.map deps.errorText).getD "",
                accountScoped := runErr.any (·.isAccountScoped),
                itemsAdded := items.length, itemsRejected := sumReasons p.rejectTotals,
                rejectReasons := p.rejectTotals, embeddings,
                tokensIn := p.tokensIn, tokensOut := p.tokensOut,
                estCostUSD := estimateCostUSD p.tokensIn p.tokensOut spec,
                trigger := spec.trigger },
    items, runErr, calls := p.calls }

/-- The number of items a run may publish. -/
def GenSpec.cap (spec : GenSpec) (n : ℕ) : ℕ :=
  if 0 < spec.itemsPerRun then min n spec.itemsPerRun.toNat else n

/-- The last steps of `Run` over what the attempts gathered: cap, stamp, format. -/
def publish (requestID : String) (p : Progress) : Outcome :=
  let novel := p.novelItems.take (spec.cap p.novelItems.length)
  let vecs := p.novelVecs.take (spec.cap p.novelVecs.length)
  match deps.newestPublished feed.id with
  | .error e => closeRun deps feed spec p .failed "store_error" (some (.newest e)) [] []
  | .ok newest =>
    let stamped := stampItems deps.lower deps.newItemKey feed.id feed.slug novel newest
      deps.stamped
    let (items, calls) := formatItems deps spec stamped requestID
    let p := { p with tokensIn := p.tokensIn + (calls.map Call.tokensIn).sum
                      tokensOut := p.tokensOut + (calls.map Call.tokensOut).sum
                      calls := p.calls ++ calls }
    closeRun deps feed spec p .success "" none items (zipEmbeddings items vecs)

/-- What `Run` does once its attempts are over. -/
def conclude (requestID : String) : Progress × Option PipelineError → Outcome
  | (p, some .malformed) =>
    closeRun deps feed spec p .failed "malformed_output" (some .malformed) [] []
  | (p, some e) => closeRun deps feed spec p .failed (errorKindFromProvider e) (some e) [] []
  | (p, none) =>
    if p.novelItems = [] then
      let errKind := if p.watchQuiet then "nothing_noteworthy"
        else if feed.kind = .generative then "novelty_exhausted" else "no_valid_items"
      closeRun deps feed spec p .skipped errKind none [] []
    else publish deps feed spec requestID p

/-- `generate.Run` up to its store call; `none` for an aggregate feed, which it refuses
without one.  The status `.success` is the source's `StatusCompleted`. -/
def run : Option Outcome :=
  if feed.kind = .aggregate then none
  else some <|
    match acquireContext deps feed spec deps.started with
    | .error e => closeRun deps feed spec {} .failed "context_acquire_failed" (some e) [] []
    | .ok (data, opts) =>
      if spec.watchMode && feed.kind == .grounded && opts.candidateURLs.isEmpty then
        closeRun deps feed spec {} .skipped "nothing_noteworthy" none [] []
      else match deps.render spec.userPromptTemplate data with
        | .error e =>
          closeRun deps feed spec {} .failed "prompt_render_failed" (some (.render e)) [] []
        | .ok prompt =>
          let requestID := feed.slug ++ "-run-" ++ toString (Time.unixNano deps.started)
          conclude deps feed spec requestID
            (attempts deps feed spec opts prompt requestID (maxAttempts feed spec) 0 {})

/-! ## What a run gathers -/

/-- A run that gets as far as a prompt: context, something to judge, and a template that
renders. -/
def Prompts : Prop :=
  match acquireContext deps feed spec deps.started with
  | .error _ => False
  | .ok (data, opts) =>
    ¬(spec.watchMode ∧ feed.kind = .grounded ∧ opts.candidateURLs = []) ∧
      (deps.render spec.userPromptTemplate data).isOk

instance : Decidable (Prompts deps feed spec) := by
  unfold Prompts
  split <;> infer_instance

/-- What the attempts of a run gather: nothing if it does not get as far as a prompt. -/
def gathered : Progress :=
  match acquireContext deps feed spec deps.started with
  | .error _ => {}
  | .ok (data, opts) =>
    if spec.watchMode && feed.kind == .grounded && opts.candidateURLs.isEmpty then {}
    else match deps.render spec.userPromptTemplate data with
      | .error _ => {}
      | .ok prompt =>
        (attempts deps feed spec opts prompt
          (feed.slug ++ "-run-" ++ toString (Time.unixNano deps.started))
          (maxAttempts feed spec) 0 {}).1

end

section
variable {deps : Deps} {feed : Feed} {spec : GenSpec} {opts : Options} {prompt requestID : String}

/-- **The rule for what a run gathers**: `P` is kept from attempt to attempt, and `Q` follows
where the attempts stop. -/
theorem gathered_rule {P Q : Progress → Prop} (hnone : ¬Prompts deps feed spec → Q {})
    (hinit : P {}) (hquiet : ∀ p, Q p → Q { p with watchQuiet := true })
    (hstep : ∀ {data opts}, acquireContext deps feed spec deps.started = .ok (data, opts) →
      Prompts deps feed spec → ∀ prompt requestID attempt p, P p →
        let out := runAttempt deps spec opts (effectiveSystem spec) prompt requestID attempt
        let q := (p.spend out.1).accept deps feed attempt out.1
        (out.2 ≠ none ∨ out.1.watchEmpty → Q (p.spend out.1)) ∧ Q q ∧
          (q.novelItems = [] → P q)) :
    Q (gathered deps feed spec) := by
  simp only [gathered]
  split
  · rename_i hcontext
    exact hnone (by simp [Prompts, hcontext])
  rename_i data opts hcontext
  split
  · rename_i hguard
    exact hnone (by simp_all [Prompts])
  rename_i hguard
  split
  · rename_i hrender
    exact hnone (by simp [Prompts, hcontext, hrender, Except.isOk, Except.toBool])
  rename_i prompt hrender
  have hprompts : Prompts deps feed spec := by
    simpa [Prompts, hcontext, hrender, Except.isOk, Except.toBool, and_assoc] using hguard
  have hfuel : maxAttempts feed spec ≠ 0 := by
    simp only [maxAttempts]
    split <;> omega
  generalize feed.slug ++ "-run-" ++ toString (Time.unixNano deps.started) = requestID
  suffices h : ∀ fuel attempt p, P p → (fuel = 0 → Q p) →
      Q (attempts deps feed spec opts prompt requestID fuel attempt p).1 from
    h _ 0 _ hinit fun hzero => absurd hzero hfuel
  intro fuel
  induction fuel with
  | zero => exact fun _ _ _ hq => hq rfl
  | succ fuel ih =>
    intro attempt p hp _
    obtain ⟨hstop, hq, hnext⟩ := hstep hcontext hprompts prompt requestID attempt p hp
    simp only [attempts]
    split
    · rename_i e he
      exact hstop (.inl (by simp [he]))
    split
    · rename_i hwatch
      exact hquiet _ (hstop (.inr hwatch))
    split
    · exact hq
    · rename_i hmore
      exact ih _ _ (hnext (by_contra fun hne => hmore (.inl hne))) fun _ => hq

theorem novelItems_of_error : ∀ (fuel attempt : ℕ) (p : Progress), p.novelItems = [] →
      (attempts deps feed spec opts prompt requestID fuel attempt p).2 ≠ none →
      (attempts deps feed spec opts prompt requestID fuel attempt p).1.novelItems = [] := by
  intro fuel
  induction fuel with
  | zero => exact fun _ p hp _ => hp
  | succ fuel ih =>
    intro attempt p hp
    simp only [attempts]
    split
    · exact fun _ => hp
    split
    · exact fun _ => hp
    split
    · exact fun h => absurd rfl h
    · rename_i hmore
      exact ih _ _ (by_contra fun hne => hmore (.inl hne))

theorem conclude_cases {r : Progress × Option PipelineError}
    (herr : r.2 ≠ none → r.1.novelItems = []) :
    (∃ status errorKind runErr, (status = .skipped ∨ status = .failed) ∧ r.1.novelItems = [] ∧
      conclude deps feed spec requestID r =
        closeRun deps feed spec r.1 status errorKind runErr [] []) ∨
    r.1.novelItems ≠ [] ∧ ∃ requestID', conclude deps feed spec requestID r =
        publish deps feed spec requestID' r.1 := by
  obtain ⟨p, e⟩ := r
  cases e with
  | some e => cases e <;> exact .inl ⟨_, _, _, .inr rfl, herr (by simp), rfl⟩
  | none =>
    by_cases hnone : p.novelItems = []
    · exact .inl ⟨_, _, _, .inl rfl, hnone, if_pos hnone⟩
    · exact .inr ⟨hnone, requestID, if_neg hnone⟩

/-- **How a run ends**: without items, or by publishing what it gathered. -/
theorem run_cases {o : Outcome} (h : run deps feed spec = some o) :
    (∃ status errorKind runErr, (status = .skipped ∨ status = .failed) ∧
      (gathered deps feed spec).novelItems = [] ∧
      o = closeRun deps feed spec (gathered deps feed spec) status errorKind runErr [] []) ∨
    (gathered deps feed spec).novelItems ≠ [] ∧
      ∃ requestID, o = publish deps feed spec requestID (gathered deps feed spec) := by
  simp only [run] at h
  split at h
  · cases h
  cases h
  simp only [gathered]
  split
  · exact .inl ⟨_, _, _, .inr rfl, rfl, rfl⟩
  split
  · exact .inl ⟨_, _, _, .inl rfl, rfl, rfl⟩
  split
  · exact .inl ⟨_, _, _, .inr rfl, rfl, rfl⟩
  · exact conclude_cases (novelItems_of_error _ 0 {} rfl)

end

/-- `generate.SampleResult`, with the error returned beside it and the provider calls. -/
structure SampleOutcome where
  items : List Item := []
  rejectReasons : List (String × ℕ) := []
  tokensIn : ℕ := 0
  tokensOut : ℕ := 0
  estCostUSD : ℚ := 0
  err : Option PipelineError := none
  calls : List Call := []

/-- `generate.Sample`: one attempt, nothing stamped and nothing stored. -/
def sample (deps : Deps) (feed : Feed) (spec : GenSpec) : SampleOutcome :=
  if feed.kind = .aggregate then { err := some .aggregate }
  else match acquireContext deps feed spec deps.started with
    | .error e => { err := some e }
    | .ok (data, opts) =>
      if spec.watchMode && feed.kind == .grounded && opts.candidateURLs.isEmpty then {}
      else match deps.render spec.userPromptTemplate data with
        | .error e => { err := some (.render e) }
        | .ok prompt =>
          let requestID := feed.slug ++ "-sample-" ++ toString (Time.unixNano deps.started)
          let (ar, aerr) :=
            runAttempt deps spec opts (effectiveSystem spec) prompt requestID 0
          let cost := estimateCostUSD ar.tokensIn ar.tokensOut spec
          match aerr with
          | some e => { rejectReasons := ar.rejectedReasons, tokensIn := ar.tokensIn,
                        tokensOut := ar.tokensOut, estCostUSD := cost, err := some e,
                        calls := ar.calls }
          | none =>
            let p := ({} : Progress).spend ar |>.accept deps feed 0 ar
            let kept := p.novelItems.take (spec.cap p.novelItems.length)
            let (items, calls) := formatItems deps spec kept requestID
            let fmtIn := (calls.map Call.tokensIn).sum
            let fmtOut := (calls.map Call.tokensOut).sum
            { items, rejectReasons := p.rejectTotals, tokensIn := ar.tokensIn + fmtIn,
              tokensOut := ar.tokensOut + fmtOut,
              estCostUSD := cost + estimateCostUSD fmtIn fmtOut spec,
              calls := ar.calls ++ calls }

end AnimeFeedFlux
