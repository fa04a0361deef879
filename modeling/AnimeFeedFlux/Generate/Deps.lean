import AnimeFeedFlux.Store.Feeds

/-!
# What generation consults

The interfaces of the generation pipeline.  What the pipeline asks outside itself is `Deps`,
one field per interface method of the source; every method may answer anything, and a call
that can be repeated is told which call it is, so that two calls may answer differently.
Validation of a model item, prompt rendering and the checks on stage-2 variants are
functions in `Deps` as well.
-/

namespace AnimeFeedFlux

/-! ## Interfaces -/

/-- `llm.Kind`. -/
inductive ErrorKind
  | unclassified
  | transient
  | invalid
  | fatal
  deriving DecidableEq, Repr

/-- `Kind.String`. -/
def ErrorKind.text : ErrorKind → String
  | .unclassified => "unclassified"
  | .transient => "transient"
  | .invalid => "invalid"
  | .fatal => "fatal"

/-- What a failed provider call returns: an `llm.Error`, `account` saying that its scope is
`ScopeAccount`, or another error, such as a wait for the semaphore that was given up. -/
inductive ProviderError
  | llm (kind : ErrorKind) (account : Bool) (message : String)
  | other (message : String)
  deriving DecidableEq, Repr

/-- `llm.GeneratedItem`, which is also `generate.Candidate`. -/
structure GeneratedItem where
  title : String
  summaryText : String := ""
  bodyHTML : String := ""
  answerHTML : String := ""
  link : String := ""
  sourceName : String := ""
  tags : List String := []
  deriving DecidableEq, Repr

/-- `llm.Request`. -/
structure LlmRequest where
  prompt : String
  system : String
  model : String
  effort : String
  maxItems : ℤ
  requestID : String
  webSearch : Bool
  deriving DecidableEq, Repr

/-- `llm.Result`, as far as it is read. -/
structure LlmResult where
  items : List GeneratedItem
  raw : String
  deriving DecidableEq, Repr

structure FormatRequest where
  prompt : String
  system : String
  model : String
  effort : String
  requestID : String
  deriving DecidableEq, Repr

structure FormatResult where
  formats : ItemFormats
  raw : String
  deriving DecidableEq, Repr

/-- A source article offered to a grounded feed. -/
structure SourceArticle where
  title : String
  url : String
  published : ℤ
  excerpt : String := ""
  deriving DecidableEq, Repr

/-- What the prompt template sees.  Today's date, the weekday and the season are functions
of `now` in `timezone`, and are left to the rendering. -/
structure PromptData where
  now : ℤ
  timezone : String
  feedTitle : String
  itemsPerRun : ℤ
  recentTitles : List String := []
  candidates : List SourceArticle := []
  deriving DecidableEq, Repr

structure Options where
  kind : FeedKind
  candidateURLs : List String := []
  deriving DecidableEq, Repr

structure Rejection where
  field : String
  reason : String
  deriving DecidableEq, Repr

/-- `generate.Spec`. -/
structure GenSpec where
  systemPrompt : String := ""
  userPromptTemplate : String := ""
  model : String := ""
  effort : String := ""
  itemsPerRun : ℤ := 1
  recentTitlesN : ℤ := 0
  maxCandidates : ℤ := 0
  maxNoveltyRetries : ℤ := 0
  priceInputPerMToken : ℚ := 0
  priceOutputPerMToken : ℚ := 0
  trigger : Trigger := .cron
  watchMode : Bool := false
  webSearch : Bool := false
  deriving DecidableEq, Repr

/-- What stops the pipeline short of publishing. -/
inductive PipelineError
  /-- An aggregate feed has nothing to run. -/
  | aggregate
  | recentTitles (e : StoreError)
  | candidates (message : String)
  | render (message : String)
  | provider (e : ProviderError)
  /-- `Validate` was called for a kind it does not know. -/
  | validate (message : String)
  /-- `ErrMalformedOutput`. -/
  | malformed
  | newest (e : StoreError)
  deriving DecidableEq, Repr

/-- A novelty gate: `check` is told the attempt and the position of the item it judges, and
answers whether it is a duplicate, with the item's vector.  `vectors` says whether the gate
is a `VectorNovelty`. -/
structure Novelty where
  vectors : Bool
  check : ℕ → ℕ → String → Except String (Bool × Embedding)

/-- The part of `generate.Deps` that is not the feed's own data: the provider, the novelty
gate, the key source and the clock, and the functions the pipeline uses as they are.
`started`, `stamped` and `finished` are the clock readings at the start of the pipeline, at
stamping and at its exit; `errorText` is `Error()` on the errors the pipeline wraps. -/
structure Services where
  novelty : Option Novelty
  generate : ℕ → Bool → LlmRequest → Except ProviderError LlmResult
  format : Option (ℕ → FormatRequest → Except ProviderError FormatResult)
  newItemKey : ℤ → String
  started : ℤ
  stamped : ℤ
  finished : ℤ
  errorText : PipelineError → String
  lower : Char → Char
  render : String → PromptData → Except String String
  validate : GeneratedItem → Options → Except String (Item × List Rejection)
  formatItemPrompt : Item → String
  validateFormats : ItemFormats → Item → ItemFormats

/-- `generate.Deps`: the services with the reads of `Store` and `Fetcher`. -/
structure Deps extends Services where
  recentTitles : ℕ → ℤ → Except StoreError (List String)
  candidates : ℕ → Except String (List SourceArticle)
  newestPublished : ℕ → Except StoreError ℤ

/-- Services around a scripted provider: every candidate validates, and prompts are their
templates. -/
def scriptedServices (answer : Except ProviderError LlmResult) (clock : ℤ) : Services where
  novelty := none
  generate := fun _ _ _ => answer
  format := none
  newItemKey := fun t => toString t
  started := clock
  stamped := clock
  finished := clock
  errorText := fun _ => "provider failed"
  lower := Char.toLower
  render := fun template _ => .ok template
  validate := fun gi _ =>
    .ok ({ feedID := 0, itemKey := "", contentHash := ⟨""⟩, title := gi.title,
           summaryText := gi.summaryText, bodyHTML := gi.bodyHTML, publishedAt := 0,
           origin := .generated }, [])
  formatItemPrompt := fun it => it.title
  validateFormats := fun f _ => f

end AnimeFeedFlux
