import AnimeFeedFlux.Generate.Metering
import AnimeFeedFlux.Store.Samples

/-!
# The executors

A scheduled run and a manual run end in the same pipeline over the same store adapter.
`execute` opens the run row itself; `executeRun` is given the row `RunNow` opened.  Every
store access goes through the run's context, the closing write included: once the context
is done, nothing the executor does reaches the database.

Between two store accesses other writers run, so each access sees a `Moment`: the database
as it is then and whether the context is still alive.  An environment fixes the moments,
the clock readings and every answer of the provider; a theorem about all environments is
one about every interleaving, every timeout and every provider.
-/

namespace AnimeFeedFlux

open GoStrings

/-! ## The store as an execution sees it -/

/-- The database at one store access, and whether the context is alive then. -/
structure Moment where
  db : DB
  live : Bool

/-- A query through the context. -/
def Moment.read {α : Type} (m : Moment) (f : DB → Except StoreError α) : Except StoreError α :=
  if m.live then f m.db else .error .contextDone

variable {m : Moment} {r : RunRecord}

theorem Moment.read_eq_ok {α : Type} {f : DB → Except StoreError α} {a : α} :
    m.read f = .ok a ↔ m.live ∧ f m.db = .ok a := by
  cases hlive : m.live <;> simp [Moment.read, hlive]

/-- A transaction through the context: the database afterwards, and the error if it was
rolled back. -/
def Moment.write (m : Moment) (f : DB → Except StoreError DB) : DB × Option StoreError :=
  match m.read f with
  | .ok db => (db, none)
  | .error e => (m.db, some e)

/-! ## The store adapter -/

/-- `genStoreAdapter.RecentTitles`: `ORDER BY published_at DESC LIMIT ?`, over the texts. -/
def recentTitles (db : DB) (feedID : ℕ) (n : ℤ) : List String :=
  (((db.items.filter fun it => it.feedID == feedID && it.deletedAt.isNone).insertionSort
    (fun a b => formatTime b.publishedAt ≤ formatTime a.publishedAt)).take n.toNat).map (·.title)

/-- `genStoreAdapter.CommitRun`: which store method closes the run. -/
def commitRecord (db : DB) (runID : ℕ) (r : RunRecord) (items : List Item) (now : ℤ) :
    Except StoreError DB :=
  let summary : RunSummary := { tokensIn := r.tokensIn, tokensOut := r.tokensOut,
                                costUSD := r.estCostUSD, itemsRejected := r.itemsRejected,
                                rejectReasons := r.rejectReasons }
  match r.status with
  | .success => commitRun db runID items summary r.embeddings now
  | .skipped => skipRun db runID r.errorKind summary now
  | _ => failRun db runID r.errorKind r.error summary now

/-! ## From a recipe to a generation spec -/

structure Price where
  inputPerMTok : ℚ
  outputPerMTok : ℚ
  deriving DecidableEq, Repr

structure ProviderDefaults where
  model : String
  effort : String
  deriving DecidableEq, Repr

def FeedSpec.isWatch (fs : FeedSpec) : Bool := fs.scheduleMode == "watch"

/-- `generateSpecFrom`; a model without a price is priced at zero. -/
def generateSpecFrom (fs : FeedSpec) (trigger : Trigger) (prices : String → Option Price)
    (defaults : ProviderDefaults) : GenSpec :=
  let resolvedModel := if trimSpace fs.model = "" then defaults.model else trimSpace fs.model
  let price := (prices resolvedModel).getD ⟨0, 0⟩
  { systemPrompt := fs.systemPrompt, userPromptTemplate := fs.userPrompt,
    model := resolvedModel, effort := defaults.effort, itemsPerRun := fs.itemsPerRun,
    recentTitlesN := fs.excludeLast, maxNoveltyRetries := fs.maxRetries,
    priceInputPerMToken := price.inputPerMTok, priceOutputPerMToken := price.outputPerMTok,
    trigger, watchMode := fs.isWatch,
    webSearch := fs.webSearch && fs.kind == .generative }

/-! ## Executions -/

/-- What happens around one execution: its services, the moments of its store accesses and
the store's clock at the two writes.  `acquired` says whether the provider semaphore was
granted; `loadErrorText` is the text of a failed load, `none` for a recipe that does not
parse.  A context that is done stays done. -/
structure RunEnv where
  services : Services
  defaults : ProviderDefaults
  prices : String → Option Price
  acquired : Bool
  loading : Moment
  starting : Moment
  titles : Moment
  newest : Moment
  closing : Moment
  startedAt : ℤ
  closedAt : ℤ
  loadErrorText : Option StoreError → String
  /-- Waiting for the semaphore ends without it only when the context is done. -/
  live_acquired : closing.live → acquired
  live_newest : closing.live → newest.live
  live_titles : newest.live → titles.live
  live_starting : titles.live → starting.live
  live_loading : starting.live → loading.live

/-- The text of `noFetcher.Candidates`. -/
def noFetcherText (feedID : ℕ) : String :=
  "wire: grounded-feed source fetching is not wired in this build (feed " ++ toString feedID ++ ")"

/-- `generate.Deps` over the adapter.  No fetcher is wired. -/
def RunEnv.deps (env : RunEnv) : Deps :=
  { env.services with
    recentTitles := fun feedID n => env.titles.read fun db => .ok (recentTitles db feedID n)
    candidates := fun feedID => .error (noFetcherText feedID)
    newestPublished := fun feedID => env.newest.read fun db => newestPublished db feedID }

/-- What an executor leaves behind when it returns: the database as its last store access
found and left it, the run row it worked on, the provider calls it made and whether it
reported an error. -/
structure Execution where
  found : DB
  db : DB
  opened : Option ℕ := none
  calls : List Call := []
  failed : Bool := false

/-- `generate.Run` over the adapter bound to `runID`. -/
def conductRun (env : RunEnv) (feed : Feed) (fs : FeedSpec) (trigger : Trigger) (runID : ℕ) :
    Execution :=
  match run env.deps feed (generateSpecFrom fs trigger env.prices env.defaults) with
  | none =>
    { found := env.closing.db, db := env.closing.db, opened := some runID, failed := true }
  | some o =>
    let (db, cerr) := env.closing.write fun db =>
      commitRecord db runID o.record o.items env.closedAt
    { found := env.closing.db, db, opened := some runID, calls := o.calls,
      failed := cerr.isSome || o.runErr.isSome }

/-- `genExecutor.Execute`.  A run already in progress is not a failure. -/
def execute (env : RunEnv) (feedID : ℕ) (trigger : Trigger) (holder : String) : Execution :=
  match env.loading.read (loadFeedRow · feedID) with
  | .error _ => { found := env.loading.db, db := env.loading.db, failed := true }
  | .ok (_, none) => { found := env.loading.db, db := env.loading.db, failed := true }
  | .ok (feed, some fs) =>
    match env.starting.read (startRun · feedID trigger holder env.startedAt) with
    | .error .runInProgress => { found := env.starting.db, db := env.starting.db }
    | .error _ => { found := env.starting.db, db := env.starting.db, failed := true }
    | .ok (_, runID) => conductRun env feed fs trigger runID

/-- A run that is failed before its pipeline starts. -/
def abandonRun (env : RunEnv) (runID : ℕ) (errorKind message : String) : Execution :=
  { found := env.closing.db
    db := (env.closing.write fun db => failRun db runID errorKind message {} env.closedAt).1
    opened := some runID, failed := true }

def executeRun (env : RunEnv) (feedID runID : ℕ) : Execution :=
  -- The semaphore is refused only to a context that is done, and `FailRun` is issued on
  -- that same context.
  if !env.acquired then
    abandonRun env runID "provider_semaphore_timeout" (env.loadErrorText (some .contextDone))
  else match env.loading.read (loadFeedRow · feedID) with
    | .error e => abandonRun env runID "feed_lookup_failed" (env.loadErrorText (some e))
    | .ok (_, none) => abandonRun env runID "spec_parse_failed" (env.loadErrorText none)
    | .ok (feed, some fs) => conductRun env feed fs .manual runID

/-! ## When the closing write goes through -/

variable {db : DB} {runID : ℕ}

/-- The closing write of a run whose pipeline ended in `o`, in a row still `running`. -/
theorem commitRecord_eq_ok {o : Outcome} (ho : o.Sound) (now : ℤ) (hrun : db.Running runID) :
    (∃ db', commitRecord db runID o.record o.items now = .ok db') ↔ db.Accepts o.items := by
  have hrs : ({ tokensIn := o.record.tokensIn, tokensOut := o.record.tokensOut,
                costUSD := o.record.estCostUSD, itemsRejected := o.record.itemsRejected,
                rejectReasons := o.record.rejectReasons } : RunSummary).reconciles = true := by
    have hsum := ho.reasons
    simp only [sumReasons] at hsum
    simp [RunSummary.reconciles, hsum]
  cases ho.status with
  | inl hs =>
    simp only [commitRecord, hs]
    exact commitRun_eq_ok hrs ho.embeddings hrun
  | inr hs =>
    have hacc : db.Accepts o.items := by simp [hs.1, DB.Accepts]
    rcases hs.2 with hstatus | hstatus
    · simp only [commitRecord, hstatus, skipRun, hrs, hacc, iff_true, Bool.not_true,
        Bool.false_eq_true, if_false]
      exact updateRunning_eq_ok.mpr hrun
    · simp only [commitRecord, hstatus, failRun, hrs, hacc, iff_true, Bool.not_true,
        Bool.false_eq_true, if_false]
      exact updateRunning_eq_ok.mpr hrun

variable {db' : DB} {items : List Item} {now : ℤ}

section
variable (h : commitRecord db runID r items now = .ok db')
include h

/-- The rows after a closing write: those before it and the items it was given. -/
theorem commitRecord_rows :
    ∀ x ∈ db'.items, x ∈ db.items ∨
      ∃ it ∈ items, ∃ id, x = { it.newRow it.publishedAt (some runID) now with id } := by
  simp only [commitRecord] at h
  split at h
  · exact commitRun_rows h
  · simp only [skipRun] at h
    split at h
    · cases h
    rw [updateRunning_items h]
    exact fun x hx => .inl hx
  · simp only [failRun] at h
    split at h
    · cases h
    rw [updateRunning_items h]
    exact fun x hx => .inl hx

theorem not_running_of_commitRecord : ¬db'.Running runID := by
  simp only [commitRecord] at h
  split at h
  · exact not_running_of_commitRun h
  · simp only [skipRun] at h
    split at h
    · cases h
    · exact not_running_of_updateRunning (fun r => by simp) h
  · simp only [failRun] at h
    split at h
    · cases h
    · exact not_running_of_updateRunning (fun r => by simp) h

theorem running_of_commitRecord : db.Running runID := by
  simp only [commitRecord] at h
  split at h
  · obtain ⟨db₁, db₂, hitems, hclose, -⟩ := commitRun_ok h
    have hrun₁ : db₁.Running runID := updateRunning_eq_ok.mp ⟨db₂, hclose⟩
    rwa [DB.Running, (commitItems_ok hitems).2.1.1] at hrun₁
  · simp only [skipRun] at h
    split at h
    · cases h
    · exact updateRunning_eq_ok.mp ⟨db', h⟩
  · simp only [failRun] at h
    split at h
    · cases h
    · exact updateRunning_eq_ok.mp ⟨db', h⟩

end

/-- After a closing write the row is not `running` exactly when it was not before, or the
context was alive and the write was accepted. -/
theorem not_running_write {f : DB → Except StoreError DB} {P : Prop}
    (hok : m.db.Running runID → ((∃ db', f m.db = .ok db') ↔ P))
    (hclosed : ∀ db', f m.db = .ok db' → ¬db'.Running runID) :
    ¬(m.write f).1.Running runID ↔ ¬m.db.Running runID ∨ (m.live ∧ P) := by
  cases hlive : m.live with
  | false => simp [Moment.write, Moment.read, hlive]
  | true =>
    cases hf : f m.db with
    | ok db' =>
      have hdone := hclosed db' hf
      have hP : m.db.Running runID → P := fun hrun => (hok hrun).mp ⟨db', hf⟩
      simp only [Moment.write, Moment.read, hlive, hf, if_true, true_and]
      exact iff_of_true hdone (not_or_of_imp hP)
    | error e =>
      have hP : m.db.Running runID → ¬P := by
        intro hrun hp
        obtain ⟨db', hdb'⟩ := (hok hrun).mpr hp
        rw [hf] at hdb'
        cases hdb'
      simp only [Moment.write, Moment.read, hlive, hf, if_true, true_and]
      constructor
      · exact Or.inl
      intro h hrun
      cases h with
      | inl hnot => exact hnot hrun
      | inr hp => exact hP hrun hp

end AnimeFeedFlux
