import AnimeFeedFlux.Store.Settings
import AnimeFeedFlux.Time

/-!
# The database

The tables the modelled code reads and writes, one list of rows per table, in insertion
order.  A timestamp column holds the text `formatTime` gives for an instant; rows carry the
instant, and every query that compares such a column compares the texts.  A JSON column is
carried decoded.  Money is exact.

Every `INTEGER PRIMARY KEY` is handed out as SQLite does it, one past the largest id in
the table (`nextID`), so an id can be handed out again after the row that held it is
gone.
-/

namespace AnimeFeedFlux

inductive FeedKind
  | generative
  | grounded
  | aggregate
  deriving DecidableEq, Repr

/-- `model.Origin`: who wrote an item. -/
inductive Origin
  | generated
  | sampled
  | manual
  | correction
  deriving DecidableEq, Repr

/-- The `status` of a row of `runs`. -/
inductive RunStatus
  | running
  | success
  | failed
  | skipped
  | interrupted
  | completedUnconfirmed
  deriving DecidableEq, Repr

/-- The `trigger` of a row of `runs`. -/
inductive Trigger
  | cron
  | manual
  deriving DecidableEq, Repr

/-- A hex-encoded SHA-256 digest in the symbolic model: it stands for what was hashed, so
two digests are equal exactly when their inputs are. -/
structure Digest where
  input : String
  deriving DecidableEq, Repr

/-- `model.ItemFormats`: the stage-2 variants of an item's texts. -/
structure ItemFormats where
  feedHTML : String := ""
  cardText : String := ""
  embedText : String := ""
  pageHTML : String := ""
  deriving DecidableEq, Repr

/-- `model.Item`, which is also the row of `items`. -/
structure Item where
  id : ℕ := 0
  feedID : ℕ
  itemKey : String
  contentHash : Digest
  title : String
  summaryText : String := ""
  bodyHTML : String := ""
  answerHTML : String := ""
  formats : ItemFormats := {}
  link : String := ""
  sourceName : String := ""
  publishedAt : ℤ
  origin : Origin
  runID : Option ℕ := none
  createdAt : ℤ := 0
  updatedAt : ℤ := 0
  editedAt : Option ℤ := none
  deletedAt : Option ℤ := none
  version : ℕ := 1
  deriving DecidableEq, Repr

structure Budgets where
  dailyTokens : ℤ := 0
  dailyRuns : ℤ := 0
  deriving DecidableEq, Repr

/-- The parts of `feedspec.Spec` that the generation paths read. -/
structure FeedSpec where
  kind : FeedKind
  scheduleMode : String := ""
  itemsPerRun : ℤ := 1
  model : String := ""
  webSearch : Bool := false
  systemPrompt : String := ""
  userPrompt : String := ""
  excludeLast : ℤ := 0
  maxRetries : ℤ := 0
  budgets : Budgets := {}
  deriving DecidableEq, Repr

/-- A row of `feeds`.  `spec` is `spec_json` as `feedspec.Import` reads it, `none` when it
does not parse. -/
structure FeedRow where
  id : ℕ
  slug : String
  title : String
  description : String := ""
  language : String := "en"
  kind : FeedKind
  spec : Option FeedSpec := none
  enabled : Bool := false
  timezone : String := "UTC"
  jitterOffset : ℤ := 0
  lastBuiltAt : Option ℤ := none
  consecutiveFailures : ℕ := 0
  author : String := ""
  copyright : String := ""
  ogImage : String := ""
  ttlMinutes : ℕ := 15
  version : ℕ := 1
  deletedAt : Option ℤ := none
  createdAt : ℤ
  updatedAt : ℤ
  deriving DecidableEq, Repr

/-- A row of `runs`. -/
structure Run where
  id : ℕ
  feedID : ℕ
  startedAt : ℤ
  finishedAt : Option ℤ := none
  status : RunStatus
  errorKind : String := ""
  error : String := ""
  itemsAdded : ℕ := 0
  itemsRejected : ℕ := 0
  rejectReasons : List (String × ℕ) := []
  tokensIn : ℕ := 0
  tokensOut : ℕ := 0
  estCostUSD : ℚ := 0
  trigger : Trigger
  lockHolder : String := ""
  heartbeatAt : Option ℤ := none
  deriving DecidableEq, Repr

/-- A row of `samples`; the payload is carried undecoded. -/
structure Sample where
  id : ℕ
  feedID : ℕ
  createdAt : ℤ
  expiresAt : ℤ
  payload : String
  tokensIn : ℕ
  tokensOut : ℕ
  costUSD : ℚ
  deriving DecidableEq, Repr

/-- A row of `sample_spend`; `spentAt` is its column `at`. -/
structure SampleSpend where
  id : ℕ
  feedID : ℕ
  spentAt : ℤ
  tokensIn : ℕ
  tokensOut : ℕ
  costUSD : ℚ
  deriving DecidableEq, Repr

/-- `novelty.Vector`, without the number format of its components. -/
structure Embedding where
  model : String
  dim : ℕ
  vec : List ℚ
  deriving DecidableEq, Repr

/-- The tables. -/
structure DB where
  feeds : List FeedRow := []
  items : List Item := []
  runs : List Run := []
  samples : List Sample := []
  sampleSpend : List SampleSpend := []
  corrections : List (ℕ × ℕ) := []
  embeddings : List (ℕ × Embedding) := []
  /-- The row `generation` of `settings`. -/
  generation : Option SettingValue := none
  deriving DecidableEq, Repr

/-- What a statement or a store function fails with. -/
inductive StoreError
  /-- A `UNIQUE` constraint. -/
  | unique
  /-- A foreign key. -/
  | foreignKey
  /-- `store.ErrNotFound`. -/
  | notFound
  /-- `store.ErrRunInProgress`. -/
  | runInProgress
  /-- `parseTime` of a stored text. -/
  | badTime
  /-- The context was done before the statement ran. -/
  | contextDone
  /-- `reasonsJSON`: the reject reasons do not add up to the rejected items. -/
  | reasonsMismatch
  /-- `CommitRun`: an embedding for an item that is not in the batch. -/
  | strayEmbedding
  /-- A stored JSON text that does not parse into its type. -/
  | badJSON
  deriving DecidableEq, Repr

/-- The id SQLite gives the next row of a table with an `INTEGER PRIMARY KEY`. -/
def nextID (ids : List ℕ) : ℕ := ids.foldr max 0 + 1

theorem lt_nextID {ids : List ℕ} {i : ℕ} (h : i ∈ ids) : i < nextID ids := by
  induction ids with
  | nil => simp at h
  | cons j ids ih =>
    simp only [nextID, List.foldr_cons] at ih ⊢
    rcases List.mem_cons.1 h with rfl | h
    · omega
    have := ih h
    omega

namespace DB

/-- The rows of `items` of one feed, soft-deleted ones included. -/
def itemsOf (db : DB) (feedID : ℕ) : List Item := db.items.filter (·.feedID == feedID)

@[simp] theorem mem_itemsOf {db : DB} {feedID : ℕ} {x : Item} :
    x ∈ db.itemsOf feedID ↔ x ∈ db.items ∧ x.feedID = feedID := by
  simp [itemsOf]

end DB

end AnimeFeedFlux
