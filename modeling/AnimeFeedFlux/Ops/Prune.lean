import AnimeFeedFlux.Store.Samples

/-!
# The nightly retention job

`Prune` removes expired samples, embeddings outside the novelty window and old runs, by
three statements of its own.  They are not one transaction: when one fails, the ones before
it have been committed and the ones after it do not run.

Timestamps are compared as texts, here as in every query.
-/

namespace AnimeFeedFlux.Ops

/-- `ops.DefaultRunRetention`, which is also the wiring's `nightlyRunRetention`. -/
def defaultRunRetention : ℤ := 180 * 24 * Time.hour

/-- `ops.PruneOptions`; `now` is the instant the pass works with. -/
structure PruneOptions where
  now : ℤ
  runRetention : ℤ := 0
  embeddingWindow : ℤ := 0
  deriving DecidableEq, Repr

structure PruneResult where
  samplesDeleted : ℕ := 0
  embeddingsDeleted : ℕ := 0
  runsDeleted : ℕ := 0
  deriving DecidableEq, Repr

/-- `ops.pruneExpiredSamples`: `DELETE FROM samples WHERE expires_at < ?`.  The store's
statement for the same rule has `<=`. -/
def pruneExpiredSamples (db : DB) (now : ℤ) : DB :=
  { db with samples := db.samples.filter fun s => !(formatTime s.expiresAt < formatTime now) }

/-- The items that have an embedding. -/
def embeddedItems (db : DB) : List Item :=
  db.items.filter fun it => db.embeddings.any (·.1 == it.id)

/-- `ROW_NUMBER() OVER (PARTITION BY feed_id ORDER BY published_at DESC)` among the items
that have an embedding; no two items of a feed have one `published_at`. -/
def rowNumber (db : DB) (it : Item) : ℕ :=
  1 + (embeddedItems db).countP fun x =>
    x.feedID == it.feedID && formatTime it.publishedAt < formatTime x.publishedAt

def pruneEmbeddings (db : DB) (window : ℤ) : DB :=
  { db with embeddings := db.embeddings.filter fun e =>
      !(db.items.any fun it => it.id == e.1 && decide (window < rowNumber db it)) }

/-- The rows `pruneOldRuns` deletes: `started_at < ? AND status != 'failed'`. -/
def expiredRun (cutoff : ℤ) (r : Run) : Bool :=
  formatTime r.startedAt < formatTime cutoff && r.status != .failed

def pruneOldRuns (db : DB) (cutoff : ℤ) : DB := deleteRuns db (expiredRun cutoff)

/-- `ops.Prune`, of whose stages the first `reached` go through. -/
def prune (db : DB) (opts : PruneOptions) (reached : ℕ) : DB × PruneResult :=
  if reached = 0 then (db, {})
  else
    let db₁ := pruneExpiredSamples db opts.now
    let samplesDeleted := db.samples.length - db₁.samples.length
    if reached = 1 then (db₁, { samplesDeleted })
    else
      let db₂ := if 0 < opts.embeddingWindow then pruneEmbeddings db₁ opts.embeddingWindow
                 else db₁
      let embeddingsDeleted := db₁.embeddings.length - db₂.embeddings.length
      if reached = 2 then (db₂, { samplesDeleted, embeddingsDeleted })
      else
        let db₃ := if 0 < opts.runRetention then pruneOldRuns db₂ (opts.now - opts.runRetention)
                   else db₂
        (db₃, { samplesDeleted, embeddingsDeleted,
                runsDeleted := db₂.runs.length - db₃.runs.length })

end AnimeFeedFlux.Ops
