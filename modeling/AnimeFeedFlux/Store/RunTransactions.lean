import AnimeFeedFlux.Lib.Transaction
import AnimeFeedFlux.Store.Runs
import Mathlib.Data.List.Nodup

/-!
# The run functions, statement by statement

`Store/Runs` says what each function does when it is let through.  Here the functions with more
than one statement are the transactions that the code runs, so that a statement, or the commit,
may fail in the middle of them.
-/

namespace AnimeFeedFlux

open Transaction List

/-! ## Opening a run -/

/-- What `StartRun` makes of the heartbeat of the row it found. -/
def checkHeartbeat (now : ℤ) : Option ℤ → Tx DB StoreError Unit
  | none => pure ()
  | some hb => do
    ensure (FourDigitYear hb) .badTime
    ensure (¬(!Time.isZero hb && now - hb < runLockStaleAfter)) .runInProgress

/-- The body of `Store.StartRun`. -/
def startRunTx (feedID : ℕ) (trigger : Trigger) (holder : String) (now : ℤ) :
    Tx DB StoreError ℕ := do
  let held ← query fun db =>
    latestStarted (db.runs.filter fun r => r.feedID == feedID && r.status == .running)
  checkHeartbeat now (held.bind (·.heartbeatAt))
  stmt fun db =>
    if db.feeds.any (·.id == feedID) then
      let id := nextID (db.runs.map (·.id))
      .ok (id, { db with runs := db.runs ++ [{ id, feedID, startedAt := now, status := .running,
                                               trigger, lockHolder := holder,
                                               heartbeatAt := some now }] })
    else .error .foreignKey

theorem eval_startRunTx (db : DB) (feedID : ℕ) (trigger : Trigger) (holder : String) (now : ℤ) :
    (startRunTx feedID trigger holder now).eval db =
      (startRun db feedID trigger holder now).map Prod.swap := by
  simp only [startRunTx, startRun, eval_bind, eval_query, eval_stmt]
  cases latestStarted (db.runs.filter fun r => r.feedID == feedID && r.status == .running) with
  | none =>
    simp only [Option.bind_none, checkHeartbeat, eval_pure]
    split <;> rfl
  | some r =>
    cases hhb : r.heartbeatAt with
    | none =>
      simp only [Option.bind_some, hhb, checkHeartbeat, eval_pure]
      split <;> rfl
    | some hb =>
      simp only [Option.bind_some, hhb, checkHeartbeat, eval_bind, eval_ensure]
      by_cases hyear : FourDigitYear hb
      · by_cases hfresh : (!Time.isZero hb && decide (now - hb < runLockStaleAfter)) = true
        · simp only [hyear, hfresh, not_true, if_true, if_false]
          rfl
        · simp only [hyear, hfresh, Bool.false_eq_true, not_true, not_false_eq_true, if_true,
            if_false]
          split <;> rfl
      · simp only [hyear, not_false_eq_true, if_true, if_false]
        rfl

/-! ## Committing a run -/

/-- `insertItemEmbedding`, if there is a vector for the item. -/
def insertItemEmbedding (itemID : ℕ) : Option Embedding → Tx DB StoreError Unit
  | none => pure ()
  | some v => update fun db => .ok { db with embeddings := db.embeddings ++ [(itemID, v)] }

/-- The loop of `CommitRun`.  `byKey` holds the embeddings that are not used yet. -/
def commitItemsTx (runID : ℕ) (now : ℤ) :
    List Item → List (String × Embedding) → Tx DB StoreError (List (String × Embedding))
  | [], byKey => pure byKey
  | it :: its, byKey => do
    let itemID ← stmt fun db =>
      (insertItemRow db (it.newRow it.publishedAt (some runID) now)).map
        (nextID (db.items.map (·.id)), ·)
    insertItemEmbedding itemID ((byKey.filter (·.1 == it.itemKey)).getLast?.map (·.2))
    commitItemsTx runID now its (byKey.filter (·.1 != it.itemKey))

/-- `UPDATE feeds SET last_built_at = ? WHERE id = (SELECT feed_id FROM runs WHERE id = ?)`. -/
def DB.stampLastBuilt (db : DB) (runID : ℕ) (now : ℤ) : DB :=
  { db with feeds := db.feeds.map fun f =>
      if db.runs.any (fun r => r.id == runID && r.feedID == f.id) then
        { f with lastBuiltAt := some now }
      else f }

/-- The body of `Store.CommitRun`. -/
def commitRunTx (runID : ℕ) (items : List Item) (rs : RunSummary)
    (embeddings : List (String × Embedding)) (now : ℤ) : Tx DB StoreError Unit := do
  let byKey ← commitItemsTx runID now items embeddings
  ensure (byKey = []) .strayEmbedding
  update fun db => updateRunning db runID fun r =>
    { r.record rs now with status := .success, itemsAdded := items.length }
  update fun db => .ok (db.stampLastBuilt runID now)

theorem eval_commitItemsTx (runID : ℕ) (now : ℤ) (its : List Item) :
    ∀ (db : DB) (byKey : List (String × Embedding)),
      (commitItemsTx runID now its byKey).eval db =
        (commitItems runID now db its byKey).map Prod.swap := by
  induction its with
  | nil =>
    intro db byKey
    rfl
  | cons it its ih =>
    intro db byKey
    simp only [commitItemsTx, commitItems, eval_bind, eval_stmt]
    cases insertItemRow db (it.newRow it.publishedAt (some runID) now) with
    | error e => rfl
    | ok db' =>
      simp only [Except.map]
      cases (byKey.filter (·.1 == it.itemKey)).getLast? with
      | none =>
        simp only [Option.map_none, insertItemEmbedding, eval_pure, ih, Option.toList_none,
          append_nil]
        rfl
      | some v =>
        simp only [Option.map_some, insertItemEmbedding, eval_update, Except.map, ih,
          Option.toList_some]

theorem eval_commitRunTx (db : DB) (runID : ℕ) (items : List Item) {rs : RunSummary}
    (embeddings : List (String × Embedding)) (now : ℤ) (hrs : rs.reconciles) :
    (commitRunTx runID items rs embeddings now).eval db =
      (commitRun db runID items rs embeddings now).map ((), ·) := by
  simp only [commitRunTx, commitRun, eval_bind, eval_commitItemsTx, eval_update, hrs]
  cases commitItems runID now db items embeddings with
  | error e => rfl
  | ok res =>
    obtain ⟨db₁, byKey⟩ := res
    by_cases hleft : byKey = []
    · simp only [hleft, Except.map, Prod.swap_prod_mk, eval_ensure, if_true, ne_eq, not_true,
        if_false, Bool.not_true, Bool.false_eq_true]
      generalize updateRunning db₁ runID _ = closed
      cases closed <;> rfl
    · simp [hleft, Except.map]

/-! ## Reclaiming -/

/-- `UPDATE runs SET status = ?, … WHERE id = ? AND status = 'running'`. -/
def DB.reclaim (db : DB) (id : ℕ) (status : RunStatus) (now : ℤ) : DB :=
  { db with runs := db.runs.map fun r =>
      if r.id == id && r.status == .running then
        { r with status, finishedAt := some now, heartbeatAt := some now }
      else r }

/-- The loop of `ReclaimStaleRuns`, with its two counts. -/
def reclaimEach (now : ℤ) : List ℕ → ℕ × ℕ → Tx DB StoreError (ℕ × ℕ)
  | [], counts => pure counts
  | id :: ids, (reclaimed, unconfirmed) => do
    let itemCount ← query fun db => db.items.countP (·.runID == some id)
    update fun db => .ok
      (db.reclaim id (if itemCount > 0 then .completedUnconfirmed else .interrupted) now)
    reclaimEach now ids
      (if itemCount > 0 then (reclaimed, unconfirmed + 1) else (reclaimed + 1, unconfirmed))

/-- The body of `Store.ReclaimStaleRuns`. -/
def reclaimStaleRunsTx (olderThan now : ℤ) : Tx DB StoreError (ℕ × ℕ) := do
  let ids ← query fun db => (db.runs.filter fun r => r.status == .running &&
    r.heartbeatAt.any fun hb => formatTime hb < formatTime (now - olderThan)).map (·.id)
  reclaimEach now ids (0, 0)

theorem eval_reclaimEach (now : ℤ) (ids : List ℕ) :
    ∀ (db : DB) (counts : ℕ × ℕ), ∃ counts',
      (reclaimEach now ids counts).eval db = .ok (counts',
        { db with runs := db.runs.map fun r =>
            if r.status == .running && ids.contains r.id then
              { r with status := if db.items.any (·.runID == some r.id) then .completedUnconfirmed
                                 else .interrupted,
                       finishedAt := some now, heartbeatAt := some now }
            else r }) := by
  induction ids with
  | nil =>
    intro db counts
    exact ⟨counts, by simp [reclaimEach]⟩
  | cons id ids ih =>
    intro db counts
    obtain ⟨reclaimed, unconfirmed⟩ := counts
    simp only [reclaimEach, eval_bind, eval_query, eval_update, Except.map]
    obtain ⟨counts', hrest⟩ := ih (db.reclaim id _ now) _
    refine ⟨counts', hrest.trans ?_⟩
    have hcount : db.items.countP (·.runID == some id) > 0 ↔
        db.items.any (·.runID == some id) = true := by
      rw [gt_iff_lt, countP_pos_iff, any_eq_true]
    simp only [DB.reclaim, map_map, hcount]
    congr 4
    funext r
    by_cases hrunning : r.status = .running
    · by_cases hid : r.id = id
      · subst hid
        by_cases hany : db.items.any (·.runID == some r.id) = true <;>
          simp [Function.comp, hrunning, hany]
      · simp [Function.comp, hrunning, hid]
    · simp [Function.comp, hrunning]

theorem contains_ids_filter {runs : List Run} (hids : (runs.map (·.id)).Nodup) (p : Run → Bool)
    {r : Run} (hr : r ∈ runs) : ((runs.filter p).map (·.id)).contains r.id = p r := by
  rw [Bool.eq_iff_iff, contains_iff_mem, mem_map]
  constructor
  · rintro ⟨x, hx, hid⟩
    have hxr : x = r := inj_on_of_nodup_map hids (mem_filter.1 hx).1 hr hid
    rw [← hxr]
    exact (mem_filter.1 hx).2
  · intro hp
    exact ⟨r, mem_filter.2 ⟨hr, hp⟩, rfl⟩

/-- Ids tell rows apart, so the loop closes the rows that the query found and no others. -/
theorem eval_reclaimStaleRunsTx (db : DB) (olderThan now : ℤ)
    (hids : (db.runs.map (·.id)).Nodup) :
    ∃ counts, (reclaimStaleRunsTx olderThan now).eval db =
      .ok (counts, reclaimStaleRuns db olderThan now) := by
  simp only [reclaimStaleRunsTx, eval_bind, eval_query]
  obtain ⟨counts, heach⟩ := eval_reclaimEach now _ db (0, 0)
  refine ⟨counts, heach.trans ?_⟩
  rw [reclaimStaleRuns]
  congr 3
  refine map_congr_left fun r hr => ?_
  rw [contains_ids_filter hids _ hr, ← Bool.and_assoc, Bool.and_self]

end AnimeFeedFlux
