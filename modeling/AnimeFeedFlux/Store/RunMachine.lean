import AnimeFeedFlux.Lib.Machine
import AnimeFeedFlux.Store.RunTransactions

/-!
# Runs under concurrent holders

Any number of holders open, renew and close runs, and the watchdog reclaims them.  Each of
these calls is one transaction, so a history is a list of attempts, one after the other, each
with its reading of the clock.  An attempt fails by its own checks or because the database does,
in the middle of its statements or at the commit; its transaction is then rolled back.
-/

namespace AnimeFeedFlux

open Transaction List

/-! ## The machine -/

/-- The calls that write `runs`. -/
inductive RunOp
  | start (feedID : ℕ) (trigger : Trigger) (holder : String)
  | beat (runID : ℕ)
  | commit (runID : ℕ) (items : List Item) (rs : RunSummary)
      (embeddings : List (String × Embedding))
  | fail (runID : ℕ) (errorKind message : String) (rs : RunSummary)
  | skip (runID : ℕ) (reason : String) (rs : RunSummary)
  | reclaim (olderThan : ℤ)

/-- What a call does to the database at a reading of the clock. -/
def RunOp.run (db : DB) (now : ℤ) : RunOp → Except StoreError DB
  | .start feedID trigger holder => (startRun db feedID trigger holder now).map (·.1)
  | .beat runID => heartbeat db runID now
  | .commit runID items rs embeddings => commitRun db runID items rs embeddings now
  | .fail runID errorKind message rs => failRun db runID errorKind message rs now
  | .skip runID reason rs => skipRun db runID reason rs now
  | .reclaim olderThan => .ok (reclaimStaleRuns db olderThan now)

/-- The call as a transaction.  The summaries are checked before it begins, which is the same as
at its beginning. -/
def RunOp.body (now : ℤ) : RunOp → Tx DB StoreError Unit
  | .start feedID trigger holder => do
    let _ ← startRunTx feedID trigger holder now
  | .beat runID => update fun db => heartbeat db runID now
  | .commit runID items rs embeddings => do
    ensure (rs.reconciles = true) .reasonsMismatch
    commitRunTx runID items rs embeddings now
  | .fail runID errorKind message rs => update fun db => failRun db runID errorKind message rs now
  | .skip runID reason rs => update fun db => skipRun db runID reason rs now
  | .reclaim olderThan => do
    let _ ← reclaimStaleRunsTx olderThan now

/-- One try of a call.  `fault` is the database failing, after some statements of it. -/
structure Attempt where
  op : RunOp
  now : ℤ
  fault : Option (ℕ × StoreError) := none

/-- The database after the attempt, and what the attempt returns. -/
def Attempt.call (a : Attempt) (db : DB) : DB × Except StoreError Unit :=
  transact (a.op.body a.now) a.fault db

/-- The database, and the last reading of the clock. -/
structure RunStore where
  db : DB
  clock : ℤ

/-- An attempt. -/
def RunStore.step (s : RunStore) (a : Attempt) : RunStore := ⟨(a.call s.db).1, a.now⟩

variable {db : DB}

theorem RunOp.eval_body (hids : (db.runs.map (·.id)).Nodup) (now : ℤ) (op : RunOp) :
    (op.body now).eval db = (op.run db now).map ((), ·) := by
  cases op with
  | start feedID trigger holder =>
    simp only [RunOp.body, RunOp.run, eval_bind, eval_startRunTx]
    cases startRun db feedID trigger holder now <;> rfl
  | beat runID => exact eval_update db _
  | commit runID items rs embeddings =>
    cases hrs : rs.reconciles with
    | true => simp [RunOp.body, RunOp.run, hrs, eval_commitRunTx]
    | false => simp [RunOp.body, RunOp.run, commitRun, hrs, Except.map]
  | fail runID errorKind message rs => exact eval_update db _
  | skip runID reason rs => exact eval_update db _
  | reclaim olderThan =>
    obtain ⟨counts, heval⟩ := eval_reclaimStaleRunsTx db olderThan now hids
    simp only [RunOp.body, RunOp.run, eval_bind, heval]
    rfl

/-- **What an attempt can do**: nothing, with an error, or what the function does. -/
theorem Attempt.call_cases (a : Attempt) (hids : (db.runs.map (·.id)).Nodup) :
    (∃ e, a.call db = (db, .error e)) ∨
      ∃ db', a.op.run db a.now = .ok db' ∧ a.call db = (db', .ok ()) := by
  rcases transact_cases (a.op.body a.now) a.fault db with hfail | ⟨u, db', heval, hcall⟩
  · exact .inl hfail
  refine .inr ⟨db', ?_, hcall⟩
  rw [RunOp.eval_body hids] at heval
  cases hrun : a.op.run db a.now with
  | error e => rw [hrun] at heval; cases heval
  | ok d =>
    rw [hrun] at heval
    cases heval
    rfl

/-! ## What the calls do to the rows -/

/-- The rows of `runs` are rewritten by `g`: closed rows stay, and every row keeps its id, its
feed and its start. -/
structure RewritesRuns (db db' : DB) (g : Run → Run) : Prop where
  runs : db'.runs = db.runs.map g
  closed : ∀ r, r.status ≠ .running → g r = r
  id : ∀ r, (g r).id = r.id
  feed : ∀ r, (g r).feedID = r.feedID
  started : ∀ r, (g r).startedAt = r.startedAt

variable {db' : DB} {g : Run → Run} {feedID : ℕ} {trigger : Trigger} {holder : String}
  {rs : RunSummary}

theorem RewritesRuns.ids (h : RewritesRuns db db' g) :
    db'.runs.map (·.id) = db.runs.map (·.id) := by
  rw [h.runs, map_map, show ((·.id) ∘ g : Run → ℕ) = (·.id) from funext h.id]

variable {now : ℤ}

theorem nodup_startRun {res : DB × ℕ} (hids : (db.runs.map (·.id)).Nodup)
    (h : startRun db feedID trigger holder now = .ok res) : (res.1.runs.map (·.id)).Nodup := by
  obtain ⟨-, hdb⟩ := startRun_ok h
  rw [hdb, map_append, nodup_append]
  refine ⟨hids, nodup_singleton _, ?_⟩
  intro i hi j hj
  rw [map_singleton, mem_singleton] at hj
  rw [hj]
  exact (lt_nextID hi).ne

/-- The rewriting of an `UPDATE … WHERE id = ? AND status = 'running'`. -/
def onRunning (runID : ℕ) (f : Run → Run) (r : Run) : Run :=
  if r.id == runID && r.status == .running then f r else r

variable {runID : ℕ}

theorem onRunning_eq {f : Run → Run} {r : Run} :
    onRunning runID f r = r ∨ onRunning runID f r = f r ∧ r.id = runID ∧ r.status = .running := by
  simp only [onRunning]
  split
  · rename_i h
    rw [Bool.and_eq_true, beq_iff_eq, beq_iff_eq] at h
    exact .inr ⟨rfl, h.1, h.2⟩
  · exact .inl rfl

theorem rewrites_updateRunning {f : Run → Run} (h : updateRunning db runID f = .ok db')
    (hf : ∀ r, (f r).id = r.id ∧ (f r).feedID = r.feedID ∧ (f r).startedAt = r.startedAt) :
    RewritesRuns db db' (onRunning runID f) := by
  have hcase := @onRunning_eq runID f
  refine ⟨by rw [updateRunning_ok h]; rfl, fun r hr => ?_, fun r => ?_, fun r => ?_, fun r => ?_⟩
  · rcases @hcase r with heq | ⟨-, -, hrunning⟩
    · exact heq
    · exact absurd hrunning hr
  all_goals
    rcases @hcase r with heq | ⟨heq, -⟩
    · rw [heq]
    rw [heq]
    first | exact (hf r).1 | exact (hf r).2.1 | exact (hf r).2.2

/-- The reject reasons account for every rejected item. -/
def Run.Reconciles (r : Run) : Prop := (r.rejectReasons.map (·.2)).sum = r.itemsRejected

/-- The running row `r` is closed as `r'` without items, and as `completed_unconfirmed` only if
items carry its id. -/
structure Settled (db : DB) (r r' : Run) : Prop where
  running : r.status = .running
  closed : r'.status ≠ .running
  notSuccess : r'.status ≠ .success
  unconfirmed : r'.status = .completedUnconfirmed → ∃ it ∈ db.items, it.runID = some r.id
  reconciles : r.Reconciles → r'.Reconciles

/-- Running rows are closed without items. -/
structure Settles (db db' : DB) (g : Run → Run) : Prop extends RewritesRuns db db' g where
  items : db'.items = db.items
  row : ∀ r, g r = r ∨ Settled db r (g r)

theorem Settles.stays (h : Settles db db' g) (r : Run) (hrunning : (g r).status = .running) :
    g r = r := by
  rcases h.row r with heq | hclosed
  · exact heq
  · exact absurd hrunning hclosed.closed

theorem RunSummary.reconciles_iff {rs : RunSummary} :
    rs.reconciles ↔ (rs.rejectReasons.map (·.2)).sum = rs.itemsRejected := by
  rw [RunSummary.reconciles, beq_iff_eq]

theorem settles_reclaim (db : DB) (olderThan now : ℤ) :
    ∃ g, Settles db (reclaimStaleRuns db olderThan now) g := by
  refine ⟨_, ⟨⟨rfl, ?_, ?_, ?_, ?_⟩, rfl, ?_⟩⟩
  · intro r hr
    rw [if_neg (by simp [hr])]
  · intro r
    split <;> rfl
  · intro r
    split <;> rfl
  · intro r
    split <;> rfl
  · intro r
    split
    · rename_i hstale
      rw [Bool.and_eq_true, beq_iff_eq] at hstale
      refine .inr ⟨hstale.1, ?_, ?_, ?_, fun h => h⟩
      · by_cases hitems : db.items.any (·.runID == some r.id) = true <;> simp [hitems]
      · by_cases hitems : db.items.any (·.runID == some r.id) = true <;> simp [hitems]
      · intro hstatus
        by_cases hitems : db.items.any (·.runID == some r.id) = true
        · simpa using hitems
        · simp [hitems] at hstatus
    · exact .inl rfl

theorem settles_updateRunning {f : Run → Run} (h : updateRunning db runID f = .ok db')
    (hrs : rs.reconciles)
    (hf : ∀ r, (f r).id = r.id ∧ (f r).feedID = r.feedID ∧ (f r).startedAt = r.startedAt)
    (hstatus : ∀ r, (f r).status = .failed ∨ (f r).status = .skipped)
    (hsum : ∀ r, (f r).rejectReasons = rs.rejectReasons ∧ (f r).itemsRejected = rs.itemsRejected) :
    ∃ g, Settles db db' g := by
  refine ⟨_, ⟨rewrites_updateRunning h hf, updateRunning_items h, fun r => ?_⟩⟩
  rcases @onRunning_eq runID f r with heq | ⟨heq, -, hrunning⟩
  · exact .inl heq
  rw [heq]
  refine .inr ⟨hrunning, ?_, ?_, ?_, fun _ => ?_⟩
  · rcases hstatus r with hs | hs <;> simp [hs]
  · rcases hstatus r with hs | hs <;> simp [hs]
  · rcases hstatus r with hs | hs <;> simp [hs]
  · rw [Run.Reconciles, (hsum r).1, (hsum r).2]
    exact RunSummary.reconciles_iff.1 hrs

theorem rewrites_commitRun {items : List Item} {embeddings : List (String × Embedding)}
    (h : commitRun db runID items rs embeddings now = .ok db') :
    RewritesRuns db db' (onRunning runID fun r =>
      { r.record rs now with status := .success, itemsAdded := items.length }) := by
  obtain ⟨db₁, db₂, hitems, hclose, rfl⟩ := commitRun_ok h
  have hrw := rewrites_updateRunning hclose fun _ => ⟨rfl, rfl, rfl⟩
  refine ⟨?_, hrw.closed, hrw.id, hrw.feed, hrw.started⟩
  rw [← (commitItems_ok hitems).2.1.1]
  exact hrw.runs

theorem RunOp.run_start (h : (RunOp.start feedID trigger holder).run db now = .ok db') :
    ∃ r, startRun db feedID trigger holder now = .ok r ∧ db' = r.1 := by
  simp only [RunOp.run] at h
  cases hs : startRun db feedID trigger holder now with
  | error e => rw [hs] at h; cases h
  | ok r =>
    rw [hs] at h
    cases h
    exact ⟨r, rfl, rfl⟩

/-- **What a call that went through did**: a new row, a renewed one, a commit, or rows closed
without items. -/
theorem RunOp.run_ok {op : RunOp} (h : op.run db now = .ok db') :
    (∃ feedID trigger holder r, op = .start feedID trigger holder ∧
      startRun db feedID trigger holder now = .ok r ∧ db' = r.1) ∨
    (∃ runID, op = .beat runID ∧ heartbeat db runID now = .ok db') ∨
    (∃ runID items rs embeddings, op = .commit runID items rs embeddings ∧
      commitRun db runID items rs embeddings now = .ok db') ∨
    ∃ g, Settles db db' g := by
  cases op with
  | start feedID trigger holder =>
    obtain ⟨r, hs, hdb⟩ := RunOp.run_start h
    exact .inl ⟨feedID, trigger, holder, r, rfl, hs, hdb⟩
  | beat runID => exact .inr (.inl ⟨runID, rfl, h⟩)
  | commit runID items rs embeddings =>
    exact .inr (.inr (.inl ⟨runID, items, rs, embeddings, rfl, h⟩))
  | fail runID errorKind message rs =>
    simp only [RunOp.run, failRun] at h
    split at h
    · cases h
    rename_i hrs
    exact .inr (.inr (.inr (settles_updateRunning h (by simpa using hrs)
      (fun _ => ⟨rfl, rfl, rfl⟩) (fun _ => .inl rfl) fun _ => ⟨rfl, rfl⟩)))
  | skip runID reason rs =>
    simp only [RunOp.run, skipRun] at h
    split at h
    · cases h
    rename_i hrs
    exact .inr (.inr (.inr (settles_updateRunning h (by simpa using hrs)
      (fun _ => ⟨rfl, rfl, rfl⟩) (fun _ => .inr rfl) fun _ => ⟨rfl, rfl⟩)))
  | reclaim olderThan =>
    cases h
    exact .inr (.inr (.inr (settles_reclaim db olderThan now)))

/-! ## A small store -/

/-- A store with one feed and no runs. -/
def oneFeedDB : DB where
  feeds := [{ id := 1, slug := "trivia", title := "Trivia", kind := .generative, enabled := true,
              createdAt := march2026, updatedAt := march2026 }]

/-- The worker attempts a run of the feed, the given minutes into March 2026. -/
def workerStarts (minutes : ℤ) : Attempt :=
  ⟨.start 1 .cron "worker", march2026 + minutes * Time.minute, none⟩

end AnimeFeedFlux
