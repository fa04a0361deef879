import AnimeFeedFlux.Store.Items
import Mathlib.Algebra.BigOperators.Group.List.Basic

/-!
# The life of a run row

A generation run is a row of `runs`: `startRun` opens it, and exactly one of `commitRun`,
`failRun` and `skipRun` closes it, by an `UPDATE … WHERE id = ? AND status = 'running'`.
`commitRun` inserts the run's items in the same transaction, so an item that cannot be
inserted leaves the row open.  A crash leaves it open too; `reclaimStaleRuns` closes such
rows by the age of their heartbeat.

Every function takes the clock reading it would make.  A function that fails returns no
database: its transaction is rolled back and the caller keeps the one it had.
-/

namespace AnimeFeedFlux

open List

/-- `runLockStaleAfter`: a running row blocks a new run while its heartbeat is younger. -/
def runLockStaleAfter : ℤ := 3 * Time.minute

structure RunSummary where
  tokensIn : ℕ := 0
  tokensOut : ℕ := 0
  costUSD : ℚ := 0
  itemsRejected : ℕ := 0
  rejectReasons : List (String × ℕ) := []
  deriving DecidableEq, Repr

/-- The check `reasonsJSON` makes: the reasons account for every rejected item. -/
def RunSummary.reconciles (rs : RunSummary) : Bool :=
  (rs.rejectReasons.map (·.2)).sum == rs.itemsRejected

/-! ## Opening a run -/

/-- `ORDER BY started_at DESC LIMIT 1`, over the texts. -/
def latestStarted : List Run → Option Run
  | [] => none
  | r :: rs =>
    match latestStarted rs with
    | none => some r
    | some m => some (if formatTime r.startedAt < formatTime m.startedAt then m else r)

/-- `Store.StartRun`: refuses while the latest running row of the feed has a fresh
heartbeat, otherwise inserts a running row and returns its id. -/
def startRun (db : DB) (feedID : ℕ) (trigger : Trigger) (holder : String) (now : ℤ) :
    Except StoreError (DB × ℕ) :=
  let insert : Except StoreError (DB × ℕ) :=
    if db.feeds.any (·.id == feedID) then
      let id := nextID (db.runs.map (·.id))
      .ok ({ db with runs := db.runs ++ [{ id, feedID, startedAt := now, status := .running,
                                           trigger, lockHolder := holder,
                                           heartbeatAt := some now }] }, id)
    else .error .foreignKey
  match latestStarted (db.runs.filter fun r => r.feedID == feedID && r.status == .running) with
  | none => insert
  | some r =>
    match r.heartbeatAt with
    | none => insert
    | some hb =>
      if ¬FourDigitYear hb then .error .badTime
      else if !Time.isZero hb && now - hb < runLockStaleAfter then .error .runInProgress
      else insert

variable {db : DB} {now : ℤ}

theorem startRun_ok {feedID : ℕ} {trigger : Trigger} {holder : String} {r : DB × ℕ}
    (h : startRun db feedID trigger holder now = .ok r) :
    r.2 = nextID (db.runs.map (·.id)) ∧ r.1 = { db with
        runs := db.runs ++ [{ id := nextID (db.runs.map (·.id)), feedID, startedAt := now,
                              status := .running, trigger, lockHolder := holder,
                              heartbeatAt := some now }] } := by
  simp only [startRun] at h
  -- Every branch that succeeds ends in the one insert.
  repeat' split at h
  all_goals first
    | cases h; exact ⟨rfl, rfl⟩
    | cases h

/-! ## Closing a run -/

/-- `UPDATE runs SET … WHERE id = ? AND status = 'running'`, which must affect a row. -/
def updateRunning (db : DB) (runID : ℕ) (f : Run → Run) : Except StoreError DB :=
  if db.runs.any (fun r => r.id == runID && r.status == .running) then
    .ok { db with runs := db.runs.map fun r =>
            if r.id == runID && r.status == .running then f r else r }
  else .error .notFound

def heartbeat (db : DB) (runID : ℕ) (now : ℤ) : Except StoreError DB :=
  updateRunning db runID fun r => { r with heartbeatAt := some now }

/-- The columns every closing `UPDATE` sets from the summary. -/
def Run.record (r : Run) (rs : RunSummary) (now : ℤ) : Run :=
  { r with finishedAt := some now, heartbeatAt := some now, tokensIn := rs.tokensIn,
           tokensOut := rs.tokensOut, estCostUSD := rs.costUSD,
           itemsRejected := rs.itemsRejected, rejectReasons := rs.rejectReasons }

/-- The `INSERT`s of `CommitRun`, in order, each followed by the item's embedding if there
is one.  Returns the embeddings that were not used. -/
def commitItems (runID : ℕ) (now : ℤ) :
    DB → List Item → List (String × Embedding) → Except StoreError (DB × List (String × Embedding))
  | db, [], byKey => .ok (db, byKey)
  | db, it :: its, byKey =>
    match insertItemRow db (it.newRow it.publishedAt (some runID) now) with
    | .error e => .error e
    | .ok db' =>
      let id := nextID (db.items.map (·.id))
      let vs := byKey.filter (·.1 == it.itemKey)
      commitItems runID now
        { db' with embeddings := db'.embeddings ++ (vs.getLast?.map fun v => (id, v.2)).toList }
        its (byKey.filter (·.1 != it.itemKey))

/-- `Store.CommitRun`: the items with their `published_at` as given, their embeddings, the
closed run row and the feed's `last_built_at`, in one transaction. -/
def commitRun (db : DB) (runID : ℕ) (items : List Item) (rs : RunSummary)
    (embeddings : List (String × Embedding)) (now : ℤ) : Except StoreError DB :=
  if !rs.reconciles then .error .reasonsMismatch
  else match commitItems runID now db items embeddings with
    | .error e => .error e
    | .ok (db₁, byKey) =>
      if byKey ≠ [] then .error .strayEmbedding
      else match updateRunning db₁ runID fun r =>
          { r.record rs now with status := .success, itemsAdded := items.length } with
        | .error e => .error e
        | .ok db₂ =>
          .ok { db₂ with feeds := db₂.feeds.map fun f =>
                  if db₂.runs.any (fun r => r.id == runID && r.feedID == f.id) then
                    { f with lastBuiltAt := some now }
                  else f }

def failRun (db : DB) (runID : ℕ) (errorKind message : String) (rs : RunSummary) (now : ℤ) :
    Except StoreError DB :=
  if !rs.reconciles then .error .reasonsMismatch
  else updateRunning db runID fun r =>
    { r.record rs now with status := .failed, errorKind, error := message, itemsAdded := 0 }

def skipRun (db : DB) (runID : ℕ) (reason : String) (rs : RunSummary) (now : ℤ) :
    Except StoreError DB :=
  if !rs.reconciles then .error .reasonsMismatch
  else updateRunning db runID fun r =>
    { r.record rs now with status := .skipped, error := reason }

variable {db' : DB} {runID : ℕ} {f : Run → Run}

theorem updateRunning_ok (h : updateRunning db runID f = .ok db') :
    db' = { db with runs := db.runs.map fun r =>
              if r.id == runID && r.status == .running then f r else r } := by
  simp only [updateRunning] at h
  split at h
  · cases h; rfl
  · cases h

theorem updateRunning_items (h : updateRunning db runID f = .ok db') : db'.items = db.items := by
  rw [updateRunning_ok h]

variable {its : List Item}

/-- **What the inserts of a commit that went through did**: they appended a row for each item, in
order, and left over the embeddings of other keys. -/
theorem commitItems_ok : ∀ {db db' : DB} {byKey left : List (String × Embedding)},
      commitItems runID now db its byKey = .ok (db', left) →
      (∃ rows, db'.items = db.items ++ rows ∧ rows.map Item.slot = its.map Item.slot ∧
        ∀ x ∈ rows, ∃ it ∈ its, ∃ id, x = { it.newRow it.publishedAt (some runID) now with id }) ∧
      (db'.runs = db.runs ∧ db'.feeds = db.feeds ∧ db'.sampleSpend = db.sampleSpend) ∧
      left = byKey.filter fun kv => kv.1 ∉ its.map (·.itemKey) := by
  induction its with
  | nil =>
    intro db db' byKey left h
    cases h
    exact ⟨⟨[], by simp⟩, ⟨rfl, rfl, rfl⟩, by simp⟩
  | cons it its ih =>
    intro db db' byKey left h
    simp only [commitItems] at h
    split at h
    · cases h
    rename_i db₁ hins
    obtain ⟨rfl, -⟩ := insertItemRow_ok hins
    obtain ⟨⟨rows, hitems, hslots, hrows⟩, hframe, hleft⟩ := ih h
    refine ⟨⟨db.storedRow (it.newRow it.publishedAt (some runID) now) :: rows, ?_, ?_, ?_⟩,
      hframe, ?_⟩
    · rw [hitems, append_assoc]
      rfl
    · rw [map_cons, map_cons, hslots]
      rfl
    · refine forall_mem_cons.2 ⟨⟨it, mem_cons_self .., _, rfl⟩, fun x hx => ?_⟩
      obtain ⟨y, hy, hxy⟩ := hrows x hx
      exact ⟨y, mem_cons_of_mem _ hy, hxy⟩
    · rw [hleft, filter_filter]
      congr 1
      ext kv
      by_cases hk : kv.1 = it.itemKey <;> simp [hk]

variable {items : List Item} {rs : RunSummary} {embeddings : List (String × Embedding)}

section
variable (h : commitRun db runID items rs embeddings now = .ok db')
include h

/-- What a commit that went through did: the inserts, the closing update, and the feed's
`last_built_at`. -/
theorem commitRun_ok :
    ∃ db₁ db₂, commitItems runID now db items embeddings = .ok (db₁, []) ∧
      updateRunning db₁ runID (fun r =>
        { r.record rs now with status := .success, itemsAdded := items.length }) = .ok db₂ ∧
      db' = { db₂ with feeds := db₂.feeds.map fun f =>
                if db₂.runs.any (fun r => r.id == runID && r.feedID == f.id) then
                  { f with lastBuiltAt := some now }
                else f } := by
  simp only [commitRun] at h
  split at h
  · cases h
  split at h
  · cases h
  · rename_i db₁ byKey hitems
    split at h
    · cases h
    rename_i hleft
    cases of_not_not hleft
    split at h
    · cases h
    rename_i db₂ hclose
    cases h
    exact ⟨db₁, db₂, hitems, hclose, rfl⟩

theorem commitRun_reconciles : rs.reconciles := by
  simp only [commitRun] at h
  split at h
  · cases h
  rename_i hrs
  simpa using hrs

theorem commitRun_rows :
    ∀ x ∈ db'.items, x ∈ db.items ∨
      ∃ it ∈ items, ∃ id, x = { it.newRow it.publishedAt (some runID) now with id } := by
  obtain ⟨db₁, db₂, hitems, hclose, rfl⟩ := commitRun_ok h
  obtain ⟨⟨rows, happend, -, hrows⟩, -⟩ := commitItems_ok hitems
  have hall : db₂.items = db.items ++ rows := (updateRunning_items hclose).trans happend
  intro x hx
  rcases mem_append.1 (hall ▸ hx) with hold | hnew
  · exact .inl hold
  · exact .inr (hrows x hnew)

theorem commitRun_slots : db'.slots = db.slots ++ items.map Item.slot := by
  obtain ⟨db₁, db₂, hitems, hclose, rfl⟩ := commitRun_ok h
  obtain ⟨⟨rows, happend, hslots, -⟩, -⟩ := commitItems_ok hitems
  have hall : db₂.items = db.items ++ rows := (updateRunning_items hclose).trans happend
  simp [DB.slots, hall, hslots]

end

/-! ## When a closing write goes through -/

/-- The run row is there and still `running`. -/
def DB.Running (db : DB) (runID : ℕ) : Prop :=
  ∃ r ∈ db.runs, r.id = runID ∧ r.status = .running
deriving Decidable

/-- The batch can be inserted: no stored row bars one of its items, the items do not bar one
another, and their feeds exist. -/
def DB.Accepts (db : DB) (items : List Item) : Prop :=
  items.Pairwise (fun x y => x.bars y = false) ∧
    ∀ it ∈ items, (∀ x ∈ db.items, x.bars it = false) ∧ ∃ f ∈ db.feeds, f.id = it.feedID
deriving Decidable

theorem updateRunning_eq_ok : (∃ db', updateRunning db runID f = .ok db') ↔ db.Running runID := by
  simp only [updateRunning, DB.Running]
  split
  · rename_i h
    simpa using h
  · rename_i h
    simpa using h

theorem not_running_of_updateRunning (hf : ∀ r, (f r).status ≠ .running)
    (h : updateRunning db runID f = .ok db') : ¬db'.Running runID := by
  rw [updateRunning_ok h]
  simp only [DB.Running, mem_map, not_exists, not_and]
  rintro r' ⟨r, -, rfl⟩ hid hstatus
  split at hstatus
  · exact hf r hstatus
  rename_i hr
  split at hid
  · contradiction
  · simp_all

theorem insertItemRow_eq_ok (db : DB) (it : Item) : (∃ db', insertItemRow db it = .ok db') ↔
      (∀ x ∈ db.items, x.bars it = false) ∧ (∃ f ∈ db.feeds, f.id = it.feedID) ∧
        ∀ r ∈ it.runID, ∃ x ∈ db.runs, x.id = r := by
  simp only [insertItemRow]
  split
  · rename_i h
    simp only [any_eq_true] at h
    obtain ⟨x, hx, hb⟩ := h
    simp only [reduceCtorEq, exists_false, false_iff]
    intro hall
    simp [hall.1 x hx] at hb
  · rename_i hbar
    cases hr : it.runID with
    | none => split <;> simp_all
    | some r =>
      split
      · simp_all
      rename_i h
      simp only [Option.all_some, Bool.and_eq_true, any_eq_true, beq_iff_eq] at h
      simp only [reduceCtorEq, exists_false, false_iff]
      intro hfree
      exact h ⟨hfree.2.1, hfree.2.2 r rfl⟩

theorem commitItems_eq_ok (now : ℤ) :
    ∀ {db : DB} (byKey : List (String × Embedding)), (∃ x ∈ db.runs, x.id = runID) →
      ((∃ res, commitItems runID now db its byKey = .ok res) ↔ db.Accepts its) := by
  induction its with
  | nil =>
    intro db byKey hrun
    simp [commitItems, DB.Accepts]
  | cons it its ih =>
    intro db byKey hrun
    have hrow := insertItemRow_eq_ok db (it.newRow it.publishedAt (some runID) now)
    cases hins : insertItemRow db (it.newRow it.publishedAt (some runID) now) with
    | error e =>
      simp only [hins, reduceCtorEq, exists_false, false_iff] at hrow
      simp only [commitItems, hins, reduceCtorEq, exists_false, false_iff]
      intro hacc
      have hit := hacc.2 it mem_cons_self
      exact hrow ⟨hit.1, hit.2, by simpa [Item.newRow] using hrun⟩
    | ok db' =>
      have hfree := hrow.mp ⟨db', hins⟩
      obtain ⟨rfl, -⟩ := insertItemRow_ok hins
      simp only [commitItems, hins]
      rw [ih _ (by exact hrun)]
      simp only [DB.Accepts, pairwise_cons, mem_append, mem_singleton, forall_mem_cons]
      constructor
      · intro hacc
        refine ⟨⟨?_, hacc.1⟩, ⟨hfree.1, hfree.2.1⟩, ?_⟩
        · intro y hy
          exact (hacc.2 y hy).1 (db.storedRow (it.newRow it.publishedAt (some runID) now))
            (Or.inr rfl)
        · intro y hy
          exact ⟨fun x hx => (hacc.2 y hy).1 x (Or.inl hx), (hacc.2 y hy).2⟩
      · intro hacc
        refine ⟨hacc.1.2, ?_⟩
        intro y hy
        refine ⟨?_, (hacc.2.2 y hy).2⟩
        rintro x (hx | rfl)
        · exact (hacc.2.2 y hy).1 x hx
        · exact hacc.1.1 y hy

theorem commitRun_feeds (h : commitRun db runID items rs embeddings now = .ok db') :
    ∃ built : FeedRow → Bool, db'.feeds = db.feeds.map fun f =>
      if built f then { f with lastBuiltAt := some now } else f := by
  obtain ⟨db₁, db₂, hitems, hclose, rfl⟩ := commitRun_ok h
  refine ⟨fun f => db₂.runs.any fun r => r.id == runID && r.feedID == f.id, ?_⟩
  have hfeeds : db₂.feeds = db.feeds := by
    rw [updateRunning_ok hclose, ← (commitItems_ok hitems).2.1.2.1]
  rw [← hfeeds]

/-- `CommitRun` goes through exactly when the summary adds up, the row is still `running`,
the batch is accepted and every embedding belongs to an item of the batch. -/
theorem commitRun_eq_ok (hrs : rs.reconciles)
    (hemb : ∀ kv ∈ embeddings, kv.1 ∈ items.map (·.itemKey)) (hrun : db.Running runID) :
    (∃ db', commitRun db runID items rs embeddings now = .ok db') ↔ db.Accepts items := by
  have hrow : ∃ x ∈ db.runs, x.id = runID := by
    obtain ⟨r, hr, hid, -⟩ := hrun
    exact ⟨r, hr, hid⟩
  rw [← commitItems_eq_ok now embeddings hrow]
  simp only [commitRun, hrs, Bool.not_true, Bool.false_eq_true, if_false]
  cases hitems : commitItems runID now db items embeddings with
  | error e => simp
  | ok res =>
    obtain ⟨db₁, left⟩ := res
    have hleft : left = [] := by
      rw [(commitItems_ok hitems).2.2, filter_eq_nil_iff]
      intro kv hkv
      simpa using hemb kv hkv
    have hrun₁ : db₁.Running runID := by
      rw [DB.Running, (commitItems_ok hitems).2.1.1]
      exact hrun
    obtain ⟨db₂, hclose⟩ := (updateRunning_eq_ok (f := fun r =>
      { r.record rs now with status := .success, itemsAdded := items.length })).mpr hrun₁
    simp [hleft, hclose]

theorem not_running_of_commitRun (h : commitRun db runID items rs embeddings now = .ok db') :
    ¬db'.Running runID := by
  obtain ⟨db₁, db₂, -, hclose, rfl⟩ := commitRun_ok h
  have hdone : ¬db₂.Running runID := not_running_of_updateRunning (fun r => by simp) hclose
  exact hdone

/-! ## Reclaiming -/

/-- `Store.ReclaimStaleRuns`: a running row whose heartbeat text is below the cutoff's is
closed, as `completed_unconfirmed` when items carry its id.  A row without a heartbeat is
never below it. -/
def reclaimStaleRuns (db : DB) (olderThan now : ℤ) : DB :=
  { db with runs := db.runs.map fun r =>
      if r.status == .running &&
          r.heartbeatAt.any (fun hb => formatTime hb < formatTime (now - olderThan)) then
        { r with status := if db.items.any (·.runID == some r.id) then .completedUnconfirmed
                           else .interrupted,
                 finishedAt := some now, heartbeatAt := some now }
      else r }

/-- `DELETE FROM runs WHERE …`; the items of a deleted run stay, with their `run_id` set to
`NULL`. -/
def deleteRuns (db : DB) (p : Run → Bool) : DB :=
  { db with
    runs := db.runs.filter fun r => !p r
    items := db.items.map fun it =>
      if it.runID.any fun id => db.runs.any fun r => r.id == id && p r then
        { it with runID := none }
      else it }

/-! ## Recorded spend -/

/-- A sum of recorded tokens and cost. -/
structure Spend where
  tokensIn : ℕ := 0
  tokensOut : ℕ := 0
  costUSD : ℚ := 0
  deriving DecidableEq, Repr

/-- `started_at >= ?` with, for a feed id other than `0`, `feed_id = ?`. -/
def Run.countedSince (r : Run) (feedID : ℕ) (since : ℤ) : Bool :=
  decide (formatTime since ≤ formatTime r.startedAt) && (feedID == 0 || r.feedID == feedID)

/-- `Store.SpendSince`; feed id `0` is the global variant. -/
def spendSince (db : DB) (feedID : ℕ) (since : ℤ) : Spend :=
  let rs := db.runs.filter (·.countedSince feedID since)
  ⟨(rs.map (·.tokensIn)).sum, (rs.map (·.tokensOut)).sum, (rs.map (·.estCostUSD)).sum⟩

end AnimeFeedFlux
