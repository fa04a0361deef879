import AnimeFeedFlux.Store.RunMachine

/-!
# The life of a run

A run row is opened `running`, closed once, and never touched again.  Items and the row that
accounts for them are written in one transaction, so items are found only with a run that is a
`success`, as many as it says it added.  The watchdog does not rely on that: a stale run that has
items would be closed as `completed_unconfirmed`.  It never is.

The argument is an induction over the attempts of a history; `Booked` is what it carries.
-/

namespace AnimeFeedFlux

open Machine List

/-! ## The invariant -/

/-- The number of items that carry the id of a run. -/
def DB.itemsOfRun (db : DB) (runID : ℕ) : ℕ := db.items.countP (·.runID == some runID)

/-- What the two tables say about each other. -/
structure Lifecycle (db : DB) : Prop where
  /-- Items carry the id of a run that is a `success`. -/
  attributed : ∀ it ∈ db.items, ∀ id, it.runID = some id →
    ∃ r ∈ db.runs, r.id = id ∧ r.status = .success
  counted : ∀ r ∈ db.runs, r.status = .success → db.itemsOfRun r.id = r.itemsAdded
  reconciled : ∀ r ∈ db.runs, r.Reconciles
  confirmed : ∀ r ∈ db.runs, r.status ≠ .completedUnconfirmed

/-- The invariant of the histories. -/
structure Booked (db : DB) : Prop extends Lifecycle db where
  ids : (db.runs.map (·.id)).Nodup

variable {db : DB} {r : Run}

theorem Booked.eq_of_id (h : Booked db) {r' : Run} (hr : r ∈ db.runs) (hr' : r' ∈ db.runs)
    (hid : r.id = r'.id) : r = r' :=
  inj_on_of_nodup_map h.ids hr hr' hid

theorem Booked.no_items (h : Booked db) (hr : r ∈ db.runs) (hstatus : r.status ≠ .success) :
    ∀ it ∈ db.items, it.runID ≠ some r.id := by
  intro it hit hid
  obtain ⟨r', hr', hid', hsuccess⟩ := h.attributed it hit r.id hid
  rw [h.eq_of_id hr' hr hid'] at hsuccess
  exact hstatus hsuccess

variable {runID : ℕ}

theorem itemsOfRun_eq_zero (h : ∀ it ∈ db.items, it.runID ≠ some runID) :
    db.itemsOfRun runID = 0 := by
  rw [DB.itemsOfRun, countP_eq_zero]
  intro it hit
  simpa using h it hit

/-! ## Steps -/

variable {now : ℤ}

theorem Booked.start (h : Booked db) {feedID : ℕ} {trigger : Trigger} {holder : String}
    {res : DB × ℕ} (hstart : startRun db feedID trigger holder now = .ok res) : Booked res.1 := by
  refine ⟨?_, nodup_startRun h.ids hstart⟩
  obtain ⟨-, hdb⟩ := startRun_ok hstart
  rw [hdb]
  refine ⟨?_, ?_, ?_, ?_⟩
  · intro it hit id hid
    obtain ⟨r, hr, hrest⟩ := h.attributed it hit id hid
    exact ⟨r, mem_append_left _ hr, hrest⟩
  · intro r hr hsuccess
    rcases mem_append.1 hr with hr | hr
    · exact h.counted r hr hsuccess
    rw [mem_singleton.1 hr] at hsuccess
    cases hsuccess
  · intro r hr
    rcases mem_append.1 hr with hr | hr
    · exact h.reconciled r hr
    rw [mem_singleton.1 hr]
    rfl
  · intro r hr
    rcases mem_append.1 hr with hr | hr
    · exact h.confirmed r hr
    rw [mem_singleton.1 hr]
    simp

variable {db' : DB} {g : Run → Run} {s : RunStore}

theorem Booked.rewrite (h : Booked db) (hrw : RewritesRuns db db' g) (hitems : db'.items = db.items)
    (hrow : ∀ r ∈ db.runs, r.status = .running → (g r).status ≠ .success ∧
      (g r).status ≠ .completedUnconfirmed ∧ (g r).Reconciles) : Booked db' := by
  have hmem : ∀ r' ∈ db'.runs, (r' ∈ db.runs ∧ r'.status ≠ .running) ∨
      (r'.status ≠ .success ∧ r'.status ≠ .completedUnconfirmed ∧ r'.Reconciles) := by
    intro r' hr'
    rw [hrw.runs] at hr'
    obtain ⟨r, hr, rfl⟩ := mem_map.1 hr'
    by_cases hrunning : r.status = .running
    · exact .inr (hrow r hr hrunning)
    rw [hrw.closed r hrunning]
    exact .inl ⟨hr, hrunning⟩
  refine ⟨⟨?_, ?_, ?_, ?_⟩, ?_⟩
  · intro it hit id hid
    rw [hitems] at hit
    obtain ⟨r, hr, hrid, hsuccess⟩ := h.attributed it hit id hid
    refine ⟨r, ?_, hrid, hsuccess⟩
    rw [hrw.runs, mem_map]
    exact ⟨r, hr, hrw.closed r (by simp [hsuccess])⟩
  · intro r hr hsuccess
    rcases hmem r hr with ⟨hr₀, -⟩ | ⟨hnot, -⟩
    · rw [DB.itemsOfRun, hitems]
      exact h.counted r hr₀ hsuccess
    · exact absurd hsuccess hnot
  · intro r hr
    rcases hmem r hr with ⟨hr₀, -⟩ | ⟨-, -, hrec⟩
    · exact h.reconciled r hr₀
    · exact hrec
  · intro r hr
    rcases hmem r hr with ⟨hr₀, -⟩ | ⟨-, hconf, -⟩
    · exact h.confirmed r hr₀
    · exact hconf
  · rw [hrw.ids]
    exact h.ids

theorem Booked.beat (h : Booked db) (hbeat : heartbeat db runID now = .ok db') : Booked db' := by
  refine h.rewrite (rewrites_updateRunning hbeat fun _ => ⟨rfl, rfl, rfl⟩)
    (updateRunning_items hbeat) fun r hr hrunning => ?_
  rcases @onRunning_eq runID (fun r => { r with heartbeatAt := some now }) r with heq | ⟨heq, -⟩
  · rw [heq, hrunning]
    exact ⟨by simp, by simp, h.reconciled r hr⟩
  · rw [heq]
    exact ⟨by simp [hrunning], by simp [hrunning], h.reconciled r hr⟩

theorem Booked.settle (h : Booked db) (hsettles : Settles db db' g) : Booked db' := by
  refine h.rewrite hsettles.toRewritesRuns hsettles.items fun r hr hrunning => ?_
  rcases hsettles.row r with heq | hset
  · rw [heq, hrunning]
    exact ⟨by simp, by simp, h.reconciled r hr⟩
  refine ⟨hset.notSuccess, ?_, hset.reconciles (h.reconciled r hr)⟩
  intro hstatus
  obtain ⟨it, hit, hid⟩ := hset.unconfirmed hstatus
  exact h.no_items hr (by simp [hrunning]) it hit hid

theorem Booked.commit (h : Booked db) {items : List Item} {rs : RunSummary}
    {embeddings : List (String × Embedding)}
    (hcommit : commitRun db runID items rs embeddings now = .ok db') : Booked db' := by
  have hrw := rewrites_commitRun hcommit
  have hrs := RunSummary.reconciles_iff.1 (commitRun_reconciles hcommit)
  obtain ⟨db₁, db₂, hinserts, hclose, rfl⟩ := commitRun_ok hcommit
  obtain ⟨⟨rows, hrows, hslots, hnew⟩, ⟨hruns, -⟩, -⟩ := commitItems_ok hinserts
  have hlen : rows.length = items.length := by simpa using congrArg List.length hslots
  have hrun : ∀ x ∈ rows, x.runID = some runID := by
    intro x hx
    obtain ⟨it, -, id, rfl⟩ := hnew x hx
    rfl
  have hitems : db₂.items = db.items ++ rows := by rw [updateRunning_items hclose, hrows]
  obtain ⟨r₀, hr₀, hid₀, hrunning₀⟩ : db.Running runID := by
    have := updateRunning_eq_ok.1 ⟨db₂, hclose⟩
    rwa [DB.Running, hruns] at this
  have hcount : ∀ id, db.itemsOfRun id + rows.countP (·.runID == some id) = db₂.itemsOfRun id := by
    intro id
    rw [DB.itemsOfRun, DB.itemsOfRun, hitems, countP_append]
  -- The row that is closed, and the others.
  have hmem : ∀ r' ∈ db₂.runs, (r' ∈ db.runs ∧ r'.id ≠ runID) ∨
      (r'.id = runID ∧ r'.status = .success ∧ r'.itemsAdded = items.length ∧ r'.Reconciles) := by
    intro r' hr'
    rw [hrw.runs] at hr'
    obtain ⟨r, hr, rfl⟩ := mem_map.1 hr'
    by_cases hid : r.id = runID
    · rw [h.eq_of_id hr hr₀ (hid.trans hid₀.symm), onRunning, if_pos (by simp [hid₀, hrunning₀])]
      exact .inr ⟨hid₀, rfl, rfl, hrs⟩
    · rw [onRunning, if_neg (by simp [hid])]
      exact .inl ⟨hr, hid⟩
  refine ⟨⟨?_, ?_, ?_, ?_⟩, ?_⟩
  · intro it hit id hid
    rcases mem_append.1 (hitems ▸ hit) with hit | hit
    · obtain ⟨r, hr, hrid, hsuccess⟩ := h.attributed it hit id hid
      refine ⟨r, ?_, hrid, hsuccess⟩
      rw [hrw.runs, mem_map]
      exact ⟨r, hr, hrw.closed r (by simp [hsuccess])⟩
    · rw [hrun it hit, Option.some.injEq] at hid
      subst hid
      refine ⟨_, ?_, hrw.id r₀ ▸ hid₀, ?_⟩
      · rw [hrw.runs]
        exact mem_map_of_mem hr₀
      · rw [onRunning, if_pos (by simp [hid₀, hrunning₀])]
  · intro r hr hsuccess
    rcases hmem r hr with ⟨hr', hid⟩ | ⟨hid, -, hadded, -⟩
    · have hnone : rows.countP (·.runID == some r.id) = 0 := by
        rw [countP_eq_zero]
        intro it hit
        simpa [hrun it hit] using hid.symm
      have hsum := hcount r.id
      rw [hnone, Nat.add_zero, h.counted r hr' hsuccess] at hsum
      exact hsum.symm
    · have hold := itemsOfRun_eq_zero (h.no_items hr₀ (by simp [hrunning₀]))
      have hall : rows.countP (·.runID == some runID) = rows.length := by
        rw [countP_eq_length]
        intro it hit
        simp [hrun it hit]
      have hsum := hcount runID
      rw [hid₀] at hold
      rw [hold, hall, hlen, Nat.zero_add] at hsum
      rw [hid, hadded]
      exact hsum.symm
  · intro r hr
    rcases hmem r hr with ⟨hr', -⟩ | ⟨-, -, -, hrec⟩
    · exact h.reconciled r hr'
    · exact hrec
  · intro r hr
    rcases hmem r hr with ⟨hr', -⟩ | ⟨-, hsuccess, -⟩
    · exact h.confirmed r hr'
    · simp [hsuccess]
  · rw [hrw.ids]
    exact h.ids

theorem Booked.step (h : Booked s.db) (a : Attempt) : Booked (s.step a).db := by
  rw [RunStore.step]
  rcases a.call_cases h.ids with ⟨e, hcall⟩ | ⟨db', hrun, hcall⟩ <;> rw [hcall]
  · exact h
  rcases RunOp.run_ok hrun with ⟨feedID, trigger, holder, res, -, hstart, rfl⟩ |
    ⟨runID, -, hbeat⟩ | ⟨runID, items, rs, embeddings, -, hcommit⟩ | ⟨g, hsettles⟩
  · exact h.start hstart
  · exact h.beat hbeat
  · exact h.commit hcommit
  · exact h.settle hsettles

theorem Booked.closed_step (h : Booked s.db) (a : Attempt) (hr : r ∈ s.db.runs)
    (hclosed : r.status ≠ .running) : r ∈ (s.step a).db.runs := by
  have hmapped : ∀ {db' : DB} {g : Run → Run}, RewritesRuns s.db db' g → r ∈ db'.runs := by
    intro db' g hrw
    rw [hrw.runs, mem_map]
    exact ⟨r, hr, hrw.closed r hclosed⟩
  rw [RunStore.step]
  rcases a.call_cases h.ids with ⟨e, hcall⟩ | ⟨db', hrun, hcall⟩ <;> rw [hcall]
  · exact hr
  rcases RunOp.run_ok hrun with ⟨feedID, trigger, holder, res, -, hstart, rfl⟩ |
    ⟨runID, -, hbeat⟩ | ⟨runID, items, rs, embeddings, -, hcommit⟩ | ⟨g, hsettles⟩
  · obtain ⟨-, hdb⟩ := startRun_ok hstart
    rw [hdb]
    exact mem_append_left _ hr
  · exact hmapped (rewrites_updateRunning hbeat fun _ => ⟨rfl, rfl, rfl⟩)
  · exact hmapped (rewrites_commitRun hcommit)
  · exact hmapped hsettles.toRewritesRuns

/-! ## Whole histories -/

theorem booked_exec (h : Booked s.db) (acts : List Attempt) :
    Booked (exec RunStore.step s acts).db :=
  exec_induction RunStore.step (fun s => Booked s.db) (fun _ a hs => hs.step a) acts s h

theorem closed_exec (h : Booked s.db) (hr : r ∈ s.db.runs) (hclosed : r.status ≠ .running)
    (acts : List Attempt) : r ∈ (exec RunStore.step s acts).db.runs := by
  have hboth := exec_induction RunStore.step (fun s => Booked s.db ∧ r ∈ s.db.runs)
    (fun s a hs => ⟨hs.1.step a, hs.1.closed_step a hs.2 hclosed⟩) acts s ⟨h, hr⟩
  exact hboth.2

/-- **The life of a run.**  From a store without runs, in every history: the books are right in
every state, a row that is closed stays as it is, and an attempt that returns an error changes
nothing. -/
theorem always_lifecycle (db : DB) (clock : ℤ) (hruns : db.runs = [])
    (hitems : ∀ it ∈ db.items, it.runID = none) (acts : List Attempt) :
    Always RunStore.step (fun s => Lifecycle s.db) ⟨db, clock⟩ acts ∧
    (∀ before after, acts = before ++ after →
      ∀ r ∈ (exec RunStore.step ⟨db, clock⟩ before).db.runs, r.status ≠ .running →
        r ∈ (exec RunStore.step ⟨db, clock⟩ acts).db.runs ∧
        ∀ r' ∈ (exec RunStore.step ⟨db, clock⟩ acts).db.runs, r'.id = r.id → r' = r) ∧
    ∀ before a after, acts = before ++ a :: after →
      ∀ e, (a.call (exec RunStore.step ⟨db, clock⟩ before).db).2 = .error e →
        (exec RunStore.step ⟨db, clock⟩ (before ++ [a])).db =
          (exec RunStore.step ⟨db, clock⟩ before).db := by
  have hstart : Booked (⟨db, clock⟩ : RunStore).db := by
    refine ⟨⟨?_, by simp [hruns], by simp [hruns], by simp [hruns]⟩, by simp [hruns]⟩
    intro it hit id hid
    rw [hitems it hit] at hid
    cases hid
  refine ⟨?_, ?_, ?_⟩
  · have halways : Always RunStore.step (fun s => Booked s.db) ⟨db, clock⟩ acts :=
      always_of_step (fun s a hs => Booked.step hs a) acts _ hstart
    exact halways.mono fun s hs => hs.toLifecycle
  · rintro before after rfl r hr hclosed
    have hbooked := booked_exec hstart before
    have hstays := closed_exec hbooked hr hclosed after
    rw [← exec_append] at hstays
    exact ⟨hstays, fun r' hr' hid =>
      (booked_exec hstart (before ++ after)).eq_of_id hr' hstays hid⟩
  · rintro before a after rfl e herror
    rw [exec_concat, RunStore.step]
    rcases a.call_cases (booked_exec hstart before).ids with ⟨e', hcall⟩ | ⟨db', -, hcall⟩
    · rw [hcall]
    rw [hcall] at herror
    cases herror

/-- The commit of a run with one item. -/
def triviaCommit : RunOp :=
  .commit 1 [{ feedID := 1, itemKey := "01HQ", contentHash := ⟨"q"⟩, title := "Question",
               publishedAt := march2026, origin := .generated }]
    { itemsRejected := 2, rejectReasons := [("novelty_duplicate", 2)] } []

/-- A run whose first commit fails at the closing update, and whose second goes through. -/
def retriedCommit : List Attempt :=
  [workerStarts 0, ⟨triviaCommit, march2026 + Time.minute, some (2, .contextDone)⟩,
   ⟨triviaCommit, march2026 + 2 * Time.minute, none⟩, workerStarts 9,
   ⟨.reclaim Time.minute, march2026 + 15 * Time.minute, none⟩]

theorem always_lifecycle_retriedCommit :
    (oneFeedDB.runs = [] ∧ ∀ it ∈ oneFeedDB.items, it.runID = none) ∧
      Always RunStore.step (fun s => Lifecycle s.db) ⟨oneFeedDB, 0⟩ retriedCommit ∧
      (exec RunStore.step ⟨oneFeedDB, 0⟩ (retriedCommit.take 2)).db =
        (exec RunStore.step ⟨oneFeedDB, 0⟩ (retriedCommit.take 1)).db := by
  have hitems : ∀ it ∈ oneFeedDB.items, it.runID = none := by decide
  have hlife := always_lifecycle oneFeedDB 0 rfl hitems retriedCommit
  exact ⟨⟨rfl, hitems⟩, hlife.1, hlife.2.2 [workerStarts 0] _ _ rfl .contextDone (by rfl)⟩

end AnimeFeedFlux
