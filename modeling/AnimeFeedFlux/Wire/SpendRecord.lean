import AnimeFeedFlux.Generate.DryRun
import AnimeFeedFlux.Rpc.Sample
import AnimeFeedFlux.Store.Ledger
import AnimeFeedFlux.Wire.Closing

/-!
# Is what was spent recorded?

Every provider call of an execution has a token estimate, and the sum of them belongs into
the ledger, once.  A run writes it with the write that closes its row, a sample with the
write that stores it.  When that write does not happen the calls were made for free: a run
whose closing write is lost or rolled back, and every sample that ends in an error, however
many calls it made.
-/

namespace AnimeFeedFlux

/-- The window's totals grew by the estimates of the calls. -/
def Recorded (found db : DB) (calls : List Call) (feedID : ℕ) (since : ℤ) : Prop :=
  (totalSpendSince db feedID since).tokensIn =
      (totalSpendSince found feedID since).tokensIn + (calls.map Call.tokensIn).sum ∧
    (totalSpendSince db feedID since).tokensOut =
      (totalSpendSince found feedID since).tokensOut + (calls.map Call.tokensOut).sum

instance (found db : DB) (calls : List Call) (feedID : ℕ) (since : ℤ) :
    Decidable (Recorded found db calls feedID since) :=
  inferInstanceAs (Decidable (_ ∧ _))

/-- The calls are estimated at nothing. -/
def Free (calls : List Call) : Prop := ∀ c ∈ calls, c.tokensIn = 0 ∧ c.tokensOut = 0

theorem recorded_self_iff (db : DB) (calls : List Call) (feedID : ℕ) (since : ℤ) :
    Recorded db db calls feedID since ↔ Free calls := by
  simp [Recorded, Free, List.sum_eq_zero_iff, forall_and]

/-! ## The closing write of a run -/

section
variable {db db' : DB} {runID : ℕ} {rec : RunRecord} {items : List Item} {now since : ℤ}
  {feedID : ℕ}

/-- A closing write that goes through closes the row with the record's tokens. -/
theorem closed_commitRecord (h : commitRecord db runID rec items now = .ok db') :
    ∃ rs f, Closed db db' runID rs f ∧ rs.tokensIn = rec.tokensIn ∧
      rs.tokensOut = rec.tokensOut := by
  simp only [commitRecord] at h
  split at h
  · obtain ⟨f, hf⟩ := closed_commitRun h
    exact ⟨_, f, hf, rfl, rfl⟩
  · obtain ⟨f, hf⟩ := closed_skipRun h
    exact ⟨_, f, hf, rfl, rfl⟩
  · obtain ⟨f, hf⟩ := closed_failRun h
    exact ⟨_, f, hf, rfl, rfl⟩

theorem Closed.recorded {rs : RunSummary} {f : Run → Run} {calls : List Call}
    (h : Closed db db' runID rs f) (hl : db.Ledger) (hm : Metered rs.tokensIn rs.tokensOut calls)
    (hwindow : ∀ r ∈ db.runs, r.id = runID → r.countedSince feedID since) :
    Recorded db db' calls feedID since := by
  have hin := sum_close (v := (·.tokensIn)) hl h hwindow
    (fun r hr hs => (hl.unspent r hr hs).1) fun r => (h.summary r).1
  have hout := sum_close (v := (·.tokensOut)) hl h hwindow
    (fun r hr hs => (hl.unspent r hr hs).2.1) fun r => (h.summary r).2.1
  constructor
  · simp only [totalSpendSince_eq, DB.shares, h.sampleSpend, hin, hm.1]
    omega
  · simp only [totalSpendSince_eq, DB.shares, h.sampleSpend, hout, hm.2]
    omega

theorem recorded_commitRecord {calls : List Call}
    (h : commitRecord db runID rec items now = .ok db') (hl : db.Ledger)
    (hm : Metered rec.tokensIn rec.tokensOut calls)
    (hwindow : ∀ r ∈ db.runs, r.id = runID → r.countedSince feedID since) :
    Recorded db db' calls feedID since := by
  obtain ⟨rs, f, hclosed, hin, hout⟩ := closed_commitRecord h
  rw [← hin, ← hout] at hm
  exact hclosed.recorded hl hm hwindow
end

/-- A write that records what was spent does so unless it is lost, or there was nothing to
record. -/
theorem recorded_write_iff {m : Moment} {feedID : ℕ} {since : ℤ} {calls : List Call}
    {f : DB → Except StoreError DB}
    (hrec : ∀ db', f m.db = .ok db' → Recorded m.db db' calls feedID since) :
    Recorded m.db (m.write f).1 calls feedID since ↔
      Free calls ∨ (m.live ∧ ∃ db', f m.db = .ok db') := by
  cases hw : m.read f with
  | ok db' =>
    obtain ⟨hlive, hok⟩ := Moment.read_eq_ok.mp hw
    simp only [Moment.write, hw]
    exact iff_of_true (hrec db' hok) (Or.inr ⟨hlive, db', hok⟩)
  | error e =>
    have hlost : ¬(m.live = true ∧ ∃ db', f m.db = .ok db') := by
      rintro ⟨hlive, db', hok⟩
      rw [Moment.read_eq_ok.mpr ⟨hlive, hok⟩] at hw
      cases hw
    simp only [Moment.write, hw, hlost, or_false]
    exact recorded_self_iff _ _ _ _

/-! ## Executions -/

/-- An execution that may call the provider. -/
inductive Spending
  | run (env : RunEnv) (feedID : ℕ) (e : Entry)
  | sample (env : SampleEnv) (fold : String → String) (cfg : Config) (req : SampleRequest)

/-- The database as the execution's last store access found it. -/
def Spending.found : Spending → DB
  | .run env feedID e => (env.enter feedID e).found
  | .sample env _ _ _ => env.storing.db

/-- The database as the execution's last store access left it. -/
def Spending.left : Spending → DB
  | .run env feedID e => (env.enter feedID e).db
  | .sample env fold cfg req => (sampleRPC env fold cfg req).db

/-- The provider calls of the execution. -/
def Spending.calls : Spending → List Call
  | .run env feedID e => (env.enter feedID e).calls
  | .sample env fold cfg req => (sampleRPC env fold cfg req).calls

/-- The run row an executor works on. -/
def Entry.row (env : RunEnv) (feedID : ℕ) : Entry → Option ℕ
  | .cron holder =>
    match env.starting.read (startRun · feedID .cron holder env.startedAt) with
    | .ok (_, runID) => some runID
    | .error _ => none
  | .manual runID => some runID

/-- The execution falls into the window: the run row was started in it, or the sample is
stored in it. -/
def Spending.InWindow (feedID : ℕ) (since : ℤ) : Spending → Prop
  | .run env id e =>
    ∀ r ∈ env.closing.db.runs, e.row env id = some r.id → r.countedSince feedID since = true
  | .sample env _ _ req =>
    formatTime since ≤ formatTime env.storedAt ∧ (feedID = 0 ∨ feedID = req.feedID)

/-- What it takes for the write that records the spend to go through.  For a run: its row is
still `running`, its context alive and its batch fits.  For a sample: the dry run ends
without an error, its answer can be rendered and encoded, and the request's context is
alive when it is stored. -/
def Spending.Writes : Spending → Prop
  | .run env feedID e =>
    ∃ runID, e.row env feedID = some runID ∧ env.closing.db.Running runID ∧
      env.closing.live = true ∧ env.closing.db.Accepts (env.batch feedID e.trigger)
  | .sample env fold cfg req =>
    ∃ feed spec candidates payload, resolveSample env req = .ok (feed, spec) ∧
      passGates env fold cfg feed.id spec = .ok () ∧ DryRunSucceeds env.deps feed spec ∧
      env.buildCandidates (AnimeFeedFlux.sample env.deps feed spec) = .ok candidates ∧
      env.marshal candidates = .ok payload ∧ env.storing.live = true ∧
      ∃ f ∈ env.storing.db.feeds, f.id = feed.id

theorem free_nil : Free [] := by
  simp [Free]

section
variable {env : RunEnv} {feedID runID window : ℕ} {since : ℤ}

@[simp] theorem found_conductRun (feed : Feed) (fs : FeedSpec) (trigger : Trigger) :
    (conductRun env feed fs trigger runID).found = env.closing.db := by
  simp only [conductRun]
  split <;> rfl

theorem recorded_conductRun {feed : Feed} {fs : FeedSpec} {trigger : Trigger}
    (hload : env.loading.read (loadFeedRow · feedID) = .ok (feed, some fs))
    (hl : env.closing.db.Ledger)
    (hwindow : ∀ r ∈ env.closing.db.runs, r.id = runID → r.countedSince window since) :
    Recorded env.closing.db (conductRun env feed fs trigger runID).db
        (conductRun env feed fs trigger runID).calls window since ↔
      Free (conductRun env feed fs trigger runID).calls ∨
        (env.closing.db.Running runID ∧ env.closing.live ∧
          env.closing.db.Accepts (env.batch feedID trigger)) := by
  cases hrun : run env.deps feed (generateSpecFrom fs trigger env.prices env.defaults) with
  | none =>
    simp only [conductRun, hrun, free_nil, true_or, iff_true]
    exact (recorded_self_iff _ _ _ _).mpr free_nil
  | some o =>
    have hbatch : env.batch feedID trigger = o.items := by
      simp [RunEnv.batch, hload, hrun]
    simp only [conductRun, hrun, hbatch]
    rw [recorded_write_iff fun db' hok =>
      recorded_commitRecord hok hl (run_calls _ _ _ hrun).1 hwindow]
    apply or_congr_right
    constructor
    · rintro ⟨hlive, db', hok⟩
      have hrunning := running_of_commitRecord hok
      exact ⟨hrunning, hlive,
        (commitRecord_eq_ok (run_sound _ _ _ hrun) env.closedAt hrunning).mp ⟨db', hok⟩⟩
    · rintro ⟨hrunning, hlive, hacc⟩
      exact ⟨hlive, (commitRecord_eq_ok (run_sound _ _ _ hrun) env.closedAt hrunning).mpr hacc⟩

theorem recorded_abandonRun {errorKind message : String} (hl : env.closing.db.Ledger)
    (hwindow : ∀ r ∈ env.closing.db.runs, r.id = runID → r.countedSince window since) :
    Recorded env.closing.db (abandonRun env runID errorKind message).db [] window since := by
  refine (recorded_write_iff fun db' hok => ?_).mpr (Or.inl free_nil)
  obtain ⟨f, hclosed⟩ := closed_failRun hok
  exact hclosed.recorded hl metered_nil hwindow

theorem recorded_execute {holder : String} (hl : (execute env feedID .cron holder).found.Ledger)
    (hw : (Spending.run env feedID (.cron holder)).InWindow window since) :
    Recorded (execute env feedID .cron holder).found (execute env feedID .cron holder).db
        (execute env feedID .cron holder).calls window since ↔
      Free (execute env feedID .cron holder).calls ∨
        (Spending.run env feedID (.cron holder)).Writes := by
  have hidle : ∀ (db : DB) (P : Prop), Recorded db db [] window since ↔ Free [] ∨ P := by
    intro db P
    exact iff_of_true ((recorded_self_iff _ _ _ _).mpr free_nil) (Or.inl free_nil)
  cases hload : env.loading.read (loadFeedRow · feedID) with
  | error e =>
    simp only [execute, hload]
    exact hidle _ _
  | ok row =>
    obtain ⟨feed, fs⟩ := row
    cases fs with
    | none =>
      simp only [execute, hload]
      exact hidle _ _
    | some fs =>
      cases hstart : env.starting.read (startRun · feedID .cron holder env.startedAt) with
      | error e =>
        cases e <;> simp only [execute, hload, hstart] <;> exact hidle _ _
      | ok r =>
        simp only [execute, hload, hstart, found_conductRun] at hl ⊢
        simp only [Spending.Writes, Spending.InWindow, Entry.row, Entry.trigger, hstart,
          Option.some.injEq, exists_eq_left'] at hw ⊢
        exact recorded_conductRun hload hl fun r hr hid => hw r hr hid.symm

theorem recorded_executeRun (hl : (executeRun env feedID runID).found.Ledger)
    (hw : (Spending.run env feedID (.manual runID)).InWindow window since) :
    Recorded (executeRun env feedID runID).found (executeRun env feedID runID).db
        (executeRun env feedID runID).calls window since ↔
      Free (executeRun env feedID runID).calls ∨
        (Spending.run env feedID (.manual runID)).Writes := by
  have hwindow : ∀ r ∈ env.closing.db.runs, r.id = runID → r.countedSince window since = true := by
    intro r hr hid
    exact hw r hr (by simp [Entry.row, hid])
  have habandon : ∀ (errorKind message : String) (P : Prop), env.closing.db.Ledger →
      (Recorded env.closing.db (abandonRun env runID errorKind message).db [] window since ↔
        Free [] ∨ P) := by
    intro errorKind message P hledger
    exact iff_of_true (recorded_abandonRun hledger hwindow) (Or.inl free_nil)
  cases hacq : env.acquired with
  | false =>
    simp only [executeRun, hacq, Bool.not_false, if_true] at hl ⊢
    exact habandon _ _ _ hl
  | true =>
    cases hload : env.loading.read (loadFeedRow · feedID) with
    | error e =>
      simp only [executeRun, hacq, hload, Bool.not_true, Bool.false_eq_true, if_false] at hl ⊢
      exact habandon _ _ _ hl
    | ok row =>
      obtain ⟨feed, fs⟩ := row
      cases fs with
      | none =>
        simp only [executeRun, hacq, hload, Bool.not_true, Bool.false_eq_true, if_false]
          at hl ⊢
        exact habandon _ _ _ hl
      | some fs =>
        simp only [executeRun, hacq, hload, Bool.not_true, Bool.false_eq_true, if_false,
          found_conductRun, Spending.Writes, Entry.row, Entry.trigger, Option.some.injEq,
          exists_eq_left'] at hl ⊢
        exact recorded_conductRun hload hl hwindow
end

/-! ## Samples -/

theorem recorded_putSample {db db' : DB} {feedID window id tokensIn tokensOut : ℕ}
    {since ttl now : ℤ} {payload : String} {cost : ℚ} {calls : List Call}
    (h : putSample db feedID payload tokensIn tokensOut cost ttl now = .ok (db', id))
    (hm : Metered tokensIn tokensOut calls)
    (hw : formatTime since ≤ formatTime now ∧ (window = 0 ∨ window = feedID)) :
    Recorded db db' calls window since := by
  have hcount : (decide (formatTime since ≤ formatTime now) &&
      (window == 0 || feedID == window)) = true := by
    rcases hw with ⟨htime, hzero | hfeed⟩
    · simp [htime, hzero]
    · simp [htime, hfeed]
  simp only [putSample] at h
  split at h
  · cases h
    constructor
    · simp [totalSpendSince_eq, DB.shares, SampleSpend.share, SampleSpend.countedSince, hcount,
        hm.1, add_assoc]
    · simp [totalSpendSince_eq, DB.shares, SampleSpend.share, SampleSpend.countedSince, hcount,
        hm.2, add_assoc]
  · cases h

theorem putSample_eq_ok (db : DB) (feedID : ℕ) (payload : String) (tokensIn tokensOut : ℕ)
    (cost : ℚ) (ttl now : ℤ) :
    (∃ r, putSample db feedID payload tokensIn tokensOut cost ttl now = .ok r) ↔
      ∃ f ∈ db.feeds, f.id = feedID := by
  simp only [putSample]
  split
  · rename_i hany
    simpa using hany
  · rename_i hany
    simpa using hany

section
variable {env : SampleEnv} {fold : String → String} {cfg : Config} {req : SampleRequest}
  {feed : Feed} {spec : GenSpec} {window : ℕ} {since : ℤ}

theorem recorded_admitted (hpast : admitSample env fold cfg req = .ok (feed, spec))
    (hkind : feed.kind ≠ .aggregate)
    (hw : formatTime since ≤ formatTime env.storedAt ∧ (window = 0 ∨ window = feed.id)) :
    Recorded env.storing.db (sampleRPC env fold cfg req).db (sampleRPC env fold cfg req).calls
        window since ↔
      Free (sampleRPC env fold cfg req).calls ∨
        ∃ candidates payload, DryRunSucceeds env.deps feed spec ∧
          env.buildCandidates (sample env.deps feed spec) = .ok candidates ∧
          env.marshal candidates = .ok payload ∧ env.storing.live ∧
          ∃ f ∈ env.storing.db.feeds, f.id = feed.id := by
  have hm := sample_metered env.deps feed spec
  rw [← sample_err env.deps feed spec hkind]
  cases herr : (sample env.deps feed spec).err with
  | some e =>
    simp only [sampleRPC, prepareSample, hpast, herr, reduceCtorEq, false_and, exists_false,
      or_false]
    exact recorded_self_iff _ _ _ _
  | none =>
    cases hbuild : env.buildCandidates (sample env.deps feed spec) with
    | error e =>
      simp only [sampleRPC, prepareSample, hpast, herr, hbuild, reduceCtorEq, false_and,
        and_false, exists_false, or_false]
      exact recorded_self_iff _ _ _ _
    | ok candidates =>
      cases hmar : env.marshal candidates with
      | error e =>
        simp only [sampleRPC, prepareSample, hpast, herr, hbuild, hmar]
        rw [recorded_self_iff]
        simp [hmar]
      | ok payload =>
        -- The storing transaction decides.
        have hput := putSample_eq_ok env.storing.db feed.id payload
          (sample env.deps feed spec).tokensIn (sample env.deps feed spec).tokensOut
          (sample env.deps feed spec).estCostUSD sampleTTL env.storedAt
        cases hstore : env.storing.read fun db => putSample db feed.id payload
            (sample env.deps feed spec).tokensIn (sample env.deps feed spec).tokensOut
            (sample env.deps feed spec).estCostUSD sampleTTL env.storedAt with
        | error e =>
          have hlost : ¬(env.storing.live = true ∧ ∃ f ∈ env.storing.db.feeds, f.id = feed.id) := by
            rintro ⟨hlive, hfeed⟩
            obtain ⟨r, hr⟩ := hput.mpr hfeed
            rw [Moment.read_eq_ok.mpr ⟨hlive, hr⟩] at hstore
            cases hstore
          simp only [sampleRPC, prepareSample, hpast, herr, hbuild, hmar, hstore, hlost,
            and_false, exists_false, or_false]
          exact recorded_self_iff _ _ _ _
        | ok r =>
          obtain ⟨hlive, hok⟩ := Moment.read_eq_ok.mp hstore
          have hfeed := hput.mp ⟨r, hok⟩
          have hrec := recorded_putSample hok hm hw
          cases hreport : env.reporting.read (remainingDailyUSD fold env.reportedAt) with
          | error e =>
            simp only [sampleRPC, prepareSample, hpast, herr, hbuild, hmar, hstore, hreport]
            exact iff_of_true hrec (Or.inr ⟨candidates, payload, trivial, rfl, hmar, hlive, hfeed⟩)
          | ok usd =>
            simp only [sampleRPC, prepareSample, hpast, herr, hbuild, hmar, hstore, hreport]
            exact iff_of_true hrec (Or.inr ⟨candidates, payload, trivial, rfl, hmar, hlive, hfeed⟩)

theorem recorded_sampleRPC (hw : (Spending.sample env fold cfg req).InWindow window since) :
    Recorded env.storing.db (sampleRPC env fold cfg req).db (sampleRPC env fold cfg req).calls
        window since ↔
      Free (sampleRPC env fold cfg req).calls ∨ (Spending.sample env fold cfg req).Writes := by
  have hrefused : ∀ e, admitSample env fold cfg req = .error e →
      (Recorded env.storing.db (sampleRPC env fold cfg req).db (sampleRPC env fold cfg req).calls
          window since ↔
        Free (sampleRPC env fold cfg req).calls ∨ (Spending.sample env fold cfg req).Writes) := by
    intro e hpast
    simp only [sampleRPC, prepareSample, hpast]
    exact iff_of_true ((recorded_self_iff _ _ _ _).mpr free_nil) (Or.inl free_nil)
  cases hspec : resolveSample env req with
  | error e => exact hrefused e (by simp [admitSample, hspec])
  | ok r =>
    obtain ⟨feed, spec⟩ := r
    obtain ⟨hkind, hid, -⟩ := resolveSample_ok hspec
    cases hgate : passGates env fold cfg feed.id spec with
    | error e => exact hrefused e (by simp [admitSample, hspec, hgate])
    | ok u =>
      have hpast : admitSample env fold cfg req = .ok (feed, spec) := by
        simp [admitSample, hspec, hgate]
      rw [recorded_admitted hpast hkind (hid ▸ hw)]
      simp only [Spending.Writes, hspec, Except.ok.injEq, Prod.mk.injEq]
      apply or_congr_right
      constructor
      · rintro ⟨candidates, payload, h⟩
        exact ⟨feed, spec, candidates, payload, ⟨rfl, rfl⟩, hgate, h⟩
      · rintro ⟨_, _, candidates, payload, ⟨rfl, rfl⟩, -, h⟩
        exact ⟨candidates, payload, h⟩
end

/-- **What an execution spent is recorded, once, exactly when it is nothing or the write
that records it goes through.** -/
theorem recorded_iff (x : Spending) (feedID : ℕ) (since : ℤ) (hl : x.found.Ledger)
    (hw : x.InWindow feedID since) :
    Recorded x.found x.left x.calls feedID since ↔ Free x.calls ∨ x.Writes := by
  cases x with
  | run env id e =>
    cases e with
    | cron holder => exact recorded_execute hl hw
    | manual runID => exact recorded_executeRun hl hw
  | sample env fold cfg req => exact recorded_sampleRPC hw

/-! ## A sample without a usable answer -/

/-- A sample of the trivia feed with nobody else at work and a context that stays alive. -/
def triviaSample (answer : Except ProviderError LlmResult) : SampleEnv where
  services := scriptedServices answer march2026
  defaults := ⟨"small", "fast"⟩
  prices := fun _ => none
  validateTemplate := fun _ => none
  buildCandidates := fun _ => .ok "candidates"
  marshal := .ok
  loading := ⟨triviaStore, true⟩
  gate := ⟨triviaStore, true⟩
  titles := ⟨triviaStore, true⟩
  storing := ⟨triviaStore, true⟩
  reporting := ⟨triviaStore, true⟩
  gateAt := march2026
  storedAt := march2026
  reportedAt := march2026

theorem triviaStore_ledger : triviaStore.Ledger := by
  constructor
  · simp [triviaStore]
  · simp [triviaStore]

theorem triviaStoreRunning_ledger : triviaStoreRunning.Ledger := by
  constructor
  · simp [triviaStoreRunning, triviaStore]
  · simp [triviaStoreRunning, triviaStore]

/-- A run that publishes two items: what it spent is in the ledger. -/
theorem recorded_iff_twoTitles :
    let x := Spending.run (triviaRun (titled ["Who directed Akira", "Who wrote Akira"])) 1
      (.cron "worker")
    Recorded x.found x.left x.calls 1 march2026 := by
  intro x
  refine (recorded_iff x 1 march2026 triviaStoreRunning_ledger ?_).mpr (Or.inr ?_)
  · intro r hr _
    have hrow : ∀ r ∈ triviaStoreRunning.runs, r.countedSince 1 march2026 = true := by
      decide +kernel
    exact hrow r hr
  · exact ⟨1, by decide +kernel, by decide +kernel, rfl, by decide +kernel⟩

/-- **A sample whose answers hold no items made two calls and records neither.** -/
theorem not_recorded_emptyAnswers :
    let x := Spending.sample (triviaSample (titled [])) id ⟨true, 0⟩ { feedID := 1 }
    x.found.Ledger ∧ x.InWindow 1 march2026 ∧ x.calls.length = 2 ∧
      ¬Recorded x.found x.left x.calls 1 march2026 := by
  refine ⟨triviaStore_ledger, ⟨le_refl _, Or.inr rfl⟩, ?_, ?_⟩
  · decide +kernel
  · decide +kernel

end AnimeFeedFlux
