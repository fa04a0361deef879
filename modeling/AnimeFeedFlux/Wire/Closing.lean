import AnimeFeedFlux.Wire.Executor

/-!
# Who closes a run row

The executor that owns a run row closes it with its last store access.  That write goes
through the run's own context and, for a run that publishes, carries the whole batch in its
transaction.  So it is lost when the context is done by then, and it is rolled back when
the batch does not fit the store: two items of one batch with the same title have the same
content hash, and one such pair takes the closed row down with it.  Nothing tries again.
-/

namespace AnimeFeedFlux

/-- Who executes a run: the scheduler, which opens the row itself, or `RunNow`, which hands
over the row it opened. -/
inductive Entry
  | cron (holder : String)
  | manual (runID : ℕ)
  deriving DecidableEq, Repr

/-- The trigger of the run. -/
def Entry.trigger : Entry → Trigger
  | .cron _ => .cron
  | .manual _ => .manual

/-- An execution through one of the two executors. -/
def RunEnv.enter (env : RunEnv) (feedID : ℕ) : Entry → Execution
  | .cron holder => execute env feedID .cron holder
  | .manual runID => executeRun env feedID runID

/-- The items the run publishes, none if it does not get that far. -/
def RunEnv.batch (env : RunEnv) (feedID : ℕ) (trigger : Trigger) : List Item :=
  match env.loading.read (loadFeedRow · feedID) with
  | .ok (feed, some fs) =>
    match run env.deps feed (generateSpecFrom fs trigger env.prices env.defaults) with
    | some o => o.items
    | none => []
  | _ => []

/-- The feed, when it can be read, has a generator. -/
def RunEnv.HasGenerator (env : RunEnv) (feedID : ℕ) : Prop :=
  ∀ feed spec, env.loading.read (loadFeedRow · feedID) = .ok (feed, spec) →
    feed.kind ≠ .aggregate

/-- What it takes for the closing write to go through. -/
def RunEnv.Closes (env : RunEnv) (feedID runID : ℕ) (trigger : Trigger) : Prop :=
  ¬env.closing.db.Running runID ∨
    (env.closing.live = true ∧ env.closing.db.Accepts (env.batch feedID trigger))

section
variable {env : RunEnv} {feedID runID : ℕ}

theorem run_eq_some (deps : Deps) {feed : Feed} (spec : GenSpec) (h : feed.kind ≠ .aggregate) :
    ∃ o, run deps feed spec = some o := by
  simp only [run, if_neg h]
  exact ⟨_, rfl⟩

theorem conductRun_closes {feed : Feed} {fs : FeedSpec} {trigger : Trigger}
    (hload : env.loading.read (loadFeedRow · feedID) = .ok (feed, some fs))
    (hkind : feed.kind ≠ .aggregate) :
    ¬(conductRun env feed fs trigger runID).db.Running runID ↔ env.Closes feedID runID trigger := by
  obtain ⟨o, ho⟩ := run_eq_some env.deps (generateSpecFrom fs trigger env.prices env.defaults) hkind
  have hbatch : env.batch feedID trigger = o.items := by
    simp [RunEnv.batch, hload, ho]
  simp only [conductRun, ho, RunEnv.Closes, hbatch]
  apply not_running_write
  · intro hrun
    exact commitRecord_eq_ok (run_sound _ _ _ ho) env.closedAt hrun
  · intro db' h
    exact not_running_of_commitRecord h

theorem abandonRun_closes {trigger : Trigger} {errorKind message : String}
    (hbatch : env.closing.live → env.batch feedID trigger = []) :
    ¬(abandonRun env runID errorKind message).db.Running runID ↔
      env.Closes feedID runID trigger := by
  have hacc : env.closing.live = true ∧ env.closing.db.Accepts (env.batch feedID trigger) ↔
      env.closing.live = true ∧ True := by
    apply and_congr_right
    intro hlive
    simp [hbatch hlive, DB.Accepts]
  rw [RunEnv.Closes, hacc]
  apply not_running_write
  · intro hrun
    simp only [failRun, iff_true]
    exact updateRunning_eq_ok.mpr hrun
  · intro db' h
    exact not_running_of_updateRunning (fun r => by simp) h

@[simp] theorem opened_conductRun (feed : Feed) (fs : FeedSpec) (trigger : Trigger) :
    (conductRun env feed fs trigger runID).opened = some runID := by
  simp only [conductRun]
  split <;> rfl

@[simp] theorem opened_executeRun : (executeRun env feedID runID).opened = some runID := by
  simp only [executeRun]
  split
  · rfl
  split
  · rfl
  · rfl
  · exact opened_conductRun _ _ _

theorem execute_opened {trigger : Trigger} {holder : String}
    (h : (execute env feedID trigger holder).opened = some runID) :
    ∃ feed fs, env.loading.read (loadFeedRow · feedID) = .ok (feed, some fs) ∧
      execute env feedID trigger holder = conductRun env feed fs trigger runID := by
  simp only [execute] at h ⊢
  split at h
  · cases h
  · cases h
  · rename_i feed fs hload
    split at h
    · cases h
    · cases h
    · rw [opened_conductRun, Option.some.injEq] at h
      subst h
      refine ⟨feed, fs, hload, ?_⟩
      simp_all

end

/-- **When the executor of a run returns, its row is no longer `running` exactly when
somebody else had closed it, or the context was still alive at the closing write and the
batch of the run fits the store as it is then.** -/
theorem closes_iff (env : RunEnv) (feedID runID : ℕ) (e : Entry)
    (hopen : (env.enter feedID e).opened = some runID) (hgen : env.HasGenerator feedID) :
    ¬(env.enter feedID e).db.Running runID ↔ env.Closes feedID runID e.trigger := by
  cases e with
  | cron holder =>
    obtain ⟨feed, fs, hload, heq⟩ := execute_opened hopen
    simp only [RunEnv.enter, Entry.trigger, heq]
    exact conductRun_closes hload (hgen feed _ hload)
  | manual id =>
    have hid : id = runID := by simpa [RunEnv.enter] using hopen
    subst hid
    simp only [RunEnv.enter, Entry.trigger, executeRun]
    split
    · rename_i hacq
      apply abandonRun_closes
      intro hlive
      simp [env.live_acquired hlive] at hacq
    · split
      · rename_i hload
        exact abandonRun_closes fun _ => by simp only [RunEnv.batch, hload]
      · rename_i hload
        exact abandonRun_closes fun _ => by simp only [RunEnv.batch, hload]
      · rename_i feed fs hload
        exact conductRun_closes hload (hgen feed _ hload)

/-! ## Two items with one title -/

/-- A candidate as the model returns it. -/
def triviaItem (title : String) : GeneratedItem :=
  { title, summaryText := "A question about a film from 1988", bodyHTML := "<p>Guess</p>" }

/-- A store with one generative feed. -/
def triviaStore : DB where
  feeds := [{ id := 1, slug := "trivia", title := "Trivia", kind := .generative, enabled := true,
              spec := some { kind := .generative, itemsPerRun := 2, model := "small",
                             userPrompt := "Two questions" },
              createdAt := march2026, updatedAt := march2026 }]

/-- The same store with run 1 open. -/
def triviaStoreRunning : DB :=
  { triviaStore with
    runs := [{ id := 1, feedID := 1, startedAt := march2026, status := .running, trigger := .cron,
               lockHolder := "worker", heartbeatAt := some march2026 }] }

/-- A run of that feed with nobody else at work and a context that stays alive. -/
def triviaRun (answer : Except ProviderError LlmResult) : RunEnv where
  services := scriptedServices answer march2026
  defaults := ⟨"small", "fast"⟩
  prices := fun _ => none
  acquired := true
  loading := ⟨triviaStore, true⟩
  starting := ⟨triviaStore, true⟩
  titles := ⟨triviaStoreRunning, true⟩
  newest := ⟨triviaStoreRunning, true⟩
  closing := ⟨triviaStoreRunning, true⟩
  startedAt := march2026
  closedAt := march2026 + Time.minute
  loadErrorText := fun _ => "load failed"
  live_acquired := fun _ => rfl
  live_newest := fun _ => rfl
  live_titles := fun _ => rfl
  live_starting := fun _ => rfl
  live_loading := fun _ => rfl

/-- The model's answer with these titles. -/
def titled (titles : List String) : Except ProviderError LlmResult :=
  .ok ⟨titles.map triviaItem, "raw"⟩

theorem triviaRun_hasGenerator (answer : Except ProviderError LlmResult) :
    (triviaRun answer).HasGenerator 1 := by
  intro feed spec h
  cases h
  decide

/-- Two items with different titles: the row is closed. -/
theorem closes_iff_twoTitles :
    ¬((triviaRun (titled ["Who directed Akira", "Who wrote Akira"])).enter 1
      (.cron "worker")).db.Running 1 := by
  rw [closes_iff _ 1 1 (.cron "worker") (by decide +kernel) (triviaRun_hasGenerator _)]
  exact Or.inr ⟨rfl, by decide +kernel⟩

/-- **Two items with one title leave the row `running`**, with the context alive and nobody
else at work. -/
theorem stays_running_sameTitle :
    let env := triviaRun (titled ["Who directed Akira", "Who directed Akira"])
    (env.enter 1 (.cron "worker")).opened = some 1 ∧ env.HasGenerator 1 ∧
      (env.enter 1 (.cron "worker")).db.Running 1 :=
  ⟨by decide +kernel, triviaRun_hasGenerator _, by decide +kernel⟩

end AnimeFeedFlux
