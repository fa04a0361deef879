import AnimeFeedFlux.Rpc.Feed
import AnimeFeedFlux.Rpc.Sample
import AnimeFeedFlux.Wire.Closing

/-!
# The spend gate

Generation starts in three ways: the scheduler dispatches a feed its gate lets through, an
operator runs a feed now, and the editor samples a recipe.  The deployment is meant to stop
spending when the kill switch is off or a ceiling has been reached.

What each way checks is not that.  The scheduler's gate stops only past a token or money
ceiling, and a ceiling met exactly lets one more run through.  The sampler announces
tokens, so a token ceiling stops it when it is met, but it announces no money and does not
know the monthly ceiling.  A manual run checks nothing.

`generates_calls` says when each way calls the provider; the rest follows from it.
-/

namespace AnimeFeedFlux

open Budget (Met Passed)

/-- The moment a start is admitted: the configuration, the database and the clock. -/
structure Admission where
  fold : String → String
  cfg : Config
  db : DB
  now : ℤ
  feedID : ℕ

/-- The settings in force. -/
def Admission.settings (a : Admission) : Except StoreError Generation :=
  loadGenerationSettings a.fold a.cfg.generationEnabled a.db

/-- The kill switch is off, or some ceiling that is set has been reached. -/
def Admission.Blocked (a : Admission) : Prop :=
  ∃ g, a.settings = .ok g ∧
    (g.enabled = false ∨
      ∃ feed fs, loadFeedRow a.db a.feedID = .ok (feed, some fs) ∧
        Met (limits fs g a.cfg.monthlySpendCeilingUSD) (feedSpend a.db a.feedID a.now)
          (globalSpend a.db a.now) (monthSpend a.db a.now))

/-- The three ways to start generation, each with what happens around it afterwards. -/
inductive Start
  | cron (env : RunEnv) (holder : String)
  | manual (env : RunEnv)
  | sample (env : SampleEnv) (size : ℤ) (draft : Option SampleDraft)

/-- The sampler's request, its gates read at the moment of admission. -/
def SampleEnv.admittedAt (env : SampleEnv) (a : Admission) : SampleEnv :=
  { env with gate := ⟨a.db, env.gate.live⟩, gateAt := a.now }

/-- The request of a sample. -/
def Admission.request (a : Admission) (size : ℤ) (draft : Option SampleDraft) : SampleRequest :=
  { feedID := a.feedID, sampleSize := size, draft }

/-- The provider calls a start leads to. -/
def Start.calls (a : Admission) : Start → List Call
  | .cron env holder =>
    if (allowed a.fold a.cfg a.db a.feedID a.now).1 then
      (execute env a.feedID .cron holder).calls
    else []
  | .manual env =>
    match runNow a.db a.feedID a.now with
    | .error _ => []
    | .ok (_, runID) => (executeRun env a.feedID runID).calls
  | .sample env size draft =>
    (sampleRPC (env.admittedAt a) a.fold a.cfg (a.request size draft)).calls

/-! ## What is checked -/

/-- What the gates in front of a start check. -/
def Start.Admits (a : Admission) : Start → Prop
  | .cron _ _ =>
    ∃ g feed fs, a.settings = .ok g ∧ g.enabled = true ∧
      loadFeedRow a.db a.feedID = .ok (feed, some fs) ∧ feed.enabled = true ∧
      ¬Passed (limits fs g a.cfg.monthlySpendCeilingUSD) (feedSpend a.db a.feedID a.now)
        (globalSpend a.db a.now) (scheduledRequest a.cfg.monthlySpendCeilingUSD a.db a.now)
  | .manual _ => True
  | .sample env size draft =>
    env.gate.live = true ∧ (∃ g, a.settings = .ok g ∧ g.enabled = true) ∧
      ∃ g feed fs draftFeed spec,
        loadGenerationSettings a.fold true a.db = .ok g ∧ g.enabled = true ∧
        loadFeedRow a.db a.feedID = .ok (feed, some fs) ∧
        resolveSample env (a.request size draft) = .ok (draftFeed, spec) ∧
        ¬Passed (limits fs g 0) (feedSpend a.db a.feedID a.now) (globalSpend a.db a.now)
          { projected := smpProjectedTokens spec }

/-- What the execution of a recipe needs to get as far as a prompt: the feed and its recipe,
and everything the prompt is made of. -/
def RunEnv.ReadsPrompt (env : RunEnv) (feedID : ℕ) (trigger : Trigger) : Prop :=
  ∃ feed fs, env.loading.read (loadFeedRow · feedID) = .ok (feed, some fs) ∧
    feed.kind ≠ .aggregate ∧
    Prompts env.deps feed (generateSpecFrom fs trigger env.prices env.defaults)

/-- What a start needs besides the gates to get as far as a prompt. -/
def Start.Ready (a : Admission) : Start → Prop
  | .cron env holder =>
    (∃ r, env.starting.read (startRun · a.feedID .cron holder env.startedAt) = .ok r) ∧
      env.ReadsPrompt a.feedID .cron
  | .manual env =>
    (∃ r, runNow a.db a.feedID a.now = .ok r) ∧ env.acquired = true ∧
      env.ReadsPrompt a.feedID .manual
  | .sample env size draft =>
    ∃ feed spec, resolveSample env (a.request size draft) = .ok (feed, spec) ∧
      Prompts env.deps feed spec

/-- A start that should be stopped, is let through, and gets as far as a prompt. -/
def Start.Slips (a : Admission) (s : Start) : Prop :=
  a.Blocked ∧ s.Admits a ∧ s.Ready a

/-- A `Generate` call is among the calls. -/
def Generates (calls : List Call) : Prop := ∃ req res, .generate req res ∈ calls

theorem not_generates_nil : ¬Generates [] := by
  simp [Generates]

/-! ## When the provider is called -/

theorem generates_conductRun (env : RunEnv) (feed : Feed) (fs : FeedSpec) (trigger : Trigger)
    (runID : ℕ) :
    Generates (conductRun env feed fs trigger runID).calls ↔ feed.kind ≠ .aggregate ∧
        Prompts env.deps feed (generateSpecFrom fs trigger env.prices env.defaults) := by
  simp only [conductRun]
  split
  · rename_i hnone
    have hkind : feed.kind = .aggregate := by
      by_contra hne
      obtain ⟨o, ho⟩ := run_eq_some env.deps
        (generateSpecFrom fs trigger env.prices env.defaults) hne
      rw [hnone] at ho
      cases ho
    simp [hkind, not_generates_nil]
  · rename_i o ho
    have hkind : feed.kind ≠ .aggregate := by
      intro heq
      simp [run, heq] at ho
    simp only [hkind, ne_eq, not_false_eq_true, true_and]
    exact generate_mem_run _ _ _ ho

theorem generates_execute (env : RunEnv) (feedID : ℕ) (holder : String) :
    Generates (execute env feedID .cron holder).calls ↔
      (∃ r, env.starting.read (startRun · feedID .cron holder env.startedAt) = .ok r) ∧
        env.ReadsPrompt feedID .cron := by
  cases hload : env.loading.read (loadFeedRow · feedID) with
  | error e => simp [execute, hload, not_generates_nil, RunEnv.ReadsPrompt]
  | ok row =>
    obtain ⟨feed, spec⟩ := row
    cases spec with
    | none => simp [execute, hload, not_generates_nil, RunEnv.ReadsPrompt]
    | some fs =>
      cases hstart : env.starting.read (startRun · feedID .cron holder env.startedAt) with
      | error e => cases e <;> simp [execute, hload, hstart, not_generates_nil]
      | ok r =>
        simp [execute, hload, hstart, RunEnv.ReadsPrompt, generates_conductRun]

theorem generates_executeRun (env : RunEnv) (feedID runID : ℕ) :
    Generates (executeRun env feedID runID).calls ↔
      env.acquired ∧ env.ReadsPrompt feedID .manual := by
  cases hacq : env.acquired with
  | false => simp [executeRun, hacq, abandonRun, not_generates_nil]
  | true =>
    cases hload : env.loading.read (loadFeedRow · feedID) with
    | error e =>
      simp [executeRun, hacq, hload, abandonRun, not_generates_nil, RunEnv.ReadsPrompt]
    | ok row =>
      obtain ⟨feed, spec⟩ := row
      cases spec with
      | none =>
        simp [executeRun, hacq, hload, abandonRun, not_generates_nil, RunEnv.ReadsPrompt]
      | some fs => simp [executeRun, hacq, hload, RunEnv.ReadsPrompt, generates_conductRun]

/-- **A start calls the provider exactly when its gates admit it and it gets as far as a
prompt.** -/
theorem generates_calls (a : Admission) (s : Start) :
    Generates (s.calls a) ↔ s.Admits a ∧ s.Ready a := by
  cases s with
  | cron env holder =>
    have hgate := allowed_iff a.fold a.cfg a.db a.feedID a.now
    simp only [Start.calls, Start.Admits, Start.Ready, ← generates_execute, Admission.settings,
      ← hgate]
    split_ifs with h <;> simp [h, not_generates_nil]
  | manual env =>
    simp only [Start.calls, Start.Admits, Start.Ready, true_and]
    cases hrun : runNow a.db a.feedID a.now with
    | error e => simp [not_generates_nil]
    | ok r => simp [generates_executeRun]
  | sample env size draft =>
    rw [Start.calls, Generates, generate_mem_sampleRPC]
    -- The gates are the only part of the request that looks at the moment of admission.
    have hresolve : resolveSample (env.admittedAt a) (a.request size draft) =
        resolveSample env (a.request size draft) := rfl
    have hdeps : (env.admittedAt a).deps = env.deps := rfl
    simp only [Start.Admits, Start.Ready, hresolve, hdeps, passGates_eq_ok, checkSample_iff]
    constructor
    · rintro ⟨feed, spec, hspec, ⟨hlive, hon, g, row, fs, hg⟩, hprompt⟩
      rw [(resolveSample_ok hspec).2.1] at hg
      exact ⟨⟨hlive, hon, g, row, fs, feed, spec, hg.1, hg.2.1, hg.2.2.1, hspec, hg.2.2.2⟩,
        feed, spec, hspec, hprompt⟩
    · rintro ⟨⟨hlive, hon, g, row, fs, feed, spec, hg, hgon, hrow, hspec, hpass⟩,
        feed', spec', hspec', hprompt⟩
      cases hspec.symm.trans hspec'
      have hid : feed.id = a.feedID := (resolveSample_ok hspec).2.1
      refine ⟨feed, spec, hspec, ⟨hlive, hon, g, row, fs, hg, hgon, ?_⟩, hprompt⟩
      rw [hid]
      exact ⟨hrow, hpass⟩

/-- **A blocked start stays away from the provider exactly when it does not slip through**,
that is unless it is let through by what its gates check and gets as far as a prompt. -/
theorem blocked_silent_iff (a : Admission) (s : Start) :
    (a.Blocked → ¬Generates (s.calls a)) ↔ ¬s.Slips a := by
  rw [generates_calls, Start.Slips]
  tauto

/-! ## A manual run with generation switched off -/

/-- The store with a `generation` row in which the switch is off. -/
def DB.switchedOff (db : DB) : DB := { db with generation := some (.object []) }

/-- The same run over stores in which generation is switched off. -/
def RunEnv.switchedOff (env : RunEnv) : RunEnv :=
  { env with
    loading := ⟨env.loading.db.switchedOff, env.loading.live⟩
    starting := ⟨env.starting.db.switchedOff, env.starting.live⟩
    titles := ⟨env.titles.db.switchedOff, env.titles.live⟩
    newest := ⟨env.newest.db.switchedOff, env.newest.live⟩
    closing := ⟨env.closing.db.switchedOff, env.closing.live⟩ }

/-- Pressing "Run now" on the trivia feed with generation switched off. -/
def offAdmission : Admission where
  fold := id
  cfg := ⟨true, 0⟩
  db := triviaStore.switchedOff
  now := march2026
  feedID := 1

/-- **A manual run calls the provider although the kill switch is off.** -/
theorem blocked_manual_generates : offAdmission.Blocked ∧
      Generates ((Start.manual (triviaRun (titled ["Who directed Akira"])).switchedOff).calls
        offAdmission) := by
  refine ⟨⟨{}, by decide, Or.inl rfl⟩, ?_⟩
  rw [generates_calls]
  refine ⟨trivial, ⟨_, rfl⟩, rfl, _, _, rfl, by decide, ?_⟩
  decide +kernel

end AnimeFeedFlux
