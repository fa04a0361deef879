import AnimeFeedFlux.Budget
import AnimeFeedFlux.Rpc.System
import AnimeFeedFlux.Store.Feeds
import AnimeFeedFlux.Store.Samples

/-!
# The budget gates

Two gates stand in front of the provider: `allowed` for the scheduler and `checkSample` for
the sampler.  Both read the kill switch and compare today's recorded spend with the
ceilings of the feed and of the deployment; only the scheduler's gate knows the monthly
ceiling.  The scheduler's request announces no tokens, the sampler's announces an estimate
of the call it is about to make; neither announces money.
-/

namespace AnimeFeedFlux

open Budget (Limits Request checkRequest Passed)

/-- The parts of `config.Config` the gates read. -/
structure Config where
  generationEnabled : Bool
  monthlySpendCeilingUSD : ℚ
  deriving DecidableEq, Repr

def midnightUTC (t : ℤ) : ℤ := Time.days t * (24 * Time.hour)

/-- The ceilings for a feed; `monthly` is zero for a gate that does not know the monthly
one. -/
def limits (fs : FeedSpec) (g : Generation) (monthly : ℚ) : Limits where
  perFeedDailyTokens := fs.budgets.dailyTokens
  perFeedDailyRuns := fs.budgets.dailyRuns
  globalDailyTokens := g.globalDailyTokenCeiling.toInt
  globalDailyUSD := g.globalDailySpendCeilingUsd
  monthlyUSDCeiling := monthly

/-- What the feed has spent since midnight, runs included. -/
def feedSpend (db : DB) (feedID : ℕ) (now : ℤ) : Budget.Spend :=
  let s := totalSpendSince db feedID (midnightUTC now)
  ⟨s.tokensIn, s.tokensOut, countRunsSince db feedID (midnightUTC now), s.costUSD⟩

/-- What all feeds have spent since midnight. -/
def globalSpend (db : DB) (now : ℤ) : Budget.Spend :=
  let s := totalSpendSince db 0 (midnightUTC now)
  ⟨s.tokensIn, s.tokensOut, 0, s.costUSD⟩

/-- What all feeds have spent since the first of the month. -/
def monthSpend (db : DB) (now : ℤ) : Budget.Spend :=
  let s := totalSpendSince db 0 (Budget.monthStart now)
  ⟨s.tokensIn, s.tokensOut, 0, s.costUSD⟩

/-- The scheduler's request: it announces nothing, and the month is summed up only when it
has a ceiling. -/
def scheduledRequest (monthly : ℚ) (db : DB) (now : ℤ) : Request where
  monthlySpend := if 0 < monthly then monthSpend db now else {}

/-- What a gate makes of a decision. -/
def verdict (d : Budget.Decision) : Bool × String :=
  if d.allow then (true, "") else (false, d.reason.text)

@[simp] theorem verdict_fst (d : Budget.Decision) : (verdict d).1 = d.allow := by
  simp only [verdict]
  split <;> simp_all

/-- `genGate.Allowed`: the verdict and the reason of a refusal. -/
def allowed (fold : String → String) (cfg : Config) (db : DB) (feedID : ℕ) (now : ℤ) :
    Bool × String :=
  match loadGenerationSettings fold cfg.generationEnabled db with
  | .error _ => (false, "settings_lookup_failed")
  | .ok g =>
    if !g.enabled then (false, "generation_disabled")
    else match loadFeedRow db feedID with
      | .error _ => (false, "feed_lookup_failed")
      | .ok (row, spec) =>
        if !row.enabled then (false, "feed_disabled")
        else match spec with
          | none => (false, "spec_parse_failed")
          | some fs =>
            verdict (checkRequest (limits fs g cfg.monthlySpendCeilingUSD)
              (feedSpend db feedID now) (globalSpend db now)
              (scheduledRequest cfg.monthlySpendCeilingUSD db now))

/-- `sampleBudget.CheckSample`.  A deployment without a `generation` row counts as switched
on. -/
def checkSample (fold : String → String) (db : DB) (feedID : ℕ) (now projected : ℤ) :
    Bool × String :=
  match loadGenerationSettings fold true db with
  | .error _ => (false, "settings_lookup_failed")
  | .ok g =>
    if !g.enabled then (false, "generation_disabled")
    else match loadFeedRow db feedID with
      | .error _ => (false, "feed_lookup_failed")
      | .ok (_, none) => (false, "spec_parse_failed")
      | .ok (_, some fs) =>
        verdict (checkRequest (limits fs g 0) (feedSpend db feedID now)
          (globalSpend db now) { projected })

/-! ## What the gates let through -/

/-- **The scheduler's gate** lets a feed through when the switch is on, the feed is on and
its recipe reads, and no ceiling has been passed. -/
theorem allowed_iff (fold : String → String) (cfg : Config) (db : DB) (feedID : ℕ) (now : ℤ) :
    (allowed fold cfg db feedID now).1 ↔
      ∃ g feed fs, loadGenerationSettings fold cfg.generationEnabled db = .ok g ∧
        g.enabled ∧ loadFeedRow db feedID = .ok (feed, some fs) ∧ feed.enabled ∧
        ¬Passed (limits fs g cfg.monthlySpendCeilingUSD) (feedSpend db feedID now)
          (globalSpend db now) (scheduledRequest cfg.monthlySpendCeilingUSD db now) := by
  cases hset : loadGenerationSettings fold cfg.generationEnabled db with
  | error e => simp [allowed, hset]
  | ok g =>
    cases hrow : loadFeedRow db feedID with
    | error e => cases hg : g.enabled <;> simp [allowed, hset, hrow, hg]
    | ok row =>
      obtain ⟨feed, spec⟩ := row
      cases spec with
      | none =>
        cases hg : g.enabled <;> cases hf : feed.enabled <;> simp [allowed, hset, hrow, hg, hf]
      | some fs =>
        have hcheck := Budget.allow_checkRequest (limits fs g cfg.monthlySpendCeilingUSD)
          (feedSpend db feedID now) (globalSpend db now)
          (scheduledRequest cfg.monthlySpendCeilingUSD db now)
        cases hg : g.enabled <;> cases hf : feed.enabled <;>
          simp [allowed, hset, hrow, hg, hf, ← hcheck]

/-- **The sampler's gate** is the same without the feed's own switch and the monthly
ceiling, and counts the announced tokens. -/
theorem checkSample_iff (fold : String → String) (db : DB) (feedID : ℕ) (now projected : ℤ) :
    (checkSample fold db feedID now projected).1 ↔
      ∃ g feed fs, loadGenerationSettings fold true db = .ok g ∧ g.enabled ∧
        loadFeedRow db feedID = .ok (feed, some fs) ∧
        ¬Passed (limits fs g 0) (feedSpend db feedID now) (globalSpend db now) { projected } := by
  cases hset : loadGenerationSettings fold true db with
  | error e => simp [checkSample, hset]
  | ok g =>
    cases hrow : loadFeedRow db feedID with
    | error e => cases hg : g.enabled <;> simp [checkSample, hset, hrow, hg]
    | ok row =>
      obtain ⟨feed, spec⟩ := row
      cases spec with
      | none => cases hg : g.enabled <;> simp [checkSample, hset, hrow, hg]
      | some fs =>
        have hcheck := Budget.allow_checkRequest (limits fs g 0) (feedSpend db feedID now)
          (globalSpend db now) { projected }
        cases hg : g.enabled <;> simp [checkSample, hset, hrow, hg, ← hcheck]

end AnimeFeedFlux
