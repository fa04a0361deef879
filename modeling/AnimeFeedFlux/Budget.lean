import AnimeFeedFlux.Time

/-!
# Budgets

The arithmetic of the spend gates.  `checkRequest` compares what has been spent, plus what
the request says it will spend, with each ceiling that is set; a ceiling of zero is not
set.  The run cap counts the request as a run; the other four ceilings are passed only by
spending more than they allow, so a request that announces nothing is let through by a
ceiling that is met exactly.
-/

namespace AnimeFeedFlux.Budget

structure Limits where
  perFeedDailyTokens : ℤ := 0
  perFeedDailyRuns : ℤ := 0
  globalDailyTokens : ℤ := 0
  globalDailyUSD : ℚ := 0
  monthlyUSDCeiling : ℚ := 0
  monthlyWarnPct : ℚ := 0
  deriving DecidableEq, Repr

structure Spend where
  tokensIn : ℕ := 0
  tokensOut : ℕ := 0
  runs : ℕ := 0
  usd : ℚ := 0
  deriving DecidableEq, Repr

def Spend.tokens (s : Spend) : ℕ := s.tokensIn + s.tokensOut

inductive Reason
  | none
  | feedTokenCap
  | feedRunCap
  | globalTokenCap
  | globalUSDCap
  | monthlyUSDCap
  | monthlyApproaching
  deriving DecidableEq, Repr

/-- The token a reason is logged under. -/
def Reason.text : Reason → String
  | none => ""
  | feedTokenCap => "feed_daily_token_cap"
  | feedRunCap => "feed_daily_run_cap"
  | globalTokenCap => "global_daily_token_cap"
  | globalUSDCap => "global_daily_usd_cap"
  | monthlyUSDCap => "monthly_usd_cap"
  | monthlyApproaching => "monthly_usd_approaching"

structure Decision where
  allow : Bool
  reason : Reason := .none
  warn : Bool := false
  warnReason : Reason := .none
  deriving DecidableEq, Repr

structure Request where
  projected : ℤ := 0
  usd : ℚ := 0
  monthlySpend : Spend := {}
  deriving DecidableEq, Repr

/-- `budget.MonthStart`: midnight UTC on the first of the month. -/
def monthStart (t : ℤ) : ℤ :=
  let d := Calendar.civil (Time.days t)
  Calendar.dayNumber { d with day := 1 } * (24 * Time.hour)

variable (l : Limits) (feed global : Spend) (req : Request)

def checkRequest : Decision :=
  if 0 < l.perFeedDailyRuns ∧ l.perFeedDailyRuns < feed.runs + 1 then
    { allow := false, reason := .feedRunCap }
  else if 0 < l.perFeedDailyTokens ∧ l.perFeedDailyTokens < feed.tokens + req.projected then
    { allow := false, reason := .feedTokenCap }
  else if 0 < l.globalDailyTokens ∧ l.globalDailyTokens < global.tokens + req.projected then
    { allow := false, reason := .globalTokenCap }
  else if 0 < l.globalDailyUSD ∧ l.globalDailyUSD < global.usd + req.usd then
    { allow := false, reason := .globalUSDCap }
  else if 0 < l.monthlyUSDCeiling ∧ l.monthlyUSDCeiling < req.monthlySpend.usd + req.usd then
    { allow := false, reason := .monthlyUSDCap }
  else
    let threshold := l.monthlyWarnPct * l.monthlyUSDCeiling
    if (0 < l.monthlyUSDCeiling ∧ 0 < l.monthlyWarnPct) ∧ req.monthlySpend.usd < threshold ∧
        threshold ≤ req.monthlySpend.usd + req.usd then
      { allow := true, warn := true, warnReason := .monthlyApproaching }
    else { allow := true }

/-- Some ceiling that is set would be passed by the request. -/
def Passed : Prop :=
  (0 < l.perFeedDailyRuns ∧ l.perFeedDailyRuns < feed.runs + 1) ∨
  (0 < l.perFeedDailyTokens ∧ l.perFeedDailyTokens < feed.tokens + req.projected) ∨
  (0 < l.globalDailyTokens ∧ l.globalDailyTokens < global.tokens + req.projected) ∨
  (0 < l.globalDailyUSD ∧ l.globalDailyUSD < global.usd + req.usd) ∨
  (0 < l.monthlyUSDCeiling ∧ l.monthlyUSDCeiling < req.monthlySpend.usd + req.usd)

/-- Some ceiling that is set has been reached by what is recorded. -/
def Met (l : Limits) (feed global month : Spend) : Prop :=
  (0 < l.perFeedDailyRuns ∧ l.perFeedDailyRuns ≤ feed.runs) ∨
  (0 < l.perFeedDailyTokens ∧ l.perFeedDailyTokens ≤ feed.tokens) ∨
  (0 < l.globalDailyTokens ∧ l.globalDailyTokens ≤ global.tokens) ∨
  (0 < l.globalDailyUSD ∧ l.globalDailyUSD ≤ global.usd) ∨
  (0 < l.monthlyUSDCeiling ∧ l.monthlyUSDCeiling ≤ month.usd)
deriving Decidable

instance : Decidable (Passed l feed global req) := by
  unfold Passed
  infer_instance

/-- **A request is refused exactly when it would pass a ceiling that is set.** -/
theorem allow_checkRequest :
    (checkRequest l feed global req).allow ↔ ¬Passed l feed global req := by
  simp only [checkRequest, Passed]
  split_ifs <;> simp_all

end AnimeFeedFlux.Budget
