import AnimeFeedFlux.Schedule.Recurrence
import AnimeFeedFlux.Store.Schema

/-!
# Recipes

`feedspec.Spec`: everything about a feed that its editor can change.  A recipe is stored as JSON in
`feeds.spec_json` and read back from there, so its numbers are finite; an absent list and an empty
one are the same here.
-/

namespace AnimeFeedFlux.Feedspec

structure ModelParams where
  model : String := ""
  temperature : ℚ := 0
  mode : String := ""
  speed : String := ""
  webSearch : Bool := false
  deriving DecidableEq, Repr

structure Novelty where
  excludeLast : ℤ := 0
  threshold : ℚ := 0
  maxRetries : ℤ := 0
  deriving DecidableEq, Repr

structure Source where
  url : String
  kind : String
  deriving DecidableEq, Repr

/-- `Spec`.  A kind that is none of the three is `none`. -/
structure Spec where
  slug : String := ""
  title : String := ""
  description : String := ""
  language : String := ""
  kind : Option FeedKind := none
  cron : String := ""
  timezone : String := ""
  recurrence : Option Cron.Written := none
  scheduleMode : String := ""
  itemsPerRun : ℤ := 0
  feedWindow : ℤ := 0
  model : ModelParams := {}
  systemPrompt : String := ""
  userPrompt : String := ""
  novelty : Novelty := {}
  budgets : Budgets := {}
  sources : List Source := []
  members : List String := []

def scheduleModeScheduled : String := "scheduled"

def scheduleModeAdhoc : String := "adhoc"

def scheduleModeWatch : String := "watch"

def defaults : Spec where
  kind := some .generative
  language := "en"
  cron := "0 12 * * *"
  timezone := "UTC"
  itemsPerRun := 1
  feedWindow := 50
  model := { mode := "balanced" }
  novelty := { excludeLast := 50, threshold := 92 / 100, maxRetries := 3 }
  budgets := { dailyTokens := 200000, dailyRuns := 24 }

/-- The recipes agree in every field other than the recurrence. -/
def Spec.SameButRecurrence (s t : Spec) : Prop := { s with recurrence := t.recurrence } = t

/-- The parts of a recipe that the generation paths read. -/
def Spec.generation (s : Spec) (kind : FeedKind) : FeedSpec :=
  { kind, scheduleMode := s.scheduleMode, itemsPerRun := s.itemsPerRun, model := s.model.model
    webSearch := s.model.webSearch, systemPrompt := s.systemPrompt, userPrompt := s.userPrompt
    excludeLast := s.novelty.excludeLast, maxRetries := s.novelty.maxRetries
    budgets := s.budgets }

end AnimeFeedFlux.Feedspec
