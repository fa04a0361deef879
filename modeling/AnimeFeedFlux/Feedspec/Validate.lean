import AnimeFeedFlux.Feedspec.Spec
import Mathlib.Data.List.Infix

/-!
# Checking a recipe

`feedspec.Validate` collects every problem of a recipe, each with the field it is about and the
rule that is broken.  The parser of cron expressions can panic, and then `Validate` does not
return; `none` stands for that.

The time zone database, the case mapping and the execution of prompt templates are arguments.
-/

namespace AnimeFeedFlux.Feedspec

open Cron GoStrings

structure Problem where
  field : String
  reason : String
  deriving DecidableEq, Repr

/-- `slugPattern`: `^[a-z0-9-]{3,48}$`. -/
def slugPattern (slug : String) : Bool :=
  slug.toList.all (fun c => ('a' ≤ c && c ≤ 'z') || ('0' ≤ c && c ≤ '9') || c == '-') &&
    decide (3 ≤ slug.toList.length ∧ slug.toList.length ≤ 48)

def reservedSlugs : List String :=
  ["all", "index", "healthz", "robots", "favicon", "items", "feeds"]

def validateSlug (slug : String) : List Problem :=
  (if slugPattern slug then [] else [{ field := "slug", reason := "slug_shape" }]) ++
    if slug ∈ reservedSlugs then [{ field := "slug", reason := "slug_reserved" }] else []

theorem validateSlug_eq_nil {slug : String} :
    validateSlug slug = [] ↔ slugPattern slug ∧ slug ∉ reservedSlugs := by
  simp [validateSlug]

/-- What the checks look things up in: time zones and letters, and whether a prompt template
executes on the dummy context of `prompttmpl.ValidateTemplate`. -/
structure Checker where
  locale : Cron.Locale
  templateRuns : String → Bool

/-- A problem, if the condition holds. -/
def problemIf (cond : Prop) [Decidable cond] (field reason : String) : List Problem :=
  if cond then [{ field, reason }] else []

variable {field reason : String} {locale : Cron.Locale} {s : Spec}

@[simp] theorem problemIf_eq_nil {cond : Prop} [Decidable cond] :
    problemIf cond field reason = [] ↔ ¬cond := by
  simp [problemIf]

/-! ## The schedule -/

/-- The problem of a text that does not parse. -/
def problemOf {α : Type} (field reason : String) : Except ParseError α → Option (List Problem)
  | .ok _ => some []
  | .error (.invalid _) => some [{ field, reason }]
  | .error .panic => none

theorem problemOf_eq_nil {α : Type} {x : Except ParseError α} :
    problemOf field reason x = some [] ↔ ∃ a, x = .ok a := by
  rcases x with (_ | _) | a <;> simp [problemOf]

/-- `validateRecurrence`.  A zone that does not load is reported, and the recurrence is then
checked in UTC. -/
def validateRecurrence (locale : Cron.Locale) (r : Written) (tz : String) : Option (List Problem) :=
  match locale.loadLocation tz with
  | .ok _ => problemOf "recurrence" "recurrence_invalid" (resolve locale r tz)
  | .error _ =>
    (problemOf "recurrence" "recurrence_invalid" (resolve locale r "UTC")).map
      ({ field := "timezone", reason := "timezone_invalid" } :: ·)

def validateCron (locale : Cron.Locale) (cron tz : String) : Option (List Problem) :=
  match locale.loadLocation tz with
  | .ok loc => problemOf "cron" "cron_invalid" (parse cron (some loc))
  | .error _ =>
    (problemOf "cron" "cron_invalid" (parse cron (some utc))).map
      ({ field := "timezone", reason := "timezone_invalid" } :: ·)

def validateSchedule (locale : Cron.Locale) (s : Spec) : Option (List Problem) :=
  if s.scheduleMode = "" ∨ s.scheduleMode = scheduleModeScheduled ∨
      s.scheduleMode = scheduleModeWatch then
    match s.recurrence with
    | some r => validateRecurrence locale r s.timezone
    | none => validateCron locale s.cron s.timezone
  else if s.scheduleMode = scheduleModeAdhoc then some []
  else some [{ field := "schedule_mode", reason := "schedule_mode_unknown" }]

/-- **A recurrence passes when it resolves.** -/
theorem validateRecurrence_eq_nil {r : Written} {tz : String} :
    validateRecurrence locale r tz = some [] ↔ ∃ s, resolve locale r tz = .ok s := by
  rw [validateRecurrence]
  cases hloc : locale.loadLocation tz with
  | ok loc => exact problemOf_eq_nil
  | error e =>
    constructor
    · intro h
      simp at h
    rintro ⟨s, hs⟩
    obtain ⟨loc, freq, days, anchor, hloc', -⟩ := resolve_ok_iff.1 hs
    rw [hloc] at hloc'
    cases hloc'

/-! ## The kind -/

def validatePrompts (templateRuns : String → Bool) (s : Spec) : List Problem :=
  problemIf (templateRuns s.systemPrompt = false) "system_prompt" "template_invalid" ++
    problemIf (templateRuns s.userPrompt = false) "user_prompt" "template_invalid"

def validateKind (templateRuns : String → Bool) (s : Spec) : List Problem :=
  match s.kind with
  | some .generative =>
    problemIf (s.sources ≠ []) "sources" "generative_forbids_source" ++
      validatePrompts templateRuns s
  | some .grounded =>
    problemIf (s.sources = []) "sources" "grounded_requires_source" ++
      problemIf (s.model.webSearch = true) "model" "grounded_forbids_web_search" ++
      validatePrompts templateRuns s
  | some .aggregate =>
    problemIf (s.members = []) "members" "aggregate_requires_member" ++
      s.members.flatMap (fun m =>
        problemIf (m = s.slug ∧ s.slug ≠ "") "members" "aggregate_self_member") ++
      problemIf (s.sources ≠ []) "sources" "aggregate_forbids_source" ++
      problemIf (s.systemPrompt ≠ "" ∨ s.userPrompt ≠ "") "prompts" "aggregate_forbids_prompt" ++
      problemIf (s.model.webSearch = true) "model" "aggregate_forbids_web_search"
  | none => [{ field := "kind", reason := "kind_invalid" }]

/-! ## Numbers and the model -/

def validateBudgets (b : Budgets) : List Problem :=
  problemIf (b.dailyTokens ≤ 0) "budgets.daily_tokens" "budget_daily_tokens_zero" ++
    problemIf (b.dailyRuns ≤ 0) "budgets.daily_runs" "budget_daily_runs_zero"

theorem validateBudgets_eq_nil {b : Budgets} :
    validateBudgets b = [] ↔ 0 < b.dailyTokens ∧ 0 < b.dailyRuns := by
  simp [validateBudgets]

/-- `validateRanges`.  A threshold of zero is one that was not set. -/
def validateRanges (s : Spec) : List Problem :=
  problemIf (s.itemsPerRun < 1 ∨ 50 < s.itemsPerRun) "items_per_run" "items_per_run_out_of_range" ++
    problemIf (s.feedWindow < 1 ∨ 200 < s.feedWindow) "feed_window" "feed_window_out_of_range" ++
    problemIf (s.novelty.maxRetries < 0 ∨ 10 < s.novelty.maxRetries) "novelty.max_retries"
      "novelty_max_retries_out_of_range" ++
    problemIf (s.novelty.excludeLast < 0 ∨ 500 < s.novelty.excludeLast) "novelty.exclude_last"
      "novelty_exclude_last_out_of_range" ++
    problemIf (s.novelty.threshold ≠ 0 ∧ (s.novelty.threshold < 0 ∨ 1 < s.novelty.threshold))
      "novelty.threshold" "novelty_threshold_out_of_range"

theorem validateRanges_eq_nil : validateRanges s = [] ↔ (1 ≤ s.itemsPerRun ∧ s.itemsPerRun ≤ 50) ∧
      (1 ≤ s.feedWindow ∧ s.feedWindow ≤ 200) ∧
      (0 ≤ s.novelty.maxRetries ∧ s.novelty.maxRetries ≤ 10) ∧
      (0 ≤ s.novelty.excludeLast ∧ s.novelty.excludeLast ≤ 500) ∧
      (s.novelty.threshold ≠ 0 → 0 ≤ s.novelty.threshold ∧ s.novelty.threshold ≤ 1) := by
  simp [validateRanges, problemIf_eq_nil]

/-- `modelclass.ClassifyModel`: whether the id looks like a text model, and like an embedding
model. -/
def classifyModel (lower : Char → Char) (id : String) : Bool × Bool :=
  let name := toLower lower id
  let has (word : String) : Bool := decide (word.toList <:+: name.toList)
  if has "embedding" then (false, true)
  else if ["whisper", "tts", "dall-e", "moderation", "transcribe", "realtime", "audio", "image",
      "search", "similarity", "edit", "davinci-002", "babbage-002"].any has then (false, false)
  else if ["gpt", "o1", "o3", "o4", "chatgpt"].any (hasPrefix name ·) then (true, false)
  else (false, false)

def validateModel (lower : Char → Char) (m : ModelParams) : List Problem :=
  if m.model = "" then []
  else problemIf ((classifyModel lower m.model).2 = true) "model" "model_not_chat"

/-! ## The whole recipe -/

def validate (chk : Checker) (s : Spec) : Option (List Problem) :=
  (validateSchedule chk.locale s).map fun schedule =>
    validateSlug s.slug ++ schedule ++ validateKind chk.templateRuns s ++
      validateBudgets s.budgets ++ validateRanges s ++ validateModel chk.locale.lower s.model

/-- **A recipe passes when every check does.** -/
theorem validate_eq_nil {chk : Checker} : validate chk s = some [] ↔ validateSlug s.slug = [] ∧
      validateSchedule chk.locale s = some [] ∧ validateKind chk.templateRuns s = [] ∧
      validateBudgets s.budgets = [] ∧ validateRanges s = [] ∧
      validateModel chk.locale.lower s.model = [] := by
  rw [validate, Option.map_eq_some_iff]
  simp only [List.append_eq_nil_iff]
  constructor
  · rintro ⟨schedule, hschedule, ⟨⟨⟨⟨hslug, rfl⟩, hkind⟩, hbudgets⟩, hranges⟩, hmodel⟩
    exact ⟨hslug, hschedule, hkind, hbudgets, hranges, hmodel⟩
  · rintro ⟨hslug, hschedule, hkind, hbudgets, hranges, hmodel⟩
    exact ⟨[], hschedule, ⟨⟨⟨⟨hslug, rfl⟩, hkind⟩, hbudgets⟩, hranges⟩, hmodel⟩

/-- Only the two schedule modes of old, the watch mode and the manual one pass. -/
theorem validateSchedule_eq_nil :
    validateSchedule locale s = some [] ↔ s.scheduleMode = scheduleModeAdhoc ∨
      (s.scheduleMode = "" ∨ s.scheduleMode = scheduleModeScheduled ∨
        s.scheduleMode = scheduleModeWatch) ∧
      match s.recurrence with
      | some r => ∃ x, resolve locale r s.timezone = .ok x
      | none => validateCron locale s.cron s.timezone = some [] := by
  rw [validateSchedule]
  split
  · rename_i hmode
    have hadhoc : s.scheduleMode ≠ scheduleModeAdhoc := by
      rintro h
      rw [h] at hmode
      exact absurd hmode (by decide)
    simp only [hadhoc, hmode, true_and, false_or]
    cases s.recurrence with
    | none => exact Iff.rfl
    | some r => exact validateRecurrence_eq_nil
  · rename_i hmode
    simp only [hmode, false_and, or_false]
    split
    · rename_i hadhoc
      simp [hadhoc]
    · rename_i hadhoc
      simp [hadhoc]

end AnimeFeedFlux.Feedspec
