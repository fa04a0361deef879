import AnimeFeedFlux.Feedspec.Validate
import AnimeFeedFlux.Rpc.Feed
import AnimeFeedFlux.Rpc.RecurrenceConv

/-!
# Recipes over the wire

`Get` turns the stored recipe of a feed into a message, and `Update` builds a recipe from one.
The message has no field for the mode and the speed of the model or for the retries of the novelty
gate, it has 32 bits for most numbers, and for an aggregate it has no recipe at all.  `Update` puts
defaults where it was told nothing, validates what it has built and replaces the stored recipe.

The database of this development keeps the part of a recipe that generation reads; the whole recipe
and the member slugs of aggregates stand beside it here.
-/

namespace AnimeFeedFlux

open Cron Feedspec List

/-! ## Messages -/

namespace Affv1

inductive FeedKind
  | unspecified
  | generative
  | grounded
  | aggregate
  deriving DecidableEq, Repr

structure NoveltySettings where
  noveltyWindowItems : ℤ := 0
  similarityThreshold : ℚ := 0
  deriving DecidableEq, Repr

structure SourceSpec where
  url : String
  kind : String
  deriving DecidableEq, Repr

/-- `FeedSpec`.  Its zero value is what the getters read from an absent message. -/
structure FeedSpec where
  scheduleMode : String := ""
  cron : String := ""
  timezone : String := ""
  recurrence : Option Recurrence := none
  itemsPerRun : ℤ := 0
  feedWindow : ℤ := 0
  model : String := ""
  temperature : ℚ := 0
  webSearch : Bool := false
  systemPromptTemplate : String := ""
  userPromptTemplate : String := ""
  novelty : NoveltySettings := {}
  dailyTokenBudget : ℤ := 0
  dailyRunBudget : ℤ := 0
  sources : List SourceSpec := []
  deriving DecidableEq, Repr

/-- `Feed`, without the fields that the server fills in and never reads back. -/
structure Feed where
  id : ℕ
  slug : String
  kind : FeedKind
  title : String
  description : String
  language : String
  author : String
  copyright : String
  ogImage : String
  ttlMinutes : ℕ
  enabled : Bool
  version : ℕ
  spec : Option FeedSpec := none
  memberSlugs : List String := []
  deriving DecidableEq, Repr

end Affv1

/-! ## The converters -/

def feedKindFromProto : Affv1.FeedKind → Option FeedKind
  | .generative => some .generative
  | .grounded => some .grounded
  | .aggregate => some .aggregate
  | .unspecified => none

def feedKindToProto : FeedKind → Affv1.FeedKind
  | .generative => .generative
  | .grounded => .grounded
  | .aggregate => .aggregate

@[simp] theorem feedKindFromProto_toProto (kind : FeedKind) :
    feedKindFromProto (feedKindToProto kind) = some kind := by
  cases kind <;> rfl

def feedSourcesFromProto (sources : List Affv1.SourceSpec) : List Source :=
  sources.map fun src => { url := src.url, kind := src.kind }

def feedSourcesToProto (sources : List Source) : List Affv1.SourceSpec :=
  sources.map fun src => { url := src.url, kind := src.kind }

@[simp] theorem feedSourcesFromProto_toProto (sources : List Source) :
    feedSourcesFromProto (feedSourcesToProto sources) = sources := by
  rw [feedSourcesFromProto, feedSourcesToProto, map_map]
  exact map_id _

/-- `feedSpecFromProto`.  The mode is always `balanced` and the retries are those of
`Defaults`. -/
def feedSpecFromProto (ps : Affv1.FeedSpec) : Spec :=
  { scheduleMode := ps.scheduleMode, cron := ps.cron, timezone := ps.timezone
    recurrence := recurrenceFromProto ps.recurrence, itemsPerRun := ps.itemsPerRun
    feedWindow := ps.feedWindow
    model :=
      { model := ps.model, temperature := ps.temperature, webSearch := ps.webSearch
        mode := "balanced" }
    systemPrompt := ps.systemPromptTemplate, userPrompt := ps.userPromptTemplate
    novelty :=
      { excludeLast := ps.novelty.noveltyWindowItems, threshold := ps.novelty.similarityThreshold
        maxRetries := defaults.novelty.maxRetries }
    budgets := { dailyTokens := ps.dailyTokenBudget, dailyRuns := ps.dailyRunBudget }
    sources := feedSourcesFromProto ps.sources }

/-- `feedSpecToProto`.  A Go `int` has the 64 bits of the token budget. -/
def feedSpecToProto (spec : Spec) : Affv1.FeedSpec :=
  { scheduleMode := spec.scheduleMode, cron := spec.cron, timezone := spec.timezone
    recurrence := recurrenceToProto spec.recurrence, itemsPerRun := int32 spec.itemsPerRun
    feedWindow := int32 spec.feedWindow, model := spec.model.model
    temperature := spec.model.temperature, webSearch := spec.model.webSearch
    systemPromptTemplate := spec.systemPrompt, userPromptTemplate := spec.userPrompt
    novelty :=
      { noveltyWindowItems := int32 spec.novelty.excludeLast
        similarityThreshold := spec.novelty.threshold }
    dailyTokenBudget := spec.budgets.dailyTokens
    dailyRunBudget := int32 spec.budgets.dailyRuns
    sources := feedSourcesToProto spec.sources }

def feedFullSpecFromProto (feed : Affv1.Feed) (kind : FeedKind) : Spec :=
  { feedSpecFromProto (feed.spec.getD {}) with
    slug := feed.slug, title := feed.title, description := feed.description
    language := feed.language, kind := some kind
    members := if kind = .aggregate then feed.memberSlugs else [] }

/-! ## The store -/

/-- A row of `feed_members`. -/
structure MemberRow where
  aggregate : ℕ
  member : ℕ
  position : ℕ
  deriving DecidableEq, Repr

/-- The tables, with the recipe in `feeds.spec_json` of each feed and the rows of
`feed_members`. -/
structure RecipeStore where
  db : DB
  recipes : ℕ → Option Spec
  memberRows : List MemberRow

/-- The rows of one aggregate, in the order of their positions. -/
def RecipeStore.rowsOf (st : RecipeStore) (aggregateID : ℕ) : List MemberRow :=
  (st.memberRows.filter (·.aggregate == aggregateID)).insertionSort (·.position ≤ ·.position)

/-- `feedListMembers`: the slugs the members have now, those of deleted feeds included. -/
def feedListMembers (st : RecipeStore) (aggregateID : ℕ) : List String :=
  (st.rowsOf aggregateID).filterMap fun row =>
    (st.db.feeds.find? (·.id == row.member)).map (·.slug)

def feedToProto (st : RecipeStore) (rec : FeedRow) : Except RpcError Affv1.Feed :=
  let p : Affv1.Feed :=
    { id := rec.id, slug := rec.slug, kind := feedKindToProto rec.kind, title := rec.title
      description := rec.description, language := rec.language, author := rec.author
      copyright := rec.copyright, ogImage := rec.ogImage, ttlMinutes := rec.ttlMinutes
      enabled := rec.enabled, version := rec.version }
  if rec.kind = .aggregate then .ok { p with memberSlugs := feedListMembers st rec.id }
  else match st.recipes rec.id with
    | none => .error ⟨.internal, "decoding spec for feed " ++ toString rec.id, some .badJSON⟩
    | some spec => .ok { p with spec := some (feedSpecToProto spec) }

/-- `FeedServer.Get`, by id. -/
def getFeed (st : RecipeStore) (id : ℕ) : Except RpcError Affv1.Feed :=
  (feedRequireFeed st.db id).bind (feedToProto st)

def feedProblemMessage (reason : String) : String :=
  (List.lookup reason
    [("slug_shape", "slug must be 3-48 lowercase letters, digits or hyphens"),
      ("slug_reserved", "slug is reserved and cannot be used"),
      ("cron_invalid", "cron expression is invalid"),
      ("timezone_invalid", "timezone is not a recognised IANA zone"),
      ("template_invalid",
        "prompt template references an unknown variable or fails to execute"),
      ("kind_invalid", "kind must be generative, grounded or aggregate"),
      ("grounded_requires_source", "grounded feeds require at least one source"),
      ("generative_forbids_source", "generative feeds must not declare sources"),
      ("aggregate_requires_member", "aggregate feeds require at least one member"),
      ("aggregate_forbids_source", "aggregate feeds must not declare sources"),
      ("aggregate_forbids_prompt", "aggregate feeds must not declare prompts"),
      ("aggregate_self_member", "an aggregate cannot list itself as a member"),
      ("budget_daily_tokens_zero", "daily token budget must be greater than zero"),
      ("budget_daily_runs_zero", "daily run budget must be greater than zero"),
      ("items_per_run_out_of_range", "items per run is out of range"),
      ("feed_window_out_of_range", "feed window is out of range"),
      ("model_not_chat", "model is an embedding model, not a text-generation model")]).getD reason

def feedValidationError (problems : List Problem) : RpcError :=
  ⟨.invalidArgument, "invalid feed spec: " ++
    "; ".intercalate (problems.map fun p => p.field ++ ": " ++ feedProblemMessage p.reason), none⟩

/-- The columns of a recipe. -/
def Feedspec.Spec.identity (s : Spec) (kind : FeedKind) : FeedIdentity :=
  { slug := s.slug, title := s.title, description := s.description, language := s.language
    kind, timezone := s.timezone }

/-- The recipe is written into the row of the feed. -/
def RecipeStore.setRecipe (st : RecipeStore) (db : DB) (id : ℕ) (spec : Spec) : RecipeStore :=
  { st with db, recipes := fun i => if i = id then some spec else st.recipes i }

/-- `feedIdentityExtra` of a request. -/
def Affv1.Feed.extra (feed : Affv1.Feed) : FeedIdentityExtra :=
  { enabled := feed.enabled, author := feed.author, copyright := feed.copyright
    ogImage := feed.ogImage, ttlMinutes := feed.ttlMinutes }

/-- The recipe that `Update` builds: an aggregate keeps the members it has. -/
def updatedSpec (st : RecipeStore) (feed : Affv1.Feed) (rec : FeedRow) : Spec :=
  let spec := feedFullSpecFromProto feed rec.kind
  if rec.kind = .aggregate then { spec with members := feedListMembers st rec.id } else spec

/-- `FeedServer.Update`, up to the answer that is read back.  `none` is a call that panics. -/
def updateRecipe (chk : Checker) (st : RecipeStore) (feed : Affv1.Feed) (expectedVersion : ℕ)
    (now : ℤ) : RecipeStore × Option (Except RpcError Unit) :=
  match feedRequireFeed st.db feed.id with
  | .error e => (st, some (.error e))
  | .ok rec =>
    if rec.version ≠ expectedVersion then
      (st, some (.error (feedVersionConflict rec.id expectedVersion rec.version)))
    else if feedKindFromProto feed.kind ≠ some rec.kind then
      (st, some (.error ⟨.invalidArgument, "kind cannot change after creation", none⟩))
    else match feedCheckSlugImmutable st.db rec feed.slug with
      | .error e => (st, some (.error e))
      | .ok () =>
        let spec := updatedSpec st feed rec
        match validate chk spec with
        | none => (st, none)
        | some (p :: problems) => (st, some (.error (feedValidationError (p :: problems))))
        | some [] =>
          match feedApplyUpdate st.db rec (spec.identity rec.kind)
              (spec.generation rec.kind) feed.extra expectedVersion now with
          | (_, .error e) => (st, some (.error e))
          | (db, .ok ()) => (st.setRecipe db rec.id spec, some (.ok ()))

/-! ## Sending back what `Get` returned -/

/-- The feed of this row has this recipe, and its columns are those of the recipe. -/
structure HoldsRecipe (st : RecipeStore) (rec : FeedRow) (s : Spec) : Prop where
  unique : UniqueFeeds st.db
  row : feedRequireFeed st.db rec.id = .ok rec
  recipe : st.recipes rec.id = some s
  slug : rec.slug = s.slug
  title : rec.title = s.title
  description : rec.description = s.description
  language : rec.language = s.language
  kind : s.kind = some rec.kind

/-- `Update`, called with the message that `Get` returned and with its version, stores a recipe
that agrees with `s` in every field other than the recurrence. -/
def StoresSame (chk : Checker) (st : RecipeStore) (id : ℕ) (s : Spec) (now : ℤ) : Prop :=
  ∃ feed, getFeed st id = .ok feed ∧
    ∃ st', updateRecipe chk st feed feed.version now = (st', some (.ok ())) ∧
      ∃ s', st'.recipes id = some s' ∧ s'.SameButRecurrence s

/-- The recurrence that comes back, or the cron expression in its place, still passes. -/
def ScheduleReturns (locale : Cron.Locale) (s : Spec) : Prop :=
  s.scheduleMode = scheduleModeAdhoc ∨
    match s.recurrence with
    | none => True
    | some r =>
      if PlainFrequency r.frequency then
        1 ≤ int32 r.interval ∧ (NeedsWeekday r → ∃ name ∈ r.weekdays, PlainWeekday name)
      else validateCron locale s.cron s.timezone = some []

/-- A recipe that comes back as it was sent. -/
structure Resendable (locale : Cron.Locale) (s : Spec) : Prop where
  kind : s.kind ≠ some .aggregate
  mode : s.model.mode = "balanced"
  speed : s.model.speed = ""
  maxRetries : s.novelty.maxRetries = 3
  dailyRuns : s.budgets.dailyRuns ≤ 2147483647
  members : s.members = []
  schedule : ScheduleReturns locale s

/-- The recipe that comes back for a feed that is not an aggregate. -/
def returned (s : Spec) : Spec :=
  { feedSpecFromProto (feedSpecToProto s) with
    slug := s.slug, title := s.title, description := s.description, language := s.language
    kind := s.kind, members := [] }

section
variable {chk : Checker} {st : RecipeStore} {rec : FeedRow} {s : Spec}

/-- **What is lost on the way**, of a recipe that passes. -/
theorem returned_same_iff (hvalid : validate chk s = some []) :
    (returned s).SameButRecurrence s ↔ s.model.mode = "balanced" ∧ s.model.speed = "" ∧
      s.novelty.maxRetries = 3 ∧ s.budgets.dailyRuns ≤ 2147483647 ∧ s.members = [] := by
  obtain ⟨-, -, -, hbudgets, hranges, -⟩ := validate_eq_nil.1 hvalid
  obtain ⟨-, hruns⟩ := validateBudgets_eq_nil.1 hbudgets
  obtain ⟨hitems, hwindow, -, hexclude, -⟩ := validateRanges_eq_nil.1 hranges
  have hitems' : int32 s.itemsPerRun = s.itemsPerRun := int32_eq_self.2 (by omega)
  have hwindow' : int32 s.feedWindow = s.feedWindow := int32_eq_self.2 (by omega)
  have hexclude' : int32 s.novelty.excludeLast = s.novelty.excludeLast :=
    int32_eq_self.2 (by omega)
  have hruns' : int32 s.budgets.dailyRuns = s.budgets.dailyRuns ↔
      s.budgets.dailyRuns ≤ 2147483647 := by
    rw [int32_eq_self]
    omega
  rw [← hruns']
  rcases s with ⟨slug, title, description, language, kind, cron, timezone, recurrence, mode,
    items, window, ⟨model, temperature, modelMode, speed, web⟩, system, user,
    ⟨exclude, threshold, retries⟩, ⟨tokens, runs⟩, sources, members⟩
  dsimp only at hitems' hwindow' hexclude'
  simp only [Spec.SameButRecurrence, returned, feedSpecFromProto, feedSpecToProto, defaults,
    feedSourcesFromProto_toProto, hitems', hwindow', hexclude', Spec.mk.injEq,
    ModelParams.mk.injEq, Feedspec.Novelty.mk.injEq, Budgets.mk.injEq, true_and, and_true]
  constructor
  · rintro ⟨⟨rfl, rfl⟩, rfl, hkept, rfl⟩
    exact ⟨rfl, rfl, rfl, hkept, rfl⟩
  · rintro ⟨rfl, rfl, rfl, hkept, rfl⟩
    exact ⟨⟨rfl, rfl⟩, rfl, hkept, rfl⟩

theorem validateKind_returned {templateRuns : String → Bool} (hkind : s.kind ≠ some .aggregate) :
    validateKind templateRuns (returned s) = validateKind templateRuns s := by
  have hsources : (returned s).sources = s.sources := feedSourcesFromProto_toProto s.sources
  have hk : (returned s).kind = s.kind := rfl
  rw [validateKind, validateKind, hk, hsources]
  cases hs : s.kind with
  | none => rfl
  | some kind =>
    cases kind with
    | generative => rfl
    | grounded => rfl
    | aggregate => exact absurd hs hkind

theorem validateSchedule_returned (hascii : chk.locale.Ascii)
    (hvalid : validateSchedule chk.locale s = some []) :
    validateSchedule chk.locale (returned s) = some [] ↔ ScheduleReturns chk.locale s := by
  rw [validateSchedule_eq_nil] at hvalid ⊢
  have hmode : (returned s).scheduleMode = s.scheduleMode := rfl
  have hrec : (returned s).recurrence = recurrenceFromProto (recurrenceToProto s.recurrence) := rfl
  have hcron : (returned s).cron = s.cron := rfl
  have htz : (returned s).timezone = s.timezone := rfl
  rw [hmode, hrec, hcron, htz, ScheduleReturns]
  refine or_congr_right' fun hadhoc => ?_
  obtain ⟨hmodes, hschedule⟩ := hvalid.resolve_left hadhoc
  rw [and_iff_right hmodes]
  cases hr : s.recurrence with
  | none =>
    rw [hr] at hschedule
    exact iff_true_intro hschedule
  | some r =>
    rw [hr] at hschedule
    obtain ⟨x, hx⟩ := hschedule
    rw [recurrenceFromProto_toProto]
    by_cases hplain : PlainFrequency r.frequency
    · simp only [if_pos hplain]
      exact exists_resolve_resent_iff hascii hx hplain
    · simp only [if_neg hplain]

/-- **When the recipe that comes back passes.** -/
theorem validate_returned_iff (hascii : chk.locale.Ascii) (hvalid : validate chk s = some [])
    (hkind : s.kind ≠ some .aggregate) :
    validate chk (returned s) = some [] ↔
      1 ≤ int32 s.budgets.dailyRuns ∧ ScheduleReturns chk.locale s := by
  obtain ⟨hslug, hschedule, hk, hbudgets, hranges, hmodel⟩ := validate_eq_nil.1 hvalid
  have hbudgets' : validateBudgets (returned s).budgets = [] ↔ 1 ≤ int32 s.budgets.dailyRuns := by
    rw [validateBudgets_eq_nil] at hbudgets ⊢
    exact and_iff_right hbudgets.1
  have hranges' : validateRanges (returned s) = [] := by
    rw [validateRanges_eq_nil] at hranges ⊢
    obtain ⟨hitems, hwindow, -, hexclude, hthreshold⟩ := hranges
    have hitems' : int32 s.itemsPerRun = s.itemsPerRun := int32_eq_self.2 (by omega)
    have hwindow' : int32 s.feedWindow = s.feedWindow := int32_eq_self.2 (by omega)
    have hexclude' : int32 s.novelty.excludeLast = s.novelty.excludeLast :=
      int32_eq_self.2 (by omega)
    simp only [returned, feedSpecFromProto, feedSpecToProto, hitems', hwindow', hexclude']
    exact ⟨hitems, hwindow, by decide, hexclude, hthreshold⟩
  rw [validate_eq_nil, validateSchedule_returned hascii hschedule, validateKind_returned hkind,
    hbudgets']
  exact ⟨fun h => ⟨h.2.2.2.1, h.2.1⟩, fun h => ⟨hslug, h.2, hk, h.1, hranges', hmodel⟩⟩

/-! ### `Get` and `Update` on the feed -/

theorem getFeed_stored (h : HoldsRecipe st rec s) (hkind : s.kind ≠ some .aggregate) :
    ∃ feed, getFeed st rec.id = .ok feed ∧ feed.id = rec.id ∧ feed.version = rec.version ∧
      feed.slug = rec.slug ∧ feedKindFromProto feed.kind = some rec.kind ∧
      updatedSpec st feed rec = returned s := by
  have hrec : rec.kind ≠ .aggregate := fun hr => hkind (h.kind.trans (congrArg some hr))
  rw [getFeed, h.row, Except.bind, feedToProto, if_neg hrec, h.recipe]
  refine ⟨_, rfl, rfl, rfl, rfl, feedKindFromProto_toProto rec.kind, ?_⟩
  simp only [updatedSpec, if_neg hrec, feedFullSpecFromProto, Option.getD_some, returned, h.slug,
    h.title, h.description, h.language, h.kind]

theorem feedApplyUpdate_stored (h : HoldsRecipe st rec s) {feed : FeedIdentity}
    (hslug : feed.slug = rec.slug) (spec : FeedSpec) (extra : FeedIdentityExtra) (now : ℤ) :
    ∃ db, feedApplyUpdate st.db rec feed spec extra rec.version now = (db, .ok ()) := by
  obtain ⟨hmem, -, -⟩ := feedRequireFeed_ok h.row
  have hfound : st.db.feeds.any (fun r => r.id == rec.id && r.version == rec.version) = true := by
    rw [any_eq_true]
    exact ⟨rec, hmem, by simp⟩
  have hfree : ¬st.db.feeds.any (fun r => r.id != rec.id && r.slug == feed.slug) = true := by
    rw [any_eq_true]
    rintro ⟨r, hr, hboth⟩
    simp only [Bool.and_eq_true, bne_iff_ne, beq_iff_eq] at hboth
    exact hboth.1 (congrArg _ (h.unique.eq_of_slug hr hmem (hboth.2.trans hslug)))
  rw [feedApplyUpdate, if_pos hfound, if_neg hfree]
  exact ⟨_, rfl⟩

/-- **`Update` stores the recipe that it has built**, if that passes, and nothing else. -/
theorem updateRecipe_stored (h : HoldsRecipe st rec s) {feed : Affv1.Feed} (hid : feed.id = rec.id)
    (hslug : feed.slug = rec.slug) (hkind : feedKindFromProto feed.kind = some rec.kind)
    (now : ℤ) :
    (∃ db, updateRecipe chk st feed rec.version now =
      (st.setRecipe db rec.id (updatedSpec st feed rec), some (.ok ()))) ∧
        validate chk (updatedSpec st feed rec) = some [] ∨
    (∀ st', updateRecipe chk st feed rec.version now ≠ (st', some (.ok ()))) ∧
      validate chk (updatedSpec st feed rec) ≠ some [] := by
  have hsame : feedCheckSlugImmutable st.db rec feed.slug = .ok () := if_pos hslug
  have hspec : (updatedSpec st feed rec).slug = feed.slug := by
    rw [updatedSpec]
    split <;> rfl
  simp only [updateRecipe, hid, h.row, hkind, hsame, ne_eq, not_true_eq_false, if_false]
  cases hvalid : validate chk (updatedSpec st feed rec) with
  | none => exact .inr ⟨fun st' => by simp, by simp⟩
  | some problems =>
    cases problems with
    | cons p problems => exact .inr ⟨fun st' => by simp, by simp⟩
    | nil =>
      have hidentity : ((updatedSpec st feed rec).identity rec.kind).slug = rec.slug :=
        hspec.trans hslug
      obtain ⟨db, hdb⟩ := feedApplyUpdate_stored h hidentity
        ((updatedSpec st feed rec).generation rec.kind) feed.extra now
      exact .inl ⟨⟨db, by rw [hdb]⟩, rfl⟩

/-- The message of an aggregate has no recipe, and a recipe without numbers does not pass. -/
theorem getFeed_aggregate (chk : Checker) (h : HoldsRecipe st rec s)
    (hkind : s.kind = some .aggregate) :
    ∃ feed, getFeed st rec.id = .ok feed ∧ feed.id = rec.id ∧ feed.version = rec.version ∧
      feed.slug = rec.slug ∧ feedKindFromProto feed.kind = some rec.kind ∧
      validate chk (updatedSpec st feed rec) ≠ some [] := by
  have hrec : rec.kind = .aggregate := Option.some.inj (h.kind.symm.trans hkind)
  rw [getFeed, h.row, Except.bind, feedToProto, if_pos hrec]
  refine ⟨_, rfl, rfl, rfl, rfl, feedKindFromProto_toProto rec.kind, fun hvalid => ?_⟩
  have hranges := (validate_eq_nil.1 hvalid).2.2.2.2.1
  have hitems := (validateRanges_eq_nil.1 hranges).1.1
  simp only [updatedSpec, if_pos hrec, feedFullSpecFromProto, Option.getD_none,
    feedSpecFromProto] at hitems
  omega

theorem storesSame_iff_validate {feed : Affv1.Feed} {now : ℤ} (h : HoldsRecipe st rec s)
    (hget : getFeed st rec.id = .ok feed) (hid : feed.id = rec.id)
    (hversion : feed.version = rec.version) (hslug : feed.slug = rec.slug)
    (hkind : feedKindFromProto feed.kind = some rec.kind) :
    StoresSame chk st rec.id s now ↔ validate chk (updatedSpec st feed rec) = some [] ∧
      (updatedSpec st feed rec).SameButRecurrence s := by
  rw [StoresSame]
  rcases updateRecipe_stored h hid hslug hkind now with ⟨⟨db, hok⟩, hvalid⟩ | ⟨hnot, hvalid⟩
  · rw [and_iff_right hvalid]
    constructor
    · rintro ⟨feed', hget', st', hupdate, s', hs', hsame⟩
      cases hget.symm.trans hget'
      rw [hversion, hok] at hupdate
      cases hupdate
      simp only [RecipeStore.setRecipe, if_true, Option.some.injEq] at hs'
      exact hs' ▸ hsame
    · intro hsame
      exact ⟨feed, hget, _, hversion ▸ hok, _, if_pos rfl, hsame⟩
  · refine iff_of_false ?_ fun hboth => hvalid hboth.1
    rintro ⟨feed', hget', st', hupdate, -⟩
    cases hget.symm.trans hget'
    exact hnot st' (hversion ▸ hupdate)

/-- **Sending back what `Get` returned keeps the recipe** exactly for the recipes that the message
can carry. -/
theorem storesSame_iff (hascii : chk.locale.Ascii) (h : HoldsRecipe st rec s)
    (hvalid : validate chk s = some []) (now : ℤ) :
    StoresSame chk st rec.id s now ↔ Resendable chk.locale s := by
  by_cases hagg : s.kind = some .aggregate
  · obtain ⟨feed, hget, hid, hversion, hslug, hkind, hrefused⟩ :=
      getFeed_aggregate chk h hagg
    rw [storesSame_iff_validate h hget hid hversion hslug hkind]
    exact iff_of_false (fun hboth => hrefused hboth.1) fun hr => hr.kind hagg
  · obtain ⟨feed, hget, hid, hversion, hslug, hkind, hspec⟩ := getFeed_stored h hagg
    rw [storesSame_iff_validate h hget hid hversion hslug hkind, hspec,
      validate_returned_iff hascii hvalid hagg, returned_same_iff hvalid]
    constructor
    · rintro ⟨⟨-, hschedule⟩, hmode, hspeed, hretries, hruns, hmembers⟩
      exact ⟨hagg, hmode, hspeed, hretries, hruns, hmembers, hschedule⟩
    rintro ⟨-, hmode, hspeed, hretries, hruns, hmembers, hschedule⟩
    have hpos := (validateBudgets_eq_nil.1 (validate_eq_nil.1 hvalid).2.2.2.1).2
    have hkept : int32 s.budgets.dailyRuns = s.budgets.dailyRuns :=
      int32_eq_self.2 (by omega)
    exact ⟨⟨by omega, hschedule⟩, hmode, hspeed, hretries, hruns, hmembers⟩

end

/-- A checker that knows UTC and whose templates all run. -/
def plainChecker : Checker where
  locale :=
    { loadLocation := fun tz => if tz = "UTC" then .ok utc else .error ("unknown time zone " ++ tz)
      dateError := fun text => "parsing time " ++ text
      lower := Char.toLower }
  templateRuns _ := true

/-- A grounded feed with two sources, on two days of every second week. -/
def weeklyNews : Spec :=
  { defaults with
    slug := "news", title := "News", kind := some .grounded, scheduleMode := scheduleModeWatch
    recurrence := some { frequency := "weekly", interval := 2, weekdays := ["monday", "friday"]
                         hour := 7, minute := 30 }
    itemsPerRun := 3, systemPrompt := "Be brief."
    budgets := { dailyTokens := 5000, dailyRuns := 4 }
    sources := [⟨"https://a.example/rss", "rss"⟩, ⟨"https://b.example/atom", "atom"⟩] }

/-- A generative feed, every day at noon, with the mode of the model that takes more time. -/
def thoroughQuiz : Spec :=
  { defaults with slug := "noon-quiz", title := "Noon quiz", model := { mode := "thorough" } }

/-- The row of a recipe. -/
def recipeRow (s : Spec) : FeedRow :=
  { id := 1, slug := s.slug, title := s.title, description := s.description
    language := s.language, kind := s.kind.getD .generative, createdAt := march2026
    updatedAt := march2026 }

/-- A store with one feed. -/
def oneRecipe (s : Spec) : RecipeStore :=
  { db := { feeds := [recipeRow s] }, recipes := fun i => if i = 1 then some s else none
    memberRows := [] }

theorem holdsRecipe_oneRecipe {s : Spec} (h : s.kind = some (recipeRow s).kind) :
    HoldsRecipe (oneRecipe s) (recipeRow s) s where
  unique := ⟨List.nodup_singleton _, List.nodup_singleton _⟩
  row := rfl
  recipe := rfl
  slug := rfl
  title := rfl
  description := rfl
  language := rfl
  kind := h

theorem validate_thoroughQuiz : validate plainChecker thoroughQuiz = some [] := by decide +kernel

/-- A recipe that the message can carry comes back. -/
theorem storesSame_weeklyNews :
    HoldsRecipe (oneRecipe weeklyNews) (recipeRow weeklyNews) weeklyNews ∧
    validate plainChecker weeklyNews = some [] ∧
    StoresSame plainChecker (oneRecipe weeklyNews) 1 weeklyNews march2026 := by
  have hholds : HoldsRecipe (oneRecipe weeklyNews) (recipeRow weeklyNews) weeklyNews :=
    holdsRecipe_oneRecipe rfl
  have hvalid : validate plainChecker weeklyNews = some [] := by decide +kernel
  have hschedule : ScheduleReturns plainChecker.locale weeklyNews := by
    right
    have hplain : PlainFrequency "weekly" := by decide
    simp only [weeklyNews, if_pos hplain]
    exact ⟨by decide, fun _ => ⟨"monday", by decide, by decide⟩⟩
  refine ⟨hholds, hvalid, (storesSame_iff (fun _ _ => rfl) hholds hvalid march2026).2 ?_⟩
  exact
    { kind := by decide, mode := rfl, speed := rfl, maxRetries := rfl, dailyRuns := by decide
      members := rfl, schedule := hschedule }

/-- **The mode of the model is lost**: a recipe in the mode `thorough` passes, and comes back in
the mode `balanced`. -/
theorem not_storesSame_thoroughQuiz :
    HoldsRecipe (oneRecipe thoroughQuiz) (recipeRow thoroughQuiz) thoroughQuiz ∧
    validate plainChecker thoroughQuiz = some [] ∧
    ¬StoresSame plainChecker (oneRecipe thoroughQuiz) 1 thoroughQuiz march2026 := by
  have hholds : HoldsRecipe (oneRecipe thoroughQuiz) (recipeRow thoroughQuiz) thoroughQuiz :=
    holdsRecipe_oneRecipe rfl
  refine ⟨hholds, validate_thoroughQuiz, fun h => ?_⟩
  obtain ⟨feed, hget, hid, hversion, hslug, hkind, hspec⟩ := getFeed_stored hholds (by decide)
  have hsame := ((storesSame_iff_validate hholds hget hid hversion hslug hkind).1 h).2
  rw [hspec] at hsame
  have hmode := ((returned_same_iff validate_thoroughQuiz).1 hsame).1
  exact absurd hmode (by decide)

end AnimeFeedFlux
