import AnimeFeedFlux.Generate.Runner

/-!
# Where published items come from

Whatever the provider answers and however often it is asked, an item leaves the pipeline only
if `Validate` returned it without a rejection, for an item of one of the answers and under the
options of the run.  Novelty drops items and never makes one, stamping changes neither texts nor
markup, and the variants are those the checks let through.
-/

namespace AnimeFeedFlux

open List

/-- An item of some answer of the model. -/
def Deps.Answers (deps : Deps) (gi : GeneratedItem) : Prop :=
  ∃ attempt repair req res, deps.generate attempt repair req = .ok res ∧ gi ∈ res.items

/-- An item `Validate` returned without a rejection. -/
def Deps.Validated (deps : Deps) (it : Item) : Prop :=
  ∃ gi opts, deps.validate gi opts = .ok (it, [])

/-- An item `Validate` returned so for an item of the model, under these options. -/
def Deps.ValidatedFor (deps : Deps) (opts : Options) (it : Item) : Prop :=
  ∃ gi, deps.Answers gi ∧ deps.validate gi opts = .ok (it, [])

theorem Deps.ValidatedFor.validated {deps : Deps} {opts : Options} {it : Item}
    (h : deps.ValidatedFor opts it) : deps.Validated it := by
  obtain ⟨gi, -, hvalid⟩ := h
  exact ⟨gi, opts, hvalid⟩

/-- An item with the texts and the markup of `v`.  Its variants are those of `v`, or what the
checks left of a formatting answer. -/
structure Deps.Carries (deps : Deps) (it v : Item) : Prop where
  title : it.title = v.title
  summaryText : it.summaryText = v.summaryText
  bodyHTML : it.bodyHTML = v.bodyHTML
  answerHTML : it.answerHTML = v.answerHTML
  link : it.link = v.link
  sourceName : it.sourceName = v.sourceName
  formats : it.formats = v.formats ∨ ∃ f w, it.formats = deps.validateFormats f w

/-- An item with the texts and the markup of a validated one.  Its variants are those of the
validated item, or what the checks left of a formatting answer. -/
structure Deps.Released (deps : Deps) (it : Item) : Prop where
  texts : ∃ v, deps.Validated v ∧ it.title = v.title ∧ it.summaryText = v.summaryText ∧
    it.bodyHTML = v.bodyHTML ∧ it.answerHTML = v.answerHTML ∧ it.link = v.link ∧
    it.sourceName = v.sourceName ∧
    (it.formats = v.formats ∨ ∃ f w, it.formats = deps.validateFormats f w)

theorem Deps.Carries.released {deps : Deps} {it v : Item} (h : deps.Carries it v)
    (hv : deps.Validated v) : deps.Released it :=
  ⟨v, hv, h.title, h.summaryText, h.bodyHTML, h.answerHTML, h.link, h.sourceName, h.formats⟩

section
variable {deps : Deps}

/-! ## The attempts -/

variable {opts : Options}

theorem validated_validateItems {gis : List GeneratedItem} (hgis : ∀ gi ∈ gis, deps.Answers gi) :
    ∀ {reasons reasons' : List (String × ℕ)} {items : List Item},
      validateItems deps opts gis reasons = (.ok items, reasons') →
      ∀ it ∈ items, deps.ValidatedFor opts it := by
  induction gis with
  | nil =>
    intro reasons reasons' items h
    cases h
    simp
  | cons gi rest ih =>
    have hrest : ∀ gi ∈ rest, deps.Answers gi :=
      fun gi hgi => hgis gi (mem_cons_of_mem _ hgi)
    intro reasons reasons' items h
    simp only [validateItems] at h
    split at h
    · cases h
    · rename_i item hitem
      split at h
      · rename_i hitems
        cases h
        intro it hit
        rcases mem_cons.1 hit with rfl | hit
        · exact ⟨gi, hgis gi (mem_cons_self ..), hitem⟩
        · exact ih hrest hitems it hit
      · cases h
    · exact ih hrest h

variable {spec : GenSpec} {requestID : String} {system prompt : String} {attempt : ℕ} {p : Progress}
  {o : Outcome}

theorem validated_callModel {repair : Bool} {reasons : List (String × ℕ)} :
    ∀ it ∈ (callModel deps spec opts system requestID attempt repair prompt reasons).1.valid,
      deps.ValidatedFor opts it := by
  simp only [callModel]
  split
  · simp
  rename_i res hres
  split
  · simp
  rename_i hvalid
  exact validated_validateItems (fun gi hgi => ⟨attempt, repair, _, res, hres, hgi⟩) hvalid

theorem validated_runAttempt :
    ∀ it ∈ (runAttempt deps spec opts system prompt requestID attempt).1.valid,
      deps.ValidatedFor opts it := by
  simp only [runAttempt]
  split
  · exact validated_callModel
  split
  · exact validated_callModel
  · split
    · exact validated_callModel
    · exact validated_callModel

theorem sublist_filterNovelFrom (gate : Novelty) (attempt : ℕ) :
    ∀ (items : List Item) (i : ℕ) (totals : List (String × ℕ)),
      (filterNovelFrom gate attempt i items totals).1.Sublist items := by
  intro items
  induction items with
  | nil => exact fun i totals => List.Sublist.refl _
  | cons it rest ih =>
    intro i totals
    simp only [filterNovelFrom]
    split
    · exact (ih _ _).cons it
    · exact (ih _ _).cons it
    · exact (ih _ _).cons_cons it

theorem sublist_filterNovel (attempt : ℕ) (items : List Item) (totals : List (String × ℕ)) :
    (filterNovel deps attempt items totals).1.Sublist items := by
  rw [filterNovel]
  split
  · exact List.Sublist.refl _
  · exact sublist_filterNovelFrom _ attempt items 0 totals

theorem mem_accept {R : Item → Prop} {ar : AttemptResult} (feed : Feed) (attempt : ℕ)
    (hp : ∀ it ∈ p.novelItems, R it) (har : ∀ it ∈ ar.valid, R it) :
    ∀ it ∈ (p.accept deps feed attempt ar).novelItems, R it := by
  intro it hit
  simp only [Progress.accept] at hit
  split at hit
  · rcases mem_append.1 hit with hit | hit
    · exact hp it hit
    · exact har it ((sublist_filterNovel attempt ar.valid p.rejectTotals).subset hit)
  · rcases mem_append.1 hit with hit | hit
    · exact hp it hit
    · exact har it hit

variable {feed : Feed}

/-- **The attempts gather validated items only.** -/
theorem validated_gathered : ∀ it ∈ (gathered deps feed spec).novelItems,
      ∃ data opts, acquireContext deps feed spec deps.started = .ok (data, opts) ∧
        deps.ValidatedFor opts it := by
  refine gathered_rule (P := (·.novelItems = [])) (Q := fun p => ∀ it ∈ p.novelItems, ∃ data opts,
    acquireContext deps feed spec deps.started = .ok (data, opts) ∧ deps.ValidatedFor opts it)
    (by simp) rfl (fun _ hq => hq) ?_
  intro data opts hcontext _ prompt requestID attempt p hp
  have hnil : (p.spend (runAttempt deps spec opts (effectiveSystem spec) prompt requestID
      attempt).1).novelItems = [] := hp
  refine ⟨fun _ => by simp [hnil], ?_, fun hnone => hnone⟩
  exact mem_accept feed attempt (by simp [hnil]) fun it hit =>
    ⟨data, opts, hcontext, validated_runAttempt it hit⟩

/-! ## Stamping and formatting -/

theorem carried_stampItems {lower : Char → Char} {newItemKey : ℤ → String} {feedID : ℕ}
    {slug : String} {valid : List Item} {newest now : ℤ} :
    ∀ it ∈ stampItems lower newItemKey feedID slug valid newest now,
      ∃ v ∈ valid, deps.Carries it v := by
  intro it hit
  rw [stampItems, mem_mapIdx] at hit
  obtain ⟨i, hi, rfl⟩ := hit
  exact ⟨valid[i], getElem_mem hi, rfl, rfl, rfl, rfl, rfl, rfl, .inl rfl⟩

theorem Deps.Carries.formatItem {it v : Item} (h : deps.Carries it v)
    (format : ℕ → FormatRequest → Except ProviderError FormatResult) (spec : GenSpec)
    (requestID : String) (i : ℕ) :
    deps.Carries (formatItem deps format spec requestID i it).1 v := by
  simp only [AnimeFeedFlux.formatItem]
  split
  · exact { h with formats := .inr ⟨_, _, rfl⟩ }
  · exact h

theorem carried_formatItems {items valid : List Item}
    (h : ∀ it ∈ items, ∃ v ∈ valid, deps.Carries it v) :
    ∀ it ∈ (formatItems deps spec items requestID).1, ∃ v ∈ valid, deps.Carries it v := by
  rw [formatItems]
  split
  · exact h
  rename_i format _
  intro it hit
  rw [unzip_fst, mem_map] at hit
  obtain ⟨r, hr, rfl⟩ := hit
  obtain ⟨i, hi, rfl⟩ := mem_mapIdx.1 hr
  obtain ⟨v, hv, hcarries⟩ := h _ (getElem_mem hi)
  exact ⟨v, hv, hcarries.formatItem format spec requestID i⟩

/-! ## The pipelines -/

theorem carried_publish :
    ∀ it ∈ (publish deps feed spec requestID p).items, ∃ v ∈ p.novelItems, deps.Carries it v := by
  simp only [publish]
  split
  · simp [closeRun]
  intro it hit
  obtain ⟨v, hv, hcarries⟩ := carried_formatItems carried_stampItems it hit
  exact ⟨v, mem_of_mem_take hv, hcarries⟩

/-- **Every item a run commits carries an item validated under the run's own options.** -/
theorem carried_run (h : run deps feed spec = some o) {it : Item} (hit : it ∈ o.items) :
    ∃ data opts v, acquireContext deps feed spec deps.started = .ok (data, opts) ∧
      deps.ValidatedFor opts v ∧ deps.Carries it v := by
  rcases run_cases h with ⟨_, _, _, -, -, rfl⟩ | ⟨-, requestID, rfl⟩
  · simp [closeRun] at hit
  · obtain ⟨v, hv, hcarries⟩ := carried_publish it hit
    obtain ⟨data, opts, hcontext, hvalid⟩ := validated_gathered v hv
    exact ⟨data, opts, v, hcontext, hvalid, hcarries⟩

/-- **Every item a run commits is a validated one.** -/
theorem released_run (h : run deps feed spec = some o) : ∀ it ∈ o.items, deps.Released it := by
  intro it hit
  obtain ⟨data, opts, v, -, hv, hcarries⟩ := carried_run h hit
  exact hcarries.released hv.validated

/-- **Every item a dry run shows is a validated one**, as it was validated if nothing formats
it. -/
theorem validated_sample (hformat : deps.format = none) (feed : Feed) (spec : GenSpec) :
    ∀ it ∈ (sample deps feed spec).items, deps.Validated it := by
  simp only [sample]
  split
  · simp
  split
  · simp
  · split
    · simp
    · split
      · simp
      · split
        · simp
        · intro it hit
          simp only [formatItems, hformat] at hit
          exact (mem_accept feed 0 (by simp [Progress.spend]) validated_runAttempt it
            (mem_of_mem_take hit)).validated

end

end AnimeFeedFlux
