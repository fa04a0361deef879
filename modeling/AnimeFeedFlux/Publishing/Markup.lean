import AnimeFeedFlux.Lib.Machine
import AnimeFeedFlux.Generate.Contract
import AnimeFeedFlux.Generate.Provenance
import AnimeFeedFlux.Rpc.ItemEdit
import AnimeFeedFlux.Rpc.Promote
import AnimeFeedFlux.Sanitize.Html
import AnimeFeedFlux.Wire.Executor

/-!
# Stored markup is sanitized markup

The permalink page and `content:encoded` emit `body_html`, `answer_html` and the HTML variants
as they are stored.  Generation runs, `Create`, `PublishCorrection`, `PromoteSample`, `Update`
and `RevertRevision` write them; a revert writes back what the edit history recorded.

Each call is one step, taken when it writes.  It read the store before that, in a state the
run has passed through: the label says in which.  Where what was read does not reach the
markup, the label carries any tables at all.
-/

namespace AnimeFeedFlux

open Machine Sanitize GoStrings List

/-! ## Markup -/

/-- A text `sanitize.HTML` returned for some input. -/
def Sanitized (u : CaseTable) (s : String) : Prop := ∃ input, s = htmlText u input

/-- The columns of a row that are emitted unescaped. -/
def Item.markup (it : Item) : List String :=
  [it.bodyHTML, it.answerHTML, it.formats.feedHTML, it.formats.pageHTML]

/-- Every stored `body_html`, `answer_html` and HTML variant is sanitized. -/
def StoredMarkup (u : CaseTable) (db : DB) : Prop :=
  ∀ it ∈ db.items, ∀ s ∈ it.markup, Sanitized u s

/-! ## The machine -/

/-- One call, at its write.  `loading`, `grouping` and `reading` are positions in the history
of the store; `stamp` is the timestamp the committing attempt uses.  `elsewhere` may replace
any table but `items` and `item_revisions`. -/
inductive ItemCall
  | generate (deps : Deps) (feed : Feed) (spec : GenSpec) (runID : ℕ) (now : ℤ)
  | create (seen : DB) (newItemKey : ℤ → String) (req : CreateRequest) (now created stamp : ℤ)
  | correct (seen : DB) (newItemKey : ℤ → String) (req : CorrectionRequest) (now stamp : ℤ)
  | promote (seen naming getting : DB) (itemKey : String) (req : PromoteRequest) (feedID : ℕ)
      (now created stamp : ℤ)
  | update (loading : ℕ) (dating : DB) (req : UpdateRequest) (now : ℤ)
  | revert (loading grouping reading : ℕ) (dating : DB) (req : RevertRequest) (now : ℤ)
  | delete (id expectedVersion : ℕ) (now : ℤ)
  | restore (id expectedVersion : ℕ) (now : ℤ)
  | elsewhere (db : DB)

/-- The store and the states it has been in. -/
structure History where
  past : List Editorial := []
  store : Editorial := {}

/-- The store as a call found it; a position after the past is the present. -/
def History.at_ (h : History) (i : ℕ) : Editorial := h.past.getD i h.store

section
variable (deps : Deps) (m : Contract.Matchers) (u : CaseTable)

/-- The pipeline with the contract of the `generate` package. -/
def Deps.checked : Deps :=
  { deps with
    validate := Contract.validate m (htmlText u)
    validateFormats := Contract.validateFormats m (htmlText u) }

@[simp] theorem Deps.validate_checked :
    (deps.checked m u).validate = Contract.validate m (htmlText u) := rfl

end

/-- The effect of a transaction on the store, none if it failed. -/
def Editorial.commit (e : Editorial) (r : Except StoreError DB) : Editorial :=
  { e with db := r.toOption.getD e.db }

section
variable (m : Contract.Matchers) (u : CaseTable) (codec : PayloadCodec)

/-- The store after a call. -/
def History.call (h : History) : ItemCall → Editorial
  | .generate deps feed spec runID now =>
    match run (deps.checked m u) feed spec with
    | none => h.store
    | some o => h.store.commit (commitRecord h.store.db runID o.record o.items now)
  | .create seen newItemKey req now created stamp =>
    match createPrepare (htmlText u) newItemKey seen req now with
    | .error _ => h.store
    | .ok (it, _) =>
      h.store.commit (insertItem h.store.db { it with publishedAt := stamp } created)
  | .correct seen newItemKey req now stamp =>
    match correctionPrepare (htmlText u) newItemKey seen req now with
    | .error _ => h.store
    | .ok (it, _) =>
      h.store.commit (insertCorrectionOnce h.store.db it req.correctsItemID now stamp)
  | .promote seen naming getting itemKey req feedID now created stamp =>
    match promotePrepare codec (htmlText u) itemKey seen naming getting req now with
    | .error _ => h.store
    | .ok (id, it) =>
      h.store.commit (promoteOnce h.store.db id { it with feedID } created stamp)
  | .update loading dating req now =>
    match updatePrepare (htmlText u) (h.at_ loading).db dating req with
    | .error _ => h.store
    | .ok (old, updated) => (itemApplyEdit h.store old updated req.expectedVersion now).1
  | .revert loading grouping reading dating req now =>
    match revertPrepare (h.at_ loading) (h.at_ grouping) (h.at_ reading) dating req with
    | .error _ => h.store
    | .ok (old, updated) => (itemApplyEdit h.store old updated req.expectedVersion now).1
  | .delete id expectedVersion now =>
    { h.store with db := (deleteItem h.store.db id expectedVersion now).1 }
  | .restore id expectedVersion now =>
    { h.store with db := (restoreItem h.store.db id expectedVersion now).1 }
  | .elsewhere db => { h.store with db := { db with items := h.store.db.items } }

/-- One step. -/
def History.step (h : History) (c : ItemCall) : History :=
  { past := h.past ++ [h.store], store := h.call m u codec c }

end

/-! ## Clean texts -/

section
variable {u : CaseTable}

theorem sanitized_empty (u : CaseTable) : Sanitized u "" := ⟨"", (htmlText_empty u).symm⟩

/-- The markup fields among those an edit can change. -/
def TextField.IsMarkup (f : TextField) : Prop := f = .bodyHTML ∨ f = .answerHTML

/-- An item whose own markup, without variants, is sanitized. -/
def CleanTexts (u : CaseTable) (it : Item) : Prop :=
  ∀ f : TextField, f.IsMarkup → Sanitized u (f.get it)

variable {it : Item}

theorem cleanTexts_iff : CleanTexts u it ↔ Sanitized u it.bodyHTML ∧ Sanitized u it.answerHTML := by
  constructor
  · exact fun h => ⟨h .bodyHTML (.inl rfl), h .answerHTML (.inr rfl)⟩
  rintro ⟨hbody, hanswer⟩ f (rfl | rfl)
  · exact hbody
  · exact hanswer

/-- An item whose markup is sanitized. -/
def CleanItem (u : CaseTable) (it : Item) : Prop := ∀ s ∈ it.markup, Sanitized u s

theorem cleanItem_iff : CleanItem u it ↔
      CleanTexts u it ∧ Sanitized u it.formats.feedHTML ∧ Sanitized u it.formats.pageHTML := by
  simp only [CleanItem, Item.markup, cleanTexts_iff, forall_mem_cons, not_mem_nil,
    false_implies, implies_true, and_true, and_assoc]

variable {it' old : Item} {e : Editorial} {newItemKey : ℤ → String} {stamp : ℤ}
  {changes : List FieldChange}

theorem CleanTexts.congr (h : CleanTexts u it) (hbody : it'.bodyHTML = it.bodyHTML)
    (hanswer : it'.answerHTML = it.answerHTML) : CleanTexts u it' := by
  rw [cleanTexts_iff, hbody, hanswer]
  exact cleanTexts_iff.1 h

theorem CleanItem.congr (h : CleanItem u it) (hmarkup : it'.markup = it.markup) :
    CleanItem u it' := by
  rw [CleanItem, hmarkup]
  exact h

theorem cleanItem_of_texts (body answer : String) (hbody : it.bodyHTML = htmlText u body)
    (hanswer : it.answerHTML = htmlText u answer) (hformats : it.formats = {}) :
    CleanItem u it := by
  refine cleanItem_iff.2 ⟨cleanTexts_iff.2 ⟨⟨body, hbody⟩, ⟨answer, hanswer⟩⟩, ?_⟩
  rw [hformats]
  exact ⟨sanitized_empty u, sanitized_empty u⟩

/-- A recorded change whose two values, if they are markup, are sanitized. -/
def CleanChange (u : CaseTable) : FieldChange → Prop
  | .text f old new => f.IsMarkup → Sanitized u old ∧ Sanitized u new
  | .publishedAt _ _ => True

/-- The invariant of the store: the rows, and what a revert may bring back. -/
structure CleanStore (u : CaseTable) (e : Editorial) : Prop where
  items : StoredMarkup u e.db
  revisions : ∀ r ∈ e.revisions, CleanChange u r.change

/-! ## New rows -/

variable {db : DB}

theorem CleanStore.commit {r : Except StoreError DB} (h : CleanStore u e)
    (hrows : ∀ db, r = .ok db → ∀ x ∈ db.items, x ∈ e.db.items ∨ CleanItem u x) :
    CleanStore u (e.commit r) := by
  cases r with
  | error err => exact h
  | ok db => exact ⟨fun x hx => (hrows db rfl x hx).elim (h.items x) id, h.revisions⟩

theorem sanitized_variant (m : Contract.Matchers) (u : CaseTable) (v raw : String) :
    Sanitized u (Contract.dropIfSame (Contract.cleanHTML m (htmlText u) v) raw) := by
  rcases Contract.dropIfSame_cleanHTML m (htmlText u) v raw with hempty | ⟨w, hw⟩
  · rw [hempty]
    exact sanitized_empty u
  · exact ⟨w, hw⟩

theorem Deps.Released.clean {m : Contract.Matchers} {deps : Deps}
    (h : (deps.checked m u).Released it) : CleanItem u it := by
  obtain ⟨v, ⟨gi, opts, hv⟩, -, -, hbody, hanswer, -, -, hformats⟩ := h.texts
  rw [Deps.validate_checked] at hv
  obtain rfl := Contract.validate_ok hv
  refine cleanItem_iff.2 ⟨cleanTexts_iff.2 ⟨?_, ?_⟩, ?_⟩
  · exact ⟨gi.bodyHTML, hbody⟩
  · exact ⟨gi.answerHTML, hanswer⟩
  · rcases hformats with hformats | ⟨f, w, hformats⟩
    · rw [hformats]
      exact ⟨sanitized_empty u, sanitized_empty u⟩
    · have hchecked : it.formats = Contract.validateFormats m (htmlText u) f w := hformats
      simp only [hchecked, Contract.validateFormats]
      exact ⟨sanitized_variant m u f.feedHTML w.bodyHTML,
        sanitized_variant m u f.pageHTML w.bodyHTML⟩

variable {now : ℤ}

theorem cleanItem_createPrepare {req : CreateRequest}
    (h : createPrepare (htmlText u) newItemKey db req now = .ok (it, stamp)) : CleanItem u it := by
  simp only [createPrepare] at h
  -- One branch of the checks returns an item.
  repeat' split at h
  all_goals cases h
  exact cleanItem_of_texts req.bodyHTML req.answerHTML rfl rfl rfl

theorem cleanItem_correctionPrepare {req : CorrectionRequest}
    (h : correctionPrepare (htmlText u) newItemKey db req now = .ok (it, stamp)) :
    CleanItem u it := by
  simp only [correctionPrepare] at h
  repeat' split at h
  all_goals cases h
  -- A correction has no answer.
  all_goals exact cleanItem_of_texts req.bodyHTML "" rfl (htmlText_empty u).symm rfl

/-! ## Edits -/

theorem TextField.get_set (it : Item) (f g : TextField) (s : String) :
    f.get (TextField.set it g s) = if f = g then s else f.get it := by
  cases f <;> cases g <;> rfl

theorem CleanItem.of_load {id : ℕ} (h : StoredMarkup u db) (hload : itemLoadByID db id = .ok it) :
    CleanTexts u it := by
  obtain ⟨row, hrow, -, rfl⟩ := itemLoadByID_ok hload
  exact (cleanItem_iff.1 (h row hrow)).1.congr rfl rfl

variable {updated : Item}

theorem CleanTexts.applyRevisionField {target : Item} {c : FieldChange} (h : CleanTexts u target)
    (hc : CleanChange u c) (happly : itemApplyRevisionField target c = .ok updated) :
    CleanTexts u updated := by
  cases c with
  | text f old new =>
    cases happly
    intro g hg
    rw [TextField.get_set]
    split
    · rename_i heq
      exact (hc (heq ▸ hg)).1
    · exact h g hg
  | publishedAt old new =>
    simp only [itemApplyRevisionField] at happly
    split at happly
    · cases happly
    cases happly
    exact h.congr rfl rfl

theorem CleanTexts.foldlM :
    ∀ {target updated : Item}, CleanTexts u target → (∀ c ∈ changes, CleanChange u c) →
      changes.foldlM itemApplyRevisionField target = .ok updated → CleanTexts u updated := by
  induction changes with
  | nil =>
    intro target updated h _ hfold
    cases hfold
    exact h
  | cons c changes ih =>
    intro target updated h hc hfold
    rw [foldlM_cons] at hfold
    cases hone : itemApplyRevisionField target c with
    | error e =>
      rw [hone] at hfold
      cases hfold
    | ok next =>
      rw [hone] at hfold
      have hnext := h.applyRevisionField (hc c (mem_cons_self ..)) hone
      exact ih hnext (fun d hd => hc d (mem_cons_of_mem _ hd)) hfold

theorem mem_recordRevisions {itemID : ℕ} : ∀ {revisions : List Revision} {r : Revision},
      r ∈ recordRevisions revisions itemID now changes → r ∈ revisions ∨ r.change ∈ changes := by
  induction changes with
  | nil => exact fun h => .inl h
  | cons change rest ih =>
    intro revisions r h
    rcases ih h with h | h
    · rcases mem_append.1 h with h | h
      · exact .inl h
      · rw [mem_singleton.1 h]
        exact .inr (mem_cons_self ..)
    · exact .inr (mem_cons_of_mem _ h)

theorem cleanChange_of_mem_itemDiff (hold : CleanTexts u old) (hupdated : CleanTexts u updated) :
    ∀ c ∈ itemDiff old updated, CleanChange u c := by
  intro c hc
  rcases mem_append.1 hc with hc | hc
  · obtain ⟨f, -, hf⟩ := mem_filterMap.1 hc
    split at hf
    · cases hf
      exact fun hmarkup => ⟨hold f hmarkup, hupdated f hmarkup⟩
    · cases hf
  · split at hc
    · rw [mem_singleton.1 hc]
      trivial
    · cases hc

/-- **An edit between clean items keeps the store clean.** -/
theorem CleanStore.applyEdit (h : CleanStore u e) (hold : CleanTexts u old)
    (hupdated : CleanTexts u updated) (expectedVersion : ℕ) (now : ℤ) :
    CleanStore u (itemApplyEdit e old updated expectedVersion now).1 := by
  rcases itemApplyEdit_cases e old updated expectedVersion now with ⟨err, hsame⟩ | ⟨-, hedit⟩
  · rw [hsame]
    exact h
  rw [hedit]
  refine ⟨fun x hx => ?_, fun r hr => ?_⟩
  · obtain ⟨row, hrow, rfl⟩ := mem_map.1 hx
    have hclean := cleanItem_iff.1 (h.items row hrow)
    split
    · -- The texts are the new ones, the variants the old ones.
      exact cleanItem_iff.2 ⟨hupdated.congr rfl rfl, hclean.2⟩
    · exact cleanItem_iff.2 hclean
  · rcases mem_recordRevisions hr with hr | hr
    · exact h.revisions r hr
    · exact cleanChange_of_mem_itemDiff hold hupdated _ hr

/-! ## Steps and runs -/

theorem StoredMarkup.map (h : StoredMarkup u db) {f : Item → Item}
    (hf : ∀ it, (f it).markup = it.markup) :
    StoredMarkup u { db with items := db.items.map f } := by
  intro x hx
  obtain ⟨row, hrow, rfl⟩ := mem_map.1 hx
  rw [hf]
  exact h row hrow

theorem StoredMarkup.deleteItem (h : StoredMarkup u db) (id expectedVersion : ℕ) (now : ℤ) :
    StoredMarkup u (deleteItem db id expectedVersion now).1 := by
  simp only [AnimeFeedFlux.deleteItem]
  split
  · exact h
  · exact h
  · split
    · refine h.map fun it => ?_
      split <;> rfl
    · exact h

theorem StoredMarkup.restoreItem (h : StoredMarkup u db) (id expectedVersion : ℕ) (now : ℤ) :
    StoredMarkup u (restoreItem db id expectedVersion now).1 := by
  simp only [AnimeFeedFlux.restoreItem]
  split
  · exact h
  split
  · have hmap : StoredMarkup u { db with items := db.items.map fun it =>
        if it.id == id && it.version == expectedVersion then
          { it with deletedAt := none, updatedAt := now, version := it.version + 1 }
        else it } := by
      refine h.map fun it => ?_
      split <;> rfl
    split <;> exact hmap
  · exact h

variable {m : Contract.Matchers} {codec : PayloadCodec}

/-- The store has always been clean. -/
structure CleanHistory (u : CaseTable) (h : History) : Prop where
  past : ∀ e ∈ h.past, CleanStore u e
  store : CleanStore u h.store

theorem CleanHistory.at_ {h : History} (hclean : CleanHistory u h) (i : ℕ) :
    CleanStore u (h.at_ i) := by
  rw [History.at_, getD_eq_getElem?_getD]
  cases hi : h.past[i]? with
  | none => exact hclean.store
  | some e => exact hclean.past e (mem_of_getElem? hi)

/-- **Every call keeps the store clean.** -/
theorem CleanHistory.call {h : History} (hclean : CleanHistory u h) (c : ItemCall) :
    CleanStore u (h.call m u codec c) := by
  have hstore := hclean.store
  cases c with
  | generate deps feed spec runID now =>
    simp only [History.call]
    split
    · exact hstore
    rename_i o hrun
    refine hstore.commit fun db hcommit x hx => ?_
    rcases commitRecord_rows hcommit x hx with hx | ⟨it, hit, id, rfl⟩
    · exact .inl hx
    · exact .inr ((released_run hrun it hit).clean.congr rfl)
  | create seen newItemKey req now created stamp =>
    simp only [History.call]
    split
    · exact hstore
    rename_i it _ hprep
    refine hstore.commit fun db hcommit x hx => ?_
    rcases insertItemRow_rows hcommit x hx with hx | ⟨id, rfl⟩
    · exact .inl hx
    · exact .inr ((cleanItem_createPrepare hprep).congr rfl)
  | correct seen newItemKey req now stamp =>
    simp only [History.call]
    split
    · exact hstore
    rename_i it _ hprep
    refine hstore.commit fun db hcommit x hx => ?_
    rcases insertCorrectionOnce_rows hcommit x hx with hx | ⟨id, rfl⟩
    · exact .inl hx
    · exact .inr ((cleanItem_correctionPrepare hprep).congr rfl)
  | promote seen naming getting itemKey req feedID now created stamp =>
    simp only [History.call]
    split
    · exact hstore
    rename_i id it hprep
    obtain ⟨-, s, -, cand, -, -, -, -, -, rfl⟩ := promotePrepare_found hprep
    refine hstore.commit fun db hcommit x hx => ?_
    rcases promoteOnce_rows hcommit x hx with hx | ⟨id, rfl⟩
    · exact .inl hx
    · exact .inr (cleanItem_of_texts cand.bodyHTML cand.answerHTML rfl rfl rfl)
  | update loading dating req now =>
    simp only [History.call]
    split
    · exact hstore
    rename_i old updated hprep
    obtain ⟨hload, -, hbody, hanswer⟩ := updatePrepare_ok hprep
    have hold := CleanItem.of_load (hclean.at_ loading).items hload
    exact hstore.applyEdit hold (cleanTexts_iff.2 ⟨⟨_, hbody⟩, ⟨_, hanswer⟩⟩) _ now
  | revert loading grouping reading dating req now =>
    simp only [History.call]
    split
    · exact hstore
    rename_i old updated hprep
    obtain ⟨hload, changes, hchanges, hfold⟩ := revertPrepare_ok hprep
    have hold := CleanItem.of_load (hclean.at_ loading).items hload
    refine hstore.applyEdit hold (hold.foldlM (fun c hc => ?_) hfold) _ now
    obtain ⟨r, hr, rfl⟩ := hchanges c hc
    exact (hclean.at_ reading).revisions r hr
  | delete id expectedVersion now => exact ⟨hstore.items.deleteItem _ _ now, hstore.revisions⟩
  | restore id expectedVersion now => exact ⟨hstore.items.restoreItem _ _ now, hstore.revisions⟩
  | elsewhere db => exact ⟨hstore.items, hstore.revisions⟩

theorem CleanHistory.step {h : History} (hclean : CleanHistory u h) (c : ItemCall) :
    CleanHistory u (h.step m u codec c) where
  past e he := by
    rcases mem_append.1 he with he | he
    · exact hclean.past e he
    rw [mem_singleton.1 he]
    exact hclean.store
  store := hclean.call c

theorem always_cleanHistory (calls : List ItemCall) :
    Always (History.step m u codec) (CleanHistory u) ({} : History) calls :=
  always_of_step (fun _ c hclean => hclean.step c) calls _
    ⟨by simp, by simp [StoredMarkup], by simp⟩

end

/-- **Stored markup is sanitized markup**: whatever is generated, requested, promoted, edited or
reverted, in whatever order, every `body_html`, `answer_html` and HTML variant in the store is
what the sanitizer returned for some input. -/
theorem always_storedMarkup (m : Contract.Matchers) (u : CaseTable) (codec : PayloadCodec)
    (calls : List ItemCall) :
    Always (History.step m u codec) (fun h => StoredMarkup u h.store.db) ({} : History) calls :=
  (always_cleanHistory calls).mono fun _ hclean => hclean.store.items

/-- **A revert has nothing unsanitized to bring back**: nor do the revisions ever hold any. -/
theorem always_cleanRevisions (m : Contract.Matchers) (u : CaseTable) (codec : PayloadCodec)
    (calls : List ItemCall) :
    Always (History.step m u codec) (fun h => ∀ r ∈ h.store.revisions, CleanChange u r.change)
      ({} : History) calls :=
  (always_cleanHistory calls).mono fun _ hclean => hclean.store.revisions

end AnimeFeedFlux
