import AnimeFeedFlux.Wire.Closing

/-!
# The vectors of a run

The vectors the novelty gate computes travel beside the items, by position, through the attempts,
the cap, the stamps and the formatting, until the commit stores them under the ids of the rows.
-/

namespace AnimeFeedFlux

open List

/-- The text the novelty gate judges. -/
def Item.noveltyText (it : Item) : String := it.title ++ " " ++ it.summaryText

/-- The gate found the text new and answered with this vector. -/
def Deps.Embeds (deps : Deps) (text : String) (v : Embedding) : Prop :=
  ∃ gate ∈ deps.novelty, ∃ attempt i, gate.check attempt i text = .ok (false, v)

/-- No vectors, or the vector of each item. -/
def Deps.Aligned (deps : Deps) (items : List Item) (vecs : List Embedding) : Prop :=
  vecs = [] ∨ Forall₂ deps.Embeds (items.map Item.noveltyText) vecs

section
variable {deps : Deps} {feed : Feed} {spec : GenSpec}

theorem aligned_filterNovel (attempt : ℕ) (items : List Item) (totals : List (String × ℕ)) :
    deps.Aligned (filterNovel deps attempt items totals).1
      (filterNovel deps attempt items totals).2.1 := by
  simp only [filterNovel]
  split
  · exact .inl rfl
  rename_i gate hgate
  generalize 0 = i
  cases hvectors : gate.vectors with
  | false =>
    refine .inl ?_
    induction items generalizing i totals with
    | nil => rfl
    | cons it items ih =>
      simp only [filterNovelFrom, hvectors, Bool.false_eq_true, if_false]
      split
      · exact ih _ _
      · exact ih _ _
      · exact ih _ _
  | true =>
    refine .inr ?_
    induction items generalizing i totals with
    | nil => exact .nil
    | cons it items ih =>
      simp only [filterNovelFrom, hvectors, if_true]
      split
      · exact ih _ _
      · exact ih _ _
      · rename_i hcheck
        exact .cons ⟨gate, hgate, attempt, i, hcheck⟩ (ih _ _)

theorem Deps.Aligned.eq_nil {vecs : List Embedding} (h : deps.Aligned [] vecs) : vecs = [] := by
  rcases h with h | h
  · exact h
  · cases h
    rfl

theorem aligned_gathered :
    deps.Aligned (gathered deps feed spec).novelItems (gathered deps feed spec).novelVecs := by
  refine gathered_rule (P := fun p => p.novelItems = [] ∧ p.novelVecs = [])
    (Q := fun p => deps.Aligned p.novelItems p.novelVecs) (fun _ => .inl rfl) ⟨rfl, rfl⟩
    (fun _ hq => hq) ?_
  intro data opts _ _ prompt requestID attempt p hp
  refine ⟨fun _ => .inl hp.2, (fun hq => ⟨hq, fun hnone => ⟨hnone, (hnone ▸ hq).eq_nil⟩⟩) ?_⟩
  simp only [Progress.accept, Progress.spend, hp.1, hp.2, nil_append]
  split
  · exact aligned_filterNovel attempt _ _
  · exact .inl rfl

theorem noveltyText_formatItems (items : List Item) (requestID : String) :
    (formatItems deps spec items requestID).1.map Item.noveltyText =
      items.map Item.noveltyText := by
  simp only [formatItems]
  split
  · rfl
  rw [unzip_fst]
  refine ext_getElem (by simp) fun i _ _ => ?_
  simp only [getElem_map, getElem_mapIdx, formatItem]
  split <;> rfl

/-- **What a run hands over**: no embedding, or one for each item under its key, computed for
the item's own title and summary. -/
theorem aligned_run {o : Outcome} (h : run deps feed spec = some o) :
    o.record.embeddings = [] ∨
    ∃ vecs, o.record.embeddings = (o.items.map (·.itemKey)).zip vecs ∧
      Forall₂ deps.Embeds (o.items.map Item.noveltyText) vecs := by
  rcases run_cases h with ⟨_, _, _, -, -, rfl⟩ | ⟨-, requestID, rfl⟩
  · exact .inl rfl
  simp only [publish]
  split
  · exact .inl rfl
  rename_i newest _
  simp only [closeRun, zipEmbeddings]
  split
  · rcases @aligned_gathered deps feed spec with hnil | hvecs
    · simp [hnil]
    refine .inr ⟨_, rfl, ?_⟩
    have hlength := hvecs.length_eq
    rw [length_map] at hlength
    have hstamp : ∀ items : List Item, (stampItems deps.lower deps.newItemKey feed.id feed.slug
        items newest deps.stamped).map Item.noveltyText = items.map Item.noveltyText := by
      intro items
      exact ext_getElem (by simp [stampItems]) fun i _ _ => by
        simp [stampItems, Item.noveltyText]
    rw [noveltyText_formatItems, hstamp, map_take, hlength]
    exact forall₂_take _ hvecs
  · exact .inl rfl

/-- The inserts of a commit store the vectors under the ids of the rows of their items. -/
theorem commitItems_embeddings {runID : ℕ} {now : ℤ} {its : List Item} :
    ∀ {db db' : DB} {byKey left : List (String × Embedding)},
      commitItems runID now db its byKey = .ok (db', left) →
      (∀ x ∈ db.items, ∀ it ∈ its, x.itemKey ≠ it.itemKey) ∧
      ∃ rows, db'.items = db.items ++ rows ∧
        rows.map Item.noveltyText = its.map Item.noveltyText ∧
        (byKey = [] → db'.embeddings = db.embeddings) ∧
        ∀ vecs, vecs.length = its.length → byKey = (its.map (·.itemKey)).zip vecs →
          db'.embeddings = db.embeddings ++ (rows.map (·.id)).zip vecs := by
  induction its with
  | nil =>
    intro db db' byKey left h
    cases h
    exact ⟨by simp, [], by simp⟩
  | cons it its ih =>
    intro db db' byKey left h
    simp only [commitItems] at h
    split at h
    · cases h
    rename_i db₁ hins
    obtain ⟨rfl, hbars⟩ := insertItemRow_ok hins
    obtain ⟨hkeys, rows, hitems, htexts, hnone, hvecs⟩ := ih h
    have hfresh : ∀ it' ∈ its, it.itemKey ≠ it'.itemKey :=
      hkeys (db.storedRow (it.newRow it.publishedAt (some runID) now))
        (mem_append_right _ (mem_singleton_self _))
    refine ⟨?_, _ :: rows, by rw [hitems, append_assoc]; rfl, ?_, ?_, ?_⟩
    · intro x hx it' hit'
      rcases mem_cons.1 hit' with rfl | hit'
      · intro heq
        simpa [Item.bars, Item.newRow, heq] using hbars x hx
      · exact hkeys x (mem_append_left _ hx) it' hit'
    · rw [map_cons, map_cons, htexts]
      rfl
    · rintro rfl
      simpa using hnone rfl
    · intro vecs hlength hby
      cases vecs with
      | nil => cases hlength
      | cons v vecs =>
        have hne : ∀ kv ∈ (its.map (·.itemKey)).zip vecs, kv.1 ≠ it.itemKey := by
          intro kv hkv
          obtain ⟨it', hit', hkey⟩ := mem_map.1 (of_mem_zip hkv).1
          exact hkey ▸ (hfresh it' hit').symm
        have hmine : byKey.filter (·.1 == it.itemKey) = [(it.itemKey, v)] := by
          simpa [hby, filter_eq_nil_iff] using hne
        have hrest : byKey.filter (·.1 != it.itemKey) = (its.map (·.itemKey)).zip vecs := by
          simpa [hby, filter_eq_self] using hne
        rw [hvecs vecs (by simpa using hlength) hrest]
        simp [hmine, DB.storedRow]

/-- **Embeddings stay with their items**: a commit stores none, or one for each row it adds,
which is the vector the gate computed for the title and the summary of that row. -/
theorem embeddings_committed {o : Outcome} (h : run deps feed spec = some o) {db db' : DB}
    {runID : ℕ} {now : ℤ} (hcommit : commitRecord db runID o.record o.items now = .ok db') :
    ∃ rows, db'.items = db.items ++ rows ∧
      (db'.embeddings = db.embeddings ∨
        ∃ vecs, db'.embeddings = db.embeddings ++ (rows.map (·.id)).zip vecs ∧
          Forall₂ deps.Embeds (rows.map Item.noveltyText) vecs) := by
  have hclosed : ∀ {f : Run → Run} {db₁ db₂ : DB}, updateRunning db₁ runID f = .ok db₂ →
      db₂.items = db₁.items ∧ db₂.embeddings = db₁.embeddings := by
    intro f db₁ db₂ hclose
    rw [updateRunning_ok hclose]
    exact ⟨rfl, rfl⟩
  simp only [commitRecord] at hcommit
  split at hcommit
  · obtain ⟨db₁, db₂, hitems, hclose, rfl⟩ := commitRun_ok hcommit
    obtain ⟨-, rows, hrows, htexts, hnone, hvecs⟩ := commitItems_embeddings hitems
    refine ⟨rows, (hclosed hclose).1.trans hrows, ?_⟩
    rcases aligned_run h with hempty | ⟨vecs, hzip, hembeds⟩
    · exact .inl ((hclosed hclose).2.trans (hnone hempty))
    · have hlength := hembeds.length_eq
      rw [length_map] at hlength
      exact .inr ⟨vecs, (hclosed hclose).2.trans (hvecs vecs hlength.symm hzip), htexts ▸ hembeds⟩
  · simp only [skipRun] at hcommit
    split at hcommit
    · cases hcommit
    · exact ⟨[], by simp [(hclosed hcommit).1], .inl (hclosed hcommit).2⟩
  · simp only [failRun] at hcommit
    split at hcommit
    · cases hcommit
    · exact ⟨[], by simp [(hclosed hcommit).1], .inl (hclosed hcommit).2⟩

end

/-- A gate that finds all but the second text of a batch new. -/
def strictGate : Novelty where
  vectors := true
  check _ i text := .ok (i == 1, ⟨"small", text.length, []⟩)

/-- The run of a trivia feed with that gate. -/
def strictDeps : Deps :=
  { (triviaRun (titled ["Who directed Akira", "Who wrote Akira", "Who scored Akira",
      "Who drew Akira"])).deps with novelty := some strictGate }

def strictFeed : Feed := ((loadFeedRow triviaStore 1).toOption.get rfl).1

def strictOutcome : Outcome := (run strictDeps strictFeed { itemsPerRun := 2 }).get rfl

/-- One text is rejected and one is over the cap; the vectors of the others are stored. -/
theorem embeddings_committed_strictGate :
    ∃ db', commitRecord triviaStoreRunning 1 strictOutcome.record strictOutcome.items march2026 =
        .ok db' ∧
      db'.items.map (·.title) = ["Who directed Akira", "Who scored Akira"] ∧
      ∃ vecs, db'.embeddings = (db'.items.map (·.id)).zip vecs ∧
        Forall₂ strictDeps.Embeds (db'.items.map Item.noveltyText) vecs := by
  have hcommit : commitRecord triviaStoreRunning 1 strictOutcome.record strictOutcome.items
    march2026 = .ok _ := rfl
  obtain ⟨rows, hrows, hnone | hvecs⟩ := embeddings_committed (Option.some_get _).symm hcommit
  · exact absurd hnone (by decide +kernel)
  · obtain rfl := hrows
    exact ⟨_, hcommit, by decide +kernel, hvecs⟩

end AnimeFeedFlux
