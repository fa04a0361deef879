import AnimeFeedFlux.Lib.KeyedSum
import AnimeFeedFlux.Store.Samples

/-!
# The spend ledger

What the gates count as spent is a sum over the run rows and the rows of `sample_spend`
inside a window.  A run row counts from the moment it is opened, with nothing in it; its
tokens and its cost are written once, when it is closed.

A write to the two tables is described by an `Edit`: which run rows it drops, how it
rewrites the ones it keeps, which it opens, and what sample spend it adds.  What an edit
does to the totals is worked out once, for all writes.
-/

namespace AnimeFeedFlux

open List

/-- Run ids are unique, and a row that is still `running` has recorded nothing. -/
structure DB.Ledger (db : DB) : Prop where
  runIDs : (db.runs.map (·.id)).Nodup
  unspent : ∀ r ∈ db.runs, r.status = .running →
    r.tokensIn = 0 ∧ r.tokensOut = 0 ∧ r.estCostUSD = 0

/-! ## Totals as sums of shares -/

section
variable {M : Type} [AddCommMonoid M] (feedID : ℕ) (since : ℤ)

/-- What a run row contributes to the window. -/
def Run.share (v : Run → M) (r : Run) : M := if r.countedSince feedID since then v r else 0

/-- What a row of `sample_spend` contributes to the window. -/
def SampleSpend.share (v : SampleSpend → M) (s : SampleSpend) : M :=
  if s.countedSince feedID since then v s else 0

/-- What the two tables contribute. -/
def DB.shares (db : DB) (v : Run → M) (v' : SampleSpend → M) : M :=
  (db.runs.map (Run.share feedID since v)).sum +
    (db.sampleSpend.map (SampleSpend.share feedID since v')).sum

end

theorem totalSpendSince_eq (db : DB) (feedID : ℕ) (since : ℤ) : totalSpendSince db feedID since =
    { tokensIn := db.shares feedID since (·.tokensIn) (·.tokensIn)
      tokensOut := db.shares feedID since (·.tokensOut) (·.tokensOut)
      costUSD := db.shares feedID since (·.estCostUSD) (·.costUSD) } := by
  simp only [totalSpendSince, spendSince, sampleSpendSince, KeyedSum.sum_filter_map]
  rfl

theorem countRunsSince_eq (db : DB) (feedID : ℕ) (since : ℤ) : countRunsSince db feedID since =
      (db.runs.map (Run.share feedID since fun r => if r.feedID = feedID then 1 else 0)).sum := by
  rw [countRunsSince]
  induction db.runs with
  | nil => rfl
  | cons r rs ih =>
    rw [countP_cons, map_cons, sum_cons, ih, add_comm]
    congr 1
    by_cases hfeed : r.feedID = feedID
    · simp [Run.share, Run.countedSince, hfeed]
    · simp [Run.share, hfeed]

/-! ## Edits -/

/-- A write to the ledger. -/
structure Edit where
  keep : Run → Bool := fun _ => true
  rewrite : Run → Run := id
  opened : List Run := []
  spent : List SampleSpend := []

/-- The edit turns the one database into the other, as far as the ledger is concerned. -/
structure Edit.Turns (e : Edit) (db db' : DB) : Prop where
  runs : db'.runs = (db.runs.filter e.keep).map e.rewrite ++ e.opened
  sampleSpend : db'.sampleSpend = db.sampleSpend ++ e.spent

/-- An edit as the modelled code makes them: a row keeps its identity, what a closed row has
recorded stays as it is, an open row that stays open has still recorded nothing, a new row
has a new id and nothing in it, and no cost is negative. -/
structure Edit.Fair (e : Edit) (db : DB) : Prop where
  identity : ∀ r, (e.rewrite r).id = r.id ∧ (e.rewrite r).feedID = r.feedID ∧
    (e.rewrite r).startedAt = r.startedAt
  recorded : ∀ r, r.status ≠ .running ∨ (e.rewrite r).status = .running →
    (e.rewrite r).tokensIn = r.tokensIn ∧ (e.rewrite r).tokensOut = r.tokensOut ∧
      (e.rewrite r).estCostUSD = r.estCostUSD
  closed : ∀ r, r.status ≠ .running → (e.rewrite r).status ≠ .running
  cost : ∀ r ∈ db.runs, r.status = .running → 0 ≤ (e.rewrite r).estCostUSD
  openedIDs : (e.opened.map (·.id)).Nodup ∧ ∀ r ∈ e.opened, r.id ∉ db.runs.map (·.id)
  openedBlank : ∀ r ∈ e.opened, r.tokensIn = 0 ∧ r.tokensOut = 0 ∧ r.estCostUSD = 0
  spentCost : ∀ s ∈ e.spent, 0 ≤ s.costUSD

/-- No total of the window, and no count of runs in it, is smaller afterwards. -/
structure Grows (feedID : ℕ) (since : ℤ) (db db' : DB) : Prop where
  tokensIn : (totalSpendSince db feedID since).tokensIn ≤
    (totalSpendSince db' feedID since).tokensIn
  tokensOut : (totalSpendSince db feedID since).tokensOut ≤
    (totalSpendSince db' feedID since).tokensOut
  costUSD : (totalSpendSince db feedID since).costUSD ≤
    (totalSpendSince db' feedID since).costUSD
  runs : countRunsSince db feedID since ≤ countRunsSince db' feedID since

theorem Grows.refl (feedID : ℕ) (since : ℤ) (db : DB) : Grows feedID since db db :=
  ⟨le_refl _, le_refl _, le_refl _, le_refl _⟩

theorem Grows.trans {feedID : ℕ} {since : ℤ} {db₁ db₂ db₃ : DB} (h : Grows feedID since db₁ db₂)
    (h' : Grows feedID since db₂ db₃) : Grows feedID since db₁ db₃ where
  tokensIn := h.tokensIn.trans h'.tokensIn
  tokensOut := h.tokensOut.trans h'.tokensOut
  costUSD := h.costUSD.trans h'.costUSD
  runs := h.runs.trans h'.runs

namespace Edit
variable {e : Edit} {db db' : DB}

theorem Fair.countedSince (hf : e.Fair db) (r : Run) (feedID : ℕ) (since : ℤ) :
    (e.rewrite r).countedSince feedID since = r.countedSince feedID since := by
  obtain ⟨-, hfeed, hstart⟩ := hf.identity r
  simp [Run.countedSince, hfeed, hstart]

variable {M : Type} {feedID : ℕ} {since : ℤ} {v : Run → M}

theorem sum_runs_le [AddCommMonoid M] [PartialOrder M] [IsOrderedAddMonoid M] (ht : e.Turns db db')
    (hf : e.Fair db) (hdrop : ∀ r ∈ db.runs, e.keep r = false → r.countedSince feedID since = false)
    (hkept : ∀ r ∈ db.runs, v r ≤ v (e.rewrite r)) (hnew : ∀ r ∈ e.opened, 0 ≤ v r) :
    (db.runs.map (Run.share feedID since v)).sum ≤
      (db'.runs.map (Run.share feedID since v)).sum := by
  have hblank : ∀ r ∈ db.runs, e.keep r = false → Run.share feedID since v r = 0 := by
    intro r hr hk
    simp [Run.share, hdrop r hr hk]
  have hrewrite : ∀ r ∈ db.runs.filter e.keep,
      Run.share feedID since v r ≤ Run.share feedID since v (e.rewrite r) := by
    intro r hr
    simp only [Run.share, hf.countedSince]
    split
    · exact hkept r (mem_of_mem_filter hr)
    · exact le_refl _
  have hopened : 0 ≤ (e.opened.map (Run.share feedID since v)).sum := by
    apply sum_nonneg
    intro x hx
    obtain ⟨r, hr, rfl⟩ := mem_map.mp hx
    simp only [Run.share]
    split
    · exact hnew r hr
    · exact le_refl _
  calc (db.runs.map (Run.share feedID since v)).sum
      = ((db.runs.filter e.keep).map (Run.share feedID since v)).sum :=
        (KeyedSum.sum_filter_of_zero hblank).symm
    _ ≤ ((db.runs.filter e.keep).map fun r => Run.share feedID since v (e.rewrite r)).sum :=
        sum_le_sum hrewrite
    _ ≤ ((db.runs.filter e.keep).map fun r => Run.share feedID since v (e.rewrite r)).sum +
          (e.opened.map (Run.share feedID since v)).sum := le_add_of_nonneg_right hopened
    _ = (db'.runs.map (Run.share feedID since v)).sum := by
        rw [ht.runs, map_append, sum_append, map_map]
        rfl

theorem sum_spend_le [AddCommMonoid M] [PartialOrder M] [IsOrderedAddMonoid M] {v : SampleSpend → M}
    (ht : e.Turns db db') (hnew : ∀ s ∈ e.spent, 0 ≤ v s) :
    (db.sampleSpend.map (SampleSpend.share feedID since v)).sum ≤
      (db'.sampleSpend.map (SampleSpend.share feedID since v)).sum := by
  rw [ht.sampleSpend, map_append, sum_append]
  apply le_add_of_nonneg_right
  apply sum_nonneg
  intro x hx
  obtain ⟨s, hs, rfl⟩ := mem_map.mp hx
  simp only [SampleSpend.share]
  split
  · exact hnew s hs
  · exact le_refl _

/-- What only the closing of a run writes does not shrink in a window that loses no row. -/
theorem shares_le [AddCommMonoid M] [PartialOrder M] [IsOrderedAddMonoid M] {v' : SampleSpend → M}
    (ht : e.Turns db db') (hf : e.Fair db)
    (hdrop : ∀ r ∈ db.runs, e.keep r = false → r.countedSince feedID since = false)
    (hsame : ∀ r, r.status ≠ .running → v (e.rewrite r) = v r)
    (hopen : ∀ r ∈ db.runs, r.status = .running → v r = 0 ∧ 0 ≤ v (e.rewrite r))
    (hopened : ∀ r ∈ e.opened, 0 ≤ v r) (hspent : ∀ s ∈ e.spent, 0 ≤ v' s) :
    db.shares feedID since v v' ≤ db'.shares feedID since v v' := by
  refine add_le_add (sum_runs_le ht hf hdrop (fun r hr => ?_) hopened) (sum_spend_le ht hspent)
  by_cases hs : r.status = .running
  · rw [(hopen r hr hs).1]
    exact (hopen r hr hs).2
  · exact le_of_eq (hsame r hs).symm

/-- **A fair edit that drops no row of the window makes none of its totals smaller.** -/
theorem grows (hl : db.Ledger) (ht : e.Turns db db') (hf : e.Fair db)
    (hdrop : ∀ r ∈ db.runs, e.keep r = false → r.countedSince feedID since = false) :
    Grows feedID since db db' where
  tokensIn := by
    rw [totalSpendSince_eq, totalSpendSince_eq]
    exact shares_le ht hf hdrop (fun r hs => (hf.recorded r (Or.inl hs)).1)
      (fun r hr hs => ⟨(hl.unspent r hr hs).1, Nat.zero_le _⟩) (fun _ _ => Nat.zero_le _)
      fun _ _ => Nat.zero_le _
  tokensOut := by
    rw [totalSpendSince_eq, totalSpendSince_eq]
    exact shares_le ht hf hdrop (fun r hs => (hf.recorded r (Or.inl hs)).2.1)
      (fun r hr hs => ⟨(hl.unspent r hr hs).2.1, Nat.zero_le _⟩) (fun _ _ => Nat.zero_le _)
      fun _ _ => Nat.zero_le _
  costUSD := by
    rw [totalSpendSince_eq, totalSpendSince_eq]
    exact shares_le ht hf hdrop (fun r hs => (hf.recorded r (Or.inl hs)).2.2)
      (fun r hr hs => ⟨(hl.unspent r hr hs).2.2, hf.cost r hr hs⟩)
      (fun r hr => le_of_eq (hf.openedBlank r hr).2.2.symm) hf.spentCost
  runs := by
    rw [countRunsSince_eq, countRunsSince_eq]
    apply sum_runs_le ht hf hdrop
    · intro r _
      rw [(hf.identity r).2.1]
    · exact fun r _ => Nat.zero_le _

theorem ledger (hl : db.Ledger) (ht : e.Turns db db') (hf : e.Fair db) : db'.Ledger where
  runIDs := by
    have hids : ((db.runs.filter e.keep).map e.rewrite).map (·.id) =
        (db.runs.filter e.keep).map (·.id) := by
      rw [map_map]
      exact map_congr_left fun r _ => (hf.identity r).1
    have hsub : ((db.runs.filter e.keep).map (·.id)).Sublist (db.runs.map (·.id)) :=
      filter_sublist.map _
    rw [ht.runs, map_append, hids, nodup_append]
    refine ⟨hl.runIDs.sublist hsub, hf.openedIDs.1, ?_⟩
    intro i hi j hj heq
    obtain ⟨r, hr, rfl⟩ := mem_map.mp hj
    exact hf.openedIDs.2 r hr (heq ▸ hsub.subset hi)
  unspent := by
    intro r hr hs
    rw [ht.runs, mem_append] at hr
    cases hr with
    | inl hkept =>
      obtain ⟨r₀, hr₀, rfl⟩ := mem_map.mp hkept
      have hopen : r₀.status = .running := by
        by_contra hne
        exact hf.closed r₀ hne hs
      obtain ⟨h₁, h₂, h₃⟩ := hf.recorded r₀ (Or.inr hs)
      rw [h₁, h₂, h₃]
      exact hl.unspent r₀ (mem_of_mem_filter hr₀) hopen
    | inr hnew => exact hf.openedBlank r hnew

end Edit

/-! ## Closing a run -/

/-- The write closed the row of the run with this summary, and left the rest of the ledger
as it was. -/
structure Closed (db db' : DB) (runID : ℕ) (rs : RunSummary) (f : Run → Run) : Prop where
  running : db.Running runID
  runs : db'.runs = db.runs.map fun r => if r.id == runID && r.status == .running then f r else r
  sampleSpend : db'.sampleSpend = db.sampleSpend
  identity : ∀ r, (f r).id = r.id ∧ (f r).feedID = r.feedID ∧ (f r).startedAt = r.startedAt
  status : ∀ r, (f r).status ≠ .running
  summary : ∀ r, (f r).tokensIn = rs.tokensIn ∧ (f r).tokensOut = rs.tokensOut ∧
    (f r).estCostUSD = rs.costUSD

section
variable {db db' : DB} {runID : ℕ} {rs : RunSummary} {now : ℤ}

theorem closed_failRun {errorKind message : String}
    (h : failRun db runID errorKind message rs now = .ok db') : ∃ f, Closed db db' runID rs f := by
  simp only [failRun] at h
  split at h
  · cases h
  have hrun := updateRunning_eq_ok.mp ⟨db', h⟩
  cases updateRunning_ok h
  exact ⟨_, hrun, rfl, rfl, fun r => ⟨rfl, rfl, rfl⟩, fun r => by simp, fun r => ⟨rfl, rfl, rfl⟩⟩

theorem closed_skipRun {reason : String} (h : skipRun db runID reason rs now = .ok db') :
    ∃ f, Closed db db' runID rs f := by
  simp only [skipRun] at h
  split at h
  · cases h
  have hrun := updateRunning_eq_ok.mp ⟨db', h⟩
  cases updateRunning_ok h
  exact ⟨_, hrun, rfl, rfl, fun r => ⟨rfl, rfl, rfl⟩, fun r => by simp, fun r => ⟨rfl, rfl, rfl⟩⟩

theorem closed_commitRun {items : List Item} {embeddings : List (String × Embedding)}
    (h : commitRun db runID items rs embeddings now = .ok db') :
    ∃ f, Closed db db' runID rs f := by
  obtain ⟨db₁, db₂, hitems, hclose, rfl⟩ := commitRun_ok h
  obtain ⟨-, ⟨hruns, -, hspend⟩, -⟩ := commitItems_ok hitems
  have hrun : db.Running runID := by
    have hrun₁ := updateRunning_eq_ok.mp ⟨db₂, hclose⟩
    rwa [DB.Running, hruns] at hrun₁
  cases updateRunning_ok hclose
  refine ⟨fun r => { r.record rs now with status := .success, itemsAdded := items.length }, hrun,
    ?_, hspend, fun r => ⟨rfl, rfl, rfl⟩, fun r => ?_, fun r => ⟨rfl, rfl, rfl⟩⟩
  · simp [hruns]
  · simp

theorem sum_close {M : Type} [AddCommMonoid M] {feedID : ℕ} {since : ℤ} {f : Run → Run}
    {v : Run → M} {d : M} (hl : db.Ledger) (h : Closed db db' runID rs f)
    (hwindow : ∀ r ∈ db.runs, r.id = runID → r.countedSince feedID since)
    (hzero : ∀ r ∈ db.runs, r.status = .running → v r = 0) (hv : ∀ r, v (f r) = d) :
    (db'.runs.map (Run.share feedID since v)).sum =
      (db.runs.map (Run.share feedID since v)).sum + d := by
  have hcount : ∀ r, (f r).countedSince feedID since = r.countedSince feedID since := by
    intro r
    obtain ⟨-, hfeed, hstart⟩ := h.identity r
    simp [Run.countedSince, hfeed, hstart]
  obtain ⟨a, ha, hid, hstatus⟩ := h.running
  rw [h.runs, map_map]
  apply KeyedSum.sum_map_update hl.runIDs ha
  · intro r hr hne
    rw [hid] at hne
    simp [Function.comp, hne]
  · simp [Function.comp, hid, hstatus, Run.share, hcount, hwindow a ha hid, hv, hzero a ha hstatus]
end

end AnimeFeedFlux
