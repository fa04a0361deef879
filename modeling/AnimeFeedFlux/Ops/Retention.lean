import AnimeFeedFlux.Lib.Machine
import AnimeFeedFlux.Ops.Prune
import AnimeFeedFlux.Rpc.Run
import AnimeFeedFlux.Store.Ledger

/-!
# Can recorded spend be erased?

The budget gates trust two sums and a count.  This module runs every operation that writes
`runs` or `sample_spend`, in any order and with any arguments, and asks when none of the
three ever shrinks for a given window.

Samples are not the problem: their spend lives in a table of its own, which nothing deletes
from.  A run row is spend and history in one, and whoever removes it removes both.
-/

namespace AnimeFeedFlux

open Machine Ops

/-! ## The machine -/

/-- One operation on the ledger.  `elsewhere` stands for every other write: it may replace
any table but `runs` and `sample_spend`. -/
inductive LedgerOp
  | start (feedID : ℕ) (trigger : Trigger) (holder : String) (now : ℤ)
  | beat (runID : ℕ) (now : ℤ)
  | commit (runID : ℕ) (items : List Item) (rs : RunSummary)
      (embeddings : List (String × Embedding)) (now : ℤ)
  | fail (runID : ℕ) (errorKind message : String) (rs : RunSummary) (now : ℤ)
  | skip (runID : ℕ) (reason : String) (rs : RunSummary) (now : ℤ)
  | reclaim (olderThan now : ℤ)
  | put (feedID : ℕ) (payload : String) (tokensIn tokensOut : ℕ) (costUSD : ℚ) (ttl now : ℤ)
  | discard (sampleID : ℕ)
  | promote (sampleID : ℕ) (item : Item) (clock now : ℤ)
  | pruneSamples (now : ℤ)
  | prune (opts : PruneOptions) (reached : ℕ)
  | delete (runID : ℕ)
  | elsewhere (db : DB)

/-- One step: the operation's effect, or nothing when it fails. -/
def maintain (db : DB) : LedgerOp → DB
  | .start feedID trigger holder now =>
    ((startRun db feedID trigger holder now).toOption.map (·.1)).getD db
  | .beat runID now => (heartbeat db runID now).toOption.getD db
  | .commit runID items rs embeddings now =>
    (commitRun db runID items rs embeddings now).toOption.getD db
  | .fail runID errorKind message rs now =>
    (failRun db runID errorKind message rs now).toOption.getD db
  | .skip runID reason rs now => (skipRun db runID reason rs now).toOption.getD db
  | .reclaim olderThan now => reclaimStaleRuns db olderThan now
  | .put feedID payload tokensIn tokensOut costUSD ttl now =>
    ((putSample db feedID payload tokensIn tokensOut costUSD ttl now).toOption.map (·.1)).getD db
  | .discard sampleID => (discardSample db sampleID).toOption.getD db
  | .promote sampleID item clock now => (promoteSample db sampleID item clock now).toOption.getD db
  | .pruneSamples now => AnimeFeedFlux.pruneExpiredSamples db now
  | .prune opts reached => (Ops.prune db opts reached).1
  | .delete runID => (deleteRun db runID).1
  | .elsewhere db' => { db' with runs := db.runs, sampleSpend := db.sampleSpend }

/-- What a step must meet to take nothing out of the window.

* What is recorded must not have a negative cost.
* A nightly pass must not have a cutoff later than the start of the window, as texts.
* `RunServer.Delete` must not be given a run that the window counts. -/
def Spares (feedID : ℕ) (since : ℤ) (db : DB) : LedgerOp → Prop
  | .commit _ _ rs _ _ => 0 ≤ rs.costUSD
  | .fail _ _ _ rs _ => 0 ≤ rs.costUSD
  | .skip _ _ rs _ => 0 ≤ rs.costUSD
  | .put _ _ _ _ costUSD _ _ => 0 ≤ costUSD
  | .prune opts _ =>
    0 < opts.runRetention → formatTime (opts.now - opts.runRetention) ≤ formatTime since
  | .delete runID => ∀ r ∈ db.runs, r.id = runID → r.countedSince feedID since = false
  | _ => True

instance (feedID : ℕ) (since : ℤ) (db : DB) (op : LedgerOp) :
    Decidable (Spares feedID since db op) := by
  cases op <;> unfold Spares <;> infer_instance

/-! ## Every operation is a fair edit -/

section
variable {db db' : DB}

/-- What an operation does to the ledger: an edit that is fair and spares the window. -/
def Edits (feedID : ℕ) (since : ℤ) (db db' : DB) : Prop :=
  ∃ e : Edit, e.Turns db db' ∧ e.Fair db ∧
    ∀ r ∈ db.runs, e.keep r = false → r.countedSince feedID since = false

variable {feedID : ℕ} {since : ℤ}

theorem edits_of_added {opened : List Run} {spent : List SampleSpend}
    (hruns : db'.runs = db.runs ++ opened) (hspend : db'.sampleSpend = db.sampleSpend ++ spent)
    (hids : (opened.map (·.id)).Nodup ∧ ∀ r ∈ opened, r.id ∉ db.runs.map (·.id))
    (hblank : ∀ r ∈ opened, r.tokensIn = 0 ∧ r.tokensOut = 0 ∧ r.estCostUSD = 0)
    (hcost : ∀ s ∈ spent, 0 ≤ s.costUSD) (hl : db.Ledger) : Edits feedID since db db' := by
  refine ⟨{ opened, spent }, ⟨by simp [hruns], hspend⟩, ?_, by simp⟩
  constructor
  · exact fun r => ⟨rfl, rfl, rfl⟩
  · exact fun r _ => ⟨rfl, rfl, rfl⟩
  · exact fun r hs => hs
  · exact fun r hr hs => le_of_eq (hl.unspent r hr hs).2.2.symm
  · exact hids
  · exact hblank
  · exact hcost

theorem edits_of_eq (hl : db.Ledger) (hruns : db'.runs = db.runs)
    (hspend : db'.sampleSpend = db.sampleSpend) : Edits feedID since db db' :=
  edits_of_added (show db'.runs = db.runs ++ [] by simp [hruns])
    (show db'.sampleSpend = db.sampleSpend ++ [] by simp [hspend]) (by simp) (by simp) (by simp) hl

/-- A write that may replace what an open row has recorded, and closes it then. -/
theorem edits_of_rewritten {g : Run → Run} (hruns : db'.runs = db.runs.map g)
    (hspend : db'.sampleSpend = db.sampleSpend)
    (hid : ∀ r, (g r).id = r.id ∧ (g r).feedID = r.feedID ∧ (g r).startedAt = r.startedAt)
    (hsame : ∀ r, r.status ≠ .running ∨ (g r).status = .running →
      (g r).tokensIn = r.tokensIn ∧ (g r).tokensOut = r.tokensOut ∧ (g r).estCostUSD = r.estCostUSD)
    (hclosed : ∀ r, r.status ≠ .running → (g r).status ≠ .running)
    (hcost : ∀ r ∈ db.runs, r.status = .running → 0 ≤ (g r).estCostUSD) :
    Edits feedID since db db' := by
  refine ⟨{ rewrite := g }, ⟨by simp [hruns], by simp [hspend]⟩, ?_, by simp⟩
  exact ⟨hid, hsame, hclosed, hcost, by simp, by simp, by simp⟩

theorem edits_of_closed {runID : ℕ} {rs : RunSummary} {f : Run → Run} (hl : db.Ledger)
    (h : Closed db db' runID rs f) (hcost : 0 ≤ rs.costUSD) : Edits feedID since db db' := by
  apply edits_of_rewritten h.runs h.sampleSpend
  · intro r
    split
    · exact h.identity r
    · exact ⟨rfl, rfl, rfl⟩
  · intro r hr
    split
    · rename_i hrow
      simp only [Bool.and_eq_true, beq_iff_eq] at hrow
      simp only [hrow, Bool.and_self, BEq.rfl, if_true] at hr
      exact absurd hr (by simp [h.status r])
    · exact ⟨rfl, rfl, rfl⟩
  · intro r hr
    split
    · exact h.status r
    · exact hr
  · intro r hr hs
    split
    · rw [(h.summary r).2.2]
      exact hcost
    · exact le_of_eq (hl.unspent r hr hs).2.2.symm

theorem edits_deleteRuns {p : Run → Bool} (hl : db.Ledger)
    (hp : ∀ r ∈ db.runs, p r → r.countedSince feedID since = false) :
    Edits feedID since db (deleteRuns db p) := by
  refine ⟨{ keep := fun r => !p r }, ⟨by simp [deleteRuns], by simp [deleteRuns]⟩, ?_, ?_⟩
  · constructor
    · exact fun r => ⟨rfl, rfl, rfl⟩
    · exact fun r _ => ⟨rfl, rfl, rfl⟩
    · exact fun r hs => hs
    · exact fun r hr hs => le_of_eq (hl.unspent r hr hs).2.2.symm
    · simp
    · simp
    · simp
  · intro r hr hk
    exact hp r hr (by simpa using hk)
end

/-! ## The operations -/

section
variable {db : DB} {feedID : ℕ} {since : ℤ}

theorem edits_getD {x : Except StoreError DB} (hl : db.Ledger)
    (h : ∀ db', x = .ok db' → Edits feedID since db db') :
    Edits feedID since db (x.toOption.getD db) := by
  cases x with
  | error e => exact edits_of_eq hl rfl rfl
  | ok db' => exact h db' rfl

theorem edits_startRun (hl : db.Ledger) (id : ℕ) (trigger : Trigger) (holder : String) (now : ℤ) :
    Edits feedID since db (maintain db (.start id trigger holder now)) := by
  cases h : startRun db id trigger holder now with
  | error e =>
    simp only [maintain, h]
    exact edits_of_eq hl rfl rfl
  | ok r =>
    have hfresh : nextID (db.runs.map (·.id)) ∉ db.runs.map (·.id) := by
      intro hmem
      exact absurd (lt_nextID hmem) (lt_irrefl _)
    simp only [maintain, h, Except.toOption, Option.map_some, Option.getD_some, (startRun_ok h).2]
    refine edits_of_added rfl (List.append_nil _).symm ?_ ?_ ?_ hl
    · simpa using hfresh
    · simp
    · simp

theorem edits_heartbeat (hl : db.Ledger) (runID : ℕ) (now : ℤ) :
    Edits feedID since db (maintain db (.beat runID now)) := by
  apply edits_getD hl
  intro db' h
  rw [updateRunning_ok h]
  refine edits_of_rewritten rfl rfl ?_ ?_ ?_ ?_
  · intro r
    split <;> exact ⟨rfl, rfl, rfl⟩
  · intro r _
    split <;> exact ⟨rfl, rfl, rfl⟩
  · intro r hs
    split <;> exact hs
  · intro r hr hs
    have hzero := (hl.unspent r hr hs).2.2
    split <;> exact le_of_eq hzero.symm

theorem edits_reclaim (hl : db.Ledger) (olderThan now : ℤ) :
    Edits feedID since db (maintain db (.reclaim olderThan now)) := by
  refine edits_of_rewritten rfl rfl ?_ ?_ ?_ ?_
  · intro r
    split <;> exact ⟨rfl, rfl, rfl⟩
  · intro r _
    split <;> exact ⟨rfl, rfl, rfl⟩
  · intro r hs
    split
    · dsimp only
      split <;> simp
    · exact hs
  · intro r hr hs
    have hzero := (hl.unspent r hr hs).2.2
    split <;> exact le_of_eq hzero.symm

theorem edits_putSample (hl : db.Ledger) {id tokensIn tokensOut : ℕ} {payload : String} {cost : ℚ}
    {ttl now : ℤ} (hcost : 0 ≤ cost) :
    Edits feedID since db (maintain db (.put id payload tokensIn tokensOut cost ttl now)) := by
  simp only [maintain, putSample]
  split
  · refine edits_of_added (List.append_nil _).symm rfl ?_ ?_ ?_ hl
    · simp
    · simp
    · simpa using hcost
  · exact edits_of_eq hl rfl rfl

theorem discardSample_frame {db' : DB} {id : ℕ} (h : discardSample db id = .ok db') :
    db'.runs = db.runs ∧ db'.sampleSpend = db.sampleSpend := by
  simp only [discardSample] at h
  split at h
  · cases h
    exact ⟨rfl, rfl⟩
  · cases h

theorem promoteSample_frame {db' : DB} {id : ℕ} {item : Item} {clock now : ℤ}
    (h : promoteSample db id item clock now = .ok db') :
    db'.runs = db.runs ∧ db'.sampleSpend = db.sampleSpend := by
  simp only [promoteSample] at h
  split at h
  · cases h
  split at h
  · cases h
  · obtain ⟨k, -, hok⟩ := retryNextSecond_ok h
    simp only [promoteOnce] at hok
    split at hok
    · cases hok
    rename_i db₁ hins
    obtain ⟨rfl, -⟩ := insertItemRow_ok hins
    have hframe := discardSample_frame hok
    exact hframe

theorem edits_prune (hl : db.Ledger) {opts : PruneOptions} (reached : ℕ)
    (hc : 0 < opts.runRetention → formatTime (opts.now - opts.runRetention) ≤ formatTime since) :
    Edits feedID since db (Ops.prune db opts reached).1 := by
  simp only [Ops.prune]
  split
  · exact edits_of_eq hl rfl rfl
  split
  · exact edits_of_eq hl rfl rfl
  · -- The first two stages leave both tables alone.
    generalize hstage : (if 0 < opts.embeddingWindow then
      pruneEmbeddings (Ops.pruneExpiredSamples db opts.now) opts.embeddingWindow
      else Ops.pruneExpiredSamples db opts.now) = db₂
    have hframe : db₂.runs = db.runs ∧ db₂.sampleSpend = db.sampleSpend := by
      rw [← hstage]
      split <;> exact ⟨rfl, rfl⟩
    have hl₂ : db₂.Ledger := by
      constructor
      · rw [hframe.1]
        exact hl.runIDs
      · rw [hframe.1]
        exact hl.unspent
    split
    · exact edits_of_eq hl hframe.1 hframe.2
    split
    · rename_i hret
      have hspare : ∀ r ∈ db₂.runs, expiredRun (opts.now - opts.runRetention) r = true →
          r.countedSince feedID since = false := by
        intro r _ hexp
        simp only [expiredRun, Bool.and_eq_true, decide_eq_true_eq] at hexp
        have hlt := lt_of_lt_of_le hexp.1 (hc hret)
        simp [Run.countedSince, not_le.mpr hlt]
      obtain ⟨e, ht, hf, hdrop⟩ := edits_deleteRuns hl₂ hspare
      refine ⟨e, ⟨?_, ?_⟩, ?_, ?_⟩
      · rw [← hframe.1]
        exact ht.runs
      · rw [← hframe.2]
        exact ht.sampleSpend
      · exact ⟨hf.identity, hf.recorded, hf.closed, hframe.1 ▸ hf.cost,
          hframe.1 ▸ hf.openedIDs, hf.openedBlank, hf.spentCost⟩
      · rw [← hframe.1]
        exact hdrop
    · exact edits_of_eq hl hframe.1 hframe.2

/-- **Every operation that spares the window is a fair edit that drops no row of it.** -/
theorem edits_maintain (hl : db.Ledger) (op : LedgerOp) (hs : Spares feedID since db op) :
    Edits feedID since db (maintain db op) := by
  cases op with
  | start id trigger holder now => exact edits_startRun hl id trigger holder now
  | beat runID now => exact edits_heartbeat hl runID now
  | commit runID items rs embeddings now =>
    apply edits_getD hl
    intro db' h
    obtain ⟨f, hclosed⟩ := closed_commitRun h
    exact edits_of_closed hl hclosed hs
  | fail runID errorKind message rs now =>
    apply edits_getD hl
    intro db' h
    obtain ⟨f, hclosed⟩ := closed_failRun h
    exact edits_of_closed hl hclosed hs
  | skip runID reason rs now =>
    apply edits_getD hl
    intro db' h
    obtain ⟨f, hclosed⟩ := closed_skipRun h
    exact edits_of_closed hl hclosed hs
  | reclaim olderThan now => exact edits_reclaim hl olderThan now
  | put id payload tokensIn tokensOut cost ttl now => exact edits_putSample hl hs
  | discard id =>
    apply edits_getD hl
    intro db' h
    exact edits_of_eq hl (discardSample_frame h).1 (discardSample_frame h).2
  | promote id item clock now =>
    apply edits_getD hl
    intro db' h
    exact edits_of_eq hl (promoteSample_frame h).1 (promoteSample_frame h).2
  | pruneSamples now => exact edits_of_eq hl rfl rfl
  | prune opts reached => exact edits_prune hl reached hs
  | delete runID =>
    simp only [maintain, deleteRun]
    split
    · apply edits_deleteRuns hl
      intro r hr hid
      exact hs r hr (by simpa using hid)
    · exact edits_of_eq hl rfl rfl
  | elsewhere db' => exact edits_of_eq hl rfl rfl
end

/-! ## Whole runs -/

/-- **Between any two points of a run whose steps all spare the window, no total of the
window shrinks, and neither does the count of its runs.** -/
theorem grows_maintain (feedID : ℕ) (since : ℤ) (db : DB) (hl : db.Ledger)
    (before after : List LedgerOp)
    (hm : Meets maintain (Spares feedID since) db (before ++ after)) :
    Grows feedID since (exec maintain db before) (exec maintain db (before ++ after)) := by
  refine related_of_meets DB.Ledger (fun db _ => Grows.refl feedID since db) Grows.trans ?_
    before after db hl hm
  intro db op hl hs
  obtain ⟨e, ht, hf, hdrop⟩ := edits_maintain hl op hs
  exact ⟨e.ledger hl ht hf, e.grows hl ht hf hdrop⟩

/-! ## Windows that start with a second -/

/-- A nightly pass spares every window that starts inside the retention period with a whole
second, as those of the gates do. -/
theorem spares_prune {feedID : ℕ} {since : ℤ} {db : DB} {opts : PruneOptions} (reached : ℕ)
    (hret : opts.now - opts.runRetention ≤ since) (hwhole : Time.truncate since = since)
    (hcut : FourDigitYear (opts.now - opts.runRetention)) (hyear : FourDigitYear since) :
    Spares feedID since db (.prune opts reached) := by
  intro _
  by_cases hsec : Time.seconds (opts.now - opts.runRetention) = Time.seconds since
  · have hle : since ≤ opts.now - opts.runRetention := by
      rw [← hwhole, ← Time.truncate_inj.mpr hsec]
      exact Time.truncate_le _
    rw [le_antisymm hret hle]
  · have hlt := lt_of_le_of_ne (Time.seconds_mono hret) hsec
    exact le_of_lt (formatTime_lt hlt hcut hyear)

/-! ## Deleting a run of today -/

/-- Noon UTC on 1 March 2026. -/
def marchNoon : ℤ := (63907920000 + 43200) * Time.second

/-- A store with one feed and no history. -/
def freshStore : DB where
  feeds := [{ id := 1, slug := "trivia", title := "Trivia", kind := .generative,
              createdAt := marchNoon, updatedAt := marchNoon }]

theorem freshStore_ledger : freshStore.Ledger := by
  constructor
  · simp [freshStore]
  · simp [freshStore]

/-- A run that publishes nothing and spends 900 tokens. -/
def spendingRun : List LedgerOp :=
  [.start 1 .cron "worker" marchNoon,
   .commit 1 [] { tokensIn := 600, tokensOut := 300, costUSD := 1 / 100 } []
     (marchNoon + Time.minute)]

/-- A nightly pass half a year later and a sample leave what the run spent in the window. -/
theorem grows_maintain_nightly : Grows 1 marchNoon (exec maintain freshStore spendingRun)
      (exec maintain freshStore (spendingRun ++
        [.prune { now := marchNoon + defaultRunRetention, runRetention := defaultRunRetention } 3,
         .put 1 "payload" 40 80 0 Time.hour (marchNoon + defaultRunRetention)])) := by
  apply grows_maintain 1 marchNoon freshStore freshStore_ledger
  refine ⟨trivial, by decide +kernel, ?_, by decide +kernel, trivial⟩
  apply spares_prune <;> decide

/-- **Deleting the run takes what it spent out of the ledger, and its count.** -/
theorem not_grows_deleteRun : freshStore.Ledger ∧
      ¬Grows 1 marchNoon (exec maintain freshStore spendingRun)
        (exec maintain freshStore (spendingRun ++ [.delete 1])) := by
  refine ⟨freshStore_ledger, ?_⟩
  intro h
  have hcount := h.runs
  revert hcount
  decide +kernel

end AnimeFeedFlux
