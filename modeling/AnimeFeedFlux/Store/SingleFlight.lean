import AnimeFeedFlux.Store.RunMachine

/-!
# One run at a time

`StartRun` is to refuse while the feed has a run whose heartbeat is fresh.  It looks at one
running row, the one that started last.  A row whose heartbeat has gone stale is passed over,
so a feed can have several running rows, and a holder that was only slow may go on renewing an
older one.

Two running rows of a feed are apart: the heartbeat of one was stale when the other started.
That is kept as long as a run that was passed over is not renewed.
-/

namespace AnimeFeedFlux

open Machine List

/-! ## The property and the condition -/

/-- The heartbeat of the row is younger than the limit. -/
def Run.Fresh (r : Run) (now : ℤ) : Prop := ∃ hb ∈ r.heartbeatAt, now - hb < runLockStaleAfter
deriving Decidable

/-- Whenever `StartRun` succeeds, no running row of the feed is fresh. -/
def SingleFlight (s : RunStore) (acts : List Attempt) : Prop :=
  ∀ before a after, acts = before ++ a :: after →
    ∀ feedID trigger holder, a.op = .start feedID trigger holder →
      (a.call (exec RunStore.step s before).db).2 = .ok () →
      ∀ r ∈ (exec RunStore.step s before).db.runs, r.feedID = feedID → r.status = .running →
        ¬r.Fresh a.now

/-- The clock does not go back, and shows an instant after the zero Time, in a four-digit
year. -/
structure Ticks (s : RunStore) (a : Attempt) : Prop where
  forward : s.clock ≤ a.now
  positive : 0 < a.now
  year : FourDigitYear a.now

/-- A heartbeat renews the run that started last among the running ones of its feed. -/
def Renews (s : RunStore) (a : Attempt) : Prop :=
  match a.op with
  | .beat runID => ∀ r ∈ s.db.runs, r.id = runID → r.status = .running →
      ∀ r' ∈ s.db.runs, r'.feedID = r.feedID → r'.status = .running → r'.startedAt ≤ r.startedAt
  | _ => True

instance (s : RunStore) (a : Attempt) : Decidable (Ticks s a) :=
  decidable_of_iff (_ ∧ _ ∧ _)
    ⟨fun h => ⟨h.1, h.2.1, h.2.2⟩, fun h => ⟨h.forward, h.positive, h.year⟩⟩

instance (s : RunStore) : (a : Attempt) → Decidable (Renews s a)
  | ⟨.beat _, _, _⟩ => inferInstanceAs (Decidable (∀ r ∈ s.db.runs, _))
  | ⟨.start .., _, _⟩ => isTrue trivial
  | ⟨.commit .., _, _⟩ => isTrue trivial
  | ⟨.fail .., _, _⟩ => isTrue trivial
  | ⟨.skip .., _, _⟩ => isTrue trivial
  | ⟨.reclaim .., _, _⟩ => isTrue trivial

/-! ## The row that `StartRun` looks at -/

variable {rs : List Run} {m : Run} {g : Run → Run}

theorem latestStarted_eq_none : latestStarted rs = none ↔ rs = [] := by
  cases rs with
  | nil => simp [latestStarted]
  | cons r rs => cases h : latestStarted rs <;> simp [latestStarted, h]

theorem latestStarted_spec (h : latestStarted rs = some m) :
    m ∈ rs ∧ ∀ r ∈ rs, formatTime r.startedAt ≤ formatTime m.startedAt := by
  induction rs generalizing m with
  | nil => cases h
  | cons r rs ih =>
    cases hrs : latestStarted rs with
    | none =>
      rw [latestStarted_eq_none] at hrs
      subst hrs
      simp only [latestStarted, Option.some.injEq] at h
      simp [h]
    | some m' =>
      obtain ⟨hmem, hmax⟩ := ih hrs
      simp only [latestStarted, hrs, Option.some.injEq] at h
      by_cases hlt : formatTime r.startedAt < formatTime m'.startedAt
      · rw [if_pos hlt] at h
        subst h
        exact ⟨mem_cons_of_mem _ hmem, forall_mem_cons.2 ⟨hlt.le, hmax⟩⟩
      rw [if_neg hlt] at h
      subst h
      refine ⟨mem_cons_self .., forall_mem_cons.2 ⟨le_refl _, fun x hx => ?_⟩⟩
      exact (hmax x hx).trans (not_lt.1 hlt)

variable {feedID : ℕ} {trigger : Trigger} {holder : String} {now : ℤ} {res : DB × ℕ}

theorem startRun_latest {db : DB} (h : startRun db feedID trigger holder now = .ok res) {hb : ℤ}
    (hm : latestStarted (db.runs.filter fun r => r.feedID == feedID && r.status == .running) =
      some m) (hhb : m.heartbeatAt = some hb) (hpos : 0 < hb) : runLockStaleAfter ≤ now - hb := by
  simp only [startRun, hm, hhb] at h
  split at h
  · cases h
  split at h
  · cases h
  · rename_i hnot
    have hzero : Time.isZero hb = false := by
      rw [Time.isZero, beq_eq_false_iff_ne]
      omega
    simpa [hzero] using hnot

/-! ## The invariant -/

/-- The last heartbeat of a row. -/
def Run.beat (r : Run) : ℤ := r.heartbeatAt.getD 0

/-- One of the rows was stale when the other started. -/
def Run.Apart (r r' : Run) : Prop :=
  r.beat + runLockStaleAfter ≤ r'.startedAt ∨ r'.beat + runLockStaleAfter ≤ r.startedAt

/-- What holds of a running row. -/
structure Run.Kept (r : Run) (clock : ℤ) : Prop where
  heartbeat : r.heartbeatAt = some r.beat
  started : 0 < r.startedAt
  renewed : r.startedAt ≤ r.beat
  past : r.beat ≤ clock
  year : FourDigitYear r.startedAt

/-- Running rows of one feed are apart. -/
structure Flight (s : RunStore) : Prop where
  ids : (s.db.runs.map (·.id)).Nodup
  kept : ∀ r ∈ s.db.runs, r.status = .running → r.Kept s.clock
  apart : ∀ r ∈ s.db.runs, ∀ r' ∈ s.db.runs, r.id ≠ r'.id → r.feedID = r'.feedID →
    r.status = .running → r'.status = .running → r.Apart r'

theorem runLockStaleAfter_eq : runLockStaleAfter = 180 * Time.second := rfl

variable {s : RunStore}

/-- **A run that starts finds no fresh one.** -/
theorem Flight.stale (h : Flight s) (hclock : s.clock ≤ now)
    (hstart : startRun s.db feedID trigger holder now = .ok res) {r : Run} (hr : r ∈ s.db.runs)
    (hfeed : r.feedID = feedID) (hrunning : r.status = .running) :
    r.beat + runLockStaleAfter ≤ now := by
  have hmem : r ∈ s.db.runs.filter fun r => r.feedID == feedID && r.status == .running := by
    simp [hr, hfeed, hrunning]
  cases hlatest : latestStarted
      (s.db.runs.filter fun r => r.feedID == feedID && r.status == .running) with
  | none =>
    rw [latestStarted_eq_none] at hlatest
    rw [hlatest] at hmem
    cases hmem
  | some m =>
    obtain ⟨hm, hmax⟩ := latestStarted_spec hlatest
    simp only [mem_filter, Bool.and_eq_true, beq_iff_eq] at hm
    have hkept := h.kept m hm.1 hm.2.2
    have hm0 := hkept.renewed
    have hm1 := hkept.started
    have hstale := startRun_latest hstart hlatest hkept.heartbeat (by omega)
    by_cases hid : r.id = m.id
    · have : r = m := inj_on_of_nodup_map h.ids hr hm.1 hid
      subst this
      omega
    rcases h.apart r hr m hm.1 hid (hfeed.trans hm.2.1.symm) hrunning hm.2.2 with hap | hap
    · have := hkept.past
      omega
    · -- Then `r` started after `m`, by minutes, and would have been looked at.
      have hlater : Time.seconds m.startedAt < Time.seconds r.startedAt := by
        simp only [runLockStaleAfter_eq, Time.seconds, Time.second] at hap ⊢
        omega
      have htext := formatTime_lt hlater hkept.year (h.kept r hr hrunning).year
      exact absurd (hmax r hmem) (not_le.2 htext)

/-! ## Steps -/

theorem Flight.tick (h : Flight s) (hclock : s.clock ≤ now) : Flight ⟨s.db, now⟩ := by
  refine ⟨h.ids, fun r hr hrunning => ?_, h.apart⟩
  have hkept := h.kept r hr hrunning
  exact ⟨hkept.heartbeat, hkept.started, hkept.renewed, hkept.past.trans hclock, hkept.year⟩

theorem Flight.start (h : Flight s) (hclock : s.clock ≤ now) (hpos : 0 < now)
    (hyear : FourDigitYear now) (hstart : startRun s.db feedID trigger holder now = .ok res) :
    Flight ⟨res.1, now⟩ := by
  have hids := nodup_startRun h.ids hstart
  have hstale := fun r => h.stale hclock hstart (r := r)
  obtain ⟨-, hdb⟩ := startRun_ok hstart
  rw [hdb] at hids ⊢
  refine ⟨hids, ?_, ?_⟩
  · intro r hr hrunning
    rcases mem_append.1 hr with hr | hr
    · exact (h.tick hclock).kept r hr hrunning
    rw [mem_singleton] at hr
    subst hr
    exact ⟨rfl, hpos, le_refl _, le_refl _, hyear⟩
  · intro r hr r' hr' hid hfeed hrunning hrunning'
    rcases mem_append.1 hr with hr | hr <;> rcases mem_append.1 hr' with hr' | hr'
    · exact h.apart r hr r' hr' hid hfeed hrunning hrunning'
    · rw [mem_singleton] at hr'
      subst hr'
      exact .inl (hstale r hr hfeed hrunning)
    · rw [mem_singleton] at hr
      subst hr
      exact .inr (hstale r' hr' hfeed.symm hrunning')
    · rw [mem_singleton] at hr hr'
      exact absurd (by rw [hr, hr']) hid

variable {db' : DB}

theorem Flight.rewrite (h : Flight s) (hrw : RewritesRuns s.db db' g)
    (hkept : ∀ r ∈ s.db.runs, (g r).status = .running → (g r).Kept now)
    (hapart : ∀ r ∈ s.db.runs, ∀ r' ∈ s.db.runs, r.id ≠ r'.id → r.feedID = r'.feedID →
      (g r).status = .running → (g r').status = .running → (g r).Apart (g r')) :
    Flight ⟨db', now⟩ := by
  refine ⟨?_, ?_, ?_⟩
  · rw [hrw.ids]
    exact h.ids
  · intro r hr hrunning
    rw [hrw.runs] at hr
    obtain ⟨x, hx, rfl⟩ := mem_map.1 hr
    exact hkept x hx hrunning
  · intro r hr r' hr' hid hfeed hrunning hrunning'
    rw [hrw.runs] at hr hr'
    obtain ⟨x, hx, rfl⟩ := mem_map.1 hr
    obtain ⟨x', hx', rfl⟩ := mem_map.1 hr'
    rw [hrw.id, hrw.id] at hid
    rw [hrw.feed, hrw.feed] at hfeed
    exact hapart x hx x' hx' hid hfeed hrunning hrunning'

theorem Flight.renew (h : Flight s) {runID : ℕ} (hclock : s.clock ≤ now)
    (hrw : RewritesRuns s.db db' (onRunning runID fun r => { r with heartbeatAt := some now }))
    (hlast : ∀ r ∈ s.db.runs, r.id = runID → r.status = .running → ∀ r' ∈ s.db.runs, r'.feedID =
      r.feedID → r'.status = .running → r'.startedAt ≤ r.startedAt) :
    Flight ⟨db', now⟩ := by
  have hcase := fun r => @onRunning_eq runID (fun r => { r with heartbeatAt := some now }) r
  have hwas : ∀ r, (onRunning runID (fun r => { r with heartbeatAt := some now }) r).status =
      .running → r.status = .running := by
    intro r hr
    rcases hcase r with heq | ⟨-, -, hrunning⟩
    · rw [heq] at hr
      exact hr
    · exact hrunning
  -- A pair of which one is renewed.
  have hpair : ∀ r ∈ s.db.runs, ∀ r' ∈ s.db.runs, r.id ≠ r'.id → r.feedID = r'.feedID →
      r.id = runID → r.status = .running → r'.status = .running →
      r'.beat + runLockStaleAfter ≤ r.startedAt := by
    intro r hr r' hr' hid hfeed hrun hrunning hrunning'
    have hle := hlast r hr hrun hrunning r' hr' hfeed.symm hrunning'
    rcases h.apart r hr r' hr' hid hfeed hrunning hrunning' with hap | hap
    · have := (h.kept r hr hrunning).renewed
      rw [runLockStaleAfter_eq] at hap
      simp only [Time.second] at hap
      omega
    · exact hap
  refine h.rewrite hrw ?_ ?_
  · intro r hr hrunning
    have hkept := (h.tick hclock).kept r hr (hwas r hrunning)
    rcases hcase r with heq | ⟨heq, -, -⟩
    · rw [heq]
      exact hkept
    · rw [heq]
      exact ⟨rfl, hkept.started, hkept.renewed.trans hkept.past, le_refl _, hkept.year⟩
  · intro r hr r' hr' hid hfeed hrunning hrunning'
    have hr₀ := hwas r hrunning
    have hr₀' := hwas r' hrunning'
    rcases hcase r with heq | ⟨heq, hrun, -⟩ <;> rcases hcase r' with heq' | ⟨heq', hrun', -⟩ <;>
      rw [heq, heq']
    · exact h.apart r hr r' hr' hid hfeed hr₀ hr₀'
    · exact .inl (hpair r' hr' r hr hid.symm hfeed.symm hrun' hr₀' hr₀)
    · exact .inr (hpair r hr r' hr' hid hfeed hrun hr₀ hr₀')
    · exact absurd (hrun.trans hrun'.symm) hid

theorem Flight.close (h : Flight s) (hclock : s.clock ≤ now) (hrw : RewritesRuns s.db db' g)
    (hstays : ∀ r, (g r).status = .running → g r = r) : Flight ⟨db', now⟩ := by
  refine h.rewrite hrw ?_ ?_
  · intro r hr hrunning
    have hr₀ := hstays r hrunning
    rw [hr₀] at hrunning ⊢
    exact (h.tick hclock).kept r hr hrunning
  · intro r hr r' hr' hid hfeed hrunning hrunning'
    have hr₀ := hstays r hrunning
    have hr₀' := hstays r' hrunning'
    rw [hr₀] at hrunning ⊢
    rw [hr₀'] at hrunning' ⊢
    exact h.apart r hr r' hr' hid hfeed hrunning hrunning'

/-- **An attempt keeps running rows apart.** -/
theorem Flight.step (h : Flight s) (a : Attempt) (hticks : Ticks s a) (hrenews : Renews s a) :
    Flight (s.step a) := by
  rw [RunStore.step]
  rcases a.call_cases h.ids with ⟨e, hcall⟩ | ⟨db', hrun, hcall⟩ <;> rw [hcall]
  · exact h.tick hticks.forward
  rcases RunOp.run_ok hrun with ⟨feedID, trigger, holder, res, -, hstart, rfl⟩ |
    ⟨runID, hop, hbeat⟩ | ⟨runID, items, rs, embeddings, -, hcommit⟩ | ⟨g, hsettles⟩
  · exact h.start hticks.forward hticks.positive hticks.year hstart
  · rw [Renews, hop] at hrenews
    exact h.renew hticks.forward (rewrites_updateRunning hbeat fun _ => ⟨rfl, rfl, rfl⟩) hrenews
  · refine h.close hticks.forward (rewrites_commitRun hcommit) fun r hr => ?_
    rcases @onRunning_eq runID (fun r =>
      { r.record rs a.now with status := .success, itemsAdded := items.length }) r with
      heq | ⟨heq, -⟩
    · exact heq
    rw [heq] at hr
    cases hr
  · exact h.close hticks.forward hsettles.toRewritesRuns hsettles.stays

/-! ## Whole histories -/

/-- **No run starts beside a fresh one**, in every history whose heartbeats renew the last run
to start. -/
theorem singleFlight_of_renews (db : DB) (clock : ℤ) (hempty : db.runs = []) (acts : List Attempt)
    (hacts : Meets RunStore.step (fun s a => Ticks s a ∧ Renews s a) ⟨db, clock⟩ acts) :
    SingleFlight ⟨db, clock⟩ acts := by
  have hstart : Flight ⟨db, clock⟩ := by
    refine ⟨?_, ?_, ?_⟩ <;> simp [hempty]
  rintro before a after rfl feedID trigger holder hop hok r hr hfeed hrunning ⟨hb, hhb, hfresh⟩
  obtain ⟨hbefore, hrest⟩ := (meets_append _).1 hacts
  have halways : Always RunStore.step Flight ⟨db, clock⟩ before :=
    always_of_meets (fun s a hs hC => Flight.step hs a hC.1 hC.2) before _ hstart hbefore
  have hflight := halways.last
  rcases a.call_cases hflight.ids with ⟨e, hcall⟩ | ⟨db', hrun, -⟩
  · rw [hcall] at hok
    cases hok
  rw [hop] at hrun
  obtain ⟨res, hres, -⟩ := RunOp.run_start hrun
  have hstale := hflight.stale hrest.1.1.forward hres hr hfeed hrunning
  have hbeat := (hflight.kept r hr hrunning).heartbeat
  rw [Option.mem_def, hbeat, Option.some.injEq] at hhb
  omega

/-- The holder of a run renews it, the given minutes into March 2026. -/
def holderBeats (runID : ℕ) (minutes : ℤ) : Attempt :=
  ⟨.beat runID, march2026 + minutes * Time.minute, none⟩

/-- The first holder dies; the second, which passed it over, renews its run and fails it. -/
def passedOver : List Attempt :=
  [workerStarts 0, workerStarts 4, holderBeats 2 6, workerStarts 8,
   ⟨.fail 2 "llm" "no answer" {}, march2026 + 9 * Time.minute, none⟩, workerStarts 10]

theorem singleFlight_of_renews_passedOver :
    Meets RunStore.step (fun s a => Ticks s a ∧ Renews s a) ⟨oneFeedDB, 0⟩ passedOver ∧
      SingleFlight ⟨oneFeedDB, 0⟩ passedOver := by
  have hmeets :
      Meets RunStore.step (fun s a => Ticks s a ∧ Renews s a) ⟨oneFeedDB, 0⟩ passedOver := by
    decide +kernel
  exact ⟨hmeets, singleFlight_of_renews oneFeedDB 0 rfl passedOver hmeets⟩

/-- The first holder was only slow: it renews its run after the second's has gone stale. -/
theorem not_singleFlight_slowHolder : ¬SingleFlight ⟨oneFeedDB, 0⟩
      [workerStarts 0, workerStarts 4, holderBeats 1 8, workerStarts 8] := by
  intro h
  have hstarts : ((workerStarts 8).call (exec RunStore.step ⟨oneFeedDB, 0⟩
      [workerStarts 0, workerStarts 4, holderBeats 1 8]).db).2.isOk = true := by
    decide +kernel
  have hfresh : ∃ r ∈ (exec RunStore.step ⟨oneFeedDB, 0⟩
      [workerStarts 0, workerStarts 4, holderBeats 1 8]).db.runs, r.feedID = 1 ∧
      r.status = .running ∧ r.Fresh (workerStarts 8).now := by
    decide +kernel
  obtain ⟨r, hr, hfeed, hrunning, hbeat⟩ := hfresh
  refine h [workerStarts 0, workerStarts 4, holderBeats 1 8] (workerStarts 8) [] rfl 1 .cron
    "worker" rfl ?_ r hr hfeed hrunning hbeat
  cases hout : ((workerStarts 8).call (exec RunStore.step ⟨oneFeedDB, 0⟩
      [workerStarts 0, workerStarts 4, holderBeats 1 8]).db).2 with
  | error e => rw [hout] at hstarts; cases hstarts
  | ok u => rfl

end AnimeFeedFlux
