import AnimeFeedFlux.Schedule.Dispatch
import AnimeFeedFlux.Time

/-!
# The deadline of a shutdown

When the context of `Run` is cancelled, `shutdown` gives the runs in flight `shutdownTimeout` to
end on their own and then calls the cancel functions that it finds in `runCancel`.  It does so
once.  A job that is still in the channel at that moment, or that a worker has received but not
registered, is not in `runCancel`; it gets a context of its own later, and nobody cancels it.
-/

namespace AnimeFeedFlux

open Machine Threads List Runner

/-! ## The property and the condition -/

/-- Past the deadline, the contexts that are still to be cancelled. -/
def LoopPhase.uncalled : LoopPhase → Option (List ℕ)
  | .cancelling cs => some cs
  | .draining | .joining | .returned => some []
  | _ => none

/-- Past the deadline, every execution has a context that is cancelled or just being cancelled. -/
def DeadlineKept (s : Runner) : Prop :=
  ∀ cs, s.loop.uncalled = some cs → ∀ id c, .working (.executing c) id ∈ s.workers →
    s.cancelled c = true ∨ c ∈ cs

namespace JobPhase

/-- The job has not registered its cancel function yet. -/
def preparing : JobPhase → Bool
  | .received | .dequeued | .started | .acquired | .contexted _ => true
  | _ => false

/-- The context whose cancel function is registered. -/
def registered : JobPhase → Option ℕ
  | .executing c | .executed c _ | .recorded c => some c
  | _ => none

end JobPhase

/-- The worker has a job that has not registered its cancel function yet. -/
def WorkerPhase.preparing : WorkerPhase → Bool
  | .working p _ => p.preparing
  | _ => false

/-- No job is queued, or received and not registered. -/
def Runner.Settled (s : Runner) : Prop := s.dispatchCh = [] ∧ ∀ w ∈ s.workers, w.preparing = false

/-- The timer of `shutdown` finds every job registered. -/
def Registered (s : Runner) : RunnerAct → Prop
  | .deadline _ => s.loop = .waiting → s.Settled
  | _ => True

instance (s : Runner) : Decidable s.Settled := inferInstanceAs (Decidable (_ ∧ _))

instance (s : Runner) : (a : RunnerAct) → Decidable (Registered s a)
  | .deadline _ => inferInstanceAs (Decidable (_ → _))
  | .wake .. | .loop _ | .worker .. | .cancel | .runTimeout _ | .drain | .sample _ =>
    isTrue trivial

/-! ## The invariant -/

variable {cfg : RunnerConfig}

/-- The invariant. -/
structure Guarded (cfg : RunnerConfig) (s : Runner) : Prop extends Dispatched cfg s where
  known : ∀ w ∈ s.workers, ∀ id ∈ w.feed?, id ∈ cfg.feedIDs
  registered : ∀ {i id c : ℕ} {p : JobPhase}, s.workers[i]? = some (.working p id) →
    p.registered = some c → s.runCancel id = some c
  /-- Past the deadline nothing starts any more. -/
  settled : ∀ cs, s.loop.uncalled = some cs → s.Settled
  kept : DeadlineKept s

theorem guarded_new (cfg : RunnerConfig) (now : ℤ) (failures : ℕ → ℕ) :
    Guarded cfg (new cfg now failures) := by
  refine ⟨dispatched_new cfg now failures, ?_, ?_, ?_, ?_⟩
  · intro w hw
    rw [(mem_replicate.1 hw).2]
    simp [WorkerPhase.feed?]
  · intro i id c p hi
    simp [new, getElem?_replicate] at hi
  · intro cs hcs
    cases hcs
  · intro cs hcs
    cases hcs

variable {s : Runner}

theorem Dispatched.worker_unique (h : Dispatched cfg s) {i j f : ℕ} {a b : WorkerPhase}
    (hi : s.workers[i]? = some a) (hj : s.workers[j]? = some b) (ha : a.feed? = some f)
    (hb : b.feed? = some f) : i = j := by
  have hle : (s.workers.map (·.has f)).sum ≤ 1 := by
    have h1 := h.single f
    have h2 := Bool.toNat_le (s.running f)
    simp only [entries] at h1
    omega
  exact index_unique _ hle hi hj (by simp [WorkerPhase.has, ha]) (by simp [WorkerPhase.has, hb])

theorem Dispatched.idle (h : Dispatched cfg s) (hzero : s.inFlight = 0) :
    s.Settled ∧ ∀ id c, .working (.executing c) id ∉ s.workers := by
  have hwaits := h.waits
  rw [hzero, waitsAhead] at hwaits
  have hsum : (s.workers.map (·.waits)).sum = 0 := by omega
  have hzeros : ∀ w ∈ s.workers, w.waits = 0 := by
    intro w hw
    have := le_sum_of_mem (mem_map_of_mem hw (f := (·.waits)))
    omega
  refine ⟨⟨?_, ?_⟩, ?_⟩
  · rw [← length_eq_zero_iff]
    omega
  · intro w hw
    have := hzeros w hw
    cases w with
    | working p id => cases p <;> first | rfl | cases this
    | _ => rfl
  · intro id c hw
    cases hzeros _ hw

/-! ## Steps -/

variable {s' : Runner}

section
variable (h : Guarded cfg s) (hdisp : Dispatched cfg s') (hworkers : s'.workers = s.workers)
  (hcancel : s'.runCancel = s.runCancel)
include h hdisp hworkers hcancel

theorem Guarded.loopTo (hsettled : ∀ cs, s'.loop.uncalled = some cs → s'.Settled)
    (hkept : DeadlineKept s') : Guarded cfg s' := by
  refine ⟨hdisp, ?_, ?_, hsettled, hkept⟩
  · rw [hworkers]
    exact h.known
  · rw [hworkers, hcancel]
    exact h.registered

theorem Guarded.loopBefore (hbefore : s'.loop.uncalled = none) : Guarded cfg s' := by
  refine h.loopTo hdisp hworkers hcancel ?_ ?_
  · intro cs hcs
    rw [hbefore] at hcs
    cases hcs
  · intro cs hcs
    rw [hbefore] at hcs
    cases hcs

theorem Guarded.loopDrained (hzero : s'.inFlight = 0) : Guarded cfg s' := by
  obtain ⟨hsettled, hnone⟩ := hdisp.idle hzero
  exact h.loopTo hdisp hworkers hcancel (fun _ _ => hsettled)
    fun _ _ id c hw => absurd hw (hnone id c)

end

theorem update_true {g : ℕ → Bool} {c c' : ℕ} (h : g c') : Function.update g c true c' := by
  by_cases hc : c' = c
  · subst hc
    exact Function.update_self ..
  · rw [Function.update_of_ne hc]
    exact h

/-- `maybeDispatch` touches neither the workers nor `runCancel`, and does not reach the
deadline. -/
theorem Runner.stepDispatch_frame (s : Runner) (cfg : RunnerConfig) (choice : Bool)
    {p : DispatchPhase} {id : ℕ} {now : ℤ} {rest : List ℕ}
    (hloop : s.loop = .dispatching p id now rest) :
    (s.stepDispatch cfg choice id now rest p).workers = s.workers ∧
      (s.stepDispatch cfg choice id now rest p).runCancel = s.runCancel ∧
      (s.stepDispatch cfg choice id now rest p).loop.uncalled = none := by
  have hbefore : s.loop.uncalled = none := by rw [hloop]; rfl
  cases p with
  | allowed =>
    simp only [stepDispatch]
    split <;> exact ⟨rfl, rfl, rfl⟩
  | sending =>
    simp only [stepDispatch]
    split <;> split <;> first | exact ⟨rfl, rfl, rfl⟩ | exact ⟨rfl, rfl, hbefore⟩
  | _ => exact ⟨rfl, rfl, rfl⟩

section
variable (h : Guarded cfg s)
include h

theorem Guarded.stepLoop (choice : Bool) : Guarded cfg (s.stepLoop cfg choice) := by
  have hdisp := h.toDispatched.stepLoop choice
  revert hdisp
  simp only [Runner.stepLoop]
  split <;> rename_i hloop
  · split <;> intro hdisp
    · exact h.loopBefore hdisp rfl rfl rfl
    · exact h
  · exact fun hdisp => h.loopBefore hdisp rfl rfl rfl
  · split <;> exact fun hdisp => h.loopBefore hdisp rfl rfl rfl
  · intro hdisp
    obtain ⟨hworkers, hcancel, hbefore⟩ := s.stepDispatch_frame cfg choice hloop
    exact h.loopBefore hdisp hworkers hcancel hbefore
  · exact fun hdisp => h.loopBefore hdisp rfl rfl rfl
  · split <;> intro hdisp
    · rename_i hd
      exact h.loopDrained hdisp rfl rfl (h.drained hd).2
    · exact h
  · -- The last cancel function has been called.
    intro hdisp
    refine h.loopTo hdisp rfl rfl (fun cs _ => h.settled [] (by rw [hloop]; rfl)) ?_
    intro cs hcs id c hw
    cases hcs
    exact h.kept [] (by rw [hloop]; rfl) id c hw
  · rename_i c cs
    intro hdisp
    refine h.loopTo hdisp rfl rfl (fun _ _ => h.settled (c :: cs) (by rw [hloop]; rfl)) ?_
    intro cs' hcs id c' hw
    cases hcs
    rcases h.kept (c :: cs) (by rw [hloop]; rfl) id c' hw with hdone | hlater
    · exact .inl (update_true hdone)
    rcases mem_cons.1 hlater with rfl | hlater
    · exact .inl (Function.update_self ..)
    · exact .inr hlater
  · split <;> intro hdisp
    · rename_i hd
      exact h.loopDrained hdisp rfl rfl (h.drained hd).2
    · exact h
  · split <;> intro hdisp
    · exact h.loopDrained hdisp rfl rfl (h.drained (h.joined (.inl hloop))).2
    · exact h
  · exact fun _ => h

/-- **A step of a worker.**  Only a job that is being prepared starts to execute. -/
theorem Guarded.moved (hdisp : Dispatched cfg s') {i : ℕ} {a b : WorkerPhase}
    (hi : s.workers[i]? = some a) (hw : s'.workers = s.workers.set i b) (hloop : s'.loop = s.loop)
    (hfeed : ∀ id ∈ b.feed?, id ∈ cfg.feedIDs)
    (hreg : ∀ p id c, b = .working p id → p.registered = some c → s'.runCancel id = some c)
    (hothers : ∀ id, a.feed? ≠ some id → s'.runCancel id = s.runCancel id)
    (hch : s.dispatchCh = [] → s'.dispatchCh = [])
    (hprep : s.dispatchCh = [] → a.preparing = false → b.preparing = false ∧
      ∀ id c, b ≠ .working (.executing c) id)
    (hcancelled : ∀ c, s.cancelled c → s'.cancelled c) : Guarded cfg s' := by
  have hmem : ∀ w ∈ s'.workers, w ∈ s.workers ∨ w = b := by
    intro w hmem
    rw [hw] at hmem
    exact mem_or_eq_of_mem_set hmem
  refine ⟨hdisp, ?_, ?_, ?_, ?_⟩
  · intro w hwm id hid
    rcases hmem w hwm with hold | rfl
    · exact h.known w hold id hid
    · exact hfeed id hid
  · intro j id c p hj hp
    rw [hw] at hj
    by_cases hij : i = j
    · subst hij
      rw [getElem?_set_self (List.getElem?_eq_some_iff.1 hi).1, Option.some.injEq] at hj
      exact hreg p id c hj hp
    · rw [getElem?_set_ne hij] at hj
      rw [hothers id fun ha => hij (h.worker_unique hi hj ha rfl)]
      exact h.registered hj hp
  · intro cs hcs
    rw [hloop] at hcs
    obtain ⟨hempty, hnone⟩ := h.settled cs hcs
    refine ⟨hch hempty, fun w hwm => ?_⟩
    rcases hmem w hwm with hold | rfl
    · exact hnone w hold
    · exact (hprep hempty (hnone a (mem_of_getElem? hi))).1
  · intro cs hcs id c hwm
    rw [hloop] at hcs
    rcases hmem _ hwm with hold | hb
    · rcases h.kept cs hcs id c hold with hdone | hlater
      · exact .inl (hcancelled c hdone)
      · exact .inr hlater
    · obtain ⟨hempty, hnone⟩ := h.settled cs hcs
      exact absurd hb.symm ((hprep hempty (hnone a (mem_of_getElem? hi))).2 id c)

theorem Guarded.stepJob {i id : ℕ} {p : JobPhase}
    (hi : s.workers[i]? = some (.working p id)) (failed : Bool) :
    Guarded cfg (s.stepJob cfg i id failed p) := by
  have hdisp := h.toDispatched.stepJob hi failed
  have hknown : ∀ {q : JobPhase}, ∀ f ∈ (WorkerPhase.working q id).feed?, f ∈ cfg.feedIDs :=
    fun f hf => h.known _ (mem_of_getElem? hi) f hf
  -- `runCancel` is written at the feed of the worker only.
  have hothers : ∀ (v : Option ℕ) (f : ℕ), (WorkerPhase.working p id).feed? ≠ some f →
      Function.update s.runCancel id v f = s.runCancel f := by
    intro v f hf
    exact Function.update_of_ne (fun heq => hf (by rw [heq]; rfl)) ..
  -- A step that registers nothing, and after which the job does not begin to execute.
  have hplain : ∀ (q : JobPhase) (s' : Runner), Dispatched cfg s' →
      s'.workers = s.workers.set i (.working q id) → s'.loop = s.loop →
      s'.dispatchCh = s.dispatchCh → s'.runCancel = s.runCancel → s'.cancelled = s.cancelled →
      (∀ c, q.registered = some c → p.registered = some c) →
      (p.preparing = false → q.preparing = false) → (∀ c, q ≠ .executing c) → Guarded cfg s' := by
    intro q s' hdisp hw hloop hch hrc hcc hreg hprep hexec
    refine h.moved hdisp hi hw hloop hknown ?_ (fun _ _ => by rw [hrc])
      (by rw [hch]; exact fun hn => hn) (fun _ hp => ⟨hprep hp, ?_⟩)
      (by rw [hcc]; exact fun _ hc => hc)
    · rintro _ _ c ⟨⟩ hq
      rw [hrc]
      exact h.registered hi (hreg c hq)
    · rintro _ c ⟨⟩
      exact hexec c rfl
  have hnone : ∀ {q : JobPhase}, q.registered = none →
      ∀ c, q.registered = some c → p.registered = some c := by
    intro q hq c hc
    rw [hq] at hc
    cases hc
  cases p with
  | started =>
    revert hdisp
    simp only [Runner.stepJob]
    split <;> intro hdisp
    · exact hplain .acquired _ hdisp rfl rfl rfl rfl rfl (hnone rfl) (fun hp => hp) (by rintro _ ⟨⟩)
    · exact h
  | contexted c =>
    refine h.moved hdisp hi rfl rfl hknown ?_ (hothers _) (fun hn => hn) (fun _ hp => by cases hp)
      fun _ hc => hc
    rintro _ _ _ ⟨⟩ ⟨⟩
    exact Function.update_self ..
  | executing | executed =>
    exact hplain _ _ hdisp rfl rfl rfl rfl rfl (fun _ hc => hc) (fun hp => hp) (by rintro _ ⟨⟩)
  | recorded c =>
    exact h.moved hdisp hi rfl rfl hknown (by rintro _ _ _ ⟨⟩ ⟨⟩) (hothers _) (fun hn => hn)
      (fun _ _ => ⟨rfl, by rintro _ _ ⟨⟩⟩) fun _ hc => hc
  | unregistered c =>
    exact h.moved hdisp hi rfl rfl hknown (by rintro _ _ _ ⟨⟩ ⟨⟩) (fun _ _ => rfl) (fun hn => hn)
      (fun _ _ => ⟨rfl, by rintro _ _ ⟨⟩⟩) fun _ hc => update_true hc
  | uncounted =>
    exact h.moved hdisp hi rfl rfl (by simp [WorkerPhase.feed?]) (by rintro _ _ _ ⟨⟩)
      (fun _ _ => rfl) (fun hn => hn) (fun _ _ => ⟨rfl, by rintro _ _ ⟨⟩⟩) fun _ hc => hc
  | _ => exact hplain _ _ hdisp rfl rfl rfl rfl rfl (hnone rfl) (fun hp => hp) (by rintro _ ⟨⟩)

theorem Guarded.stepWorker (i : ℕ) (failed : Bool) : Guarded cfg (s.stepWorker cfg i failed) := by
  have hdisp := h.toDispatched.stepWorker i failed
  revert hdisp
  simp only [Runner.stepWorker]
  split
  · rename_i hi
    split
    · rename_i f rest hch
      intro hdisp
      have hf : f ∈ cfg.feedIDs := h.queued f (by rw [hch]; exact mem_cons_self ..)
      have hne : s.dispatchCh ≠ [] := by simp [hch]
      exact h.moved hdisp hi rfl rfl (by simpa [WorkerPhase.feed?] using hf)
        (by rintro _ _ _ ⟨⟩ ⟨⟩) (fun _ _ => rfl) (fun hnil => absurd hnil hne)
        (fun hnil _ => absurd hnil hne) fun _ hc => hc
    · split <;> intro hdisp
      · exact h.moved hdisp hi rfl rfl (by simp [WorkerPhase.feed?]) (by rintro _ _ _ ⟨⟩)
          (fun _ _ => rfl) id (fun _ _ => ⟨rfl, by rintro _ _ ⟨⟩⟩) fun _ hc => hc
      · exact h
  · rename_i hi
    exact fun _ => h.stepJob hi failed
  · exact fun _ => h

theorem Guarded.mem_snapshot {order : List ℕ}
    (horder : order.isPerm cfg.feedIDs) {id c : ℕ}
    (hw : .working (.executing c) id ∈ s.workers) : c ∈ order.filterMap s.runCancel := by
  obtain ⟨i, hi⟩ := mem_iff_getElem?.1 hw
  refine mem_filterMap.2 ⟨id, ?_, h.registered hi rfl⟩
  exact (isPerm_iff.1 horder).symm.subset (h.known _ hw id rfl)

/-- **Every step that meets the condition keeps the invariant.** -/
theorem Guarded.step (a : RunnerAct) (hreg : Registered s a) : Guarded cfg (s.step cfg a) := by
  have hdisp := h.toDispatched.step a
  revert hdisp
  cases a with
  | wake now order =>
    simp only [Runner.step]
    split <;> intro hdisp
    · exact h.loopBefore hdisp rfl rfl rfl
    · exact h
  | loop choice => exact fun _ => h.stepLoop choice
  | worker i failed => exact fun _ => h.stepWorker i failed
  | cancel => exact fun hdisp => h.loopTo hdisp rfl rfl h.settled h.kept
  | runTimeout c =>
    simp only [Runner.step]
    split <;> intro hdisp
    · refine h.loopTo hdisp rfl rfl h.settled ?_
      intro cs hcs id c' hw
      rcases h.kept cs hcs id c' hw with hdone | hlater
      · exact .inl (update_true hdone)
      · exact .inr hlater
    · exact h
  | drain =>
    simp only [Runner.step]
    split <;> intro hdisp
    · exact h.loopTo hdisp rfl rfl h.settled h.kept
    · exact h
  | deadline order =>
    simp only [Runner.step]
    split <;> intro hdisp
    · rename_i hd
      refine h.loopTo hdisp rfl rfl (fun _ _ => hreg hd.1) ?_
      intro cs hcs id c hw
      cases hcs
      exact .inr (h.mem_snapshot hd.2 hw)
    · exact h
  | sample acquire =>
    cases acquire <;> simp only [Runner.step] <;> split <;> intro hdisp
    · exact h.loopTo hdisp rfl rfl h.settled h.kept
    · exact h
    · exact h.loopTo hdisp rfl rfl h.settled h.kept
    · exact h

end

/-! ## Whole runs -/

/-- **Past the deadline every execution is cancelled**, in every run in which the deadline finds
every job registered. -/
theorem deadlineKept_of_registered (cfg : RunnerConfig) (now : ℤ) (failures : ℕ → ℕ)
    (acts : List RunnerAct)
    (hacts : Meets (Runner.step cfg) Registered (Runner.new cfg now failures) acts) :
    Always (Runner.step cfg) DeadlineKept (Runner.new cfg now failures) acts := by
  have halways : Always (Runner.step cfg) (Guarded cfg) (new cfg now failures) acts :=
    always_of_meets (fun s a hs hC => Guarded.step hs a hC) acts _
      (guarded_new cfg now failures) hacts
  exact halways.mono fun s hs => hs.kept

/-- Feeds that fire once a day, with one worker for all of them. -/
def dailyFeeds (ids : List ℕ) : RunnerConfig where
  jobs := ids.map fun id => { feedID := id, slug := "", next := (· + 86400 * Time.second) }
  maxConcurrent := 1
  offset _ := 0

/-- A day after `New` the feeds are dispatched, eight steps each, and the worker comes as far as
`Execute` with the first one.  Then `Run` is told to stop, and the deadline passes. -/
def deadlinePasses (ids : List ℕ) : List RunnerAct :=
  [.wake (march2026 + 86400 * Time.second) ids] ++
    List.replicate (8 * ids.length + 1) (.loop true) ++ List.replicate 6 (.worker 0 false) ++
    [.cancel, .loop true, .loop true, .deadline ids, .loop true, .loop true]

/-- The only feed is executing when the deadline passes, and its context is cancelled. -/
theorem deadlineKept_of_registered_alone : Meets (Runner.step (dailyFeeds [1])) Registered
        (Runner.new (dailyFeeds [1]) march2026 fun _ => 0) (deadlinePasses [1]) ∧
      (exec (Runner.step (dailyFeeds [1])) (Runner.new (dailyFeeds [1]) march2026 fun _ => 0)
          (deadlinePasses [1])).workers = [.working (.executing 0) 1] ∧
      Always (Runner.step (dailyFeeds [1])) DeadlineKept
        (Runner.new (dailyFeeds [1]) march2026 fun _ => 0) (deadlinePasses [1]) :=
  ⟨by decide +kernel, by decide +kernel, deadlineKept_of_registered _ _ _ _ (by decide +kernel)⟩

/-- Of two feeds the second is in the channel when the deadline passes.  The worker takes it when
it has ended the first, and executes it with a context that nobody cancels. -/
theorem not_deadlineKept_queued : ¬ Always (Runner.step (dailyFeeds [1, 2])) DeadlineKept
      (Runner.new (dailyFeeds [1, 2]) march2026 fun _ => 0)
      (deadlinePasses [1, 2] ++ List.replicate 14 (.worker 0 false)) := by
  intro h
  have hlast := h.last
  have hkept := hlast [] (by decide +kernel) 2 1 (by decide +kernel)
  revert hkept
  decide +kernel

end AnimeFeedFlux
