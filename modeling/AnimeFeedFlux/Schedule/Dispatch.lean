import AnimeFeedFlux.Lib.Pool
import AnimeFeedFlux.Schedule.Runner

/-!
# What the scheduler keeps count of

A feed is handed from the loop to the channel to a worker, and its mark in `running` goes with
it: `maybeDispatch` sets the mark, and the last of the deferred calls of `runOne` clears it.  So
the entries of a feed, wherever they are, are at most its mark, and from that follows that the
channel has room for every send.  The counters are sums over where everybody stands.
-/

namespace AnimeFeedFlux

open Machine Threads List Runner

/-! ## Weights -/

namespace DispatchPhase

/-- The mark in `running` is the loop's. -/
def holds : DispatchPhase → Bool
  | .marked | .counted | .sending | .withdrawn | .uncounted => true
  | _ => false

/-- The part of `queueDepth` that is the loop's. -/
def depth : DispatchPhase → ℕ
  | .counted | .sending | .withdrawn => 1
  | _ => 0

/-- The part of `inFlight` that is the loop's. -/
def waits : DispatchPhase → ℕ
  | .sending => 1
  | _ => 0

end DispatchPhase

namespace LoopPhase

/-- The feed whose mark is the loop's. -/
def holds : LoopPhase → Option ℕ
  | .dispatching p id _ _ => if p.holds then some id else none
  | _ => none

def depth : LoopPhase → ℕ
  | .dispatching p _ _ _ => p.depth
  | _ => 0

def waits : LoopPhase → ℕ
  | .dispatching p _ _ _ => p.waits
  | _ => 0

/-- The feeds that the inner loop still has to do with. -/
def feeds : LoopPhase → List ℕ
  | .firing _ rest => rest
  | .dispatching _ id _ rest => id :: rest
  | _ => []

end LoopPhase

namespace JobPhase

def depth : JobPhase → ℕ
  | .received => 1
  | _ => 0

/-- The part of `inFlightN` that is the job's. -/
def flying : JobPhase → ℕ
  | .received | .dequeued | .uncounted => 0
  | _ => 1

def waits : JobPhase → ℕ
  | .waited | .uncounted => 0
  | _ => 1

end JobPhase

namespace WorkerPhase

/-- The feed that the worker has received. -/
def feed? : WorkerPhase → Option ℕ
  | .working _ id => some id
  | _ => none

def depth : WorkerPhase → ℕ
  | .working p _ => p.depth
  | _ => 0

def flying : WorkerPhase → ℕ
  | .working p _ => p.flying
  | _ => 0

def waits : WorkerPhase → ℕ
  | .working p _ => p.waits
  | _ => 0

/-- One for a job that is not in `inFlightN`, not yet or not any more. -/
def aside : WorkerPhase → ℕ
  | .working p _ => 1 - p.flying
  | _ => 0

/-- One for a job of the feed. -/
def has (f : ℕ) (w : WorkerPhase) : ℕ := if w.feed? = some f then 1 else 0

end WorkerPhase

namespace Runner

/-- The feeds that workers have received. -/
def executing (s : Runner) : List ℕ := s.workers.filterMap (·.feed?)

/-- The entries of a feed that have not reached a worker. -/
def ahead (s : Runner) (f : ℕ) : ℕ :=
  (if s.loop.holds = some f then 1 else 0) + s.dispatchCh.count f

/-- The entries of a feed. -/
def entries (s : Runner) (f : ℕ) : ℕ := s.ahead f + (s.workers.map (·.has f)).sum

/-- The part of `queueDepth` that has not reached a worker. -/
def depthAhead (s : Runner) : ℕ := s.dispatchCh.length + s.loop.depth

/-- The part of `inFlight` that has not reached a worker. -/
def waitsAhead (s : Runner) : ℕ := s.dispatchCh.length + s.loop.waits

end Runner

/-! ## The invariant -/

variable {cfg : RunnerConfig}

/-- The invariant. -/
structure Dispatched (cfg : RunnerConfig) (s : Runner) : Prop where
  depth : s.queueDepth = s.depthAhead + (s.workers.map (·.depth)).sum
  flying : s.inFlightN = (s.workers.map (·.flying)).sum
  waits : s.inFlight = s.waitsAhead + (s.workers.map (·.waits)).sum
  /-- A feed has at most one entry, and only with its mark. -/
  single : ∀ f, s.entries f ≤ (s.running f).toNat
  queued : ∀ f ∈ s.dispatchCh, f ∈ cfg.feedIDs
  feeds : ∀ f ∈ s.loop.feeds, f ∈ cfg.feedIDs
  closed : s.loop.shuttingDown = s.closed
  drained : s.drained = true → s.closed = true ∧ s.inFlight = 0
  joined : s.loop = .joining ∨ s.loop = .returned → s.drained = true
  exits : s.loop = .returned → ∀ w ∈ s.workers, w = .exited
  workers : s.workers.length = cfg.maxConcurrent

theorem dispatched_new (cfg : RunnerConfig) (now : ℤ) (failures : ℕ → ℕ) :
    Dispatched cfg (Runner.new cfg now failures) := by
  refine ⟨?_, ?_, ?_, ?_, ?_, ?_, ?_, ?_, ?_, ?_, ?_⟩
  · simp [new, depthAhead, LoopPhase.depth, WorkerPhase.depth]
  · simp [new, WorkerPhase.flying]
  · simp [new, waitsAhead, LoopPhase.waits, WorkerPhase.waits]
  · intro f
    simp [new, entries, ahead, LoopPhase.holds, WorkerPhase.has, WorkerPhase.feed?]
  all_goals simp [new, LoopPhase.feeds, LoopPhase.shuttingDown]

variable {s s' : Runner}

/-- **A step of the loop.**  What it adds to the counters and to the marks it adds to what is
ahead of the workers. -/
theorem Dispatched.loopTo (h : Dispatched cfg s) (hworkers : s'.workers = s.workers)
    (hflying : s'.inFlightN = s.inFlightN)
    (hdepth : s'.queueDepth + s.depthAhead = s.queueDepth + s'.depthAhead)
    (hwaits : s'.inFlight + s.waitsAhead = s.inFlight + s'.waitsAhead)
    (hsingle : ∀ f, s'.ahead f + (s.running f).toNat ≤ s.ahead f + (s'.running f).toNat)
    (hqueued : ∀ f ∈ s'.dispatchCh, f ∈ s.dispatchCh ∨ f ∈ s.loop.feeds)
    (hfeeds : ∀ f ∈ s'.loop.feeds, f ∈ cfg.feedIDs) (hclosed : s'.loop.shuttingDown = s'.closed)
    (hdrained : s'.drained → s'.closed ∧ s'.inFlight = 0)
    (hjoined : s'.loop = .joining ∨ s'.loop = .returned → s'.drained)
    (hexits : s'.loop = .returned → ∀ w ∈ s.workers, w = .exited) : Dispatched cfg s' := by
  refine ⟨?_, ?_, ?_, ?_, ?_, hfeeds, hclosed, hdrained, hjoined, ?_, ?_⟩
  · have := h.depth
    rw [hworkers]
    omega
  · rw [hworkers, hflying]
    exact h.flying
  · have := h.waits
    rw [hworkers]
    omega
  · intro f
    have h1 := h.single f
    have h2 := hsingle f
    simp only [entries] at h1 ⊢
    rw [hworkers]
    omega
  · intro f hf
    rcases hqueued f hf with hf | hf
    · exact h.queued f hf
    · exact h.feeds f hf
  · rw [hworkers]
    exact hexits
  · rw [hworkers]
    exact h.workers

/-- **A step of a worker.**  What it adds to the counters and to the marks it adds to the place of
the worker, or takes from the channel. -/
theorem Dispatched.moved (h : Dispatched cfg s) {i : ℕ} {a b : WorkerPhase}
    (hi : s.workers[i]? = some a) (hw : s'.workers = s.workers.set i b) (ha : a ≠ .exited)
    (hloop : s'.loop = s.loop) (hclosed : s'.closed = s.closed) (hdrained : s'.drained = s.drained)
    (hdepth : s'.queueDepth + s.dispatchCh.length + a.depth =
      s.queueDepth + s'.dispatchCh.length + b.depth)
    (hflying : s'.inFlightN + a.flying = s.inFlightN + b.flying)
    (hwaits : s'.inFlight + s.dispatchCh.length + a.waits =
      s.inFlight + s'.dispatchCh.length + b.waits)
    (hless : s'.inFlight ≤ s.inFlight)
    (hsingle : ∀ f, s'.dispatchCh.count f + b.has f + (s.running f).toNat ≤
      s.dispatchCh.count f + a.has f + (s'.running f).toNat)
    (hqueued : ∀ f ∈ s'.dispatchCh, f ∈ s.dispatchCh) : Dispatched cfg s' := by
  have hsum := fun g => sum_map_set g b hi
  have hwaits' : s'.inFlight = s'.waitsAhead + (s'.workers.map (·.waits)).sum := by
    have h1 := h.waits
    have h2 := hsum (·.waits)
    simp only [waitsAhead, hloop, hw] at h1 ⊢
    omega
  refine ⟨?_, ?_, hwaits', ?_, ?_, ?_, ?_, ?_, ?_, ?_, ?_⟩
  · have h1 := h.depth
    have h2 := hsum (·.depth)
    simp only [depthAhead, hloop, hw] at h1 ⊢
    omega
  · have h1 := h.flying
    have h2 := hsum (·.flying)
    rw [hw]
    omega
  · intro f
    have h1 := h.single f
    have h2 := hsum (·.has f)
    have h3 := hsingle f
    simp only [entries, ahead, hloop, hw] at h1 ⊢
    omega
  · exact fun f hf => h.queued f (hqueued f hf)
  · rw [hloop]
    exact h.feeds
  · rw [hloop, hclosed]
    exact h.closed
  · intro hd
    rw [hdrained] at hd
    obtain ⟨hc, hzero⟩ := h.drained hd
    rw [hclosed]
    refine ⟨hc, ?_⟩
    omega
  · rw [hloop, hdrained]
    exact h.joined
  · intro hret
    rw [hloop] at hret
    exact absurd (h.exits hret a (mem_of_getElem? hi)) ha
  · rw [hw, length_set]
    exact h.workers

/-! ## Steps -/

theorem Dispatched.frame (h : Dispatched cfg s) (disabled : ℕ → Bool) (failures : ℕ → ℕ)
    (runCancel : ℕ → Option ℕ) (providerSem sampling : ℕ) (next : ℕ → ℤ) (ctxDone : Bool)
    (contexts : ℕ) (cancelled : ℕ → Bool) :
    Dispatched cfg { s with
      disabled, failures, runCancel, providerSem, sampling, next, ctxDone, contexts, cancelled } :=
  ⟨h.depth, h.flying, h.waits, h.single, h.queued, h.feeds, h.closed, h.drained, h.joined, h.exits,
    h.workers⟩

theorem Dispatched.goesOn (h : Dispatched cfg s) {l l' : LoopPhase} (hloop : s.loop = l)
    (hholds : l'.holds = l.holds) (hdepth : l'.depth = l.depth) (hwaits : l'.waits = l.waits)
    (hdown : l'.shuttingDown = l.shuttingDown) (hfeeds : ∀ f ∈ l'.feeds, f ∈ l.feeds)
    (hjoined : l' = .joining ∨ l' = .returned → s.drained)
    (hexits : l' = .returned → ∀ w ∈ s.workers, w = .exited) :
    Dispatched cfg { s with loop := l' } := by
  subst hloop
  refine h.loopTo rfl rfl ?_ ?_ ?_ (fun f hf => .inl hf) (fun f hf => h.feeds f (hfeeds f hf)) ?_
    h.drained hjoined hexits
  · simp [depthAhead, hdepth]
  · simp [waitsAhead, hwaits]
  · intro f
    simp only [ahead, hholds]
    exact le_refl _
  · rw [← h.closed]
    exact hdown

variable {id : ℕ} {now : ℤ} {rest : List ℕ}

section
variable (h : Dispatched cfg s)
include h

theorem Dispatched.dispatchTo {p q : DispatchPhase}
    (hloop : s.loop = .dispatching p id now rest) (hloop' : s'.loop = .dispatching q id now rest)
    (hworkers : s'.workers = s.workers) (hflying : s'.inFlightN = s.inFlightN)
    (hclosed : s'.closed = s.closed) (hdrained : s'.drained = s.drained)
    (hdepth : s'.queueDepth + s.dispatchCh.length + p.depth =
      s.queueDepth + s'.dispatchCh.length + q.depth)
    (hwaits : s'.inFlight + s.dispatchCh.length + p.waits =
      s.inFlight + s'.dispatchCh.length + q.waits)
    (hself : q.holds.toNat + s'.dispatchCh.count id + (s.running id).toNat ≤
      p.holds.toNat + s.dispatchCh.count id + (s'.running id).toNat)
    (hothers : ∀ f ≠ id, s'.dispatchCh.count f = s.dispatchCh.count f ∧ s'.running f = s.running f)
    (hqueued : ∀ f ∈ s'.dispatchCh, f ∈ s.dispatchCh ∨ f = id) : Dispatched cfg s' := by
  have hfeeds := h.feeds
  have hdown := h.closed
  rw [hloop] at hfeeds hdown
  refine h.loopTo hworkers hflying ?_ ?_ ?_ ?_ ?_ ?_ ?_ ?_ ?_
  · simp only [depthAhead, hloop, hloop', LoopPhase.depth]
    omega
  · simp only [waitsAhead, hloop, hloop', LoopPhase.waits]
    omega
  · intro f
    by_cases hf : f = id
    · subst hf
      simp only [ahead, hloop, hloop', LoopPhase.holds]
      cases hp : p.holds <;> cases hq : q.holds <;> simp [hp, hq] at hself ⊢ <;> omega
    · simp only [ahead, hloop, hloop', LoopPhase.holds, hothers f hf]
      cases p.holds <;> cases q.holds <;> simp [Ne.symm hf]
  · intro f hf
    rcases hqueued f hf with hf | hf
    · exact .inl hf
    rw [hloop, hf]
    exact .inr (mem_cons_self ..)
  · rw [hloop']
    exact hfeeds
  · rw [hloop', hclosed]
    exact hdown
  · intro hd
    rw [hdrained] at hd
    have := (h.drained hd).1
    rw [← hdown] at this
    cases this
  · rw [hloop']
    rintro (hnot | hnot) <;> cases hnot
  · rw [hloop']
    intro hnot
    cases hnot

theorem Dispatched.stepDispatch (choice : Bool) {p : DispatchPhase}
    (hloop : s.loop = .dispatching p id now rest) :
    Dispatched cfg (s.stepDispatch cfg choice id now rest p) := by
  -- A step that changes neither the counters nor the marks.
  have hplain : ∀ q : DispatchPhase, q.holds = p.holds → q.depth = p.depth → q.waits = p.waits →
      Dispatched cfg { s with loop := .dispatching q id now rest } := by
    intro q hh hd hw
    exact h.dispatchTo hloop rfl rfl rfl rfl rfl (by simp [hd]) (by simp [hw]) (by simp [hh])
      (fun _ _ => ⟨rfl, rfl⟩) fun _ hf => .inl hf
  cases p with
  | entered | looked =>
    simp only [Runner.stepDispatch]
    split <;> exact hplain _ rfl rfl rfl
  | allowed =>
    simp only [Runner.stepDispatch]
    split
    · exact hplain _ rfl rfl rfl
    rename_i hrunning
    refine h.dispatchTo hloop rfl rfl rfl rfl rfl rfl rfl ?_ ?_ fun _ hf => .inl hf
    · simp [DispatchPhase.holds, hrunning]
      omega
    · exact fun f hf => ⟨rfl, Function.update_of_ne hf ..⟩
  | marked | withdrawn =>
    refine h.dispatchTo hloop rfl rfl rfl rfl rfl ?_ rfl (le_refl _) (fun _ _ => ⟨rfl, rfl⟩)
      fun _ hf => .inl hf
    simp only [Runner.stepDispatch, DispatchPhase.depth]
    omega
  | counted =>
    refine h.dispatchTo hloop rfl rfl rfl rfl rfl rfl ?_ (le_refl _) (fun _ _ => ⟨rfl, rfl⟩)
      fun _ hf => .inl hf
    simp only [Runner.stepDispatch, DispatchPhase.waits]
    omega
  | sending =>
    simp only [Runner.stepDispatch]
    split
    · split
      · -- The mark goes with the feed into the channel.
        refine h.dispatchTo hloop rfl rfl rfl rfl rfl ?_ ?_ ?_ ?_ ?_
        · simp [DispatchPhase.depth]
          omega
        · simp [DispatchPhase.waits]
          omega
        · simp only [DispatchPhase.holds, count_append, count_singleton_self,
            Bool.toNat_false, Bool.toNat_true]
          omega
        · intro f hf
          refine ⟨?_, rfl⟩
          simp [count_append, Ne.symm hf]
        · intro f hf
          simpa using hf
      · exact h
    · split
      · refine h.dispatchTo hloop rfl rfl rfl rfl rfl rfl ?_ (le_refl _)
          (fun _ _ => ⟨rfl, rfl⟩) fun _ hf => .inl hf
        simp only [DispatchPhase.waits]
        omega
      · exact h
  | uncounted =>
    refine h.dispatchTo hloop rfl rfl rfl rfl rfl rfl rfl ?_ ?_ fun _ hf => .inl hf
    · simp [Runner.stepDispatch, DispatchPhase.holds]
      have := Bool.toNat_le (s.running id)
      omega
    · exact fun f hf => ⟨rfl, Function.update_of_ne hf ..⟩
  | finished =>
    have hfeeds := h.feeds
    have hdown := h.closed
    rw [hloop] at hfeeds hdown
    refine h.loopTo rfl rfl ?_ ?_ ?_ (fun _ hf => .inl hf)
      (fun f hf => hfeeds f (mem_cons_of_mem _ hf)) hdown ?_ ?_ ?_
    · simp [Runner.stepDispatch, depthAhead, hloop, LoopPhase.depth, DispatchPhase.depth]
    · simp [Runner.stepDispatch, waitsAhead, hloop, LoopPhase.waits, DispatchPhase.waits]
    · intro f
      simp [Runner.stepDispatch, ahead, hloop, LoopPhase.holds, DispatchPhase.holds]
    · exact h.drained
    · simp [Runner.stepDispatch]
    · simp [Runner.stepDispatch]

theorem Dispatched.stepLoop (choice : Bool) : Dispatched cfg (s.stepLoop cfg choice) := by
  have hnone : ∀ {l : LoopPhase}, ∀ f ∈ ([] : List ℕ), f ∈ l.feeds := by simp
  simp only [Runner.stepLoop]
  split <;> rename_i hloop
  · -- At the `select` of the loop.
    split
    · exact h.goesOn hloop rfl rfl rfl rfl hnone (by simp) (by simp)
    · exact h
  · exact h.goesOn hloop rfl rfl rfl rfl hnone (by simp) (by simp)
  · -- The next feed of the inner loop.
    split
    · exact h.goesOn hloop rfl rfl rfl rfl (fun f hf => mem_cons_of_mem _ hf) (by simp) (by simp)
    · exact h.goesOn hloop rfl rfl rfl rfl (fun f hf => hf) (by simp) (by simp)
  · exact h.stepDispatch choice hloop
  · -- The channel is closed.
    refine h.loopTo rfl rfl ?_ ?_ ?_ (fun _ hf => .inl hf) (by simp [LoopPhase.feeds]) rfl ?_
      (by simp) (by simp)
    · simp [depthAhead, hloop, LoopPhase.depth]
    · simp [waitsAhead, hloop, LoopPhase.waits]
    · intro f
      simp [ahead, hloop, LoopPhase.holds]
    · exact fun hd => ⟨rfl, (h.drained hd).2⟩
  · -- In `shutdown`.
    split
    · rename_i hd
      exact h.goesOn hloop rfl rfl rfl rfl hnone (fun _ => hd) (by simp)
    · exact h
  · exact h.goesOn hloop rfl rfl rfl rfl hnone (by simp) (by simp)
  · rename_i c cs
    have hgoes : Dispatched cfg { s with loop := .cancelling cs } :=
      h.goesOn hloop rfl rfl rfl rfl hnone (by simp) (by simp)
    exact hgoes.frame ..
  · split
    · rename_i hd
      exact h.goesOn hloop rfl rfl rfl rfl hnone (fun _ => hd) (by simp)
    · exact h
  · split
    · rename_i hall
      refine h.goesOn hloop rfl rfl rfl rfl hnone (fun _ => h.joined (.inl hloop)) ?_
      intro _ w hw
      simpa using all_eq_true.1 hall w hw
    · exact h
  · exact h

theorem Dispatched.stepJob {i : ℕ} {p : JobPhase}
    (hi : s.workers[i]? = some (.working p id)) (failed : Bool) :
    Dispatched cfg (s.stepJob cfg i id failed p) := by
  -- A step that changes neither the counters nor the marks.
  have hplain : ∀ q : JobPhase, q.depth = p.depth → q.flying = p.flying → q.waits = p.waits →
      Dispatched cfg (s.move i (.working q id)) := by
    intro q hdepth hflying hwaits
    exact h.moved hi rfl (by simp) rfl rfl rfl (by simp [Runner.move, WorkerPhase.depth, hdepth])
      (by simp [Runner.move, WorkerPhase.flying, hflying])
      (by simp [Runner.move, WorkerPhase.waits, hwaits]) (le_refl _) (fun f => le_refl _)
      fun _ hf => hf
  cases p with
  | received =>
    refine h.moved hi rfl (by simp) rfl rfl rfl ?_ rfl rfl (le_refl _) (fun f => le_refl _)
      fun _ hf => hf
    simp only [Runner.stepJob, Runner.move, WorkerPhase.depth, JobPhase.depth]
    omega
  | dequeued | waited =>
    refine h.moved hi rfl (by simp) rfl rfl rfl rfl ?_ rfl (le_refl _) (fun f => le_refl _)
      fun _ hf => hf
    simp only [Runner.stepJob, Runner.move, WorkerPhase.flying, JobPhase.flying]
    omega
  | started =>
    simp only [Runner.stepJob]
    split
    · exact (hplain .acquired rfl rfl rfl).frame ..
    · exact h
  | acquired => exact (hplain (.contexted s.contexts) rfl rfl rfl).frame ..
  | contexted c => exact (hplain (.executing c) rfl rfl rfl).frame ..
  | executing c => exact (hplain (.executed c failed) rfl rfl rfl).frame ..
  | executed c failed => exact (hplain (.recorded c) rfl rfl rfl).frame ..
  | recorded c => exact (hplain (.unregistered c) rfl rfl rfl).frame ..
  | unregistered c => exact (hplain .ended rfl rfl rfl).frame ..
  | ended => exact (hplain .released rfl rfl rfl).frame ..
  | released =>
    refine h.moved hi rfl (by simp) rfl rfl rfl rfl rfl ?_ ?_ (fun f => le_refl _) fun _ hf => hf
    · simp only [Runner.stepJob, Runner.move, WorkerPhase.waits, JobPhase.waits]
      omega
    · simp only [Runner.stepJob, Runner.move]
      omega
  | uncounted =>
    -- The mark goes with the entry.
    refine h.moved hi rfl (by simp) rfl rfl rfl rfl rfl rfl (le_refl _) ?_ fun _ hf => hf
    intro f
    by_cases hf : f = id
    · subst hf
      have := Bool.toNat_le (s.running f)
      simp [Runner.stepJob, Runner.move, WorkerPhase.has, WorkerPhase.feed?]
      omega
    · simp [Runner.stepJob, Runner.move, WorkerPhase.has, WorkerPhase.feed?, Ne.symm hf,
        Function.update_of_ne hf]

theorem Dispatched.stepWorker (i : ℕ) (failed : Bool) :
    Dispatched cfg (s.stepWorker cfg i failed) := by
  simp only [Runner.stepWorker]
  split
  · rename_i hi
    split
    · -- A feed goes from the channel to the worker.
      rename_i id rest hch
      refine h.moved hi rfl (by simp) rfl rfl rfl ?_ rfl ?_ (le_refl _) ?_ ?_
      · simp [Runner.move, hch, WorkerPhase.depth, JobPhase.depth]
        omega
      · simp [Runner.move, hch, WorkerPhase.waits, JobPhase.waits]
        omega
      · intro f
        by_cases hf : id = f
        · simp [Runner.move, hch, WorkerPhase.has, WorkerPhase.feed?, hf]
        · simp [Runner.move, hch, WorkerPhase.has, WorkerPhase.feed?, hf]
      · intro f hf
        rw [hch]
        exact mem_cons_of_mem _ hf
    · split
      · exact h.moved hi rfl (by simp) rfl rfl rfl rfl rfl rfl (le_refl _) (fun f => le_refl _)
          fun _ hf => hf
      · exact h
  · rename_i hi
    exact h.stepJob hi failed
  · exact h

/-- **Every step keeps the invariant.** -/
theorem Dispatched.step (a : RunnerAct) : Dispatched cfg (s.step cfg a) := by
  cases a with
  | wake now order =>
    simp only [Runner.step]
    split
    · rename_i hw
      have hdown := h.closed
      rw [hw.1] at hdown
      refine h.loopTo rfl rfl ?_ ?_ ?_ (fun _ hf => .inl hf) ?_ hdown h.drained (by simp) (by simp)
      · simp [depthAhead, hw.1, LoopPhase.depth]
      · simp [waitsAhead, hw.1, LoopPhase.waits]
      · intro f
        simp [ahead, hw.1, LoopPhase.holds]
      · intro f hf
        exact (isPerm_iff.1 hw.2.1).subset hf
    · exact h
  | loop choice => exact h.stepLoop choice
  | worker i failed => exact h.stepWorker i failed
  | cancel => exact h.frame ..
  | runTimeout c =>
    simp only [Runner.step]
    split
    · exact h.frame ..
    · exact h
  | drain =>
    simp only [Runner.step]
    split
    · rename_i hd
      refine h.loopTo rfl rfl rfl rfl (fun f => le_refl _) (fun _ hf => .inl hf) h.feeds h.closed
        (fun _ => ⟨?_, hd.2⟩) (fun _ => rfl) h.exits
      rw [← h.closed]
      exact hd.1
    · exact h
  | deadline order =>
    simp only [Runner.step]
    split
    · rename_i hd
      exact h.goesOn hd.1 rfl rfl rfl rfl (by simp [LoopPhase.feeds]) (by simp) (by simp)
    · exact h
  | sample acquire =>
    cases acquire <;> simp only [Runner.step] <;> split
    · exact h.frame ..
    · exact h
    · exact h.frame ..
    · exact h

end

/-! ## The property -/

/-- What is asked of every state. -/
structure DispatchSafe (cfg : RunnerConfig) (s : Runner) : Prop where
  /-- A feed has at most one queued or executing entry. -/
  single : ∀ f, (s.dispatchCh ++ s.executing).count f ≤ 1
  bounded : s.executing.length ≤ cfg.maxConcurrent
  /-- A send finds the channel open and with room. -/
  room : ∀ id now rest, s.loop = .dispatching .sending id now rest →
    s.dispatchCh.length < cfg.bufSize ∧ s.closed = false
  nonneg : 0 ≤ s.inFlight
  /-- `queueDepth` counts the queue, a feed that the loop is about to send or to withdraw, and
  the feeds that workers have just received. -/
  depth : s.queueDepth = s.dispatchCh.length + s.loop.depth + (s.workers.map (·.depth)).sum
  /-- `inFlightN` counts the executing jobs but for those that are just being counted in or
  out. -/
  flying : s.inFlightN + (s.workers.map (·.aside)).sum = s.executing.length
  returned : s.loop = .returned → s.queueDepth = 0 ∧ s.inFlightN = 0 ∧ s.inFlight = 0

theorem count_executing (ws : List WorkerPhase) (f : ℕ) :
    (ws.filterMap (·.feed?)).count f = (ws.map (·.has f)).sum := by
  induction ws with
  | nil => rfl
  | cons w ws ih =>
    cases hw : w.feed? with
    | none =>
      rw [filterMap_cons_none hw, map_cons, sum_cons, ih]
      simp [WorkerPhase.has, hw]
    | some id =>
      rw [filterMap_cons_some hw, map_cons, sum_cons, count_cons, ih]
      by_cases hid : id = f
      · simp [WorkerPhase.has, hw, hid]
        omega
      · simp [WorkerPhase.has, hw, hid]

theorem length_executing (ws : List WorkerPhase) :
    (ws.filterMap (·.feed?)).length = (ws.map (·.flying)).sum + (ws.map (·.aside)).sum := by
  induction ws with
  | nil => rfl
  | cons w ws ih =>
    cases w with
    | receiving => simpa [WorkerPhase.feed?, WorkerPhase.flying, WorkerPhase.aside] using ih
    | exited => simpa [WorkerPhase.feed?, WorkerPhase.flying, WorkerPhase.aside] using ih
    | working p id =>
      have hone : (WorkerPhase.working p id).flying + (WorkerPhase.working p id).aside = 1 := by
        cases p <;> rfl
      have hfeed : (WorkerPhase.working p id).feed? = some id := rfl
      rw [filterMap_cons_some hfeed, length_cons, ih, map_cons, map_cons, sum_cons, sum_cons]
      omega

theorem Dispatched.room (h : Dispatched cfg s)
    (hloop : s.loop = .dispatching .sending id now rest) :
    s.dispatchCh.length < cfg.bufSize := by
  have hle : ∀ f, s.ahead f ≤ 1 := by
    intro f
    have h1 := h.single f
    have h2 := Bool.toNat_le (s.running f)
    simp only [entries] at h1
    omega
  -- The feed that is sent and those in the channel are different jobs.
  have hnew : id ∉ s.dispatchCh := by
    have := hle id
    rw [ahead, hloop] at this
    simp only [LoopPhase.holds, DispatchPhase.holds, if_true] at this
    rw [← count_eq_zero]
    omega
  have hnodup : s.dispatchCh.Nodup := by
    rw [nodup_iff_count_le_one]
    intro f
    have := hle f
    simp only [ahead] at this
    omega
  have hsub : (id :: s.dispatchCh) ⊆ cfg.feedIDs := by
    intro f hf
    rcases mem_cons.1 hf with rfl | hf
    · refine h.feeds f ?_
      rw [hloop]
      exact mem_cons_self ..
    · exact h.queued f hf
  have hlen := (subperm_of_subset (nodup_cons.2 ⟨hnew, hnodup⟩) hsub).length_le
  have hjobs : cfg.feedIDs.length ≤ cfg.jobs.length := by
    simpa [RunnerConfig.feedIDs] using (dedup_sublist (cfg.jobs.map (·.feedID))).length_le
  rw [length_cons] at hlen
  rw [RunnerConfig.bufSize, if_neg (by omega)]
  omega

theorem Dispatched.returned (h : Dispatched cfg s) (hloop : s.loop = .returned) :
    s.queueDepth = 0 ∧ s.inFlightN = 0 ∧ s.inFlight = 0 := by
  have hzero : s.inFlight = 0 := (h.drained (h.joined (.inr hloop))).2
  have hexits := h.exits hloop
  have hsum : ∀ g : WorkerPhase → ℕ, g .exited = 0 → (s.workers.map g).sum = 0 := by
    intro g hg
    rw [sum_eq_zero]
    intro n hn
    obtain ⟨w, hw, rfl⟩ := mem_map.1 hn
    rw [hexits w hw, hg]
  have hdepth := h.depth
  have hflying := h.flying
  have hwaits := h.waits
  have hloopDepth : s.loop.depth = 0 := by rw [hloop]; rfl
  rw [hsum (·.depth) rfl, depthAhead, hloopDepth] at hdepth
  rw [hsum (·.flying) rfl] at hflying
  rw [hsum (·.waits) rfl, waitsAhead] at hwaits
  exact ⟨by omega, by omega, hzero⟩

theorem Dispatched.safe (h : Dispatched cfg s) : DispatchSafe cfg s where
  single f := by
    have h1 := h.single f
    have h2 := Bool.toNat_le (s.running f)
    rw [count_append, executing, count_executing]
    simp only [entries, ahead] at h1
    omega
  bounded := by
    rw [← h.workers]
    exact length_filterMap_le ..
  room id now rest hloop := by
    refine ⟨h.room hloop, ?_⟩
    rw [← h.closed, hloop]
    rfl
  nonneg := by
    rw [h.waits]
    omega
  depth := by
    rw [h.depth, depthAhead]
    push_cast
    rfl
  flying := by
    rw [h.flying, executing, length_executing]
    push_cast
    rfl
  returned := h.returned

/-- **The scheduler keeps count**, in every state of every run, for every set of jobs. -/
theorem always_dispatchSafe (cfg : RunnerConfig) (now : ℤ) (failures : ℕ → ℕ)
    (acts : List RunnerAct) :
    Always (Runner.step cfg) (DispatchSafe cfg) (Runner.new cfg now failures) acts := by
  have halways : Always (Runner.step cfg) (Dispatched cfg) (Runner.new cfg now failures) acts :=
    always_of_step (fun s a hs => Dispatched.step hs a) acts _ (dispatched_new cfg now failures)
  exact halways.mono fun s hs => hs.safe

end AnimeFeedFlux
