import AnimeFeedFlux.Lib.Machine
import Mathlib.Data.Int.Notation
import Mathlib.Data.List.Dedup

/-!
# The scheduler and its workers

`Runner.Run` is one loop that hands feeds to `maxConcurrent` workers over a buffered channel.
The state they share is a few maps behind a mutex, two counters that are updated atomically and a
`WaitGroup`.  The model is a machine whose step is one such access: a section under the mutex, an
atomic addition, a send or a receive.  Between any two of them everybody else may run.

What the machine leaves open is for its labels to say: when timers fire and in which order a map
is ranged over, what the gate and the executor answer, which ready case a `select` takes, when
the context is cancelled and when sampling takes a slot of the semaphore.
-/

namespace AnimeFeedFlux

/-! ## Configuration -/

structure Job where
  feedID : ℕ
  slug : String
  next : ℤ → ℤ

/-- What `New` is given.  `offset` is `Offset` with the jitter window. -/
structure RunnerConfig where
  jobs : List Job
  maxConcurrent : ℕ := 3
  providerLimit : ℕ := 4
  maxConsecutiveFailures : ℕ := 5
  offset : String → ℤ

namespace RunnerConfig

/-- An entry of the map `jobs`: a later job replaces an earlier one of its feed. -/
def job? (cfg : RunnerConfig) (id : ℕ) : Option Job := cfg.jobs.reverse.find? (·.feedID == id)

/-- The keys of the map `jobs`. -/
def feedIDs (cfg : RunnerConfig) : List ℕ := (cfg.jobs.map (·.feedID)).dedup

/-- The size of the buffer of `dispatchCh`. -/
def bufSize (cfg : RunnerConfig) : ℕ := if cfg.jobs.length = 0 then 1 else cfg.jobs.length

/-- `Job.Next` of the job of a feed. -/
def nextOf (cfg : RunnerConfig) (id : ℕ) (after : ℤ) : ℤ :=
  match cfg.job? id with
  | some j => j.next after
  | none => 0

/-- `dueTime`: the nominal time and the jitter of the feed. -/
def dueTime (cfg : RunnerConfig) (id : ℕ) (nominal : ℤ) : ℤ :=
  match cfg.job? id with
  | some j => nominal + cfg.offset j.slug
  | none => nominal

end RunnerConfig

/-! ## Where everybody stands -/

/-- Where `maybeDispatch` stands, by what it has done last. -/
inductive DispatchPhase
  | entered
  /-- The first look at `disabled` and `running` is over. -/
  | looked
  /-- The gate has let the feed through. -/
  | allowed
  /-- `running` is set. -/
  | marked
  /-- `queueDepth` is raised. -/
  | counted
  /-- `inFlight` is raised; at the `select`. -/
  | sending
  /-- The context was done, and `inFlight` is lowered again. -/
  | withdrawn
  /-- `queueDepth` is lowered again. -/
  | uncounted
  /-- Returned. -/
  | finished
  deriving DecidableEq, Repr

/-- Where `Run` stands.  In the inner loop `rest` are the feeds still to come. -/
inductive LoopPhase
  /-- At the `select`, or at the receive from the context if no feed is to fire. -/
  | sleeping
  | firing (now : ℤ) (rest : List ℕ)
  | dispatching (p : DispatchPhase) (id : ℕ) (now : ℤ) (rest : List ℕ)
  /-- The context is done; before `close(r.dispatchCh)`. -/
  | closing
  /-- In `shutdown`, at the `select`. -/
  | waiting
  /-- Past the deadline, with the cancel functions still to be called. -/
  | cancelling (ctxs : List ℕ)
  /-- At the last receive from `done`. -/
  | draining
  /-- At `wg.Wait()`. -/
  | joining
  | returned
  deriving DecidableEq, Repr

/-- Where `runOne` stands, by what it has done last; `ctx` is its context. -/
inductive JobPhase
  | received
  /-- `queueDepth` is lowered. -/
  | dequeued
  /-- `inFlightN` is raised; at `providerSem.Acquire`. -/
  | started
  | acquired
  /-- `withRunTimeout` has made the context. -/
  | contexted (ctx : ℕ)
  /-- The cancel function is in `runCancel`; in `Execute`. -/
  | executing (ctx : ℕ)
  | executed (ctx : ℕ) (failed : Bool)
  /-- After `recordOutcome`, with the deferred calls to come. -/
  | recorded (ctx : ℕ)
  /-- The cancel function is out of `runCancel`. -/
  | unregistered (ctx : ℕ)
  /-- The context is cancelled. -/
  | ended
  | released
  /-- `inFlight` is lowered. -/
  | waited
  /-- `inFlightN` is lowered. -/
  | uncounted
  deriving DecidableEq, Repr

/-- Where a worker stands. -/
inductive WorkerPhase
  /-- At the receive of the `range`. -/
  | receiving
  | working (p : JobPhase) (id : ℕ)
  | exited
  deriving DecidableEq, Repr

/-- The Runner at work. -/
structure Runner where
  loop : LoopPhase
  workers : List WorkerPhase
  /-- What is in the buffer, the next to be received first. -/
  dispatchCh : List ℕ
  closed : Bool
  running : ℕ → Bool
  disabled : ℕ → Bool
  failures : ℕ → ℕ
  /-- The contexts whose cancel functions are registered. -/
  runCancel : ℕ → Option ℕ
  queueDepth : ℤ
  inFlightN : ℤ
  inFlight : ℤ
  /-- The slots of the semaphore that are taken, by runs and by sampling. -/
  providerSem : ℕ
  sampling : ℕ
  next : ℕ → ℤ
  /-- Whether the context of `Run` is cancelled. -/
  ctxDone : Bool
  /-- The number of run contexts made so far, which names the next one. -/
  contexts : ℕ
  cancelled : ℕ → Bool
  /-- Whether `done` of `shutdown` is closed. -/
  drained : Bool

/-- `New`, `seedFailures` and the beginning of `Run`. -/
def Runner.new (cfg : RunnerConfig) (now : ℤ) (failures : ℕ → ℕ) : Runner where
  loop := .sleeping
  workers := List.replicate cfg.maxConcurrent .receiving
  dispatchCh := []
  closed := false
  running _ := false
  disabled _ := false
  failures
  runCancel _ := none
  queueDepth := 0
  inFlightN := 0
  inFlight := 0
  providerSem := 0
  sampling := 0
  next id := cfg.nextOf id now
  ctxDone := false
  contexts := 0
  cancelled _ := false
  drained := false

/-! ## Steps -/

/-- `recordOutcome`, as far as the maps go. -/
def recordOutcome (maxConsecutiveFailures : ℕ) (failures : ℕ → ℕ) (disabled : ℕ → Bool) (id : ℕ)
    (failed : Bool) : (ℕ → ℕ) × (ℕ → Bool) :=
  if failed then
    let n := failures id + 1
    (Function.update failures id n,
      if maxConsecutiveFailures ≤ n && !disabled id then Function.update disabled id true
      else disabled)
  else (Function.update failures id 0, disabled)

namespace Runner

variable (cfg : RunnerConfig)

/-- The next step of `maybeDispatch`.  `choice` is the answer of the gate and, at the `select`,
whether the send is taken. -/
def stepDispatch (s : Runner) (choice : Bool) (id : ℕ) (now : ℤ) (rest : List ℕ) :
    DispatchPhase → Runner
  | .entered =>
    { s with loop := .dispatching (if s.disabled id || s.running id then .finished else .looked)
                       id now rest }
  | .looked => { s with loop := .dispatching (if choice then .allowed else .finished) id now rest }
  | .allowed =>
    if s.running id then { s with loop := .dispatching .finished id now rest }
    else { s with running := Function.update s.running id true,
                  loop := .dispatching .marked id now rest }
  | .marked => { s with queueDepth := s.queueDepth + 1, loop := .dispatching .counted id now rest }
  | .counted => { s with inFlight := s.inFlight + 1, loop := .dispatching .sending id now rest }
  | .sending =>
    if choice then
      -- A send that finds the buffer full waits; `Dispatched.room` shows that none does.
      if s.dispatchCh.length < cfg.bufSize && !s.closed then
        { s with dispatchCh := s.dispatchCh ++ [id], loop := .dispatching .finished id now rest }
      else s
    else if s.ctxDone then
      { s with inFlight := s.inFlight - 1, loop := .dispatching .withdrawn id now rest }
    else s
  | .withdrawn =>
    { s with queueDepth := s.queueDepth - 1, loop := .dispatching .uncounted id now rest }
  | .uncounted =>
    { s with running := Function.update s.running id false,
             loop := .dispatching .finished id now rest }
  -- The next time is counted from the nominal one.
  | .finished =>
    { s with next := Function.update s.next id (cfg.nextOf id (s.next id)),
             loop := .firing now rest }

/-- The next step of `Run`, timers apart. -/
def stepLoop (s : Runner) (choice : Bool) : Runner :=
  match s.loop with
  | .sleeping => if s.ctxDone then { s with loop := .closing } else s
  | .firing _ [] => { s with loop := .sleeping }
  | .firing now (id :: rest) =>
    if s.next id = 0 ∨ now < cfg.dueTime id (s.next id) then { s with loop := .firing now rest }
    else { s with loop := .dispatching .entered id now rest }
  | .dispatching p id now rest => s.stepDispatch cfg choice id now rest p
  | .closing => { s with closed := true, loop := .waiting }
  | .waiting => if s.drained then { s with loop := .joining } else s
  | .cancelling [] => { s with loop := .draining }
  | .cancelling (c :: cs) =>
    { s with cancelled := Function.update s.cancelled c true, loop := .cancelling cs }
  | .draining => if s.drained then { s with loop := .joining } else s
  | .joining => if s.workers.all (· == .exited) then { s with loop := .returned } else s
  | .returned => s

/-- Put the `i`-th worker somewhere else. -/
def move (s : Runner) (i : ℕ) (w : WorkerPhase) : Runner := { s with workers := s.workers.set i w }

/-- The next step of `runOne` of the `i`-th worker.  `failed` is the answer of the executor, where
a panic is a failure. -/
def stepJob (s : Runner) (i id : ℕ) (failed : Bool) : JobPhase → Runner
  | .received => { s with queueDepth := s.queueDepth - 1 }.move i (.working .dequeued id)
  | .dequeued => { s with inFlightN := s.inFlightN + 1 }.move i (.working .started id)
  | .started =>
    if s.providerSem < max 1 cfg.providerLimit then
      { s with providerSem := s.providerSem + 1 }.move i (.working .acquired id)
    else s
  | .acquired =>
    { s with contexts := s.contexts + 1 }.move i (.working (.contexted s.contexts) id)
  | .contexted c =>
    { s with runCancel := Function.update s.runCancel id (some c) }.move i
      (.working (.executing c) id)
  | .executing c => s.move i (.working (.executed c failed) id)
  | .executed c failed =>
    let r := recordOutcome cfg.maxConsecutiveFailures s.failures s.disabled id failed
    { s with failures := r.1, disabled := r.2 }.move i (.working (.recorded c) id)
  | .recorded c =>
    { s with runCancel := Function.update s.runCancel id none }.move i
      (.working (.unregistered c) id)
  | .unregistered c =>
    { s with cancelled := Function.update s.cancelled c true }.move i (.working .ended id)
  | .ended => { s with providerSem := s.providerSem - 1 }.move i (.working .released id)
  | .released => { s with inFlight := s.inFlight - 1 }.move i (.working .waited id)
  | .waited => { s with inFlightN := s.inFlightN - 1 }.move i (.working .uncounted id)
  | .uncounted => { s with running := Function.update s.running id false }.move i .receiving

/-- The next step of the `i`-th worker. -/
def stepWorker (s : Runner) (i : ℕ) (failed : Bool) : Runner :=
  match s.workers[i]? with
  | some .receiving =>
    match s.dispatchCh with
    | id :: rest => { s with dispatchCh := rest }.move i (.working .received id)
    | [] => if s.closed then s.move i .exited else s
  | some (.working p id) => s.stepJob cfg i id failed p
  | _ => s

end Runner

/-- What happens next. -/
inductive RunnerAct
  /-- The timer of the loop fires; the clock shows `now`, and the map is ranged over in the
  order given. -/
  | wake (now : ℤ) (order : List ℕ)
  | loop (choice : Bool)
  | worker (i : ℕ) (failed : Bool)
  /-- The context of `Run` is cancelled. -/
  | cancel
  /-- The timer of a run fires. -/
  | runTimeout (ctx : ℕ)
  /-- `inFlight.Wait()` of `shutdown` returns. -/
  | drain
  /-- The timer of `shutdown` fires; the map is ranged over in the order given. -/
  | deadline (order : List ℕ)
  /-- Sampling takes a slot of the semaphore, or gives it back. -/
  | sample (acquire : Bool)
  deriving DecidableEq, Repr

namespace LoopPhase

/-- Whether `Run` is in `shutdown`. -/
def shuttingDown : LoopPhase → Bool
  | .waiting | .cancelling _ | .draining | .joining | .returned => true
  | _ => false

end LoopPhase

/-- One step. -/
def Runner.step (cfg : RunnerConfig) (s : Runner) : RunnerAct → Runner
  | .wake now order =>
    -- Without a time to wait for there is no timer.
    if s.loop = .sleeping ∧ order.isPerm cfg.feedIDs ∧ (cfg.feedIDs.any fun id => s.next id != 0)
    then { s with loop := .firing now order }
    else s
  | .loop choice => s.stepLoop cfg choice
  | .worker i failed => s.stepWorker cfg i failed
  | .cancel => { s with ctxDone := true }
  | .runTimeout c =>
    if c < s.contexts then { s with cancelled := Function.update s.cancelled c true } else s
  | .drain => if s.loop.shuttingDown ∧ s.inFlight = 0 then { s with drained := true } else s
  | .deadline order =>
    if s.loop = .waiting ∧ order.isPerm cfg.feedIDs then
      { s with loop := .cancelling (order.filterMap s.runCancel) }
    else s
  | .sample true =>
    if s.providerSem < max 1 cfg.providerLimit then
      { s with providerSem := s.providerSem + 1, sampling := s.sampling + 1 }
    else s
  | .sample false =>
    if 0 < s.sampling then
      { s with providerSem := s.providerSem - 1, sampling := s.sampling - 1 }
    else s

end AnimeFeedFlux
