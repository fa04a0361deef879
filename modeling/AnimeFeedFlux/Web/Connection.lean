import AnimeFeedFlux.Lib.Machine

/-!
# What the shell shows of the connection

`wsconn.watchConnectivity` turns the connectivity states it observes into events, and
`appstate.Transition` turns events into the state of the application.  A failure is reported only
when the state observed before it was `Ready`; an idle or connecting spell in between hides it.
-/

namespace AnimeFeedFlux.Web

open Machine

/-- `connectivity.State`. -/
inductive Connectivity
  | idle
  | connecting
  | ready
  | transientFailure
  | shutdown
  deriving DecidableEq, Repr

/-- `appstate.State`. -/
inductive AppState
  | anon
  | auth
  | elevated
  | disconnected
  | killed
  deriving DecidableEq, Repr

/-- `appstate.Event`. -/
inductive AppEvent
  | loginSuccess
  | recoveryCodeAccepted
  | recoveryComplete
  | logout
  | sessionExpired
  | wsDropped
  | wsReconnected
  | killSwitchOff
  | killSwitchOn
  deriving DecidableEq, Repr

/-- `Transition`: an event that does not fit the state leaves it unchanged. -/
def transition (current : AppState) (ev : AppEvent) : AppState × Bool :=
  match ev, current with
  | .loginSuccess, .anon => (.auth, true)
  | .recoveryCodeAccepted, .anon => (.elevated, true)
  | .recoveryComplete, .elevated => (.anon, true)
  | .logout, .auth | .logout, .disconnected | .logout, .killed | .logout, .elevated => (.anon, true)
  | .sessionExpired, .auth | .sessionExpired, .disconnected | .sessionExpired, .killed
  | .sessionExpired, .elevated => (.anon, true)
  | .wsDropped, .auth | .wsDropped, .killed => (.disconnected, true)
  | .wsReconnected, .disconnected => (.auth, true)
  | .killSwitchOff, .auth => (.killed, true)
  | .killSwitchOn, .killed => (.auth, true)
  | _, current => (current, false)

def Connectivity.fails : Connectivity → Bool
  | .transientFailure | .shutdown => true
  | _ => false

/-- What one turn of the loop of `watchConnectivity` emits. -/
def emitted (state next : Connectivity) : Option AppEvent :=
  match next with
  | .ready => if state ≠ .ready then some .wsReconnected else none
  | .transientFailure | .shutdown => if state = .ready then some .wsDropped else none
  | _ => none

/-- The watcher's last observation and the state of the application.  `down` says that the most
recent of the observed `Ready`, `TransientFailure` and `Shutdown` was a failure. -/
structure Shell where
  state : Connectivity := .ready
  app : AppState
  down : Bool := false
  deriving DecidableEq, Repr

/-- An observation, its event and what `Transition` makes of it. -/
def Shell.observe (s : Shell) (next : Connectivity) : Shell where
  state := next
  app := ((emitted s.state next).map fun ev => (transition s.app ev).1).getD s.app
  down := next.fails || s.down && next != .ready

/-- A failure is on screen. -/
def Shell.Shown (s : Shell) : Prop := s.down = true → s.app = .disconnected
deriving Decidable

/-- A failure of a connection that was up is observed from `Ready`. -/
def Shell.Direct (s : Shell) (next : Connectivity) : Prop :=
  next.fails = true → s.down = false → s.state = .ready
deriving Decidable

/-- What a shell with a session is like: it shows a disconnection only after a failure. -/
def Shell.Signed (s : Shell) : Prop :=
  (s.state = .ready → s.down = false) ∧
    if s.down then s.app = .auth ∨ s.app = .killed ∨ s.app = .disconnected
    else s.app = .auth ∨ s.app = .killed
deriving Decidable

theorem Shell.Signed.observe {s : Shell} (h : s.Signed) (next : Connectivity) :
    (s.observe next).Signed := by
  obtain ⟨state, app, down⟩ := s
  obtain ⟨hready, happ⟩ := h
  cases down
  · rcases happ with rfl | rfl <;> cases next <;> cases state <;> decide
  · rcases happ with rfl | rfl | rfl <;> cases next <;> cases state <;>
      first | exact absurd (hready rfl) nofun | decide

/-- Once a failure is on screen it stays there, so only the observation of a new one counts. -/
theorem Shell.shown_observe_iff {s : Shell} (h : s.Signed) (hshown : s.Shown)
    (next : Connectivity) : (s.observe next).Shown ↔ s.Direct next := by
  obtain ⟨state, app, down⟩ := s
  cases down
  · rcases h.2 with rfl | rfl <;> cases next <;> cases state <;> decide
  · obtain rfl := hshown rfl
    cases next <;> cases state <;> first | exact absurd (h.1 rfl) nofun | decide

/-- The shell of a session, with the kill switch off or on. -/
def Shell.start (killed : Bool) : Shell := { app := if killed then .killed else .auth }

/-- **A disconnection is on screen after every observation exactly when every failure of a
connection that was up is observed directly from `Ready`.** -/
theorem shown_iff_direct (killed : Bool) (obs : List Connectivity) :
    Always Shell.observe Shell.Shown (Shell.start killed) obs ↔
      Meets Shell.observe Shell.Direct (Shell.start killed) obs := by
  refine always_iff_meets (fun _ next h => Shell.Signed.observe h next)
    (fun _ next h hshown => Shell.shown_observe_iff h hshown next) obs _ ?_ ?_ <;>
    cases killed <;> simp [Shell.start, Shell.Signed, Shell.Shown]

/-- A connection that goes idle and then fails: the application still says `AUTH`. -/
theorem not_shown_idleFailure :
    ¬Always Shell.observe Shell.Shown (Shell.start false) [.idle, .transientFailure] :=
  fun h => absurd h.last (by decide)

end AnimeFeedFlux.Web
