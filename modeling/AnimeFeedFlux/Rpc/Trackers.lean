import AnimeFeedFlux.Store.Schema

/-!
# What the server keeps in memory

The three mutex-guarded maps of the control plane, each operation one critical section: the
failed attempts per address (`backoffTracker`), the elevated sessions (`elevatedTracker`),
and the login tickets of the bridge (`TicketStore`).  A restart empties all three.
-/

namespace AnimeFeedFlux

/-! ## `backoffTracker` -/

structure BackoffState where
  failures : ℕ := 0
  blockedUntil : ℤ
  deriving DecidableEq, Repr

/-- `backoffTracker.m`, by address. -/
abbrev BackoffTracker := String → Option BackoffState

/-- `backoffDelay`: nothing for two failures, then doubling up to a minute. -/
def backoffDelay (failures : ℕ) : ℤ :=
  if failures ≤ 2 then 0
  else min (Time.second * 2 ^ min (failures - 2) 6) (60 * Time.second)

def backoffRetention : ℤ := 15 * Time.minute

namespace BackoffTracker

def blocked (t : BackoffTracker) (ip : String) (now : ℤ) : Bool :=
  match t ip with
  | none => false
  | some st => now < st.blockedUntil

def sweepLocked (t : BackoffTracker) (now : ℤ) : BackoffTracker := fun ip =>
  (t ip).filter fun st => now - backoffRetention ≤ st.blockedUntil

def recordFailure (t : BackoffTracker) (ip : String) (now : ℤ) : BackoffTracker :=
  let swept := t.sweepLocked now
  let failures := (swept ip).elim 0 (·.failures) + 1
  Function.update swept ip (some ⟨failures, now + backoffDelay failures⟩)

def recordSuccess (t : BackoffTracker) (ip : String) : BackoffTracker :=
  Function.update t ip none

end BackoffTracker

/-! ## `elevatedTracker` -/

/-- `elevatedTracker.m`: until when the session with a token hash is elevated. -/
abbrev ElevatedTracker := Digest → Option ℤ

namespace ElevatedTracker

def mark (t : ElevatedTracker) (tokenHash : Digest) (deadline : ℤ) : ElevatedTracker :=
  Function.update t tokenHash (some deadline)

/-- `isElevated`, which forgets an entry that has run out. -/
def isElevated (t : ElevatedTracker) (tokenHash : Digest) (now : ℤ) : ElevatedTracker × Bool :=
  match t tokenHash with
  | none => (t, false)
  | some deadline => if now < deadline then (t, true) else (Function.update t tokenHash none, false)

def clear (t : ElevatedTracker) (tokenHash : Digest) : ElevatedTracker :=
  Function.update t tokenHash none

end ElevatedTracker

/-! ## `TicketStore` -/

structure TicketEntry where
  rawSessionToken : String
  expiresAt : ℤ
  deriving DecidableEq, Repr

/-- `TicketStore.m`, by the hash of the ticket. -/
abbrev TicketStore := Digest → Option TicketEntry

def defaultTicketTTL : ℤ := 20 * Time.second

def hashTicket (raw : String) : Digest := ⟨raw⟩

namespace TicketStore

/-- `Issue`, given the ticket it draws: the expiry, unless there is no session token. -/
def issue (t : TicketStore) (now : ℤ) (rawSessionToken ticket : String) : TicketStore × Option ℤ :=
  if rawSessionToken = "" then (t, none)
  else
    (Function.update t (hashTicket ticket) (some ⟨rawSessionToken, now + defaultTicketTTL⟩),
      some (now + defaultTicketTTL))

/-- `Redeem`: the lookup and the delete are one critical section; the expiry is looked at
after it. -/
def redeem (t : TicketStore) (now : ℤ) (ticket : String) : TicketStore × Option String :=
  if ticket = "" then (t, none)
  else
    match t (hashTicket ticket) with
    | none => (t, none)
    | some entry =>
      (Function.update t (hashTicket ticket) none,
        if now < entry.expiresAt then some entry.rawSessionToken else none)

end TicketStore

end AnimeFeedFlux
