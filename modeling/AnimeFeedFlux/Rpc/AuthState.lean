import AnimeFeedFlux.Lib.Pool
import AnimeFeedFlux.Rpc.Trackers
import AnimeFeedFlux.Store.Auth

/-!
# The instructions of the authentication handlers

Everything a handler of `AuthServer` shares with the other calls: the database, the three
maps in memory and the clock.  A handler touches them only through the instructions below,
each of them atomic: one SQL statement, one transaction, or one critical section of a
tracker.  A store instruction can also fail, which answers it with an error and changes
nothing.
-/

namespace AnimeFeedFlux.Auth

/-- What the calls share. -/
structure AuthState where
  db : AuthDB := {}
  backoff : BackoffTracker := fun _ => none
  elevated : ElevatedTracker := fun _ => none
  tickets : TicketStore := fun _ => none
  clock : ℤ

structure CallerSession where
  id : ℕ
  tokenHash : Digest
  elevated : Bool
  deriving DecidableEq, Repr

/-- One atomic access to the shared state.  The last one touches nothing: it is the point at
which the interceptor hands the caller's session to the handler. -/
inductive Stmt
  | now
  | blocked (ip : String) (now : ℤ)
  | recordFailure (ip : String) (now : ℤ)
  | recordSuccess (ip : String)
  | mark (tokenHash : Digest) (deadline : ℤ)
  | isElevated (tokenHash : Digest) (now : ℤ)
  | clear (tokenHash : Digest)
  | issue (now : ℤ) (rawSessionToken ticket : String)
  | redeem (now : ℤ) (ticket : String)
  | initAdmin (hash : PasswordHash) (kdfParams : String)
  | getAdmin
  | updatePasswordAndPepper (hash : PasswordHash) (kdfParams : String) (pepperVersion : ℤ)
  | setTOTPSecret (encrypted : SealedSecret)
  | getTOTPSecret
  | markTOTPStepUsed (step : ℤ) (codeHash : Digest)
  | storeRecoveryCodes (hashes : List Digest)
  | allRecoveryCodeHashes
  | recoveryCodeIDAt (index : ℕ)
  | markRecoveryCodeUsed (id : ℕ)
  | countUnusedRecoveryCodes
  | createSession (sess : Session)
  | getSessionByTokenHash (hash : Digest)
  | sessionIDByHash (hash : Digest)
  | touchSession (id : ℕ) (seen : ℤ)
  | revokeSession (id : ℕ)
  | revokeAllSessions
  | otherSessionIDs (keep : Digest)
  | countLiveSessions
  | setSessionScope (id : ℕ) (scope : SessionScope)
  | sessionScope (id : ℕ)
  | createPasswordResetToken (tokenHash : Digest) (expiresAt : ℤ)
  | activeResetTokenHashes (now : ℤ)
  | completePasswordReset (tokenHash : Digest) (now : ℤ) (newHash : PasswordHash)
      (kdfParams : String) (pepperVersion : ℤ)
  | recordAuthEvent (kind ip : String) (ok : Bool) (detail : String)
  | vacuumInto
  | withCallerSession (cs : CallerSession)
  deriving DecidableEq

namespace Stmt

/-- What an instruction is answered. -/
@[reducible] def Reply : Stmt → Type
  | .now => ℤ
  | .blocked _ _ => Bool
  | .recordFailure _ _ => Unit
  | .recordSuccess _ => Unit
  | .mark _ _ => Unit
  | .isElevated _ _ => Bool
  | .clear _ => Unit
  | .issue _ _ _ => Option ℤ
  | .redeem _ _ => Option String
  | .initAdmin _ _ => Stored Unit
  | .getAdmin => Stored Admin
  | .updatePasswordAndPepper _ _ _ => Stored Unit
  | .setTOTPSecret _ => Stored Unit
  | .getTOTPSecret => Stored (Option SealedSecret)
  | .markTOTPStepUsed _ _ => Stored Unit
  | .storeRecoveryCodes _ => Stored Unit
  | .allRecoveryCodeHashes => Stored (List Digest)
  | .recoveryCodeIDAt _ => Stored ℕ
  | .markRecoveryCodeUsed _ => Stored Unit
  | .countUnusedRecoveryCodes => Stored ℕ
  | .createSession _ => Stored ℕ
  | .getSessionByTokenHash _ => Stored Session
  | .sessionIDByHash _ => Stored ℕ
  | .touchSession _ _ => Stored Unit
  | .revokeSession _ => Stored Unit
  | .revokeAllSessions => Stored Unit
  | .otherSessionIDs _ => Stored (List ℕ)
  | .countLiveSessions => Stored ℕ
  | .setSessionScope _ _ => Stored Unit
  | .sessionScope _ => Stored SessionScope
  | .createPasswordResetToken _ _ => Stored Unit
  | .activeResetTokenHashes _ => Stored (List Digest)
  | .completePasswordReset _ _ _ _ _ => Stored Unit
  | .recordAuthEvent _ _ _ _ => Stored Unit
  | .vacuumInto => Stored AuthDB
  | .withCallerSession _ => Unit

/-- A store function that writes. -/
def write {α : Type} (s : AuthState) (r : AuthDB × Stored α) : AuthState × Stored α :=
  ({ s with db := r.1 }, r.2)

/-- What an instruction does, and its answer. -/
def perform : (q : Stmt) → AuthState → AuthState × q.Reply
  | .now, s => (s, s.clock)
  | .blocked ip t, s => (s, s.backoff.blocked ip t)
  | .recordFailure ip t, s => ({ s with backoff := s.backoff.recordFailure ip t }, ())
  | .recordSuccess ip, s => ({ s with backoff := s.backoff.recordSuccess ip }, ())
  | .mark h deadline, s => ({ s with elevated := s.elevated.mark h deadline }, ())
  | .isElevated h t, s =>
    ({ s with elevated := (s.elevated.isElevated h t).1 }, (s.elevated.isElevated h t).2)
  | .clear h, s => ({ s with elevated := s.elevated.clear h }, ())
  | .issue t raw ticket, s =>
    ({ s with tickets := (s.tickets.issue t raw ticket).1 }, (s.tickets.issue t raw ticket).2)
  | .redeem t ticket, s =>
    ({ s with tickets := (s.tickets.redeem t ticket).1 }, (s.tickets.redeem t ticket).2)
  | .initAdmin hash kdf, s => write s (s.db.initAdmin s.clock hash kdf)
  | .getAdmin, s => (s, s.db.getAdmin)
  | .updatePasswordAndPepper hash kdf v, s =>
    write s (s.db.updatePasswordAndPepper s.clock hash kdf v)
  | .setTOTPSecret enc, s => write s (s.db.setTOTPSecret enc)
  | .getTOTPSecret, s => (s, s.db.getTOTPSecret)
  | .markTOTPStepUsed step h, s => write s (s.db.markTOTPStepUsed s.clock step h)
  | .storeRecoveryCodes hs, s => write s (s.db.storeRecoveryCodes hs)
  | .allRecoveryCodeHashes, s => (s, .ok s.db.allRecoveryCodeHashes)
  | .recoveryCodeIDAt i, s => (s, s.db.recoveryCodeIDAt i)
  | .markRecoveryCodeUsed id, s => write s (s.db.markRecoveryCodeUsed s.clock id)
  | .countUnusedRecoveryCodes, s => (s, .ok s.db.countUnusedRecoveryCodes)
  | .createSession sess, s => write s (s.db.createSession sess)
  | .getSessionByTokenHash h, s => (s, s.db.getSessionByTokenHash h)
  | .sessionIDByHash h, s => (s, s.db.sessionIDByHash h)
  | .touchSession id seen, s => write s (s.db.touchSession id seen)
  | .revokeSession id, s => write s (s.db.revokeSession s.clock id)
  | .revokeAllSessions, s => write s (s.db.revokeAllSessions s.clock)
  | .otherSessionIDs keep, s => (s, .ok (s.db.otherSessionIDs keep))
  | .countLiveSessions, s => (s, .ok s.db.countLiveSessions)
  | .setSessionScope id scope, s => write s (s.db.setSessionScope id scope)
  | .sessionScope id, s => (s, s.db.sessionScope id)
  | .createPasswordResetToken h e, s => write s (s.db.createPasswordResetToken h e)
  | .activeResetTokenHashes t, s => (s, .ok (s.db.activeResetTokenHashes t))
  | .completePasswordReset h t hash kdf v, s =>
    write s (s.db.completePasswordReset h t hash kdf v)
  | .recordAuthEvent kind ip ok detail, s =>
    write s (s.db.recordAuthEvent s.clock kind ip ok detail)
  | .vacuumInto, s => (s, .ok s.db)
  | .withCallerSession _, s => (s, ())

/-- The answer of a store instruction that fails; memory does not. -/
def fault : (q : Stmt) → Option q.Reply
  | .now => none
  | .blocked _ _ => none
  | .recordFailure _ _ => none
  | .recordSuccess _ => none
  | .mark _ _ => none
  | .isElevated _ _ => none
  | .clear _ => none
  | .issue _ _ _ => none
  | .redeem _ _ => none
  | .initAdmin _ _ => some (.error .io)
  | .getAdmin => some (.error .io)
  | .updatePasswordAndPepper _ _ _ => some (.error .io)
  | .setTOTPSecret _ => some (.error .io)
  | .getTOTPSecret => some (.error .io)
  | .markTOTPStepUsed _ _ => some (.error .io)
  | .storeRecoveryCodes _ => some (.error .io)
  | .allRecoveryCodeHashes => some (.error .io)
  | .recoveryCodeIDAt _ => some (.error .io)
  | .markRecoveryCodeUsed _ => some (.error .io)
  | .countUnusedRecoveryCodes => some (.error .io)
  | .createSession _ => some (.error .io)
  | .getSessionByTokenHash _ => some (.error .io)
  | .sessionIDByHash _ => some (.error .io)
  | .touchSession _ _ => some (.error .io)
  | .revokeSession _ => some (.error .io)
  | .revokeAllSessions => some (.error .io)
  | .otherSessionIDs _ => some (.error .io)
  | .countLiveSessions => some (.error .io)
  | .setSessionScope _ _ => some (.error .io)
  | .sessionScope _ => some (.error .io)
  | .createPasswordResetToken _ _ => some (.error .io)
  | .activeResetTokenHashes _ => some (.error .io)
  | .completePasswordReset _ _ _ _ _ => some (.error .io)
  | .recordAuthEvent _ _ _ _ => some (.error .io)
  | .vacuumInto => some (.error .io)
  | .withCallerSession _ => none

end Stmt

/-- A program of the control plane. -/
abbrev Handler (α : Type) := Prog Stmt.Reply α

/-- Issue one instruction. -/
abbrev ask (q : Stmt) : Handler q.Reply := Prog.ask q

end AnimeFeedFlux.Auth
