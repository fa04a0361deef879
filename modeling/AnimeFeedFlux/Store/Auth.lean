import AnimeFeedFlux.Auth.Credentials
import AnimeFeedFlux.Lib.Table

/-!
# The authentication tables

The tables of `internal/store/auth.go` and its functions, each the effect of one statement or
one transaction.  A function that writes returns the database afterwards together with its
answer; one that fails returns the database it was given.
-/

namespace AnimeFeedFlux

open Auth

/-- The errors of `internal/store/auth.go`: its sentinels, a violated constraint, a timestamp
`time.Parse` refuses, and everything else a statement can fail with. -/
inductive AuthStoreError
  | notFound
  | adminExists
  | totpReplay
  | recoveryCodeUsed
  | resetTokenInvalid
  | constraint
  | unparsable
  | io
  deriving DecidableEq, Repr

/-- What a store function answers. -/
abbrev Stored (α : Type) := Except AuthStoreError α

/-- The row of `admin`, of which there is at most one. -/
structure Admin where
  passwordHash : PasswordHash
  kdfParams : String
  totpSecretEnc : Option SealedSecret := none
  createdAt : ℤ
  passwordChangedAt : Option ℤ := none
  pepperVersion : ℤ := 0
  deriving DecidableEq, Repr

/-- A row of `totp_used`, keyed by the step. -/
structure TOTPUsed where
  step : ℤ
  codeHash : Digest
  usedAt : ℤ
  deriving DecidableEq, Repr

/-- A row of `recovery_codes`. -/
structure RecoveryCode where
  id : ℕ
  codeHash : Digest
  usedAt : Option ℤ := none
  deriving DecidableEq, Repr

/-- The `scope` of a row of `sessions`, which its `CHECK` limits to these two. -/
inductive SessionScope
  | full
  | elevated
  deriving DecidableEq, Repr

/-- A row of `sessions`. -/
structure SessionRow extends Session where
  id : ℕ
  scope : SessionScope := .full
  deriving DecidableEq, Repr

/-- A row of `password_reset_tokens`. -/
structure ResetToken where
  id : ℕ
  tokenHash : Digest
  expiresAt : ℤ
  usedAt : Option ℤ := none
  deriving DecidableEq, Repr

/-- A row of `auth_events`. -/
structure AuthEvent where
  recordedAt : ℤ
  kind : String
  ip : String
  ok : Bool
  detail : String
  deriving DecidableEq, Repr

abbrev RecoveryCodes := Table RecoveryCode.id RecoveryCode.codeHash

abbrev Sessions := Table SessionRow.id fun s => s.toSession.tokenHash

/-- `password_reset_tokens`. -/
abbrev ResetTokens := Table ResetToken.id ResetToken.tokenHash

/-- The authentication tables. -/
structure AuthDB where
  admin : Option Admin := none
  totpUsed : List TOTPUsed := []
  recoveryCodes : RecoveryCodes := Table.empty
  sessions : Sessions := Table.empty
  resetTokens : ResetTokens := Table.empty
  authEvents : List AuthEvent := []
  deriving DecidableEq

namespace AuthDB

/-- A timestamp column that `time.Parse` reads back. -/
def scans (t : ℤ) : Bool := (parseTime t).isSome

/-! ## The admin row -/

variable (db : AuthDB)

def initAdmin (now : ℤ) (hash : PasswordHash) (kdfParams : String) : AuthDB × Stored Unit :=
  match db.admin with
  | some _ => (db, .error .adminExists)
  | none =>
    ({ db with admin := some { passwordHash := hash, kdfParams := kdfParams,
                               createdAt := now } }, .ok ())

def getAdmin : Stored Admin :=
  match db.admin with
  | none => .error .notFound
  | some a => if scans a.createdAt && a.passwordChangedAt.all scans then .ok a
      else .error .unparsable

def updatePasswordAndPepper (now : ℤ) (hash : PasswordHash) (kdfParams : String)
    (pepperVersion : ℤ) : AuthDB × Stored Unit :=
  match db.admin with
  | none => (db, .error .notFound)
  | some a =>
    ({ db with admin := some { a with passwordHash := hash, kdfParams := kdfParams,
                                      passwordChangedAt := some now,
                                      pepperVersion := pepperVersion } }, .ok ())

def setTOTPSecret (encrypted : SealedSecret) : AuthDB × Stored Unit :=
  match db.admin with
  | none => (db, .error .notFound)
  | some a => ({ db with admin := some { a with totpSecretEnc := some encrypted } }, .ok ())

/-- `GetTOTPSecret`; a missing secret is `none`. -/
def getTOTPSecret : Stored (Option SealedSecret) :=
  match db.admin with
  | none => .error .notFound
  | some a => .ok a.totpSecretEnc

/-- `MarkTOTPStepUsed`: the primary key refuses a step that is there already. -/
def markTOTPStepUsed (now step : ℤ) (codeHash : Digest) : AuthDB × Stored Unit :=
  if db.totpUsed.any (·.step == step) then (db, .error .totpReplay)
  else ({ db with totpUsed := db.totpUsed ++ [⟨step, codeHash, now⟩] }, .ok ())

/-! ## Recovery codes -/

/-- The `INSERT`s of `StoreRecoveryCodes`, one row a hash. -/
def insertCodes (t : RecoveryCodes) (hashes : List Digest) : Option RecoveryCodes :=
  hashes.foldlM (fun t h => t.insert (fun n => { id := n, codeHash := h }) fun _ => rfl) t

/-- `StoreRecoveryCodes`: one transaction that replaces the whole set. -/
def storeRecoveryCodes (hashes : List Digest) : AuthDB × Stored Unit :=
  match insertCodes Table.empty hashes with
  | none => (db, .error .constraint)
  | some t => ({ db with recoveryCodes := t }, .ok ())

/-- `allRecoveryCodeHashes`: used and unused, in the order of the ids. -/
def allRecoveryCodeHashes : List Digest := db.recoveryCodes.rows.map (·.codeHash)

/-- The `SELECT` of `UseRecoveryCode`: the id at an offset. -/
def recoveryCodeIDAt (index : ℕ) : Stored ℕ :=
  match db.recoveryCodes.rows[index]? with
  | none => .error .notFound
  | some c => .ok c.id

/-- The rows the `UPDATE` of `UseRecoveryCode` selects. -/
def isUnusedCode (id : ℕ) (c : RecoveryCode) : Bool := c.id == id && c.usedAt.isNone

/-- The `UPDATE` of `UseRecoveryCode`. -/
def markRecoveryCodeUsed (now : ℤ) (id : ℕ) : AuthDB × Stored Unit :=
  if db.recoveryCodes.rows.any (isUnusedCode id) then
    ({ db with recoveryCodes := db.recoveryCodes.modify (isUnusedCode id)
                 (fun c => { c with usedAt := some now }) (fun _ => rfl) (fun _ => rfl) }, .ok ())
  else (db, .error .recoveryCodeUsed)

def countUnusedRecoveryCodes : ℕ :=
  db.recoveryCodes.rows.countP (·.usedAt.isNone)

/-! ## Sessions -/

/-- `CreateSession`: the id of the new row. -/
def createSession (sess : Session) : AuthDB × Stored ℕ :=
  match db.sessions.insert (fun n => { toSession := sess, id := n }) fun _ => rfl with
  | none => (db, .error .constraint)
  | some t => ({ db with sessions := t }, .ok db.sessions.nextID)

def getSessionByTokenHash (hash : Digest) : Stored Session :=
  match db.sessions.byKey hash with
  | none => .error .notFound
  | some r =>
    if scans r.createdAt && scans r.lastSeenAt && scans r.expiresAt && r.revokedAt.all scans
    then .ok r.toSession else .error .unparsable

def sessionIDByHash (hash : Digest) : Stored ℕ :=
  match db.sessions.byKey hash with
  | none => .error .notFound
  | some r => .ok r.id

/-- `UPDATE sessions SET … WHERE id = ?`, which must find its row. -/
def updateSession (id : ℕ) (f : SessionRow → SessionRow) (hid : ∀ r, (f r).id = r.id)
    (hkey : ∀ r, (f r).tokenHash = r.tokenHash) : AuthDB × Stored Unit :=
  if db.sessions.rows.any (·.id == id) then
    ({ db with sessions := db.sessions.modify (·.id == id) f hid hkey }, .ok ())
  else (db, .error .notFound)

theorem mem_updateSession {db : AuthDB} {id : ℕ} {f : SessionRow → SessionRow}
    {hid : ∀ r, (f r).id = r.id} {hkey : ∀ r, (f r).tokenHash = r.tokenHash}
    (h : (db.updateSession id f hid hkey).2 = .ok ()) :
    ∃ row, row.id = id ∧ f row ∈ (db.updateSession id f hid hkey).1.sessions.rows := by
  unfold AuthDB.updateSession at h ⊢
  by_cases hany : db.sessions.rows.any (·.id == id) = true
  · rw [if_pos hany]
    obtain ⟨row, hrow, hrid⟩ := List.any_eq_true.1 hany
    exact ⟨row, beq_iff_eq.1 hrid, List.mem_map.2 ⟨row, hrow, if_pos hrid⟩⟩
  · rw [if_neg hany] at h
    cases h

def touchSession (id : ℕ) (seen : ℤ) : AuthDB × Stored Unit :=
  db.updateSession id (fun r => { r with lastSeenAt := seen }) (fun _ => rfl) fun _ => rfl

/-- `revoked_at = COALESCE(revoked_at, ?)`. -/
def revoke (now : ℤ) (r : SessionRow) : SessionRow :=
  { r with revokedAt := r.revokedAt <|> some now }

def revokeSession (now : ℤ) (id : ℕ) : AuthDB × Stored Unit :=
  db.updateSession id (revoke now) (fun _ => rfl) fun _ => rfl

/-- The table after every live session has been revoked. -/
def revokeAll (t : Sessions) (now : ℤ) : Sessions :=
  t.modify (·.revokedAt.isNone) (revoke now) (fun _ => rfl) fun _ => rfl

def revokeAllSessions (now : ℤ) : AuthDB × Stored Unit :=
  ({ db with sessions := revokeAll db.sessions now }, .ok ())

/-- The `SELECT` of `revokeOtherSessions`. -/
def otherSessionIDs (keep : Digest) : List ℕ :=
  (db.sessions.rows.filter fun r => r.tokenHash != keep && r.revokedAt.isNone).map (·.id)

/-- The `COUNT` of `RevokeAllSessions`. -/
def countLiveSessions : ℕ := db.sessions.rows.countP (·.revokedAt.isNone)

def setSessionScope (id : ℕ) (scope : SessionScope) : AuthDB × Stored Unit :=
  db.updateSession id (fun r => { r with scope := scope }) (fun _ => rfl) fun _ => rfl

def sessionScope (id : ℕ) : Stored SessionScope :=
  match db.sessions.byID id with
  | none => .error .notFound
  | some r => .ok r.scope

/-! ## Reset tokens -/

def createPasswordResetToken (tokenHash : Digest) (expiresAt : ℤ) : AuthDB × Stored Unit :=
  match db.resetTokens.insert
      (fun n => { id := n, tokenHash := tokenHash, expiresAt := expiresAt }) fun _ => rfl with
  | none => (db, .error .constraint)
  | some t => ({ db with resetTokens := t }, .ok ())

/-- `used_at IS NULL AND expires_at > ?`, a comparison of texts. -/
def isActive (now : ℤ) (t : ResetToken) : Bool :=
  t.usedAt.isNone && decide (formatTime now < formatTime t.expiresAt)

def activeResetTokenHashes (now : ℤ) : List Digest :=
  (db.resetTokens.rows.filter (isActive now)).map (·.tokenHash)

/-- The rows the first `UPDATE` of `CompletePasswordReset` selects. -/
def isConsumed (tokenHash : Digest) (now : ℤ) (t : ResetToken) : Bool :=
  t.tokenHash == tokenHash && isActive now t

/-- `CompletePasswordReset`: one transaction that consumes the token, writes the password and
revokes every session.  The write is not checked for having found the admin row. -/
def completePasswordReset (tokenHash : Digest) (now : ℤ) (newHash : PasswordHash)
    (kdfParams : String) (pepperVersion : ℤ) : AuthDB × Stored Unit :=
  if db.resetTokens.rows.any (isConsumed tokenHash now) then
    ({ db with
        resetTokens := db.resetTokens.modify (isConsumed tokenHash now)
          (fun t => { t with usedAt := some now }) (fun _ => rfl) (fun _ => rfl)
        admin := (db.updatePasswordAndPepper now newHash kdfParams pepperVersion).1.admin
        sessions := revokeAll db.sessions now }, .ok ())
  else (db, .error .resetTokenInvalid)

/-! ## Events -/

def recordAuthEvent (now : ℤ) (kind ip : String) (ok : Bool) (detail : String) :
    AuthDB × Stored Unit :=
  ({ db with authEvents := db.authEvents ++ [⟨now, kind, ip, ok, detail⟩] }, .ok ())

end AuthDB

end AnimeFeedFlux
