import AnimeFeedFlux.Rpc.AuthState
import AnimeFeedFlux.Rpc.Status

/-!
# The authentication service

The handlers of `AuthServer` (`internal/rpc/auth.go`), the interceptor's `authorize`
(`internal/rpc/interceptor.go`), `SystemServer.Backup`, and the redeeming of a ticket at an
upgrade, as programs over the instructions of `AuthState`.  What a handler draws at random
comes with the call (`Coins`).  Methods whose handlers leave the authentication tables alone
are one method, `other`, that ends with `authorize`.
-/

namespace AnimeFeedFlux.Auth

/-- `AuthServer`, its store and trackers apart. -/
structure AuthServer where
  prim : Primitives
  /-- `AFF_SECRET_KEY`. -/
  secretKey : String := ""
  /-- The hash verified when there is no admin, so that the answer takes as long. -/
  dummyHash : PasswordHash := .malformed ""
  pepperKey : String := ""
  pepperVersion : ℤ := 0
  /-- Whether a ticket store is wired. -/
  hasTickets : Bool := true
  /-- Whether this server is wired as the credential verifier of `SystemServer`. -/
  isVerifier : Bool := true
  devInsecureAuth : Bool := false

/-- `bridge.Session`, as far as the handlers read it. -/
structure BridgeSession where
  token : String := ""
  clientIP : String := ""
  deriving DecidableEq, Repr

/-- The context of a call. -/
structure Ctx where
  /-- The token put there by `ContextWithSessionToken`. -/
  sessionToken : String := ""
  bridge : Option BridgeSession := none
  /-- The `x-aff-session-token` metadata. -/
  header : Option String := none
  /-- The host of the peer address. -/
  peer : String := ""
  userAgent : String := ""
  deriving DecidableEq, Repr

def clientIP (ctx : Ctx) : String :=
  match ctx.bridge with
  | some b => if b.clientIP = "" then ctx.peer else b.clientIP
  | none => ctx.peer

def sessionTokenFromContext (ctx : Ctx) : Option String :=
  if ctx.sessionToken ≠ "" then some ctx.sessionToken
  else
    match ctx.bridge with
    | some b => if b.token = "" then none else some b.token
    | none => ctx.header.filter (· ≠ "")

/-- The random values a call draws. -/
structure Coins where
  salt : ℕ := 0
  sessionToken : String := ""
  ticket : String := ""
  secret : String := ""
  resetToken : String := ""
  codes : List String := []
  deriving DecidableEq, Repr

/-- The header a session credential travels in. -/
inductive SessionCredential
  | token (raw : String)
  | ticket (raw : String)
  deriving DecidableEq, Repr

/-- What `Login` and `RecoverWithCode` tell about the session they made. -/
structure Minted where
  id : ℕ
  session : Session
  credential : Option SessionCredential
  deriving DecidableEq, Repr

/-- The responses. -/
inductive Response
  | setup (provisioningURI : String) (recoveryCodes : List String)
  | login (minted : Minted)
  | recoverWithCode (minted : Minted) (remaining : ℕ)
  | logout
  | changePassword
  | revokeSession
  | revokeAllSessions (revoked : ℕ)
  | reenrollTOTP (provisioningURI : String)
  | regenerateRecoveryCodes (recoveryCodes : List String)
  | backup (dbFile : AuthDB)
  | resetTokenIssued (raw : String)
  | passwordReset
  | upgraded (rawSessionToken : String)
  | served
  deriving DecidableEq

/-- What a handler returns. -/
abbrev Result := Except RpcError Response

def fail (code : Code) (message : String) : RpcError := { code := code, message := message }

def errAuthFailed : RpcError := fail .unauthenticated "authentication failed"

def errNoSession : RpcError := fail .unauthenticated "no session"

def errSetupUnavailable : RpcError := fail .failedPrecondition "setup unavailable"

def elevatedSessionTTL : ℤ := 10 * Time.minute

/-- `kdfParamsString` of the default parameters. -/
def kdfParamsString : String := "argon2id m=65536,t=3,p=1"

/-- The otpauth URL `Enroll` returns beside a secret. -/
def enrollURI (secret : String) : String :=
  "otpauth://totp/AnimeFeedFlux:admin?secret=" ++ secret

namespace AuthServer

variable (s : AuthServer)

/-! ## Passwords and the second factor -/

def pepperKeyConfigured : Bool := s.pepperKey != "" && decide (0 < s.pepperVersion)

/-- `hashPassword`, with the salt it draws. -/
def hashPassword (password : String) (salt : ℕ) : Except String (PasswordHash × ℤ) :=
  if s.pepperKeyConfigured then
    (hashPeppered s.prim password defaultParams s.pepperKey salt).map (·, s.pepperVersion)
  else (hashPeppered s.prim password defaultParams "" salt).map (·, 0)

/-- `verifyPassword`; `none` is an error. -/
def verifyPassword (password : String) (hash : PasswordHash) (rowPepperVersion : ℤ) :
    Option Verified :=
  if rowPepperVersion = 0 then verifyPasswordPeppered s.prim password hash ""
  else if s.pepperKey = "" ∨ rowPepperVersion ≠ s.pepperVersion then
    -- The pepper of the row cannot be reproduced: the check runs, and fails.
    (verifyPasswordPeppered s.prim password hash "").map fun v => { v with ok := false }
  else verifyPasswordPeppered s.prim password hash s.pepperKey

/-- `!s.devInsecureAuth && s.backoff.blocked(ip, now)`. -/
def backedOff (ip : String) (now : ℤ) : Handler Bool :=
  if s.devInsecureAuth then return false else ask (.blocked ip now)

def verifyTOTPCode (code : String) (now : ℤ) : Handler (Stored Bool) := do
  match ← ask .getTOTPSecret with
  | .error _ => return .ok false
  | .ok none => return .ok false
  | .ok (some secretEnc) =>
    match decryptSecret secretEnc s.secretKey with
    | none => return .ok false
    | some secret =>
      match validateCode s.prim secret code now with
      | none => return .ok false
      | some step =>
        match ← ask (.markTOTPStepUsed step ⟨code⟩) with
        | .error .totpReplay => return .ok s.devInsecureAuth
        | .error e => return .error e
        | .ok () => return .ok true

/-- How `verifyCurrentCredentials` fails: `errCredentialCheckFailed`, or an error of its
own. -/
inductive CredentialError
  | checkFailed
  | internal
  deriving DecidableEq

/-- The end of `verifyCurrentCredentials`, on the verdict about the TOTP code. -/
def settleProof (ip : String) (now : ℤ) : Stored Bool → Handler (Except CredentialError Unit)
  | .error _ => return .error .internal
  | .ok false => do
    ask (.recordFailure ip now)
    return .error .checkFailed
  | .ok true => do
    ask (.recordSuccess ip)
    return .ok ()

/-- The checks of `verifyCurrentCredentials`, past the backoff. -/
def checkCredentials (ip password totpCode : String) (now : ℤ) :
    Handler (Except CredentialError Unit) := do
  match ← ask .getAdmin with
  | .error _ => return .error .internal
  | .ok admin =>
    match s.verifyPassword password admin.passwordHash admin.pepperVersion with
    | none => return .error .internal
    | some ⟨false, _⟩ =>
      ask (.recordFailure ip now)
      return .error .checkFailed
    | some ⟨true, _⟩ => s.verifyTOTPCode totpCode now >>= settleProof ip now

def verifyCurrentCredentials (ctx : Ctx) (password totpCode : String) (now : ℤ) :
    Handler (Except CredentialError Unit) := do
  if ← s.backedOff (clientIP ctx) now then return .error .checkFailed
  else s.checkCredentials (clientIP ctx) password totpCode now

/-! ## Sessions -/

/-- The session row `mintSession` writes. -/
def newSession (ctx : Ctx) (rawToken : String) (now expiresAt : ℤ) : Session :=
  { tokenHash := hashToken rawToken, createdAt := now, lastSeenAt := now,
    expiresAt := expiresAt, ip := clientIP ctx, userAgent := ctx.userAgent }

/-- `issueSessionCredential`: the header it sets. -/
def issueSessionCredential (ctx : Ctx) (now : ℤ) (rawToken ticket : String) :
    Handler (Option SessionCredential) := do
  if ctx.bridge.isNone then return some (.token rawToken)
  if !s.hasTickets then return none
  match ← ask (.issue now rawToken ticket) with
  | none => return none
  | some _ => return some (.ticket ticket)

/-- The loop of `revokeOtherSessions`; a row that is gone is not an error. -/
def revokeEach : List ℕ → Handler (Stored Unit)
  | [] => return .ok ()
  | id :: ids => do
    match ← ask (.revokeSession id) with
    | .ok () => revokeEach ids
    | .error .notFound => revokeEach ids
    | .error e => return .error e

def revokeOtherSessions (keep : Digest) : Handler (Stored Unit) := do
  match ← ask (.otherSessionIDs keep) with
  | .error e => return .error e
  | .ok ids => revokeEach ids

/-- `endElevatedSession`; whether the revocation went through is ignored. -/
def endElevatedSession (cs : CallerSession) : Handler Unit := do
  ask (.clear cs.tokenHash)
  let _ ← ask (.revokeSession cs.id)

/-! ## The interceptor -/

end AuthServer

/-- The methods `authorize` tells apart. -/
inductive Method
  | setup
  | login
  | recoverWithCode
  | logout
  | changePassword
  | revokeSession
  | revokeAllSessions
  | reenrollTOTP
  | regenerateRecoveryCodes
  | backup
  | other (fullMethod : String)
  deriving DecidableEq, Repr

def noSessionMethods : Method → Bool
  | .setup | .login | .recoverWithCode => true
  | _ => false

def elevatedAllowedMethods : Method → Bool
  | .changePassword | .reenrollTOTP => true
  | _ => false

/-- The write of `authorize`: a scope is persisted unless it is there already, and never over
an elevated one. -/
def settleScope (id : ℕ) (stored wantScope : SessionScope) : Handler (Stored Unit) :=
  if stored != wantScope && stored != .elevated then ask (.setSessionScope id wantScope)
  else return .ok ()

/-- `authorize`: the caller's session, `none` for a method that needs none. -/
def authorize (ctx : Ctx) (method : Method) : Handler (Except RpcError (Option CallerSession)) := do
  if noSessionMethods method then return .ok none
  match sessionTokenFromContext ctx with
  | none => return .error errNoSession
  | some raw =>
    let hash := hashToken raw
    match ← ask (.getSessionByTokenHash hash) with
    | .error _ => return .error (fail .unauthenticated "invalid session")
    | .ok sess =>
      let now ← ask .now
      if !sess.valid now sessionIdleTimeout then
        return .error (fail .unauthenticated "session expired")
      match ← ask (.sessionIDByHash hash) with
      | .error _ => return .error (fail .unauthenticated "invalid session")
      | .ok id =>
        let tracked ← ask (.isElevated hash now)
        match ← ask (.sessionScope id) with
        | .error _ => return .error (fail .internal "reading session scope")
        | .ok stored =>
          let elevated := tracked || stored == .elevated
          let wantScope := if elevated then SessionScope.elevated else .full
          match ← settleScope id stored wantScope with
          | .error _ => return .error (fail .internal "updating session scope")
          | .ok () =>
            if wantScope != .full && !elevatedAllowedMethods method then
              return .error (fail .permissionDenied
                "elevated session cannot reach this method")
            match ← ask (.touchSession id now) with
            | .error _ => return .error (fail .internal "touching session")
            | .ok () =>
              ask (.withCallerSession ⟨id, hash, elevated⟩)
              return .ok (some ⟨id, hash, elevated⟩)

namespace AuthServer

variable (s : AuthServer) (ctx : Ctx) (coins : Coins)

/-! ## The handlers -/

def setup (password : String) : Handler Result := do
  let ip := clientIP ctx
  match ← ask .getAdmin with
  | .ok _ =>
    let _ ← ask (.recordAuthEvent "setup" ip false "admin already exists")
    return .error errSetupUnavailable
  | .error .notFound =>
    match isWeak s.prim password with
    | some e => return .error (fail .invalidArgument e)
    | none =>
      match hashPeppered s.prim password defaultParams "" coins.salt with
      | .error _ => return .error (fail .internal "setup failed")
      | .ok hash =>
        -- `Setup` writes the parameters as JSON, unlike every later write.
        match ← ask (.initAdmin hash
          "\x7b\"Time\":3,\"Memory\":65536,\"Threads\":1,\"SaltLen\":16,\"KeyLen\":32\x7d") with
        | .error .adminExists =>
          let _ ← ask (.recordAuthEvent "setup" ip false "admin already exists")
          return .error errSetupUnavailable
        | .error _ => return .error (fail .internal "setup failed")
        | .ok () =>
          match ← ask (.setTOTPSecret (encryptSecret coins.secret s.secretKey)) with
          | .error _ => return .error (fail .internal "setup failed")
          | .ok () =>
            match ← ask (.storeRecoveryCodes (coins.codes.map hashRecoveryCode)) with
            | .error _ => return .error (fail .internal "setup failed")
            | .ok () =>
              let _ ← ask (.recordAuthEvent "setup" ip true "")
              return .ok (.setup (enrollURI coins.secret) coins.codes)
  | .error _ => return .error errSetupUnavailable

/-- The credential `Login` checks the password against: the admin row, or the dummy. -/
def loginCredential (admin : Stored Admin) : PasswordHash × ℤ :=
  match admin with
  | .ok a => (a.passwordHash, a.pepperVersion)
  | .error _ => (s.dummyHash, 0)

/-- `needsRehash || needsRepepper`. -/
def needsRewrite (v : Verified) (rowPepperVersion : ℤ) : Bool :=
  v.needsRehash || (s.pepperKeyConfigured && rowPepperVersion != s.pepperVersion)

/-- The transparent rewrite of `Login` (`rehashAdminPassword`); its failure is recorded and
otherwise ignored. -/
def rehashAdminPassword (ip password : String) (salt : ℕ) : Handler Unit := do
  match s.hashPassword password salt with
  | .error e =>
    let _ ← ask (.recordAuthEvent "login" ip true ("rehash failed: " ++ e))
  | .ok (hash, pepperVersion) =>
    match ← ask (.updatePasswordAndPepper hash kdfParamsString pepperVersion) with
    | .ok () => return ()
    | .error _ =>
      let _ ← ask (.recordAuthEvent "login" ip true
        "rehash failed: store: updating password and pepper version")

/-- A refused attempt: it counts against the address, is recorded, and is answered like every
other. -/
def refuse (kind ip : String) (now : ℤ) (detail : String) : Handler Result := do
  ask (.recordFailure ip now)
  let _ ← ask (.recordAuthEvent kind ip false detail)
  return .error errAuthFailed

/-- The end of `Login`: the session and its credential. -/
def loginSession (now : ℤ) : Handler Result := do
  let ip := clientIP ctx
  let sess := newSession ctx coins.sessionToken now (now + sessionAbsoluteLifetime)
  match ← ask (.createSession sess) with
  | .error _ => return .error (fail .internal "login failed")
  | .ok id =>
    ask (.recordSuccess ip)
    let _ ← ask (.recordAuthEvent "login" ip true "")
    let credential ← s.issueSessionCredential ctx now coins.sessionToken coins.ticket
    return .ok (.login ⟨id, sess, credential⟩)

/-- `Login` on the verdict about the TOTP code. -/
def loginProved (password : String) (now : ℤ) (rewrite : Bool) : Stored Bool → Handler Result
  | .error _ => return .error (fail .internal "login failed")
  | .ok false => refuse "login" (clientIP ctx) now "totp check failed"
  | .ok true => do
    if rewrite then s.rehashAdminPassword (clientIP ctx) password coins.salt
    s.loginSession ctx coins now

/-- The checks of `Login`, past the backoff. -/
def loginChecked (password totpCode : String) (now : ℤ) : Handler Result := do
  let admin ← ask .getAdmin
  let (hash, rowPepperVersion) := s.loginCredential admin
  match admin, s.verifyPassword password hash rowPepperVersion with
  | .ok _, some ⟨true, needsRehash⟩ =>
    s.verifyTOTPCode totpCode now >>= s.loginProved ctx coins password now
      (s.needsRewrite ⟨true, needsRehash⟩ rowPepperVersion)
  | _, _ => refuse "login" (clientIP ctx) now "credential check failed"

def login (password totpCode : String) : Handler Result := do
  let now ← ask .now
  if ← s.backedOff (clientIP ctx) now then
    let _ ← ask (.recordAuthEvent "login" (clientIP ctx) false "backoff active")
    return .error errAuthFailed
  else s.loginChecked ctx coins password totpCode now

/-- `UseRecoveryCode`: the position is resolved to an id first. -/
def useRecoveryCode (index : ℕ) : Handler (Stored Unit) := do
  match ← ask (.recoveryCodeIDAt index) with
  | .error e => return .error e
  | .ok id => ask (.markRecoveryCodeUsed id)

/-- The end of `RecoverWithCode`, once the code is consumed: an elevated session in place of
every other. -/
def recoverSession (now : ℤ) : Handler Result := do
  match ← ask .revokeAllSessions with
  | .error _ => return .error (fail .internal "recovery failed")
  | .ok () =>
    let sess := newSession ctx coins.sessionToken now (now + elevatedSessionTTL)
    match ← ask (.createSession sess) with
    | .error _ => return .error (fail .internal "recovery failed")
    | .ok id =>
      ask (.mark (hashToken coins.sessionToken) (now + elevatedSessionTTL))
      match ← ask (.setSessionScope id .elevated) with
      | .error _ => return .error (fail .internal "recovery failed")
      | .ok () =>
        match ← ask .countUnusedRecoveryCodes with
        | .error _ => return .error (fail .internal "recovery failed")
        | .ok remaining =>
          ask (.recordSuccess (clientIP ctx))
          let _ ← ask (.recordAuthEvent "recover" (clientIP ctx) true "")
          let credential ←
            s.issueSessionCredential ctx now coins.sessionToken coins.ticket
          return .ok (.recoverWithCode ⟨id, sess, credential⟩ remaining)

/-- `RecoverWithCode` on the verdict about the code's use. -/
def recoverUsed (now : ℤ) : Stored Unit → Handler Result
  | .error e =>
    if e = .recoveryCodeUsed ∨ e = .notFound then
      refuse "recover" (clientIP ctx) now "code already used"
    else return .error (fail .internal "recovery failed")
  | .ok () => s.recoverSession ctx coins now

/-- The checks of `RecoverWithCode`, past the backoff. -/
def recoverChecked (code : String) (now : ℤ) : Handler Result := do
  match ← ask .allRecoveryCodeHashes with
  | .error _ => return .error (fail .internal "recovery failed")
  | .ok hashes =>
    match verifyCode code hashes with
    | none => refuse "recover" (clientIP ctx) now "code not recognized"
    | some index => useRecoveryCode index >>= s.recoverUsed ctx coins now

def recoverWithCode (code : String) : Handler Result := do
  let now ← ask .now
  if ← s.backedOff (clientIP ctx) now then
    let _ ← ask (.recordAuthEvent "recover" (clientIP ctx) false "backoff active")
    return .error errAuthFailed
  else s.recoverChecked ctx coins code now

def logout (cs : CallerSession) : Handler Result := do
  match ← ask (.revokeSession cs.id) with
  | .error _ => return .error (fail .internal "logout failed")
  | .ok () =>
    ask (.clear cs.tokenHash)
    return .ok .logout

/-- The end of `ChangePassword`, once the caller has proved who it is. -/
def changeTo (ip : String) (cs : CallerSession) (coins : Coins) (newPassword : String) :
    Handler Result := do
  match isWeak s.prim newPassword with
  | some e => return .error (fail .invalidArgument e)
  | none =>
    match s.hashPassword newPassword coins.salt with
    | .error _ => return .error (fail .internal "change password failed")
    | .ok (hash, pepperVersion) =>
      match ← ask (.updatePasswordAndPepper hash kdfParamsString pepperVersion) with
      | .error _ => return .error (fail .internal "change password failed")
      | .ok () =>
        match ← revokeOtherSessions cs.tokenHash with
        | .error _ => return .error (fail .internal "change password failed")
        | .ok () =>
          if cs.elevated then endElevatedSession cs
          let _ ← ask (.recordAuthEvent "change_password" ip true "")
          return .ok .changePassword

/-- `ChangePassword` on the verdict about the current credentials. -/
def changeProved (ip : String) (cs : CallerSession) (coins : Coins) (newPassword : String) :
    Except CredentialError Unit → Handler Result
  | .error .checkFailed => do
    let _ ← ask (.recordAuthEvent "change_password" ip false "current credential check failed")
    return .error errAuthFailed
  | .error .internal => return .error (fail .internal "change password failed")
  | .ok () => s.changeTo ip cs coins newPassword

def changePassword (cs : CallerSession) (coins : Coins)
    (currentPassword totpCode newPassword : String) : Handler Result := do
  let now ← ask .now
  if cs.elevated then s.changeTo (clientIP ctx) cs coins newPassword
  else s.verifyCurrentCredentials ctx currentPassword totpCode now >>=
    s.changeProved (clientIP ctx) cs coins newPassword

/-- `RevokeSession`; `none` is a `session_id` that `ParseInt` refuses. -/
def revokeSession (sessionID : Option ℕ) : Handler Result := do
  match sessionID with
  | none => return .error (fail .invalidArgument "invalid session_id")
  | some id =>
    match ← ask (.revokeSession id) with
    | .error .notFound => return .error (fail .notFound "session not found")
    | .error _ => return .error (fail .internal "revoking session failed")
    | .ok () => return .ok .revokeSession

def revokeAllSessions : Handler Result := do
  match ← ask .countLiveSessions with
  | .error _ => return .error (fail .internal "revoking sessions failed")
  | .ok n =>
    match ← ask .revokeAllSessions with
    | .error _ => return .error (fail .internal "revoking sessions failed")
    | .ok () => return .ok (.revokeAllSessions n)

/-- The end of an elevated `ReenrollTOTP`. -/
def reenrollEnd (cs : CallerSession) : Handler (Stored Unit) := do
  match ← revokeOtherSessions cs.tokenHash with
  | .error e => return .error e
  | .ok () =>
    endElevatedSession cs
    return .ok ()

/-- The answer of `ReenrollTOTP`, once the secret is written. -/
def reenrolled (ip : String) (coins : Coins) : Stored Unit → Handler Result
  | .error _ => return .error (fail .internal "reenroll failed")
  | .ok () => do
    let _ ← ask (.recordAuthEvent "reenroll_totp" ip true "")
    return .ok (.reenrollTOTP (enrollURI coins.secret))

/-- `ReenrollTOTP` once the caller has proved who it is. -/
def reenroll (ip : String) (cs : CallerSession) (coins : Coins) : Handler Result := do
  match ← ask (.setTOTPSecret (encryptSecret coins.secret s.secretKey)) with
  | .error _ => return .error (fail .internal "reenroll failed")
  | .ok () =>
    if cs.elevated then reenrollEnd cs >>= reenrolled ip coins
    else reenrolled ip coins (.ok ())

/-- `ReenrollTOTP`: a full session proves its password here, not through
`verifyCurrentCredentials`. -/
def reenrollTOTP (cs : CallerSession) (coins : Coins) (currentPassword : String) :
    Handler Result := do
  let ip := clientIP ctx
  if cs.elevated then s.reenroll ip cs coins
  else
    match ← ask .getAdmin with
    | .error _ => return .error (fail .internal "reenroll failed")
    | .ok admin =>
      match s.verifyPassword currentPassword admin.passwordHash admin.pepperVersion with
      | some ⟨true, _⟩ => s.reenroll ip cs coins
      | _ =>
        let _ ← ask (.recordAuthEvent "reenroll_totp" ip false "current password check failed")
        return .error errAuthFailed

/-- `RegenerateRecoveryCodes` on the verdict about the current credentials. -/
def regenerateProved (ip : String) (coins : Coins) : Except CredentialError Unit → Handler Result
  | .error .checkFailed => do
    let _ ← ask (.recordAuthEvent "regenerate_recovery_codes" ip false
      "current credential check failed")
    return .error errAuthFailed
  | .error .internal => return .error (fail .internal "regenerating recovery codes failed")
  | .ok () => do
    match ← ask (.storeRecoveryCodes (coins.codes.map hashRecoveryCode)) with
    | .error _ => return .error (fail .internal "regenerating recovery codes failed")
    | .ok () =>
      let _ ← ask (.recordAuthEvent "regenerate_recovery_codes" ip true "")
      return .ok (.regenerateRecoveryCodes coins.codes)

def regenerateRecoveryCodes (currentPassword totpCode : String) : Handler Result := do
  let now ← ask .now
  s.verifyCurrentCredentials ctx currentPassword totpCode now >>=
    regenerateProved (clientIP ctx) coins

/-- `SystemServer.Backup` on the verdict about the current credentials. -/
def backupProved (ip : String) : Except CredentialError Unit → Handler Result
  | .error _ => do
    let _ ← ask (.recordAuthEvent "backup" ip false "current credential check failed")
    return .error (fail .permissionDenied
      "rpc: backup requires the current password and TOTP code")
  | .ok () => do
    let _ ← ask (.recordAuthEvent "backup" ip true "")
    match ← ask .vacuumInto with
    | .error _ => return .error (fail .internal "rpc: vacuuming backup")
    | .ok db => return .ok (.backup db)

def backup (currentPassword totpCode : String) : Handler Result := do
  if !s.isVerifier then
    return .error (fail .failedPrecondition
      "rpc: backup is unavailable because no credential verifier is wired")
  else
    let now ← ask .now
    s.verifyCurrentCredentials ctx currentPassword totpCode now >>= backupProved (clientIP ctx)

/-- `IssuePasswordResetToken`, which only the command line calls. -/
def issuePasswordResetToken : Handler Result := do
  let now ← ask .now
  match ← ask (.createPasswordResetToken (hashResetToken coins.resetToken)
      (now + resetTokenTTL)) with
  | .error _ => return .error (fail .internal "rpc: persisting password reset token")
  | .ok () =>
    let _ ← ask (.recordAuthEvent "password_reset_issued" "" true "")
    return .ok (.resetTokenIssued coins.resetToken)

/-- `CompletePasswordReset` once the token has matched a listed hash. -/
def resetMatched (newPassword : String) (now : ℤ) (matched : Digest) : Handler Result := do
  match isWeak s.prim newPassword with
  | some e => return .error (fail .invalidArgument e)
  | none =>
    match s.hashPassword newPassword coins.salt with
    | .error _ => return .error (fail .internal "password reset failed")
    | .ok (hash, pepperVersion) =>
      match ← ask (.completePasswordReset matched now hash kdfParamsString pepperVersion) with
      | .error .resetTokenInvalid =>
        let _ ← ask (.recordAuthEvent "password_reset" "" false
          "token already used or expired")
        return .error errAuthFailed
      | .error _ => return .error (fail .internal "password reset failed")
      | .ok () =>
        let _ ← ask (.recordAuthEvent "password_reset" "" true "")
        return .ok .passwordReset

def completePasswordReset (coins : Coins) (rawToken newPassword : String) : Handler Result := do
  if rawToken = "" then return .error errAuthFailed
  else
    let now ← ask .now
    match ← ask (.activeResetTokenHashes now) with
    | .error _ => return .error (fail .internal "password reset failed")
    | .ok hashes =>
      match hashes.find? (verifyResetToken rawToken) with
      | none =>
        let _ ← ask (.recordAuthEvent "password_reset" "" false "token not recognized")
        return .error errAuthFailed
      | some matched => s.resetMatched coins newPassword now matched

end AuthServer

/-- The redeeming of a ticket at an upgrade (`bridge.Server.ServeHTTP`). -/
def upgrade (ticket : String) : Handler Result := do
  let now ← ask .now
  match ← ask (.redeem now ticket) with
  | none => return .error (fail .unauthenticated "Unauthorized")
  | some raw => return .ok (.upgraded raw)

/-! ## Calls -/

/-- The requests that pass the interceptor. -/
inductive Request
  | setup (password : String)
  | login (password totpCode : String)
  | recoverWithCode (code : String)
  | logout
  | changePassword (currentPassword totpCode newPassword : String)
  | revokeSession (sessionID : Option ℕ)
  | revokeAllSessions
  | reenrollTOTP (currentPassword : String)
  | regenerateRecoveryCodes (currentPassword totpCode : String)
  | backup (currentPassword totpCode : String)
  | other (fullMethod : String)
  deriving DecidableEq, Repr

/-- The method a request calls. -/
def Request.method : Request → Method
  | .setup _ => .setup
  | .login _ _ => .login
  | .recoverWithCode _ => .recoverWithCode
  | .logout => .logout
  | .changePassword _ _ _ => .changePassword
  | .revokeSession _ => .revokeSession
  | .revokeAllSessions => .revokeAllSessions
  | .reenrollTOTP _ => .reenrollTOTP
  | .regenerateRecoveryCodes _ _ => .regenerateRecoveryCodes
  | .backup _ _ => .backup
  | .other m => .other m

/-- The handler of a request, in the context `authorize` leaves: the methods that look for
the caller's session refuse without one. -/
def AuthServer.handle (s : AuthServer) (ctx : Ctx) (cs : Option CallerSession) (coins : Coins)
    (req : Request) : Handler Result :=
  match req, cs with
  | .setup password, _ => s.setup ctx coins password
  | .login password totpCode, _ => s.login ctx coins password totpCode
  | .recoverWithCode code, _ => s.recoverWithCode ctx coins code
  | .backup password totpCode, _ => s.backup ctx password totpCode
  | .other _, _ => return .ok .served
  | .logout, some cs => logout cs
  | .changePassword current totp new, some cs => s.changePassword ctx cs coins current totp new
  | .revokeSession id, some _ => revokeSession id
  | .revokeAllSessions, some _ => revokeAllSessions
  | .reenrollTOTP current, some cs => s.reenrollTOTP ctx cs coins current
  | .regenerateRecoveryCodes current totp, some _ =>
    s.regenerateRecoveryCodes ctx coins current totp
  | _, none => return .error errNoSession

/-- What arrives at the service. -/
inductive Call
  | rpc (ctx : Ctx) (coins : Coins) (req : Request)
  | issueReset (coins : Coins)
  | completeReset (coins : Coins) (rawToken newPassword : String)
  | upgrade (ticket : String)
  deriving DecidableEq

namespace Call

/-- The session token a call presents. -/
def token? : Call → Option String
  | .rpc ctx _ _ => sessionTokenFromContext ctx
  | _ => none

/-- The method a call is for. -/
def method? : Call → Option Method
  | .rpc _ _ req => some req.method
  | _ => none

/-- What a call draws. -/
def coins : Call → Coins
  | .rpc _ coins _ => coins
  | .issueReset coins => coins
  | .completeReset coins _ _ => coins
  | .upgrade _ => {}

/-- The code a `RecoverWithCode` presents. -/
def recoveryCode? : Call → Option String
  | .rpc _ _ (.recoverWithCode code) => some code
  | _ => none

/-- The password a `Login` submits. -/
def loginPassword? : Call → Option String
  | .rpc _ _ (.login password _) => some password
  | _ => none

/-- The password a `ChangePassword` or a `CompletePasswordReset` is to set. -/
def newPassword? : Call → Option String
  | .rpc _ _ (.changePassword _ _ new) => some new
  | .completeReset _ _ new => some new
  | _ => none

/-- The token a `CompletePasswordReset` presents. -/
def resetToken? : Call → Option String
  | .completeReset _ raw _ => some raw
  | _ => none

end Call

/-- The program that serves a call. -/
def AuthServer.serve (s : AuthServer) : Call → Handler Result
  | .rpc ctx coins req => do
    match ← authorize ctx req.method with
    | .error e => return .error e
    | .ok cs => s.handle ctx cs coins req
  | .issueReset coins => issuePasswordResetToken coins
  | .completeReset coins rawToken newPassword => s.completePasswordReset coins rawToken newPassword
  | .upgrade ticket => Auth.upgrade ticket

/-- **The service as a system of interleaved calls.**  The environment sets the clock, and a
restart keeps the database and nothing else. -/
def authSystem (s : AuthServer) :
    Threads.System Stmt Stmt.Reply AuthState Call Result ℤ where
  perform := Stmt.perform
  fault := Stmt.fault
  code := s.serve
  env := fun t st => { st with clock := t }
  reboot := fun st => { db := st.db, clock := st.clock }

end AnimeFeedFlux.Auth
