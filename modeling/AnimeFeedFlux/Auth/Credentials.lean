import AnimeFeedFlux.Store.Schema

/-!
# Credentials

The primitives of `internal/auth`: password hashing with and without a pepper, recovery
codes, TOTP codes, session and reset tokens.  Cryptography is symbolic.  A digest stands for
what was hashed, an argon2id key for the password, salt and pepper it was derived from, and
a sealed secret for its plaintext and key, so equality of the results is equality of the
inputs.  A stored key that is the derivation of no known password is that of a password
nobody submits.

Text normalization, the breached-password corpus and the HOTP check belong to libraries;
`Primitives` holds them, with the one law the code relies on.
-/

namespace AnimeFeedFlux

/-- The library functions `internal/auth` calls. -/
structure Primitives where
  /-- `norm.NFKC.String`. -/
  normalize : String → String
  /-- Normalizing twice changes nothing more. -/
  normalize_idem : ∀ p, normalize (normalize p) = normalize p
  /-- `IsBreached`: membership in the corpus of compromised passwords. -/
  isBreached : String → Bool
  /-- `hotp.ValidateCustom` of a secret, a counter and a code; `none` is an error. -/
  validateCustom : String → ℕ → String → Option Bool

namespace Auth

/-! ## Passwords -/

structure Params where
  time : ℕ
  memory : ℕ
  threads : ℕ
  saltLen : ℕ
  keyLen : ℕ
  deriving DecidableEq, Repr

def defaultParams : Params :=
  { time := 3, memory := 64 * 1024, threads := 1, saltLen := 16, keyLen := 32 }

/-- The text of a `password_hash` column: one `decode` or the checks after it refuse, or an
argon2id key derived from `password` with `salt` and, when `pepper` is not empty, passed
through HMAC under that key. -/
inductive PasswordHash
  | malformed (text : String)
  | argon2id (params : Params) (salt : ℕ) (pepper password : String)
  deriving DecidableEq, Repr

def minPasswordLen : ℕ := 15

def maxPasswordLen : ℕ := 128

/-- `IsWeak`: why a password is refused. -/
def isWeak (prim : Primitives) (password : String) : Option String :=
  let p := prim.normalize password
  if p.length < minPasswordLen then
    some "auth: password must be at least 15 characters"
  else if maxPasswordLen < p.length then
    some "auth: password must be at most 128 characters"
  else if prim.isBreached p then
    some "auth: password appears in a compromised-password list; choose another"
  else none

/-- `HashPeppered` with the salt it draws; the empty pepper is none, which is `Hash`. -/
def hashPeppered (prim : Primitives) (password : String) (p : Params) (pepper : String)
    (salt : ℕ) : Except String PasswordHash :=
  match isWeak prim password with
  | some e => .error e
  | none => .ok (.argon2id p salt pepper (prim.normalize password))

/-- What `VerifyPasswordPeppered` reports. -/
structure Verified where
  ok : Bool
  needsRehash : Bool
  deriving DecidableEq, Repr

/-- `VerifyPasswordPeppered`; `none` is its error. -/
def verifyPasswordPeppered (prim : Primitives) (password : String) (encoded : PasswordHash)
    (pepper : String) : Option Verified :=
  match encoded with
  | .malformed _ => none
  | .argon2id p _ keyPepper keyPassword =>
    let normalized := prim.normalize password
    let matchNormal := keyPepper == pepper && keyPassword == normalized
    -- Rows hashed before passwords were normalized still match the raw bytes.
    let legacy := !matchNormal && normalized != password &&
      (keyPepper == pepper && keyPassword == password)
    let weaker := p.time < defaultParams.time || p.memory < defaultParams.memory ||
      p.threads < defaultParams.threads || p.keyLen < defaultParams.keyLen
    some { ok := matchNormal || legacy, needsRehash := (matchNormal || legacy) &&
      (weaker || legacy) }

variable {prim : Primitives} {password pepper : String} {p : Params} {salt : ℕ}
  {hash : PasswordHash}

theorem hashPeppered_eq_ok (h : hashPeppered prim password p pepper salt = .ok hash) :
    hash = .argon2id p salt pepper (prim.normalize password) := by
  unfold hashPeppered at h
  split at h
  · cases h
  · cases h; rfl

/-- **A fresh hash accepts exactly the passwords with its normal form**, under its pepper. -/
theorem verifyPasswordPeppered_hashPeppered
    (h : hashPeppered prim password p pepper salt = .ok hash) (candidate : String) :
    (∃ v, verifyPasswordPeppered prim candidate hash pepper = some v ∧ v.ok) ↔
      prim.normalize candidate = prim.normalize password := by
  rw [hashPeppered_eq_ok h]
  simp only [verifyPasswordPeppered, Option.some.injEq, exists_eq_left', beq_self_eq_true,
    Bool.true_and, Bool.or_eq_true, Bool.and_eq_true, beq_iff_eq, bne_iff_ne, ne_eq]
  constructor
  · rintro (h | ⟨⟨-, hne⟩, heq⟩)
    · exact h.symm
    · -- The raw bytes are a normal form, so the candidate is its own normal form.
      exact absurd (by rw [← heq, prim.normalize_idem]) hne
  · intro h
    exact .inl h.symm

/-! ## Recovery codes -/

/-- `normalizeCode`: separators and white space are dropped, letters are upper-cased. -/
def normalizeCode (code : String) : String :=
  String.ofList ((code.toList.filter fun r => !(['-', '_', ' ', '\t', '\n', '\r'].contains r)).map
    fun r => if 'a' ≤ r ∧ r ≤ 'z' then Char.ofNat (r.toNat - 32) else r)

def hashRecoveryCode (code : String) : Digest := ⟨normalizeCode code⟩

/-- `VerifyCode`: the loop runs over every hash, so the last match wins. -/
def verifyCode (code : String) (hashes : List Digest) : Option ℕ :=
  (hashes.zipIdx.foldl
    fun found e => if e.1 = hashRecoveryCode code then some e.2 else found) none

/-- The loop of `verifyCode` returns what it started with or the position of a match. -/
private theorem verifyCode_loop {code : String} {es : List (Digest × ℕ)} {found : Option ℕ}
    {i : ℕ} (h : es.foldl (fun found e => if e.1 = hashRecoveryCode code then some e.2 else found)
      found = some i) : found = some i ∨ (hashRecoveryCode code, i) ∈ es := by
  induction es generalizing found with
  | nil => exact .inl h
  | cons e es ih =>
    rcases ih h with h | h
    · dsimp only at h
      by_cases he : e.1 = hashRecoveryCode code
      · rw [if_pos he] at h
        cases h
        exact .inr (by rw [← he]; exact List.mem_cons_self)
      · rw [if_neg he] at h
        exact .inl h
    · exact .inr (List.mem_cons_of_mem _ h)

/-- **The index `verifyCode` returns holds the hash of the code.** -/
theorem verifyCode_eq_some {code : String} {hashes : List Digest} {i : ℕ}
    (h : verifyCode code hashes = some i) : hashes[i]? = some (hashRecoveryCode code) := by
  rcases verifyCode_loop h with h | h
  · cases h
  · exact List.mk_mem_zipIdx_iff_getElem?.1 h

example : normalizeCode "abcde-23456 fgh_jk" = "ABCDE23456FGHJK" := by decide +kernel

/-! ## TOTP codes -/

/-- A TOTP secret at rest: AES-GCM under the key derived from `key`. -/
structure SealedSecret where
  key : String
  secret : String
  deriving DecidableEq, Repr

def encryptSecret (secret key : String) : SealedSecret := ⟨key, secret⟩

/-- `DecryptSecret`: authentication fails under any other key. -/
def decryptSecret (data : SealedSecret) (key : String) : Option String :=
  if data.key = key then some data.secret else none

def totpPeriod : ℤ := 30

/-- `Time.Unix`: seconds since 1970. -/
def unix (t : ℤ) : ℤ := Time.seconds t - 62135596800

/-- The loop of `ValidateCode` over the candidate steps. -/
def validateSteps (prim : Primitives) (secret code : String) : List ℤ → Option ℤ
  | [] => none
  | c :: cs =>
    if c < 0 then validateSteps prim secret code cs
    else
      match prim.validateCustom secret c.toNat code with
      | none => none
      | some true => some c
      | some false => validateSteps prim secret code cs

/-- `ValidateCode`: the step whose code was presented, one step of drift either way. -/
def validateCode (prim : Primitives) (secret code : String) (now : ℤ) : Option ℤ :=
  if code = "" then none
  else
    let center := (unix now).tdiv totpPeriod
    validateSteps prim secret code [center, center + 1, center - 1]

/-! ## Session and reset tokens -/

def hashToken (raw : String) : Digest := ⟨raw⟩

def hashResetToken (raw : String) : Digest := ⟨raw⟩

def verifyResetToken (raw : String) (hash : Digest) : Bool := hashResetToken raw == hash

def sessionAbsoluteLifetime : ℤ := 12 * Time.hour

def sessionIdleTimeout : ℤ := 60 * Time.minute

def resetTokenTTL : ℤ := 15 * Time.minute

/-- `auth.Session`; a zero `RevokedAt` is `none`. -/
structure Session where
  tokenHash : Digest
  createdAt : ℤ
  lastSeenAt : ℤ
  expiresAt : ℤ
  ip : String := ""
  userAgent : String := ""
  revokedAt : Option ℤ := none
  deriving DecidableEq, Repr

def Session.valid (s : Session) (now idleTimeout : ℤ) : Bool :=
  (match s.revokedAt with
    | some r => now < r
    | none => true) &&
  now < s.expiresAt && now - s.lastSeenAt < idleTimeout

end Auth

end AnimeFeedFlux
