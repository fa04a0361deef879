import AnimeFeedFlux.Auth.Protocol

/-!
# What an instruction changes

Which instructions touch which table, and how the sessions evolve.  The results about
interleaved calls use these and never look into an instruction they are not about.
-/

namespace AnimeFeedFlux.Auth

open Stmt

/-- The service with its calls. -/
abbrev World := Threads.Pool Stmt.Reply AuthState Call Result

/-- What happens next. -/
abbrev Label := Threads.Act Call ℤ

/-- One step of the service. -/
abbrev step (s : AuthServer) : World → Label → World := (authSystem s).step

/-- A call being served. -/
abbrev Serving := Threads.Thread Stmt.Reply Call Result

open Threads.System in
theorem obeys_step {s : AuthServer} {w : World} (hw : Obeys (Protocol s) Outcome w) (a : Label) :
    Obeys (Protocol s) Outcome (step s w a) := hw.step (along_serve s) w a

open Threads.System in
/-- **What a step does to the database**: nothing, or the call that runs issues an instruction
that goes through. -/
theorem step_db_cases (s : AuthServer) (w : World) (a : Label) :
    (step s w a).shared.db = w.shared.db ∨
      ∃ i c h q k, a = .run i true ∧
        (authSystem s).Issues w i true c h q k (q.perform w.shared).1 (q.perform w.shared).2 ∧
        (step s w a).shared = (q.perform w.shared).1 := by
  cases a with
  | request c => exact .inl rfl
  | env e => exact .inl rfl
  | crash => exact .inl rfl
  | run i ok =>
    obtain heq | ⟨c, h, q, k, st', r, hi, -⟩ := step_run_cases (authSystem s) w i ok
    · exact .inl (congrArg (·.shared.db) heq)
    have hshared : (step s w (.run i ok)).shared = st' := congrArg (·.shared) hi.step_eq
    rcases reply_cases hi.reply with ⟨rfl, hp⟩ | ⟨-, rfl, -⟩
    · obtain rfl : st' = (q.perform w.shared).1 := congrArg Prod.fst hp
      obtain rfl : r = (q.perform w.shared).2 := congrArg Prod.snd hp
      exact .inr ⟨i, c, h, q, k, rfl, hi, hshared⟩
    · exact .inl (congrArg (·.db) hshared)

/-! ## Frames -/

/-- The parts of the shared state the results below are about. -/
inductive Part
  | admin
  | totpUsed
  | recoveryCodes
  | sessions
  | resetTokens
  | tickets

/-- The instructions that can change a part. -/
def Stmt.touches : Stmt → Part → Bool
  | .initAdmin _ _, .admin => true
  | .updatePasswordAndPepper _ _ _, .admin => true
  | .setTOTPSecret _, .admin => true
  | .completePasswordReset _ _ _ _ _, .admin => true
  | .markTOTPStepUsed _ _, .totpUsed => true
  | .storeRecoveryCodes _, .recoveryCodes => true
  | .markRecoveryCodeUsed _, .recoveryCodes => true
  | .createSession _, .sessions => true
  | .touchSession _ _, .sessions => true
  | .revokeSession _, .sessions => true
  | .revokeAllSessions, .sessions => true
  | .setSessionScope _ _, .sessions => true
  | .completePasswordReset _ _ _ _ _, .sessions => true
  | .createPasswordResetToken _ _, .resetTokens => true
  | .completePasswordReset _ _ _ _ _, .resetTokens => true
  | .issue _ _ _, .tickets => true
  | .redeem _ _, .tickets => true
  | _, _ => false

/-- What an instruction does not touch it leaves as it was. -/
structure Frame (q : Stmt) (st : AuthState) : Prop where
  admin : q.touches .admin = false → (q.perform st).1.db.admin = st.db.admin
  totpUsed : q.touches .totpUsed = false → (q.perform st).1.db.totpUsed = st.db.totpUsed
  recoveryCodes : q.touches .recoveryCodes = false →
    (q.perform st).1.db.recoveryCodes = st.db.recoveryCodes
  sessions : q.touches .sessions = false → (q.perform st).1.db.sessions = st.db.sessions
  resetTokens : q.touches .resetTokens = false →
    (q.perform st).1.db.resetTokens = st.db.resetTokens
  tickets : q.touches .tickets = false → (q.perform st).1.tickets = st.tickets

/-- **Every instruction keeps to its footprint.** -/
theorem frame (q : Stmt) (st : AuthState) : Frame q st := by
  cases q with
  | initAdmin | updatePasswordAndPepper | setTOTPSecret | markTOTPStepUsed | storeRecoveryCodes |
    markRecoveryCodeUsed | createSession | touchSession | revokeSession | setSessionScope |
    createPasswordResetToken | completePasswordReset =>
      constructor <;> intro h <;> cases h
      all_goals
        simp only [perform, write, AuthDB.initAdmin, AuthDB.updatePasswordAndPepper,
          AuthDB.setTOTPSecret, AuthDB.markTOTPStepUsed, AuthDB.storeRecoveryCodes,
          AuthDB.markRecoveryCodeUsed, AuthDB.createSession, AuthDB.touchSession,
          AuthDB.revokeSession, AuthDB.setSessionScope, AuthDB.updateSession,
          AuthDB.createPasswordResetToken, AuthDB.completePasswordReset]
        try (split <;> rfl)
  | _ => constructor <;> intro h <;> first | rfl | cases h

/-! ## How sessions evolve -/

/-- What may become of a session. -/
structure Becomes (r r' : SessionRow) : Prop where
  id : r'.id = r.id
  tokenHash : r'.tokenHash = r.tokenHash
  revoked : r.revokedAt.isSome → r'.revokedAt.isSome
  elevated : r.scope = .elevated → r'.scope = .elevated

theorem Becomes.refl (r : SessionRow) : Becomes r r := ⟨rfl, rfl, fun h => h, fun h => h⟩

theorem Becomes.revoke (now : ℤ) (r : SessionRow) : Becomes r (AuthDB.revoke now r) := by
  refine ⟨rfl, rfl, fun h => ?_, fun h => h⟩
  cases hr : r.revokedAt <;> simp [AuthDB.revoke, hr]

/-- Every session is still there, and has become what it may. -/
def Evolves (t t' : Sessions) : Prop := ∀ r ∈ t.rows, ∃ r' ∈ t'.rows, Becomes r r'

theorem Evolves.refl (t : Sessions) : Evolves t t := fun r hr => ⟨r, hr, .refl r⟩

theorem evolves_modify (t : Sessions) {p : SessionRow → Bool} (f : SessionRow → SessionRow)
    (hf : ∀ r, Becomes r (f r)) :
    Evolves t (t.modify p f (fun r => (hf r).id) fun r => (hf r).tokenHash) := by
  intro r hr
  refine ⟨_, Table.mem_modify.2 ⟨r, hr, rfl⟩, ?_⟩
  split
  · exact hf r
  · exact .refl r

theorem evolves_revokeAll (t : Sessions) (now : ℤ) : Evolves t (AuthDB.revokeAll t now) :=
  evolves_modify t _ (Becomes.revoke now)

/-- **Every instruction but a lowering of a scope lets the sessions evolve.** -/
theorem evolves_perform {q : Stmt} (st : AuthState) (hq : ∀ id, q ≠ .setSessionScope id .full) :
    Evolves st.db.sessions (q.perform st).1.db.sessions := by
  have hframe := frame q st
  cases q with
  | createSession sess =>
    simp only [perform, write, AuthDB.createSession]
    split
    · exact .refl _
    rename_i t ht
    exact fun r hr => ⟨r, (Table.mem_insert ht).2 (.inl hr), .refl r⟩
  | touchSession id seen =>
    simp only [perform, write, AuthDB.touchSession, AuthDB.updateSession]
    split
    · exact evolves_modify _ (fun r => { r with lastSeenAt := seen }) fun r =>
        ⟨rfl, rfl, fun h => h, fun h => h⟩
    · exact .refl _
  | revokeSession id =>
    simp only [perform, write, AuthDB.revokeSession, AuthDB.updateSession]
    split
    · exact evolves_modify _ _ (Becomes.revoke _)
    · exact .refl _
  | setSessionScope id scope =>
    simp only [perform, write, AuthDB.setSessionScope, AuthDB.updateSession]
    cases scope with
    | full => exact absurd rfl (hq id)
    | elevated =>
      split
      · exact evolves_modify _ (fun r => { r with scope := .elevated }) fun r =>
          ⟨rfl, rfl, fun h => h, fun _ => rfl⟩
      · exact .refl _
  | revokeAllSessions => exact evolves_revokeAll _ _
  | completePasswordReset =>
    simp only [perform, write, AuthDB.completePasswordReset]
    split
    · exact evolves_revokeAll _ _
    · exact .refl _
  | _ =>
    rw [hframe.sessions rfl]
    exact .refl _

/-! ## A service to run -/

/-- A service whose library functions are as simple as they can be: text is its own normal
form, no password is known to be breached, and every TOTP code but the empty one is right. -/
def plainServer : AuthServer :=
  { prim := { normalize := id, normalize_idem := fun _ => rfl, isBreached := fun _ => false,
              validateCustom := fun _ _ _ => some true } }

/-- The start of 2026. -/
def plainClock : ℤ := 63902822400 * Time.second

/-- An admin whose password is `password`, hashed without a pepper at a time cost. -/
def plainAdmin (password : String) (time : ℕ) : Admin :=
  { passwordHash := .argon2id { defaultParams with time := time } 0 "" password,
    kdfParams := kdfParamsString, totpSecretEnc := some ⟨"", "secret"⟩, createdAt := plainClock }

/-- A session begun at `plainClock`. -/
def plainSession (token : String) : Session :=
  { tokenHash := hashToken token, createdAt := plainClock, lastSeenAt := plainClock,
    expiresAt := plainClock + sessionAbsoluteLifetime }

/-- The session `tok` alone. -/
def plainSessions : Sessions :=
  ⟨[{ toSession := plainSession "tok", id := 1 }], by decide, by decide⟩

/-- The next `n` instructions of call `i`. -/
def runs (i n : ℕ) : List Label := List.replicate n (.run i true)

end AnimeFeedFlux.Auth
