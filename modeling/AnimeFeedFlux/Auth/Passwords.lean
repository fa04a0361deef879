import AnimeFeedFlux.Auth.Frames

/-!
# Replaced passwords over interleaved calls

Three calls write the stored credential: `ChangePassword`, `CompletePasswordReset`, and a
`Login` that finds the row's cost or pepper out of date and hashes the password it has just
verified anew.  The last one writes over whatever is stored by then, so a password replaced
between a login's check and its write comes back.  Where the login writes over the credential
it checked, a replaced password stays replaced.
-/

namespace AnimeFeedFlux.Auth

open Machine Threads Threads.System

/-! ## The specification -/

/-- What passwords are checked against. -/
def credential (row : Admin) : PasswordHash × ℤ := (row.passwordHash, row.pepperVersion)

/-- The password an instruction of the call `c` commits: the one a change or reset is to set,
when its write goes through. -/
def committed (st : AuthState) (c : Call) : Stmt → Option String
  | .updatePasswordAndPepper hash kdf v =>
    if (st.db.updatePasswordAndPepper st.clock hash kdf v).2.isOk then c.newPassword? else none
  | .completePasswordReset token now hash kdf v =>
    if (st.db.completePasswordReset token now hash kdf v).2.isOk then c.newPassword? else none
  | _ => none

/-- The password a step commits. -/
def commits (w : World) : Label → Option String
  | .run i true => (w.pending i).bind fun e => committed w.shared e.1 e.2.2
  | _ => none

instance (s : AuthServer) (row : Admin) (password : String) : Decidable (s.Verifies row password) :=
  decidable_of_iff ((s.verifyPassword password row.passwordHash row.pepperVersion).any (·.ok))
    (by simp [AuthServer.Verifies, Option.any_eq_true])

/-- The stored credential does not accept `password`. -/
def Refused (s : AuthServer) (password : String) (w : World) : Prop :=
  ∀ row ∈ w.shared.db.admin, ¬s.Verifies row password
deriving Decidable

/-- A step does not choose `password`; passwords with the same normal form are one. -/
def NotChosen (s : AuthServer) (password : String) (w : World) (a : Label) : Prop :=
  ∀ new ∈ commits w a, s.prim.normalize new ≠ s.prim.normalize password

instance (s : AuthServer) (password : String) (w : World) (a : Label) :
    Decidable (NotChosen s password w a) :=
  inferInstanceAs (Decidable (∀ new ∈ commits w a, _))

/-- **The specification.**  Once a step has replaced the password `old` by another one, the
stored credential never accepts `old` again, as long as nobody chooses it anew. -/
def StaysReplaced (s : AuthServer) (w : World) (as : List Label) : Prop :=
  ∀ as₁ a as₂ row old new, as = as₁ ++ a :: as₂ →
    (exec (step s) w as₁).shared.db.admin = some row → s.Verifies row old →
    commits (exec (step s) w as₁) a = some new →
    s.prim.normalize new ≠ s.prim.normalize old →
    Meets (step s) (NotChosen s old) (exec (step s) w (as₁ ++ [a])) as₂ →
    Always (step s) (Refused s old) (exec (step s) w (as₁ ++ [a])) as₂

/-! ## The condition -/

/-- The row a login has verified its password against and is about to rewrite. -/
def rehashed (c : Call) (h : Log Stmt.Reply) : Stmt → Option Admin
  | .updatePasswordAndPepper _ _ _ => if c.loginPassword?.isSome then adminRead? h else none
  | _ => none

/-- The row a step rewrites for a login. -/
def rehashing (w : World) (a : Label) : Option Admin :=
  (w.issuing a).bind fun e => rehashed e.1 e.2.1 e.2.2

/-- A login rewrites the credential it has verified. -/
def CurrentRehash (w : World) (a : Label) : Prop :=
  ∀ read ∈ rehashing w a, w.shared.db.admin.map credential = some (credential read)
deriving Decidable

/-! ## What a fresh hash accepts -/

variable {s : AuthServer} {row : Admin}

theorem verifies_congr {row' : Admin} (h : credential row = credential row') (password : String) :
    s.Verifies row password ↔ s.Verifies row' password := by
  obtain ⟨hhash, hversion⟩ := Prod.mk.inj h
  unfold AuthServer.Verifies
  rw [hhash, hversion]

variable {password old : String} {c : Call} {w : World}

/-- **A hash the server writes accepts exactly the passwords with the same normal form.** -/
theorem verifies_hashPassword {salt : ℕ} (h : s.hashPassword password salt = .ok (credential row))
    (candidate : String) :
    s.Verifies row candidate ↔ s.prim.normalize candidate = s.prim.normalize password := by
  have hashed : ∀ {pepper : String} {v : ℤ}, (hashPeppered s.prim password defaultParams pepper
      salt).map (·, v) = .ok (credential row) →
      hashPeppered s.prim password defaultParams pepper salt = .ok row.passwordHash ∧
        v = row.pepperVersion := by
    intro pepper v hmap
    cases hh : hashPeppered s.prim password defaultParams pepper salt with
    | error e =>
      rw [hh] at hmap
      cases hmap
    | ok hash =>
      rw [hh] at hmap
      obtain ⟨h1, h2⟩ := Prod.mk.inj (Except.ok.inj hmap)
      exact ⟨congrArg Except.ok h1, h2⟩
  unfold AuthServer.hashPassword at h
  unfold AuthServer.Verifies AuthServer.verifyPassword
  by_cases hp : s.pepperKeyConfigured = true
  · rw [if_pos hp] at h
    obtain ⟨hhash, hv⟩ := hashed h
    simp only [AuthServer.pepperKeyConfigured, Bool.and_eq_true, bne_iff_ne, ne_eq,
      decide_eq_true_eq] at hp
    rw [if_neg (by omega), if_neg (by simp [hp.1, hv])]
    exact verifyPasswordPeppered_hashPeppered hhash candidate
  · rw [if_neg hp] at h
    obtain ⟨hhash, hv⟩ := hashed h
    rw [if_pos hv.symm]
    exact verifyPasswordPeppered_hashPeppered hhash candidate

/-! ## What a step does to the credential -/

theorem updatePasswordAndPepper_of_some {db : AuthDB} (hrow : db.admin = some row) (now : ℤ)
    (hash : PasswordHash) (kdf : String) (v : ℤ) :
    (db.updatePasswordAndPepper now hash kdf v).2 = .ok () ∧
      ∃ row', (db.updatePasswordAndPepper now hash kdf v).1.admin = some row' ∧
        credential row' = (hash, v) := by
  unfold AuthDB.updatePasswordAndPepper
  rw [hrow]
  exact ⟨rfl, _, rfl, rfl⟩

theorem completePasswordReset_cases (db : AuthDB) (token : Digest) (now : ℤ)
    (hash : PasswordHash) (kdf : String) (v : ℤ) :
    ((db.completePasswordReset token now hash kdf v).1 = db ∧
        (db.completePasswordReset token now hash kdf v).2 = .error .resetTokenInvalid) ∨
      (db.completePasswordReset token now hash kdf v).2 = .ok () ∧
        (db.completePasswordReset token now hash kdf v).1.admin =
          (db.updatePasswordAndPepper now hash kdf v).1.admin := by
  unfold AuthDB.completePasswordReset
  split
  · exact .inr ⟨rfl, rfl⟩
  · exact .inl ⟨rfl, rfl⟩

theorem newPassword?_of_loginPassword? (h : c.loginPassword? = some password) :
    c.newPassword? = none := by
  unfold Call.loginPassword? at h
  split at h
  · rfl
  · cases h

/-- **What an instruction does to the credential**: it stays, it becomes that of a committed
password, or a login writes the password it has verified. -/
theorem credential_perform {h : Log Stmt.Reply} {q : Stmt} (hallowed : Protocol s c h q)
    {st : AuthState} (hrow : st.db.admin = some row) :
    ∃ row', (q.perform st).1.db.admin = some row' ∧
      ((committed st c q = none ∧ credential row' = credential row) ∨
        (∃ new salt, committed st c q = some new ∧
          s.hashPassword new salt = .ok (credential row')) ∨
        committed st c q = none ∧ ∃ password salt read, rehashed c h q = some read ∧
          s.Verifies read password ∧ s.hashPassword password salt = .ok (credential row')) := by
  have hframe := frame q st
  cases q with
  | initAdmin hash kdf =>
    refine ⟨row, ?_, .inl ⟨rfl, rfl⟩⟩
    simp [Stmt.perform, Stmt.write, AuthDB.initAdmin, hrow]
  | setTOTPSecret enc =>
    refine ⟨{ row with totpSecretEnc := some enc }, ?_, .inl ⟨rfl, rfl⟩⟩
    simp [Stmt.perform, Stmt.write, AuthDB.setTOTPSecret, hrow]
  | updatePasswordAndPepper hash kdf v =>
    obtain ⟨password, hhash, hwho⟩ := hallowed
    obtain ⟨hok, row', hrow', hcred⟩ := updatePasswordAndPepper_of_some hrow st.clock hash kdf v
    rw [← hcred] at hhash
    refine ⟨row', hrow', .inr ?_⟩
    simp only [committed, rehashed, hok]
    rcases hwho with ⟨hnew, -, -⟩ | ⟨hlogin, read, hread, hverifies⟩
    · exact .inl ⟨password, _, hnew, hhash⟩
    refine .inr ⟨newPassword?_of_loginPassword? hlogin, password, _, read, ?_, hverifies, hhash⟩
    simp [hlogin, hread]
  | completePasswordReset token now hash kdf v =>
    obtain ⟨raw, new, -, hnew, -, hhash⟩ := hallowed
    simp only [committed]
    rcases completePasswordReset_cases st.db token now hash kdf v with ⟨hsame, hfailed⟩ | hdone
    · exact ⟨row, (congrArg (·.admin) hsame).trans hrow, .inl ⟨by rw [hfailed]; rfl, rfl⟩⟩
    obtain ⟨-, row', hrow', hcred⟩ := updatePasswordAndPepper_of_some hrow now hash kdf v
    rw [← hcred] at hhash
    refine ⟨row', hdone.2.trans hrow', .inr (.inl ⟨new, _, ?_, hhash⟩)⟩
    rw [hdone.1]
    exact hnew
  | _ => exact ⟨row, by rw [hframe.admin rfl, hrow], .inl ⟨rfl, rfl⟩⟩

theorem credential_step (hobeys : Obeys (Protocol s) Outcome w) (a : Label)
    (hrow : w.shared.db.admin = some row) :
    ∃ row', (step s w a).shared.db.admin = some row' ∧ (credential row' = credential row ∨
        (∃ new salt, commits w a = some new ∧ s.hashPassword new salt = .ok (credential row')) ∨
        ∃ password salt read, rehashing w a = some read ∧ s.Verifies read password ∧
          s.hashPassword password salt = .ok (credential row')) := by
  obtain heq | ⟨i, c, h, q, k, rfl, hi, heq⟩ := step_db_cases s w a
  · exact ⟨row, by rw [heq, hrow], .inl rfl⟩
  have hissuing : w.issuing (.run i true : Label) = some (c, h, q) := hi.issuing
  rw [heq]
  simp only [commits, rehashing, hi.pending, hissuing, Option.bind_some]
  obtain ⟨row', hrow', hcases⟩ := credential_perform (hobeys.issues hi) hrow
  exact ⟨row', hrow', hcases.imp And.right (Or.imp_right And.right)⟩

theorem credential_of_commits (hobeys : Obeys (Protocol s) Outcome w) {a : Label} {new : String}
    (hnew : commits w a = some new) (hrow : w.shared.db.admin = some row) :
    ∃ row' salt, (step s w a).shared.db.admin = some row' ∧
      s.hashPassword new salt = .ok (credential row') := by
  unfold commits at hnew
  split at hnew
  · rename_i i
    obtain ⟨⟨c, h, q⟩, hp, hcommitted⟩ := Option.bind_eq_some_iff.1 hnew
    obtain ⟨k, hi⟩ := issues_of_pending (authSystem s) hp
    obtain ⟨row', hrow', ⟨hnone, -⟩ | ⟨new', salt, hnew', hhash⟩ | ⟨hnone, -⟩⟩ :=
      credential_perform (hobeys.issues hi) hrow
    · exact absurd (hnone.symm.trans hcommitted) (by simp)
    · obtain rfl := Option.some.inj (hnew'.symm.trans hcommitted)
      exact ⟨row', salt, (congrArg (·.shared.db.admin) hi.step_eq).trans hrow', hhash⟩
    · exact absurd (hnone.symm.trans hcommitted) (by simp)
  · cases hnew

/-! ## The result -/

/-- The stored credential is a hash the server wrote, of a password other than `old`. -/
structure Holds (s : AuthServer) (old : String) (w : World) : Prop where
  obeys : Obeys (Protocol s) Outcome w
  stored : ∃ row password salt, w.shared.db.admin = some row ∧
    s.hashPassword password salt = .ok (credential row) ∧
    s.prim.normalize password ≠ s.prim.normalize old

theorem Holds.refused (h : Holds s old w) : Refused s old w := by
  obtain ⟨row, password, salt, hrow, hhash, hne⟩ := h.stored
  intro row' hrow' hverifies
  obtain rfl := Option.some.inj (hrow.symm.trans hrow')
  exact hne ((verifies_hashPassword hhash old).1 hverifies).symm

/-- **A current rehash and a password other than the old one keep the old one out.** -/
theorem Holds.step (w : World) (a : Label) (h : Holds s old w)
    (hcond : CurrentRehash w a ∧ NotChosen s old w a) : Holds s old (step s w a) := by
  refine ⟨obeys_step h.obeys a, ?_⟩
  obtain ⟨row, password, salt, hrow, hhash, hne⟩ := h.stored
  obtain ⟨row', hrow', hsame | ⟨new, salt', hnew, hhash'⟩ |
    ⟨login, salt', read, hread, hverifies, hhash'⟩⟩ := credential_step h.obeys a hrow
  · exact ⟨row', password, salt, hrow', by rw [hhash, hsame], hne⟩
  · exact ⟨row', new, salt', hrow', hhash', hcond.2 new hnew⟩
  · -- What the login verified is the stored credential, so its password is the stored one.
    have hcurrent : credential row = credential read := by
      have := hcond.1 read hread
      rw [hrow] at this
      exact Option.some.inj this
    have hlogin :=
      (verifies_hashPassword hhash login).1 ((verifies_congr hcurrent login).2 hverifies)
    exact ⟨row', login, salt', hrow', hhash', by rw [hlogin]; exact hne⟩

/-- **A replaced password stays replaced in every run in which logins rewrite the credential
they verified.** -/
theorem staysReplaced_of_currentRehash (s : AuthServer) (w : World) (hw : w.threads = [])
    (as : List Label) (hcond : Meets (step s) CurrentRehash w as) : StaysReplaced s w as := by
  rintro as₁ a as₂ row old new rfl hrow - hnew hne hnot
  have hobeys : Obeys (Protocol s) Outcome (exec (step s) w as₁) :=
    obeys_exec (along_serve s) as₁ w hw
  rw [meets_append, meets_cons] at hcond
  rw [exec_append, exec_cons, exec_nil] at hnot ⊢
  -- Right after the commit the new password is the stored one.
  have hstart : Holds s old (step s (exec (step s) w as₁) a) := by
    obtain ⟨row', salt, hrow', hhash⟩ := credential_of_commits hobeys hnew hrow
    exact ⟨obeys_step hobeys a, row', new, salt, hrow', hhash, hne⟩
  have hrun := always_of_meets Holds.step as₂ _ hstart ((meets_and _).2 ⟨hcond.2.2, hnot⟩)
  exact hrun.mono fun w' => Holds.refused

/-- An admin whose hash is of an old, lower cost, and a session `tok`. -/
def oldCost : World :=
  { shared :=
      { clock := plainClock
        db :=
          { admin := some (plainAdmin "correct horse battery" 1)
            sessions := plainSessions } } }

/-- A login and a change of the password. -/
def loginAndChange : List Label :=
  [.request (.rpc { peer := "1.2.3.4" } { sessionToken := "new" }
     (.login "correct horse battery" "123456")),
   .request (.rpc { peer := "1.2.3.4", sessionToken := "tok" } {}
     (.changePassword "correct horse battery" "654321" "entirely new password"))]

/-- The login comes `n` instructions far; a minute later the change comes `m` far. -/
def loginThenChange (n m : ℕ) : List Label :=
  loginAndChange ++ runs 0 n ++ [.env (plainClock + Time.minute)] ++ runs 1 m

/-- The login has checked the password when the change runs, almost to its end. -/
def changeDuringLogin : List Label := loginThenChange 5 13

/-- The login is over, rewrite included, when the password is changed a minute later. -/
theorem staysReplaced_of_currentRehash_loginFirst :
    Meets (step plainServer) CurrentRehash oldCost (loginThenChange 9 17) ∧
      StaysReplaced plainServer oldCost (loginThenChange 9 17) ∧
      ((exec (step plainServer) oldCost (loginAndChange ++ runs 0 9)).shared.db.admin.map
        credential = some (.argon2id defaultParams 0 "" "correct horse battery", 0)) ∧
      (exec (step plainServer) oldCost (loginThenChange 9 17)).shared.db.admin.map credential =
        some (.argon2id defaultParams 0 "" "entirely new password", 0) := by
  have hmeets : Meets (step plainServer) CurrentRehash oldCost (loginThenChange 9 17) := by
    decide +kernel
  exact ⟨hmeets, staysReplaced_of_currentRehash _ _ rfl _ hmeets, by decide +kernel,
    by decide +kernel⟩

/-- **A login overtaken by a change restores the old password**: it has verified the password
when the change commits, and then writes its hash anew. -/
theorem not_staysReplaced_staleRehash : ¬StaysReplaced plainServer oldCost
      (changeDuringLogin ++ .run 1 true :: [.run 0 true]) := by
  intro h
  have hlast := (h changeDuringLogin
    (.run 1 true) [.run 0 true] (plainAdmin "correct horse battery" 1) "correct horse battery"
    "entirely new password" rfl (by decide +kernel) (by decide +kernel) (by decide +kernel)
    (by decide +kernel) (by decide +kernel)).last
  exact absurd hlast (by decide +kernel)

end AnimeFeedFlux.Auth
