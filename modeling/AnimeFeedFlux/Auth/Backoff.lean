import AnimeFeedFlux.Auth.Sessions

/-!
# What backoff hides

Two calls from an address that is inside its backoff window, alike but for the credential they
submit, should be answered alike and leave the same behind.  Five of the six methods that check
a credential ask the tracker first.  `ReenrollTOTP` on a full session does not: it verifies the
password itself.

The two calls run from one state, each with nobody else running (`Prog.run`), and draw the same
random values.
-/

namespace AnimeFeedFlux.Auth

open Prog AuthDB AuthServer

/-! ## The two calls -/

/-- Two requests to one method that checks a credential, alike but for the password, the TOTP
code or the recovery code submitted. -/
def SameButCredentials : Request → Request → Prop
  | .login _ _, .login _ _ => True
  | .recoverWithCode _, .recoverWithCode _ => True
  | .changePassword _ _ new, .changePassword _ _ new' => new = new'
  | .reenrollTOTP _, .reenrollTOTP _ => True
  | .regenerateRecoveryCodes _ _, .regenerateRecoveryCodes _ _ => True
  | .backup _ _, .backup _ _ => True
  | _, _ => False

section
variable (s : AuthServer) (st : AuthState) (ctx : Ctx) (coins : Coins) (req req' : Request)

/-- The state a request leaves and what it is answered, with nobody else running. -/
def outcome : AuthState × Result :=
  (s.serve (.rpc ctx coins req)).run Stmt.perform st

/-- The two calls are answered alike and leave the same admin row, TOTP steps and recovery
codes. -/
def Indistinct (coins : Coins) (req req' : Request) : Prop :=
  (outcome s st ctx coins req).2 = (outcome s st ctx coins req').2 ∧
  (outcome s st ctx coins req).1.db.admin = (outcome s st ctx coins req').1.db.admin ∧
  (outcome s st ctx coins req).1.db.totpUsed = (outcome s st ctx coins req').1.db.totpUsed ∧
  (outcome s st ctx coins req).1.db.recoveryCodes = (outcome s st ctx coins req').1.db.recoveryCodes

instance : Decidable (Indistinct s st ctx coins req req') :=
  inferInstanceAs (Decidable (_ ∧ _ ∧ _ ∧ _))

/-- The caller presents a valid session that is full: neither the tracker nor the row says that
it is elevated. -/
def presentsFull : Bool :=
  match sessionTokenFromContext ctx with
  | none => false
  | some raw =>
    match st.db.getSessionByTokenHash (hashToken raw), st.db.sessionIDByHash (hashToken raw) with
    | .ok sess, .ok id =>
      sess.valid st.clock sessionIdleTimeout &&
        !(st.elevated.isElevated (hashToken raw) st.clock).2 &&
        decide (st.db.sessionScope id = .ok .full)
    | _, _ => false

/-- The stored credential accepts a password. -/
def AuthServer.accepts (password : String) : Bool :=
  match st.db.getAdmin with
  | .ok admin => (s.verifyPassword password admin.passwordHash admin.pepperVersion).any (·.ok)
  | .error _ => false

/-- The condition: not two `ReenrollTOTP` on a full session with passwords of which one is
accepted and one is not. -/
def Unrevealing : Request → Request → Prop
  | .reenrollTOTP current, .reenrollTOTP current' =>
    presentsFull st ctx = true → s.accepts st current = s.accepts st current'
  | _, _ => True

end

/-! ## Inside the window -/

theorem verifyCurrentCredentials_blocked {s : AuthServer} (hdev : s.devInsecureAuth = false)
    {st : AuthState} {ctx : Ctx} (hblocked : st.backoff.blocked (clientIP ctx) st.clock)
    (password totpCode : String) :
    (s.verifyCurrentCredentials ctx password totpCode st.clock).run Stmt.perform st =
      (st, .error .checkFailed) := by
  unfold verifyCurrentCredentials backedOff
  simp [hdev, Stmt.perform, hblocked]

/-! ## The interceptor -/

/-- The scope `authorize` wants for a session. -/
def wantScope (cs : CallerSession) : SessionScope := if cs.elevated then .elevated else .full

/-- The end of `authorize`, once the scope is settled. -/
def admitScoped (method : Method) (now : ℤ) (cs : CallerSession) :
    Stored Unit → Handler (Except RpcError (Option CallerSession))
  | .error _ => return .error (fail .internal "updating session scope")
  | .ok () => do
    if wantScope cs != .full && !elevatedAllowedMethods method then
      return .error (fail .permissionDenied "elevated session cannot reach this method")
    match ← ask (.touchSession cs.id now) with
    | .error _ => return .error (fail .internal "touching session")
    | .ok () =>
      ask (.withCallerSession cs)
      return .ok (some cs)

/-- The instructions of `authorize`. -/
def Stmt.authorizes : Stmt → Bool
  | .now | .getSessionByTokenHash _ | .sessionIDByHash _ | .isElevated _ _ | .sessionScope _ |
    .setSessionScope _ _ | .touchSession _ _ | .withCallerSession _ => true
  | _ => false

variable {id : ℕ} {stored : SessionScope} {want : SessionScope} {req' : Request}

theorem along_settled {h : Log Stmt.Reply} {Q : Log Stmt.Reply → Stored Unit → Prop}
    (hQ : ∀ h' r, Q h' r) :
    Along (fun _ q => q.authorizes = true) Q h (settleScope id stored want) := by
  unfold settleScope
  by_cases hw : (stored != want && stored != .elevated) = true
  · rw [if_pos hw]
    exact ⟨rfl, fun r => hQ _ r⟩
  · rw [if_neg hw]
    exact hQ _ _

theorem along_authorize_instructions (ctx : Ctx) (method : Method) :
    Along (fun _ q => q.authorizes = true) (fun _ _ => True) [] (authorize ctx method) := by
  unfold authorize
  split
  · trivial
  split
  · trivial
  refine along_ask_bind.2 ⟨rfl, ?_⟩
  rintro (e | sess)
  · trivial
  refine along_ask_bind.2 ⟨rfl, fun now => ?_⟩
  dsimp only
  split
  · trivial
  refine along_ask_bind.2 ⟨rfl, ?_⟩
  rintro (e | id)
  · trivial
  refine along_ask_bind.2 ⟨rfl, fun tracked => along_ask_bind.2 ⟨rfl, ?_⟩⟩
  rintro (e | stored)
  · trivial
  refine along_bind.2 (along_settled ?_)
  rintro h' (e | _)
  · trivial
  dsimp only
  by_cases hd : ((if (tracked || stored == .elevated) = true then SessionScope.elevated
      else .full) != .full && !elevatedAllowedMethods method) = true
  · rw [if_pos hd]
    trivial
  rw [if_neg hd]
  refine along_ask_bind.2 ⟨rfl, ?_⟩
  rintro (e | _)
  · trivial
  · exact along_ask_bind.2 ⟨rfl, fun _ => trivial⟩

variable {method : Method} {cs : CallerSession}

theorem along_admitScoped_session {h : Log Stmt.Reply} {now : ℤ} :
    Along (fun _ _ => True) (fun _ a => ∀ cs', a = .ok (some cs') → cs' = cs) h
      (settleScope id stored want >>= admitScoped method now cs) := by
  refine along_bind.2 ((along_settled ?_).weaken fun _ _ _ => trivial)
  rintro h' (e | _)
  · simp [admitScoped]
  dsimp only [admitScoped]
  by_cases hd : (wantScope cs != .full && !elevatedAllowedMethods method) = true
  · rw [if_pos hd]
    simp
  rw [if_neg hd]
  refine along_ask_bind.2 ⟨trivial, ?_⟩
  rintro (e | _)
  · simp
  refine along_ask_bind.2 ⟨trivial, fun _ => along_done.2 fun cs' heq => ?_⟩
  cases heq
  rfl

/-- What `authorize` leaves and answers. -/
@[simp] abbrev authorized (st : AuthState) (ctx : Ctx) (method : Method) :
    AuthState × Except RpcError (Option CallerSession) :=
  (authorize ctx method).run Stmt.perform st

/-- `authorize` leaves the tracker of failures, the clock and the admin row alone. -/
theorem authorize_keeps (ctx : Ctx) (method : Method) (st : AuthState) :
    (authorized st ctx method).1.backoff = st.backoff ∧
      (authorized st ctx method).1.clock = st.clock ∧
      (authorized st ctx method).1.db.admin = st.db.admin := by
  refine (along_authorize_instructions ctx method).run_keeps (P := fun st' =>
    st'.backoff = st.backoff ∧ st'.clock = st.clock ∧ st'.db.admin = st.db.admin) ?_ st
    ⟨rfl, rfl, rfl⟩
  intro h q st' hq hst'
  have hframe := frame q st'
  cases q with
  | now | getSessionByTokenHash | sessionIDByHash | isElevated | sessionScope |
    withCallerSession => exact hst'
  | setSessionScope | touchSession => exact ⟨hst'.1, hst'.2.1, (hframe.admin rfl).trans hst'.2.2⟩
  | _ => cases hq

variable {st : AuthState} {ctx : Ctx}

theorem authorize_run {raw : String} {sess : Session} (hm : noSessionMethods method = false)
    (htok : sessionTokenFromContext ctx = some raw)
    (hsess : st.db.getSessionByTokenHash (hashToken raw) = .ok sess)
    (hvalid : sess.valid st.clock sessionIdleTimeout)
    (hid : st.db.sessionIDByHash (hashToken raw) = .ok id)
    (hscope : st.db.sessionScope id = .ok stored)
    (hcs : cs = ⟨id, hashToken raw,
      (st.elevated.isElevated (hashToken raw) st.clock).2 || stored == .elevated⟩) :
    authorized st ctx method =
      (settleScope cs.id stored (wantScope cs) >>= admitScoped method st.clock cs).run Stmt.perform
        { st with elevated := (st.elevated.isElevated (hashToken raw) st.clock).1 } := by
  subst hcs
  unfold authorized authorize
  simp only [hm, htok, hsess, hvalid, hid, hscope, ask_bind, run_call, Stmt.perform,
    Bool.false_eq_true, if_false, Bool.not_true, run_bind, wantScope]
  -- Both sides settle the scope alike, and go on alike with whatever comes of it.
  rcases Bool.eq_false_or_eq_true
    ((st.elevated.isElevated (hashToken raw) st.clock).2 || stored == .elevated) with hel | hel
  all_goals
    simp only [hel, Bool.false_eq_true, if_false, if_true]
    generalize (settleScope id stored _).run Stmt.perform _ = settled
    obtain ⟨st', e | _⟩ := settled
    · rfl
    simp only [admitScoped, wantScope, Bool.false_eq_true, if_false, if_true]
    split
    · rfl
    simp only [ask_bind, run_call]
    rcases (Stmt.perform (.touchSession id st.clock) st').2 with e | _ <;> rfl

/-- A caller that `authorize` admits with a session that is not elevated presents a full one. -/
theorem presentsFull_of_authorize (hm : noSessionMethods method = false)
    (h : (authorized st ctx method).2 = .ok (some cs))
    (hcs : cs.elevated = false) : presentsFull st ctx := by
  unfold presentsFull
  cases htok : sessionTokenFromContext ctx with
  | none => simp [authorize, hm, htok] at h
  | some raw =>
    cases hsess : st.db.getSessionByTokenHash (hashToken raw) with
    | error e => simp [authorize, hm, htok, Stmt.perform, hsess] at h
    | ok sess =>
      by_cases hvalid : sess.valid st.clock sessionIdleTimeout = true
      swap
      · simp [authorize, hm, htok, Stmt.perform, hsess, hvalid] at h
      cases hid : st.db.sessionIDByHash (hashToken raw) with
      | error e => simp [authorize, hm, htok, Stmt.perform, hsess, hvalid, hid] at h
      | ok id =>
        cases hscope : st.db.sessionScope id with
        | error e => simp [authorize, hm, htok, Stmt.perform, hsess, hvalid, hid, hscope] at h
        | ok stored =>
          rw [authorize_run hm htok hsess hvalid hid hscope rfl] at h
          have hgiven :=
            (along_admitScoped_session (h := [])).run_answer Stmt.perform _ cs h
          rw [hgiven] at hcs
          obtain ⟨htracked, hstored⟩ := Bool.or_eq_false_iff.1 hcs
          have hfull : stored = .full := by
            cases stored
            · rfl
            · cases hstored
          simp [hsess, hid, hvalid, htracked, hscope, hfull]

theorem authorize_of_presentsFull (method : Method) (hm : noSessionMethods method = false)
    (h : presentsFull st ctx) :
    ∃ cs, (authorized st ctx method).2 = .ok (some cs) ∧ cs.elevated = false := by
  unfold presentsFull at h
  split at h
  · cases h
  rename_i raw htok
  split at h
  swap
  · cases h
  rename_i sess id hsess hid
  simp only [Bool.and_eq_true, Bool.not_eq_true', decide_eq_true_eq] at h
  obtain ⟨⟨hvalid, htracked⟩, hscope⟩ := h
  refine ⟨⟨id, hashToken raw, false⟩, ?_, rfl⟩
  rw [authorize_run hm htok hsess hvalid hid hscope (by rw [htracked])]
  obtain ⟨row, hrow, hrowid, -⟩ := sessionIDByHash_eq_ok hid
  have hany : st.db.sessions.rows.any (·.id == id) = true :=
    List.any_eq_true.2 ⟨row, hrow, beq_iff_eq.2 hrowid⟩
  simp [settleScope, wantScope, admitScoped, Stmt.perform, Stmt.write, touchSession,
    updateSession, hany]

/-! ## `ReenrollTOTP` -/

/-- The event and the answer of a `ReenrollTOTP` whose password is refused. -/
def refusedReenroll (ip : String) : Handler Result := do
  match ← ask .getAdmin with
  | .error _ => return .error (fail .internal "reenroll failed")
  | .ok _ =>
    let _ ← ask (.recordAuthEvent "reenroll_totp" ip false "current password check failed")
    return .error errAuthFailed

variable {s : AuthServer}

theorem reenrollTOTP_run (hcs : cs.elevated = false) (coins : Coins) (current : String) :
    (s.reenrollTOTP ctx cs coins current).run Stmt.perform st =
      if s.accepts st current then (s.reenroll (clientIP ctx) cs coins).run Stmt.perform st
      else (refusedReenroll (clientIP ctx)).run Stmt.perform st := by
  unfold reenrollTOTP refusedReenroll accepts
  cases hadmin : st.db.getAdmin with
  | error e => simp [hcs, Stmt.perform, hadmin]
  | ok admin =>
    rcases hv : s.verifyPassword current admin.passwordHash admin.pepperVersion with
      _ | ⟨_ | _, _⟩ <;> simp [hcs, Stmt.perform, hadmin, hv]

theorem accepts_congr {st' : AuthState} (h : st'.db.admin = st.db.admin) (password : String) :
    s.accepts st' password = s.accepts st password := by
  unfold accepts getAdmin
  rw [h]

theorem reenroll_ne_refused (hcs : cs.elevated = false) {current : String} (ip : String)
    (coins : Coins) (h : s.accepts st current) :
    ((s.reenroll ip cs coins).run Stmt.perform st).2 ≠
      ((refusedReenroll ip).run Stmt.perform st).2 := by
  unfold accepts at h
  cases hadmin : st.db.getAdmin with
  | error e =>
    rw [hadmin] at h
    cases h
  | ok admin =>
    have hrow : ∃ row, st.db.admin = some row := by
      unfold getAdmin at hadmin
      cases hrow : st.db.admin with
      | none => simp [hrow] at hadmin
      | some row => exact ⟨row, rfl⟩
    obtain ⟨row, hrow⟩ := hrow
    simp [reenroll, reenrolled, refusedReenroll, hcs, Stmt.perform,
      Stmt.write, hadmin, setTOTPSecret, hrow]

/-! ## The six methods -/

variable {coins : Coins} {req : Request}

theorem outcome_of_error {e : RpcError}
    (h : (authorized st ctx req.method).2 = .error e) :
    outcome s st ctx coins req = ((authorized st ctx req.method).1, .error e) := by
  unfold outcome serve
  rw [run_bind, h]
  rfl

theorem outcome_of_ok {cs : Option CallerSession}
    (h : (authorized st ctx req.method).2 = .ok cs) :
    outcome s st ctx coins req =
      (s.handle ctx cs coins req).run Stmt.perform (authorized st ctx req.method).1 := by
  unfold outcome serve
  rw [run_bind, h]

/-- Two calls come to the same if their handlers do, in the state `authorize` leaves. -/
theorem outcome_congr (hmethod : req.method = req'.method)
    (h : ∀ cs, (authorized st ctx req.method).2 = .ok cs →
      (s.handle ctx cs coins req).run Stmt.perform (authorized st ctx req.method).1 =
        (s.handle ctx cs coins req').run Stmt.perform (authorized st ctx req.method).1) :
    outcome s st ctx coins req = outcome s st ctx coins req' := by
  cases hr : (authorized st ctx req.method).2 with
  | error e => rw [outcome_of_error hr, outcome_of_error (hmethod ▸ hr), hmethod]
  | ok cs => rw [outcome_of_ok hr, h cs hr, outcome_of_ok (hmethod ▸ hr), hmethod]

theorem indistinct_of_eq (h : outcome s st ctx coins req = outcome s st ctx coins req') :
    Indistinct s st ctx coins req req' := by
  unfold Indistinct
  rw [h]
  exact ⟨rfl, rfl, rfl, rfl⟩

/-- `ReenrollTOTP`: what the calls come to depends on what the passwords do for a full
session. -/
theorem reenrollTOTP_indistinct_iff (s : AuthServer) (st : AuthState) (ctx : Ctx) (coins : Coins)
    (current current' : String) :
    Indistinct s st ctx coins (.reenrollTOTP current) (.reenrollTOTP current') ↔
      (presentsFull st ctx → s.accepts st current = s.accepts st current') := by
  by_cases hfull : presentsFull st ctx = true
  · obtain ⟨cs, hr, hcs⟩ := authorize_of_presentsFull .reenrollTOTP rfl hfull
    obtain ⟨-, -, hadmin⟩ := authorize_keeps ctx .reenrollTOTP st
    generalize hst₁ : (authorized st ctx .reenrollTOTP).1 = st₁ at hadmin
    have hrun : ∀ password, outcome s st ctx coins (.reenrollTOTP password) =
        if s.accepts st password then (s.reenroll (clientIP ctx) cs coins).run Stmt.perform st₁
        else (refusedReenroll (clientIP ctx)).run Stmt.perform st₁ := by
      intro password
      rw [← accepts_congr hadmin, ← hst₁]
      have hok : (authorized st ctx (Request.reenrollTOTP password).method).2 = .ok (some cs) := hr
      exact (outcome_of_ok hok).trans (reenrollTOTP_run hcs coins password)
    have hshows : ∀ password, s.accepts st password = true → _ := fun password hp =>
      reenroll_ne_refused hcs (clientIP ctx) coins ((accepts_congr hadmin password).trans hp)
    constructor
    · rintro ⟨hanswer, -⟩ -
      rw [hrun, hrun] at hanswer
      cases hp : s.accepts st current <;> cases hp' : s.accepts st current'
      · rfl
      · rw [hp, hp'] at hanswer
        exact absurd hanswer.symm (hshows current' hp')
      · rw [hp, hp'] at hanswer
        exact absurd hanswer (hshows current hp)
      · rfl
    · intro h
      exact indistinct_of_eq (by rw [hrun, hrun, h hfull])
  · refine ⟨fun _ h => absurd h hfull, fun _ => indistinct_of_eq (outcome_congr rfl ?_)⟩
    rintro (_ | cs) hr
    · rfl
    have hel : cs.elevated = true := by
      by_contra hne
      exact hfull (presentsFull_of_authorize rfl hr (by simpa using hne))
    dsimp only [handle, reenrollTOTP]
    rw [if_pos hel, if_pos hel]

/-- **Backoff hides the credential, except for `ReenrollTOTP`.**  Inside the window two calls
that differ in the credential only come to the same exactly if they do not compare passwords
through a `ReenrollTOTP` on a full session. -/
theorem indistinct_iff_unrevealing (s : AuthServer) (hdev : s.devInsecureAuth = false)
    (st : AuthState) (ctx : Ctx) (hblocked : st.backoff.blocked (clientIP ctx) st.clock = true)
    (coins : Coins) (req req' : Request) (hsame : SameButCredentials req req') :
    Indistinct s st ctx coins req req' ↔ Unrevealing s st ctx req req' := by
  have hstill : (authorized st ctx req.method).1.backoff.blocked (clientIP ctx)
      (authorized st ctx req.method).1.clock = true := by
    obtain ⟨hbackoff, hclock, -⟩ := authorize_keeps ctx req.method st
    rw [hbackoff, hclock, hblocked]
  unfold SameButCredentials at hsame
  split at hsame
  · refine ⟨fun _ => trivial, fun _ => indistinct_of_eq (outcome_congr rfl fun cs _ => ?_)⟩
    unfold handle login backedOff
    simp [hdev, Stmt.perform, hstill]
  · refine ⟨fun _ => trivial, fun _ => indistinct_of_eq (outcome_congr rfl fun cs _ => ?_)⟩
    unfold handle recoverWithCode backedOff
    simp [hdev, Stmt.perform, hstill]
  · subst hsame
    refine ⟨fun _ => trivial, fun _ => indistinct_of_eq (outcome_congr rfl ?_)⟩
    rintro (_ | cs) _
    · rfl
    unfold handle changePassword
    by_cases hel : cs.elevated = true
    · simp [hel]
    · simp [hel, run_bind, Stmt.perform, verifyCurrentCredentials_blocked hdev hstill]
  · exact reenrollTOTP_indistinct_iff s st ctx coins _ _
  · refine ⟨fun _ => trivial, fun _ => indistinct_of_eq (outcome_congr rfl ?_)⟩
    rintro (_ | cs) _
    · rfl
    unfold handle regenerateRecoveryCodes
    simp [run_bind, Stmt.perform, verifyCurrentCredentials_blocked hdev hstill]
  · refine ⟨fun _ => trivial, fun _ => indistinct_of_eq (outcome_congr rfl fun cs _ => ?_)⟩
    unfold handle backup
    by_cases hv : s.isVerifier = true
    · simp [hv, run_bind, Stmt.perform, verifyCurrentCredentials_blocked hdev hstill]
    · simp [hv]
  · cases hsame

/-- Three failures have come from `1.2.3.4`, and `tok` names a full session. -/
def afterThreeFailures : AuthState :=
  { clock := plainClock
    backoff := Function.update (fun _ => none) "1.2.3.4" (some ⟨3, plainClock + backoffDelay 3⟩)
    db :=
      { admin := some (plainAdmin "correct horse battery" 3)
        sessions := plainSessions } }

/-- A call from that address with that session. -/
def failingCaller : Ctx := { peer := "1.2.3.4", sessionToken := "tok" }

/-- Inside the window `ChangePassword` tells the right password from a wrong one by nothing. -/
theorem indistinct_iff_unrevealing_changePassword :
    afterThreeFailures.backoff.blocked (clientIP failingCaller) afterThreeFailures.clock = true ∧
      Indistinct plainServer afterThreeFailures failingCaller {}
        (.changePassword "correct horse battery" "123456" "entirely new password")
        (.changePassword "wrong" "" "entirely new password") := by
  have hblocked : afterThreeFailures.backoff.blocked (clientIP failingCaller)
      afterThreeFailures.clock = true := by decide +kernel
  have hsame : SameButCredentials
      (.changePassword "correct horse battery" "123456" "entirely new password")
      (.changePassword "wrong" "" "entirely new password") := rfl
  exact ⟨hblocked, (indistinct_iff_unrevealing plainServer rfl _ _ hblocked _ _ _ hsame).2 trivial⟩

/-- **`ReenrollTOTP` tells the right password from a wrong one**, and sets the secret. -/
theorem not_indistinct_reenrollTOTP :
    plainServer.devInsecureAuth = false ∧
      afterThreeFailures.backoff.blocked (clientIP failingCaller) afterThreeFailures.clock = true ∧
      SameButCredentials (.reenrollTOTP "correct horse battery") (.reenrollTOTP "wrong") ∧
      ¬Indistinct plainServer afterThreeFailures failingCaller { secret := "new" }
        (.reenrollTOTP "correct horse battery") (.reenrollTOTP "wrong") :=
  ⟨rfl, by decide +kernel, trivial, by decide +kernel⟩

end AnimeFeedFlux.Auth
