import AnimeFeedFlux.Rpc.AuthServer

/-!
# What the handlers keep to

Every result about interleaved calls rests on what a single call does whatever it is
answered.  This module says that once.  `Protocol` lists, for the instructions that matter,
after which log a call may issue them: a recovery code is consumed only at the position the
call found its hash at, a password is written only as the new password of a change or reset
or as the password a login has just verified, a scope is only ever raised, and so on.
`Outcome` says what a successful answer tells about the log.  One lemma for each handler,
and `along_serve` for the service.
-/

namespace AnimeFeedFlux.Auth

open Prog List AuthServer

/-! ## What a log shows -/

/-- The admin row a call has read. -/
def adminRead? (h : Log Stmt.Reply) : Option Admin :=
  h.findSome? fun
    | ⟨.getAdmin, .ok a⟩ => some a
    | _ => none

/-- The recovery-code hashes a call has read. -/
def codesRead? (h : Log Stmt.Reply) : Option (List Digest) :=
  h.findSome? fun
    | ⟨.allRecoveryCodeHashes, .ok hs⟩ => some hs
    | _ => none

/-- The position a call has resolved, with the id found there. -/
def codeAt? (h : Log Stmt.Reply) : Option (ℕ × ℕ) :=
  h.findSome? fun
    | ⟨.recoveryCodeIDAt i, .ok id⟩ => some (i, id)
    | _ => none

/-- Whether a call has tried to consume a recovery code. -/
def consumeIssued (h : Log Stmt.Reply) : Bool :=
  h.any fun
    | ⟨.markRecoveryCodeUsed _, _⟩ => true
    | _ => false

/-- Whether a call has tried to write the credential. -/
def updateIssued (h : Log Stmt.Reply) : Bool :=
  h.any fun e =>
    match e.1 with
    | .updatePasswordAndPepper _ _ _ => true
    | _ => false

/-- Whether a call has tried to insert a session. -/
def mintIssued (h : Log Stmt.Reply) : Bool :=
  h.any fun
    | ⟨.createSession _, _⟩ => true
    | _ => false

/-- The stored credential accepts a password. -/
def AuthServer.Verifies (s : AuthServer) (row : Admin) (password : String) : Prop :=
  ∃ v, s.verifyPassword password row.passwordHash row.pepperVersion = some v ∧ v.ok = true

/-- The log shows a revocation of `id` that found the row, or found that there is none. -/
def Revoked (h : Log Stmt.Reply) (id : ℕ) : Prop :=
  ⟨.revokeSession id, .ok ()⟩ ∈ h ∨ ⟨.revokeSession id, .error .notFound⟩ ∈ h

/-! ## The protocol -/

/-- After which log a call may issue an instruction. -/
def Protocol (s : AuthServer) (c : Call) (h : Log Stmt.Reply) : Stmt → Prop
  | .allRecoveryCodeHashes => codeAt? h = none
  | .recoveryCodeIDAt i => ∃ code hs, c.recoveryCode? = some code ∧ codesRead? h = some hs ∧
      verifyCode code hs = some i ∧ consumeIssued h = false
  | .markRecoveryCodeUsed id => ∃ code hs i, c.recoveryCode? = some code ∧
      codesRead? h = some hs ∧ verifyCode code hs = some i ∧ codeAt? h = some (i, id) ∧
      consumeIssued h = false
  | .updatePasswordAndPepper hash _ v => ∃ password,
      s.hashPassword password c.coins.salt = .ok (hash, v) ∧
        (c.newPassword? = some password ∧ c.resetToken? = none ∧ updateIssued h = false ∨
          c.loginPassword? = some password ∧
            ∃ row, adminRead? h = some row ∧ s.Verifies row password)
  | .completePasswordReset token _ hash _ v => ∃ raw new, c.resetToken? = some raw ∧
      c.newPassword? = some new ∧ token = hashResetToken raw ∧
      s.hashPassword new c.coins.salt = .ok (hash, v)
  | .createSession _ => mintIssued h = false
  | .revokeSession _ => c.newPassword?.isSome → updateIssued h = true
  | .otherSessionIDs keep => (∃ cs, ⟨.withCallerSession cs, ()⟩ ∈ h ∧ keep = cs.tokenHash) ∧
      (c.newPassword?.isSome → updateIssued h = true)
  | .mark hash _ => c.loginPassword? = none ∧
      ∃ sess id, ⟨.createSession sess, .ok id⟩ ∈ h ∧ sess.tokenHash = hash
  | .setSessionScope id scope => scope = .elevated ∧
      ((c.loginPassword? = none ∧ ∃ sess, ⟨.createSession sess, .ok id⟩ ∈ h) ∨
        ∃ hash t, ⟨.isElevated hash t, true⟩ ∈ h ∧ ⟨.sessionIDByHash hash, .ok id⟩ ∈ h)
  | .withCallerSession cs => ∃ raw m stored, c.token? = some raw ∧ c.method? = some m ∧
      cs.tokenHash = hashToken raw ∧ ⟨.sessionIDByHash (hashToken raw), .ok cs.id⟩ ∈ h ∧
      ⟨.sessionScope cs.id, .ok stored⟩ ∈ h ∧ (stored = .elevated → cs.elevated = true) ∧
      (cs.elevated = true → elevatedAllowedMethods m = true ∧
        (stored = .elevated ∨ ∃ t, ⟨.isElevated cs.tokenHash t, true⟩ ∈ h))
  | _ => True

/-- What an answer tells about the log. -/
def Outcome (c : Call) (h : Log Stmt.Reply) : Result → Prop
  | .ok (.recoverWithCode m _) => (∃ id, ⟨.markRecoveryCodeUsed id, .ok ()⟩ ∈ h) ∧
      ⟨.createSession m.session, .ok m.id⟩ ∈ h ∧
      m.session.tokenHash = hashToken c.coins.sessionToken ∧
      ⟨.setSessionScope m.id .elevated, .ok ()⟩ ∈ h
  | .ok .changePassword => c.resetToken? = none ∧ ∃ cs ids, ⟨.withCallerSession cs, ()⟩ ∈ h ∧
      ⟨.otherSessionIDs cs.tokenHash, .ok ids⟩ ∈ h ∧ ∀ id ∈ ids, Revoked h id
  | .ok .passwordReset => c.resetToken?.isSome
  | _ => True

variable {s : AuthServer} {c : Call} {h : Log Stmt.Reply}

/-- The instructions of the credential checks: the protocol leaves them alone, and none writes
the credential. -/
def Stmt.quiet : Stmt → Bool
  | .blocked _ _ | .recordFailure _ _ | .recordSuccess _ | .getAdmin | .getTOTPSecret |
    .markTOTPStepUsed _ _ => true
  | _ => false

theorem protocol_of_quiet (h : Log Stmt.Reply) {q : Stmt} (hq : q.quiet) : Protocol s c h q := by
  cases q <;> trivial

theorem updateIssued_of_quiet (h : Log Stmt.Reply) (q : Stmt) (r : q.Reply)
    (hq : q.quiet) : updateIssued (⟨q, r⟩ :: h) = updateIssued h := by
  cases q <;> first | rfl | cases hq

/-! ## The interceptor -/

theorem along_settleScope {Q : Log Stmt.Reply → Stored Unit → Prop} {id : ℕ}
    {stored want : SessionScope}
    (hwant : want = .elevated → stored ≠ .elevated →
      ∃ hash t, ⟨.isElevated hash t, true⟩ ∈ h ∧ ⟨.sessionIDByHash hash, .ok id⟩ ∈ h)
    (hQ : ∀ h', h <:+ h' → updateIssued h' = updateIssued h → ∀ r, Q h' r) :
    Along (Protocol s c) Q h (settleScope id stored want) := by
  unfold settleScope
  by_cases hw : (stored != want && stored != .elevated) = true
  · rw [if_pos hw]
    have hraise : want = .elevated ∧ stored ≠ .elevated := by
      revert hw
      cases stored <;> cases want <;> decide
    exact along_ask.2 ⟨⟨hraise.1, .inr (hwant hraise.1 hraise.2)⟩, fun r =>
      hQ _ (suffix_cons _ _) rfl r⟩
  · rw [if_neg hw]
    exact along_done.2 (hQ _ (suffix_refl _) rfl _)

variable {ctx : Ctx}

theorem along_authorize {method : Method} (hc : c.token? = sessionTokenFromContext ctx)
    (hm : c.method? = some method) :
    Along (Protocol s c) (fun h' r => ∀ cs, r = .ok (some cs) →
      ⟨.withCallerSession cs, ()⟩ ∈ h' ∧ updateIssued h' = updateIssued h) h
      (authorize ctx method) := by
  unfold authorize
  by_cases hns : noSessionMethods method
  · rw [if_pos hns]
    simp
  rw [if_neg hns]
  cases htok : sessionTokenFromContext ctx with
  | none => simp
  | some raw =>
    refine along_ask_bind.2 ⟨trivial, fun sess => ?_⟩
    cases sess with
    | error e => simp
    | ok sess =>
      refine along_ask_bind.2 ⟨trivial, fun now => ?_⟩
      by_cases hv : (!sess.valid now sessionIdleTimeout) = true
      · rw [if_pos hv]
        simp
      rw [if_neg hv]
      refine along_ask_bind.2 ⟨trivial, fun id => ?_⟩
      cases id with
      | error e => simp
      | ok id =>
        refine along_ask_bind.2 ⟨trivial, fun tracked => along_ask_bind.2 ⟨trivial, ?_⟩⟩
        rintro (e | stored)
        · simp
        refine along_bind.2 (along_settleScope (fun hw hs => ?_) fun h' hsuf hupd r => ?_)
        · obtain rfl : tracked = true := by
            revert hw hs
            cases tracked <;> cases stored <;> simp
          exact ⟨hashToken raw, now, by simp, by simp⟩
        rcases r with e | _
        · simp
        dsimp only
        by_cases hd : ((if (tracked || stored == .elevated) = true then SessionScope.elevated
            else .full) != .full && !elevatedAllowedMethods method) = true
        · rw [if_pos hd]
          simp
        rw [if_neg hd]
        refine along_ask_bind.2 ⟨trivial, fun touched => ?_⟩
        rcases touched with e | _
        · simp
        refine along_ask_bind.2 ⟨?_, fun _ => ?_⟩
        · refine ⟨raw, method, stored, hc.trans htok, hm, rfl, ?_, ?_, ?_, fun hel => ?_⟩
          · exact mem_cons_of_mem _ (hsuf.subset (by simp))
          · exact mem_cons_of_mem _ (hsuf.subset (by simp))
          · intro hel
            simp [hel]
          · rw [if_pos hel] at hd
            refine ⟨by simpa using hd, ?_⟩
            by_cases hstored : stored = .elevated
            · exact .inl hstored
            obtain rfl : tracked = true := by simpa [hstored] using hel
            exact .inr ⟨now, mem_cons_of_mem _ (hsuf.subset (by simp))⟩
        · simpa [updateIssued] using hupd

/-! ## The handlers -/

section Quiet

variable {G : Log Stmt.Reply → Stmt → Prop} (hG : ∀ h q, q.quiet → G h q)
include hG

variable {ip : String} {now : ℤ}

theorem along_backedOff {Q : Log Stmt.Reply → Bool → Prop} (hfree : Q h false)
    (hasked : ∀ b, Q (⟨.blocked ip now, b⟩ :: h) b) : Along G Q h (s.backedOff ip now) := by
  unfold backedOff
  split
  · exact hfree
  · exact along_ask.2 ⟨hG _ _ rfl, hasked⟩

theorem along_verifyTOTPCode {Q : Log Stmt.Reply → Stored Bool → Prop} {code : String}
    (hread : ∀ r a, Q (⟨.getTOTPSecret, r⟩ :: h) a)
    (hmark : ∀ r step d r' a, Q (⟨.markTOTPStepUsed step d, r'⟩ :: ⟨.getTOTPSecret, r⟩ :: h) a) :
    Along G Q h (s.verifyTOTPCode code now) := by
  unfold verifyTOTPCode
  refine along_ask_bind.2 ⟨hG _ _ rfl, ?_⟩
  rintro (e | _ | enc)
  · exact hread _ _
  · exact hread _ _
  · dsimp only
    split
    · exact hread _ _
    split
    · exact hread _ _
    · refine along_ask_bind.2 ⟨hG _ _ rfl, fun r => ?_⟩
      split <;> exact hmark _ _ _ _ _

theorem along_settleProof {a : Stored Bool} :
    Along G (fun _ _ => True) h (settleProof ip now a) := by
  rcases a with e | _ | _
  · trivial
  · exact along_ask_bind.2 ⟨hG _ _ rfl, fun _ => trivial⟩
  · exact along_ask_bind.2 ⟨hG _ _ rfl, fun _ => trivial⟩

theorem along_checkCredentials {password totpCode : String} :
    Along G (fun _ _ => True) h (s.checkCredentials ip password totpCode now) := by
  refine along_ask_bind.2 ⟨hG _ _ rfl, ?_⟩
  rintro (e | admin)
  · trivial
  dsimp only
  split
  · trivial
  · exact along_ask_bind.2 ⟨hG _ _ rfl, fun _ => trivial⟩
  · exact along_bind.2 (along_verifyTOTPCode hG (fun _ _ => along_settleProof hG)
      fun _ _ _ _ _ => along_settleProof hG)

end Quiet

variable {password totpCode : String} {now : ℤ}

theorem along_verifyCurrentCredentials {Q : Log Stmt.Reply → Except _ Unit → Prop}
    (hQ : ∀ h', h <:+ h' → updateIssued h' = updateIssued h → ∀ a, Q h' a) :
    Along (Protocol s c) Q h (s.verifyCurrentCredentials ctx password totpCode now) := by
  have quiet : Along (fun _ q => q.quiet = true) (fun _ _ => True) h
      (s.verifyCurrentCredentials ctx password totpCode now) := by
    refine along_bind.2 (along_backedOff (fun _ _ hq => hq) ?_ ?_)
    · exact along_checkCredentials fun _ _ hq => hq
    rintro (_ | _)
    · exact along_checkCredentials fun _ _ hq => hq
    · trivial
  have kept := (quiet.suffix.keeps updateIssued_of_quiet).mono fun h' a ha => hQ h' ha.1.2 ha.2 a
  exact kept.weaken fun h' q hq => protocol_of_quiet h' hq

theorem along_issueSessionCredential {Q : Log Stmt.Reply → Option SessionCredential → Prop}
    {rawToken ticket : String} (hQ : ∀ h', h <:+ h' → ∀ a, Q h' a) :
    Along (Protocol s c) Q h (s.issueSessionCredential ctx now rawToken ticket) := by
  unfold issueSessionCredential
  split
  · exact hQ _ (suffix_refl _) _
  split
  · exact hQ _ (suffix_refl _) _
  · refine along_ask_bind.2 ⟨trivial, ?_⟩
    rintro (_ | _) <;> exact hQ _ (suffix_cons _ _) _

/-- The program keeps to the protocol of the call and answers as `Outcome` says. -/
abbrev Follows (s : AuthServer) (c : Call) : Log Stmt.Reply → Handler Result → Prop :=
  Along (Protocol s c) (Outcome c)

variable {ip : String}

theorem along_refuse {kind detail : String} : Follows s c h (refuse kind ip now detail) :=
  along_ask_bind.2 ⟨trivial, fun _ => along_ask_bind.2 ⟨trivial, fun _ => trivial⟩⟩

variable {coins : Coins}

theorem along_setup : Follows s c h (s.setup ctx coins password) := by
  refine along_ask_bind.2 ⟨trivial, fun admin => ?_⟩
  split
  · exact along_ask_bind.2 ⟨trivial, fun _ => trivial⟩
  · split
    · trivial
    · split
      · trivial
      · refine along_ask_bind.2 ⟨trivial, fun inited => ?_⟩
        split
        · exact along_ask_bind.2 ⟨trivial, fun _ => trivial⟩
        · trivial
        · refine along_ask_bind.2 ⟨trivial, ?_⟩
          rintro (e | _)
          · trivial
          refine along_ask_bind.2 ⟨trivial, ?_⟩
          rintro (e | _)
          · trivial
          exact along_ask_bind.2 ⟨trivial, fun _ => trivial⟩
  · trivial

theorem along_loginSession (hmint : mintIssued h = false) :
    Follows s c h (s.loginSession ctx coins now) := by
  refine along_ask_bind.2 ⟨hmint, ?_⟩
  rintro (e | id)
  · trivial
  refine along_ask_bind.2 ⟨trivial, fun _ => along_ask_bind.2 ⟨trivial, fun _ => ?_⟩⟩
  exact along_bind.2 (along_issueSessionCredential fun _ _ _ => trivial)

variable {Q : Log Stmt.Reply → Unit → Prop} {row : Admin}

theorem along_rehashAdminPassword (hcoins : c.coins = coins)
    (hlogin : c.loginPassword? = some password) (hread : adminRead? h = some row)
    (hrow : s.Verifies row password) (hmint : mintIssued h = false)
    (hQ : ∀ h', mintIssued h' = false → Q h' ()) :
    Along (Protocol s c) Q h (s.rehashAdminPassword ip password coins.salt) := by
  unfold rehashAdminPassword
  split
  · exact along_ask_bind.2 ⟨trivial, fun _ => hQ _ hmint⟩
  rename_i hash v hhash
  refine along_ask_bind.2 ⟨⟨password, by rw [hcoins]; exact hhash,
    .inr ⟨hlogin, row, hread, hrow⟩⟩, ?_⟩
  rintro (e | _)
  · exact along_ask_bind.2 ⟨trivial, fun _ => hQ _ hmint⟩
  · exact hQ _ hmint

theorem along_loginProved {rewrite : Bool} {a : Stored Bool} (hcoins : c.coins = coins)
    (hlogin : c.loginPassword? = some password) (hread : adminRead? h = some row)
    (hrow : s.Verifies row password) (hmint : mintIssued h = false) :
    Follows s c h (s.loginProved ctx coins password now rewrite a) := by
  rcases a with e | _ | _
  · trivial
  · exact along_refuse
  · cases rewrite with
    | false => exact along_loginSession hmint
    | true =>
      refine along_bind.2 (along_rehashAdminPassword hcoins hlogin hread hrow hmint ?_)
      exact fun _ hm => along_loginSession hm

theorem along_login (hcoins : c.coins = coins) (hlogin : c.loginPassword? = some password) :
    Follows s c [] (s.login ctx coins password totpCode) := by
  have checked : ∀ h' now, mintIssued h' = false →
      Follows s c h' (s.loginChecked ctx coins password totpCode now) := by
    intro h' now hmint
    refine along_ask_bind.2 ⟨trivial, ?_⟩
    rintro (e | row)
    · exact along_refuse
    dsimp only [loginCredential]
    split
    · rename_i hv
      have hrow : s.Verifies row password := ⟨_, hv, rfl⟩
      -- Neither instruction of the second factor shows in what the log tells of the row.
      exact along_bind.2 (along_verifyTOTPCode (fun _ _ => protocol_of_quiet _)
        (fun _ _ => along_loginProved hcoins hlogin rfl hrow hmint)
        fun _ _ _ _ _ => along_loginProved hcoins hlogin rfl hrow hmint)
    · exact along_refuse
  refine along_ask_bind.2 ⟨trivial, fun now =>
    along_bind.2 (along_backedOff (fun _ _ => protocol_of_quiet _) ?_ ?_)⟩
  · exact checked _ _ rfl
  rintro (_ | _)
  · exact checked _ _ rfl
  · exact along_ask_bind.2 ⟨trivial, fun _ => trivial⟩

theorem along_recoverSession (hcoins : c.coins = coins) (hmint : mintIssued h = false)
    (hcall : c.loginPassword? = none) (hused : ∃ id, ⟨.markRecoveryCodeUsed id, .ok ()⟩ ∈ h) :
    Follows s c h (s.recoverSession ctx coins now) := by
  refine along_ask_bind.2 ⟨trivial, ?_⟩
  rintro (e | _)
  · trivial
  refine along_ask_bind.2 ⟨hmint, ?_⟩
  rintro (e | id)
  · trivial
  refine along_ask_bind.2 ⟨⟨hcall, _, id, mem_cons_self, rfl⟩, fun _ => ?_⟩
  refine along_ask_bind.2 ⟨⟨rfl, .inl ⟨hcall, _, mem_cons_of_mem _ mem_cons_self⟩⟩, ?_⟩
  rintro (e | _)
  · trivial
  refine along_ask_bind.2 ⟨trivial, ?_⟩
  rintro (e | remaining)
  · trivial
  refine along_ask_bind.2 ⟨trivial, fun _ => along_ask_bind.2 ⟨trivial, fun _ => ?_⟩⟩
  refine along_bind.2 (along_issueSessionCredential fun h' hsuf credential => ?_)
  obtain ⟨id', hused⟩ := hused
  exact ⟨⟨id', hsuf.subset (by simp [hused])⟩, hsuf.subset (by simp), by rw [hcoins]; rfl,
    hsuf.subset (by simp)⟩

theorem along_recoverWithCode {code : String} (hcoins : c.coins = coins)
    (hrec : c.recoveryCode? = some code) (hcall : c.loginPassword? = none) :
    Follows s c [] (s.recoverWithCode ctx coins code) := by
  have failed : ∀ h' now e,
      Follows s c h' (s.recoverUsed ctx coins now (.error e)) := by
    intro h' now e
    unfold recoverUsed
    dsimp only
    split
    · exact along_refuse
    · trivial
  have checked : ∀ h' now, mintIssued h' = false → consumeIssued h' = false → codeAt? h' = none →
      Follows s c h' (s.recoverChecked ctx coins code now) := by
    intro h' now hmint hused hat
    refine along_ask_bind.2 ⟨hat, ?_⟩
    rintro (e | hashes)
    · trivial
    dsimp only
    split
    · exact along_refuse
    rename_i index hindex
    refine along_bind.2 (along_ask_bind.2 ⟨⟨code, hashes, hrec, rfl, hindex, hused⟩, ?_⟩)
    rintro (e | id)
    · exact failed _ _ _
    refine along_ask.2 ⟨⟨code, hashes, index, hrec, rfl, hindex, rfl, hused⟩, ?_⟩
    rintro (e | _)
    · exact failed _ _ _
    · exact along_recoverSession hcoins hmint hcall ⟨id, by simp⟩
  refine along_ask_bind.2 ⟨trivial, fun now =>
    along_bind.2 (along_backedOff (fun _ _ => protocol_of_quiet _) ?_ ?_)⟩
  · exact checked _ _ rfl rfl rfl
  rintro (_ | _)
  · exact checked _ _ rfl rfl rfl
  · exact along_ask_bind.2 ⟨trivial, fun _ => trivial⟩

theorem along_revokeEach {Q : Log Stmt.Reply → Stored Unit → Prop} {ids : List ℕ}
    (hchanged : c.newPassword?.isSome → updateIssued h)
    (hok : ∀ h', h <:+ h' → (c.newPassword?.isSome → updateIssued h') →
      (∀ id ∈ ids, Revoked h' id) → Q h' (.ok ()))
    (herr : ∀ h' e, Q h' (.error e)) :
    Along (Protocol s c) Q h (revokeEach ids) := by
  induction ids generalizing h with
  | nil => exact hok _ (suffix_refl _) hchanged (by simp)
  | cons id ids ih =>
    have next : ∀ r, Revoked (⟨.revokeSession id, r⟩ :: h) id →
        Along (Protocol s c) Q (⟨.revokeSession id, r⟩ :: h) (revokeEach ids) := by
      intro r hr
      refine ih hchanged fun h' hsuf hupd hids =>
        hok h' ((suffix_cons _ _).trans hsuf) hupd ?_
      rintro id' hid'
      rcases mem_cons.1 hid' with rfl | hid'
      · exact hr.imp (fun hm => hsuf.subset hm) fun hm => hsuf.subset hm
      · exact hids id' hid'
    refine along_ask_bind.2 ⟨hchanged, fun r => ?_⟩
    split
    · exact next _ (.inl (by simp))
    · exact next _ (.inr (by simp))
    · exact herr _ _

variable {cs : CallerSession}

theorem along_revokeOtherSessions {Q : Log Stmt.Reply → Stored Unit → Prop}
    (hcs : ⟨.withCallerSession cs, ()⟩ ∈ h)
    (hchanged : c.newPassword?.isSome → updateIssued h)
    (hok : ∀ h' ids, h <:+ h' → (c.newPassword?.isSome → updateIssued h') →
      ⟨.otherSessionIDs cs.tokenHash, .ok ids⟩ ∈ h' → (∀ id ∈ ids, Revoked h' id) → Q h' (.ok ()))
    (herr : ∀ h' e, Q h' (.error e)) :
    Along (Protocol s c) Q h (revokeOtherSessions cs.tokenHash) := by
  refine along_ask_bind.2 ⟨⟨⟨cs, hcs, rfl⟩, hchanged⟩, ?_⟩
  rintro (e | ids)
  · exact herr _ _
  refine along_revokeEach hchanged (fun h' hsuf hupd hids => ?_) herr
  exact hok h' ids ((suffix_cons _ _).trans hsuf) hupd (hsuf.subset (by simp)) hids

theorem along_endElevatedSession (hchanged : c.newPassword?.isSome → updateIssued h)
    (hQ : ∀ h', h <:+ h' → Q h' ()) : Along (Protocol s c) Q h (endElevatedSession cs) :=
  along_ask_bind.2 ⟨trivial, fun _ => along_ask_bind.2 ⟨hchanged, fun _ =>
    hQ _ ((suffix_cons _ _).trans (suffix_cons _ _))⟩⟩

variable {new : String}

theorem along_changeTo (hcoins : c.coins = coins) (hnew : c.newPassword? = some new)
    (hreset : c.resetToken? = none) (hcs : ⟨.withCallerSession cs, ()⟩ ∈ h)
    (hupd : updateIssued h = false) :
    Follows s c h (s.changeTo ip cs coins new) := by
  unfold changeTo
  split
  · trivial
  split
  · trivial
  rename_i hash v hhash
  refine along_ask_bind.2 ⟨⟨new, by rw [hcoins]; exact hhash, .inl ⟨hnew, hreset, hupd⟩⟩, ?_⟩
  rintro (e | _)
  · trivial
  refine along_bind.2 (along_revokeOtherSessions (by simp [hcs]) (fun _ => rfl)
    (fun h' ids hsuf hchanged hlist hids => ?_) fun _ _ => trivial)
  have hcs' : ⟨.withCallerSession cs, ()⟩ ∈ h' := hsuf.subset (mem_cons_of_mem _ hcs)
  have answered : ∀ h'', h' <:+ h'' → Outcome c h'' (.ok .changePassword) := fun h'' hsuf' =>
    ⟨hreset, cs, ids, hsuf'.subset hcs', hsuf'.subset hlist, fun id hid =>
      (hids id hid).imp (hsuf'.subset ·) (hsuf'.subset ·)⟩
  dsimp only
  by_cases hel : cs.elevated = true
  · rw [if_pos hel]
    refine along_bind.2 (along_endElevatedSession hchanged fun h'' hsuf' => ?_)
    exact along_ask_bind.2 ⟨trivial, fun _ => answered _ (hsuf'.trans (suffix_cons _ _))⟩
  · rw [if_neg hel]
    exact along_ask_bind.2 ⟨trivial, fun _ => answered _ (suffix_cons _ _)⟩

variable {current : String}

theorem along_changePassword (hcoins : c.coins = coins) (hnew : c.newPassword? = some new)
    (hreset : c.resetToken? = none) (hcs : ⟨.withCallerSession cs, ()⟩ ∈ h)
    (hupd : updateIssued h = false) :
    Follows s c h (s.changePassword ctx cs coins current totpCode new) := by
  refine along_ask_bind.2 ⟨trivial, fun now => ?_⟩
  by_cases hel : cs.elevated = true
  · rw [if_pos hel]
    exact along_changeTo hcoins hnew hreset (mem_cons_of_mem _ hcs) hupd
  rw [if_neg hel]
  refine along_bind.2 (along_verifyCurrentCredentials fun h' hsuf hupd' a => ?_)
  rcases a with (_ | _) | _
  · exact along_ask_bind.2 ⟨trivial, fun _ => trivial⟩
  · trivial
  · exact along_changeTo hcoins hnew hreset (hsuf.subset (mem_cons_of_mem _ hcs)) (hupd'.trans hupd)

theorem along_reenroll (hnew : c.newPassword? = none) (hcs : ⟨.withCallerSession cs, ()⟩ ∈ h) :
    Follows s c h (s.reenroll ip cs coins) := by
  have hchanged : ∀ h', c.newPassword?.isSome → updateIssued h' = true := by simp [hnew]
  have answered : ∀ h' a, Follows s c h' (reenrolled ip coins a) := by
    rintro h' (e | _)
    · trivial
    · exact along_ask_bind.2 ⟨trivial, fun _ => trivial⟩
  refine along_ask_bind.2 ⟨trivial, ?_⟩
  rintro (e | _)
  · trivial
  dsimp only
  split
  · refine along_bind.2 (along_bind.2 (along_revokeOtherSessions (by simp [hcs])
      (hchanged _) (fun h' ids _ _ _ _ => ?_) fun _ _ => along_done.2 (answered _ _)))
    exact along_bind.2 (along_endElevatedSession (hchanged _) fun _ _ => answered _ _)
  · exact answered _ _

theorem along_reenrollTOTP (hnew : c.newPassword? = none) (hcs : ⟨.withCallerSession cs, ()⟩ ∈ h) :
    Follows s c h (s.reenrollTOTP ctx cs coins current) := by
  unfold reenrollTOTP
  dsimp only
  split
  · exact along_reenroll hnew hcs
  refine along_ask_bind.2 ⟨trivial, ?_⟩
  rintro (e | admin)
  · trivial
  dsimp only
  split
  · exact along_reenroll hnew (mem_cons_of_mem _ hcs)
  · exact along_ask_bind.2 ⟨trivial, fun _ => trivial⟩

theorem along_regenerateRecoveryCodes :
    Follows s c h (s.regenerateRecoveryCodes ctx coins current totpCode) := by
  refine along_ask_bind.2 ⟨trivial, fun now => ?_⟩
  refine along_bind.2 (along_verifyCurrentCredentials fun h' _ _ a => ?_)
  rcases a with (_ | _) | _
  · exact along_ask_bind.2 ⟨trivial, fun _ => trivial⟩
  · trivial
  · refine along_ask_bind.2 ⟨trivial, ?_⟩
    rintro (e | _)
    · trivial
    · exact along_ask_bind.2 ⟨trivial, fun _ => trivial⟩

theorem along_backup : Follows s c h (s.backup ctx current totpCode) := by
  unfold backup
  split
  · trivial
  refine along_ask_bind.2 ⟨trivial, fun now => ?_⟩
  refine along_bind.2 (along_verifyCurrentCredentials fun h' _ _ a => ?_)
  rcases a with e | _
  · exact along_ask_bind.2 ⟨trivial, fun _ => trivial⟩
  refine along_ask_bind.2 ⟨trivial, fun _ => along_ask_bind.2 ⟨trivial, ?_⟩⟩
  rintro (e | db) <;> trivial

theorem along_logout (hnew : c.newPassword? = none) : Follows s c h (logout cs) := by
  refine along_ask_bind.2 ⟨by simp [Protocol, hnew], ?_⟩
  rintro (e | _)
  · trivial
  · exact along_ask_bind.2 ⟨trivial, fun _ => trivial⟩

theorem along_revokeSession {id : Option ℕ} (hnew : c.newPassword? = none) :
    Follows s c h (revokeSession id) := by
  cases id with
  | none => trivial
  | some id =>
    refine along_ask_bind.2 ⟨by simp [Protocol, hnew], fun r => ?_⟩
    split <;> trivial

theorem along_revokeAllSessions : Follows s c h revokeAllSessions := by
  refine along_ask_bind.2 ⟨trivial, ?_⟩
  rintro (e | n)
  · trivial
  refine along_ask_bind.2 ⟨trivial, ?_⟩
  rintro (e | _) <;> trivial

theorem along_completePasswordReset {raw : String} (hcoins : c.coins = coins)
    (hraw : c.resetToken? = some raw) (hnew : c.newPassword? = some new) :
    Follows s c h (s.completePasswordReset coins raw new) := by
  unfold completePasswordReset
  split
  · trivial
  refine along_ask_bind.2 ⟨trivial, fun now => along_ask_bind.2 ⟨trivial, ?_⟩⟩
  rintro (e | hashes)
  · trivial
  dsimp only
  split
  · exact along_ask_bind.2 ⟨trivial, fun _ => trivial⟩
  rename_i matched hmatched
  have htoken : matched = hashResetToken raw :=
    (beq_iff_eq.1 (find?_some hmatched)).symm
  unfold resetMatched
  split
  · trivial
  split
  · trivial
  rename_i hash v hhash
  refine along_ask_bind.2 ⟨⟨raw, new, hraw, hnew, htoken, by rw [hcoins]; exact hhash⟩, fun r => ?_⟩
  split
  · exact along_ask_bind.2 ⟨trivial, fun _ => trivial⟩
  · trivial
  · exact along_ask_bind.2 ⟨trivial, fun _ => by simp [Outcome, hraw]⟩

/-! ## The service -/

/-- The handler of a request keeps to the protocol, from the log `authorize` leaves. -/
theorem along_handle {cs : Option CallerSession} {req : Request} (hc : c = .rpc ctx coins req)
    (hopen : noSessionMethods req.method → h = [])
    (hcs : ∀ cs', cs = some cs' → ⟨.withCallerSession cs', ()⟩ ∈ h ∧ updateIssued h = false) :
    Follows s c h (s.handle ctx cs coins req) := by
  subst hc
  cases req with
  | setup password => exact along_setup
  | login password totpCode =>
    rw [hopen rfl]
    exact along_login rfl rfl
  | recoverWithCode code =>
    rw [hopen rfl]
    exact along_recoverWithCode rfl rfl rfl
  | backup current totpCode => exact along_backup
  | other m => trivial
  | logout =>
    cases cs with
    | none => trivial
    | some cs => exact along_logout rfl
  | changePassword current totpCode new =>
    cases cs with
    | none => trivial
    | some cs => exact along_changePassword rfl rfl rfl (hcs cs rfl).1 (hcs cs rfl).2
  | revokeSession id =>
    cases cs with
    | none => trivial
    | some cs => exact along_revokeSession rfl
  | revokeAllSessions =>
    cases cs with
    | none => trivial
    | some cs => exact along_revokeAllSessions
  | reenrollTOTP current =>
    cases cs with
    | none => trivial
    | some cs => exact along_reenrollTOTP rfl (hcs cs rfl).1
  | regenerateRecoveryCodes current totpCode =>
    cases cs with
    | none => trivial
    | some cs => exact along_regenerateRecoveryCodes

/-- **Every call keeps to the protocol and answers as `Outcome` says.** -/
theorem along_serve (s : AuthServer) (c : Call) :
    Along (Protocol s c) (Outcome c) [] (s.serve c) := by
  cases c with
  | rpc ctx coins req =>
    by_cases hns : noSessionMethods req.method = true
    · -- `authorize` lets these pass without an instruction.
      refine along_bind.2 ?_
      unfold authorize
      rw [if_pos hns]
      exact along_handle rfl (fun _ => rfl) (by simp)
    · refine along_bind.2 ((along_authorize rfl rfl).mono fun h' r hr => ?_)
      rcases r with e | cs
      · trivial
      exact along_handle rfl (fun hopen => absurd hopen hns) fun cs' hcs' => hr cs' (by rw [hcs'])
  | issueReset coins =>
    refine along_ask_bind.2 ⟨trivial, fun now => along_ask_bind.2 ⟨trivial, ?_⟩⟩
    rintro (e | _)
    · trivial
    · exact along_ask_bind.2 ⟨trivial, fun _ => trivial⟩
  | completeReset coins raw new => exact along_completePasswordReset rfl rfl rfl
  | upgrade ticket =>
    refine along_ask_bind.2 ⟨trivial, fun now => along_ask_bind.2 ⟨trivial, ?_⟩⟩
    rintro (_ | raw) <;> trivial

end AnimeFeedFlux.Auth
