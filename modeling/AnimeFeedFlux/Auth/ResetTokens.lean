import AnimeFeedFlux.Auth.Frames

/-!
# Password reset tokens

`CompletePasswordReset` matches its token against a listing and only then opens the transaction
that consumes it, writes the password and revokes the sessions.  The transaction's own `UPDATE`
decides, so whatever happens in between costs nothing but the call's success.  What the `UPDATE`
decides by are texts: an expiry is compared with the instant of the call as RFC 3339 texts, whose
order is not that of the instants within one second.
-/

namespace AnimeFeedFlux.Auth

open Prog Machine Threads Threads.System List AuthDB

/-! ## What a reset call issues -/

/-- The instant a call has read. -/
def clockRead? (h : Log Stmt.Reply) : Option ℤ :=
  h.findSome? fun
    | ⟨.now, t⟩ => some t
    | _ => none

/-- Whether the transaction of a call has gone through. -/
def resetDone (h : Log Stmt.Reply) : Bool :=
  h.any fun
    | ⟨.completePasswordReset _ _ _ _ _, .ok ()⟩ => true
    | _ => false

/-- After which log a call that presents `raw` may issue an instruction. -/
def ResetIssues (raw : String) (h : Log Stmt.Reply) : Stmt → Prop
  | .now | .activeResetTokenHashes _ | .recordAuthEvent _ _ _ _ => True
  | .completePasswordReset token now _ _ _ =>
    token = hashResetToken raw ∧ clockRead? h = some now
  | _ => False

/-- The protocol of the reset calls; the others are free. -/
def ResetProtocol (c : Call) (h : Log Stmt.Reply) (q : Stmt) : Prop :=
  ∀ raw, c.resetToken? = some raw → ResetIssues raw h q

/-- A reset call whose transaction has gone through answers with success. -/
def ResetOutcome (c : Call) (h : Log Stmt.Reply) (a : Result) : Prop :=
  c.resetToken?.isSome → resetDone h = true → a = .ok .passwordReset

theorem along_resets (s : AuthServer) (c : Call) :
    Along (ResetProtocol c) (ResetOutcome c) [] (s.serve c) := by
  cases c with
  | completeReset coins raw new =>
    have issues : ∀ {h q}, ResetIssues raw h q →
        ResetProtocol (.completeReset coins raw new) h q := by
      rintro h q hq raw' ⟨⟩
      exact hq
    have failed : ∀ {h} e, resetDone h = false →
        ResetOutcome (.completeReset coins raw new) h (.error e) := by
      intro h e hnone _ hdone
      rw [hnone] at hdone
      cases hdone
    unfold AuthServer.serve AuthServer.completePasswordReset
    dsimp only
    split
    · exact failed _ rfl
    refine along_ask_bind.2 ⟨issues trivial, fun now => along_ask_bind.2 ⟨issues trivial, ?_⟩⟩
    rintro (e | hashes)
    · exact failed _ rfl
    dsimp only
    split
    · exact along_ask_bind.2 ⟨issues trivial, fun _ => failed _ rfl⟩
    rename_i matched hmatched
    have htoken : matched = hashResetToken raw :=
      (beq_iff_eq.1 (find?_some hmatched)).symm
    unfold AuthServer.resetMatched
    split
    · exact failed _ rfl
    split
    · exact failed _ rfl
    refine along_ask_bind.2 ⟨issues ⟨htoken, rfl⟩, fun r => ?_⟩
    split
    · exact along_ask_bind.2 ⟨issues trivial, fun _ => failed _ rfl⟩
    · exact failed _ rfl
    · exact along_ask_bind.2 ⟨issues trivial, fun _ _ _ => rfl⟩
  | _ => exact along_of_forall (fun _ _ _ h => by cases h) (fun _ _ h => by cases h) _

/-! ## What a step does -/

/-- Nothing has changed but the record of events. -/
def Untouched (st st' : AuthState) : Prop :=
  st' = { st with db := { st.db with authEvents := st'.db.authEvents } }

/-- The password hash is another one. -/
def Changes (st st' : AuthState) : Prop :=
  st'.db.admin.map (·.passwordHash) ≠ st.db.admin.map (·.passwordHash)
deriving Decidable

/-- Every session is revoked. -/
def AllRevoked (st : AuthState) : Prop := ∀ row ∈ st.db.sessions.rows, row.revokedAt.isSome
deriving Decidable

/-- Exactly one token becomes used: one that `raw` matches, that was unused, and that is not
expired at the instant the call has read. -/
def Spends (raw : String) (st st' : AuthState) : Option ℤ → Prop
  | none => False
  | some now => ∃ row ∈ st.db.resetTokens.rows, row.tokenHash = hashResetToken raw ∧
      row.usedAt = none ∧ now < row.expiresAt ∧
      st'.db.resetTokens.rows = st.db.resetTokens.rows.map fun r =>
        if r.id = row.id then { r with usedAt := some now } else r

variable {st st' : AuthState}

theorem Untouched.not_changes (h : Untouched st st') : ¬Changes st st' := by
  intro hne
  unfold Untouched at h
  rw [h] at hne
  exact hne rfl

theorem Untouched.not_spends (h : Untouched st st') (raw : String) (now : Option ℤ) :
    ¬Spends raw st st' now := by
  cases now with
  | none => exact id
  | some now =>
    rintro ⟨row, hrow, -, hunused, -, hrows⟩
    unfold Untouched at h
    rw [h] at hrows
    have hused : { row with usedAt := some now } ∈ st.db.resetTokens.rows := by
      rw [hrows]
      exact mem_map.2 ⟨row, hrow, if_pos rfl⟩
    have heq := st.db.resetTokens.eq_of_id hrow hused rfl
    rw [heq] at hunused
    cases hunused

/-- The transaction of an instruction: the token it consumes, as of when, and the new hash. -/
def Stmt.reset? : Stmt → Option (Digest × ℤ × PasswordHash)
  | .completePasswordReset token asOf hash _ _ => some (token, asOf, hash)
  | _ => none

/-- The transaction a step is to run. -/
def committing (w : World) (a : Label) : Option (Digest × ℤ × PasswordHash) :=
  (w.issuing a).bind fun e => e.2.2.reset?

/-- The token a reset call presents, and its log. -/
def resetting (w : World) (i : ℕ) : Option (String × Log Stmt.Reply) :=
  (w.threads[i]?).bind fun t => t.request.resetToken?.map (·, t.log)

/-- What a transaction that goes through leaves. -/
structure Commits (w : World) (raw : String) (now : ℤ) (hash : PasswordHash) (st' : AuthState) :
    Prop where
  consumed : ∃ row ∈ w.shared.db.resetTokens.rows,
    AuthDB.isConsumed (hashResetToken raw) now row = true
  tokens : st'.db.resetTokens.rows = w.shared.db.resetTokens.rows.map fun r =>
    if AuthDB.isConsumed (hashResetToken raw) now r then { r with usedAt := some now } else r
  admin : st'.db.admin.map (·.passwordHash) = w.shared.db.admin.map fun _ => hash
  revoked : AllRevoked st'

theorem allRevoked_revokeAll (t : Sessions) (now : ℤ) :
    ∀ row ∈ (revokeAll t now).rows, row.revokedAt.isSome := by
  intro row hrow
  obtain ⟨row', -, rfl⟩ := Table.mem_modify.1 hrow
  by_cases hlive : row'.revokedAt.isNone = true
  · rw [if_pos hlive]
    cases hr : row'.revokedAt <;> simp [revoke, hr]
  · rw [if_neg hlive]
    simpa [Option.isSome_iff_ne_none] using hlive

variable {raw : String}

theorem untouched_issued {h : Log Stmt.Reply} {q : Stmt} (st : AuthState) (hq : ResetIssues raw h q)
    (hreset : q.reset? = none) : Untouched st (q.perform st).1 := by
  cases q with
  | now | activeResetTokenHashes | recordAuthEvent => rfl
  | completePasswordReset => cases hreset
  | _ => cases hq

variable {w : World} {now v : ℤ} {hash : PasswordHash} {kdf : String}

theorem commits_perform
    (hany : w.shared.db.resetTokens.rows.any (isConsumed (hashResetToken raw) now)) :
    Commits w raw now hash
      (Stmt.perform (.completePasswordReset (hashResetToken raw) now hash kdf v) w.shared).1 := by
  obtain ⟨row, hrow, hconsumed⟩ := any_eq_true.1 hany
  have hdb : (Stmt.perform (.completePasswordReset (hashResetToken raw) now hash kdf v)
      w.shared).1.db = (w.shared.db.completePasswordReset (hashResetToken raw) now hash kdf v).1 :=
    rfl
  unfold completePasswordReset at hdb
  rw [if_pos hany] at hdb
  refine ⟨⟨row, hrow, hconsumed⟩, ?_, ?_, ?_⟩
  · rw [hdb]
    rfl
  · rw [hdb]
    cases hadmin : w.shared.db.admin <;> simp [updatePasswordAndPepper, hadmin]
  · unfold AllRevoked
    rw [hdb]
    exact allRevoked_revokeAll _ _

/-- **A step of a reset call is its one transaction or touches nothing.** -/
theorem reset_step {s : AuthServer} (hw : Obeys ResetProtocol ResetOutcome w) {i : ℕ} (ok : Bool)
    {h : Log Stmt.Reply} (hr : resetting w i = some (raw, h)) :
    Untouched w.shared (step s w (.run i ok)).shared ∨
      ∃ now hash, committing w (.run i ok) = some (hashResetToken raw, now, hash) ∧
        clockRead? h = some now ∧ Commits w raw now hash (step s w (.run i ok)).shared ∧
        ∃ t', (step s w (.run i ok)).threads[i]? = some t' ∧ resetDone t'.log := by
  obtain ⟨t, ht, hmap⟩ := Option.bind_eq_some_iff.1 hr
  obtain ⟨raw', hraw, heq⟩ := Option.map_eq_some_iff.1 hmap
  obtain ⟨rfl, rfl⟩ := Prod.mk.inj heq
  obtain heq | ⟨c, h, q, k, st', r, hi, -⟩ := step_run_cases (authSystem s) w i ok
  · left
    rw [show (step s w (.run i ok)).shared = w.shared from congrArg Pool.shared heq]
    rfl
  obtain rfl := Option.some.inj (hi.thread.symm.trans ht)
  have hissued : ResetIssues raw' h q := hw.issues hi raw' hraw
  rw [show (step s w (.run i ok)).shared = st' from hi.shared]
  rcases reply_cases hi.reply with ⟨-, hp⟩ | ⟨-, rfl, -⟩
  · obtain rfl : st' = (q.perform w.shared).1 := congrArg Prod.fst hp
    by_cases hreset : q.reset? = none
    · exact .inl (untouched_issued _ hissued hreset)
    cases q with
    | completePasswordReset token now hash kdf v =>
      obtain ⟨rfl, hnow⟩ := hissued
      by_cases hany : w.shared.db.resetTokens.rows.any (isConsumed (hashResetToken raw') now) = true
      · right
        refine ⟨now, hash, ?_, hnow, commits_perform hany, _, hi.thread_step, ?_⟩
        · simp [committing, hi.issuing, Stmt.reset?]
        obtain rfl : r = .ok () := (congrArg Prod.snd hp).trans (by
          simp [authSystem, Stmt.perform, Stmt.write, completePasswordReset, hany])
        rfl
      · left
        simp [Stmt.perform, Stmt.write, completePasswordReset, hany]
        rfl
    | _ => exact absurd rfl hreset
  · exact .inl rfl

/-! ## Used tokens stay used -/

/-- The token with the hash `d` is used. -/
def UsedToken (d : Digest) (st : AuthState) : Prop :=
  ∃ row ∈ st.db.resetTokens.rows, row.tokenHash = d ∧ row.usedAt.isSome

theorem usedToken_perform {d : Digest} (q : Stmt) (st : AuthState) (h : UsedToken d st) :
    UsedToken d (q.perform st).1 := by
  have hframe := frame q st
  obtain ⟨row, hrow, hd, hused⟩ := h
  cases q with
  | createPasswordResetToken hash expiresAt =>
    simp only [Stmt.perform, Stmt.write, createPasswordResetToken]
    split
    · exact ⟨row, hrow, hd, hused⟩
    rename_i t ht
    exact ⟨row, (Table.mem_insert ht).2 (.inl hrow), hd, hused⟩
  | completePasswordReset token now hash kdf v =>
    simp only [Stmt.perform, Stmt.write, completePasswordReset]
    split
    · refine ⟨_, mem_map.2 ⟨row, hrow, rfl⟩, ?_⟩
      split
      · exact ⟨hd, rfl⟩
      · exact ⟨hd, hused⟩
    · exact ⟨row, hrow, hd, hused⟩
  | _ => exact ⟨row, by rwa [hframe.resetTokens rfl], hd, hused⟩

theorem usedToken_exec {s : AuthServer} {d : Digest} (as : List Label) (h : UsedToken d w.shared) :
    UsedToken d (exec (step s) w as).shared :=
  exec_induction (step s) (fun w => UsedToken d w.shared)
    (shared_step usedToken_perform (fun _ _ h => h) fun _ h => h) as w h

theorem isConsumed_iff {row : ResetToken} : isConsumed token now row ↔
      row.tokenHash = token ∧ row.usedAt = none ∧ formatTime now < formatTime row.expiresAt := by
  simp [isConsumed, isActive]

theorem Commits.used (h : Commits w raw now hash st') : UsedToken (hashResetToken raw) st' := by
  obtain ⟨row, hrow, hconsumed⟩ := h.consumed
  refine ⟨{ row with usedAt := some now }, ?_, (isConsumed_iff.1 hconsumed).1, rfl⟩
  rw [h.tokens]
  exact mem_map.2 ⟨row, hrow, if_pos hconsumed⟩

theorem Commits.not_used (h : Commits w raw now hash st') :
    ¬UsedToken (hashResetToken raw) w.shared := by
  rintro ⟨row', hrow', hd, hused⟩
  obtain ⟨row, hrow, hconsumed⟩ := h.consumed
  obtain ⟨hd', hunused, -⟩ := isConsumed_iff.1 hconsumed
  rw [w.shared.db.resetTokens.eq_of_key hrow' hrow (hd.trans hd'.symm), hunused] at hused
  cases hused

/-! ## At most once -/

/-- The transaction has gone through for the token. -/
def resets (raw : String) : Sigma Stmt.Reply → Bool
  | ⟨.completePasswordReset token _ _ _ _, .ok ()⟩ => token == hashResetToken raw
  | _ => false

theorem resets_perform (q : Stmt) (st : AuthState) (h : resets raw ⟨q, (q.perform st).2⟩) :
    ¬UsedToken (hashResetToken raw) st ∧ UsedToken (hashResetToken raw) (q.perform st).1 := by
  cases q with
  | completePasswordReset token now hash kdf v =>
    by_cases hany : st.db.resetTokens.rows.any (isConsumed token now) = true
    · obtain rfl : token = hashResetToken raw := by
        simpa [Stmt.perform, Stmt.write, completePasswordReset, hany, resets] using h
      have hcommits := @commits_perform raw { shared := st } now v hash kdf hany
      exact ⟨hcommits.not_used, hcommits.used⟩
    · simp [Stmt.perform, Stmt.write, completePasswordReset, hany, resets] at h
  | _ => cases h

/-- **A reset token is good for one reset**, whatever a run interleaves. -/
theorem resets_at_most_once (s : AuthServer) (st : AuthState) (as : List Label) (raw : String) :
    (exec (step s) { shared := st } as).logged (resets raw) ≤ 1 := by
  refine logged_le_one resets_perform ?_ usedToken_perform (fun _ _ h => h) (fun _ h => h) as rfl
  intro q r hf
  cases q <;> cases hf <;> rfl

/-! ## Single use -/

/-- The condition on a step that runs the transaction: a token its `UPDATE` takes is not
expired, and there is an admin row with another hash than the new one. -/
def Timely (w : World) (a : Label) : Prop :=
  ∀ r ∈ committing w a, ∀ row ∈ w.shared.db.resetTokens.rows,
    AuthDB.isConsumed r.1 r.2.1 row = true →
      r.2.1 < row.expiresAt ∧ ∃ admin ∈ w.shared.db.admin, admin.passwordHash ≠ r.2.2
deriving Decidable

/-- **Reset tokens are single-use and atomic.**  At each step of a reset call the password hash
changes and all sessions are revoked exactly if one matching token is spent; no two steps change
it by one token; and no step of a call that fails touches anything. -/
structure SingleUse (s : AuthServer) (w : World) (as : List Label) : Prop where
  atomic : ∀ as₁ i ok as₂ raw h, as = as₁ ++ .run i ok :: as₂ →
    resetting (exec (step s) w as₁) i = some (raw, h) →
    (Changes (exec (step s) w as₁).shared (exec (step s) w (as₁ ++ [.run i ok])).shared ∧
        AllRevoked (exec (step s) w (as₁ ++ [.run i ok])).shared ↔
      Spends raw (exec (step s) w as₁).shared (exec (step s) w (as₁ ++ [.run i ok])).shared
        (clockRead? h))
  once : ∀ as₁ i ok as₂ j ok' as₃ raw h h',
    as = as₁ ++ .run i ok :: as₂ ++ .run j ok' :: as₃ →
    resetting (exec (step s) w as₁) i = some (raw, h) →
    resetting (exec (step s) w (as₁ ++ .run i ok :: as₂)) j = some (raw, h') →
    Changes (exec (step s) w as₁).shared (exec (step s) w (as₁ ++ [.run i ok])).shared →
    ¬Changes (exec (step s) w (as₁ ++ .run i ok :: as₂)).shared
      (exec (step s) w (as₁ ++ .run i ok :: as₂ ++ [.run j ok'])).shared
  failing : ∀ (i : ℕ) (t : Serving) e, (exec (step s) w as).threads[i]? = some t →
    t.request.resetToken?.isSome → t.answer? = some (.error e) →
    ∀ as₁ ok as₂, as = as₁ ++ .run i ok :: as₂ →
      Untouched (exec (step s) w as₁).shared (exec (step s) w (as₁ ++ [.run i ok])).shared

theorem Commits.spends (h : Commits w raw now hash st')
    (hnow : ∀ row ∈ w.shared.db.resetTokens.rows,
      isConsumed (hashResetToken raw) now row → now < row.expiresAt) :
    Spends raw w.shared st' (some now) := by
  obtain ⟨row, hrow, hconsumed⟩ := h.consumed
  obtain ⟨hd, hunused, -⟩ := isConsumed_iff.1 hconsumed
  refine ⟨row, hrow, hd, hunused, hnow row hrow hconsumed, h.tokens.trans ?_⟩
  -- The hash is a key, so the `UPDATE` takes the row with this id and no other.
  refine map_congr_left fun r hr => if_congr ⟨fun hr' => ?_, fun hid => ?_⟩ rfl rfl
  · rw [w.shared.db.resetTokens.eq_of_key hr hrow ((isConsumed_iff.1 hr').1.trans hd.symm)]
  · rwa [w.shared.db.resetTokens.eq_of_id hr hrow hid]

theorem Commits.changes (h : Commits w raw now hash st')
    (hadmin : ∃ admin ∈ w.shared.db.admin, admin.passwordHash ≠ hash) : Changes w.shared st' := by
  obtain ⟨admin, hmem, hne⟩ := hadmin
  unfold Changes
  rw [h.admin, Option.mem_def.1 hmem]
  exact fun heq => hne (Option.some.inj heq).symm

theorem singleUse_of_timely (s : AuthServer) (w : World) (hw : w.threads = []) (as : List Label)
    (hcond : Meets (step s) Timely w as) : SingleUse s w as where
  atomic := by
    rintro as₁ i ok as₂ raw h rfl hr
    have hobeys : Obeys ResetProtocol ResetOutcome (exec (step s) w as₁) :=
      obeys_exec (along_resets s) as₁ w hw
    rw [meets_append, meets_cons] at hcond
    rw [exec_concat]
    obtain huntouched | ⟨now, hash, hcommitting, hnow, hcommits, -⟩ := reset_step hobeys ok hr
    · exact ⟨fun hc => absurd hc.1 huntouched.not_changes, fun hs =>
        absurd hs (huntouched.not_spends _ _)⟩
    have htimely := hcond.2.1 _ hcommitting
    obtain ⟨row, hrow, hconsumed⟩ := hcommits.consumed
    rw [hnow]
    exact ⟨fun _ => hcommits.spends fun row hrow hc => (htimely row hrow hc).1, fun _ =>
      ⟨hcommits.changes (htimely row hrow hconsumed).2, hcommits.revoked⟩⟩
  once := by
    rintro as₁ i ok as₂ j ok' as₃ raw h h' rfl hr hr' hchanges hchanges'
    have hobeys : ∀ bs, Obeys ResetProtocol ResetOutcome (exec (step s) w bs) := fun bs =>
      obeys_exec (along_resets s) bs w hw
    rw [exec_concat] at hchanges hchanges'
    obtain huntouched | ⟨now, hash, -, -, hcommits, -⟩ := reset_step (hobeys _) ok hr
    · exact huntouched.not_changes hchanges
    obtain huntouched | ⟨now', hash', -, -, hcommits', -⟩ := reset_step (hobeys _) ok' hr'
    · exact huntouched.not_changes hchanges'
    refine hcommits'.not_used ?_
    rw [exec_append, exec_cons]
    exact usedToken_exec as₂ hcommits.used
  failing := by
    rintro i t e ht hreset ha as₁ ok as₂ rfl
    have hobeys : ∀ bs, Obeys ResetProtocol ResetOutcome (exec (step s) w bs) := fun bs =>
      obeys_exec (along_resets s) bs w hw
    rw [exec_concat]
    cases ht₁ : (exec (step s) w as₁).threads[i]? with
    | none =>
      -- The call has not arrived yet.
      obtain heq | ⟨c, h, q, k, st', r, hi, -⟩ :=
        step_run_cases (authSystem s) (exec (step s) w as₁) i ok
      · rw [show (step s _ (.run i ok)).shared = _ from congrArg Pool.shared heq]
        rfl
      · cases ht₁.symm.trans hi.thread
    | some t₁ =>
      rw [exec_append, exec_cons] at ht
      obtain ⟨t₂, ht₂, hreq₂, -⟩ := thread_step (authSystem s) _ (.run i ok) ht₁
      obtain ⟨t₃, ht₃, hreq₃, hsuf⟩ := thread_exec (authSystem s) as₂ _ ht₂
      obtain rfl := Option.some.inj (ht₃.symm.trans ht)
      obtain ⟨raw, hraw⟩ := Option.isSome_iff_exists.1 hreset
      have hr : resetting (exec (step s) w as₁) i = some (raw, t₁.log) := by
        rw [hreq₃, hreq₂] at hraw
        simp [resetting, ht₁, hraw]
      obtain huntouched | ⟨-, -, -, -, -, t', ht', hdone⟩ := reset_step (hobeys _) ok hr
      · exact huntouched
      -- Its transaction has gone through, so it would have answered with success.
      obtain rfl := Option.some.inj (ht₂.symm.trans ht')
      have hdone' : resetDone t₃.log = true := by
        obtain ⟨e', he', hp⟩ := any_eq_true.1 hdone
        exact any_eq_true.2 ⟨e', hsuf.subset he', hp⟩
      have hanswer := (hobeys (as₁ ++ .run i ok :: as₂)).answer
        (by rw [exec_append, exec_cons]; exact mem_of_getElem? ht) ha hreset hdone'
      cases hanswer

/-- An admin, two sessions, and a token that expires half a second after `plainClock`. -/
def oneToken (clock : ℤ) : World :=
  { shared :=
      { clock := clock
        db :=
          { admin := some (plainAdmin "correct horse battery" 3)
            sessions := ⟨[{ toSession := plainSession "a", id := 1 },
              { toSession := plainSession "b", id := 2 }], by decide, by decide⟩
            resetTokens := ⟨[⟨1, ⟨"reset"⟩, plainClock + 500000000, none⟩], by decide,
              by decide⟩ } } }

/-- Two calls that present it, both past the listing before either runs its transaction. -/
def twoResets : List Label :=
  [.request (.completeReset { salt := 1 } "reset" "entirely new password"),
   .request (.completeReset { salt := 2 } "reset" "another new password")] ++
    runs 0 2 ++ runs 1 2 ++ runs 0 2 ++ runs 1 2

/-- One of the two resets the password and revokes both sessions, and the other fails. -/
theorem singleUse_of_timely_twoResets :
    Meets (step plainServer) Timely (oneToken (plainClock - Time.minute)) twoResets ∧
      SingleUse plainServer (oneToken (plainClock - Time.minute)) twoResets ∧
      ((exec (step plainServer) (oneToken (plainClock - Time.minute)) twoResets).threads.map
        fun t => t.answer?.map (·.isOk)) = [some true, some false] ∧
      (exec (step plainServer) (oneToken (plainClock - Time.minute))
        twoResets).shared.db.sessions.rows.all (·.revokedAt.isSome) = true := by
  have hmeets :
      Meets (step plainServer) Timely (oneToken (plainClock - Time.minute)) twoResets := by
    decide +kernel
  exact ⟨hmeets, singleUse_of_timely _ _ rfl _ hmeets, by decide +kernel, by decide +kernel⟩

/-- A call that presents the token, up to its transaction. -/
def lateReset : List Label :=
  .request (.completeReset {} "reset" "entirely new password") :: runs 0 2

/-- **A token accepted after its expiry.**  The call reads `plainClock` plus 0.51 s, ten
milliseconds after the token has expired; but the text that ends in `.51Z` comes before the one
that ends in `.5Z`, and the transaction goes through. -/
theorem not_singleUse_expired :
    ¬SingleUse plainServer (oneToken (plainClock + 510000000)) (lateReset ++ [.run 0 true]) := by
  intro h
  have hreset : (resetting (exec (step plainServer) (oneToken (plainClock + 510000000))
      lateReset) 0).map (fun e => (e.1, clockRead? e.2)) =
      some ("reset", some (plainClock + 510000000)) := by
    decide +kernel
  obtain ⟨⟨raw, log⟩, hr, heq⟩ := Option.map_eq_some_iff.1 hreset
  obtain ⟨rfl, hclock⟩ := Prod.mk.inj heq
  have hspends := (h.atomic lateReset 0 true [] _ log rfl hr).1 (by decide +kernel)
  rw [show clockRead? log = _ from hclock] at hspends
  obtain ⟨row, hrow, -, -, hnow, -⟩ := hspends
  have hexpired : ∀ row ∈ (exec (step plainServer) (oneToken (plainClock + 510000000))
      lateReset).shared.db.resetTokens.rows, ¬plainClock + 510000000 < row.expiresAt := by
    decide +kernel
  exact hexpired row hrow hnow

end AnimeFeedFlux.Auth
