import AnimeFeedFlux.Auth.Sessions

/-!
# One-time credentials

A TOTP step is used up by an insert under a primary key, a login ticket by a lookup and delete
under a lock.  Neither look before the leap, so neither needs an argument about who else runs:
what an answer spends is gone with that answer.
-/

namespace AnimeFeedFlux.Auth

open Prog Machine Threads Threads.System List

/-! ## TOTP steps -/

/-- From the log `h`, `verifyTOTPCode` has come to the log `h'`: it accepts only a code that
`ValidateCode` finds at a step, and by the insert of that step. -/
def Accepted (s : AuthServer) (code : String) (now : ℤ) (h h' : Log Stmt.Reply)
    (verdict : Stored Bool) : Prop :=
  verdict = .ok true → ∃ secret step read, validateCode s.prim secret code now = some step ∧
    h' = ⟨.markTOTPStepUsed step ⟨code⟩, .ok ()⟩ :: ⟨.getTOTPSecret, read⟩ :: h

variable {s : AuthServer} {t : TicketStore} {now : ℤ} {ticket raw : String} {entry : TicketEntry}

/-- **`verifyTOTPCode` accepts by spending the step it found**, whatever the other calls do. -/
theorem along_accepted (hdev : s.devInsecureAuth = false) (code : String) (now : ℤ)
    (h : Log Stmt.Reply) :
    Along (fun _ _ => True) (Accepted s code now h) h (s.verifyTOTPCode code now) := by
  have refused : ∀ h', Accepted s code now h h' (.ok false) := fun h' hv => by cases hv
  refine along_ask_bind.2 ⟨trivial, ?_⟩
  rintro (e | _ | enc)
  · exact refused _
  · exact refused _
  · dsimp only
    split
    · exact refused _
    rename_i secret hsecret
    split
    · exact refused _
    rename_i step hstep
    refine along_ask_bind.2 ⟨trivial, fun r => ?_⟩
    split
    · rw [hdev]
      exact refused _
    · exact fun hv => by cases hv
    · exact fun _ => ⟨secret, step, _, hstep, rfl⟩

/-- The acceptance of a step. -/
def accepts (step : ℤ) : Sigma Stmt.Reply → Bool
  | ⟨.markTOTPStepUsed step' _, .ok ()⟩ => step' == step
  | _ => false

/-- A step that is used up. -/
def Spent (step : ℤ) (st : AuthState) : Prop := st.db.totpUsed.any (·.step == step) = true

theorem spent_perform {step : ℤ} (q : Stmt) (st : AuthState) (h : Spent step st) :
    Spent step (q.perform st).1 := by
  have hframe := frame q st
  unfold Spent at h ⊢
  cases q with
  | markTOTPStepUsed step' code =>
    simp only [Stmt.perform, Stmt.write, AuthDB.markTOTPStepUsed]
    split
    · exact h
    · rw [any_append, h, Bool.true_or]
  | _ => rwa [hframe.totpUsed rfl]

theorem accepts_perform {step : ℤ} (q : Stmt) (st : AuthState)
    (h : accepts step ⟨q, (q.perform st).2⟩) :
    ¬Spent step st ∧ Spent step (q.perform st).1 := by
  cases q with
  | markTOTPStepUsed step' code =>
    replace h : accepts step ⟨.markTOTPStepUsed step' code,
      (st.db.markTOTPStepUsed st.clock step' code).2⟩ = true := h
    unfold Spent
    by_cases hused : st.db.totpUsed.any (·.step == step') = true
    · simp [AuthDB.markTOTPStepUsed, hused, accepts] at h
    obtain rfl : step' = step := by
      simpa [AuthDB.markTOTPStepUsed, hused, accepts] using h
    refine ⟨hused, ?_⟩
    simp [Stmt.perform, Stmt.write, AuthDB.markTOTPStepUsed, hused]
  | _ => cases h

/-! ## Tickets -/

/-- A ticket given out. -/
def issues (ticket : String) : Sigma Stmt.Reply → Bool
  | ⟨.issue _ _ ticket', some _⟩ => ticket' == ticket
  | _ => false

/-- A ticket that has yielded its session token. -/
def redeems (ticket : String) : Sigma Stmt.Reply → Bool
  | ⟨.redeem _ ticket', some _⟩ => ticket' == ticket
  | _ => false

/-- A ticket that yields a token was in the store and not expired, and is in the store no
more. -/
theorem redeem_eq_some (h : (t.redeem now ticket).2 = some raw) :
    (∃ expiresAt, t (hashTicket ticket) = some ⟨raw, expiresAt⟩ ∧ now < expiresAt) ∧
      (t.redeem now ticket).1 (hashTicket ticket) = none := by
  unfold TicketStore.redeem at h ⊢
  split at h
  · cases h
  rename_i hne
  rw [if_neg hne]
  split at h
  · cases h
  rename_i entry hentry
  rw [hentry]
  by_cases hnow : now < entry.expiresAt
  · obtain rfl : entry.rawSessionToken = raw := by simpa [hnow] using h
    exact ⟨⟨entry.expiresAt, rfl, hnow⟩, by simp⟩
  · simp [hnow] at h

theorem of_redeem {d : Digest} (h : (t.redeem now ticket).1 d = some entry) : t d = some entry := by
  unfold TicketStore.redeem at h
  split at h
  · exact h
  split at h
  · exact h
  · by_cases hd : d = hashTicket ticket
    · simp [hd] at h
    · simpa [hd] using h

/-- Whether a ticket is in the store. -/
def stored (ticket : String) (st : AuthState) : ℕ := (st.tickets (hashTicket ticket)).isSome.toNat

/-- An answer that yields a token takes the ticket out of the store, and only an issue puts it
there. -/
theorem tickets_perform (ticket : String) (q : Stmt) (st : AuthState) :
    (redeems ticket ⟨q, (q.perform st).2⟩).toNat + stored ticket (q.perform st).1 ≤
      stored ticket st + (issues ticket ⟨q, (q.perform st).2⟩).toNat := by
  have hframe := frame q st
  cases q with
  | issue now raw ticket' =>
    by_cases hraw : raw = ""
    · simp [Stmt.perform, TicketStore.issue, hraw, redeems, stored]
    by_cases hticket : ticket = ticket'
    · simp [Stmt.perform, TicketStore.issue, hraw, redeems, issues, stored, hticket]
    · simp [Stmt.perform, TicketStore.issue, hraw, redeems, stored, hashTicket, hticket]
  | redeem now ticket' =>
    have hless : stored ticket (Stmt.perform (.redeem now ticket') st).1 ≤ stored ticket st := by
      cases hafter : (st.tickets.redeem now ticket').1 (hashTicket ticket) with
      | none => simp [stored, Stmt.perform, hafter]
      | some entry => simp [stored, Stmt.perform, hafter, of_redeem hafter]
    by_cases hyields : redeems ticket ⟨.redeem now ticket', (st.tickets.redeem now ticket').2⟩
    · cases hr : (st.tickets.redeem now ticket').2 with
      | none =>
        rw [hr] at hyields
        cases hyields
      | some raw =>
        rw [hr] at hyields
        obtain rfl : ticket' = ticket := by simpa [redeems] using hyields
        obtain ⟨⟨expiresAt, hbefore, -⟩, hafter⟩ := redeem_eq_some hr
        simp [stored, Stmt.perform, hr, hbefore, hafter, redeems]
    · rw [show redeems ticket ⟨.redeem now ticket', _⟩ = false from Bool.not_eq_true _ ▸ hyields]
      exact (Nat.zero_add _).trans_le (Nat.le_add_right_of_le hless)
  | _ =>
    unfold stored
    rw [hframe.tickets rfl]
    simp [redeems]

/-- The ticket `ticket` was given out for the session token `raw`, to expire at `expiresAt`. -/
def IssuedFor (w : World) (ticket raw : String) (expiresAt : ℤ) : Prop :=
  ∃ t ∈ w.threads, ∃ now, ⟨.issue now raw ticket, some expiresAt⟩ ∈ t.log

theorem IssuedFor.step {w : World} {expiresAt : ℤ} (h : IssuedFor w ticket raw expiresAt)
    (a : Label) : IssuedFor (step s w a) ticket raw expiresAt := by
  obtain ⟨t, ht, now, hmem⟩ := h
  obtain ⟨i, hi⟩ := mem_iff_getElem?.1 ht
  obtain ⟨t', ht', -, hsuf⟩ := thread_step (authSystem s) w a hi
  exact ⟨t', mem_of_getElem? ht', now, hsuf.subset hmem⟩

/-- What an entry tells about a redeemed ticket. -/
def TellsTicket (w : World) : Sigma Stmt.Reply → Prop
  | ⟨.redeem now ticket, some raw⟩ => ∃ expiresAt, IssuedFor w ticket raw expiresAt ∧
      now < expiresAt
  | _ => True

/-- Every ticket in the store or redeemed was issued, for the token it yields. -/
structure Ticketed (w : World) : Prop where
  store : ∀ ticket entry, w.shared.tickets (hashTicket ticket) = some entry →
    IssuedFor w ticket entry.rawSessionToken entry.expiresAt
  entries : ∀ t ∈ w.threads, ∀ e ∈ t.log, TellsTicket w e

/-- An entry of the store after an instruction was there before, or is the one just issued. -/
theorem tickets_perform_cases {q : Stmt} {st : AuthState}
    (h : (q.perform st).1.tickets (hashTicket ticket) = some entry) :
    st.tickets (hashTicket ticket) = some entry ∨
      ∃ now, q = .issue now entry.rawSessionToken ticket ∧
        (st.tickets.issue now entry.rawSessionToken ticket).2 = some entry.expiresAt := by
  have hframe := frame q st
  cases q with
  | issue now raw ticket' =>
    by_cases hraw : raw = ""
    · simp only [Stmt.perform, TicketStore.issue, hraw, if_true] at h
      exact .inl h
    by_cases hticket : ticket = ticket'
    · subst hticket
      obtain rfl : ⟨raw, now + defaultTicketTTL⟩ = entry := by
        simpa [Stmt.perform, TicketStore.issue, hraw] using h
      exact .inr ⟨now, rfl, by simp [TicketStore.issue, hraw]⟩
    · left
      simpa [Stmt.perform, TicketStore.issue, hraw, hashTicket, hticket] using h
  | redeem now ticket' => exact .inl (of_redeem h)
  | _ =>
    rw [hframe.tickets rfl] at h
    exact .inl h

theorem Ticketed.step (w : World) (a : Label) (hw : Ticketed w) : Ticketed (step s w a) where
  store := by
    intro ticket entry h
    cases a with
    | request c => exact (hw.store ticket entry h).step _
    | env t => exact hw.store ticket entry h
    | crash => cases h
    | run i ok =>
      obtain heq | ⟨c, h', q, k, st', r, hi, -⟩ := step_run_cases (authSystem s) w i ok
      · have hsame : (Auth.step s w (.run i ok)).shared = w.shared := congrArg Pool.shared heq
        rw [hsame] at h
        exact (hw.store ticket entry h).step _
      have hshared : (Auth.step s w (.run i ok)).shared = st' := hi.shared
      rw [hshared] at h
      rcases reply_cases hi.reply with ⟨-, hp⟩ | ⟨-, rfl, -⟩
      · rw [show st' = (q.perform w.shared).1 from congrArg Prod.fst hp] at h
        obtain hbefore | ⟨now, rfl, hissued⟩ := tickets_perform_cases h
        · exact (hw.store ticket entry hbefore).step _
        obtain rfl : r = some entry.expiresAt := (congrArg Prod.snd hp).trans hissued
        exact ⟨_, mem_of_getElem? hi.thread_step, now, mem_cons_self⟩
      · exact (hw.store ticket entry h).step _
  entries := by
    refine entries_step w a ?_ ?_ hw.entries
    · rintro i ok c h q k st' r rfl hi
      cases q with
      | redeem now ticket =>
        cases r with
        | none => trivial
        | some raw =>
          rcases reply_cases hi.reply with ⟨-, hp⟩ | ⟨-, -, hf⟩
          · obtain ⟨⟨expiresAt, hentry, hnow⟩, -⟩ :=
              redeem_eq_some (congrArg Prod.snd hp).symm
            exact ⟨expiresAt, (hw.store _ _ hentry).step _, hnow⟩
          · cases hf
      | _ => trivial
    · intro e he
      unfold TellsTicket at he ⊢
      split
      · obtain ⟨expiresAt, hissued, hnow⟩ := he
        exact ⟨expiresAt, hissued.step a, hnow⟩
      · trivial

/-! ## The service -/

/-- What the logs show: every TOTP step was accepted once at most; every ticket has yielded a
session token no more often than it was issued, and each time the token it was issued for,
before it expired. -/
structure OneTime (w : World) : Prop where
  step : ∀ step, w.logged (accepts step) ≤ 1
  ticket : ∀ ticket, w.logged (redeems ticket) ≤ w.logged (issues ticket)
  inTime : ∀ t ∈ w.threads, ∀ now ticket raw, ⟨.redeem now ticket, some raw⟩ ∈ t.log →
    ∃ expiresAt, IssuedFor w ticket raw expiresAt ∧ now < expiresAt

/-- **One-time credentials are one-time**, in every run of a process started on any database,
over restarts and faults of the store. -/
theorem one_time_credentials (s : AuthServer) (hdev : s.devInsecureAuth = false) (db : AuthDB)
    (clock : ℤ) (as : List Label) :
    (∀ code now h, Along (fun _ _ => True) (Accepted s code now h) h (s.verifyTOTPCode code now)) ∧
      OneTime (exec (step s) (boot db clock) as) := by
  refine ⟨along_accepted hdev, ?_, ?_, ?_⟩
  · intro step
    refine logged_le_one accepts_perform ?_ spent_perform (fun _ _ h => h) (fun _ h => h) as rfl
    intro q r hf
    cases q <;> cases hf <;> rfl
  · intro ticket
    have hbalance : (exec (step s) (boot db clock) as).logged (redeems ticket) +
        stored ticket (exec (step s) (boot db clock) as).shared ≤
        stored ticket (boot db clock).shared +
          (exec (step s) (boot db clock) as).logged (issues ticket) := by
      refine logged_balance (tickets_perform ticket) ?_ (fun _ _ => le_rfl)
        (fun _ => Nat.zero_le _) as rfl
      intro q r hf
      cases q <;> cases hf <;> rfl
    exact (Nat.le_of_add_right_le hbalance).trans (Nat.zero_add _).le
  · intro t ht now ticket raw hmem
    have hticketed : Ticketed (exec (step s) (boot db clock) as) := by
      refine exec_induction (step s) _ Ticketed.step as _ ⟨?_, ?_⟩
      · exact fun ticket entry h => by cases h
      · exact fun t ht => by cases ht
    exact hticketed.entries t ht _ hmem

/-- Two logins over the bridge with one code, and two upgrades with the ticket of the first. -/
def loginsAndUpgrades : List Label :=
  [.request (.rpc { bridge := some {} } { sessionToken := "first", ticket := "ticket" }
      (.login "correct horse battery" "123456")),
    .request (.rpc { bridge := some {} } { sessionToken := "second", ticket := "other" }
      (.login "correct horse battery" "123456"))] ++ runs 0 4 ++ runs 1 4 ++ runs 0 5 ++ runs 1 4 ++
    [.request (.upgrade "ticket"), .request (.upgrade "ticket")] ++ runs 2 1 ++ runs 3 2 ++ runs 2 1

/-- One login and one upgrade get through. -/
theorem one_time_credentials_twice : OneTime (exec (step plainServer)
      (boot { admin := some (plainAdmin "correct horse battery" 3) } plainClock)
        loginsAndUpgrades) ∧
    ((exec (step plainServer)
      (boot { admin := some (plainAdmin "correct horse battery" 3) } plainClock)
        loginsAndUpgrades).threads.map fun t => t.answer?.map (·.isOk)) =
      [some true, some false, some false, some true] :=
  ⟨(one_time_credentials plainServer rfl _ _ _).2, by decide +kernel⟩

end AnimeFeedFlux.Auth
