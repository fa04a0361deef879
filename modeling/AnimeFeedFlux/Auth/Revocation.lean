import AnimeFeedFlux.Auth.Passwords
import AnimeFeedFlux.Auth.Sessions

/-!
# Revocation when the password changes

`ChangePassword` writes the new hash and then lists and revokes the other sessions one by one;
`CompletePasswordReset` does both in one transaction.  A `Login` checks the password in one
statement and inserts its session in another.  A login that has passed its check when the new
password is committed inserts its session after the revocation, and keeps it.  When no login
is between the two, nothing minted under the old password survives.
-/

namespace AnimeFeedFlux.Auth

open Machine Threads Threads.System List AuthDB

/-! ## The specification -/

/-- A login whose password check has succeeded against the row it read. -/
def passed (s : AuthServer) (t : Serving) : Bool :=
  t.request.loginPassword?.any fun password =>
    (adminRead? t.log).any fun row => decide (s.Verifies row password)

/-- The sessions a call has inserted, with their ids. -/
def minted (t : Serving) : List (Session × ℕ) :=
  t.log.filterMap fun
    | ⟨.createSession sess, .ok id⟩ => some (sess, id)
    | _ => none

variable {t u : Serving} {sess : Session} {s : AuthServer} {j : ℕ} {row : SessionRow}

theorem mem_minted {id : ℕ} : (sess, id) ∈ minted t ↔ ⟨.createSession sess, .ok id⟩ ∈ t.log := by
  refine mem_filterMap.trans ⟨?_, fun h => ⟨_, h, rfl⟩⟩
  rintro ⟨e, he, hsome⟩
  split at hsome
  · cases hsome
    exact he
  · cases hsome

/-- A change or reset that has returned success. -/
def Succeeded (t : Serving) : Prop :=
  t.answer? = some (.ok .changePassword) ∨ t.answer? = some (.ok .passwordReset)

/-- The session a changing caller may keep: its own, unless it is elevated.  A reset keeps
none. -/
def MayKeep (t : Serving) (d : Digest) : Prop :=
  t.request.resetToken? = none ∧ ∃ cs ∈ callers t, cs.elevated = false ∧ cs.tokenHash = d
deriving Decidable

/-- **The specification.**  Let call `j` commit a new password at one step of the run and have
returned success by its end.  A session made by a login whose check had succeeded before that
step is revoked at the end, or is the one the caller may keep. -/
def RevokesOld (s : AuthServer) (w : World) (as : List Label) : Prop :=
  ∀ as₁ (j : ℕ) ok as₂ (t : Serving), as = as₁ ++ .run j ok :: as₂ →
    (commits (exec (step s) w as₁) (.run j ok)).isSome →
    (exec (step s) w as).threads[j]? = some t → Succeeded t →
    ∀ (l : ℕ) (u u' : Serving) sess id row,
      (exec (step s) w as₁).threads[l]? = some u → passed s u = true →
      (exec (step s) w as).threads[l]? = some u' → (sess, id) ∈ minted u' →
      row ∈ (exec (step s) w as).shared.db.sessions.rows → row.id = id →
      row.revokedAt.isSome ∨ MayKeep t row.tokenHash

/-! ## The condition -/

/-- A login past its password check with its session still to insert. -/
def minting (s : AuthServer) (t : Serving) : Bool :=
  t.running && passed s t && !mintIssued t.log

/-- No login is minting when a new password is committed. -/
def Settled (s : AuthServer) (w : World) (a : Label) : Prop :=
  (commits w a).isSome → ∀ t ∈ w.threads, minting s t = false
deriving Decidable

/-! ## Sessions of settled logins -/

variable {w : World}

theorem created_of_settled (hw : Obeys (Protocol s) Outcome w) {l : ℕ} (hu : w.threads[l]? = some u)
    (hsettled : u.running = false ∨ mintIssued u.log) (as : List Label) {u' : Serving}
    (hu' : (exec (step s) w as).threads[l]? = some u') {id : ℕ}
    (hsess : ⟨.createSession sess, .ok id⟩ ∈ u'.log) : ⟨.createSession sess, .ok id⟩ ∈ u.log := by
  induction as generalizing w u with
  | nil =>
    obtain rfl := Option.some.inj (hu.symm.trans hu')
    exact hsess
  | cons a as ih =>
    have hobeys := obeys_step hw a
    obtain ⟨v, hv, rfl | rfl | ⟨ok, c, h, q, k, st', r, hi, rfl, rfl⟩⟩ :=
      thread_step_cases (authSystem s) w a hu
    · exact ih hobeys hv hsettled hu'
    · have := ih hobeys hv (.inl u.crash_running) hu'
      rwa [u.crash_log] at this
    · -- It is running, so its one insertion is behind it.
      have hissued : mintIssued h = true := hsettled.resolve_left (by simp [Thread.running])
      have hmore : mintIssued (⟨q, r⟩ :: h) = true := by simp_all [mintIssued]
      rcases mem_cons.1 (ih hobeys hv (.inr hmore) hu') with heq | hmem
      · cases heq
        exact absurd (hissued.symm.trans (hw.issues hi)) (by simp)
      · exact hmem

theorem settled_of_not_minting (hpassed : passed s u) (h : minting s u = false) :
    u.running = false ∨ mintIssued u.log := by
  by_cases hrunning : u.running = true
  · exact .inr (by simpa [minting, hpassed, hrunning] using h)
  · exact .inl (by simpa using hrunning)

/-! ## The order of a call's instructions -/

theorem updateIssued_of_suffix {h h' : Log Stmt.Reply} (hsuf : h <:+ h')
    (hissued : updateIssued h) : updateIssued h' := by
  obtain ⟨e, he, hupdate⟩ := any_eq_true.1 hissued
  exact any_eq_true.2 ⟨e, hsuf.subset he, hupdate⟩

/-- What a call does after a write of the credential comes after the first such write. -/
theorem after_commit {as₁ as₂ bs₁ bs₂ : List Label} {ok ok' : Bool}
    (heq : as₁ ++ .run j ok :: as₂ = bs₁ ++ .run j ok' :: bs₂)
    (ht : (exec (step s) w as₁).threads[j]? = some t)
    (hu : (exec (step s) w bs₁).threads[j]? = some u) (hbefore : updateIssued t.log = false)
    (hafter : updateIssued u.log) : ∃ cs, bs₁ = as₁ ++ .run j ok :: cs := by
  rcases append_eq_append_iff.1 heq with ⟨cs, hbs, hcons⟩ | ⟨cs, has, -⟩
  · cases cs with
    | nil =>
      rw [append_nil] at hbs
      rw [hbs] at hu
      obtain rfl := Option.some.inj (ht.symm.trans hu)
      exact absurd (hbefore.symm.trans hafter) (by simp)
    | cons x cs =>
      obtain ⟨rfl, -⟩ := List.cons.inj hcons
      exact ⟨cs, hbs⟩
  · -- The other step comes first, and what it has behind it is still behind it here.
    rw [has, exec_append] at ht
    obtain ⟨t', ht', -, hsuf⟩ := thread_exec (authSystem s) cs (exec (step s) w bs₁) hu
    obtain rfl := Option.some.inj (ht.symm.trans ht')
    exact absurd (hbefore.symm.trans (updateIssued_of_suffix hsuf hafter)) (by simp)

/-! ## What revokes a session -/

variable {db : AuthDB} {now : ℤ}

theorem revoked_of_revokeSession {id : ℕ} (h : (db.revokeSession now id).2 = .ok ()) :
    ∃ row ∈ (db.revokeSession now id).1.sessions.rows, row.id = id ∧ row.revokedAt.isSome := by
  obtain ⟨row, hid, hrow⟩ := mem_updateSession h
  refine ⟨_, hrow, hid, ?_⟩
  cases hr : row.revokedAt <;> simp [revoke, hr]

theorem missing_of_revokeSession {id : ℕ} (h : (db.revokeSession now id).2 = .error .notFound)
    (hrow : row ∈ db.sessions.rows) : row.id ≠ id := by
  intro hid
  unfold revokeSession updateSession at h
  have hany : db.sessions.rows.any (·.id == id) = true :=
    any_eq_true.2 ⟨row, hrow, beq_iff_eq.2 hid⟩
  rw [if_pos hany] at h
  cases h

theorem revoked_of_completePasswordReset {token : Digest} {hash : PasswordHash} {kdf : String}
    {v : ℤ} (h : (db.completePasswordReset token now hash kdf v).2 = .ok ())
    (hrow : row ∈ (db.completePasswordReset token now hash kdf v).1.sessions.rows) :
    row.revokedAt.isSome := by
  unfold completePasswordReset at h hrow
  split at h
  · rename_i hany
    rw [if_pos hany] at hrow
    obtain ⟨row', hrow', rfl⟩ := mem_map.1 hrow
    cases hr : row'.revokedAt <;> simp [revoke, hr]
  · cases h

/-- What a commit is: a reset that goes through, or the first write of a change. -/
theorem commits_cases (hw : Obeys (Protocol s) Outcome w) {ok : Bool}
    (h : (commits w (.run j ok)).isSome) :
    ∃ c h q k, (authSystem s).Issues w j ok c h q k (q.perform w.shared).1 (q.perform w.shared).2 ∧
      ((∃ token now hash kdf v, q = .completePasswordReset token now hash kdf v ∧
          (w.shared.db.completePasswordReset token now hash kdf v).2 = .ok ()) ∨
        c.newPassword?.isSome ∧ c.resetToken? = none ∧ updateIssued h = false) := by
  unfold commits at h
  split at h
  · rename_i i hrun
    cases hrun
    obtain ⟨new, hnew⟩ := Option.isSome_iff_exists.1 h
    obtain ⟨⟨c, h, q⟩, hp, hcommitted⟩ := Option.bind_eq_some_iff.1 hnew
    obtain ⟨k, hi⟩ := issues_of_pending (authSystem s) hp
    refine ⟨c, h, q, k, hi, ?_⟩
    have hallowed := hw.issues hi
    cases q with
    | updatePasswordAndPepper hash kdf v =>
      right
      simp only [committed] at hcommitted
      split at hcommitted
      · obtain ⟨password, -, ⟨-, hreset, hupd⟩ | ⟨hlogin, -⟩⟩ := hallowed
        · exact ⟨by rw [hcommitted]; rfl, hreset, hupd⟩
        · exact absurd ((newPassword?_of_loginPassword? hlogin).symm.trans hcommitted) (by simp)
      · cases hcommitted
    | completePasswordReset token now hash kdf v =>
      left
      refine ⟨token, now, hash, kdf, v, rfl, ?_⟩
      rcases completePasswordReset_cases w.shared.db token now hash kdf v with
        ⟨-, hfailed⟩ | ⟨hdone, -⟩
      · simp [committed, hfailed, Except.isOk, Except.toBool] at hcommitted
      · exact hdone
    | _ => cases hcommitted
  · cases h

/-! ## The result -/

section Run

variable {s : AuthServer} {db : AuthDB} {clock : ℤ}

variable {row : SessionRow} {bs as₁ as₂ : List Label} {j : ℕ} {ok : Bool} {t u : Serving}
  {row₁ : SessionRow}

theorem revoked_at_end {cs : List Label} {id : ℕ} {row' : SessionRow}
    (hrow : row ∈ (exec (step s) (boot db clock) bs).shared.db.sessions.rows) (hid : row.id = id)
    (hrevoked : row.revokedAt.isSome)
    (hrow' : row' ∈ (exec (step s) (boot db clock) (bs ++ cs)).shared.db.sessions.rows)
    (hid' : row'.id = id) : row'.revokedAt.isSome := by
  rw [exec_append] at hrow'
  exact ((evolves_exec (obeys_run bs) cs).becomes hrow hrow' (hid'.trans hid.symm)).revoked hrevoked

theorem still_there (cs : List Label)
    (hrow : row ∈ (exec (step s) (boot db clock) bs).shared.db.sessions.rows) :
    ∃ row' ∈ (exec (step s) (boot db clock) (bs ++ cs)).shared.db.sessions.rows,
      Becomes row row' := by
  rw [exec_append]
  exact evolves_exec (obeys_run bs) cs row hrow

variable (hu : (exec (step s) (boot db clock) as₁).threads[j]? = some u)
  (hbefore : updateIssued u.log = false)
  (ht : (exec (step s) (boot db clock) (as₁ ++ .run j ok :: as₂)).threads[j]? = some t)
  (hnew : t.request.newPassword?.isSome)
  (hrow₁ : row₁ ∈ (exec (step s) (boot db clock) as₁).shared.db.sessions.rows)
  (hrow : row ∈ (exec (step s) (boot db clock) (as₁ ++ .run j ok :: as₂)).shared.db.sessions.rows)
  (hid : row.id = row₁.id)
include hu hbefore ht hnew hrow₁ hrow hid

/-- A session the log of a call shows as revoked is revoked, if it was there when that call
committed. -/
theorem revoked_of_log (hrevoked : Revoked t.log row₁.id) : row.revokedAt.isSome := by
  rcases hrevoked with hdone | hmissing
  · obtain ⟨bs₁, ok', bs₂, h, k, st', heq, hi⟩ := logged_of_exec rfl _ ht hdone
    rcases reply_cases hi.reply with ⟨-, hp⟩ | ⟨-, -, hf⟩
    · obtain ⟨row', hrow', hid', hrevoked'⟩ :=
        revoked_of_revokeSession (congrArg Prod.snd hp).symm
      have hst : (exec (step s) (boot db clock) (bs₁ ++ [.run j ok'])).shared = st' := by
        rw [exec_append, exec_cons, exec_nil]
        exact hi.shared
      rw [heq, append_cons] at hrow
      refine revoked_at_end ?_ hid' hrevoked' hrow hid
      rw [hst, show st'.db = _ from congrArg (·.1.db) hp]
      exact hrow'
    · cases hf
  · -- It came after the commit, when the row was there.
    obtain ⟨bs₁, ok', bs₂, h, k, st', heq, hi⟩ := logged_of_exec rfl _ ht hmissing
    obtain ⟨cs, rfl⟩ := after_commit heq hu hi.thread hbefore ((obeys_run bs₁).issues hi hnew)
    obtain ⟨row', hrow', hbecomes⟩ := still_there (.run j ok :: cs) hrow₁
    rcases reply_cases hi.reply with ⟨-, hp⟩ | ⟨-, -, hf⟩
    · exact absurd hbecomes.id (missing_of_revokeSession (congrArg Prod.snd hp).symm hrow')
    · cases hf

/-- A session that was there when a call committed is revoked, is the one the call keeps, or is
among those it lists afterwards. -/
theorem listed_of_log {keep : Digest} {ids : List ℕ}
    (hlist : ⟨.otherSessionIDs keep, .ok ids⟩ ∈ t.log) :
    row.revokedAt.isSome ∨ row.tokenHash = keep ∨ row₁.id ∈ ids := by
  obtain ⟨bs₁, ok', bs₂, h, k, st', heq, hi⟩ := logged_of_exec rfl _ ht hlist
  obtain ⟨cs, rfl⟩ := after_commit heq hu hi.thread hbefore (((obeys_run bs₁).issues hi).2 hnew)
  obtain ⟨row₂, hrow₂, hbecomes⟩ := still_there (.run j ok :: cs) hrow₁
  rw [heq] at hrow
  by_cases hlive : row₂.revokedAt.isSome
  · exact .inl (revoked_at_end hrow₂ hbecomes.id hlive hrow hid)
  by_cases hother : row₂.tokenHash = keep
  · rw [exec_append] at hrow
    have hlater := (evolves_exec (obeys_run _) _).becomes hrow₂ hrow (hid.trans hbecomes.id.symm)
    exact .inr (.inl (hlater.tokenHash.trans hother))
  rcases reply_cases hi.reply with ⟨-, hp⟩ | ⟨-, -, hf⟩
  · obtain rfl : ids = otherSessionIDs _ keep :=
      Except.ok.inj (congrArg Prod.snd hp)
    refine .inr (.inr (mem_map.2 ⟨row₂, mem_filter.2 ⟨hrow₂, ?_⟩, hbecomes.id⟩))
    simpa [hother] using hlive
  · cases hf

end Run

theorem login_of_passed {s : AuthServer} {as bs : List Label} {l : ℕ} {u u' : Serving}
    (hpassed : passed s u) (hu : (exec (step s) w as).threads[l]? = some u)
    (hu' : (exec (step s) w (as ++ bs)).threads[l]? = some u') :
    u'.request.loginPassword?.isSome := by
  obtain ⟨v, hv, hreq, -⟩ := thread_exec (authSystem s) bs _ hu
  rw [exec_append] at hu'
  obtain rfl := Option.some.inj (hu'.symm.trans hv)
  obtain ⟨password, hlogin, -⟩ := Option.any_eq_true _ _ |>.1 hpassed
  rw [hreq, hlogin]
  rfl

/-- **No session of an old login survives a change or reset, in every run in which no login is
minting at a commit.** -/
theorem revokesOld_of_settled (s : AuthServer) (db : AuthDB) (clock : ℤ) (as : List Label)
    (hcond : Meets (step s) (Settled s) (boot db clock) as) :
    RevokesOld s (boot db clock) as := by
  rintro as₁ j ok as₂ t rfl hcommits ht hsucceeded l u u' sess id row hu hpassed hu' hminted
    hrow hid
  have hsess := mem_minted.1 hminted
  -- The login had its session before the commit.
  have hbefore : ⟨.createSession sess, .ok id⟩ ∈ u.log := by
    rw [meets_append, meets_cons] at hcond
    rw [exec_append] at hu'
    exact created_of_settled (obeys_run as₁) hu (settled_of_not_minting hpassed
      (hcond.2.1 hcommits u (mem_of_getElem? hu))) _ hu' hsess
  obtain ⟨row₁, hrow₁, rfl, hd₁⟩ : Named (exec (step s) (boot db clock) as₁).shared id
      sess.tokenHash := (earned_exec db clock as₁).names u (mem_of_getElem? hu) _ hbefore
  obtain ⟨c, h, q, k, hi, ⟨token, now, hash, kdf, v, rfl, hok⟩ | ⟨hnew, hreset, hupd⟩⟩ :=
    commits_cases (obeys_run as₁) hcommits
  · -- A reset revokes it in the transaction that commits.
    left
    obtain ⟨row₂, hrow₂, hbecomes⟩ := still_there [.run j ok] hrow₁
    rw [append_cons] at hrow
    refine revoked_at_end hrow₂ hbecomes.id ?_ hrow hid
    rw [exec_append, exec_cons, exec_nil,
      show (step s _ (.run j ok)).shared = _ from hi.shared] at hrow₂
    exact revoked_of_completePasswordReset hok hrow₂
  · have hrequest : t.request = c := by
      obtain ⟨t', ht', hreq, -⟩ := thread_exec (authSystem s) (.run j ok :: as₂) _ hi.thread
      rw [exec_append] at ht
      obtain rfl := Option.some.inj (ht.symm.trans ht')
      exact hreq
    rw [← hrequest] at hnew hreset
    rcases hsucceeded with hchanged | hdone
    · obtain ⟨-, cs, ids, hcs, hlist, hrevoked⟩ :=
        (obeys_run _).answer (mem_of_getElem? ht) hchanged
      rcases listed_of_log hi.thread hupd ht hnew hrow₁ hrow hid hlist with hdone | hkeep | hmem
      · exact .inl hdone
      · -- An elevated caller has no session of a login to keep.
        refine .inr ⟨hreset, cs, mem_callers.2 hcs, ?_, hkeep.symm⟩
        by_contra hel
        have hd : row.tokenHash = sess.tokenHash := by
          rw [exec_append] at hrow
          rw [((evolves_exec (obeys_run as₁) _).becomes hrow₁ hrow hid).tokenHash, hd₁]
        exact login_not_elevated ht hu' hcs (by simpa using hel)
          (login_of_passed hpassed hu hu') hsess (hd.symm.trans hkeep)
      · exact .inl (revoked_of_log hi.thread hupd ht hnew hrow₁ hrow hid (hrevoked _ hmem))
    · have : t.request.resetToken?.isSome = true :=
        (obeys_run _).answer (mem_of_getElem? ht) hdone
      simp [hreset] at this

/-! ## A login and a change -/

/-- An admin with a current hash, and a session `tok`. -/
def oneSession : AuthDB :=
  { admin := some (plainAdmin "correct horse battery" 3)
    sessions := plainSessions }

/-- The login is over when the password is changed: its session is revoked. -/
theorem revokesOld_of_settled_loginFirst :
    Meets (step plainServer) (Settled plainServer) (boot oneSession plainClock)
        (loginThenChange 8 17) ∧
      RevokesOld plainServer (boot oneSession plainClock) (loginThenChange 8 17) ∧
      ((exec (step plainServer) (boot oneSession plainClock)
        (loginThenChange 8 17)).shared.db.sessions.rows.map fun r => (r.id, r.revokedAt)) =
        [(1, none), (2, some (plainClock + Time.minute))] := by
  have hmeets : Meets (step plainServer) (Settled plainServer) (boot oneSession plainClock)
      (loginThenChange 8 17) := by decide +kernel
  exact ⟨hmeets, revokesOld_of_settled _ _ _ _ hmeets, by decide +kernel⟩

/-- The session the login inserts. -/
def lateSession : Session :=
  AuthServer.newSession { peer := "1.2.3.4" } "new" plainClock
    (plainClock + sessionAbsoluteLifetime)

/-- **A login in flight keeps its session.** -/
theorem not_revokesOld_inFlight : ¬RevokesOld plainServer (boot oneSession plainClock)
      (changeDuringLogin ++ .run 1 true :: (runs 1 2 ++ runs 0 3)) := by
  intro h
  have hend : ((exec (step plainServer) (boot oneSession plainClock)
      (changeDuringLogin ++ .run 1 true :: (runs 1 2 ++ runs 0 3))).threads[1]?.map fun t =>
      (t.answer?, decide (MayKeep t (hashToken "new")))) =
      some (some (.ok .changePassword), false) := by decide +kernel
  have hchecked : ((exec (step plainServer) (boot oneSession plainClock)
      changeDuringLogin).threads[0]?.map (passed plainServer)) = some true := by decide +kernel
  have hminted : ((exec (step plainServer) (boot oneSession plainClock)
      (changeDuringLogin ++ .run 1 true :: (runs 1 2 ++ runs 0 3))).threads[0]?.map minted) =
      some [(lateSession, 2)] := by decide +kernel
  obtain ⟨t, ht, hanswer⟩ := Option.map_eq_some_iff.1 hend
  obtain ⟨u, hu, hpassed⟩ := Option.map_eq_some_iff.1 hchecked
  obtain ⟨u', hu', hsess⟩ := Option.map_eq_some_iff.1 hminted
  obtain ⟨hsuccess, hkeep⟩ := Prod.mk.inj hanswer
  rcases h changeDuringLogin 1 true (runs 1 2 ++ runs 0 3) t rfl (by decide +kernel) ht
    (.inl hsuccess) 0 u u' lateSession 2 ⟨lateSession, 2, .full⟩ hu hpassed hu'
    (hsess ▸ mem_singleton_self _) (by decide +kernel) rfl with hrevoked | hkept
  · cases hrevoked
  · exact of_decide_eq_false hkeep hkept

end AnimeFeedFlux.Auth
