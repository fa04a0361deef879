import AnimeFeedFlux.Auth.Frames

/-!
# Sessions over interleaved calls

What holds of the session table in every run: no session is lost, the ids and token hashes the
calls have seen stay what they are, no token is given to two calls, and a session that counts
as elevated was made by a `RecoverWithCode`, never by a `Login`.
-/

namespace AnimeFeedFlux.Auth

open Machine Threads Threads.System List AuthDB

/-- A process that has just started on a database. -/
def boot (db : AuthDB) (clock : ℤ) : World := { shared := { db := db, clock := clock } }

/-- The caller's sessions `authorize` has handed to a call: one for a call it admits by its
token, and none for any other. -/
def callers (t : Serving) : List CallerSession :=
  t.log.filterMap fun
    | ⟨.withCallerSession cs, _⟩ => some cs
    | _ => none

variable {t u : Serving} {cs : CallerSession} {ok : Bool} {c : Call} {e : Sigma Stmt.Reply}

theorem mem_callers : cs ∈ callers t ↔ ⟨.withCallerSession cs, ()⟩ ∈ t.log := by
  refine mem_filterMap.trans ⟨?_, fun h => ⟨_, h, rfl⟩⟩
  rintro ⟨e, he, hsome⟩
  split at hsome
  · cases hsome
    exact he
  · cases hsome

/-! ## Sessions evolve -/

theorem Becomes.trans {r r' r'' : SessionRow} (h : Becomes r r') (h' : Becomes r' r'') :
    Becomes r r'' :=
  ⟨h'.id.trans h.id, h'.tokenHash.trans h.tokenHash, fun hr => h'.revoked (h.revoked hr),
    fun he => h'.elevated (h.elevated he)⟩

theorem Evolves.trans {t t' t'' : Sessions} (h : Evolves t t') (h' : Evolves t' t'') :
    Evolves t t'' := by
  intro r hr
  obtain ⟨r', hr', hbecomes⟩ := h r hr
  obtain ⟨r'', hr'', hbecomes'⟩ := h' r' hr'
  exact ⟨r'', hr'', hbecomes.trans hbecomes'⟩

theorem Evolves.becomes {t t' : Sessions} (h : Evolves t t') {r r' : SessionRow} (hr : r ∈ t.rows)
    (hr' : r' ∈ t'.rows) (hid : r'.id = r.id) : Becomes r r' := by
  obtain ⟨r'', hr'', hbecomes⟩ := h r hr
  rwa [t'.eq_of_id hr' hr'' (hid.trans hbecomes.id.symm)]

variable {s : AuthServer} {w : World}

theorem evolves_step (hw : Obeys (Protocol s) Outcome w) (a : Label) :
    Evolves w.shared.db.sessions (step s w a).shared.db.sessions := by
  obtain heq | ⟨i, c, h, q, k, rfl, hi, heq⟩ := step_db_cases s w a
  · rw [heq]
    exact .refl _
  rw [heq]
  refine evolves_perform _ fun id hq => ?_
  subst hq
  exact absurd (hw.issues hi).1 (by simp)

/-- **Sessions evolve along a run.** -/
theorem evolves_exec (hw : Obeys (Protocol s) Outcome w) (as : List Label) :
    Evolves w.shared.db.sessions (exec (step s) w as).shared.db.sessions := by
  induction as generalizing w with
  | nil => exact .refl _
  | cons a as ih =>
    exact (evolves_step hw a).trans (ih (obeys_step hw a))

/-! ## What calls have seen of the sessions -/

/-- The session with the id `id` has the token hash `d`. -/
def Named (st : AuthState) (id : ℕ) (d : Digest) : Prop :=
  ∃ row ∈ st.db.sessions.rows, row.id = id ∧ row.tokenHash = d

variable {st : AuthState} {id : ℕ} {d : Digest} {row : SessionRow}

theorem Named.tokenHash_eq (h : Named st id d) (hrow : row ∈ st.db.sessions.rows)
    (hid : row.id = id) : row.tokenHash = d := by
  obtain ⟨row', hrow', hid', hd⟩ := h
  rwa [st.db.sessions.eq_of_id hrow hrow' (hid.trans hid'.symm)]

theorem Named.id_eq (h : Named st id d) (hrow : row ∈ st.db.sessions.rows)
    (hd : row.tokenHash = d) : row.id = id := by
  obtain ⟨row', hrow', hid, hd'⟩ := h
  rwa [st.db.sessions.eq_of_key hrow hrow' (hd.trans hd'.symm)]

variable {st' : AuthState}

theorem Named.evolves (h : Named st id d) (he : Evolves st.db.sessions st'.db.sessions) :
    Named st' id d := by
  obtain ⟨row, hrow, hid, hd⟩ := h
  obtain ⟨row', hrow', hbecomes⟩ := he row hrow
  exact ⟨row', hrow', hbecomes.id.trans hid, hbecomes.tokenHash.trans hd⟩

variable {db : AuthDB} {sess : Session}

theorem createSession_eq_ok (h : (db.createSession sess).2 = .ok id) :
    sess.tokenHash ∉ db.sessions.rows.map (·.tokenHash) ∧ (db.createSession sess).1.sessions.rows =
        db.sessions.rows ++ [{ toSession := sess, id := id }] := by
  unfold createSession at h ⊢
  split at h
  · cases h
  rename_i t ht
  cases h
  exact Table.insert_eq_some.1 ht

theorem sessionIDByHash_eq_ok (h : db.sessionIDByHash d = .ok id) :
    ∃ row ∈ db.sessions.rows, row.id = id ∧ row.tokenHash = d := by
  unfold sessionIDByHash at h
  split at h
  · cases h
  rename_i row hrow
  cases h
  obtain ⟨hmem, hd⟩ := Table.byKey_eq_some.1 hrow
  exact ⟨row, hmem, rfl, hd⟩

theorem sessionScope_eq_ok {scope : SessionScope} (h : db.sessionScope id = .ok scope) :
    ∃ row ∈ db.sessions.rows, row.id = id ∧ row.scope = scope := by
  unfold sessionScope at h
  split at h
  · cases h
  rename_i row hrow
  cases h
  obtain ⟨hmem, hid⟩ := Table.byID_eq_some.1 hrow
  exact ⟨row, hmem, hid, rfl⟩

/-- What an entry tells about the sessions. -/
def TellsNames (w : World) : Sigma Stmt.Reply → Prop
  | ⟨.createSession sess, .ok id⟩ => Named w.shared id sess.tokenHash
  | ⟨.sessionIDByHash d, .ok id⟩ => Named w.shared id d
  | _ => True

variable {i : ℕ} {q : Stmt}

theorem tellsNames_issued {h : Log Stmt.Reply} {k : q.Reply → Handler Result} {r : q.Reply}
    (hi : (authSystem s).Issues w i ok c h q k st' r) :
    TellsNames (step s w (.run i ok)) ⟨q, r⟩ := by
  have hshared : (step s w (.run i ok)).shared = st' := hi.shared
  have hreply := reply_cases hi.reply
  cases q with
  | createSession sess =>
    cases r with
    | error e => trivial
    | ok id =>
      rcases hreply with ⟨-, hp⟩ | ⟨-, -, hf⟩
      · obtain ⟨-, hrows⟩ := createSession_eq_ok (congrArg Prod.snd hp).symm
        have hdb : st'.db = (w.shared.db.createSession sess).1 := congrArg (·.1.db) hp
        refine ⟨{ toSession := sess, id := id }, ?_, rfl, rfl⟩
        rw [hshared, hdb, hrows]
        simp
      · cases hf
  | sessionIDByHash d =>
    cases r with
    | error e => trivial
    | ok id =>
      rcases hreply with ⟨-, hp⟩ | ⟨-, -, hf⟩
      · obtain rfl : st' = w.shared := congrArg Prod.fst hp
        replace hshared : (step s w (.run i ok)).shared.db = w.shared.db := congrArg _ hshared
        unfold TellsNames Named
        rw [hshared]
        exact sessionIDByHash_eq_ok (congrArg Prod.snd hp).symm
      · cases hf
  | _ => trivial

theorem TellsNames.evolves {w' : World} (h : TellsNames w e)
    (he : Evolves w.shared.db.sessions w'.shared.db.sessions) : TellsNames w' e := by
  unfold TellsNames at h ⊢
  split
  · exact Named.evolves h he
  · exact Named.evolves h he
  · trivial

/-! ## No token is given twice -/

/-- Some session has the token hash `d`. -/
def Taken (d : Digest) (st : AuthState) : Prop := d ∈ st.db.sessions.rows.map (·.tokenHash)

theorem taken_perform (q : Stmt) (st : AuthState) (h : Taken d st) : Taken d (q.perform st).1 := by
  obtain ⟨row, hrow, hd⟩ := mem_map.1 h
  by_cases hq : ∃ id, q = .setSessionScope id .full
  · -- A scope may be lowered here, which `Evolves` does not allow; the token stays.
    obtain ⟨id, rfl⟩ := hq
    simp only [Stmt.perform, Stmt.write, setSessionScope, updateSession]
    split
    · refine mem_map.2 ⟨_, mem_map.2 ⟨row, hrow, rfl⟩, ?_⟩
      split <;> exact hd
    · exact h
  · obtain ⟨row', hrow', hbecomes⟩ :=
      evolves_perform st (fun id heq => hq ⟨id, heq⟩) row hrow
    exact mem_map.2 ⟨row', hrow', hbecomes.tokenHash.trans hd⟩

/-- The creation of a session with the token hash `d`. -/
def creates (d : Digest) : Sigma Stmt.Reply → Bool
  | ⟨.createSession sess, .ok _⟩ => sess.tokenHash == d
  | _ => false

theorem creates_perform (q : Stmt) (st : AuthState) (h : creates d ⟨q, (q.perform st).2⟩) :
    ¬Taken d st ∧ Taken d (q.perform st).1 := by
  cases q with
  | createSession sess =>
    replace h : creates d ⟨.createSession sess, (st.db.createSession sess).2⟩ = true := h
    cases hr : (st.db.createSession sess).2 with
    | error e =>
      rw [hr] at h
      cases h
    | ok id =>
      rw [hr] at h
      obtain rfl : sess.tokenHash = d := by simpa [creates] using h
      obtain ⟨hnew, hrows⟩ := createSession_eq_ok hr
      refine ⟨hnew, ?_⟩
      unfold Taken
      replace hrows : (Stmt.perform (.createSession sess) st).1.db.sessions.rows = _ := hrows
      rw [hrows]
      simp
  | _ => cases h

/-- **No token is given to two calls.** -/
theorem created_once (hw : w.threads = []) (as : List Label) {j : ℕ}
    (ht : (exec (step s) w as).threads[i]? = some t)
    (hu : (exec (step s) w as).threads[j]? = some u) {sess' : Session} {id' : ℕ}
    (hsess : ⟨.createSession sess, .ok id⟩ ∈ t.log)
    (hsess' : ⟨.createSession sess', .ok id'⟩ ∈ u.log) (hd : sess.tokenHash = sess'.tokenHash) :
    i = j := by
  have honce : (exec (step s) w as).logged (creates sess.tokenHash) ≤ 1 := by
    refine logged_le_one creates_perform ?_ taken_perform (fun _ _ h => h) (fun _ h => h) as hw
    intro q r hf
    cases q <;> cases hf <;> rfl
  refine index_unique _ honce ht hu ?_ ?_
  · exact countP_pos_iff.2 ⟨_, hsess, by simp [creates]⟩
  · exact countP_pos_iff.2 ⟨_, hsess', by simp [creates, hd]⟩

/-! ## Where elevated sessions come from -/

/-- A call other than a login has created a session with the token hash `d`. -/
def Recovered (w : World) (d : Digest) : Prop :=
  ∃ t ∈ w.threads, t.request.loginPassword? = none ∧
    ∃ sess id, ⟨.createSession sess, .ok id⟩ ∈ t.log ∧ sess.tokenHash = d

/-- A token that no login of the run has made: it was in the database at the start, or another
call has made it. -/
def Origin (db : AuthDB) (w : World) (d : Digest) : Prop :=
  d ∈ db.sessions.rows.map (·.tokenHash) ∨ Recovered w d

theorem Origin.step (h : Origin db w d) (a : Label) : Origin db (step s w a) d := by
  refine h.imp_right ?_
  rintro ⟨t, ht, hlogin, sess, id, hmem, hd⟩
  obtain ⟨i, hi⟩ := mem_iff_getElem?.1 ht
  obtain ⟨t', ht', hreq, hsuf⟩ := thread_step (authSystem s) w a hi
  exact ⟨t', mem_of_getElem? ht', by rw [hreq, hlogin], sess, id, hsuf.subset hmem, hd⟩

theorem elevated_perform (h : (q.perform st).1.elevated d ≠ none) :
    st.elevated d ≠ none ∨ ∃ deadline, q = .mark d deadline := by
  cases q with
  | mark d' deadline =>
    by_cases hd : d = d'
    · exact .inr ⟨deadline, by rw [hd]⟩
    · exact .inl (by simpa [Stmt.perform, ElevatedTracker.mark, hd] using h)
  | isElevated d' now =>
    left
    simp only [Stmt.perform, ElevatedTracker.isElevated] at h
    split at h
    · exact h
    split at h
    · exact h
    · by_cases hd : d = d'
      · simp [hd] at h
      · simpa [hd] using h
  | clear d' =>
    left
    by_cases hd : d = d'
    · simp [Stmt.perform, ElevatedTracker.clear, hd] at h
    · simpa [Stmt.perform, ElevatedTracker.clear, hd] using h
  | _ => exact .inl h

theorem scope_modify {t : Sessions} {p : SessionRow → Bool} (f : SessionRow → SessionRow)
    (hid : ∀ r, (f r).id = r.id) (hkey : ∀ r, (f r).tokenHash = r.tokenHash)
    (hscope : ∀ r, (f r).scope = r.scope) (hrow : row ∈ (t.modify p f hid hkey).rows)
    (h : row.scope = .elevated) :
    ∃ row' ∈ t.rows, row'.tokenHash = row.tokenHash ∧ row'.scope = .elevated := by
  obtain ⟨row', hrow', rfl⟩ := Table.mem_modify.1 hrow
  refine ⟨row', hrow', ?_⟩
  split at h
  · rw [if_pos (by assumption)]
    exact ⟨(hkey row').symm, (hscope row').symm.trans h⟩
  · rw [if_neg (by assumption)]
    exact ⟨rfl, h⟩

theorem scope_perform (hrow : row ∈ (q.perform st).1.db.sessions.rows) (h : row.scope = .elevated) :
    (∃ row' ∈ st.db.sessions.rows, row'.tokenHash = row.tokenHash ∧ row'.scope = .elevated) ∨
      q = .setSessionScope row.id .elevated ∧ Named st row.id row.tokenHash := by
  have hframe := frame q st
  cases q with
  | createSession sess =>
    left
    simp only [Stmt.perform, Stmt.write, createSession] at hrow
    split at hrow
    · exact ⟨row, hrow, rfl, h⟩
    rename_i t ht
    rcases (Table.mem_insert ht).1 hrow with hold | rfl
    · exact ⟨row, hold, rfl, h⟩
    · cases h
  | touchSession id seen =>
    left
    simp only [Stmt.perform, Stmt.write, touchSession, updateSession] at hrow
    split at hrow
    · exact scope_modify (fun r => { r with lastSeenAt := seen }) (fun _ => rfl) (fun _ => rfl)
        (fun _ => rfl) hrow h
    · exact ⟨row, hrow, rfl, h⟩
  | revokeSession id =>
    left
    simp only [Stmt.perform, Stmt.write, revokeSession, updateSession] at hrow
    split at hrow
    · exact scope_modify (revoke _) (fun _ => rfl) (fun _ => rfl) (fun _ => rfl) hrow h
    · exact ⟨row, hrow, rfl, h⟩
  | revokeAllSessions =>
    exact .inl (scope_modify (revoke _) (fun _ => rfl) (fun _ => rfl) (fun _ => rfl) hrow h)
  | completePasswordReset token now hash kdf v =>
    left
    simp only [Stmt.perform, Stmt.write, completePasswordReset] at hrow
    split at hrow
    · exact scope_modify (revoke _) (fun _ => rfl) (fun _ => rfl) (fun _ => rfl) hrow h
    · exact ⟨row, hrow, rfl, h⟩
  | setSessionScope id scope =>
    simp only [Stmt.perform, Stmt.write, setSessionScope, updateSession] at hrow
    split at hrow
    · obtain ⟨row', hrow', rfl⟩ := mem_map.1 hrow
      by_cases hid : (row'.id == id) = true
      · rw [if_pos hid] at h ⊢
        obtain rfl : scope = .elevated := h
        exact .inr ⟨by rw [← beq_iff_eq.1 hid], row', hrow', rfl, rfl⟩
      · rw [if_neg hid] at h ⊢
        exact .inl ⟨row', hrow', rfl, h⟩
    · exact .inl ⟨row, hrow, rfl, h⟩
  | _ =>
    rw [hframe.sessions rfl] at hrow
    exact .inl ⟨row, hrow, rfl, h⟩

/-- What an entry tells about elevated sessions. -/
def TellsElevated (db : AuthDB) (w : World) : Sigma Stmt.Reply → Prop
  | ⟨.isElevated d _, true⟩ => Origin db w d
  | ⟨.sessionScope id, .ok .elevated⟩ => ∃ d, Named w.shared id d ∧ Origin db w d
  | ⟨.withCallerSession cs, _⟩ => cs.elevated = true → Origin db w cs.tokenHash
  | _ => True

/-- Whatever counts as elevated has its origin elsewhere than in a login of the run. -/
structure Earned (s : AuthServer) (db : AuthDB) (w : World) : Prop where
  obeys : Obeys (Protocol s) Outcome w
  names : ∀ t ∈ w.threads, ∀ e ∈ t.log, TellsNames w e
  entries : ∀ t ∈ w.threads, ∀ e ∈ t.log, TellsElevated db w e
  tracker : ∀ d, w.shared.elevated d ≠ none → Origin db w d
  scope : ∀ row ∈ w.shared.db.sessions.rows, row.scope = .elevated → Origin db w row.tokenHash

theorem Earned.tellsElevated_issued (hw : Earned s db w) {h : Log Stmt.Reply}
    {k : q.Reply → Handler Result} {r : q.Reply} (hi : (authSystem s).Issues w i ok c h q k st' r) :
    TellsElevated db (step s w (.run i ok)) ⟨q, r⟩ := by
  have hallowed := hw.obeys.issues hi
  have hreply := reply_cases hi.reply
  cases q with
  | isElevated d now =>
    cases r with
    | false => trivial
    | true =>
      refine Origin.step (hw.tracker d fun hnone => ?_) _
      rcases hreply with ⟨-, hp⟩ | ⟨-, -, hf⟩
      · have : (w.shared.elevated.isElevated d now).2 = true := (congrArg Prod.snd hp).symm
        simp [ElevatedTracker.isElevated, hnone] at this
      · cases hf
  | sessionScope id =>
    match r with
    | .error _ => trivial
    | .ok .full => trivial
    | .ok .elevated =>
      rcases hreply with ⟨-, hp⟩ | ⟨-, -, hf⟩
      · obtain ⟨row, hrow, hid, hscope⟩ := sessionScope_eq_ok (congrArg Prod.snd hp).symm
        have hnamed : Named w.shared id row.tokenHash := ⟨row, hrow, hid, rfl⟩
        exact ⟨row.tokenHash, hnamed.evolves (evolves_step hw.obeys _),
          (hw.scope row hrow hscope).step _⟩
      · cases hf
  | withCallerSession cs =>
    intro hel
    obtain ⟨raw, m, stored, -, -, hd, hid, hscope, -, hel'⟩ := hallowed
    rcases (hel' hel).2 with rfl | ⟨t, ht⟩
    · -- The scope was read for the id the token was found to name.
      obtain ⟨d, hnamed, horigin⟩ := hw.entries _ hi.mem _ hscope
      obtain ⟨row, hrow, hrowid, hrowd⟩ := hw.names _ hi.mem _ hid
      rw [hd, ← hrowd, hnamed.tokenHash_eq hrow hrowid]
      exact horigin.step _
    · exact Origin.step (hw.entries _ hi.mem _ ht) _
  | _ => trivial

theorem TellsElevated.step (hw : Obeys (Protocol s) Outcome w) (a : Label)
    (h : TellsElevated db w e) : TellsElevated db (step s w a) e := by
  unfold TellsElevated at h ⊢
  split
  · exact Origin.step h a
  · obtain ⟨d, hnamed, horigin⟩ := h
    exact ⟨d, hnamed.evolves (evolves_step hw a), horigin.step a⟩
  · exact fun hel => (h hel).step a
  · trivial

/-- The tracker after a step: an entry was there before, or a call other than a login marks the
session it has made. -/
theorem Earned.tracker_step (hw : Earned s db w) (a : Label)
    (h : (step s w a).shared.elevated d ≠ none) : Origin db w d := by
  cases a with
  | request c => exact hw.tracker d h
  | env e => exact hw.tracker d h
  | crash => exact absurd rfl h
  | run i ok =>
    obtain heq | ⟨c, h', q, k, st', r, hi, -⟩ := step_run_cases (authSystem s) w i ok
    · exact hw.tracker d (by rwa [← congrArg (·.shared.elevated) heq])
    have hshared : (step s w (.run i ok)).shared = st' := hi.shared
    rw [hshared] at h
    rcases hi.shared_cases with rfl | rfl
    · rcases elevated_perform h with hbefore | ⟨deadline, rfl⟩
      · exact hw.tracker d hbefore
      · obtain ⟨hlogin, sess, id, hmem, hd⟩ := hw.obeys.issues hi
        exact .inr ⟨_, hi.mem, hlogin, sess, id, hmem, hd⟩
    · exact hw.tracker d h

theorem Earned.scope_step (hw : Earned s db w) (a : Label)
    (hrow : row ∈ (step s w a).shared.db.sessions.rows) (h : row.scope = .elevated) :
    Origin db w row.tokenHash := by
  obtain heq | ⟨i, c, h', q, k, rfl, hi, heq⟩ := step_db_cases s w a
  · rw [heq] at hrow
    exact hw.scope row hrow h
  rw [heq] at hrow
  rcases scope_perform hrow h with ⟨row', hrow', hd, hscope⟩ | ⟨rfl, row', hrow', hid, hd⟩
  · rw [← hd]
    exact hw.scope row' hrow' hscope
  -- The scope is raised by the call that made the session, or for one the tracker knew.
  rw [← hd]
  obtain ⟨-, ⟨hlogin, sess, hmem⟩ | ⟨d, t, htracked, hnamed⟩⟩ := hw.obeys.issues hi
  · have hcreated : Named w.shared row.id sess.tokenHash := hw.names _ hi.mem _ hmem
    rw [hcreated.tokenHash_eq hrow' hid]
    exact .inr ⟨_, hi.mem, hlogin, sess, row.id, hmem, rfl⟩
  · have hnames : Named w.shared row.id d := hw.names _ hi.mem _ hnamed
    rw [hnames.tokenHash_eq hrow' hid]
    exact hw.entries _ hi.mem _ htracked

theorem Earned.step (w : World) (a : Label) (hw : Earned s db w) : Earned s db (step s w a) where
  obeys := obeys_step hw.obeys a
  names := by
    refine entries_step w a ?_ (fun _ he => he.evolves (evolves_step hw.obeys a)) hw.names
    rintro i ok c h q k st' r rfl hi
    exact tellsNames_issued hi
  entries := by
    refine entries_step w a ?_ (fun _ he => he.step hw.obeys a) hw.entries
    rintro i ok c h q k st' r rfl hi
    exact hw.tellsElevated_issued hi
  tracker := fun d h => (hw.tracker_step a h).step a
  scope := fun row hrow h => (hw.scope_step a hrow h).step a

variable {clock : ℤ}

theorem obeys_boot : Obeys (Protocol s) Outcome (boot db clock) := fun t ht => by cases ht

theorem obeys_run (bs : List Label) :
    Obeys (Protocol s) Outcome (exec (step s) (boot db clock) bs) :=
  obeys_exec (along_serve s) bs _ rfl

/-- **What has ended stays ended**: over any run a session row keeps its id and its token, and
once revoked or elevated it stays so. -/
theorem sessions_evolve (s : AuthServer) (db : AuthDB) (clock : ℤ) (as bs : List Label) :
    Evolves (exec (step s) (boot db clock) as).shared.db.sessions
      (exec (step s) (boot db clock) (as ++ bs)).shared.db.sessions := by
  rw [exec_append]
  exact evolves_exec (obeys_run as) bs

theorem earned_exec (db : AuthDB) (clock : ℤ) (as : List Label) :
    Earned s db (exec (step s) (boot db clock) as) := by
  refine exec_induction (step s) _ Earned.step as _ ⟨obeys_boot, ?_, ?_, ?_, ?_⟩
  · exact fun t ht => by cases ht
  · exact fun t ht => by cases ht
  · exact fun d h => absurd rfl h
  · exact fun row hrow _ => .inl (mem_map_of_mem hrow)

/-- **No caller presents a session of a login as an elevated one.** -/
theorem login_not_elevated {as : List Label} {j l : ℕ}
    (ht : (exec (step s) (boot db clock) as).threads[j]? = some t)
    (hu : (exec (step s) (boot db clock) as).threads[l]? = some u)
    (hcs : ⟨.withCallerSession cs, ()⟩ ∈ t.log) (hel : cs.elevated)
    (hlogin : u.request.loginPassword?.isSome) (hsess : ⟨.createSession sess, .ok id⟩ ∈ u.log) :
    sess.tokenHash ≠ cs.tokenHash := by
  intro hd
  have hearned : Earned s db (exec (step s) (boot db clock) as) := earned_exec db clock as
  rcases hearned.entries t (mem_of_getElem? ht) _ hcs hel with
    hstart | ⟨v, hv, hvlogin, sess', id', hmem', hd'⟩
  · -- The token was taken from the start, so the login could not have made it.
    obtain ⟨as₁, ok, as₂, h, k, st', -, hi⟩ := logged_of_exec rfl as hu hsess
    rcases reply_cases hi.reply with ⟨-, hp⟩ | ⟨-, -, hf⟩
    · obtain ⟨hnew, -⟩ := createSession_eq_ok (congrArg Prod.snd hp).symm
      obtain ⟨row, hrow, hrowd⟩ := mem_map.1 hstart
      obtain ⟨row', hrow', hbecomes⟩ :=
        evolves_exec (obeys_boot : Obeys (Protocol s) Outcome (boot db clock)) as₁ row hrow
      exact hnew (mem_map.2 ⟨row', hrow', by rw [hbecomes.tokenHash, hrowd, hd]⟩)
    · cases hf
  · -- Another call has made it, and only one call can.
    obtain ⟨m, hm⟩ := mem_iff_getElem?.1 hv
    obtain rfl := created_once rfl as hu hm hsess hmem' (hd.trans hd'.symm)
    obtain rfl := Option.some.inj (hu.symm.trans hm)
    simp [hvlogin] at hlogin

end AnimeFeedFlux.Auth
