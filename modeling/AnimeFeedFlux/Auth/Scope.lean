import AnimeFeedFlux.Auth.Sessions

/-!
# Elevated sessions never widen

`RecoverWithCode` hands out a token whose session is elevated in two places: the tracker in
memory, which forgets, and the `scope` column, which does not.  `authorize` reads both and
writes the column only to raise it.  So once the token is handed out the column alone decides:
it says elevated in every later state, restarts included, and every later call that presents
the token is admitted to `ChangePassword` and `ReenrollTOTP` only.
-/

namespace AnimeFeedFlux.Auth

open Machine Threads Threads.System

variable {s : AuthServer} {w : World} {db : AuthDB} {clock : ℤ} {t : Serving}

/-- A scope that was raised is elevated. -/
def TellsRaised (w : World) : Sigma Stmt.Reply → Prop
  | ⟨.setSessionScope id .elevated, .ok ()⟩ =>
    ∃ row ∈ w.shared.db.sessions.rows, row.id = id ∧ row.scope = .elevated
  | _ => True

theorem tellsRaised_step (hw : Obeys (Protocol s) Outcome w) (a : Label)
    (h : ∀ t ∈ w.threads, ∀ e ∈ t.log, TellsRaised w e) :
    ∀ t ∈ (step s w a).threads, ∀ e ∈ t.log, TellsRaised (step s w a) e := by
  refine entries_step w a ?_ ?_ h
  · rintro i ok c h q k st' r rfl hi
    have hshared : (step s w (.run i ok)).shared = st' := hi.shared
    have hreply := reply_cases hi.reply
    cases q with
    | setSessionScope id scope =>
      match scope, r with
      | .full, _ => trivial
      | .elevated, .error _ => trivial
      | .elevated, .ok () =>
        rcases hreply with ⟨-, hp⟩ | ⟨-, -, hf⟩
        · obtain ⟨row, hid, hrow⟩ := AuthDB.mem_updateSession (congrArg Prod.snd hp).symm
          unfold TellsRaised
          rw [hshared, show st'.db = _ from congrArg (·.1.db) hp]
          exact ⟨_, hrow, hid, rfl⟩
        · cases hf
    | _ => trivial
  · intro e he
    unfold TellsRaised at he ⊢
    split
    · obtain ⟨row, hrow, hid, hel⟩ := he
      obtain ⟨row', hrow', hbecomes⟩ := evolves_step hw a row hrow
      exact ⟨row', hrow', hbecomes.id.trans hid, hbecomes.elevated hel⟩
    · trivial

theorem tellsRaised_exec (db : AuthDB) (clock : ℤ) (as : List Label) :
    ∀ t ∈ (exec (step s) (boot db clock) as).threads, ∀ e ∈ t.log,
      TellsRaised (exec (step s) (boot db clock) as) e :=
  (exec_induction (step s)
    (fun w => Obeys (Protocol s) Outcome w ∧ ∀ t ∈ w.threads, ∀ e ∈ t.log, TellsRaised w e)
    (fun w a hw => ⟨obeys_step hw.1 a, tellsRaised_step hw.1 a hw.2⟩) as _
    ⟨obeys_boot, fun t ht => by cases ht⟩).2

theorem elevated_of_recovered {as : List Label} {m : Minted} {n : ℕ}
    (ht : t ∈ (exec (step s) (boot db clock) as).threads)
    (ha : t.answer? = some (.ok (.recoverWithCode m n))) :
    ∃ row ∈ (exec (step s) (boot db clock) as).shared.db.sessions.rows,
      row.tokenHash = hashToken t.request.coins.sessionToken ∧ row.scope = .elevated := by
  have hearned : Earned s db (exec (step s) (boot db clock) as) := earned_exec db clock as
  obtain ⟨-, hcreated, hhash, hraised⟩ := hearned.obeys.answer ht ha
  obtain ⟨row, hrow, hid, hel⟩ := tellsRaised_exec db clock as t ht _ hraised
  have hnamed : Named _ m.id m.session.tokenHash := hearned.names t ht _ hcreated
  exact ⟨row, hrow, (hnamed.tokenHash_eq hrow hid).trans hhash, hel⟩

/-! ## What becomes of a recovered token -/

/-- From the state `w` on, the token `raw` is that of an elevated session, and no call that
starts later is admitted by it to anything but `ChangePassword` and `ReenrollTOTP`. -/
structure NeverWidens (s : AuthServer) (w : World) (raw : String) : Prop where
  scope : ∀ bs, ∃ row ∈ (exec (step s) w bs).shared.db.sessions.rows,
    row.tokenHash = hashToken raw ∧ row.scope = .elevated
  admits : ∀ bs (j : ℕ) (t : Serving), w.threads.length ≤ j →
    (exec (step s) w bs).threads[j]? = some t → t.request.token? = some raw → callers t ≠ [] →
      t.request.method? = some .changePassword ∨ t.request.method? = some .reenrollTOTP

theorem method_of_elevatedAllowed {m : Method} (h : elevatedAllowedMethods m) :
    m = .changePassword ∨ m = .reenrollTOTP := by
  cases m with
  | changePassword => exact .inl rfl
  | reenrollTOTP => exact .inr rfl
  | _ => cases h

/-- A call that finds the session of its token elevated whenever it looks is admitted to two
methods only. -/
theorem method_of_elevated {as bs : List Label} {raw : String} {row : SessionRow}
    (hrow : row ∈ (exec (step s) (boot db clock) as).shared.db.sessions.rows)
    (hd : row.tokenHash = hashToken raw) (hel : row.scope = .elevated) {j : ℕ}
    (hj : (exec (step s) (boot db clock) as).threads.length ≤ j)
    (ht : (exec (step s) (boot db clock) (as ++ bs)).threads[j]? = some t)
    (hraw : t.request.token? = some raw) {cs : CallerSession} (hcs : cs ∈ callers t) :
    t.request.method? = some .changePassword ∨ t.request.method? = some .reenrollTOTP := by
  obtain ⟨as₁, ok, as₂, h, k, st', heq, hi⟩ := logged_of_exec rfl _ ht (mem_callers.1 hcs)
  obtain ⟨raw', m, stored, hraw', hm, -, hid, hscope, hstored, hallowed⟩ :=
    (obeys_run as₁).issues hi
  obtain rfl : raw' = raw := Option.some.inj (hraw'.symm.trans hraw)
  -- The scope was read after `as`, since the call did not exist before.
  obtain ⟨as₃, ok', as₄, h', k', st'', rfl, hi'⟩ := logged_of_exec rfl _ hi.thread hscope
  have hread : stored = .elevated := by
    obtain ⟨cs', rfl⟩ := extends_of_new (heq.trans (List.append_assoc _ _ _)) hj hi'.thread
    obtain ⟨row₃, hrow₃, hbecomes⟩ : ∃ row₃ ∈ _, Becomes row row₃ := by
      have := evolves_exec (obeys_run as) cs' row hrow
      rwa [← exec_append] at this
    -- At the read the elevated row is there, and the id read is its id.
    rcases reply_cases hi'.reply with ⟨-, hp⟩ | ⟨-, -, hf⟩
    · obtain ⟨row', hrow', hrowid', hscope'⟩ := sessionScope_eq_ok (congrArg Prod.snd hp).symm
      have hnamed : Named _ cs.id (hashToken raw') :=
        (earned_exec db clock _).names _ hi.mem _ hid
      obtain ⟨row₁, hrow₁, hbecomes₁⟩ : ∃ row₁ ∈ _, Becomes row₃ row₁ := by
        have := evolves_exec (obeys_run (as ++ cs')) (.run j ok' :: as₄) row₃ hrow₃
        rwa [← exec_append] at this
      have hid₁ : row₁.id = cs.id :=
        hnamed.id_eq hrow₁ (hbecomes₁.tokenHash.trans (hbecomes.tokenHash.trans hd))
      have hsame : row' = row₃ := Table.eq_of_id _ hrow' hrow₃
        (hrowid'.trans (hid₁.symm.trans hbecomes₁.id))
      rw [← hscope', hsame]
      exact hbecomes.elevated hel
    · cases hf
  rw [hm]
  exact (method_of_elevatedAllowed (hallowed (hstored hread)).1).imp (congrArg some) (congrArg some)

/-- **Elevated sessions never widen.**  In every run, whatever calls, clock readings and
restarts it interleaves, a persisted scope that is elevated stays so, and from the moment
`RecoverWithCode` answers its token is elevated for good and good for two methods only. -/
theorem elevated_never_widens (s : AuthServer) (db : AuthDB) (clock : ℤ) (as : List Label) :
    (∀ row ∈ (exec (step s) (boot db clock) as).shared.db.sessions.rows, row.scope = .elevated →
      ∀ bs, ∀ row' ∈ (exec (step s) (boot db clock) (as ++ bs)).shared.db.sessions.rows,
        row'.id = row.id → row'.scope = .elevated) ∧
    ∀ (i : ℕ) (t : Serving) (m : Minted) (n : ℕ),
      (exec (step s) (boot db clock) as).threads[i]? = some t →
      t.answer? = some (.ok (.recoverWithCode m n)) →
        NeverWidens s (exec (step s) (boot db clock) as) t.request.coins.sessionToken := by
  constructor
  · intro row hrow hel bs row' hrow' hid
    rw [exec_append] at hrow'
    exact ((evolves_exec (obeys_run as) bs).becomes hrow hrow' hid).elevated hel
  intro i t m n ht ha
  obtain ⟨row, hrow, hd, hel⟩ := elevated_of_recovered (List.mem_of_getElem? ht) ha
  constructor
  · intro bs
    obtain ⟨row', hrow', hbecomes⟩ := evolves_exec (obeys_run as) bs row hrow
    exact ⟨row', hrow', hbecomes.tokenHash.trans hd, hbecomes.elevated hel⟩
  intro bs j u hj hu hraw hcallers
  obtain ⟨cs, hcs⟩ := List.exists_mem_of_ne_nil _ hcallers
  rw [← exec_append] at hu
  exact method_of_elevated hrow hd hel hj hu hraw hcs

/-- A database with an admin and one recovery code. -/
def oneCode : AuthDB :=
  { admin := some (plainAdmin "correct horse battery" 3),
    recoveryCodes := ⟨[⟨1, ⟨"AAAA"⟩, none⟩], by decide, by decide⟩ }

/-- A `RecoverWithCode` that is handed `token`. -/
def recovering : List Label :=
  .request (.rpc {} { sessionToken := "token" } (.recoverWithCode "AAAA")) :: runs 0 13

/-- A restart, which empties the tracker, and then two calls with the token. -/
def afterRestart : List Label :=
  [.crash, .request (.rpc { header := some "token" } {}
      (.changePassword "" "" "battery staple horse")),
    .request (.rpc { header := some "token" } {} (.other "/feed"))] ++ runs 2 6 ++ runs 1 14

/-- After a restart the recovered token still passes `ChangePassword`, and nothing else. -/
theorem elevated_never_widens_restarted :
    ((exec (step plainServer) (boot oneCode plainClock) recovering).threads.map fun t =>
        t.answer?.any (·.isOk)) = [true] ∧
    NeverWidens plainServer (exec (step plainServer) (boot oneCode plainClock) recovering) "token" ∧
    ((exec (step plainServer) (boot oneCode plainClock) (recovering ++ afterRestart)).threads.map
      fun t => (callers t, t.answer?.any (·.isOk))) =
        [([], true), ([⟨1, ⟨"token"⟩, true⟩], true), ([], false)] := by
  have hrecovered : ((exec (step plainServer) (boot oneCode plainClock) recovering).threads[0]?).map
      (fun t => (t.answer?, t.request.coins.sessionToken)) =
      some (some (.ok (.recoverWithCode ⟨1, { plainSession "token" with
        expiresAt := plainClock + elevatedSessionTTL }, some (.token "token")⟩ 0)), "token") := by
    decide +kernel
  obtain ⟨t, ht, heq⟩ := Option.map_eq_some_iff.1 hrecovered
  obtain ⟨ha, htoken⟩ := Prod.mk.inj heq
  refine ⟨by decide +kernel, ?_, by decide +kernel⟩
  exact htoken ▸ (elevated_never_widens plainServer oneCode plainClock recovering).2 0 t _ _ ht ha

end AnimeFeedFlux.Auth
