import AnimeFeedFlux.Auth.Frames

/-!
# Recovery codes over interleaved calls

`RecoverWithCode` reads every stored hash, finds the position of the code it was given, and
consumes by position: `UseRecoveryCode` resolves the position to an id against whatever set is
stored by then.  As long as the set is not replaced in between, each accepted code is an
unused member of the stored set at the instant it is consumed, and nothing else is consumed.
A replacement between the two statements breaks all of that.
-/

namespace AnimeFeedFlux.Auth

open Machine Threads Threads.System List AuthDB

/-! ## The specification -/

/-- The unused code with the hash of `code` becomes used, and nothing else changes in the
stored set. -/
def Consumes (st st' : AuthState) (code : String) : Prop :=
  ∃ row ∈ st.db.recoveryCodes.rows, row.codeHash = hashRecoveryCode code ∧ row.usedAt = none ∧
    st'.db.recoveryCodes.rows = st.db.recoveryCodes.rows.map fun r =>
      if r.id = row.id then { r with usedAt := some st.clock } else r
deriving Decidable

/-- The stored set becomes that of `hashes`, all unused. -/
def Replaces (st' : AuthState) (hashes : List Digest) : Prop :=
  st'.db.allRecoveryCodeHashes = hashes ∧ ∀ r ∈ st'.db.recoveryCodes.rows, r.usedAt = none
deriving Decidable

/-- The set of hashes a step is to store. -/
def storing (w : World) (a : Label) : Option (List Digest) :=
  match w.issuing a with
  | some (_, _, .storeRecoveryCodes hashes) => some hashes
  | _ => none

/-- The recovery code the call that takes a step has presented. -/
def presenting (w : World) (a : Label) : Option String :=
  (w.issuing a).bind fun e => e.1.recoveryCode?

/-- What a step may do to the stored codes: nothing, replace the set when the call that runs
stores one, or consume the code that call presents. -/
def Permitted (w w' : World) (a : Label) : Prop :=
  w'.shared.db.recoveryCodes = w.shared.db.recoveryCodes ∨
    (∃ hashes ∈ storing w a, Replaces w'.shared hashes) ∨
    ∃ code ∈ presenting w a, Consumes w.shared w'.shared code
deriving Decidable

/-- **The specification.**  Every successful `RecoverWithCode` has an instant at which
exactly the code it presents, an unused member of the set stored then, becomes used; and no
step changes the stored codes in any other way. -/
structure Linearizable (s : AuthServer) (w : World) (as : List Label) : Prop where
  success : ∀ i t m n, (exec (step s) w as).threads[i]? = some t →
    t.answer? = some (.ok (.recoverWithCode m n)) →
    ∃ code as₁ ok as₂, t.request.recoveryCode? = some code ∧ as = as₁ ++ .run i ok :: as₂ ∧
      Consumes (exec (step s) w as₁).shared (exec (step s) w (as₁ ++ [.run i ok])).shared code
  change : ∀ as₁ a as₂, as = as₁ ++ a :: as₂ →
    Permitted (exec (step s) w as₁) (exec (step s) w (as₁ ++ [a])) a

/-! ## The condition -/

/-- A `RecoverWithCode` that has found its code in the hashes it read and has not tried to
consume it yet. -/
def usingCode (t : Serving) : Bool :=
  t.running && !consumeIssued t.log &&
    t.request.recoveryCode?.any fun code =>
      (codesRead? t.log).any fun hashes => (verifyCode code hashes).isSome

/-- No set is stored while a call is about to consume a code. -/
def Undisturbed (w : World) (a : Label) : Prop :=
  (storing w a).isSome → ∀ t ∈ w.threads, usingCode t = false
deriving Decidable

/-! ## What a call about to consume knows -/

/-- The ids and hashes of the stored set. -/
def codeKeys (st : AuthState) : List (ℕ × Digest) :=
  st.db.recoveryCodes.rows.map fun r => (r.id, r.codeHash)

theorem map_snd_codeKeys (st : AuthState) :
    (codeKeys st).map Prod.snd = st.db.allRecoveryCodeHashes := by
  simp [codeKeys, allRecoveryCodeHashes]

variable {st st' : AuthState} {i : ℕ} {q : Stmt} {c : Call} {k : q.Reply → Handler Result}
  {r : q.Reply} {s : AuthServer} {w : World} {ok : Bool}

theorem fst_codeKeys_of_recoveryCodeIDAt {id : ℕ} (h : st.db.recoveryCodeIDAt i = .ok id) :
    (codeKeys st)[i]?.map Prod.fst = some id := by
  unfold recoveryCodeIDAt at h
  split at h
  · cases h
  rename_i c hc
  cases h
  simp [codeKeys, hc]

theorem codeKeys_perform (st : AuthState) (hq : ∀ hs, q ≠ .storeRecoveryCodes hs) :
    codeKeys (q.perform st).1 = codeKeys st := by
  have hframe := frame q st
  cases q with
  | storeRecoveryCodes hs => exact absurd rfl (hq hs)
  | markRecoveryCodeUsed id =>
    simp only [codeKeys, Stmt.perform, Stmt.write, markRecoveryCodeUsed]
    split
    · simp only [Table.modify_rows, map_map]
      congr 1
      funext r
      simp only [Function.comp_apply]
      split <;> rfl
    · rfl
  | _ =>
    unfold codeKeys
    rw [hframe.recoveryCodes rfl]

/-- A call about to consume still finds the hashes it read, and the id it resolved is the
one at its position. -/
def KnowsCodes (st : AuthState) (t : Serving) : Prop :=
  usingCode t = true →
    (∀ hashes, codesRead? t.log = some hashes → (codeKeys st).map Prod.snd = hashes) ∧
    ∀ i id, codeAt? t.log = some (i, id) → (codeKeys st)[i]?.map Prod.fst = some id

theorem KnowsCodes.of_codeKeys {t : Serving} (ht : KnowsCodes st t)
    (h : codeKeys st' = codeKeys st) : KnowsCodes st' t := by
  unfold KnowsCodes
  rw [h]
  exact ht

/-- A call that is about to consume was so before an instruction that read no hashes. -/
theorem usingCode_of_cons {h : Log Stmt.Reply} {p : Handler Result}
    (hread : codesRead? (⟨q, r⟩ :: h) = codesRead? h)
    (hu : usingCode ⟨c, ⟨q, r⟩ :: h, some p⟩) :
    usingCode ⟨c, h, some (.call q k)⟩ := by
  unfold usingCode at hu ⊢
  rw [hread, Bool.and_eq_true, Bool.and_eq_true] at hu
  obtain ⟨⟨-, hnot⟩, hfound⟩ := hu
  have hnot' : consumeIssued h = false := by
    rw [Bool.not_eq_true'] at hnot
    exact (Bool.or_eq_false_iff.1 hnot).2
  rw [hnot', Bool.and_eq_true]
  exact ⟨rfl, hfound⟩

theorem knowsCodes_own (hw : Obeys (Protocol s) Outcome w) {h : Log Stmt.Reply}
    (hi : (authSystem s).Issues w i ok c h q k st' r) (hkeys : codeKeys st' = codeKeys w.shared)
    (ht : KnowsCodes w.shared ⟨c, h, some (.call q k)⟩) :
    KnowsCodes st' ⟨c, ⟨q, r⟩ :: h, some (k r)⟩ := by
  have hallowed := hw.issues hi
  have hreply := reply_cases hi.reply
  intro husing
  rw [hkeys]
  cases q with
  | allRecoveryCodeHashes =>
    cases r with
    | error e => exact ht (usingCode_of_cons rfl husing)
    | ok hashes =>
      refine ⟨?_, fun i id hat => ?_⟩
      · rintro _ ⟨⟩
        rcases hreply with ⟨-, hp⟩ | ⟨-, -, hf⟩
        · cases hp
          exact map_snd_codeKeys _
        · cases hf
      · exact absurd (hallowed.symm.trans hat) (by simp)
  | recoveryCodeIDAt j =>
    obtain ⟨hread, hat⟩ := ht (usingCode_of_cons rfl husing)
    refine ⟨hread, ?_⟩
    cases r with
    | error e => exact hat
    | ok id =>
      rintro _ _ ⟨⟩
      rcases hreply with ⟨-, hp⟩ | ⟨-, -, hf⟩
      · exact fst_codeKeys_of_recoveryCodeIDAt (congrArg Prod.snd hp).symm
      · cases hf
  | markRecoveryCodeUsed id => simp [usingCode, consumeIssued] at husing
  | _ => exact ht (usingCode_of_cons rfl husing)

/-- **Undisturbed, what is known survives a step.** -/
theorem knowsCodes_step (w : World) (a : Label)
    (hw : Obeys (Protocol s) Outcome w ∧ ∀ t ∈ w.threads, KnowsCodes w.shared t)
    (hcond : Undisturbed w a) :
    Obeys (Protocol s) Outcome (step s w a) ∧
      ∀ t ∈ (step s w a).threads, KnowsCodes (step s w a).shared t := by
  -- Either the set is stored, and nobody is about to consume, or ids and hashes stay.
  have split : ∀ i ok c h q k st' r, a = .run i ok → (authSystem s).Issues w i ok c h q k st' r →
      ((∃ hashes, q = .storeRecoveryCodes hashes) ∧ ∀ t ∈ w.threads, usingCode t = false) ∨
        codeKeys st' = codeKeys w.shared := by
    intro i ok c h q k st' r ha hi
    by_cases hq : ∃ hashes, q = .storeRecoveryCodes hashes
    · obtain ⟨hashes, rfl⟩ := hq
      refine .inl ⟨⟨hashes, rfl⟩, hcond ?_⟩
      rw [ha, storing, hi.issuing]
      rfl
    · right
      rcases hi.shared_cases with rfl | rfl
      · exact codeKeys_perform _ fun hashes heq => hq ⟨hashes, heq⟩
      · rfl
  refine ⟨obeys_step hw.1 a, knows_step w a ?_ ?_ ?_ ?_ ?_ hw.2⟩
  · intro c hu
    simp [usingCode, codesRead?, spawn] at hu
  · intro i ok c h q k st' r ha hi ht
    rcases split i ok c h q k st' r ha hi with ⟨⟨hashes, rfl⟩, hnone⟩ | hkeys
    · intro hu
      exact Bool.noConfusion ((hnone _ hi.mem).symm.trans (usingCode_of_cons rfl hu))
    · exact knowsCodes_own hw.1 hi hkeys ht
  · intro i ok c h q k st' r u ha hi hu ht
    rcases split i ok c h q k st' r ha hi with ⟨-, hnone⟩ | hkeys
    · exact fun husing => absurd husing (by simp [hnone u hu])
    · exact ht.of_codeKeys hkeys
  · exact fun e t ht => ht
  · intro t ht hu
    simp [usingCode] at hu

theorem knowsCodes_exec (hw : w.threads = []) {as : List Label}
    (hcond : Meets (step s) Undisturbed w as) :
    Obeys (Protocol s) Outcome (exec (step s) w as) ∧
      ∀ t ∈ (exec (step s) w as).threads, KnowsCodes (exec (step s) w as).shared t :=
  (always_of_meets knowsCodes_step as w
    ⟨fun t ht => by simp [hw] at ht, fun t ht => by simp [hw] at ht⟩ hcond).last

/-! ## What a step does to the codes -/

theorem markRecoveryCodeUsed_eq_ok {db db' : AuthDB} {now : ℤ} {id : ℕ}
    (h : db.markRecoveryCodeUsed now id = (db', .ok ())) :
    ∃ row ∈ db.recoveryCodes.rows, row.id = id ∧ row.usedAt = none ∧
      db'.recoveryCodes.rows = db.recoveryCodes.rows.map fun r =>
        if r.id = row.id then { r with usedAt := some now } else r := by
  unfold markRecoveryCodeUsed at h
  split at h
  · rename_i hany
    obtain ⟨row, hrow, hunused⟩ := any_eq_true.1 hany
    simp only [isUnusedCode, Bool.and_eq_true, beq_iff_eq, Option.isNone_iff_eq_none]
      at hunused
    cases h
    refine ⟨row, hrow, hunused.1, hunused.2, map_congr_left fun r hr => ?_⟩
    by_cases hid : r.id = row.id
    · -- The id is that row's alone, so the condition on `used_at` holds as well.
      rw [db.recoveryCodes.eq_of_id hr hrow hid]
      simp [isUnusedCode, hunused]
    · simp [isUnusedCode, ← hunused.1, hid]
  · cases h

theorem markRecoveryCodeUsed_cases (db : AuthDB) (now : ℤ) (id : ℕ) :
    (db.markRecoveryCodeUsed now id).1 = db ∨ (db.markRecoveryCodeUsed now id).2 = .ok () := by
  unfold markRecoveryCodeUsed
  split
  · exact .inr rfl
  · exact .inl rfl

/-- **A code that goes through is the presented one**, when the call knows the stored set. -/
theorem consumes_of_issues (hobeys : Obeys (Protocol s) Outcome w)
    (hknows : ∀ t ∈ w.threads, KnowsCodes w.shared t) {h : Log Stmt.Reply} {id : ℕ}
    {k : Stored Unit → Handler Result}
    (hi : (authSystem s).Issues w i ok c h (.markRecoveryCodeUsed id) k st' (.ok ())) :
    ∃ code, c.recoveryCode? = some code ∧ Consumes w.shared st' code := by
  obtain ⟨code, hashes, j, hcode, hread, hfound, hat, hnot⟩ := hobeys.issues hi
  have husing : usingCode ⟨c, h, some (.call (.markRecoveryCodeUsed id) k)⟩ = true := by
    simp [usingCode, Thread.running, hcode, hread, hfound, hnot]
  obtain ⟨hkeys, hpos⟩ := hknows _ hi.mem husing
  refine ⟨code, hcode, ?_⟩
  rcases reply_cases hi.reply with ⟨-, hp⟩ | ⟨-, -, hf⟩
  · have hmark : w.shared.db.markRecoveryCodeUsed w.shared.clock id = (st'.db, .ok ()) :=
      Prod.ext (congrArg (·.1.db) hp).symm (congrArg Prod.snd hp).symm
    obtain ⟨row, hrow, hid, hunused, hrows⟩ := markRecoveryCodeUsed_eq_ok hmark
    refine ⟨row, hrow, ?_, hunused, hrows⟩
    -- The row at the position the call found has the hash of its code, and the id it marks.
    obtain ⟨found, hfoundAt, hfoundID⟩ : ∃ r, w.shared.db.recoveryCodes.rows[j]? = some r ∧
        r.id = id := by
      simpa [codeKeys] using hpos j id hat
    have hhash : found.codeHash = hashRecoveryCode code := by
      have := verifyCode_eq_some hfound
      rw [← hkeys hashes hread] at this
      simpa [codeKeys, hfoundAt] using this
    rw [w.shared.db.recoveryCodes.eq_of_id hrow (mem_of_getElem? hfoundAt)
      (hid.trans hfoundID.symm)]
    exact hhash
  · cases hf

/-- The rows the loop of `StoreRecoveryCodes` leaves: one more for each hash, unused. -/
theorem insertCodes_eq_some {t t' : RecoveryCodes} {hashes : List Digest}
    (h : insertCodes t hashes = some t') :
    t'.rows.map (·.codeHash) = t.rows.map (·.codeHash) ++ hashes ∧
      ∀ r ∈ t'.rows, r ∈ t.rows ∨ r.usedAt = none := by
  induction hashes generalizing t with
  | nil =>
    cases h
    exact ⟨(append_nil _).symm, fun r hr => .inl hr⟩
  | cons d hashes ih =>
    obtain ⟨u, hu, hrest⟩ := Option.bind_eq_some_iff.1 h
    obtain ⟨hhashes, hunused⟩ := ih hrest
    refine ⟨?_, fun r hr => ?_⟩
    · rw [hhashes, (Table.insert_eq_some.1 hu).2]
      simp
    rcases hunused r hr with hr | hr
    · rcases (Table.mem_insert hu).1 hr with hr | rfl
      · exact .inl hr
      · exact .inr rfl
    · exact .inr hr

/-- What `storeRecoveryCodes` leaves: the set of its hashes, or the database as it was. -/
theorem storeRecoveryCodes_cases (db : AuthDB) (hashes : List Digest) :
    (db.storeRecoveryCodes hashes).1 = db ∨
      (db.storeRecoveryCodes hashes).1.allRecoveryCodeHashes = hashes ∧
      ∀ r ∈ (db.storeRecoveryCodes hashes).1.recoveryCodes.rows, r.usedAt = none := by
  unfold storeRecoveryCodes
  split
  · exact .inl rfl
  rename_i t ht
  obtain ⟨hhashes, hunused⟩ := insertCodes_eq_some ht
  refine .inr ⟨hhashes, fun r hr => (hunused r hr).resolve_left ?_⟩
  exact not_mem_nil

/-- **What a step does to the codes**, when the calls know the stored set. -/
theorem permitted_step (hobeys : Obeys (Protocol s) Outcome w)
    (hknows : ∀ t ∈ w.threads, KnowsCodes w.shared t) (a : Label) : Permitted w (step s w a) a := by
  obtain heq | ⟨i, c, h, q, k, rfl, hi, heq⟩ := step_db_cases s w a
  · exact .inl (congrArg (·.recoveryCodes) heq)
  have hissuing : w.issuing (.run i true : Label) = some (c, h, q) := hi.issuing
  have hframe := frame q w.shared
  unfold Permitted storing presenting
  rw [heq, hissuing]
  cases q with
  | storeRecoveryCodes hashes =>
    rcases storeRecoveryCodes_cases w.shared.db hashes with hsame | hstored
    · exact .inl (congrArg (·.recoveryCodes) hsame)
    · exact .inr (.inl ⟨hashes, rfl, hstored⟩)
  | markRecoveryCodeUsed id =>
    rcases markRecoveryCodeUsed_cases w.shared.db w.shared.clock id with hsame | hok
    · exact .inl (congrArg (·.recoveryCodes) hsame)
    replace hok : (Stmt.perform (.markRecoveryCodeUsed id) w.shared).2 = .ok () := hok
    rw [hok] at hi
    obtain ⟨code, hcode, hconsumes⟩ := consumes_of_issues hobeys hknows hi
    exact .inr (.inr ⟨code, hcode, hconsumes⟩)
  | _ => exact .inl (hframe.recoveryCodes rfl)

/-! ## The result -/

/-- **Recovery codes are linearizable and single-use in every undisturbed run.** -/
theorem linearizable_of_undisturbed (s : AuthServer) (w : World) (hw : w.threads = [])
    (as : List Label) (hcond : Meets (step s) Undisturbed w as) : Linearizable s w as where
  success := by
    intro i t m n ht hanswer
    have hobeys : Obeys (Protocol s) Outcome (exec (step s) w as) :=
      obeys_exec (along_serve s) as w hw
    obtain ⟨⟨id, hmarked⟩, -⟩ := hobeys.answer (mem_of_getElem? ht) hanswer
    obtain ⟨as₁, ok, as₂, h, k, st', heq, hi⟩ := logged_of_exec hw as ht hmarked
    rw [heq, meets_append] at hcond
    obtain ⟨hobeys₁, hknows₁⟩ := knowsCodes_exec hw hcond.1
    obtain ⟨code, hcode, hconsumes⟩ := consumes_of_issues hobeys₁ hknows₁ hi
    refine ⟨code, as₁, ok, as₂, hcode, heq, ?_⟩
    rw [exec_append, exec_cons, exec_nil]
    exact (hi.shared) ▸ hconsumes
  change := by
    intro as₁ a as₂ heq
    rw [heq, meets_append] at hcond
    obtain ⟨hobeys₁, hknows₁⟩ := knowsCodes_exec hw hcond.1
    rw [exec_append, exec_cons, exec_nil]
    exact permitted_step hobeys₁ hknows₁ a

/-- Two recovery codes are stored, and `tok` names a session. -/
def twoCodes : World :=
  { shared :=
      { clock := plainClock
        db :=
          { admin := some (plainAdmin "correct horse battery" 3)
            recoveryCodes := ⟨[⟨1, ⟨"AAAA"⟩, none⟩, ⟨2, ⟨"BBBB"⟩, none⟩], by decide, by decide⟩
            sessions := plainSessions } } }

/-- A call presents `aaaa`, and another replaces the codes. -/
def recoverAndRegenerate : List Label :=
  [.request (.rpc { peer := "1.2.3.4" } { sessionToken := "new" } (.recoverWithCode "aaaa")),
   .request (.rpc { peer := "5.6.7.8", sessionToken := "tok" } { codes := ["CCCC", "DDDD"] }
     (.regenerateRecoveryCodes "correct horse battery" "123456"))]

/-- The one consumes its code before the other stores the new ones. -/
def consumeThenStore : List Label :=
  recoverAndRegenerate ++ runs 0 3 ++ runs 1 13 ++ runs 0 2 ++ runs 1 1 ++ runs 0 7

/-- The call succeeds, having used up `AAAA`, and the new codes are stored. -/
theorem linearizable_of_undisturbed_consumeThenStore :
    Meets (step plainServer) Undisturbed twoCodes consumeThenStore ∧
      Linearizable plainServer twoCodes consumeThenStore ∧
      ((exec (step plainServer) twoCodes (consumeThenStore.take 20)).shared.db.recoveryCodes.rows =
        [⟨1, ⟨"AAAA"⟩, some plainClock⟩, ⟨2, ⟨"BBBB"⟩, none⟩]) ∧
      ((exec (step plainServer) twoCodes consumeThenStore).shared.db.recoveryCodes.rows =
        [⟨1, ⟨"CCCC"⟩, none⟩, ⟨2, ⟨"DDDD"⟩, none⟩]) ∧
      ((exec (step plainServer) twoCodes consumeThenStore).threads.map fun t =>
        t.answer?.any (·.isOk)) = [true, false] := by
  have hmeets : Meets (step plainServer) Undisturbed twoCodes consumeThenStore := by
    decide +kernel
  exact ⟨hmeets, linearizable_of_undisturbed _ _ rfl _ hmeets, by decide +kernel,
    by decide +kernel, by decide +kernel⟩

/-- **Codes replaced between the reading and the consuming**: the call finds `AAAA` first of
the old codes, and consumes `CCCC`, the first of the new ones. -/
theorem not_linearizable_overtaken : ¬Linearizable plainServer twoCodes
      (recoverAndRegenerate ++ runs 0 3 ++ runs 1 14 ++ runs 0 1 ++ [.run 0 true]) := by
  intro h
  have hlast := h.change (recoverAndRegenerate ++ runs 0 3 ++ runs 1 14 ++ runs 0 1)
    (.run 0 true) [] rfl
  exact absurd hlast (by decide +kernel)

end AnimeFeedFlux.Auth
