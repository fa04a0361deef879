import AnimeFeedFlux.Lib.Machine
import AnimeFeedFlux.Lib.Transaction
import AnimeFeedFlux.Ops.Prune

/-!
# Promotions side by side

`PromoteSample` reads the sample's feed and the newest item in statements of their own, and then
tries a transaction, `promoteOnce`, up to six times.  Everything may happen in between: other
calls promote the same sample, it is discarded or pruned, items are inserted.  This module runs
any number of calls one statement or transaction at a time.

The read of the sample protects nothing; what makes a promotion happen once is the `DELETE` of
the transaction, which must find the row.
-/

namespace AnimeFeedFlux

open Machine Transaction List

/-! ## A call -/

/-- The body of `promoteOnce`. -/
def promoteOnceTx (sampleID : ℕ) (item : Item) (now stamp : ℤ) : Tx DB StoreError ℕ := do
  let itemID ← stmt fun db =>
    (insertItemRow db (item.newRow stamp none now)).map (nextID (db.items.map (·.id)), ·)
  update fun db => discardSample db sampleID
  return itemID

theorem eval_promoteOnceTx (db : DB) (sampleID : ℕ) (item : Item) (now stamp : ℤ) :
    (promoteOnceTx sampleID item now stamp).eval db =
      (promoteOnce db sampleID item now stamp).map (nextID (db.items.map (·.id)), ·) := by
  simp only [promoteOnceTx, promoteOnce, eval_bind, eval_stmt, eval_update, eval_pure]
  cases insertItemRow db (item.newRow stamp none now) with
  | error e => rfl
  | ok db' =>
    simp only [Except.map]
    cases discardSample db' sampleID <;> rfl

/-- The arguments of a call. -/
structure PromoteCall where
  sampleID : ℕ
  item : Item

/-- Where a call of `PromoteSample` stands. -/
inductive PromotePhase
  | called
  | foundSample (feedID : ℕ)
  | readNewest (feedID : ℕ) (newest : ℤ)
  | attempting (feedID : ℕ) (stamp : ℤ) (attempt : ℕ)
  | promoted (itemID : ℕ)
  | failed (e : StoreError)
  deriving DecidableEq, Repr

/-- The next step of a call, at a reading of the clock. -/
def PromotePhase.advance (call : PromoteCall) (db : DB) (clock : ℤ)
    (fault : Option (ℕ × StoreError)) : PromotePhase → DB × PromotePhase
  | .called =>
    match (transact (query fun db => db.samples.find? (·.id == call.sampleID)) fault db).2 with
    | .error e => (db, .failed e)
    | .ok none => (db, .failed .notFound)
    | .ok (some s) => (db, .foundSample s.feedID)
  | .foundSample feedID =>
    match (transact (query fun db => newestPublished db feedID) fault db).2 with
    | .error e => (db, .failed e)
    | .ok (.error e) => (db, .failed e)
    | .ok (.ok newest) => (db, .readNewest feedID newest)
  | .readNewest feedID newest => (db, .attempting feedID (promoteStamp clock newest) 0)
  | .attempting feedID stamp attempt =>
    match transact (promoteOnceTx call.sampleID { call.item with feedID } clock stamp)
        fault db with
    | (db', .ok itemID) => (db', .promoted itemID)
    | (db', .error e) =>
      (db', if e = .unique ∧ attempt < promoteTimestampRetries then
              .attempting feedID (stamp + Time.second) (attempt + 1)
            else .failed e)
  | .promoted itemID => (db, .promoted itemID)
  | .failed e => (db, .failed e)

/-- One item more, and the sample is gone. -/
structure Promotion (sampleID : ℕ) (db db' : DB) (itemID : ℕ) : Prop where
  inserted : ∃ row, db'.items = db.items ++ [row] ∧ row.id = itemID
  found : ∃ s ∈ db.samples, s.id = sampleID
  deleted : db'.samples = db.samples.filter (·.id != sampleID)

variable {sampleID i itemID : ℕ}

theorem promotion_of_promoteOnce {db db' : DB} {item : Item} {now stamp : ℤ}
    (h : promoteOnce db sampleID item now stamp = .ok db') :
    Promotion sampleID db db' (nextID (db.items.map (·.id))) := by
  simp only [promoteOnce] at h
  split at h
  · cases h
  rename_i db₁ hins
  obtain ⟨rfl, -⟩ := insertItemRow_ok hins
  simp only [discardSample] at h
  split at h
  · rename_i hany
    cases h
    refine ⟨⟨_, rfl, rfl⟩, ?_, rfl⟩
    simpa using hany
  · cases h

/-- **What a step of a call can do**: nothing to the store, or all of the promotion. -/
theorem PromotePhase.advance_cases (call : PromoteCall) (db : DB) (clock : ℤ)
    (fault : Option (ℕ × StoreError)) (p : PromotePhase) :
    ((p.advance call db clock fault).1 = db ∧
      ∀ itemID, (p.advance call db clock fault).2 = .promoted itemID → p = .promoted itemID) ∨
    ∃ itemID, (p.advance call db clock fault).2 = .promoted itemID ∧
      Promotion call.sampleID db (p.advance call db clock fault).1 itemID := by
  cases p with
  | called =>
    refine .inl ⟨?_, ?_⟩ <;> simp only [advance]
    · split <;> rfl
    intro itemID h
    split at h <;> cases h
  | foundSample feedID =>
    refine .inl ⟨?_, ?_⟩ <;> simp only [advance]
    · split <;> rfl
    intro itemID h
    split at h <;> cases h
  | readNewest feedID newest => exact .inl ⟨rfl, fun itemID h => by cases h⟩
  | attempting feedID stamp attempt =>
    rcases transact_cases (promoteOnceTx call.sampleID { call.item with feedID } clock stamp)
      fault db with ⟨e, htx⟩ | ⟨itemID, db', heval, htx⟩
    · refine .inl ⟨?_, ?_⟩ <;> simp only [advance, htx]
      intro itemID h
      split at h <;> cases h
    refine .inr ⟨itemID, ?_, ?_⟩ <;> simp only [advance, htx]
    rw [eval_promoteOnceTx] at heval
    cases honce : promoteOnce db call.sampleID { call.item with feedID } clock stamp with
    | error e => rw [honce] at heval; cases heval
    | ok d =>
      rw [honce] at heval
      cases heval
      exact promotion_of_promoteOnce honce
  | promoted itemID => exact .inl ⟨rfl, fun _ h => h⟩
  | failed e => exact .inl ⟨rfl, fun itemID h => by cases h⟩

/-! ## The machine -/

/-- The store, and the calls of `PromoteSample` in it. -/
structure SampleDesk where
  db : DB
  phase : ℕ → PromotePhase

/-- What happens at the store: a step of a call, `DiscardSample`, either of the two prunings,
`InsertItem`, or any other write, which may do what it likes to all tables but `samples`. -/
inductive SampleAct
  | advance (i : ℕ) (clock : ℤ) (fault : Option (ℕ × StoreError))
  | discard (sampleID : ℕ) (fault : Option (ℕ × StoreError))
  | pruneStore (now : ℤ)
  | pruneNightly (now : ℤ)
  | insert (it : Item) (now : ℤ)
  | elsewhere (write : DB → DB)

/-- The call that takes the step. -/
def SampleAct.caller : SampleAct → Option ℕ
  | .advance i _ _ => some i
  | _ => none

/-- What an action of somebody else does. -/
def SampleAct.apply (db : DB) : SampleAct → DB
  | .advance .. => db
  | .discard sampleID fault => (transact (update fun db => discardSample db sampleID) fault db).1
  | .pruneStore now => pruneExpiredSamples db now
  | .pruneNightly now => Ops.pruneExpiredSamples db now
  | .insert it now => (insertItem db it now).toOption.getD db
  | .elsewhere write => { write db with samples := db.samples }

variable (calls : ℕ → PromoteCall)

/-- One step. -/
def SampleDesk.step (s : SampleDesk) : SampleAct → SampleDesk
  | .advance i clock fault =>
    let r := (s.phase i).advance (calls i) s.db clock fault
    ⟨r.1, fun j => if j = i then r.2 else s.phase j⟩
  | a => ⟨a.apply s.db, s.phase⟩

/-! ## The properties -/

/-- The step promotes the sample. -/
def SampleDesk.Promotes (s : SampleDesk) (a : SampleAct) (sampleID : ℕ) : Prop :=
  ∃ i ∈ a.caller, (calls i).sampleID = sampleID ∧ (s.step calls a).db.items ≠ s.db.items

/-- No sample is promoted twice. -/
def AtMostOnce (s : SampleDesk) (acts : List SampleAct) : Prop :=
  ∀ before a between b after, acts = before ++ a :: (between ++ b :: after) → ∀ sampleID,
    (exec (SampleDesk.step calls) s before).Promotes calls a sampleID →
    ¬(exec (SampleDesk.step calls) s (before ++ a :: between)).Promotes calls b sampleID

/-- A step of a call inserts one item, deletes the sample and returns the item's id, or does
nothing to the store and does not return one. -/
def Paired (s : SampleDesk) (acts : List SampleAct) : Prop :=
  ∀ before a after, acts = before ++ a :: after → ∀ i ∈ a.caller,
    let s₁ := exec (SampleDesk.step calls) s before
    let s₂ := s₁.step calls a
    (∃ itemID, s₂.phase i = .promoted itemID ∧
      Promotion (calls i).sampleID s₁.db s₂.db itemID) ∨
    (s₂.db = s₁.db ∧ ∀ itemID, s₂.phase i = .promoted itemID → s₁.phase i = .promoted itemID)

/-- A call that returned an error might as well not have run. -/
def Undone (s : SampleDesk) (acts : List SampleAct) : Prop :=
  ∀ i e, (exec (SampleDesk.step calls) s acts).phase i = .failed e →
    (exec (SampleDesk.step calls) s (acts.filter fun a => a.caller ≠ some i)).db =
      (exec (SampleDesk.step calls) s acts).db

/-! ## Steps -/

theorem SampleDesk.step_samples (s : SampleDesk) (a : SampleAct) :
    ∀ x ∈ (s.step calls a).db.samples, x ∈ s.db.samples := by
  intro x hx
  cases a with
  | advance i clock fault =>
    simp only [SampleDesk.step] at hx
    rcases (s.phase i).advance_cases (calls i) s.db clock fault with ⟨hdb, -⟩ | ⟨id, -, hp⟩
    · rw [hdb] at hx
      exact hx
    · rw [hp.deleted] at hx
      exact (mem_filter.1 hx).1
  | discard sampleID fault =>
    simp only [SampleDesk.step, SampleAct.apply] at hx
    rcases transact_cases (update fun db => discardSample db sampleID) fault s.db with
      ⟨e, htx⟩ | ⟨u, db', heval, htx⟩
    · rw [htx] at hx
      exact hx
    rw [htx] at hx
    rw [eval_update] at heval
    simp only [discardSample] at heval
    split at heval
    · cases heval
      exact (mem_filter.1 hx).1
    · cases heval
  | pruneStore now => exact (mem_filter.1 hx).1
  | pruneNightly now => exact (mem_filter.1 hx).1
  | insert it now =>
    simp only [SampleDesk.step, SampleAct.apply] at hx
    cases hins : insertItem s.db it now with
    | error e =>
      rw [hins] at hx
      exact hx
    | ok db' =>
      rw [hins] at hx
      obtain ⟨rfl, -⟩ := insertItemRow_ok hins
      exact hx
  | elsewhere write => exact hx

variable {s : SampleDesk} {a : SampleAct}

theorem SampleDesk.Promotes.promotion (h : s.Promotes calls a sampleID) :
    ∃ itemID, Promotion sampleID s.db (s.step calls a).db itemID := by
  obtain ⟨i, hi, rfl, hitems⟩ := h
  cases a with
  | advance j clock fault =>
    cases hi
    simp only [SampleDesk.step] at hitems ⊢
    rcases (s.phase i).advance_cases (calls i) s.db clock fault with ⟨hdb, -⟩ | ⟨id, -, hp⟩
    · exact absurd (by rw [hdb]) hitems
    · exact ⟨id, hp⟩
  | _ => cases hi

theorem SampleDesk.step_db_of_caller (ha : a.caller = some i)
    (h : ∀ itemID, (s.step calls a).phase i ≠ .promoted itemID) : (s.step calls a).db = s.db := by
  cases a with
  | advance j clock fault =>
    cases ha
    simp only [SampleDesk.step, if_true] at h ⊢
    rcases (s.phase i).advance_cases (calls i) s.db clock fault with ⟨hdb, -⟩ | ⟨id, hp, -⟩
    · exact hdb
    · exact absurd hp (h id)
  | _ => cases ha

theorem SampleDesk.step_promoted (h : s.phase i = .promoted itemID) (a : SampleAct) :
    (s.step calls a).phase i = .promoted itemID := by
  cases a with
  | advance j clock fault =>
    simp only [SampleDesk.step]
    by_cases hij : i = j
    · subst hij
      rw [if_pos rfl, h]
      rfl
    · rw [if_neg hij, h]
  | _ => exact h

theorem SampleDesk.step_phase_of_ne {j : ℕ} (ha : a.caller = some i) (hij : j ≠ i) :
    (s.step calls a).phase j = s.phase j := by
  cases a with
  | advance k clock fault =>
    cases ha
    exact if_neg hij
  | _ => cases ha

/-- Two desks that differ only in the phase of one call take the steps of the others alike. -/
theorem SampleDesk.step_congr {t : SampleDesk} (hdb : s.db = t.db)
    (hphase : ∀ j ≠ i, s.phase j = t.phase j) (ha : a.caller ≠ some i) :
    (s.step calls a).db = (t.step calls a).db ∧
      ∀ j ≠ i, (s.step calls a).phase j = (t.step calls a).phase j := by
  cases a with
  | advance k clock fault =>
    have hk : k ≠ i := fun hk => ha (by rw [hk]; rfl)
    simp only [SampleDesk.step, hdb, hphase k hk, true_and]
    intro j hj
    rw [hphase j hj]
  | _ => exact ⟨by simp only [SampleDesk.step, hdb], hphase⟩

/-! ## Whole histories -/

theorem exec_promoted (acts : List SampleAct) (h : s.phase i = .promoted itemID) :
    (exec (SampleDesk.step calls) s acts).phase i = .promoted itemID :=
  exec_induction (SampleDesk.step calls) (fun s => s.phase i = .promoted itemID)
    (fun _ a hs => SampleDesk.step_promoted calls hs a) acts s h

theorem exec_without {e : StoreError} (acts : List SampleAct) :
    ∀ {s t : SampleDesk}, s.db = t.db → (∀ j ≠ i, s.phase j = t.phase j) →
      (exec (SampleDesk.step calls) s acts).phase i = .failed e →
      (exec (SampleDesk.step calls) t (acts.filter fun a => a.caller ≠ some i)).db =
        (exec (SampleDesk.step calls) s acts).db := by
  induction acts with
  | nil =>
    intro s t hdb hphase hfail
    exact hdb.symm
  | cons a acts ih =>
    intro s t hdb hphase hfail
    rw [exec_cons] at hfail ⊢
    by_cases ha : a.caller = some i
    · rw [filter_cons_of_neg (by simp [ha])]
      refine ih ?_ ?_ hfail
      · rw [← hdb]
        refine SampleDesk.step_db_of_caller calls ha fun itemID hp => ?_
        rw [exec_promoted calls acts hp] at hfail
        cases hfail
      · intro j hj
        rw [SampleDesk.step_phase_of_ne calls ha hj, hphase j hj]
    · rw [filter_cons_of_pos (by simp [ha]), exec_cons]
      obtain ⟨hdb', hphase'⟩ := SampleDesk.step_congr calls hdb hphase ha
      exact ih hdb' hphase' hfail

/-- **Promotion is exactly-once and atomic**, in every history of any number of calls. -/
theorem promotion_exactlyOnce (db : DB) (acts : List SampleAct) :
    AtMostOnce calls ⟨db, fun _ => .called⟩ acts ∧ Paired calls ⟨db, fun _ => .called⟩ acts ∧
      Undone calls ⟨db, fun _ => .called⟩ acts := by
  refine ⟨?_, ?_, ?_⟩
  · intro before a between b after _ sampleID hfirst hsecond
    obtain ⟨id, hp⟩ := hfirst.promotion
    obtain ⟨id', hp'⟩ := hsecond.promotion
    obtain ⟨x, hx, hid⟩ := hp'.found
    -- The row that the second promotion finds was there after the first.
    have hstays := exec_induction (SampleDesk.step calls)
      (fun s => ∀ x ∈ s.db.samples, x.id ≠ sampleID)
      (fun s a hs x hx => hs x (s.step_samples calls a x hx)) between
      ((exec (SampleDesk.step calls) ⟨db, fun _ => .called⟩ before).step calls a) (by
        intro x hx
        rw [hp.deleted] at hx
        simpa using (mem_filter.1 hx).2)
    rw [exec_append, exec_cons] at hx
    exact hstays x hx hid
  · intro before a after _ i hi
    cases a with
    | advance j clock fault =>
      cases hi
      simp only [SampleDesk.step, if_true]
      exact (PromotePhase.advance_cases _ _ clock fault _).symm
    | _ => cases hi
  · intro i e hfail
    exact exec_without calls acts rfl (fun _ _ => rfl) hfail

end AnimeFeedFlux
