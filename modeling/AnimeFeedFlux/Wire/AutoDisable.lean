import AnimeFeedFlux.Lib.Table
import AnimeFeedFlux.Rpc.Feed
import AnimeFeedFlux.Schedule.Runner
import AnimeFeedFlux.Wire.Executor

/-!
# Auto-disable

The scheduler counts the failures of a feed in a row and switches the feed off at
`maxConsecutiveFailures`.  The count and the flag are kept twice: in maps of the `Runner`, which
decide about the next dispatch, and in the columns `consecutive_failures` and `enabled`, which are
what a restart reads.  The Runner writes through to the columns; `SetEnabled` and `Update` write
the columns only.

The machine below has the scheduler, the operator and restarts take turns.  A `Ledger` goes along
with it and keeps the books as they should be: how often the feed has failed since it last
succeeded or was enabled, and whether it has been switched off for it.  Nothing reads the ledger.
-/

namespace AnimeFeedFlux

open Machine List

/-- `feedFailureSink.LoadFailures`, as a map. -/
def loadFailures (db : DB) (id : ℕ) : Option ℕ :=
  (db.feeds.find? fun r => r.id == id && r.deletedAt.isNone).map (·.consecutiveFailures)

/-- `WithMaxConsecutiveFailures`; `DefaultMaxConsecutiveFailures` is five. -/
def withMaxConsecutiveFailures (n : ℤ) : ℕ := if 0 < n then n.toNat else 5

theorem withMaxConsecutiveFailures_pos (n : ℤ) : 0 < withMaxConsecutiveFailures n := by
  simp only [withMaxConsecutiveFailures]
  split <;> omega

/-! ## A restart -/

/-- `loadSchedulableFeedRows`, without the order.  One row that does not scan fails the query. -/
def loadSchedulableFeedRows (db : DB) : Except StoreError (List FeedRow) :=
  let rows := db.feeds.filter fun r => r.enabled && r.deletedAt.isNone && r.kind != .aggregate
  if rows.all fun r => (scanFeedRow r).isOk then .ok rows else .error .badTime

/-- The jobs of `buildScheduler`.  `usable` is what makes it skip a recipe that parses: it is
ad hoc, or `Firing` fails.  Without the rows the process does not come up. -/
def buildScheduler (usable : FeedSpec → Bool) (db : DB) : List ℕ :=
  match loadSchedulableFeedRows db with
  | .error _ => []
  | .ok rows => (rows.filter fun r => r.spec.any usable).map (·.id)

def seedFailures (db : DB) (jobs : List ℕ) (id : ℕ) : ℕ :=
  if id ∈ jobs then (loadFailures db id).getD 0 else 0

theorem mem_buildScheduler {usable : FeedSpec → Bool} {db : DB} {id : ℕ}
    (h : id ∈ buildScheduler usable db) :
    ∃ r ∈ db.feeds, r.id = id ∧ r.enabled ∧ r.deletedAt = none := by
  simp only [buildScheduler, loadSchedulableFeedRows] at h
  split at h
  · cases h
  rename_i rows hrows
  obtain ⟨r, hr, rfl⟩ := mem_map.1 h
  split at hrows
  · cases hrows
    have hmem := mem_filter.1 (mem_of_mem_filter hr)
    simp only [Bool.and_eq_true, Option.isNone_iff_eq_none] at hmem
    exact ⟨r, hmem.1, rfl, hmem.2.1.1, hmem.2.1.2⟩
  · cases hrows

/-! ## What comes of an execution -/

/-- What the history of a feed says about an execution. -/
inductive ExecutionResult
  | succeeded
  | failed
  /-- Another run of the feed was in progress. -/
  | refused
  deriving DecidableEq, Repr

/-! ## The operator -/

namespace FeedCall

/-- The feed that the call enables: with `SetEnabled`, or with an `Update` of a feed that is
off. -/
def enables (db : DB) : FeedCall → Option ℕ
  | .setEnabled id expectedVersion true now =>
    if (AnimeFeedFlux.setEnabled db id expectedVersion true now).2.isOk then some id else none
  | .update id expectedVersion feed spec extra now =>
    if (updateFeed db id expectedVersion feed spec extra now).2.isOk && extra.enabled &&
        !(db.feeds.any fun r => r.id == id && r.enabled) then some id
    else none
  | _ => none

/-- Whether the call clears the stored count of the feed that it enables. -/
def clears : FeedCall → Bool
  | .setEnabled .. => true
  | _ => false

end FeedCall

/-! ## The machine -/

/-- The books as they should be. -/
structure Ledger where
  /-- Failed executions since the last successful one, or since the operator enabled the feed. -/
  failed : ℕ → ℕ := fun _ => 0
  /-- The scheduler has switched the feed off, and the operator has not enabled it since. -/
  off : ℕ → Bool := fun _ => false

/-- An execution of `id` has ended, and `off` says whether the scheduler switches it off. -/
def Ledger.record (l : Ledger) (id : ℕ) (res : ExecutionResult) (off : Bool) : Ledger where
  failed :=
    match res with
    | .succeeded => Function.update l.failed id 0
    | .failed => Function.update l.failed id (l.failed id + 1)
    | .refused => l.failed
  off := if off then Function.update l.off id true else l.off

/-- The operator has enabled the feed. -/
def Ledger.enable (l : Ledger) : Option ℕ → Ledger
  | none => l
  | some id => ⟨Function.update l.failed id 0, Function.update l.off id false⟩

/-- The database, the running process and the ledger. -/
structure Accounts where
  db : DB := {}
  jobs : List ℕ := []
  running : ℕ → Bool := fun _ => false
  failures : ℕ → ℕ := fun _ => 0
  disabled : ℕ → Bool := fun _ => false
  /-- The feed that `recordOutcome` is about to disable in the database, with the mutex held. -/
  pending : Option ℕ := none
  ledger : Ledger := {}

/-- What happens next. -/
inductive AccountAct
  /-- The process ends, and another one comes up. -/
  | restart
  /-- The feed is due; `within` is what the gate says apart from the feed's own switch. -/
  | dispatch (id : ℕ) (within : Bool)
  /-- `recordOutcome` up to its first statement. -/
  | finish (id : ℕ) (res : ExecutionResult)
  /-- The second statement of `recordOutcome`. -/
  | disable (now : ℤ)
  | operator (c : FeedCall)

namespace Accounts

/-- `buildScheduler` and the beginning of `Run`.  What was running is gone. -/
def restart (usable : FeedSpec → Bool) (s : Accounts) : Accounts where
  db := s.db
  jobs := buildScheduler usable s.db
  failures := seedFailures s.db (buildScheduler usable s.db)
  ledger := s.ledger

/-- The feed's own switch, as `genGate.Allowed` reads it. -/
def switchedOn (db : DB) (id : ℕ) : Bool :=
  match loadFeedRow db id with
  | .ok (feed, some _) => feed.enabled
  | _ => false

/-- `maybeDispatch`. -/
def dispatch (s : Accounts) (id : ℕ) (within : Bool) : Accounts :=
  if s.pending = none ∧ id ∈ s.jobs ∧ s.disabled id = false ∧ s.running id = false ∧
      switchedOn s.db id = true ∧ within = true then
    { s with running := Function.update s.running id true }
  else s

/-- `recordOutcome` for the error that `Execute` returns, up to its first statement.  `Execute`
returns none for a refused execution. -/
def finish (maxConsecutiveFailures : ℕ) (s : Accounts) (id : ℕ) (res : ExecutionResult) :
    Accounts :=
  if s.pending = none ∧ s.running id = true then
    let r := recordOutcome maxConsecutiveFailures s.failures s.disabled id (res == .failed)
    let off := r.2 id && !s.disabled id
    { s with
      running := Function.update s.running id false
      failures := r.1
      disabled := r.2
      db := if res == .failed then recordFailure s.db id else resetFailures s.db id
      pending := if off then some id else none
      ledger := s.ledger.record id res off }
  else s

/-- The second statement. -/
def disable (s : Accounts) (now : ℤ) : Accounts :=
  match s.pending with
  | none => s
  | some id => { s with db := disableFeed s.db id now, pending := none }

/-- One step. -/
def step (usable : FeedSpec → Bool) (maxConsecutiveFailures : ℕ) (s : Accounts) :
    AccountAct → Accounts
  | .restart => s.restart usable
  | .dispatch id within => s.dispatch id within
  | .finish id res => s.finish maxConsecutiveFailures id res
  | .disable now => s.disable now
  | .operator c => { s with db := c.apply s.db, ledger := s.ledger.enable (c.enables s.db) }

end Accounts

/-! ## The property and the condition -/

/-- A feed is switched off exactly when it has failed too often, and a feed that is on in the
database is not held back. -/
structure AutoDisableExact (maxConsecutiveFailures : ℕ) (s : Accounts) : Prop where
  exact : ∀ id, s.ledger.off id = true ↔ maxConsecutiveFailures ≤ s.ledger.failed id
  /-- What is switched off is off in the database too, as soon as `recordOutcome` returns. -/
  stored : ∀ r ∈ s.db.feeds, s.ledger.off r.id = true → s.pending ≠ some r.id → r.enabled = false
  dispatches : ∀ r ∈ s.db.feeds, r.enabled = true → s.pending ≠ some r.id →
    s.disabled r.id = false

/-- The operator enables a feed only when its counts are zero, an execution is refused only then,
and a restart does not come between the two statements of `recordOutcome`. -/
def KeepsAccounts (s : Accounts) : AccountAct → Prop
  | .restart => s.pending = none
  | .finish id .refused => s.running id = true → s.failures id = 0
  | .operator c => ∀ id ∈ c.enables s.db, s.failures id = 0 ∧
      (c.clears = false → ∀ r ∈ s.db.feeds, r.id = id → r.consecutiveFailures = 0)
  | _ => True

instance (s : Accounts) : (a : AccountAct) → Decidable (KeepsAccounts s a)
  | .restart => inferInstanceAs (Decidable (_ = _))
  | .finish _ .refused => inferInstanceAs (Decidable (_ → _))
  | .finish _ .succeeded | .finish _ .failed | .dispatch .. | .disable _ => isTrue trivial
  | .operator _ => inferInstanceAs (Decidable (∀ id ∈ _, _ ∧ (_ → ∀ r ∈ _, _ → _)))

/-! ## Rows by id -/

/-- The row of a feed, deleted or not. -/
def DB.feedRow (db : DB) (id : ℕ) : Option FeedRow := db.feeds.find? (·.id == id)

variable {db : DB} {r : FeedRow} {g : FeedRow → FeedRow}

theorem DB.feedRow_id {id : ℕ} (h : db.feedRow id = some r) : r.id = id := by
  simpa using find?_some h

theorem DB.feedRow_eq_some (hids : (db.feeds.map (·.id)).Nodup) {id : ℕ} :
    db.feedRow id = some r ↔ r ∈ db.feeds ∧ r.id = id := by
  rw [DB.feedRow, find?_eq_some_of_nodup hids fun _ => beq_iff_eq.1, beq_iff_eq]

theorem DB.feedRow_map (db : DB) (hg : ∀ r, (g r).id = r.id) (id : ℕ) :
    DB.feedRow { db with feeds := db.feeds.map g } id = (db.feedRow id).map g := by
  have hp : (fun r : FeedRow => r.id == id) ∘ g = fun r => r.id == id := by
    funext r
    simp [hg]
  simp only [DB.feedRow, find?_map, hp]

theorem ite_id {p : FeedRow → Bool} (hg : ∀ r, (g r).id = r.id) (r : FeedRow) :
    (if p r then g r else r).id = r.id := by
  split
  · exact hg r
  · rfl

theorem DB.feedRow_updateFeedRow (db : DB) (hg : ∀ r, (g r).id = r.id) (id : ℕ) :
    (db.updateFeedRow id g).feedRow id = (db.feedRow id).map g := by
  rw [DB.updateFeedRow, DB.feedRow_map db (ite_id hg)]
  exact Option.map_congr fun r hr => if_pos (by simp [DB.feedRow_id hr])

theorem DB.feedRow_updateFeedRow_of_ne (db : DB) (hg : ∀ r, (g r).id = r.id) {id id' : ℕ}
    (hne : id' ≠ id) : (db.updateFeedRow id g).feedRow id' = db.feedRow id' := by
  rw [DB.updateFeedRow, DB.feedRow_map db (ite_id hg)]
  cases hr : db.feedRow id' with
  | none => rfl
  | some r =>
    simp [DB.feedRow_id hr, hne]

/-! ## What a call does to a feed -/

/-- What a call does to the row of a feed, as far as it matters here. -/
structure CallSpec (c : FeedCall) (db : DB) (id : ℕ) : Prop where
  /-- A row that was not there is new. -/
  absent : db.feedRow id = none →
    c.enables db ≠ some id ∧ ∀ r ∈ (c.apply db).feedRow id, r.consecutiveFailures = 0
  present : ∀ r, db.feedRow id = some r → ∃ r', (c.apply db).feedRow id = some r' ∧
    (c.enables db = some id →
      r'.consecutiveFailures = if c.clears then 0 else r.consecutiveFailures) ∧
    (c.enables db ≠ some id →
      r'.consecutiveFailures = r.consecutiveFailures ∧ (r'.enabled = true → r.enabled = true))

namespace CallSpec

variable {c : FeedCall} {db : DB} {id : ℕ}

theorem of_unchanged (happly : c.apply db = db) (hon : c.enables db = none) : CallSpec c db id where
  absent hnone := by simp [happly, hnone, hon]
  present r hr := ⟨r, by rw [happly, hr], by simp [hon], fun _ => ⟨rfl, fun hen => hen⟩⟩

theorem of_map {g : FeedRow → FeedRow} (happly : c.apply db = { db with feeds := db.feeds.map g })
    (hg : ∀ r, (g r).id = r.id) (habsent : db.feedRow id = none → c.enables db ≠ some id)
    (hon : ∀ r, db.feedRow id = some r → c.enables db = some id →
      (g r).consecutiveFailures = if c.clears then 0 else r.consecutiveFailures)
    (hoff : ∀ r, db.feedRow id = some r → c.enables db ≠ some id →
      (g r).consecutiveFailures = r.consecutiveFailures ∧
        ((g r).enabled → r.enabled)) : CallSpec c db id where
  absent hnone := ⟨habsent hnone, by simp [happly, DB.feedRow_map db hg, hnone]⟩
  present r hr :=
    ⟨g r, by simp [happly, DB.feedRow_map db hg, hr], hon r hr, hoff r hr⟩

theorem create (feed : FeedIdentity) (spec : FeedSpec) (extra : FeedIdentityExtra) (now : ℤ) :
    CallSpec (.create feed spec extra now) db id := by
  cases hins : feedInsert db feed spec extra now with
  | error e => exact of_unchanged (by simp [FeedCall.apply, hins]) rfl
  | ok r =>
    obtain ⟨-, -, hdb⟩ := feedInsert_ok hins
    have hfeeds : (FeedCall.apply db (.create feed spec extra now)).feedRow id =
        (db.feedRow id).or (if r.2 == id then some (feed.row spec extra r.2 now) else none) := by
      simp [FeedCall.apply, hins, hdb, DB.feedRow, find?_append, FeedIdentity.row]
    constructor
    · intro hnone
      refine ⟨by simp [FeedCall.enables], ?_⟩
      intro x hx
      rw [hfeeds, hnone, Option.none_or] at hx
      split at hx
      · cases hx
        rfl
      · cases hx
    · intro x hx
      exact ⟨x, by simp [hfeeds, hx], by simp [FeedCall.enables],
        fun _ => ⟨rfl, fun hen => hen⟩⟩

/-- An edit of other columns, by a call that enables nothing. -/
theorem of_edits {i v : ℕ} {edit : FeedRow → FeedRow → FeedRow} {reply : Reply Unit}
    (hedits : EditsFeed db i v edit reply) (happly : c.apply db = reply.1)
    (hon : c.enables db = none) (hid : ∀ rec r, (edit rec r).id = r.id)
    (hkeep : ∀ rec r, (edit rec r).consecutiveFailures = r.consecutiveFailures ∧
      (edit rec r).enabled = r.enabled) : CallSpec c db id := by
  rcases hedits with ⟨e, rfl⟩ | ⟨rec, -, -, -, rfl⟩
  · exact of_unchanged happly hon
  refine of_map happly (ite_id (hid rec)) (by simp [hon]) (by simp [hon]) fun r _ _ => ?_
  split
  · obtain ⟨hcount, hen⟩ := hkeep rec r
    exact ⟨hcount, fun h => hen ▸ h⟩
  · exact ⟨rfl, fun hen => hen⟩

theorem id_of_selected {r : FeedRow} {i v : ℕ} (hr : db.feedRow id = some r)
    (hp : (r.id == i && r.version == v)) : i = id := by
  rw [← id_of_match hp, DB.feedRow_id hr]

variable (hids : (db.feeds.map (·.id)).Nodup)
include hids

theorem feedRow_of_require {i : ℕ} {rec : FeedRow} (h : feedRequireFeed db i = .ok rec) :
    db.feedRow i = some rec := by
  obtain ⟨hmem, hid, -⟩ := feedRequireFeed_ok h
  exact (DB.feedRow_eq_some hids).2 ⟨hmem, hid⟩

theorem update (i expectedVersion : ℕ) (feed : FeedIdentity) (spec : FeedSpec)
    (extra : FeedIdentityExtra) (now : ℤ) :
    CallSpec (.update i expectedVersion feed spec extra now) db id := by
  rcases updateFeed_edits db i expectedVersion feed spec extra now with
    ⟨e, he⟩ | ⟨rec, hrec, -, -, hok⟩
  · exact of_unchanged (by simp [FeedCall.apply, he])
      (by simp [FeedCall.enables, he, Except.isOk, Except.toBool])
  have hrow := feedRow_of_require hids hrec
  have hon : FeedCall.enables db (.update i expectedVersion feed spec extra now) = some id ↔
      i = id ∧ extra.enabled = true ∧ rec.enabled = false := by
    have hany : (db.feeds.any fun r => r.id == i && r.enabled) = rec.enabled := by
      rw [Bool.eq_iff_iff, any_eq_true]
      constructor
      · rintro ⟨r, hr, hp⟩
        rw [Bool.and_eq_true, beq_iff_eq] at hp
        rw [← Option.some.inj (((DB.feedRow_eq_some hids).2 ⟨hr, hp.1⟩).symm.trans hrow)]
        exact hp.2
      · intro hen
        obtain ⟨hmem, hid⟩ := (DB.feedRow_eq_some hids).1 hrow
        exact ⟨rec, hmem, by simp [hid, hen]⟩
    simp only [FeedCall.enables, hok, hany, Except.isOk, Except.toBool, Bool.true_and]
    cases extra.enabled <;> cases rec.enabled <;> simp
  refine of_map (congrArg Prod.fst hok) (ite_id fun _ => rfl) ?_ ?_ ?_
  · intro hnone heq
    rw [(hon.1 heq).1, hnone] at hrow
    cases hrow
  · intro r hr heq
    split <;> rfl
  · intro r hr hne
    split
    · rename_i hp
      refine ⟨rfl, fun hen => ?_⟩
      have hid : i = id := id_of_selected hr hp
      subst hid
      obtain rfl := Option.some.inj (hr.symm.trans hrow)
      by_contra hoff
      exact hne (hon.2 ⟨rfl, hen, by simpa using hoff⟩)
    · exact ⟨rfl, fun hen => hen⟩

theorem setEnabled (i expectedVersion : ℕ) (enabled : Bool) (now : ℤ) :
    CallSpec (.setEnabled i expectedVersion enabled now) db id := by
  rcases setEnabled_edits db i expectedVersion enabled now with
    ⟨e, he⟩ | ⟨rec, hrec, hver, -, hok⟩
  · refine of_unchanged (by simp [FeedCall.apply, he]) ?_
    cases enabled with
    | false => rfl
    | true => simp [FeedCall.enables, he, Except.isOk, Except.toBool]
  · have hrow := feedRow_of_require hids hrec
    have hon : FeedCall.enables db (.setEnabled i expectedVersion enabled now) = some id ↔
        i = id ∧ enabled = true := by
      cases enabled with
      | false => simp [FeedCall.enables]
      | true => simp [FeedCall.enables, hok, Except.isOk, Except.toBool]
    refine of_map (congrArg Prod.fst hok) (ite_id fun _ => rfl) ?_ ?_ ?_
    · intro hnone heq
      rw [(hon.1 heq).1, hnone] at hrow
      cases hrow
    · intro r hr heq
      obtain ⟨rfl, rfl⟩ := hon.1 heq
      obtain rfl := Option.some.inj (hr.symm.trans hrow)
      simp [DB.feedRow_id hr, hver, FeedRow.switched, FeedCall.clears]
    · intro r hr hne
      split
      · rename_i hp
        have hid : i = id := id_of_selected hr hp
        have hoff : enabled = false := by
          by_contra hen
          exact hne (hon.2 ⟨hid, by simpa using hen⟩)
        simp [FeedRow.switched, hoff]
      · exact ⟨rfl, fun hen => hen⟩

end CallSpec

theorem callSpec {db : DB} (hids : (db.feeds.map (·.id)).Nodup) (c : FeedCall) (id : ℕ) :
    CallSpec c db id := by
  cases c with
  | create feed spec extra now => exact .create feed spec extra now
  | update i v feed spec extra now => exact .update hids i v feed spec extra now
  | setEnabled i v enabled now => exact .setEnabled hids i v enabled now
  | setMembers i v now =>
    exact .of_edits (setMembers_edits ..) rfl rfl (fun _ _ => rfl) fun _ _ => ⟨rfl, rfl⟩
  | delete i v now =>
    exact .of_edits (deleteFeed_edits ..) rfl rfl (fun _ => ite_id fun _ => rfl) fun _ r => by
      split <;> exact ⟨rfl, rfl⟩

/-! ## The invariant -/

/-- What concerns one feed. -/
structure Account where
  row : Option FeedRow
  job : Bool
  running : Bool
  failures : ℕ
  disabled : Bool
  pending : Bool
  failed : ℕ
  off : Bool

def Accounts.account (s : Accounts) (id : ℕ) : Account where
  row := s.db.feedRow id
  job := decide (id ∈ s.jobs)
  running := s.running id
  failures := s.failures id
  disabled := s.disabled id
  pending := decide (s.pending = some id)
  failed := s.ledger.failed id
  off := s.ledger.off id

/-- The books agree. -/
structure Account.Balanced (m : ℕ) (a : Account) : Prop where
  stored : ∀ r, a.row = some r → r.consecutiveFailures = a.failed
  absent : a.row = none → a.job = false ∧ a.failed = 0
  scheduled : a.job = true → a.failures = a.failed ∧ (a.disabled = true ↔ m ≤ a.failed)
  unscheduled : a.job = false → a.failures = 0 ∧ a.disabled = false ∧ a.running = false
  exact : a.off = true ↔ m ≤ a.failed
  below : a.running = true → a.failed < m
  stopped : ∀ r, a.row = some r → a.off = true → a.pending = false → r.enabled = false
  writing : a.pending = true → a.disabled = true

/-- The invariant. -/
structure Accounts.Balanced (m : ℕ) (s : Accounts) : Prop where
  feeds : UniqueFeeds s.db
  account : ∀ id, (s.account id).Balanced m

namespace Account.Balanced

variable {m : ℕ} {a : Account} (h : a.Balanced m)
include h

theorem of_job (hjob : a.job) : a.row ≠ none := by
  intro hnone
  have := (h.absent hnone).1
  simp [hjob] at this

theorem of_running (hrun : a.running) :
    a.job ∧ a.failures = a.failed ∧ a.disabled = false ∧ a.off = false := by
  have hjob : a.job = true := by
    by_contra hjob
    have := (h.unscheduled (by simpa using hjob)).2.2
    simp [hrun] at this
  obtain ⟨hcount, hdis⟩ := h.scheduled hjob
  have hlt : ¬ m ≤ a.failed := by
    have := h.below hrun
    omega
  refine ⟨hjob, hcount, ?_, ?_⟩
  · rwa [← Bool.not_eq_true, hdis]
  · rwa [← Bool.not_eq_true, h.exact]

theorem dispatch (hjob : a.job) (hdis : a.disabled = false) :
    { a with running := true }.Balanced m :=
  { h with
    unscheduled hj := by simp [hjob] at hj
    below _ := by
      by_contra hle
      have := (h.scheduled hjob).2.2 (by simpa using hle)
      simp [hdis] at this }

/-- An execution ends without an error, and the ledger agrees that the count is zero. -/
theorem reset (hrun : a.running) (hpos : 0 < m) (hp : a.pending = false) : { a with
      row := (a.row.map fun r : FeedRow => { r with consecutiveFailures := 0 })
      running := false, failures := 0, failed := 0 }.Balanced m := by
  obtain ⟨hjob, -, hdis, hoff⟩ := h.of_running hrun
  have hrow := h.of_job hjob
  constructor <;> simp [hjob, hdis, hoff, hp, hrow] <;> omega

theorem fail (hrun : a.running) : { a with
      row := (a.row.map fun r : FeedRow =>
        { r with consecutiveFailures := r.consecutiveFailures + 1 })
      running := false, failures := a.failures + 1, failed := a.failed + 1
      disabled := decide (m ≤ a.failures + 1), pending := decide (m ≤ a.failures + 1)
      off := decide (m ≤ a.failures + 1) }.Balanced m := by
  obtain ⟨hjob, hcount, -, -⟩ := h.of_running hrun
  have hrow := h.of_job hjob
  have hstored := h.stored
  constructor <;> simp [hjob, hcount, hrow]
  · exact hstored
  · omega

theorem disable (now : ℤ) : { a with
      row := (a.row.map fun r : FeedRow =>
        { r with enabled := false, version := r.version + 1, updatedAt := now })
      pending := false }.Balanced m :=
  { h with
    stored r hr := by
      obtain ⟨r', hr', rfl⟩ := Option.map_eq_some_iff.1 hr
      exact h.stored r' hr'
    absent hnone := h.absent (Option.map_eq_none_iff.1 hnone)
    stopped r hr _ _ := by
      obtain ⟨r', -, rfl⟩ := Option.map_eq_some_iff.1 hr
      rfl
    writing hp := by cases hp }

theorem restart (hp : a.pending = false) (job : Bool) (failures : ℕ)
    (hjob : job → failures = a.failed ∧ ∃ r, a.row = some r ∧ r.enabled)
    (hidle : job = false → failures = 0) :
    { a with job, running := false, disabled := false, failures, pending := false }.Balanced m where
  stored := h.stored
  absent hnone := by
    refine ⟨?_, (h.absent hnone).2⟩
    by_contra hj
    obtain ⟨-, r, hr, -⟩ := hjob (by simpa using hj)
    cases (show a.row = none from hnone).symm.trans hr
  scheduled hj := by
    obtain ⟨hcount, r, hr, hen⟩ := hjob hj
    have hoff : ¬ a.off = true := fun hoff => by
      have := h.stopped r hr hoff hp
      simp [hen] at this
    rw [h.exact] at hoff
    exact ⟨hcount, by simpa using hoff⟩
  unscheduled hj := ⟨hidle hj, rfl, rfl⟩
  exact := h.exact
  below hrun := by cases hrun
  stopped r hr hoff _ := h.stopped r hr hoff hp
  writing hp := by cases hp

theorem enable (hpos : 0 < m) (hcount : a.failures = 0) {r : FeedRow}
    (hzero : r.consecutiveFailures = 0) :
    { a with row := some r, failed := 0, off := false }.Balanced m :=
  { h with
    stored x hx := by
      cases hx
      exact hzero
    absent hnone := by cases hnone
    scheduled hjob := by
      obtain ⟨hfailed, hdis⟩ := h.scheduled hjob
      refine ⟨hcount, ?_⟩
      rw [hcount] at hfailed
      rwa [← hfailed] at hdis
    exact := by simpa using hpos.ne'
    below _ := hpos
    stopped _ _ hoff := by cases hoff }

theorem edit (row : Option FeedRow) (habsent : row = none → a.row = none)
    (hrow : ∀ r, row = some r → r.consecutiveFailures = a.failed ∧
      (a.off → a.pending = false → r.enabled = false)) :
    { a with row }.Balanced m :=
  { h with
    stored r hr := (hrow r hr).1
    absent hnone := h.absent (habsent hnone)
    stopped r hr := (hrow r hr).2 }

end Account.Balanced

/-! ## Every step -/

namespace Accounts.Balanced

variable {m : ℕ} {s : Accounts} (h : s.Balanced m)
include h

theorem dispatch (id : ℕ) (within : Bool) : (s.dispatch id within).Balanced m := by
  simp only [Accounts.dispatch]
  split
  · rename_i hd
    refine ⟨h.feeds, fun id' => ?_⟩
    by_cases hid : id' = id
    · subst hid
      have hrun := (h.account id').dispatch (by simpa [Accounts.account] using hd.2.1) hd.2.2.1
      simpa [Accounts.account] using hrun
    · simpa [Accounts.account, Function.update_of_ne hid] using h.account id'
  · exact h

theorem disable (now : ℤ) : (s.disable now).Balanced m := by
  simp only [Accounts.disable]
  split
  · exact h
  rename_i id hp
  refine ⟨h.feeds.updateFeedRow (fun _ => rfl) fun _ => rfl, fun id' => ?_⟩
  by_cases hid : id' = id
  · subst hid
    have hoff := (h.account id').disable now
    simpa [Accounts.account, disableFeed, DB.feedRow_updateFeedRow] using hoff
  · have hkeep := h.account id'
    simpa [Accounts.account, disableFeed, DB.feedRow_updateFeedRow_of_ne, hid, hp, Ne.symm hid]
      using hkeep

theorem restart (usable : FeedSpec → Bool) (hp : s.pending = none) :
    (s.restart usable).Balanced m := by
  refine ⟨h.feeds, fun id => ?_⟩
  have hjob : id ∈ buildScheduler usable s.db → ∃ r, s.db.feedRow id = some r ∧
      r.enabled = true ∧ loadFailures s.db id = some r.consecutiveFailures := by
    intro hmem
    obtain ⟨r, hr, rfl, hen, hlive⟩ := mem_buildScheduler hmem
    have hrow := (DB.feedRow_eq_some h.feeds.ids).2 ⟨hr, rfl⟩
    refine ⟨r, hrow, hen, ?_⟩
    rw [loadFailures, Option.map_eq_some_iff]
    have hid : ∀ x : FeedRow, (x.id == r.id && x.deletedAt.isNone) = true → x.id = r.id := by
      intro x hx
      rw [Bool.and_eq_true, beq_iff_eq] at hx
      exact hx.1
    exact ⟨r, (find?_eq_some_of_nodup h.feeds.ids hid).2 ⟨hr, by simp [hlive]⟩, rfl⟩
  have hseed : id ∈ buildScheduler usable s.db →
      seedFailures s.db (buildScheduler usable s.db) id = s.ledger.failed id := by
    intro hmem
    obtain ⟨r, hr, -, hload⟩ := hjob hmem
    rw [seedFailures, if_pos hmem, hload]
    exact (h.account id).stored r hr
  refine (h.account id).restart (by simp [Accounts.account, hp]) _ _ ?_ ?_
  · intro hmem
    rw [decide_eq_true_eq] at hmem
    obtain ⟨r, hr, hen, -⟩ := hjob hmem
    exact ⟨hseed hmem, r, hr, hen⟩
  · intro hmem
    rw [decide_eq_false_iff_not] at hmem
    exact if_neg hmem

theorem finish (id : ℕ) (res : ExecutionResult) (hpos : 0 < m)
    (hres : res = .refused → s.running id → s.failures id = 0) :
    (s.finish m id res).Balanced m := by
  simp only [Accounts.finish]
  split
  · rename_i hd
    obtain ⟨hp, hrun⟩ := hd
    have hacc := h.account id
    obtain ⟨-, hcount, hdis, hoff⟩ := hacc.of_running hrun
    simp only [Accounts.account] at hcount hdis hoff
    refine ⟨?_, fun id' => ?_⟩
    · dsimp only
      split <;> exact h.feeds.updateFeedRow (fun _ => rfl) fun _ => rfl
    by_cases hid : id' = id
    · subst hid
      cases res with
      | failed =>
        have hfail := hacc.fail hrun
        by_cases hle : m ≤ s.failures id' + 1
        · simpa [Accounts.account, recordOutcome, recordFailure, DB.feedRow_updateFeedRow,
            Ledger.record, hdis, hle] using hfail
        · simpa [Accounts.account, recordOutcome, recordFailure, DB.feedRow_updateFeedRow,
            Ledger.record, hdis, hle, hoff] using hfail
      | succeeded =>
        have hreset := hacc.reset hrun hpos (by simp [Accounts.account, hp])
        simpa [Accounts.account, recordOutcome, resetFailures, DB.feedRow_updateFeedRow,
          Ledger.record, hdis, hp] using hreset
      | refused =>
        have hreset := hacc.reset hrun hpos (by simp [Accounts.account, hp])
        have hzero : s.ledger.failed id' = 0 := hcount.symm.trans (hres rfl hrun)
        simpa [Accounts.account, recordOutcome, resetFailures, DB.feedRow_updateFeedRow,
          Ledger.record, hdis, hzero, hp] using hreset
    · have hkeep := h.account id'
      cases res with
      | failed =>
        by_cases hle : m ≤ s.failures id + 1 <;>
          simpa [Accounts.account, recordOutcome, recordFailure,
            DB.feedRow_updateFeedRow_of_ne, Ledger.record, hdis, hle, hp, hid, Ne.symm hid]
            using hkeep
      | succeeded | refused =>
        simpa [Accounts.account, recordOutcome, resetFailures,
          DB.feedRow_updateFeedRow_of_ne, Ledger.record, hdis, hp, hid] using hkeep
  · exact h

theorem operator (c : FeedCall) (hpos : 0 < m) (hc : ∀ id ∈ c.enables s.db, s.failures id = 0 ∧
      (c.clears = false → ∀ r ∈ s.db.feeds, r.id = id → r.consecutiveFailures = 0)) :
    Accounts.Balanced m
      { s with db := c.apply s.db, ledger := s.ledger.enable (c.enables s.db) } := by
  refine ⟨(c.keeps h.feeds).1, fun id => ?_⟩
  have hspec := callSpec h.feeds.ids c id
  have hacc := h.account id
  by_cases hon : c.enables s.db = some id
  · obtain ⟨hcount, hzero⟩ := hc id hon
    cases hrow : s.db.feedRow id with
    | none => exact absurd hon (hspec.absent hrow).1
    | some r =>
      obtain ⟨r', hr', hclear, -⟩ := hspec.present r hrow
      have hr'0 : r'.consecutiveFailures = 0 := by
        rw [hclear hon]
        split
        · rfl
        rename_i hcl
        obtain ⟨hmem, hid⟩ := (DB.feedRow_eq_some h.feeds.ids).1 hrow
        exact hzero (by simpa using hcl) r hmem hid
      have henable := hacc.enable hpos hcount hr'0
      simpa [Accounts.account, hon, hr', Ledger.enable] using henable
  · have hledger : (s.ledger.enable (c.enables s.db)).failed id = s.ledger.failed id ∧
        (s.ledger.enable (c.enables s.db)).off id = s.ledger.off id := by
      cases hen : c.enables s.db with
      | none => exact ⟨rfl, rfl⟩
      | some id' =>
        have hne : id ≠ id' := fun heq => hon (by rw [hen, heq])
        simp [Ledger.enable, Function.update_of_ne hne]
    have hedit := hacc.edit ((c.apply s.db).feedRow id) ?_ ?_
    · simpa [Accounts.account, hledger] using hedit
    · intro hnone
      by_contra hrow
      obtain ⟨r, hr⟩ := Option.ne_none_iff_exists'.1 hrow
      obtain ⟨r', hr', -⟩ := hspec.present r hr
      cases hnone.symm.trans hr'
    · intro r' hr'
      cases hrow : s.db.feedRow id with
      | none =>
        have hfailed : s.ledger.failed id = 0 := (hacc.absent hrow).2
        refine ⟨((hspec.absent hrow).2 r' hr').trans hfailed.symm, fun hoff => ?_⟩
        have := hacc.exact.1 hoff
        simp only [Accounts.account] at this
        omega
      | some r =>
        obtain ⟨r'', hr'', -, hkeep⟩ := hspec.present r hrow
        obtain rfl := Option.some.inj (hr'.symm.trans hr'')
        obtain ⟨hcount, hen⟩ := hkeep hon
        refine ⟨hcount.trans (hacc.stored r hrow), fun hoff hp => ?_⟩
        by_contra hne
        have := hacc.stopped r hrow hoff hp
        simp [hen (by simpa using hne)] at this

/-- **Every step that meets the condition keeps the books in balance.** -/
theorem step (usable : FeedSpec → Bool) (hpos : 0 < m) (a : AccountAct) (ha : KeepsAccounts s a) :
    (s.step usable m a).Balanced m := by
  cases a with
  | restart => exact h.restart usable ha
  | dispatch id within => exact h.dispatch id within
  | finish id res =>
    refine h.finish id res hpos fun hres => ?_
    subst hres
    exact ha
  | disable now => exact h.disable now
  | operator c => exact h.operator c hpos ha

theorem autoDisableExact : AutoDisableExact m s where
  exact id := (h.account id).exact
  stored r hr hoff hp :=
    (h.account r.id).stopped r ((DB.feedRow_eq_some h.feeds.ids).2 ⟨hr, rfl⟩) hoff
      (by simpa [Accounts.account] using hp)
  dispatches r hr hen hp := by
    have hacc := h.account r.id
    by_contra hdis
    replace hdis : (s.account r.id).disabled = true := by
      simpa [Accounts.account] using hdis
    -- Only a scheduled feed is disabled, and then for the count that is in the ledger too.
    have hjob : (s.account r.id).job = true := by
      by_contra hjob
      have := (hacc.unscheduled (by simpa using hjob)).2.1
      simp [hdis] at this
    have hoff := hacc.exact.2 ((hacc.scheduled hjob).2.1 hdis)
    have := hacc.stopped r ((DB.feedRow_eq_some h.feeds.ids).2 ⟨hr, rfl⟩) hoff
      (by simpa [Accounts.account] using hp)
    simp [hen] at this

end Accounts.Balanced

theorem balanced_empty {m : ℕ} (hpos : 0 < m) : Accounts.Balanced m {} := by
  refine ⟨⟨nodup_nil, nodup_nil⟩, fun id => ?_⟩
  constructor <;> simp [Accounts.account, DB.feedRow]
  omega

/-! ## Whole runs -/

/-- **Auto-disable is exact** in every run whose steps keep the accounts, from the empty database
on, for every limit. -/
theorem autoDisableExact_of_keepsAccounts (usable : FeedSpec → Bool) (n : ℤ)
    (acts : List AccountAct)
    (hacts : Meets (Accounts.step usable (withMaxConsecutiveFailures n)) KeepsAccounts {} acts) :
    Always (Accounts.step usable (withMaxConsecutiveFailures n))
      (AutoDisableExact (withMaxConsecutiveFailures n)) {} acts := by
  have hpos := withMaxConsecutiveFailures_pos n
  have halways : Always (Accounts.step usable (withMaxConsecutiveFailures n))
      (Accounts.Balanced (withMaxConsecutiveFailures n)) {} acts :=
    always_of_meets (fun s a hs ha => Accounts.Balanced.step hs usable hpos a ha) acts _
      (balanced_empty hpos) hacts
  exact halways.mono fun s hs => hs.autoDisableExact

/-- The feed is dispatched and fails, `k` times. -/
def failing (k : ℕ) : List AccountAct :=
  (List.replicate k [.dispatch 1 true, .finish 1 .failed]).flatten

/-- A new feed is scheduled and fails five times. -/
def failsOut : List AccountAct :=
  [.operator (.create { slug := "quiz", title := "Quiz", kind := .generative }
      { kind := .generative } { enabled := true } march2026), .restart] ++
    failing 5 ++ [.disable march2026]

/-- Enabled between two restarts, the feed has its five attempts again. -/
theorem autoDisableExact_of_keepsAccounts_restarted :
    Meets (Accounts.step (fun _ => true) (withMaxConsecutiveFailures 5)) KeepsAccounts {}
        (failsOut ++ [.restart, .operator (.setEnabled 1 2 true march2026), .restart] ++
          failing 5) ∧
      Always (Accounts.step (fun _ => true) (withMaxConsecutiveFailures 5))
        (AutoDisableExact (withMaxConsecutiveFailures 5)) {}
        (failsOut ++ [.restart, .operator (.setEnabled 1 2 true march2026), .restart] ++
          failing 5) :=
  ⟨by decide +kernel, autoDisableExact_of_keepsAccounts _ _ _ (by decide +kernel)⟩

/-- Enabled in the process that has switched it off, the feed stays off. -/
theorem not_autoDisableExact_enabled :
    ¬ Always (Accounts.step (fun _ => true) (withMaxConsecutiveFailures 5))
      (AutoDisableExact (withMaxConsecutiveFailures 5)) {}
      (failsOut ++ [.operator (.setEnabled 1 2 true march2026)]) := by
  intro h
  have hlast := h.last.dispatches
  revert hlast
  decide +kernel

end AnimeFeedFlux
