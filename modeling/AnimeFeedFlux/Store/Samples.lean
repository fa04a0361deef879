import AnimeFeedFlux.Store.Runs
import Mathlib.Tactic.Ring

/-!
# Samples and the spend ledger

A sample is a generation that published nothing.  Its row is deleted when it expires, is
discarded or is promoted to an item; what it cost stays in `sample_spend`, which nothing
deletes from.  `totalSpendSince` adds the two ledgers.

Promotion stamps the item after the feed's newest one and retries one second later when the
insert violates a `UNIQUE` constraint, any of them.
-/

namespace AnimeFeedFlux

/-! ## The sample rows -/

/-- `Store.PutSample`: the sample and its spend, in one transaction. -/
def putSample (db : DB) (feedID : ℕ) (payload : String) (tokensIn tokensOut : ℕ) (costUSD : ℚ)
    (ttl now : ℤ) : Except StoreError (DB × ℕ) :=
  if db.feeds.any (·.id == feedID) then
    let id := nextID (db.samples.map (·.id))
    .ok ({ db with
        samples := db.samples ++ [{ id, feedID, createdAt := now, expiresAt := now + ttl,
                                    payload, tokensIn, tokensOut, costUSD }],
        sampleSpend := db.sampleSpend ++
          [{ id := nextID (db.sampleSpend.map (·.id)), feedID, spentAt := now,
             tokensIn, tokensOut, costUSD }] }, id)
  else .error .foreignKey

def discardSample (db : DB) (id : ℕ) : Except StoreError DB :=
  if db.samples.any (·.id == id) then
    .ok { db with samples := db.samples.filter (·.id != id) }
  else .error .notFound

/-- `Store.PruneExpiredSamples`: `DELETE FROM samples WHERE expires_at <= ?`, over the
texts. -/
def pruneExpiredSamples (db : DB) (now : ℤ) : DB :=
  { db with samples := db.samples.filter fun s => !(formatTime s.expiresAt ≤ formatTime now) }

/-! ## What the budget gates read -/

/-- `at >= ?` with, for a feed id other than `0`, `feed_id = ?`. -/
def SampleSpend.countedSince (s : SampleSpend) (feedID : ℕ) (since : ℤ) : Bool :=
  decide (formatTime since ≤ formatTime s.spentAt) && (feedID == 0 || s.feedID == feedID)

def sampleSpendSince (db : DB) (feedID : ℕ) (since : ℤ) : Spend :=
  let ss := db.sampleSpend.filter (·.countedSince feedID since)
  ⟨(ss.map (·.tokensIn)).sum, (ss.map (·.tokensOut)).sum, (ss.map (·.costUSD)).sum⟩

/-- `Store.TotalSpendSince`: runs plus previews. -/
def totalSpendSince (db : DB) (feedID : ℕ) (since : ℤ) : Spend :=
  let r := spendSince db feedID since
  let s := sampleSpendSince db feedID since
  ⟨r.tokensIn + s.tokensIn, r.tokensOut + s.tokensOut, r.costUSD + s.costUSD⟩

/-- `countRunsSince`: `SELECT COUNT(*) FROM runs WHERE feed_id = ? AND started_at >= ?`. -/
def countRunsSince (db : DB) (feedID : ℕ) (since : ℤ) : ℕ :=
  db.runs.countP fun r =>
    r.feedID == feedID && decide (formatTime since ≤ formatTime r.startedAt)

/-! ## Promotion -/

/-- Run `attempt` at `stamp`, and on a `UNIQUE` violation again one second later, at most
`retries` more times. -/
def retryNextSecond (attempt : ℤ → Except StoreError DB) : ℕ → ℤ → Except StoreError DB
  | 0, stamp => attempt stamp
  | retries + 1, stamp =>
    match attempt stamp with
    | .error .unique => retryNextSecond attempt retries (stamp + Time.second)
    | r => r

variable {db' : DB}

/-- The loop succeeds with one of its attempts, some whole seconds after the first. -/
theorem retryNextSecond_ok {attempt : ℤ → Except StoreError DB} {retries : ℕ} :
    ∀ {stamp : ℤ}, retryNextSecond attempt retries stamp = .ok db' →
      ∃ k : ℕ, k ≤ retries ∧ attempt (stamp + k * Time.second) = .ok db' := by
  induction retries with
  | zero =>
    intro stamp h
    exact ⟨0, le_refl 0, by simpa [retryNextSecond] using h⟩
  | succ n ih =>
    intro stamp h
    simp only [retryNextSecond] at h
    split at h
    · obtain ⟨k, hk, hok⟩ := ih h
      refine ⟨k + 1, by omega, ?_⟩
      have : stamp + ((k + 1 : ℕ) : ℤ) * Time.second
          = stamp + Time.second + k * Time.second := by push_cast; ring
      rw [this]
      exact hok
    · exact ⟨0, by omega, by simpa using h⟩

def promoteTimestampRetries : ℕ := 5

/-- The stamp `PromoteSample` starts from: the clock's whole second if that is after the
newest item, otherwise one second after the newest. -/
def promoteStamp (clock newest : ℤ) : ℤ :=
  if newest < Time.truncate clock then Time.truncate clock else newest + Time.second

/-- `promoteOnce`: insert the item at `stamp` and delete the sample, in one transaction. -/
def promoteOnce (db : DB) (sampleID : ℕ) (item : Item) (now stamp : ℤ) : Except StoreError DB :=
  match insertItemRow db (item.newRow stamp none now) with
  | .error e => .error e
  | .ok db' => discardSample db' sampleID

variable {db : DB} {id : ℕ}

theorem discardSample_items (h : discardSample db id = .ok db') : db'.items = db.items := by
  simp only [discardSample] at h
  split at h
  · cases h; rfl
  · cases h

theorem discardSample_feeds (h : discardSample db id = .ok db') : db'.feeds = db.feeds := by
  simp only [discardSample] at h
  split at h
  · cases h; rfl
  · cases h

variable {sampleID : ℕ} {item : Item} {now stamp : ℤ}

section
variable (h : promoteOnce db sampleID item now stamp = .ok db')
include h

theorem promoteOnce_feeds : db'.feeds = db.feeds := by
  simp only [promoteOnce] at h
  split at h
  · cases h
  rename_i db₁ hins
  rw [discardSample_feeds h, insertItemRow_feeds hins]

theorem promoteOnce_rows :
    ∀ x ∈ db'.items, x ∈ db.items ∨ ∃ id, x = { item.newRow stamp none now with id } := by
  simp only [promoteOnce] at h
  split at h
  · cases h
  rename_i db₁ hins
  rw [discardSample_items h]
  exact insertItemRow_rows hins

theorem promoteOnce_slots : db'.slots = db.slots ++ [(item.feedID, stamp)] := by
  simp only [promoteOnce] at h
  split at h
  · cases h
  rename_i db₁ hins
  have hslots := insertItemRow_slots hins
  rw [Item.slot_newRow] at hslots
  rw [← hslots, DB.slots, DB.slots, discardSample_items h]

end

/-- `Store.PromoteSample`, run without interruption: `clock` stamps the item, `now` its
`created_at`. -/
def promoteSample (db : DB) (id : ℕ) (item : Item) (clock now : ℤ) : Except StoreError DB :=
  match db.samples.find? (·.id == id) with
  | none => .error .notFound
  | some s =>
    match newestPublished db s.feedID with
    | .error e => .error e
    | .ok newest =>
      retryNextSecond (promoteOnce db id { item with feedID := s.feedID } now)
        promoteTimestampRetries (promoteStamp clock newest)

theorem promoteSample_ok {clock : ℤ} (h : promoteSample db id item clock now = .ok db') :
    ∃ feedID stamp, promoteOnce db id { item with feedID } now stamp = .ok db' := by
  simp only [promoteSample] at h
  split at h
  · cases h
  split at h
  · cases h
  obtain ⟨k, -, honce⟩ := retryNextSecond_ok h
  exact ⟨_, _, honce⟩

end AnimeFeedFlux
