import AnimeFeedFlux.Lib.Machine
import AnimeFeedFlux.Generate.Stamp
import AnimeFeedFlux.Rpc.Item

/-!
# One item per second

RSS renders `published_at` with a resolution of one second, so two items of one feed in
one second are one timestamp to a reader.  This module runs the four paths that write
items — a scheduled run, `InsertItem`, `PromoteSample` and `PublishCorrection` — in any
order, with any clock readings, and asks when no second ever holds two items.

Three of the paths write whole seconds, and the index on `published_at` then keeps them
apart.  A scheduled run commits its clock reading untruncated: the index does not see that
`10.5 s` and `10.7 s` render alike.  `SecondFree` is the condition under which each path
still keeps the invariant.
-/

namespace AnimeFeedFlux

open Machine List

/-! ## The machine -/

/-- One use of an item-writing path, each run to its end before the next.  `elsewhere`
stands for every other write: it may replace any table but `items`. -/
inductive ItemWrite
  | scheduled (feedID : ℕ) (slug : String) (runID : ℕ) (valid : List Item) (rs : RunSummary)
      (vecs : List Embedding) (newItemKey : ℤ → String) (clock now : ℤ)
  | insert (it : Item) (now : ℤ)
  | promote (sampleID : ℕ) (item : Item) (clock now : ℤ)
  | correct (req : CorrectionRequest) (newItemKey : ℤ → String) (now : ℤ)
  | elsewhere (db : DB)

/-- The end of a scheduled run: read the newest timestamp, stamp the batch with the run's
clock, commit. -/
def scheduledCommit (lower : Char → Char) (db : DB) (feedID : ℕ) (slug : String) (runID : ℕ)
    (valid : List Item) (rs : RunSummary) (vecs : List Embedding) (newItemKey : ℤ → String)
    (clock now : ℤ) : Except StoreError DB :=
  match newestPublished db feedID with
  | .error e => .error e
  | .ok newest =>
    let items := stampItems lower newItemKey feedID slug valid newest clock
    commitRun db runID items rs (zipEmbeddings items vecs) now

/-- One step: the path's effect, or nothing when it fails. -/
def writeItem (lower : Char → Char) (sanitize : String → String) (db : DB) : ItemWrite → DB
  | .scheduled feedID slug runID valid rs vecs key clock now =>
    (scheduledCommit lower db feedID slug runID valid rs vecs key clock now).toOption.getD db
  | .insert it now => (insertItem db it now).toOption.getD db
  | .promote id item clock now => (promoteSample db id item clock now).toOption.getD db
  | .correct req key now => (publishCorrection sanitize key db req now).1
  | .elsewhere db' => { db' with items := db.items }

/-- For every feed, no two items have the same `published_at` when truncated to whole
seconds. -/
def DistinctSeconds (db : DB) : Prop :=
  db.items.Pairwise fun x y =>
    x.feedID = y.feedID → Time.truncate x.publishedAt ≠ Time.truncate y.publishedAt
deriving Decidable

/-- A timestamp every feed format can render, by the control plane's own check. -/
def Publishable (t : ℤ) : Prop := itemValidatePublishedAt t = .ok ()

/-- What a step must meet to put no second item into a second.

* A scheduled run's clock must not be after the newest item of the feed and in its second.
* `InsertItem` must not be given a second that holds an item with a fraction.
* Every timestamp written must be one the feed formats can render. -/
def SecondFree (db : DB) : ItemWrite → Prop
  | .scheduled feedID _ _ valid _ _ _ clock _ =>
    ∀ newest, newestPublished db feedID = .ok newest →
      (valid ≠ [] → newest ≠ 0 → ¬(newest < clock ∧ Time.seconds newest = Time.seconds clock)) ∧
      ∀ i < valid.length, Publishable (stampBase newest clock + i * Time.second)
  | .insert it _ =>
    Publishable (Time.truncate it.publishedAt) ∧
    ∀ x ∈ db.itemsOf it.feedID, Time.seconds x.publishedAt = Time.seconds it.publishedAt →
      x.publishedAt = Time.truncate x.publishedAt
  | .promote id _ clock _ =>
    ∀ s newest, db.samples.find? (·.id == id) = some s →
      newestPublished db s.feedID = .ok newest →
      ∀ k ≤ promoteTimestampRetries, Publishable (promoteStamp clock newest + k * Time.second)
  | .correct req _ now =>
    ∀ original newest, itemLoadByID db req.correctsItemID = .ok original →
      newestPublished db original.feedID = .ok newest →
      ∀ k ≤ itemTimestampRetries, Publishable (promoteStamp now newest + k * Time.second)
  | .elsewhere _ => True

/-! ## Publishable timestamps -/

variable {t : ℤ} {lower : Char → Char} {key : ℤ → String} {sanitize : String → String}

theorem Publishable.fourDigitYear (h : Publishable t) : FourDigitYear t := by
  rw [Publishable, itemValidatePublishedAt_ok] at h
  exact ⟨by omega, h.2.2⟩

theorem Publishable.ne_zero (h : Publishable t) : t ≠ 0 :=
  (itemValidatePublishedAt_ok.1 h).1

/-! ## The invariant -/

/-- The invariant the runs keep: one item per second, all of them renderable.  It speaks
about slots only, which is all a write changes. -/
structure Spaced (slots : List (ℕ × ℤ)) : Prop where
  distinct : slots.Pairwise fun a b => a.1 = b.1 → Time.seconds a.2 ≠ Time.seconds b.2
  publishable : ∀ a ∈ slots, Publishable a.2

variable {db : DB}

theorem distinctSeconds_iff : DistinctSeconds db ↔
      db.slots.Pairwise fun a b => a.1 = b.1 → Time.seconds a.2 ≠ Time.seconds b.2 := by
  simp [DistinctSeconds, DB.slots, pairwise_map, Item.slot, Time.truncate_inj]

/-- Appending renderable slots of one feed, in distinct seconds that the feed does not use
yet, keeps the invariant. -/
theorem Spaced.append {slots new : List (ℕ × ℤ)} (h : Spaced slots) (feedID : ℕ)
    (hfeed : ∀ b ∈ new, b.1 = feedID) (hpub : ∀ b ∈ new, Publishable b.2)
    (hnew : new.Pairwise fun a b => Time.seconds a.2 ≠ Time.seconds b.2)
    (hfree : ∀ a ∈ slots, a.1 = feedID → ∀ b ∈ new, Time.seconds a.2 ≠ Time.seconds b.2) :
    Spaced (slots ++ new) := by
  refine ⟨?_, ?_⟩
  · rw [pairwise_append]
    refine ⟨h.distinct, hnew.imp (fun {a b} hab (_ : a.1 = b.1) => hab), ?_⟩
    intro a ha b hb hab
    exact hfree a ha (hab.trans (hfeed b hb)) b hb
  · intro a ha
    rcases mem_append.1 ha with ha | ha
    · exact h.publishable a ha
    · exact hpub a ha

theorem mem_slots {a : ℕ × ℤ} : a ∈ db.slots ↔ ∃ x ∈ db.itemsOf a.1, x.publishedAt = a.2 := by
  constructor
  · intro h
    obtain ⟨x, hx, rfl⟩ := mem_map.1 h
    exact ⟨x, DB.mem_itemsOf.2 ⟨hx, rfl⟩, rfl⟩
  · rintro ⟨x, hx, hp⟩
    obtain ⟨hmem, hf⟩ := DB.mem_itemsOf.1 hx
    exact mem_map.2 ⟨x, hmem, Prod.ext hf hp⟩

variable {feedID : ℕ} {m : ℤ}

/-- What the newest-item query tells under the invariant: either the feed has no items, or
no item lies in a later second than the answer. -/
theorem Spaced.newest (h : Spaced db.slots) (hm : newestPublished db feedID = .ok m) :
    (m = 0 ∧ ∀ a ∈ db.slots, a.1 ≠ feedID) ∨
    (m ≠ 0 ∧ ∀ a ∈ db.slots, a.1 = feedID → Time.seconds a.2 ≤ Time.seconds m) := by
  have hpub : ∀ x ∈ db.itemsOf feedID, Publishable x.publishedAt := by
    intro x hx
    obtain ⟨hmem, -⟩ := DB.mem_itemsOf.1 hx
    exact h.publishable _ (mem_map_of_mem hmem)
  have hsec := newestPublished_seconds hm fun x hx => (hpub x hx).fourDigitYear
  rcases newestPublished_ok hm with ⟨hnil, hz⟩ | ⟨⟨x, hx, hxm⟩, -⟩
  · refine .inl ⟨hz, ?_⟩
    rintro a ha rfl
    obtain ⟨x, hx, -⟩ := mem_slots.1 ha
    simp [hnil] at hx
  · refine .inr ⟨hxm ▸ (hpub x hx).ne_zero, ?_⟩
    rintro a ha rfl
    obtain ⟨y, hy, hya⟩ := mem_slots.1 ha
    rw [← hya]
    exact hsec y hy

theorem Spaced.append_after {new : List (ℕ × ℤ)} (h : Spaced db.slots)
    (hm : newestPublished db feedID = .ok m) (hfeed : ∀ b ∈ new, b.1 = feedID)
    (hpub : ∀ b ∈ new, Publishable b.2)
    (hnew : new.Pairwise fun a b => Time.seconds a.2 ≠ Time.seconds b.2)
    (hafter : m ≠ 0 → ∀ b ∈ new, Time.seconds m < Time.seconds b.2) : Spaced (db.slots ++ new) := by
  refine h.append feedID hfeed hpub hnew ?_
  intro a ha haf b hb
  rcases h.newest hm with ⟨-, hnone⟩ | ⟨hz, hle⟩
  · exact absurd haf (hnone a ha)
  have h1 := hle a ha haf
  have h2 := hafter hz b hb
  omega

/-! ## What each path keeps -/

theorem seconds_lt_promoteStamp (clock newest : ℤ) :
    Time.seconds newest < Time.seconds (promoteStamp clock newest) := by
  by_cases hlt : newest < Time.truncate clock
  · rw [promoteStamp, if_pos hlt]
    rw [Time.truncate_eq] at hlt ⊢
    simp only [Time.seconds, Time.second] at hlt ⊢
    omega
  · rw [promoteStamp, if_neg hlt, Time.seconds_add_second]
    omega

variable {clock : ℤ}

/-- A single slot stamped by `promoteStamp`, possibly retried some seconds later. -/
theorem Spaced.append_promoteStamp {k : ℕ} (h : Spaced db.slots)
    (hm : newestPublished db feedID = .ok m)
    (hpub : Publishable (promoteStamp clock m + k * Time.second)) :
    Spaced (db.slots ++ [(feedID, promoteStamp clock m + k * Time.second)]) := by
  refine h.append_after hm (by simp) (by simpa using hpub) (pairwise_singleton _ _) ?_
  intro _ b hb
  obtain rfl := mem_singleton.1 hb
  have := seconds_lt_promoteStamp clock m
  simp only [Time.seconds_add]
  omega

variable {db' : DB} {now : ℤ}

theorem scheduledCommit_spaced {runID : ℕ} {slug : String} {valid : List Item} {rs : RunSummary}
    {vecs : List Embedding} (h : Spaced db.slots)
    (hfree : SecondFree db (.scheduled feedID slug runID valid rs vecs key clock now))
    (hok : scheduledCommit lower db feedID slug runID valid rs vecs key clock now = .ok db') :
    Spaced db'.slots := by
  simp only [scheduledCommit] at hok
  cases hm : newestPublished db feedID with
  | error e => rw [hm] at hok; cases hok
  | ok m =>
    rw [hm] at hok
    obtain ⟨hclock, hpub⟩ := hfree m hm
    rw [commitRun_slots hok]
    refine h.append_after hm ?_ ?_ ?_ ?_
    · intro b hb
      obtain ⟨x, hx, rfl⟩ := mem_map.1 hb
      exact (mem_stampItems hx).1
    · intro b hb
      obtain ⟨x, hx, rfl⟩ := mem_map.1 hb
      obtain ⟨-, i, hi, hp⟩ := mem_stampItems hx
      rw [Item.slot, hp]
      exact hpub i hi
    · rw [pairwise_map]
      exact pairwise_stampItems.imp fun hlt => hlt.ne
    · intro hz b hb
      obtain ⟨x, hx, rfl⟩ := mem_map.1 hb
      obtain ⟨-, i, hi, hp⟩ := mem_stampItems hx
      have hne : valid ≠ [] := by rintro rfl; simp at hi
      have hbase := seconds_lt_stampBase hz (hclock hne hz)
      rw [Item.slot, hp, Time.seconds_add]
      omega

/-- `InsertItem` writes a whole second: an item already in it would be whole as well, and
the index on `published_at` bars that. -/
theorem insertItem_spaced {it : Item} (h : Spaced db.slots) (hfree : SecondFree db (.insert it now))
    (hok : insertItem db it now = .ok db') : Spaced db'.slots := by
  have hslot := insertItemRow_slot_notMem hok
  rw [Item.slot_newRow] at hslot
  rw [insertItem_slots hok]
  refine h.append it.feedID (by simp) (by simpa using hfree.1) (pairwise_singleton _ _) ?_
  intro a ha haf b hb heq
  obtain rfl := mem_singleton.1 hb
  obtain ⟨x, hx, hxa⟩ := mem_slots.1 ha
  rw [haf] at hx
  rw [Time.seconds_truncate, ← hxa] at heq
  have hwhole := hfree.2 x hx heq
  apply hslot
  have hsame : (it.feedID, truncatePublishedAt it.publishedAt) = a := by
    refine Prod.ext haf.symm ?_
    rw [← hxa, hwhole]
    exact Time.truncate_inj.2 heq.symm
  rw [hsame]
  exact ha

theorem promoteSample_spaced {id : ℕ} {item : Item} (h : Spaced db.slots)
    (hfree : SecondFree db (.promote id item clock now))
    (hok : promoteSample db id item clock now = .ok db') : Spaced db'.slots := by
  simp only [promoteSample] at hok
  split at hok
  · cases hok
  rename_i s hs
  split at hok
  · cases hok
  rename_i m hm
  obtain ⟨k, hk, hone⟩ := retryNextSecond_ok hok
  rw [promoteOnce_slots hone]
  exact h.append_promoteStamp hm (hfree s m hs hm k hk)

theorem publishCorrection_spaced {req : CorrectionRequest} (h : Spaced db.slots)
    (hfree : SecondFree db (.correct req key now)) :
    Spaced (publishCorrection sanitize key db req now).1.slots := by
  simp only [publishCorrection]
  split
  · exact h
  rename_i it stamp hprep
  obtain ⟨original, m, horiginal, hm, hfeed, rfl, -⟩ := correctionPrepare_ok hprep
  rw [replyInserted_db]
  cases hloop : retryNextSecond (insertCorrectionOnce db it req.correctsItemID now)
      itemTimestampRetries (promoteStamp now m) with
  | error e => exact h
  | ok db' =>
    obtain ⟨k, hk, hone⟩ := retryNextSecond_ok hloop
    simp only [Except.toOption, Option.getD_some]
    rw [insertCorrectionOnce_slots hone, hfeed]
    exact h.append_promoteStamp hm (hfree original m horiginal hm k hk)

private theorem spaced_getD {r : Except StoreError DB} (h : Spaced db.slots)
    (hok : ∀ db', r = .ok db' → Spaced db'.slots) : Spaced (r.toOption.getD db).slots := by
  cases r with
  | error e => exact h
  | ok db' => exact hok db' rfl

/-- **Every step that meets `SecondFree` keeps the invariant.** -/
theorem writeItem_spaced (db : DB) (a : ItemWrite) (h : Spaced db.slots) (hfree : SecondFree db a) :
    Spaced (writeItem lower sanitize db a).slots := by
  cases a with
  | scheduled feedID slug runID valid rs vecs key clock now =>
    exact spaced_getD h fun db' hok => scheduledCommit_spaced h hfree hok
  | insert it now => exact spaced_getD h fun db' hok => insertItem_spaced h hfree hok
  | promote id item clock now => exact spaced_getD h fun db' hok => promoteSample_spaced h hfree hok
  | correct req key now => exact publishCorrection_spaced h hfree
  | elsewhere db' => exact h

/-! ## Whole runs -/

/-- **One item per second, over every run.**  From a store without items, in every run of
the item-writing paths whose steps all meet `SecondFree`, no state ever holds two items of
one feed in one second. -/
theorem always_distinctSeconds (lower : Char → Char) (sanitize : String → String) (db : DB)
    (hempty : db.items = []) (acts : List ItemWrite)
    (hfree : Meets (writeItem lower sanitize) SecondFree db acts) :
    Always (writeItem lower sanitize) DistinctSeconds db acts := by
  have hstart : Spaced db.slots := by
    rw [DB.slots, hempty]
    exact ⟨List.Pairwise.nil, by simp⟩
  have hrun : Always (writeItem lower sanitize) (fun db => Spaced db.slots) db acts :=
    always_of_meets writeItem_spaced acts db hstart hfree
  exact hrun.mono fun db hdb => distinctSeconds_iff.2 hdb.distinct

/-- `2026-01-01T00:00:00Z`. -/
def newYear2026 : ℤ := 63902822400 * Time.second

/-- A store with one feed and two open runs of it. -/
def twoOpenRuns : DB where
  feeds := [{ id := 1, slug := "daily", title := "Daily", kind := .generative, enabled := true,
              createdAt := newYear2026, updatedAt := newYear2026 }]
  runs := [{ id := 1, feedID := 1, startedAt := newYear2026, status := .running, trigger := .cron },
           { id := 2, feedID := 1, startedAt := newYear2026, status := .running,
             trigger := .manual }]

/-- A scheduled commit of one item of that feed, `nanos` after the new year. -/
def commitAt (runID : ℕ) (title : String) (nanos : ℤ) : ItemWrite :=
  .scheduled 1 "daily" runID
    [{ feedID := 1, itemKey := "", contentHash := ⟨""⟩, title, publishedAt := 0,
       origin := .generated }]
    {} [] (fun t => toString t) (newYear2026 + nanos) (newYear2026 + nanos)

/-- Two commits three seconds apart meet the condition. -/
theorem always_distinctSeconds_twoOpenRuns :
    Meets (writeItem Char.toLower id) SecondFree twoOpenRuns
      [commitAt 1 "A" 10500000000, commitAt 2 "B" 13700000000] ∧
    Always (writeItem Char.toLower id) DistinctSeconds twoOpenRuns
      [commitAt 1 "A" 10500000000, commitAt 2 "B" 13700000000] := by
  have hmeets : Meets (writeItem Char.toLower id) SecondFree twoOpenRuns
      [commitAt 1 "A" 10500000000, commitAt 2 "B" 13700000000] := by
    have hfirst : newestPublished twoOpenRuns 1 = .ok 0 := by decide +kernel
    have hsecond : newestPublished
        (writeItem Char.toLower id twoOpenRuns (commitAt 1 "A" 10500000000)) 1 =
          .ok (newYear2026 + 10500000000) := by decide +kernel
    refine ⟨?_, ?_, trivial⟩
    · intro newest hnewest
      obtain rfl := Except.ok.inj (hfirst.symm.trans hnewest)
      exact ⟨fun _ h => absurd rfl h, by unfold Publishable; decide +kernel⟩
    · intro newest hnewest
      obtain rfl := Except.ok.inj (hsecond.symm.trans hnewest)
      exact ⟨fun _ _ => by decide +kernel, by unfold Publishable; decide +kernel⟩
  exact ⟨hmeets, always_distinctSeconds _ _ _ rfl _ hmeets⟩

/-- **Two runs in one second do not keep apart**: commits at `10.5 s` and `10.7 s` both go
through and render with one timestamp. -/
theorem not_always_distinctSeconds : ¬Always (writeItem Char.toLower id) DistinctSeconds twoOpenRuns
      [commitAt 1 "A" 10500000000, commitAt 2 "B" 10700000000] := by
  intro h
  exact absurd h.last (by decide +kernel)

end AnimeFeedFlux
