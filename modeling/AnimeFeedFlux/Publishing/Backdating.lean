import AnimeFeedFlux.Publishing.PubDates

/-!
# No backdating

A reader that remembers the newest timestamp it has seen never shows an item dated at or
before it, so an item must be dated after every item of its feed that was there before.
Each path reads the feed's newest timestamp in one statement and inserts in another
transaction.  This module runs `Create`, `PublishCorrection`, `PromoteSample` and
generation runs side by side, one statement or transaction at a time, and asks when the
items of a feed appear in the order of their timestamps.

A call that was overtaken between its read and its insert can still commit a stamp from
before the overtaking item.  `NotOvertaken` is the condition on a committing attempt.
-/

namespace AnimeFeedFlux

open Machine List

/-! ## Calls in flight -/

/-- The transaction a call is about to issue. -/
inductive Write
  | create (it : Item) (created : ℤ)
  | promote (sampleID : ℕ) (item : Item) (now : ℤ)
  | correct (it : Item) (correctsID : ℕ) (now : ℤ)
  | commit (runID : ℕ) (items : List Item) (rs : RunSummary)
      (embeddings : List (String × Embedding)) (now : ℤ)

/-- A call that has read the feed's newest timestamp and has not yet written.  `own` is the
time the call would use on its own: the requested time, the clock, or the clock's whole
second.  `stamp` is the time its next attempt uses. -/
structure Pending where
  feedID : ℕ
  newest : ℤ
  own : ℤ
  stamp : ℤ
  retries : ℕ
  write : Write

/-- A call between two of its statements. -/
inductive Thread
  /-- `PromoteSample` after reading the sample's feed. -/
  | promoting (sampleID feedID : ℕ) (item : Item)
  /-- Any call after reading the newest timestamp. -/
  | pending (p : Pending)

/-- The store and the calls in flight. -/
structure Plane where
  db : DB
  threads : List Thread := []

/-- One statement or transaction of some call; `i` is the position of the call among those
in flight.  `elsewhere` is any write that leaves `items` alone. -/
inductive Action
  | create (req : CreateRequest) (newItemKey : ℤ → String) (now created : ℤ)
  | correct (req : CorrectionRequest) (newItemKey : ℤ → String) (now : ℤ)
  | promote (sampleID : ℕ) (item : Item)
  | promoteNewest (i : ℕ) (clock now : ℤ)
  | generate (feedID : ℕ) (slug : String) (runID : ℕ) (valid : List Item) (rs : RunSummary)
      (vecs : List Embedding) (newItemKey : ℤ → String) (clock now : ℤ)
  | attempt (i : ℕ)
  | abandon (i : ℕ)
  | elsewhere (db : DB)

/-- The transaction of a pending call, at its current stamp. -/
def Pending.run (p : Pending) (db : DB) : Except StoreError DB :=
  match p.write with
  | .create it created => insertItem db { it with publishedAt := p.stamp } created
  | .promote sampleID item now => promoteOnce db sampleID item now p.stamp
  | .correct it correctsID now => insertCorrectionOnce db it correctsID now p.stamp
  | .commit runID items rs embeddings now => commitRun db runID items rs embeddings now

/-- The pending call of a generation run that read `newest` and stamped its batch. -/
def pendingCommit (lower : Char → Char) (feedID : ℕ) (slug : String) (runID : ℕ)
    (valid : List Item) (rs : RunSummary) (vecs : List Embedding) (newItemKey : ℤ → String)
    (newest clock now : ℤ) : Pending :=
  let items := stampItems lower newItemKey feedID slug valid newest clock
  { feedID, newest, own := clock, stamp := stampBase newest clock, retries := 0,
    write := .commit runID items rs (zipEmbeddings items vecs) now }

/-- One step of the plane.  A call that fails leaves; a call whose insert violates a
`UNIQUE` constraint stays with its stamp moved by a second while it has retries left. -/
def act (lower : Char → Char) (sanitize : String → String) (s : Plane) : Action → Plane
  | .create req key now created =>
    match createPrepare sanitize key s.db req now, newestPublished s.db req.feedID with
    | .ok (it, stamp), .ok newest =>
      { s with threads := s.threads ++ [.pending
          { feedID := req.feedID, newest, own := stamp, stamp,
            retries := itemTimestampRetries, write := .create it created }] }
    | _, _ => s
  | .correct req key now =>
    match correctionPrepare sanitize key s.db req now with
    | .ok (it, stamp) =>
      match newestPublished s.db it.feedID with
      | .ok newest =>
        { s with threads := s.threads ++ [.pending
            { feedID := it.feedID, newest, own := Time.truncate now, stamp,
              retries := itemTimestampRetries,
              write := .correct it req.correctsItemID now }] }
      | .error _ => s
    | .error _ => s
  | .promote sampleID item =>
    match s.db.samples.find? (·.id == sampleID) with
    | some row => { s with threads := s.threads ++ [.promoting sampleID row.feedID item] }
    | none => s
  | .promoteNewest i clock now =>
    match s.threads[i]? with
    | some (.promoting sampleID feedID item) =>
      match newestPublished s.db feedID with
      | .ok newest =>
        { s with threads := s.threads.set i (.pending
            { feedID, newest, own := Time.truncate clock,
              stamp := promoteStamp clock newest, retries := promoteTimestampRetries,
              write := .promote sampleID { item with feedID } now }) }
      | .error _ => { s with threads := s.threads.eraseIdx i }
    | _ => s
  | .generate feedID slug runID valid rs vecs key clock now =>
    match newestPublished s.db feedID with
    | .ok newest =>
      { s with threads := s.threads ++ [.pending
          (pendingCommit lower feedID slug runID valid rs vecs key newest clock now)] }
    | .error _ => s
  | .attempt i =>
    match s.threads[i]? with
    | some (.pending p) =>
      match p.run s.db with
      | .ok db => { db, threads := s.threads.eraseIdx i }
      | .error e =>
        if e = .unique ∧ 0 < p.retries then
          { s with threads := s.threads.set i (.pending
              { p with stamp := p.stamp + Time.second, retries := p.retries - 1 }) }
        else { s with threads := s.threads.eraseIdx i }
    | _ => s
  | .abandon i => { s with threads := s.threads.eraseIdx i }
  | .elsewhere db => { s with db := { db with items := s.db.items } }

/-- Items of a feed appear in the order of their timestamps: every item is strictly later
than every item of its feed that was committed before it. -/
def NoBackdating (db : DB) : Prop :=
  db.items.Pairwise fun x y => x.feedID = y.feedID → x.publishedAt < y.publishedAt
deriving Decidable

/-- A call about to write was not overtaken: every item now in its feed is either not later
than the newest one the call read, or earlier than the call's own time. -/
def Thread.NotOvertaken (db : DB) : Thread → Prop
  | .promoting .. => True
  | .pending p =>
    ∀ x ∈ db.itemsOf p.feedID,
      (p.newest ≠ 0 ∧ x.publishedAt ≤ p.newest) ∨ x.publishedAt < p.own

instance (db : DB) : (t : Thread) → Decidable (t.NotOvertaken db)
  | .promoting .. => isTrue trivial
  | .pending p => inferInstanceAs (Decidable (∀ x ∈ db.itemsOf p.feedID, _))

/-- The condition on a step: a call that attempts its write was not overtaken. -/
def NotOvertaken (s : Plane) : Action → Prop
  | .attempt i => ∀ t ∈ s.threads[i]?, t.NotOvertaken s.db
  | _ => True

/-! ## What a pending call knows -/

/-- What a transaction writes: items of the call's feed, none before its stamp, each later
than the one before. -/
def Write.Respects (feedID : ℕ) (stamp : ℤ) : Write → Prop
  | .create it _ => it.feedID = feedID ∧ Time.truncate stamp = stamp
  | .promote _ item _ => item.feedID = feedID
  | .correct it _ _ => it.feedID = feedID
  | .commit _ items _ _ _ =>
    (∀ x ∈ items, x.feedID = feedID ∧ stamp ≤ x.publishedAt) ∧
    items.Pairwise fun x y => x.publishedAt < y.publishedAt

/-- A call's stamp is after the newest item it read, and not before its own time. -/
structure Pending.Sound (p : Pending) : Prop where
  after : p.newest ≠ 0 → p.newest < p.stamp
  own_le : p.own ≤ p.stamp
  respects : p.write.Respects p.feedID p.stamp
  once : 0 < p.retries → ∀ a b c d e, p.write ≠ .commit a b c d e

variable {t newest : ℤ} {p : Pending} {lower : Char → Char}

theorem lt_of_truncate_lt {m : ℤ} (ht : Time.truncate t = t) (h : Time.truncate m < t) : m < t := by
  rw [← ht] at h ⊢
  simp only [Time.truncate, Time.second] at *
  omega

theorem Publishable.pos (h : Publishable t) : 0 < t := by
  obtain ⟨hz, hy, -⟩ := itemValidatePublishedAt_ok.1 h
  by_contra hle
  have hmono : Time.year t ≤ Time.year (-1) := Time.year_mono (by omega)
  have : Time.year (-1) = 0 := by decide +kernel
  omega

theorem lt_promoteStamp (clock newest : ℤ) : newest < promoteStamp clock newest :=
  Time.lt_of_seconds_lt (seconds_lt_promoteStamp clock newest)

theorem truncate_le_promoteStamp (clock newest : ℤ) :
    Time.truncate clock ≤ promoteStamp clock newest := by
  by_cases hlt : newest < Time.truncate clock
  · rw [promoteStamp, if_pos hlt]
  have := lt_promoteStamp clock newest
  rw [promoteStamp, if_neg hlt] at this ⊢
  omega

theorem lt_stampBase (now : ℤ) (h : newest ≠ 0) : newest < stampBase newest now := by
  by_cases hlt : newest < now
  · simp [stampBase, hlt]
  have hbase : stampBase newest now = newest + Time.second := by
    simp [stampBase, Time.isZero, h, hlt]
  rw [hbase, Time.second]
  omega

theorem le_stampBase (newest now : ℤ) : now ≤ stampBase newest now := by
  by_cases hz : newest = 0
  · simp [stampBase, Time.isZero, hz]
  by_cases hlt : newest < now
  · simp [stampBase, hlt]
  · have := lt_stampBase now hz
    omega

variable {sanitize : String → String} {db : DB}

theorem createPrepare_after {key : ℤ → String} {req : CreateRequest} {now stamp : ℤ} {it : Item}
    (h : createPrepare sanitize key db req now = .ok (it, stamp))
    (hn : newestPublished db req.feedID = .ok newest) :
    it.feedID = req.feedID ∧ Time.truncate stamp = stamp ∧ newest < stamp := by
  obtain ⟨hfeed, rfl, hvalid, m, hm, hback⟩ := createPrepare_ok h
  obtain rfl := Except.ok.inj (hm.symm.trans hn)
  have hwhole := Time.truncate_truncate (req.publishedAt.getD now)
  refine ⟨hfeed, hwhole, lt_of_truncate_lt hwhole ?_⟩
  rcases hback with hz | hlt
  · rw [hz]
    exact Publishable.pos hvalid
  · exact hlt

theorem pendingCommit_sound (lower : Char → Char) (feedID : ℕ) (slug : String) (runID : ℕ)
    (valid : List Item) (rs : RunSummary) (vecs : List Embedding) (key : ℤ → String)
    (newest clock now : ℤ) :
    (pendingCommit lower feedID slug runID valid rs vecs key newest clock now).Sound where
  after := lt_stampBase clock
  own_le := le_stampBase newest clock
  respects := by
    refine ⟨?_, pairwise_stampItems.imp Time.lt_of_seconds_lt⟩
    intro x hx
    obtain ⟨hf, i, -, hp⟩ := mem_stampItems hx
    refine ⟨hf, ?_⟩
    simp only [pendingCommit, hp, Time.second]
    omega
  once := fun h => absurd h (lt_irrefl 0)

theorem Pending.Sound.retry (h : p.Sound) (hr : 0 < p.retries) (n : ℕ) :
    ({ p with stamp := p.stamp + Time.second, retries := n } : Pending).Sound where
  after := by
    intro hz
    have := h.after hz
    simp only [Time.second]
    omega
  own_le := by
    have := h.own_le
    simp only [Time.second]
    omega
  respects := by
    have hw := h.respects
    cases hwrite : p.write with
    | create it created =>
      rw [hwrite] at hw
      refine ⟨hw.1, ?_⟩
      have := hw.2
      simp only [Time.truncate, Time.second] at *
      omega
    | promote sampleID item now => rw [hwrite] at hw; exact hw
    | correct it correctsID now => rw [hwrite] at hw; exact hw
    | commit runID items rs embeddings now => exact absurd hwrite (h.once hr _ _ _ _ _)
  once := fun _ => h.once hr

theorem Pending.Sound.run_slots (h : p.Sound) {db' : DB} (hok : p.run db = .ok db') :
    ∃ new, db'.slots = db.slots ++ new ∧ (∀ b ∈ new, b.1 = p.feedID ∧ p.stamp ≤ b.2) ∧
      new.Pairwise fun a b => a.2 < b.2 := by
  have hr := h.respects
  simp only [Pending.run] at hok
  cases hwrite : p.write with
  | create it created =>
    rw [hwrite] at hok hr
    have hslots := insertItem_slots hok
    refine ⟨_, hslots, ?_, pairwise_singleton _ _⟩
    intro b hb
    obtain rfl := mem_singleton.1 hb
    exact ⟨hr.1, hr.2.ge⟩
  | promote sampleID item now =>
    rw [hwrite] at hok hr
    refine ⟨_, promoteOnce_slots hok, ?_, pairwise_singleton _ _⟩
    intro b hb
    obtain rfl := mem_singleton.1 hb
    exact ⟨hr, le_refl _⟩
  | correct it correctsID now =>
    rw [hwrite] at hok hr
    refine ⟨_, insertCorrectionOnce_slots hok, ?_, pairwise_singleton _ _⟩
    intro b hb
    obtain rfl := mem_singleton.1 hb
    exact ⟨hr, le_refl _⟩
  | commit runID items rs embeddings now =>
    rw [hwrite] at hok hr
    refine ⟨_, commitRun_slots hok, ?_, pairwise_map.2 hr.2⟩
    intro b hb
    obtain ⟨x, hx, rfl⟩ := mem_map.1 hb
    exact hr.1 x hx

/-! ## Steps and runs -/

theorem noBackdating_iff :
    NoBackdating db ↔ db.slots.Pairwise fun a b => a.1 = b.1 → a.2 < b.2 := by
  simp [NoBackdating, DB.slots, pairwise_map, Item.slot]

/-- Every call in flight knows what it read. -/
def Plane.Sound (s : Plane) : Prop := ∀ p, .pending p ∈ s.threads → p.Sound

/-- The invariant the runs keep. -/
structure Plane.Ordered (s : Plane) : Prop where
  slots : s.db.slots.Pairwise fun a b => a.1 = b.1 → a.2 < b.2
  sound : ∀ p, .pending p ∈ s.threads → p.Sound

variable {s : Plane}

theorem Plane.Sound.push (h : s.Sound) {t : Thread} (ht : ∀ p, t = .pending p → p.Sound) :
    ({ s with threads := s.threads ++ [t] } : Plane).Sound := by
  intro p hp
  rcases mem_append.1 hp with hp | hp
  · exact h p hp
  · exact ht p (mem_singleton.1 hp).symm

theorem Plane.Sound.erase (h : s.Sound) (db : DB) (i : ℕ) :
    ({ db, threads := s.threads.eraseIdx i } : Plane).Sound :=
  fun p hp => h p (mem_of_mem_eraseIdx hp)

theorem Plane.Sound.set (h : s.Sound) (i : ℕ) {q : Pending} (hq : q.Sound) :
    ({ s with threads := s.threads.set i (.pending q) } : Plane).Sound := by
  intro p hp
  rcases mem_or_eq_of_mem_set hp with hp | hp
  · exact h p hp
  cases hp
  exact hq

/-- **Every step keeps what the calls know.** -/
theorem act_sound (s : Plane) (a : Action) (h : s.Sound) : (act lower sanitize s a).Sound := by
  cases a with
  | create req key now created =>
    simp only [act]
    split
    · rename_i it stamp newest hprep hnewest
      obtain ⟨hfeed, hwhole, hafter⟩ := createPrepare_after hprep hnewest
      refine h.push ?_
      rintro p ⟨rfl⟩
      exact ⟨fun _ => hafter, le_refl _, ⟨hfeed, hwhole⟩, fun _ _ _ _ _ _ => by simp⟩
    · exact h
  | correct req key now =>
    simp only [act]
    split
    · rename_i it stamp hprep
      split
      · rename_i newest hnewest
        obtain ⟨original, m, -, hm, hfeed, rfl, -⟩ := correctionPrepare_ok hprep
        rw [hfeed] at hnewest
        obtain rfl := Except.ok.inj (hm.symm.trans hnewest)
        refine h.push ?_
        rintro p ⟨rfl⟩
        exact ⟨fun _ => lt_promoteStamp now m, truncate_le_promoteStamp now m, rfl,
          fun _ _ _ _ _ _ => by simp⟩
      · exact h
    · exact h
  | promote sampleID item =>
    simp only [act]
    split
    · exact h.push (by simp)
    · exact h
  | promoteNewest i clock now =>
    simp only [act]
    split
    · split
      · rename_i newest hnewest
        exact h.set i ⟨fun _ => lt_promoteStamp clock newest,
          truncate_le_promoteStamp clock newest, rfl, fun _ _ _ _ _ _ => by simp⟩
      · exact h.erase _ i
    · exact h
  | generate feedID slug runID valid rs vecs key clock now =>
    simp only [act]
    split
    · refine h.push ?_
      rintro p ⟨rfl⟩
      exact pendingCommit_sound ..
    · exact h
  | attempt i =>
    simp only [act]
    split
    · rename_i p hp
      have hsound : p.Sound := h p (mem_of_getElem? hp)
      split
      · exact h.erase _ i
      split
      · rename_i hretry
        exact h.set i (hsound.retry hretry.2 _)
      · exact h.erase _ i
    · exact h
  | abandon i => exact h.erase _ i
  | elsewhere db => exact h

/-- The store after a step: only an attempt that goes through inserts items. -/
theorem act_db (lower : Char → Char) (sanitize : String → String) (s : Plane) (a : Action) :
    (act lower sanitize s a).db = s.db ∨
    (∃ i p, a = .attempt i ∧ s.threads[i]? = some (.pending p) ∧
      p.run s.db = .ok (act lower sanitize s a).db) ∨
    ∃ db, a = .elsewhere db ∧ (act lower sanitize s a).db = { db with items := s.db.items } := by
  cases a with
  | create req key now created => simp only [act]; split <;> exact .inl rfl
  | correct req key now =>
    simp only [act]
    split
    · split <;> exact .inl rfl
    · exact .inl rfl
  | promote sampleID item => simp only [act]; split <;> exact .inl rfl
  | promoteNewest i clock now =>
    simp only [act]
    split
    · split <;> exact .inl rfl
    · exact .inl rfl
  | generate feedID slug runID valid rs vecs key clock now =>
    simp only [act]
    split <;> exact .inl rfl
  | attempt i =>
    simp only [act]
    split
    · rename_i p hp
      split
      · rename_i db hok
        exact .inr (.inl ⟨i, p, rfl, hp, hok⟩)
      · split <;> exact .inl rfl
    · exact .inl rfl
  | abandon i => exact .inl rfl
  | elsewhere db => exact .inr (.inr ⟨db, rfl, rfl⟩)

/-- A call that was not overtaken appends items later than everything in its feed. -/
theorem Plane.Ordered.commit (h : s.Ordered) (hp : p.Sound) (hok : p.run s.db = .ok db)
    (hnot : ∀ x ∈ s.db.itemsOf p.feedID, (p.newest ≠ 0 ∧ x.publishedAt ≤ p.newest) ∨
      x.publishedAt < p.own) : db.slots.Pairwise fun a b => a.1 = b.1 → a.2 < b.2 := by
  obtain ⟨new, hslots, hnew, hpair⟩ := hp.run_slots hok
  rw [hslots, pairwise_append]
  refine ⟨h.slots, hpair.imp fun {a b} hab (_ : a.1 = b.1) => hab, ?_⟩
  intro a ha b hb hab
  obtain ⟨hbf, hbs⟩ := hnew b hb
  obtain ⟨x, hx, hxa⟩ := mem_slots.1 ha
  rw [hab, hbf] at hx
  rw [← hxa]
  rcases hnot x hx with ⟨hz, hle⟩ | hlt
  · have := hp.after hz
    omega
  · have := hp.own_le
    omega

/-- **Every step that meets `NotOvertaken` keeps the order.** -/
theorem act_ordered (s : Plane) (a : Action) (h : s.Ordered) (hnot : NotOvertaken s a) :
    (act lower sanitize s a).Ordered := by
  refine ⟨?_, act_sound s a h.sound⟩
  rcases act_db lower sanitize s a with hdb | ⟨i, p, rfl, hp, hok⟩ | ⟨db, -, hdb⟩
  · rw [hdb]
    exact h.slots
  · exact h.commit (h.sound p (mem_of_getElem? hp)) hok (hnot _ hp)
  · rw [hdb]
    exact h.slots

/-- **No backdating, over every interleaving.**  From a store in order with no calls in
flight, in every run whose writing attempts were not overtaken, every item is strictly later
than every item of its feed committed before it. -/
theorem always_noBackdating (lower : Char → Char) (sanitize : String → String) (db : DB)
    (hstart : NoBackdating db) (acts : List Action)
    (hnot : Meets (act lower sanitize) NotOvertaken ⟨db, []⟩ acts) :
    Always (act lower sanitize) (fun s => NoBackdating s.db) ⟨db, []⟩ acts := by
  have hordered : Plane.Ordered ⟨db, []⟩ := ⟨noBackdating_iff.1 hstart, by simp⟩
  have hrun : Always (act lower sanitize) Plane.Ordered ⟨db, []⟩ acts :=
    always_of_meets act_ordered acts _ hordered hnot
  exact hrun.mono fun s hs => noBackdating_iff.2 hs.slots

/-- A generation run of one item that reads the newest timestamp and stamps at `nanos` after
the new year. -/
def generateAt (runID : ℕ) (title : String) (nanos : ℤ) : Action :=
  .generate 1 "daily" runID
    [{ feedID := 1, itemKey := "", contentHash := ⟨""⟩, title, publishedAt := 0,
       origin := .generated }]
    {} [] (fun t => toString t) (newYear2026 + nanos) (newYear2026 + nanos)

/-- A run that reads, stamps and commits before the next one reads. -/
theorem always_noBackdating_twoOpenRuns : Meets (act Char.toLower id) NotOvertaken ⟨twoOpenRuns, []⟩
      [generateAt 1 "A" 10500000000, .attempt 0, generateAt 2 "B" 10700000000, .attempt 0] ∧
    Always (act Char.toLower id) (fun s => NoBackdating s.db) ⟨twoOpenRuns, []⟩
      [generateAt 1 "A" 10500000000, .attempt 0, generateAt 2 "B" 10700000000, .attempt 0] := by
  have hmeets : Meets (act Char.toLower id) NotOvertaken ⟨twoOpenRuns, []⟩
      [generateAt 1 "A" 10500000000, .attempt 0, generateAt 2 "B" 10700000000, .attempt 0] := by
    refine ⟨trivial, ?_, trivial, ?_, trivial⟩
    · unfold NotOvertaken
      decide +kernel
    · unfold NotOvertaken
      decide +kernel
  exact ⟨hmeets, always_noBackdating _ _ _ (by decide) _ hmeets⟩

/-- **An overtaken run backdates**: it reads an empty feed and stamps `10 s`, an item
requested for `20 s` is created, and then the run commits. -/
theorem not_always_noBackdating :
    ¬Always (act Char.toLower id) (fun s => NoBackdating s.db) ⟨twoOpenRuns, []⟩
      [generateAt 1 "A" 10000000000,
       .create { feedID := 1, title := "B", publishedAt := some (newYear2026 + 20000000000) }
         (fun t => toString t) (newYear2026 + 11000000000) (newYear2026 + 11000000000),
       .attempt 1, .attempt 0] := by
  intro h
  exact absurd h.last (by decide +kernel)

end AnimeFeedFlux
