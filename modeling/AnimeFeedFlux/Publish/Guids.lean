import AnimeFeedFlux.Lib.Machine
import AnimeFeedFlux.Publish.Server
import AnimeFeedFlux.Rpc.Feed
import Mathlib.Data.List.MinMax

/-!
# Does an item keep its guid?

The guid of an item is a Tag URI with a year in it.  `tagYearFor` would take the year of the
feed's creation, but the publish plane never reads `created_at`, so every guid carries the
year the process resolved at boot: that of the earliest `created_at` text in `feeds`, or
2026 while there is no feed.  This module follows a site over restarts, feed creations and
the documents it serves.

A first feed created in another year than 2026 moves the year at the next boot, and so does
a feed created, by a clock that was set back, in a year before the earliest one.
-/

namespace AnimeFeedFlux.Publish

open Machine Render List

/-! ## The year of a process -/

def preFirstFeedTagYear : ℤ := 2026

/-- `SELECT MIN(created_at) FROM feeds`, the smallest text. -/
def earliest (db : DB) : Option ℤ := (db.feeds.map (·.createdAt)).argmin formatTime

def bootTagYear (db : DB) : Except StoreError ℤ :=
  match earliest db with
  | none => .ok preFirstFeedTagYear
  | some created =>
    match parseTime created with
    | none => .error .badTime
    | some t => .ok (Time.year t)

/-- What a feed creation must meet for the year to stay: the first feed is created in 2026,
and no feed in a year before the earliest one. -/
def KeepsYear (db : DB) (now : ℤ) : Prop :=
  FourDigitYear now ∧
    match earliest db with
    | none => Time.year now = preFirstFeedTagYear
    | some created => Time.year created ≤ Time.year now

instance (db : DB) (now : ℤ) : Decidable (KeepsYear db now) := by
  unfold KeepsYear
  split <;> infer_instance

section
variable {db : DB} {feed : FeedIdentity} {spec : FeedSpec} {extra : FeedIdentityExtra} {now : ℤ}
  {r : DB × ℕ}

theorem earliest_feedInsert (h : feedInsert db feed spec extra now = .ok r) :
    earliest r.1 = match earliest db with
      | none => some now
      | some created =>
        if formatTime now < formatTime created then some now else some created := by
  obtain ⟨-, -, hdb⟩ := feedInsert_ok h
  rw [hdb]
  simp only [earliest, map_append, map_cons, map_nil, FeedIdentity.row, argmin_concat]
  cases List.argmin formatTime (db.feeds.map (·.createdAt)) <;> rfl

theorem year_le_of_formatTime_lt {t t' : ℤ} (ht : FourDigitYear t) (ht' : FourDigitYear t')
    (h : formatTime t < formatTime t') : Time.year t ≤ Time.year t' := by
  by_contra hyear
  have hlt := formatTime_lt (Time.seconds_lt_of_year_lt (not_le.mp hyear)) ht' ht
  exact lt_asymm h hlt

/-- **A creation that keeps the year** is not seen by the next boot. -/
theorem bootTagYear_feedInsert {y : ℤ} (h : feedInsert db feed spec extra now = .ok r)
    (hk : KeepsYear db now) (hy : bootTagYear db = .ok y) : bootTagYear r.1 = .ok y := by
  have hearliest := earliest_feedInsert h
  obtain ⟨hnow, hyear⟩ := hk
  have hparse : parseTime now = some now := parseTime_eq_some.mpr ⟨hnow, rfl⟩
  cases hold : earliest db with
  | none =>
    simp only [hold] at hearliest hyear
    simp only [bootTagYear, hold] at hy
    simp only [bootTagYear, hearliest, hparse, hyear]
    exact hy
  | some created =>
    simp only [hold] at hearliest hyear
    simp only [bootTagYear, hold] at hy
    by_cases hlt : formatTime now < formatTime created
    · rw [if_pos hlt] at hearliest
      cases hc : parseTime created with
      | none => simp [hc] at hy
      | some t =>
        obtain ⟨hfour, rfl⟩ := parseTime_eq_some.mp hc
        have hle := year_le_of_formatTime_lt hnow hfour hlt
        have heq : Time.year now = Time.year created := le_antisymm hle hyear
        simp only [hc] at hy
        simp only [bootTagYear, hearliest, hparse, heq]
        exact hy
    · rw [if_neg hlt] at hearliest
      simpa only [bootTagYear, hearliest] using hy
end

/-! ## Documents -/

/-- A feed document, by what it was rendered from. -/
structure Document where
  format : Format
  channel : Channel
  deriving DecidableEq, Repr

/-- The document itself. -/
def Document.page (d : Document) : Page := feedPage d.format d.channel

/-- The items of a document, by their keys, each with the guid it carries there. -/
def Document.tagURIs (d : Document) : List (String × String) :=
  ((newestFirst d.channel.items).map (·.itemKey)).zip d.page.guids

theorem mem_tagURIs {d : Document} {itemKey g : String} : (itemKey, g) ∈ d.tagURIs ↔
      ∃ it ∈ d.channel.items, it.itemKey = itemKey ∧ d.channel.tagURI it = g := by
  rw [Document.tagURIs, Document.page, guids_feedPage, zip_map', mem_map]
  simp [newestFirst]

/-- `renderFeed`; `none` for the answers that are not a document. -/
def renderFeed (deps : Deps) (db : DB) (slug : String) (format : Format) (now : ℤ) :
    Option Document :=
  match getFeedBySlug db slug with
  | .ok (some f) =>
    match listItems db f.id with
    | .ok items => some ⟨format, windowChannel deps slug (.feed format) f items now⟩
    | .error _ => none
  | _ => none

/-! ## The machine -/

/-- A running process: its year and what it has rendered. -/
structure Process where
  tagYear : ℤ
  rendered : List Document := []

/-- A site: the store, the running process and every document ever served. -/
structure Site where
  db : DB
  process : Option Process := none
  served : List Document := []

/-- One step.  `render` answers a request that misses the cache.  `replay` answers one that
hits; what the cache holds is among what the process has rendered. -/
inductive Act
  | boot
  | createFeed (feed : FeedIdentity) (spec : FeedSpec) (extra : FeedIdentityExtra) (now : ℤ)
  | insertItem (it : Item) (now : ℤ)
  | render (slug : String) (format : Format) (now : ℤ)
  | replay (i : ℕ)

/-- One step of the site.  The base URL and the rest of `deps` stay; its year is that of the
process. -/
def Site.step (deps : Deps) (s : Site) : Act → Site
  | .boot =>
    match bootTagYear s.db with
    | .ok y => { s with process := some { tagYear := y } }
    | .error _ => { s with process := none }
  | .createFeed feed spec extra now =>
    match feedInsert s.db feed spec extra now with
    | .ok r => { s with db := r.1 }
    | .error _ => s
  | .insertItem it now =>
    match AnimeFeedFlux.insertItem s.db it now with
    | .ok db => { s with db }
    | .error _ => s
  | .render slug format now =>
    match s.process with
    | none => s
    | some p =>
      match renderFeed { deps with tagYear := p.tagYear } s.db slug format now with
      | none => s
      | some d =>
        { s with
          process := some { p with rendered := d :: p.rendered }
          served := d :: s.served }
  | .replay i =>
    match s.process with
    | none => s
    | some p =>
      match p.rendered[i]? with
      | none => s
      | some d => { s with served := d :: s.served }

/-- Every document ever served that contains an item carries the same Tag URI for it. -/
def Stable (s : Site) : Prop :=
  ∀ d ∈ s.served, ∀ d' ∈ s.served, ∀ itemKey g g', (itemKey, g) ∈ d.tagURIs →
    (itemKey, g') ∈ d'.tagURIs → g = g'

/-- Once a process has run, feeds are created so that the year stays. -/
def Settled (s : Site) : Act → Prop
  | .createFeed _ _ _ now => (s.process.isNone ∧ s.served.isEmpty) ∨ KeepsYear s.db now
  | _ => True

instance (s : Site) (act : Act) : Decidable (Settled s act) := by
  unfold Settled
  split <;> infer_instance

/-! ## The invariant -/

/-- The name a store gives an item under the year `y`: the Tag URI with the slug of the feed
it belongs to. -/
def Names (deps : Deps) (y : ℤ) (db : DB) (itemKey g : String) : Prop :=
  ∃ it ∈ db.items, ∃ r ∈ db.feeds, it.itemKey = itemKey ∧ r.id = it.feedID ∧
    g = tagURI deps.baseURL y r.slug itemKey

section
variable {deps : Deps} {y : ℤ} {db db' : DB} {itemKey g : String}

theorem Names.mono (hi : ∀ it ∈ db.items, it ∈ db'.items) (hf : ∀ r ∈ db.feeds, r ∈ db'.feeds)
    (h : Names deps y db itemKey g) : Names deps y db' itemKey g := by
  obtain ⟨it, hit, r, hr, hname⟩ := h
  exact ⟨it, hi it hit, r, hf r hr, hname⟩

theorem Names.unique (hkeys : (db.items.map (·.itemKey)).Nodup) (hfeeds : UniqueFeeds db)
    {g' : String} (h : Names deps y db itemKey g) (h' : Names deps y db itemKey g') : g = g' := by
  obtain ⟨it, hit, r, hr, hkey, hid, rfl⟩ := h
  obtain ⟨it', hit', r', hr', hkey', hid', rfl⟩ := h'
  have hitem : it = it' := inj_on_of_nodup_map hkeys hit hit' (hkey.trans hkey'.symm)
  have hfeed : r = r' := hfeeds.eq_of_id hr hr' (by rw [hid, hid', hitem])
  rw [hfeed]

theorem names_renderFeed {slug : String} {format : Format} {now : ℤ} {d : Document}
    (h : renderFeed { deps with tagYear := y } db slug format now = some d)
    (hg : (itemKey, g) ∈ d.tagURIs) : Names deps y db itemKey g := by
  simp only [renderFeed] at h
  split at h
  · rename_i f hget
    split at h
    · rename_i items hlist
      cases h
      obtain ⟨it, hit, rfl, rfl⟩ := mem_tagURIs.mp hg
      obtain ⟨row, hrow, hfeed, -, rfl⟩ := mem_listItems hlist hit
      obtain ⟨r, hr, -, hscan⟩ := getFeedBySlug_ok hget
      obtain ⟨hid, hslug, -, -, hcreated⟩ := scanFeedRow_ok hscan
      refine ⟨row, hrow, r, hr, rfl, hid.symm.trans hfeed.symm, ?_⟩
      -- The creation time of a scanned feed is zero, so its year is never used.
      simp [Channel.tagURI, windowChannel, tagYearFor, hcreated, Time.isZero, hslug]
    · cases h
  · cases h

end

/-- A store as the schema keeps it. -/
structure Catalogue where
  db : DB
  feeds : UniqueFeeds db
  keys : (db.items.map (·.itemKey)).Nodup

/-- Feeds and keys are unique, and unless nothing has run yet there is one year for the process,
for the next boot and for every document. -/
structure Named (deps : Deps) (s : Site) : Prop where
  feeds : UniqueFeeds s.db
  keys : (s.db.items.map (·.itemKey)).Nodup
  year : (s.process = none ∧ s.served = []) ∨
    ∃ y, bootTagYear s.db = .ok y ∧ (∀ p ∈ s.process, p.tagYear = y) ∧
      ∀ d ∈ s.served, ∀ itemKey g, (itemKey, g) ∈ d.tagURIs → Names deps y s.db itemKey g
  rendered : ∀ p ∈ s.process, ∀ d ∈ p.rendered, d ∈ s.served

theorem Named.stable {deps : Deps} {s : Site} (h : Named deps s) : Stable s := by
  intro d hd d' hd' itemKey g g' hg hg'
  cases h.year with
  | inl hnone => simp [hnone.2] at hd
  | inr hyear =>
    obtain ⟨y, -, -, hnames⟩ := hyear
    exact (hnames d hd _ _ hg).unique h.keys h.feeds (hnames d' hd' _ _ hg')

section
variable {deps : Deps} {s : Site}

variable (h : Named deps s)
include h

/-- A write that only adds rows, and leaves the year of a boot alone once a process has run. -/
theorem Named.grow {db : DB} (hi : ∀ it ∈ s.db.items, it ∈ db.items)
    (hf : ∀ r ∈ s.db.feeds, r ∈ db.feeds) (hfeeds : UniqueFeeds db)
    (hkeys : (db.items.map (·.itemKey)).Nodup)
    (hyear : (s.process = none ∧ s.served = []) ∨
      ∀ y, bootTagYear s.db = .ok y → bootTagYear db = .ok y) :
    Named deps { s with db } := by
  refine ⟨hfeeds, hkeys, ?_, h.rendered⟩
  cases hyear with
  | inl hnone => exact Or.inl hnone
  | inr hboot =>
    refine h.year.imp_right fun hold => ?_
    obtain ⟨y, hy, hprocess, hnames⟩ := hold
    exact ⟨y, hboot y hy, hprocess, fun d hd _ _ hg => (hnames d hd _ _ hg).mono hi hf⟩

theorem Named.boot : Named deps (s.step deps .boot) := by
  cases hy : bootTagYear s.db with
  | error e =>
    simp only [Site.step, hy]
    refine ⟨h.feeds, h.keys, ?_, by simp⟩
    cases h.year with
    | inl hnone => exact Or.inl ⟨rfl, hnone.2⟩
    | inr hyear =>
      obtain ⟨y, hboot, -⟩ := hyear
      rw [hy] at hboot
      cases hboot
  | ok y =>
    simp only [Site.step, hy]
    refine ⟨h.feeds, h.keys, Or.inr ⟨y, hy, by simp, ?_⟩, by simp⟩
    cases h.year with
    | inl hnone => simp [hnone.2]
    | inr hyear =>
      obtain ⟨y', hboot, -, hnames⟩ := hyear
      rw [hy] at hboot
      cases hboot
      exact hnames

theorem Named.createFeed {feed : FeedIdentity} {spec : FeedSpec}
    {extra : FeedIdentityExtra} {now : ℤ} (ht : Settled s (.createFeed feed spec extra now)) :
    Named deps (s.step deps (.createFeed feed spec extra now)) := by
  cases hins : feedInsert s.db feed spec extra now with
  | error e => simpa only [Site.step, hins] using h
  | ok r =>
    simp only [Site.step, hins]
    obtain ⟨hslug, hid, hdb⟩ := feedInsert_ok hins
    refine h.grow ?_ ?_ ?_ ?_ ?_
    · rw [hdb]
      exact fun it hit => hit
    · rw [hdb]
      exact fun x hx => mem_append_left _ hx
    · rw [hdb]
      exact h.feeds.append hid hslug
    · rw [hdb]
      exact h.keys
    · cases ht with
      | inl hnone => exact Or.inl (by simpa using hnone)
      | inr hkeeps => exact Or.inr fun y hy => bootTagYear_feedInsert hins hkeeps hy

theorem Named.insertItem (it : Item) (now : ℤ) : Named deps (s.step deps (.insertItem it now)) := by
  cases hins : AnimeFeedFlux.insertItem s.db it now with
  | error e => simpa only [Site.step, hins] using h
  | ok db =>
    simp only [Site.step, hins]
    obtain ⟨rfl, hbars⟩ := insertItemRow_ok hins
    refine h.grow (fun x hx => mem_append_left _ hx) (fun r hr => hr)
      ⟨h.feeds.ids, h.feeds.slugs⟩ ?_ (Or.inr fun y hy => hy)
    simp only [map_append, map_cons, map_nil]
    refine nodup_append.mpr ⟨h.keys, nodup_singleton _, ?_⟩
    intro k hk k' hk' heq
    obtain ⟨x, hx, rfl⟩ := mem_map.mp hk
    rw [mem_singleton.mp hk'] at heq
    have hbar := hbars x hx
    simp [Item.bars, Item.newRow, DB.storedRow] at hbar heq
    exact hbar.1 heq

theorem Named.render (slug : String) (format : Format) (now : ℤ) :
    Named deps (s.step deps (.render slug format now)) := by
  cases hp : s.process with
  | none => simpa only [Site.step, hp] using h
  | some p =>
    cases hd : renderFeed { deps with tagYear := p.tagYear } s.db slug format now with
    | none => simpa only [Site.step, hp, hd] using h
    | some d =>
      simp only [Site.step, hp, hd]
      refine ⟨h.feeds, h.keys, Or.inr ?_, ?_⟩
      · cases h.year with
        | inl hnone => simp [hp] at hnone
        | inr hyear =>
          obtain ⟨y, hboot, hprocess, hnames⟩ := hyear
          have hy : p.tagYear = y := hprocess p hp
          refine ⟨y, hboot, by simp [hy], ?_⟩
          intro d' hd' itemKey g hg
          cases mem_cons.mp hd' with
          | inl heq => exact names_renderFeed (hy ▸ hd) (heq ▸ hg)
          | inr hold => exact hnames d' hold itemKey g hg
      · intro p' hp' d' hd'
        cases hp'
        exact mem_cons.mpr ((mem_cons.mp hd').imp_right (h.rendered p hp d'))

theorem Named.replay (i : ℕ) : Named deps (s.step deps (.replay i)) := by
  cases hp : s.process with
  | none => simpa only [Site.step, hp] using h
  | some p =>
    cases hd : p.rendered[i]? with
    | none => simpa only [Site.step, hp, hd] using h
    | some d =>
      simp only [Site.step, hp, hd]
      have hmem : d ∈ s.served := h.rendered p hp d (mem_of_getElem? hd)
      have hserved : ∀ d' ∈ d :: s.served, d' ∈ s.served := by
        intro d' hd'
        cases mem_cons.mp hd' with
        | inl heq => exact heq ▸ hmem
        | inr hold => exact hold
      refine ⟨h.feeds, h.keys, Or.inr ?_, ?_⟩
      · cases h.year with
        | inl hnone => simp [hnone.2] at hmem
        | inr hyear =>
          obtain ⟨y, hboot, hprocess, hnames⟩ := hyear
          exact ⟨y, hboot, hp ▸ hprocess, fun d' hd' => hnames d' (hserved d' hd')⟩
      · intro p' hp' d' hd'
        exact mem_cons_of_mem _ (h.rendered p' (hp ▸ hp') d' hd')

theorem Named.step {act : Act} (ht : Settled s act) : Named deps (s.step deps act) := by
  cases act with
  | boot => exact h.boot
  | createFeed feed spec extra now => exact h.createFeed ht
  | insertItem it now => exact h.insertItem it now
  | render slug format now => exact h.render slug format now
  | replay i => exact h.replay i
end

/-- **An item keeps its guid** over every history of restarts and feed creations in which the
first feed is created in 2026 and none in a year before the earliest. -/
theorem always_stable (deps : Deps) (c : Catalogue) (acts : List Act)
    (h : Meets (Site.step deps) Settled { db := c.db } acts) :
    Always (Site.step deps) Stable { db := c.db } acts := by
  have hinit : Named deps { db := c.db } := ⟨c.feeds, c.keys, Or.inl ⟨rfl, rfl⟩, by simp⟩
  have hnamed : Always (Site.step deps) (Named deps) { db := c.db } acts :=
    always_of_meets (fun _ _ hs ht => hs.step ht) acts _ hinit h
  exact hnamed.mono fun _ hs => hs.stable

/-! ## Two histories -/

/-- Midnight UTC on 1 January 2027. -/
def january2027 : ℤ := 63934358400 * Time.second

/-- A site before its first feed. -/
def emptyCatalogue : Catalogue := ⟨{}, ⟨by decide, by decide⟩, by decide⟩

def guidDeps : Deps where
  baseURL := "https://feeds.example"
  tagYear := 0

/-- The creation of a feed at `now`. -/
def createQuiz (slug : String) (now : ℤ) : Act :=
  .createFeed { slug, title := "Quiz", kind := .generative } { kind := .generative }
    { enabled := true } now

/-- A question for the first feed. -/
def firstQuestion (now : ℤ) : Act :=
  .insertItem { feedID := 1, itemKey := "01KN2M0000QV1Z7J3C5D8E9FGH",
                contentHash := ⟨"capital of japan"⟩, title := "Capital of Japan?",
                publishedAt := now, origin := .manual } now

/-- First boot on an empty store, the first feed in 2027, and a restart. -/
def firstFeedIn2027 : List Act :=
  [.boot, createQuiz "quiz" january2027, firstQuestion january2027,
   .render "quiz" .xml january2027, .boot, .render "quiz" .atom january2027]

/-- First boot on an empty store, the first feed in 2026, another in 2027, and a restart. -/
def firstFeedIn2026 : List Act :=
  [.boot, createQuiz "quiz" march2026, firstQuestion march2026, .render "quiz" .xml march2026,
   createQuiz "news" january2027, .boot, .render "quiz" .json january2027, .replay 0]

/-- The item is served under two guids when its feed, the first, is created in 2027. -/
theorem not_stable_firstFeedIn2027 :
    ¬ Always (Site.step guidDeps) Stable { db := emptyCatalogue.db } firstFeedIn2027 := by
  intro h
  have hdiffer : ∃ d ∈ (exec (Site.step guidDeps) { db := emptyCatalogue.db }
        firstFeedIn2027).served,
      ∃ d' ∈ (exec (Site.step guidDeps) { db := emptyCatalogue.db } firstFeedIn2027).served,
      ∃ p ∈ d.tagURIs, ∃ p' ∈ d'.tagURIs, p.1 = p'.1 ∧ p.2 ≠ p'.2 := by
    decide +kernel
  obtain ⟨d, hd, d', hd', p, hp, p', hp', hkey, hne⟩ := hdiffer
  exact hne (h.last d hd d' hd' p.1 p.2 p'.2 hp (hkey ▸ hp'))

/-- The other history is covered, and serves the item three times under its one guid. -/
theorem always_stable_firstFeedIn2026 :
    Meets (Site.step guidDeps) Settled { db := emptyCatalogue.db } firstFeedIn2026 ∧
    Always (Site.step guidDeps) Stable { db := emptyCatalogue.db } firstFeedIn2026 ∧
    (exec (Site.step guidDeps) { db := emptyCatalogue.db } firstFeedIn2026).served.map (·.tagURIs) =
      List.replicate 3 [("01KN2M0000QV1Z7J3C5D8E9FGH",
        "tag:feeds.example,2026:quiz/01KN2M0000QV1Z7J3C5D8E9FGH")] := by
  have hmeets : Meets (Site.step guidDeps) Settled { db := emptyCatalogue.db } firstFeedIn2026 := by
    decide +kernel
  exact ⟨hmeets, always_stable guidDeps emptyCatalogue firstFeedIn2026 hmeets, by decide +kernel⟩

end AnimeFeedFlux.Publish
