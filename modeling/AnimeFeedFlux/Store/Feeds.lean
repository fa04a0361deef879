import AnimeFeedFlux.Store.Items
import Mathlib.Data.List.Sort
import Mathlib.Data.Set.List

/-!
# Reading feeds and items

The queries behind the publish plane and the generation paths.  `scanFeedRow` turns a row
of `feeds` into the feed the rest of the program sees; `created_at` is not among the
columns it reads, so the creation time of a scanned feed is the zero Time.

Only `loadFeedRow`, which the generation paths use, leaves out soft-deleted feeds.
-/

namespace AnimeFeedFlux

open List

structure Feed where
  id : ℕ
  slug : String
  title : String
  description : String
  language : String
  kind : FeedKind
  author : String
  copyright : String
  ogImage : String
  ttlMinutes : ℕ
  enabled : Bool
  timezone : String
  lastBuiltAt : ℤ
  createdAt : ℤ
  version : ℕ
  deriving DecidableEq, Repr

/-- `parseNullTime`: the zero Time for `NULL`. -/
def parseNullTime : Option ℤ → Except StoreError ℤ
  | none => .ok 0
  | some t => if FourDigitYear t then .ok t else .error .badTime

/-- `scanFeedRow`, over the columns `feedSelectColumns` lists. -/
def scanFeedRow (r : FeedRow) : Except StoreError Feed :=
  match parseNullTime r.lastBuiltAt with
  | .error e => .error e
  | .ok lastBuiltAt =>
    .ok { id := r.id, slug := r.slug, title := r.title, description := r.description,
          language := r.language, kind := r.kind, author := r.author, copyright := r.copyright,
          ogImage := r.ogImage, ttlMinutes := r.ttlMinutes, enabled := r.enabled,
          timezone := r.timezone, lastBuiltAt, createdAt := 0, version := r.version }

variable {f : Feed} {r : FeedRow} {α β ε : Type} {xs : List α} {row : Item} {items : List Item}

theorem scanFeedRow_ok (h : scanFeedRow r = .ok f) :
    f.id = r.id ∧ f.slug = r.slug ∧ f.kind = r.kind ∧ f.enabled = r.enabled ∧ f.createdAt = 0 := by
  simp only [scanFeedRow] at h
  split at h
  · cases h
  cases h
  exact ⟨rfl, rfl, rfl, rfl, rfl⟩

/-- `loadFeedRow`: the feed and its recipe column, unless the feed is soft-deleted. -/
def loadFeedRow (db : DB) (feedID : ℕ) : Except StoreError (Feed × Option FeedSpec) :=
  match db.feeds.find? (fun r => r.id == feedID && r.deletedAt.isNone) with
  | none => .error .notFound
  | some r =>
    match scanFeedRow r with
    | .error e => .error e
    | .ok f => .ok (f, r.spec)

variable {db : DB} {feedID : ℕ}

theorem loadFeedRow_ok {feed : Feed} {spec : Option FeedSpec}
    (h : loadFeedRow db feedID = .ok (feed, spec)) : feed.id = feedID ∧ feed.createdAt = 0 := by
  simp only [loadFeedRow] at h
  split at h
  · cases h
  rename_i r hfind
  have hp := find?_some hfind
  simp only [Bool.and_eq_true, beq_iff_eq] at hp
  split at h
  · cases h
  rename_i f hscan
  cases h
  obtain ⟨hid, -, -, -, hcreated⟩ := scanFeedRow_ok hscan
  exact ⟨hid.trans hp.1, hcreated⟩

/-- `getFeedBySlug`: `none` when no row has the slug. -/
def getFeedBySlug (db : DB) (slug : String) : Except StoreError (Option Feed) :=
  match db.feeds.find? (·.slug == slug) with
  | none => .ok none
  | some r => (scanFeedRow r).map some

/-- `listFeeds`: every row, by slug. -/
def listFeeds (db : DB) : Except StoreError (List Feed) :=
  (db.feeds.insertionSort (fun a b => a.slug ≤ b.slug)).mapM scanFeedRow

def defaultFeedWindow : ℕ := 50

/-- `scanItemRow`.  `formats_json` is not among the columns it reads. -/
def scanItemRow (it : Item) : Except StoreError Item :=
  if it.readable then .ok { it with formats := {} } else .error .badTime

/-- The rows of `listItems`: the newest items by the text of `published_at`, soft-deleted ones
left out. -/
def feedWindow (db : DB) (feedID : ℕ) : List Item :=
  ((db.items.filter fun it => it.feedID == feedID && it.deletedAt.isNone).insertionSort
    fun a b => formatTime b.publishedAt ≤ formatTime a.publishedAt).take defaultFeedWindow

def listItems (db : DB) (feedID : ℕ) : Except StoreError (List Item) :=
  (feedWindow db feedID).mapM scanItemRow

/-- `getItem`: an item and its feed by the item's key, soft-deleted or not. -/
def getItem (db : DB) (itemKey : String) : Except StoreError (Option (Feed × Item)) :=
  match db.items.find? (·.itemKey == itemKey) with
  | none => .ok none
  | some it =>
    match db.feeds.find? (·.id == it.feedID) with
    | none => .ok none
    | some r =>
      match scanItemRow it with
      | .error e => .error e
      | .ok it => match scanFeedRow r with
        | .error e => .error e
        | .ok f => .ok (some (f, it))

/-! ## What the queries find -/

theorem mapM_eq_ok {f : α → Except ε β} :
    ∀ {ys : List β}, xs.mapM f = .ok ys ↔ xs.map f = ys.map .ok := by
  induction xs with
  | nil =>
    intro ys
    cases ys <;> simp [pure, Except.pure]
  | cons x xs ih =>
    intro ys
    simp only [mapM_cons, bind, Except.bind, pure, Except.pure, map_cons]
    cases hx : f x with
    | error e => cases ys <;> simp
    | ok y =>
      cases ys with
      | nil => cases xs.mapM f <;> simp
      | cons z zs =>
        simp only [map_cons, List.cons.injEq, Except.ok.injEq, ← ih]
        cases xs.mapM f <;> simp

theorem mem_mapM_ok {f : α → Except ε β} {ys : List β} (h : xs.mapM f = .ok ys) {y : β} :
    y ∈ ys ↔ ∃ x ∈ xs, f x = .ok y := by
  have hok : Except.ok y ∈ ys.map (Except.ok (ε := ε)) ↔ y ∈ ys := by simp
  rw [← hok, ← mapM_eq_ok.mp h, mem_map]

theorem exists_mapM_ok {f : α → Except ε β} :
    (∃ ys, xs.mapM f = .ok ys) ↔ ∀ x ∈ xs, ∃ y, f x = .ok y := by
  have hrange := congrArg (xs.map f ∈ ·) (Set.range_list_map (Except.ok (ε := ε) (α := β)))
  simp only [Set.mem_range, Set.mem_ofPred_eq, forall_mem_map, eq_iff_iff] at hrange
  constructor
  · intro ⟨ys, hys⟩ x hx
    obtain ⟨y, hy⟩ := hrange.mp ⟨ys, (mapM_eq_ok.mp hys).symm⟩ x hx
    exact ⟨y, hy.symm⟩
  · intro hall
    obtain ⟨ys, hys⟩ := hrange.mpr fun x hx => (hall x hx).imp fun _ => Eq.symm
    exact ⟨ys, mapM_eq_ok.mpr hys.symm⟩

variable {it : Item}

theorem getItem_ok {itemKey : String} (h : getItem db itemKey = .ok (some (f, it))) :
    (∃ row ∈ db.items, row.itemKey = itemKey) ∧ ∃ row ∈ db.feeds, row.slug = f.slug := by
  simp only [getItem] at h
  split at h
  · cases h
  rename_i row hrow
  split at h
  · cases h
  rename_i feed hfeed
  split at h
  · cases h
  split at h
  · cases h
  · rename_i f' hscan
    cases h
    refine ⟨⟨row, mem_of_find?_eq_some hrow, by simpa using find?_some hrow⟩, ?_⟩
    exact ⟨feed, mem_of_find?_eq_some hfeed, (scanFeedRow_ok hscan).2.1.symm⟩

theorem getFeedBySlug_ok {slug : String} (h : getFeedBySlug db slug = .ok (some f)) :
    ∃ row ∈ db.feeds, row.slug = slug ∧ scanFeedRow row = .ok f := by
  simp only [getFeedBySlug] at h
  split at h
  · cases h
  rename_i row hrow
  refine ⟨row, mem_of_find?_eq_some hrow, by simpa using find?_some hrow, ?_⟩
  cases hscan : scanFeedRow row with
  | error e => simp [hscan, Except.map] at h
  | ok f' => simpa [hscan, Except.map] using h

theorem scanItemRow_ok (h : scanItemRow row = .ok it) : it = { row with formats := {} } := by
  simp only [scanItemRow] at h
  split at h
  · cases h
    rfl
  · cases h

theorem listItems_eq_map (h : listItems db feedID = .ok items) :
    items = (feedWindow db feedID).map fun it => { it with formats := {} } := by
  have hok : ∀ x y : Item, (Except.ok x : Except StoreError Item) = .ok y → x = y :=
    fun x y => Except.ok.inj
  rw [← map_inj_right hok, ← mapM_eq_ok.1 h, map_map]
  refine map_congr_left fun it hit => ?_
  obtain ⟨scanned, hscanned⟩ := exists_mapM_ok.1 ⟨items, h⟩ it hit
  rw [hscanned, scanItemRow_ok hscanned]
  rfl

theorem mem_listItems (h : listItems db feedID = .ok items) (hit : it ∈ items) :
    ∃ row ∈ db.items, row.feedID = feedID ∧ row.deletedAt = none ∧
      it = { row with formats := {} } := by
  obtain ⟨row, hrow, hscan⟩ := (mem_mapM_ok h).mp hit
  have hmem := mem_of_mem_take hrow
  simp only [mem_insertionSort, mem_filter, Bool.and_eq_true, beq_iff_eq,
    Option.isNone_iff_eq_none] at hmem
  exact ⟨row, hmem.1, hmem.2.1, hmem.2.2, scanItemRow_ok hscan⟩

/-- Whether `scanFeedRow` can parse the row. -/
def FeedRow.scans (r : FeedRow) : Bool := r.lastBuiltAt.all fun t => decide (FourDigitYear t)

theorem exists_scanFeedRow_ok : (∃ f, scanFeedRow r = .ok f) ↔ r.scans := by
  simp only [scanFeedRow, FeedRow.scans, parseNullTime]
  cases r.lastBuiltAt with
  | none => simp
  | some t => by_cases ht : FourDigitYear t <;> simp [ht]

theorem exists_scanItemRow_ok : (∃ it, scanItemRow row = .ok it) ↔ row.readable := by
  simp only [scanItemRow]
  by_cases h : row.readable = true <;> simp [h]

theorem exists_listItems_ok : (∃ items, listItems db feedID = .ok items) ↔
      ∀ it ∈ feedWindow db feedID, it.readable := by
  simp only [listItems, exists_mapM_ok, exists_scanItemRow_ok]

theorem exists_listFeeds_ok : (∃ fs, listFeeds db = .ok fs) ↔ ∀ r ∈ db.feeds, r.scans := by
  simp only [listFeeds, exists_mapM_ok, exists_scanFeedRow_ok, mem_insertionSort]

theorem mem_listFeeds {fs : List Feed} (h : listFeeds db = .ok fs) :
    f ∈ fs ↔ ∃ r ∈ db.feeds, scanFeedRow r = .ok f := by
  simpa only [mem_insertionSort] using mem_mapM_ok h (y := f)

/-! ## The constraints of `feeds` -/

/-- Ids and slugs are unique, those of soft-deleted feeds included. -/
structure UniqueFeeds (db : DB) : Prop where
  ids : (db.feeds.map (·.id)).Nodup
  slugs : (db.feeds.map (·.slug)).Nodup

namespace UniqueFeeds
variable {db : DB} (h : UniqueFeeds db)
include h

variable {r r' : FeedRow}

theorem eq_of_id (hr : r ∈ db.feeds) (hr' : r' ∈ db.feeds) (hid : r.id = r'.id) : r = r' :=
  inj_on_of_nodup_map h.ids hr hr' hid

theorem eq_of_slug (hr : r ∈ db.feeds) (hr' : r' ∈ db.feeds) (hslug : r.slug = r'.slug) : r = r' :=
  inj_on_of_nodup_map h.slugs hr hr' hslug

theorem append (hid : r.id = nextID (db.feeds.map (·.id)))
    (hslug : ∀ x ∈ db.feeds, x.slug ≠ r.slug) :
    UniqueFeeds { db with feeds := db.feeds ++ [r] } := by
  constructor
  · simp only [map_append, map_cons, map_nil]
    refine nodup_append.mpr ⟨h.ids, nodup_singleton _, ?_⟩
    intro i hi j hj
    rw [mem_singleton.mp hj, hid]
    exact (lt_nextID hi).ne
  · simp only [map_append, map_cons, map_nil]
    refine nodup_append.mpr ⟨h.slugs, nodup_singleton _, ?_⟩
    intro s hs s' hs'
    obtain ⟨x, hx, rfl⟩ := mem_map.mp hs
    rw [mem_singleton.mp hs']
    exact hslug x hx

theorem edit {id : ℕ} {p : FeedRow → Bool} {f : FeedRow → FeedRow}
    (hp : ∀ r, p r → r.id = id) (hid : ∀ r, (f r).id = r.id)
    (hslug : ∀ r ∈ db.feeds, p r → ∀ x ∈ db.feeds, x.id ≠ id → x.slug ≠ (f r).slug) :
    UniqueFeeds { db with feeds := db.feeds.map fun r => if p r then f r else r } := by
  have hids : ∀ r, (if p r then f r else r).id = r.id := by
    intro r
    split
    · exact hid r
    · rfl
  constructor
  · simp only [map_map, Function.comp_def, hids]
    exact h.ids
  rw [map_map]
  apply List.Nodup.map_on _ (List.Nodup.of_map _ h.ids)
  intro r hr r' hr' heq
  simp only [Function.comp_apply] at heq
  by_cases hpr : p r = true <;> by_cases hpr' : p r' = true
  · exact h.eq_of_id hr hr' ((hp r hpr).trans (hp r' hpr').symm)
  · rw [if_pos hpr, if_neg hpr'] at heq
    by_contra hne
    refine hslug r hr hpr r' hr' (fun hid' => hne ?_) heq.symm
    exact h.eq_of_id hr hr' ((hp r hpr).trans hid'.symm)
  · rw [if_neg hpr, if_pos hpr'] at heq
    by_contra hne
    refine hslug r' hr' hpr' r hr (fun hid' => hne ?_) heq
    exact h.eq_of_id hr hr' (hid'.trans (hp r' hpr').symm)
  · rw [if_neg hpr, if_neg hpr'] at heq
    exact h.eq_of_slug hr hr' heq

end UniqueFeeds

end AnimeFeedFlux
