import AnimeFeedFlux.Lib.Machine
import AnimeFeedFlux.Lib.Table
import AnimeFeedFlux.Publish.Server
import AnimeFeedFlux.Rpc.Feed

/-!
# What is left of a deleted feed

`FeedServer.Delete` renames the row of the feed and sets `deleted_at`.  None of the queries
of the publish plane looks at `deleted_at`, and nothing clears `enabled`.  This module
follows a store through everything that writes `feeds` after the deletion and says which
listings still show the feed: the documents under its new slug, and the index while the
feed is enabled.
-/

namespace AnimeFeedFlux.Publish

open Machine Render List

/-! ## Writes -/

/-- A write after the deletion.  `built` is the stamp of `CommitRun`; `other` leaves `feeds`
alone and does what it likes with the other tables. -/
inductive FeedWrite
  | call (c : FeedCall)
  | disable (id : ℕ) (now : ℤ)
  | recordFailure (id : ℕ)
  | resetFailures (id : ℕ)
  | built (id : ℕ) (now : ℤ)
  | other (db : DB)

/-- The store after the write. -/
def FeedWrite.apply (db : DB) : FeedWrite → DB
  | .call c => c.apply db
  | .disable id now => disableFeed db id now
  | .recordFailure id => AnimeFeedFlux.recordFailure db id
  | .resetFailures id => AnimeFeedFlux.resetFailures db id
  | .built id now => db.updateFeedRow id fun r => { r with lastBuiltAt := some now }
  | .other db' => { db' with feeds := db.feeds }

/-! ## Listings -/

/-- A page that lists feeds or items: the index, or a feed or embed document. -/
inductive Listing
  | index
  | document (slug : String) (kind : Windowed)
  deriving DecidableEq, Repr

/-- The request for it. -/
def Listing.request : Listing → Request
  | .index => .root
  | .document slug kind => .window slug kind

/-- What a request renders from the store `db`. -/
def material (db : DB) (req : Request) : Except Response Material :=
  match firstRead db req with
  | .error r => .error r
  | .ok g => secondRead db g

/-- Whether a page made of `m` shows the feed or an item of it.  The index leaves out the
feeds that are not enabled. -/
def Material.Shows (id : ℕ) : Material → Prop
  | .feeds fs => ∃ f ∈ fs, f.enabled = true ∧ f.id = id
  | .window _ _ f items => f.id = id ∨ ∃ it ∈ items, it.feedID = id
  | .item _ f it => f.id = id ∨ it.feedID = id

/-- The listing rendered from `db` shows nothing of the feed. -/
def Absent (id : ℕ) (db : DB) (listing : Listing) : Prop :=
  ∀ m, material db listing.request = .ok m → ¬ m.Shows id

/-- When a listing does not show the feed whose row has the slug `slug`: another slug was
asked for, the feed is not enabled, or the read fails over a timestamp. -/
def Hidden (id : ℕ) (slug : String) (db : DB) : Listing → Prop
  | .index =>
    (∀ r ∈ db.feeds, r.id = id → r.enabled = false) ∨ ∃ r ∈ db.feeds, r.scans = false
  | .document s _ =>
    s ≠ slug ∨ (∃ r ∈ db.feeds, r.id = id ∧ r.scans = false) ∨
      ∃ it ∈ feedWindow db id, it.readable = false

instance (id : ℕ) (slug : String) (db : DB) (listing : Listing) :
    Decidable (Hidden id slug db listing) := by
  unfold Hidden
  split <;> infer_instance

/-! ## The row of a deleted feed -/

/-- The feed is deleted and its row has the slug `slug`. -/
structure Buried (id : ℕ) (slug : String) (db : DB) : Prop where
  unique : UniqueFeeds db
  row : ∃ r ∈ db.feeds, r.id = id ∧ r.slug = slug ∧ r.deletedAt ≠ none

/-- An edit that keeps slugs and deletions. -/
theorem Buried.edit {id : ℕ} {slug : String} {db : DB} (h : Buried id slug db) {i : ℕ}
    {f : FeedRow → FeedRow} (hid : ∀ r, (f r).id = r.id) (hslug : ∀ r, (f r).slug = r.slug)
    (hdel : ∀ r, (f r).deletedAt = r.deletedAt) : Buried id slug (db.updateFeedRow i f) := by
  refine ⟨h.unique.updateFeedRow hid hslug, ?_⟩
  obtain ⟨r, hr, hrid, hrslug, hdeleted⟩ := h.row
  refine ⟨_, mem_map_of_mem hr, ?_⟩
  split
  · exact ⟨(hid r).trans hrid, (hslug r).trans hrslug, hdel r ▸ hdeleted⟩
  · exact ⟨hrid, hrslug, hdeleted⟩

theorem FeedWrite.buried {id : ℕ} {slug : String} {db : DB} (h : Buried id slug db)
    (w : FeedWrite) : Buried id slug (w.apply db) := by
  cases w with
  | call c =>
    obtain ⟨hunique, hkeeps⟩ := c.keeps h.unique
    obtain ⟨r, hr, hrid, hrslug, hdel⟩ := h.row
    exact ⟨hunique, r, hkeeps r hr hdel, hrid, hrslug, hdel⟩
  | disable i now => exact h.edit (fun _ => rfl) (fun _ => rfl) fun _ => rfl
  | recordFailure i => exact h.edit (fun _ => rfl) (fun _ => rfl) fun _ => rfl
  | resetFailures i => exact h.edit (fun _ => rfl) (fun _ => rfl) fun _ => rfl
  | built i now => exact h.edit (fun _ => rfl) (fun _ => rfl) fun _ => rfl
  | other db' => exact ⟨⟨h.unique.ids, h.unique.slugs⟩, h.row⟩

theorem buried_deleteFeed {db : DB} (hdb : UniqueFeeds db) {r : FeedRow} (hr : r ∈ db.feeds)
    {expectedVersion : ℕ} {now : ℤ} (h : (deleteFeed db r.id expectedVersion now).2 = .ok ()) :
    Buried r.id (tombstone r.slug now) (deleteFeed db r.id expectedVersion now).1 := by
  have hedits := deleteFeed_edits db r.id expectedVersion now
  refine ⟨hedits.unique hdb fun _ x => by split <;> rfl, ?_⟩
  rcases hedits with ⟨e, he⟩ | ⟨rec, hrec, hver, -, hedit⟩
  · rw [he] at h
    cases h
  obtain ⟨hmem, hid, hlive⟩ := feedRequireFeed_ok hrec
  cases hdb.eq_of_id hmem hr hid
  rw [hedit]
  refine ⟨r.deleted (tombstone r.slug now) now, ?_, rfl, rfl, by simp [FeedRow.deleted]⟩
  exact mem_map.mpr ⟨r, hr, by simp [hver, hlive]⟩

/-! ## What the listings show -/

section
variable {id : ℕ} {slug : String} {db : DB}

theorem shows_index_iff : (∃ m, material db Listing.index.request = .ok m ∧ m.Shows id) ↔
      (∃ r ∈ db.feeds, r.id = id ∧ r.enabled) ∧ ∀ r ∈ db.feeds, r.scans := by
  simp only [material, Listing.request, firstRead]
  rw [← exists_listFeeds_ok]
  cases hlist : listFeeds db with
  | error e => simp
  | ok fs =>
    simp only [secondRead, Except.ok.injEq, exists_eq_left', Material.Shows, exists_eq', and_true]
    constructor
    · rintro ⟨f, hf, hen, rfl⟩
      obtain ⟨r, hr, hscan⟩ := (mem_listFeeds hlist).mp hf
      obtain ⟨hid, -, -, hen', -⟩ := scanFeedRow_ok hscan
      exact ⟨r, hr, hid.symm, hen' ▸ hen⟩
    · rintro ⟨r, hr, rfl, hen⟩
      obtain ⟨f, hscan⟩ := exists_scanFeedRow_ok.mpr (exists_listFeeds_ok.mp ⟨fs, hlist⟩ r hr)
      obtain ⟨hid, -, -, hen', -⟩ := scanFeedRow_ok hscan
      exact ⟨f, (mem_listFeeds hlist).mpr ⟨r, hr, hscan⟩, hen'.trans hen, hid⟩

theorem material_document {s : String} {kind : Windowed} {m : Material} :
    material db (Listing.document s kind).request = .ok m ↔
      ∃ f items, getFeedBySlug db s = .ok (some f) ∧ listItems db f.id = .ok items ∧
        m = .window s kind f items := by
  simp only [material, Listing.request, firstRead]
  cases hget : getFeedBySlug db s with
  | error e => simp
  | ok found =>
    cases found with
    | none => simp
    | some f =>
      simp only [secondRead]
      cases hlist : listItems db f.id with
      | error e => simp [hlist]
      | ok items => simp [hlist, eq_comm]

theorem shows_document_iff (h : Buried id slug db) {s : String} {kind : Windowed} :
    (∃ m, material db (Listing.document s kind).request = .ok m ∧ m.Shows id) ↔
      s = slug ∧ (∀ r ∈ db.feeds, r.id = id → r.scans) ∧
        ∀ it ∈ feedWindow db id, it.readable := by
  obtain ⟨r, hr, hid, hslug, -⟩ := h.row
  constructor
  · rintro ⟨m, hm, hshows⟩
    obtain ⟨f, items, hget, hlist, rfl⟩ := material_document.mp hm
    obtain ⟨x, hx, hxslug, hscan⟩ := getFeedBySlug_ok hget
    have hfid := (scanFeedRow_ok hscan).1
    -- The items of the window belong to the feed they are listed under.
    have hf : f.id = id := by
      cases hshows with
      | inl hfeed => exact hfeed
      | inr hitem =>
        obtain ⟨it, hit, hitid⟩ := hitem
        obtain ⟨row, -, hrow, -, rfl⟩ := mem_listItems hlist hit
        exact hrow.symm.trans hitid
    have hxr : x = r := h.unique.eq_of_id hx hr (by rw [← hfid, hf, hid])
    refine ⟨by rw [← hxslug, hxr, hslug], ?_, exists_listItems_ok.mp ⟨items, hf ▸ hlist⟩⟩
    intro y hy hyid
    rw [h.unique.eq_of_id hy hx (by rw [hyid, ← hf, hfid])]
    exact exists_scanFeedRow_ok.mp ⟨f, hscan⟩
  · rintro ⟨rfl, hscans, hread⟩
    obtain ⟨f, hscan⟩ := exists_scanFeedRow_ok.mpr (hscans r hr hid)
    have hfid : f.id = id := (scanFeedRow_ok hscan).1.trans hid
    obtain ⟨items, hlist⟩ := exists_listItems_ok.mpr hread
    have hget : getFeedBySlug db s = .ok (some f) := by
      have hfind : db.feeds.find? (·.slug == s) = some r :=
        (find?_eq_some_of_nodup h.unique.slugs fun _ => beq_iff_eq.1).2
          ⟨hr, by rw [hslug, beq_self_eq_true]⟩
      simp [getFeedBySlug, hfind, hscan, Except.map]
    exact ⟨_, material_document.mpr ⟨f, items, hget, hfid ▸ hlist, rfl⟩, Or.inl hfid⟩

theorem absent_iff_hidden (h : Buried id slug db) (listing : Listing) :
    Absent id db listing ↔ Hidden id slug db listing := by
  have habsent : Absent id db listing ↔
      ¬ ∃ m, material db listing.request = .ok m ∧ m.Shows id := by
    simp [Absent]
  rw [habsent]
  cases listing with
  | index =>
    rw [shows_index_iff, not_and_or]
    simp [Hidden]
  | document s kind =>
    rw [shows_document_iff h, not_and_or, not_and_or]
    simp [Hidden]
end

/-- **After a deletion** a listing, rendered from whatever store the later writes lead to, does
not show the feed exactly when it is hidden from it. -/
theorem absent_deleted_iff (db : DB) (hdb : UniqueFeeds db) (r : FeedRow) (hr : r ∈ db.feeds)
    (expectedVersion : ℕ) (now : ℤ) (hdel : (deleteFeed db r.id expectedVersion now).2 = .ok ())
    (writes : List FeedWrite) (listing : Listing) :
    Absent r.id (exec FeedWrite.apply (deleteFeed db r.id expectedVersion now).1 writes) listing ↔
      Hidden r.id (tombstone r.slug now)
        (exec FeedWrite.apply (deleteFeed db r.id expectedVersion now).1 writes) listing := by
  have hburied := exec_induction FeedWrite.apply (Buried r.id (tombstone r.slug now))
    (fun _ w h => FeedWrite.buried h w) writes _ (buried_deleteFeed hdb hr hdel)
  exact absent_iff_hidden hburied listing

/-! ## A deletion -/

/-- A feed with one item. -/
def newsRow : FeedRow :=
  { id := 1, slug := "news", title := "News", kind := .generative, enabled := true,
    createdAt := march2026, updatedAt := march2026 }

def newsStore : DB where
  feeds := [newsRow]
  items := [{ id := 1, feedID := 1, itemKey := "01KN2M0000QV1Z7J3C5D8E9FGH",
              contentHash := ⟨"new season"⟩, title := "New season", publishedAt := march2026,
              origin := .generated }]

/-- The document of the feed under the slug it has after a deletion at midnight. -/
def tombstoneDocument : Listing := .document "news-deleted-1772323200000000000" (.feed .xml)

theorem uniqueFeeds_newsStore : UniqueFeeds newsStore := ⟨by decide, by decide⟩

/-- Right after its deletion the feed is on the index and is served under its tombstone. -/
theorem not_absent_newsStore : (deleteFeed newsStore 1 1 march2026).2 = .ok () ∧
    ¬ Absent 1 (deleteFeed newsStore 1 1 march2026).1 .index ∧
    ¬ Absent 1 (deleteFeed newsStore 1 1 march2026).1 tombstoneDocument := by
  have hdel : (deleteFeed newsStore newsRow.id 1 march2026).2 = .ok () := by decide +kernel
  have hburied : Buried 1 "news-deleted-1772323200000000000"
      (deleteFeed newsStore 1 1 march2026).1 :=
    buried_deleteFeed uniqueFeeds_newsStore mem_cons_self hdel
  refine ⟨hdel, ?_, ?_⟩
  · rw [absent_iff_hidden hburied]
    decide +kernel
  · rw [absent_iff_hidden hburied]
    decide +kernel

/-- The deleted feed fails and is disabled, and another one takes its slug. -/
def newsWrites : List FeedWrite :=
  [.recordFailure 1, .disable 1 march2026,
   .call (.create { slug := "news", title := "News", kind := .grounded } { kind := .grounded }
     { enabled := true } march2026)]

/-- Then neither the index nor that slug shows it. -/
theorem absent_deleted_newsStore :
    Absent 1 (exec FeedWrite.apply (deleteFeed newsStore 1 1 march2026).1 newsWrites) .index ∧
    Absent 1 (exec FeedWrite.apply (deleteFeed newsStore 1 1 march2026).1 newsWrites)
      (.document "news" (.feed .json)) := by
  have hiff := absent_deleted_iff newsStore uniqueFeeds_newsStore newsRow mem_cons_self 1
    march2026 (by decide +kernel) newsWrites
  exact ⟨(hiff .index).mpr (by decide +kernel),
    (hiff (.document "news" (.feed .json))).mpr (by decide +kernel)⟩

end AnimeFeedFlux.Publish
