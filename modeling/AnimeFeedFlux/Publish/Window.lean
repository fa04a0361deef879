import AnimeFeedFlux.Publish.Guids
import AnimeFeedFlux.Store.ItemReads

/-!
# The window of a feed

A recipe says how many items its feed shows.  The publish plane does not read recipes: its query
takes the first `defaultFeedWindow` rows by the text of `published_at`, and the renderers sort
what they are given by the instant.  A document therefore shows what the recipe asks for
exactly when the two counts select equally many items and the order of the texts leaves out no
item that is later than one it keeps.
-/

namespace AnimeFeedFlux.Publish

open Render List

/-! ## The greatest elements of a list -/

/-- `shown` are the `k` elements of `all` with the greatest keys, or all of them if there are
fewer, greatest first. -/
structure IsTop {α : Type} (key : α → ℤ) (k : ℕ) (all shown : List α) : Prop where
  length : shown.length = min all.length k
  nodup : shown.Nodup
  subset : ∀ x ∈ shown, x ∈ all
  sorted : shown.Pairwise fun a b => key b ≤ key a
  greatest : ∀ x ∈ all, x ∉ shown → ∀ y ∈ shown, key x ≤ key y

/-- The first `w` elements in some order, sorted by their keys, are the greatest `k` exactly when
there are as many and none of the rest has a greater key. -/
theorem isTop_iff_split {α : Type} {key : α → ℤ} {k w : ℕ} {all l shown : List α}
    (hl : l.Nodup) (hall : l.Perm all) (hshown : shown.Perm (l.take w))
    (hsorted : shown.Pairwise fun a b => key b ≤ key a) :
    IsTop key k all shown ↔
      min all.length w = min all.length k ∧ ∀ y ∈ l.take w, ∀ x ∈ l.drop w, key x ≤ key y := by
  have hlength : shown.length = min all.length w := by
    rw [hshown.length_eq, length_take, hall.length_eq, min_comm]
  have hdisjoint := disjoint_take_drop hl (le_refl w)
  constructor
  · intro h
    refine ⟨hlength.symm.trans h.length, fun y hy x hx => ?_⟩
    refine h.greatest x (hall.mem_iff.1 (mem_of_mem_drop hx)) (fun hmem => ?_) y
      (hshown.mem_iff.2 hy)
    exact hdisjoint (hshown.mem_iff.1 hmem) hx
  · rintro ⟨hcount, hedge⟩
    refine ⟨hlength.trans hcount, hshown.nodup_iff.2 (hl.sublist (take_sublist w l)), ?_,
      hsorted, ?_⟩
    · exact fun x hx => hall.mem_iff.1 (mem_of_mem_take (hshown.mem_iff.1 hx))
    intro x hx hnot y hy
    have hmem : x ∈ l.take w ++ l.drop w := by
      rw [take_append_drop]
      exact hall.mem_iff.2 hx
    rcases mem_append.1 hmem with hmem | hmem
    · exact absurd (hshown.mem_iff.2 hmem) hnot
    · exact hedge y (hshown.mem_iff.1 hy) x hmem

/-! ## Windows -/

/-- `feedspec.Spec` with its `FeedWindow`, which no path of generation reads. -/
structure Recipe extends FeedSpec where
  feedWindow : ℤ := 50
  deriving DecidableEq, Repr

/-- The rows of a feed that are not soft-deleted. -/
def liveItems (db : DB) (feedID : ℕ) : List Item :=
  db.items.filter fun it => it.feedID == feedID && it.deletedAt.isNone

/-- Those rows as the query orders them. -/
def byText (db : DB) (feedID : ℕ) : List Item :=
  (liveItems db feedID).insertionSort fun a b => formatTime b.publishedAt ≤ formatTime a.publishedAt

/-- The guid of a row in the documents of its feed. -/
def guidOf (deps : Deps) (slug : String) (it : Item) : String :=
  tagURI deps.baseURL deps.tagYear slug it.itemKey

/-- The document shows the `window` latest live items of the feed, newest first. -/
def ServesWindow (deps : Deps) (db : DB) (row : FeedRow) (window : ℕ) (page : Page) : Prop :=
  ∃ shown, IsTop (·.publishedAt) window (liveItems db row.id) shown ∧
    page.guids = shown.map (guidOf deps row.slug)

/-- The recipe's window and the query's select equally many items. -/
def SameCount (db : DB) (feedID window : ℕ) : Prop :=
  min (liveItems db feedID).length defaultFeedWindow = min (liveItems db feedID).length window
deriving Decidable

/-- No row after the first `defaultFeedWindow` by text is later than one of those. -/
def EdgeInOrder (db : DB) (feedID : ℕ) : Prop :=
  ∀ y ∈ (byText db feedID).take defaultFeedWindow, ∀ x ∈ (byText db feedID).drop defaultFeedWindow,
    x.publishedAt ≤ y.publishedAt
deriving Decidable

/-! ## What a document shows -/

variable {deps : Deps} {slug : String} {db : DB}

theorem guidOf_inj {x y : Item} :
    guidOf deps slug x = guidOf deps slug y ↔ x.itemKey = y.itemKey := by
  constructor
  · intro h
    have hlist := congrArg String.toList h
    simpa [guidOf, tagURI, String.toList_append, String.toList_inj] using hlist
  · intro h
    simp [guidOf, h]

theorem eq_of_map_guidOf (hunique : UniqueItems db) :
    ∀ {xs ys : List Item}, (∀ x ∈ xs, x ∈ db.items) → (∀ y ∈ ys, y ∈ db.items) →
      xs.map (guidOf deps slug) = ys.map (guidOf deps slug) → xs = ys := by
  intro xs
  induction xs with
  | nil =>
    intro ys _ _ h
    exact (map_eq_nil_iff.1 h.symm).symm
  | cons x xs ih =>
    intro ys hxs hys h
    cases ys with
    | nil => cases h
    | cons y ys =>
      simp only [map_cons, List.cons.injEq, guidOf_inj] at h
      have hhead := hunique.eq_of_key (hxs x (mem_cons_self ..)) (hys y (mem_cons_self ..)) h.1
      have htail := ih (fun z hz => hxs z (mem_cons_of_mem _ hz))
        (fun z hz => hys z (mem_cons_of_mem _ hz)) h.2
      rw [hhead, htail]

theorem mem_items_of_mem_liveItems {feedID : ℕ} {it : Item} (h : it ∈ liveItems db feedID) :
    it ∈ db.items := mem_of_mem_filter h

theorem byText_perm (db : DB) (feedID : ℕ) : (byText db feedID).Perm (liveItems db feedID) :=
  perm_insertionSort _ _

theorem newestFirst_perm (items : List Item) : (newestFirst items).Perm items :=
  perm_insertionSort _ _

theorem sorted_newestFirst (items : List Item) :
    (newestFirst items).Pairwise fun a b => b.publishedAt ≤ a.publishedAt := by
  have : Std.Total fun a b : Item => b.publishedAt ≤ a.publishedAt :=
    ⟨fun a b => le_total b.publishedAt a.publishedAt⟩
  have : IsTrans Item fun a b => b.publishedAt ≤ a.publishedAt :=
    ⟨fun a b c hab hbc => hbc.trans hab⟩
  exact pairwise_insertionSort _ items

theorem newestFirst_map {f : Item → Item} (hf : ∀ it, (f it).publishedAt = it.publishedAt)
    (items : List Item) : newestFirst (items.map f) = (newestFirst items).map f := by
  refine (map_insertionSort _ _ f items fun a _ b _ => ?_).symm
  rw [hf, hf]

section
variable {deps : Deps} {db : DB} {slug : String} {format : Format} {now : ℤ} {d : Document}
  {row : FeedRow}

/-- **What a feed document shows**: the rows of the query, sorted by the instant. -/
theorem guids_renderFeed (hfeeds : UniqueFeeds db) (hrow : row ∈ db.feeds)
    (h : renderFeed deps db row.slug format now = some d) :
    d.page.guids = (newestFirst (feedWindow db row.id)).map (guidOf deps row.slug) := by
  simp only [renderFeed] at h
  split at h
  · rename_i f hget
    split at h
    · rename_i items hlist
      cases h
      obtain ⟨found, hfound, hslug, hscan⟩ := getFeedBySlug_ok hget
      obtain rfl := hfeeds.eq_of_slug hfound hrow hslug
      obtain ⟨hid, hfslug, -, -, hcreated⟩ := scanFeedRow_ok hscan
      have hitems : items = (feedWindow db found.id).map fun it => { it with formats := {} } :=
        listItems_eq_map (hid ▸ hlist)
      have hyear : tagYearFor deps f = deps.tagYear := by
        rw [tagYearFor, hcreated]
        rfl
      rw [Document.page, guids_feedPage, hitems]
      simp only [windowChannel]
      rw [newestFirst_map (f := fun it => { it with formats := {} }) (fun _ => rfl), map_map]
      refine map_congr_left fun it _ => ?_
      simp [Channel.tagURI, hyear, hfslug, guidOf]
    · cases h
  · cases h

/-- **When a document shows the window of its recipe**: exactly when the recipe's window and the
query's select equally many items, and the order of the texts leaves out no later item. -/
theorem servesWindow_iff (recipe : Recipe) (hfeeds : UniqueFeeds db) (hitems : UniqueItems db)
    (hrow : row ∈ db.feeds) (h : renderFeed deps db row.slug format now = some d) :
    ServesWindow deps db row recipe.feedWindow.toNat d.page ↔
      SameCount db row.id recipe.feedWindow.toNat ∧ EdgeInOrder db row.id := by
  have hguids := guids_renderFeed hfeeds hrow h
  have hnodup : (byText db row.id).Nodup :=
    (byText_perm db row.id).nodup_iff.2 ((List.Nodup.of_map _ hitems.ids).filter _)
  have hsplit : IsTop (·.publishedAt) recipe.feedWindow.toNat (liveItems db row.id)
      (newestFirst (feedWindow db row.id)) ↔
        SameCount db row.id recipe.feedWindow.toNat ∧ EdgeInOrder db row.id :=
    isTop_iff_split hnodup (byText_perm db row.id) (newestFirst_perm _) (sorted_newestFirst _)
  refine Iff.trans ⟨?_, fun htop => ⟨_, htop, hguids⟩⟩ hsplit
  rintro ⟨shown, htop, hshown⟩
  have hwindow : ∀ x ∈ newestFirst (feedWindow db row.id), x ∈ db.items := fun x hx =>
    mem_items_of_mem_liveItems ((byText_perm db row.id).mem_iff.1
      (mem_of_mem_take ((newestFirst_perm _).mem_iff.1 hx)))
  have hsame : shown = newestFirst (feedWindow db row.id) :=
    eq_of_map_guidOf hitems (fun x hx => mem_items_of_mem_liveItems (htop.subset x hx)) hwindow
      (hshown.symm.trans hguids)
  exact hsame ▸ htop

end

/-- **The guids of a feed document are distinct**, and each is that of a live item. -/
theorem nodup_guids (deps : Deps) (c : Catalogue) (slug : String) (format : Format) (now : ℤ) :
    let guids := (renderFeed deps c.db slug format now).elim [] (·.page.guids)
    guids.Nodup ∧
      ∀ g ∈ guids, ∃ it ∈ c.db.items, it.deletedAt = none ∧ g = guidOf deps slug it := by
  cases h : renderFeed deps c.db slug format now with
  | none => simp
  | some d =>
    obtain ⟨row, hrow, rfl⟩ : ∃ row ∈ c.db.feeds, row.slug = slug := by
      unfold renderFeed at h
      split at h
      · exact (getFeedBySlug_ok ‹_›).imp fun _ hr => ⟨hr.1, hr.2.1⟩
      · cases h
    have hperm := newestFirst_perm (feedWindow c.db row.id)
    have hlive : ∀ it ∈ newestFirst _, it ∈ liveItems c.db row.id := fun it hit =>
      (byText_perm _ _).mem_iff.1 (mem_of_mem_take (hperm.mem_iff.1 hit))
    have hnodup : (byText c.db row.id).Nodup :=
      (byText_perm _ _).nodup_iff.2 ((Nodup.of_map _ c.keys).filter _)
    rw [Option.elim_some, guids_renderFeed c.feeds hrow h]
    refine ⟨(hperm.nodup_iff.2 (hnodup.sublist (take_sublist _ _))).map_on ?_, fun g hg => ?_⟩
    · exact fun x hx y hy hxy => inj_on_of_nodup_map c.keys (mem_of_mem_filter (hlive x hx))
        (mem_of_mem_filter (hlive y hy)) (guidOf_inj.1 hxy)
    · obtain ⟨it, hit, rfl⟩ := mem_map.1 hg
      obtain ⟨hmem, hcond⟩ := mem_filter.1 (hlive it hit)
      exact ⟨it, hmem, by simp_all, rfl⟩

/-! ## Two feeds that show something else -/

/-- `2026-01-01T00:00:00Z`. -/
def windowTime : ℤ := 63902822400 * Time.second

/-- A feed with a recipe. -/
def recipeFeed (recipe : Recipe) : FeedRow :=
  { id := 1, slug := "daily", title := "Daily", kind := .generative, spec := some recipe.toFeedSpec
    createdAt := windowTime, updatedAt := windowTime }

/-- An item of it, `nanos` after the new year. -/
def itemAt (id : ℕ) (nanos : ℤ) : Item :=
  { id, feedID := 1, itemKey := toString id, contentHash := ⟨toString id⟩, title := "T"
    publishedAt := windowTime + nanos, origin := .generated }

/-- The feed with one item in each of the first `n` seconds. -/
def everySecond (recipe : Recipe) (n : ℕ) : DB where
  feeds := [recipeFeed recipe]
  items := (List.range n).map fun i => itemAt (i + 1) (i * Time.second)

/-- A recipe that asks for one item. -/
def oneItem : Recipe := { kind := .generative, feedWindow := 1 }

def windowDeps : Deps := { baseURL := "https://feeds.example", tagYear := 2026 }

/-- What the publish plane serves for a store with that feed. -/
def servedDocument (db : DB) : Option Document :=
  renderFeed windowDeps db "daily" .xml windowTime

/-- The feed with two items in second `n` and one in each second before, as the query orders them:
the later of the two after the other. -/
def crowded (n : ℕ) : DB where
  feeds := [recipeFeed { kind := .generative }]
  items := itemAt (n + 1) (n * Time.second) :: itemAt (n + 2) (n * Time.second + 1) ::
    (List.range n).map fun i => itemAt (n - i) ((n - i - 1 : ℕ) * Time.second)

/-- Fewer items than the window, and more: the window is served. -/
theorem servesWindow_iff_crowded :
    [3, 60].Forall fun n => ∃ d, servedDocument (crowded n) = some d ∧
      SameCount (crowded n) 1 50 ∧ EdgeInOrder (crowded n) 1 ∧
      ServesWindow windowDeps (crowded n) (recipeFeed { kind := .generative }) 50 d.page := by
  refine forall_iff_forall_mem.2 fun n hn => ?_
  have hserved : ∀ n ∈ [3, 60], (servedDocument (crowded n)).isSome = true := by decide +kernel
  have hitems : ∀ n ∈ [3, 60], UniqueItems (crowded n) := by decide +kernel
  have hcount : ∀ n ∈ [3, 60], SameCount (crowded n) 1 50 := by decide +kernel
  have hedge : ∀ n ∈ [3, 60], EdgeInOrder (crowded n) 1 := by decide +kernel
  obtain ⟨d, hd⟩ := Option.isSome_iff_exists.1 (hserved n hn)
  have hfeeds : UniqueFeeds (crowded n) := ⟨nodup_singleton _, nodup_singleton _⟩
  exact ⟨d, hd, hcount n hn, hedge n hn, (servesWindow_iff { kind := .generative } hfeeds
    (hitems n hn) (mem_singleton_self _) hd).2 ⟨hcount n hn, hedge n hn⟩⟩

/-- The guids of five items. -/
theorem nodup_guids_crowded : let guids := (servedDocument (crowded 3)).elim [] (·.page.guids)
    guids.length = 5 ∧ guids.Nodup ∧ ∀ g ∈ guids,
      ∃ it ∈ (crowded 3).items, it.deletedAt = none ∧ g = guidOf windowDeps "daily" it :=
  ⟨by decide +kernel, nodup_guids _ ⟨crowded 3, ⟨by decide, by decide⟩, by decide +kernel⟩ "daily"
    .xml windowTime⟩

/-- **A recipe that asks for one item gets two.** -/
theorem not_servesWindow_oneItem :
    ∃ d, servedDocument (everySecond oneItem 2) = some d ∧ d.page.guids.length = 2 ∧
      ¬ServesWindow windowDeps (everySecond oneItem 2) (recipeFeed oneItem)
        oneItem.feedWindow.toNat d.page := by
  have hserved : (servedDocument (everySecond oneItem 2)).any
      (fun d => d.page.guids.length == 2) = true := by decide +kernel
  obtain ⟨d, hd, hlength⟩ := (Option.any_eq_true _ _).1 hserved
  have htwo : d.page.guids.length = 2 := by simpa using hlength
  refine ⟨d, hd, htwo, ?_⟩
  rintro ⟨shown, htop, hguids⟩
  have hshort : shown.length ≤ 1 := htop.length ▸ Nat.min_le_right _ _
  have hshown : shown.length = 2 := by rw [← htwo, hguids, length_map]
  omega

end AnimeFeedFlux.Publish
