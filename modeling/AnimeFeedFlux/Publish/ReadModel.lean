import AnimeFeedFlux.Render.Documents
import AnimeFeedFlux.Store.ItemReads
import AnimeFeedFlux.Store.Runs

/-!
# Two readers of one table

The publish plane reads `items` through `listItems` and `getItem`, with a column list and a scan
of its own; the store reads the same rows through `scanItem`.  The two lists differ in one
column: the publish plane does not select `formats_json`.  The variants a run committed
therefore never reach a document, and the two readers agree exactly on rows without variants.
-/

namespace AnimeFeedFlux.Publish

open Render

/-- `it` is what the publish plane returns for `row`: at its place in the window of its feed,
or under its key. -/
inductive Returned (db : DB) (row it : Item) : Prop
  | listed (items : List Item) (i : ℕ) (hlist : listItems db row.feedID = .ok items)
      (hrow : (feedWindow db row.feedID)[i]? = some row) (hit : items[i]? = some it)
  | permalink (feed : Feed) (hget : getItem db row.itemKey = .ok (some (feed, it)))
      (hrow : db.items.find? (·.itemKey == row.itemKey) = some row)

/-- The fields the renderers and the handlers consult. -/
structure RenderedAlike (a b : Item) : Prop where
  itemKey : a.itemKey = b.itemKey
  title : a.title = b.title
  summaryText : a.summaryText = b.summaryText
  bodyHTML : a.bodyHTML = b.bodyHTML
  answerHTML : a.answerHTML = b.answerHTML
  formats : a.formats = b.formats
  link : a.link = b.link
  sourceName : a.sourceName = b.sourceName
  publishedAt : a.publishedAt = b.publishedAt
  updatedAt : a.updatedAt = b.updatedAt
  editedAt : a.editedAt = b.editedAt
  deletedAt : a.deletedAt = b.deletedAt

variable {db : DB} {row it : Item}

theorem Returned.scan (h : Returned db row it) : scanItemRow row = .ok it := by
  cases h with
  | listed items i hlist hrow hit =>
    have hmap := congrArg (·[i]?) (mapM_eq_ok.1 hlist)
    simp only [List.getElem?_map, hrow, hit, Option.map_some, Option.some.injEq] at hmap
    exact hmap
  | permalink feed hget hrow =>
    simp only [getItem, hrow] at hget
    split at hget
    · cases hget
    split at hget
    · cases hget
    rename_i scanned hscan
    split at hget
    · cases hget
    cases hget
    exact hscan

theorem Returned.readable (h : Returned db row it) : row.readable :=
  exists_scanItemRow_ok.1 ⟨it, h.scan⟩

/-- **The two readers agree exactly on rows without variants.** -/
theorem renderedAlike_iff {db : DB} {row it : Item} (h : Returned db row it) :
    (∃ stored, scanItem row = .ok stored ∧ RenderedAlike it stored) ↔ row.formats = {} := by
  obtain rfl := scanItemRow_ok h.scan
  constructor
  · rintro ⟨stored, hscan, halike⟩
    obtain ⟨-, rfl⟩ := scanItem_ok.1 hscan
    exact halike.formats.symm
  · intro hformats
    exact ⟨row, scanItem_ok.2 ⟨h.readable, rfl⟩,
      ⟨rfl, rfl, rfl, rfl, rfl, hformats.symm, rfl, rfl, rfl, rfl, rfl, rfl⟩⟩

/-! ## A committed item -/

/-- `2026-01-01T00:00:00Z`. -/
def commitTime : ℤ := 63902822400 * Time.second

/-- A store with a feed and an open run of it. -/
def openRun : DB where
  feeds := [{ id := 1, slug := "daily", title := "Daily", kind := .generative,
              createdAt := commitTime, updatedAt := commitTime }]
  runs := [{ id := 1, feedID := 1, startedAt := commitTime, status := .running, trigger := .cron }]

/-- What the run commits: one item, with a card variant or, if it is empty, none. -/
def committedItem (cardText : String) : Item :=
  { feedID := 1, itemKey := "k", contentHash := ⟨"h"⟩, title := "T", summaryText := "raw"
    formats := { cardText }, publishedAt := commitTime, origin := .generated }

/-- The row of that item. -/
def committedRow (cardText : String) : Item :=
  { (committedItem cardText).newRow commitTime (some 1) commitTime with id := 1 }

/-- The store once the run is closed. -/
def committed (cardText : String) : DB :=
  (commitRun openRun 1 [committedItem cardText] {} [] commitTime).toOption.getD openRun

/-- The feed window of a committed item without variants is what the store reads. -/
theorem renderedAlike_iff_plain : committedRow "" ∈ (committed "").items ∧
    ((∃ stored, scanItem (committedRow "") = .ok stored ∧
      RenderedAlike (committedRow "") stored) ↔ (committedRow "").formats = {}) :=
  ⟨by decide +kernel,
    renderedAlike_iff (.listed [committedRow ""] 0 (by decide +kernel : listItems (committed "") 1 =
      .ok [committedRow ""]) (by decide +kernel) rfl)⟩

/-- **A committed card variant is not rendered**: the run commits it and the store reads it
back, but neither the feed window nor the permalink lookup returns it. -/
theorem not_renderedAlike_card : Store.getItem (committed "card") "k" = .ok (committedRow "card") ∧
    cardText (committedRow "card") = "card" ∧
    listItems (committed "card") 1 = .ok [committedRow ""] ∧
    (getItem (committed "card") "k").map (Option.map Prod.snd) = .ok (some (committedRow "")) ∧
    cardText (committedRow "") = "raw" ∧
    ¬RenderedAlike (committedRow "") (committedRow "card") :=
  ⟨by decide +kernel, rfl, by decide +kernel, by decide +kernel, rfl,
    fun h => absurd h.formats (by decide)⟩

end AnimeFeedFlux.Publish
