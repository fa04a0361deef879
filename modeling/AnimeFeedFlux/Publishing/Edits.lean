import AnimeFeedFlux.Render.Documents
import AnimeFeedFlux.Rpc.ItemEdit
import AnimeFeedFlux.Sanitize.Html
import AnimeFeedFlux.Store.ItemReads

/-!
# What an edit changes for a reader

A renderer shows the stage-2 variant of a text where there is one.  An edit of the summary or
the body reaches a reader only if no variant of the old text is left.  The store's `UpdateItem`
empties the variants; the control plane's edits, `Update` and `RevertRevision`, do not touch
them.  So an edit takes effect exactly when the texts it changes have no variants.

An edit reads the store in several statements before it writes.  `EditCall` carries the store
as each of them found it.
-/

namespace AnimeFeedFlux

open Render List

/-! ## Edits -/

/-- A call of `Update` or `RevertRevision` and the store at each of its reads. -/
inductive EditCall
  | update (loading dating : DB) (req : UpdateRequest)
  | revert (loading grouping reading : Editorial) (dating : DB) (req : RevertRequest)

namespace EditCall

/-- The item the call is about. -/
def itemID : EditCall → ℕ
  | update _ _ req => req.id
  | revert _ _ _ _ req => req.itemID

/-- The version the caller saw. -/
def expectedVersion : EditCall → ℕ
  | update _ _ req => req.expectedVersion
  | revert _ _ _ _ req => req.expectedVersion

/-- The call up to its write. -/
def prepare (sanitize : String → String) : EditCall → Except RpcError (Item × Item)
  | update loading dating req => updatePrepare sanitize loading dating req
  | revert loading grouping reading dating req => revertPrepare loading grouping reading dating req

/-- The call, with its write to the store `e`. -/
def perform (sanitize : String → String) (e : Editorial) (c : EditCall) (now : ℤ) :
    Editorial × Except RpcError Item :=
  match c.prepare sanitize with
  | .error err => (e, .error err)
  | .ok (old, updated) => itemApplyEdit e old updated c.expectedVersion now

theorem id_of_prepare {sanitize : String → String} {c : EditCall} {old updated : Item}
    (h : c.prepare sanitize = .ok (old, updated)) : old.id = c.itemID := by
  cases c with
  | update loading dating req =>
    obtain ⟨row, -, hid, rfl⟩ := itemLoadByID_ok (updatePrepare_ok h).1
    exact hid
  | revert loading grouping reading dating req =>
    obtain ⟨row, -, hid, rfl⟩ := itemLoadByID_ok (revertPrepare_ok h).1
    exact hid

end EditCall

/-! ## The property and the condition -/

/-- The surfaces of the item `stored`, which was `row` before the edit to `updated`: where the
summary was changed, the card and the embed show the new one and have no variant of their own,
and where the body was changed, so do the feed and the page. -/
def TakesEffect (row updated stored : Item) : Prop :=
  (updated.summaryText ≠ row.summaryText →
    cardText stored = updated.summaryText ∧ embedText stored = updated.summaryText ∧
      stored.formats.cardText = "" ∧ stored.formats.embedText = "") ∧
  (updated.bodyHTML ≠ row.bodyHTML →
    feedHTML stored = updated.bodyHTML ∧ pageHTML stored = updated.bodyHTML ∧
      stored.formats.feedHTML = "" ∧ stored.formats.pageHTML = "")
deriving Decidable

/-- A text that is to be changed has no variants. -/
def NoStaleVariant (row updated : Item) : Prop :=
  (updated.summaryText ≠ row.summaryText →
    row.formats.cardText = "" ∧ row.formats.embedText = "") ∧
  (updated.bodyHTML ≠ row.bodyHTML → row.formats.feedHTML = "" ∧ row.formats.pageHTML = "")
deriving Decidable

/-! ## What is stored -/

theorem takesEffect_edited (row updated : Item) (now : ℤ) :
    TakesEffect row updated (row.edited updated now) ↔ NoStaleVariant row updated := by
  have hpair : ∀ v w raw : String,
      (orRaw v raw = raw ∧ orRaw w raw = raw ∧ v = "" ∧ w = "") ↔ (v = "" ∧ w = "") := by
    intro v w raw
    constructor
    · exact fun h => h.2.2
    rintro ⟨rfl, rfl⟩
    exact ⟨rfl, rfl, rfl, rfl⟩
  exact and_congr (imp_congr_right fun _ => hpair _ _ _) (imp_congr_right fun _ => hpair _ _ _)

/-- What an edit that was answered with the item did: the row is the edited one, and it reads
back. -/
theorem itemApplyEdit_ok {e : Editorial} (hunique : UniqueItems e.db) {old updated it row : Item}
    {expectedVersion : ℕ} {now : ℤ}
    (hok : (itemApplyEdit e old updated expectedVersion now).2 = .ok it)
    (hrow : row ∈ e.db.items) (hid : row.id = old.id) :
    Store.getItem (itemApplyEdit e old updated expectedVersion now).1.db row.itemKey =
      .ok (row.edited updated now) := by
  simp only [itemApplyEdit] at hok ⊢
  split at hok
  · cases hok
  rename_i matched hfind
  obtain ⟨rfl, hmatched⟩ := hunique.eq_of_selected hfind hrow hid
  split at hok
  · cases hok
  rename_i hfree
  split at hok
  · rename_i reloaded hload
    simp only [if_neg hfree]
    -- The reload found the edited row, so that row can be read.
    have hunique' : UniqueItems (e.edit old updated expectedVersion now).db := by
      refine hunique.map (fun x => ?_) (fun x => ?_) <;> split <;> rfl
    have hedited : matched.edited updated now ∈ (e.edit old updated expectedVersion now).db.items :=
      mem_map.2 ⟨matched, hrow, by simp [hmatched]⟩
    have hread : (matched.edited updated now).readable = true := by
      simp only [itemLoadByID] at hload
      split at hload
      · cases hload
      rename_i found hfound
      have hfoundID : found.id = old.id := by simpa using find?_some hfound
      rw [hunique'.eq_of_id hedited (mem_of_find?_eq_some hfound) (hmatched.1.trans hfoundID.symm)]
      split at hload
      · assumption
      · cases hload
    have hget := hunique'.getItem_eq hedited
    rw [scanItem, if_pos hread] at hget
    exact hget
  · cases hok

/-! ## When an edit takes effect -/

section
variable {sanitize : String → String} {e : Editorial} {c : EditCall} {now : ℤ}
  {row old updated it : Item}

/-- **An edit takes effect exactly when the texts it changes have no variants.**  Whatever the
call read before, if it is answered with the item then the store reads the item back, and its
surfaces show the new texts exactly under `NoStaleVariant`. -/
theorem takesEffect_iff (hunique : UniqueItems e.db) (hrow : row ∈ e.db.items)
    (hid : row.id = c.itemID) (hprep : c.prepare sanitize = .ok (old, updated))
    (hok : (c.perform sanitize e now).2 = .ok it) :
    ∃ stored, Store.getItem (c.perform sanitize e now).1.db row.itemKey = .ok stored ∧
      (TakesEffect row updated stored ↔ NoStaleVariant row updated) := by
  simp only [EditCall.perform, hprep] at hok ⊢
  have hold : row.id = old.id := hid.trans (EditCall.id_of_prepare hprep).symm
  exact ⟨_, itemApplyEdit_ok hunique hok hrow hold, takesEffect_edited row updated now⟩

end

/-- An item with a card variant, or none if it is empty. -/
def formattedItem (cardText : String) : Item :=
  { id := 1, feedID := 1, itemKey := "k", contentHash := ⟨"h"⟩, title := "T"
    summaryText := "old", bodyHTML := "body", formats := { cardText }
    publishedAt := 63902822400 * Time.second, origin := .generated }

/-- A store with that item only. -/
def formattedStore (cardText : String) : Editorial :=
  { db := { items := [formattedItem cardText] } }

/-- A new summary for it; the title and the body stay.  Read and written without
interruption. -/
def newSummary (cardText : String) : EditCall :=
  .update (formattedStore cardText).db (formattedStore cardText).db
    { id := 1, expectedVersion := 1, title := "T", summaryText := "new", bodyHTML := "body" }

/-- The item with the new summary, as it is loaded and edited. -/
def summarized : Item := { formattedItem "" with summaryText := "new" }

/-- Without a variant the new summary is shown. -/
theorem takesEffect_iff_plain : NoStaleVariant (formattedItem "") summarized ∧
    ∃ stored, Store.getItem ((newSummary "").perform (Sanitize.htmlText GoStrings.asciiCase)
        (formattedStore "") 1).1.db "k" = .ok stored ∧
      (TakesEffect (formattedItem "") summarized stored ↔
        NoStaleVariant (formattedItem "") summarized) := by
  have hmem : formattedItem "" ∈ (formattedStore "").db.items := mem_singleton_self _
  have hid : (formattedItem "").id = (newSummary "").itemID := rfl
  have hprep : (newSummary "").prepare (Sanitize.htmlText GoStrings.asciiCase) =
      .ok (formattedItem "", summarized) := by decide +kernel
  have hok : ((newSummary "").perform (Sanitize.htmlText GoStrings.asciiCase)
      (formattedStore "") 1).2 = .ok ((formattedItem "").edited summarized 1) := by decide +kernel
  exact ⟨by decide, takesEffect_iff (by decide) hmem hid hprep hok⟩

/-- **With a variant the card keeps the old text**: the edit goes through, and the store reads
back an item whose card is still the one made from the old summary. -/
theorem not_takesEffect_card :
    ∃ stored, Store.getItem ((newSummary "card").perform (Sanitize.htmlText GoStrings.asciiCase)
        (formattedStore "card") 1).1.db "k" = .ok stored ∧
      ((newSummary "card").perform (Sanitize.htmlText GoStrings.asciiCase)
        (formattedStore "card") 1).2 = .ok { stored with formats := {} } ∧
      stored.summaryText = "new" ∧ cardText stored = "card" ∧
      ¬TakesEffect (formattedItem "card") summarized stored :=
  ⟨(formattedItem "card").edited summarized 1, by decide +kernel⟩

end AnimeFeedFlux
