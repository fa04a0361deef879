import AnimeFeedFlux.Store.Samples
import AnimeFeedFlux.Rpc.Status

/-!
# `ItemServer`

The control-plane methods that write items by hand: `Create`, `PublishCorrection` and
`Delete`.  The first two read the feed's newest timestamp, check or derive a stamp from it,
and only then insert, in a separate statement; each method is therefore cut into the part
up to the read (`createPrepare`, `correctionPrepare`) and the insert loop, so that the
interleavings between the two can be studied.

The HTML sanitiser and the item-key source are arguments.
-/

namespace AnimeFeedFlux

open GoStrings

def itemMaxPublishedAtYear : ℤ := 9999

def itemTimestampRetries : ℕ := 5

/-- `itemFeedSlug`: soft-deleted feeds are found too. -/
def itemFeedSlug (db : DB) (feedID : ℕ) : Option String :=
  (db.feeds.find? (·.id == feedID)).map (·.slug)

/-- `itemLoadByID`.  `formats_json` is not among the columns it reads. -/
def itemLoadByID (db : DB) (id : ℕ) : Except StoreError Item :=
  match db.items.find? (·.id == id) with
  | none => .error .notFound
  | some it => if it.readable then .ok { it with formats := {} } else .error .badTime

variable {db : DB} {it : Item}

theorem itemLoadByID_ok {id : ℕ} (h : itemLoadByID db id = .ok it) :
    ∃ row ∈ db.items, row.id = id ∧ it = { row with formats := {} } := by
  simp only [itemLoadByID] at h
  split at h
  · cases h
  rename_i row hfind
  split at h
  · cases h
    exact ⟨row, List.mem_of_find?_eq_some hfind, by simpa using List.find?_some hfind, rfl⟩
  · cases h

/-- `itemValidatePublishedAt`: neither the zero Time nor outside the four-digit years. -/
def itemValidatePublishedAt (t : ℤ) : Except RpcError Unit :=
  if Time.isZero t then
    .error ⟨.invalidArgument, "rpc: published_at is the zero time.Time (0001-01-01T00:00:00Z) — " ++
      "this is almost always an unset/uninitialized value rather than an intended date; set an " ++
      "explicit published_at or omit the field to default to now", none⟩
  else if Time.year t < 1 ∨ itemMaxPublishedAtYear < Time.year t then
    .error ⟨.invalidArgument, "rpc: published_at year " ++ toString (Time.year t) ++
      " is outside the four-digit range [0001, " ++ toString itemMaxPublishedAtYear ++
      "] that every feed format's date layout requires (PLAN.md §5.1/§5.2/§5.3) — this is a " ++
      "format-range rejection, not the RULE-7 backdating rule", none⟩
  else .ok ()

/-- The text of a time in a message, `time.RFC3339`. -/
def rfc3339 (t : ℤ) : String := String.ofList (secondText (Time.seconds t) ++ ['Z'])

/-- `itemRejectBackdated`: a stamp must be after the newest item, if there is one. -/
def itemRejectBackdated (published newest : ℤ) (feedSlug : String) : Except RpcError Unit :=
  if Time.isZero newest ∨ newest < published then .ok ()
  else .error ⟨.invalidArgument, "rpc: published_at " ++ rfc3339 published ++
    " is at or before feed \"" ++ feedSlug ++ "\"'s current newest item (" ++ rfc3339 newest ++
    ") — Slack's bookmark model would never surface it; choose a strictly later time", none⟩

def itemContentHash (feedID : ℕ) (title summary body link : String) : Digest :=
  ⟨toString feedID ++ "\x00" ++ title ++ "\x00" ++ summary ++ "\x00" ++ body ++ "\x00" ++ link⟩

theorem itemValidatePublishedAt_ok {t : ℤ} :
    itemValidatePublishedAt t = .ok () ↔ t ≠ 0 ∧ 1 ≤ Time.year t ∧ Time.year t ≤ 9999 := by
  by_cases hz : t = 0
  · simp [itemValidatePublishedAt, Time.isZero, hz]
  by_cases hy : Time.year t < 1 ∨ 9999 < Time.year t
  · simp [itemValidatePublishedAt, Time.isZero, hz, itemMaxPublishedAtYear, hy]
    omega
  · simp [itemValidatePublishedAt, Time.isZero, hz, itemMaxPublishedAtYear, hy]
    omega

/-! ## `Create` -/

/-- `ItemServiceCreateRequest.item`. -/
structure CreateRequest where
  feedID : ℕ
  title : String
  summaryText : String := ""
  bodyHTML : String := ""
  answerHTML : String := ""
  link : String := ""
  sourceName : String := ""
  publishedAt : Option ℤ := none
  deriving DecidableEq, Repr

/-- `Create` up to the insert: validation, the read of the newest timestamp, the backdating
check.  Returns the item and the stamp its insert starts from. -/
def createPrepare (sanitize : String → String) (newItemKey : ℤ → String) (db : DB)
    (req : CreateRequest) (now : ℤ) : Except RpcError (Item × ℤ) :=
  let title := trimSpace req.title
  if req.feedID = 0 then .error ⟨.invalidArgument, "rpc: item.feed_id is required", none⟩
  else if title = "" then .error ⟨.invalidArgument, "rpc: item.title is required", none⟩
  else match itemFeedSlug db req.feedID with
    | none => .error ⟨.notFound, "rpc: feed " ++ toString req.feedID ++ " not found", none⟩
    | some slug =>
      let published := Time.truncate (req.publishedAt.getD now)
      match itemValidatePublishedAt published with
      | .error e => .error e
      | .ok () => match newestPublished db req.feedID with
        | .error e => .error ⟨.internal, "rpc: parsing newest published_at", some e⟩
        | .ok newest => match itemRejectBackdated published (Time.truncate newest) slug with
          | .error e => .error e
          | .ok () =>
            let body := sanitize req.bodyHTML
            .ok ({ feedID := req.feedID
                   itemKey := newItemKey now
                   contentHash := itemContentHash req.feedID title req.summaryText body req.link
                   title
                   summaryText := req.summaryText
                   bodyHTML := body
                   answerHTML := sanitize req.answerHTML
                   link := req.link
                   sourceName := req.sourceName
                   publishedAt := published
                   origin := .manual }, published)

/-- The end of a method that inserted a row: reload it, or report why it was not
inserted. -/
def replyInserted (db : DB) (what : String) : Except StoreError DB → Reply Item
  | .error e => (db, .error ⟨.internal, what, some e⟩)
  | .ok db' =>
    match itemLoadByID db' (nextID (db.items.map (·.id))) with
    | .ok it => (db', .ok it)
    | .error e => (db', .error ⟨.internal, "rpc: reloading item", some e⟩)

@[simp] theorem replyInserted_db (db : DB) (what : String) (r : Except StoreError DB) :
    (replyInserted db what r).1 = r.toOption.getD db := by
  cases r with
  | error e => rfl
  | ok db' =>
    simp only [replyInserted]
    split <;> rfl

variable {now stamp : ℤ} {sanitize : String → String} {newItemKey : ℤ → String}

/-- What a prepared `Create` has checked: the stamp is a whole second after the newest item
it read, if there was one. -/
theorem createPrepare_ok {req : CreateRequest}
    (h : createPrepare sanitize newItemKey db req now = .ok (it, stamp)) :
    it.feedID = req.feedID ∧ stamp = Time.truncate (req.publishedAt.getD now) ∧
    itemValidatePublishedAt stamp = .ok () ∧
    ∃ newest, newestPublished db req.feedID = .ok newest ∧
      (Time.truncate newest = 0 ∨ Time.truncate newest < stamp) := by
  simp only [createPrepare] at h
  split at h
  · cases h
  split at h
  · cases h
  split at h
  · cases h
  split at h
  · cases h
  rename_i hvalid
  split at h
  · cases h
  rename_i newest hnewest
  split at h
  · cases h
  rename_i hback
  cases h
  refine ⟨rfl, rfl, hvalid, newest, hnewest, ?_⟩
  simp only [itemRejectBackdated, Time.isZero, beq_iff_eq] at hback
  split at hback
  · assumption
  · cases hback

/-- `ItemServer.Create`, run without interruption; `created` is the clock of `InsertItem`. -/
def create (sanitize : String → String) (newItemKey : ℤ → String) (db : DB)
    (req : CreateRequest) (now created : ℤ) : Reply Item :=
  match createPrepare sanitize newItemKey db req now with
  | .error e => (db, .error e)
  | .ok (it, stamp) =>
    replyInserted db "rpc: creating item"
      (retryNextSecond (fun t => insertItem db { it with publishedAt := t } created)
        itemTimestampRetries stamp)

/-! ## `PublishCorrection` -/

/-- `ItemServicePublishCorrectionRequest`. -/
structure CorrectionRequest where
  correctsItemID : ℕ
  title : String
  summaryText : String := ""
  bodyHTML : String := ""
  deriving DecidableEq, Repr

/-- `PublishCorrection` up to the insert.  Returns the correction and the stamp its insert
starts from. -/
def correctionPrepare (sanitize : String → String) (newItemKey : ℤ → String) (db : DB)
    (req : CorrectionRequest) (now : ℤ) : Except RpcError (Item × ℤ) :=
  let title := trimSpace req.title
  if req.correctsItemID = 0 then
    .error ⟨.invalidArgument, "rpc: corrects_item_id is required", none⟩
  else if title = "" then .error ⟨.invalidArgument, "rpc: title is required", none⟩
  else match itemLoadByID db req.correctsItemID with
    | .error .notFound =>
      .error ⟨.notFound, "rpc: item " ++ toString req.correctsItemID ++ " not found", none⟩
    | .error e => .error ⟨.internal, "rpc: loading item", some e⟩
    | .ok original => match itemFeedSlug db original.feedID with
      | none => .error ⟨.internal, "rpc: resolving feed", some .notFound⟩
      | some _ => match newestPublished db original.feedID with
        | .error e => .error ⟨.internal, "rpc: parsing newest published_at", some e⟩
        | .ok newest =>
          let stamp := promoteStamp now newest
          match itemValidatePublishedAt stamp with
          | .error e => .error e
          | .ok () =>
            let title := if hasPrefix title "Correction:" then title
                         else "Correction: " ++ title
            let body := sanitize req.bodyHTML
            .ok ({ feedID := original.feedID
                   itemKey := newItemKey now
                   contentHash := itemContentHash original.feedID title req.summaryText body
                     original.link
                   title
                   summaryText := req.summaryText
                   bodyHTML := body
                   link := original.link
                   sourceName := original.sourceName
                   publishedAt := stamp
                   origin := .correction }, stamp)

theorem correctionPrepare_ok {req : CorrectionRequest}
    (h : correctionPrepare sanitize newItemKey db req now = .ok (it, stamp)) :
    ∃ original newest, itemLoadByID db req.correctsItemID = .ok original ∧
      newestPublished db original.feedID = .ok newest ∧ it.feedID = original.feedID ∧
      stamp = promoteStamp now newest ∧ itemValidatePublishedAt stamp = .ok () := by
  simp only [correctionPrepare] at h
  split at h
  · cases h
  split at h
  · cases h
  split at h
  · cases h
  · cases h
  rename_i original horiginal
  split at h
  · cases h
  split at h
  · cases h
  rename_i newest hnewest
  split at h
  · cases h
  rename_i hvalid
  cases h
  exact ⟨original, newest, horiginal, hnewest, rfl, rfl, hvalid⟩

/-- `itemInsertCorrectionOnce`: the item and the link to the corrected one, in one
transaction. -/
def insertCorrectionOnce (db : DB) (it : Item) (correctsID : ℕ) (now stamp : ℤ) :
    Except StoreError DB :=
  match insertItemRow db (it.newRow stamp none now) with
  | .error e => .error e
  | .ok db' =>
    if db'.items.any (·.id == correctsID) then
      .ok { db' with corrections := db'.corrections ++
              [(nextID (db.items.map (·.id)), correctsID)] }
    else .error .foreignKey

variable {db' : DB} {correctsID : ℕ}

section
variable (h : insertCorrectionOnce db it correctsID now stamp = .ok db')
include h

theorem insertCorrectionOnce_rows :
    ∀ x ∈ db'.items, x ∈ db.items ∨ ∃ id, x = { it.newRow stamp none now with id } := by
  simp only [insertCorrectionOnce] at h
  split at h
  · cases h
  rename_i db₁ hins
  split at h
  · cases h
    exact fun x hx => insertItemRow_rows hins x hx
  · cases h

theorem insertCorrectionOnce_feeds : db'.feeds = db.feeds := by
  simp only [insertCorrectionOnce] at h
  split at h
  · cases h
  rename_i db₁ hins
  split at h
  · cases h
    have hfeeds := insertItemRow_feeds hins
    exact hfeeds
  · cases h

theorem insertCorrectionOnce_slots : db'.slots = db.slots ++ [(it.feedID, stamp)] := by
  simp only [insertCorrectionOnce] at h
  split at h
  · cases h
  rename_i db₁ hins
  split at h
  · cases h
    exact insertItemRow_slots hins
  · cases h

end

/-- `ItemServer.PublishCorrection`, run without interruption. -/
def publishCorrection (sanitize : String → String) (newItemKey : ℤ → String) (db : DB)
    (req : CorrectionRequest) (now : ℤ) : Reply Item :=
  match correctionPrepare sanitize newItemKey db req now with
  | .error e => (db, .error e)
  | .ok (it, stamp) =>
    replyInserted db "rpc: publishing correction"
      (retryNextSecond (insertCorrectionOnce db it req.correctsItemID now)
        itemTimestampRetries stamp)

/-! ## `Delete` -/

/-- `ItemServer.Delete`: a soft delete guarded by the version the caller saw. -/
def deleteItem (db : DB) (id expectedVersion : ℕ) (now : ℤ) : Reply Unit :=
  match itemLoadByID db id with
  | .error .notFound =>
    (db, .error ⟨.notFound, "rpc: item " ++ toString id ++ " not found", none⟩)
  | .error e => (db, .error ⟨.internal, "rpc: loading item", some e⟩)
  | .ok old =>
    if old.version = expectedVersion then
      ({ db with items := db.items.map fun it =>
           if it.id == id && it.version == expectedVersion then
             { it with deletedAt := some now, updatedAt := now, version := it.version + 1 }
           else it }, .ok ())
    else (db, .error ⟨.failedPrecondition, "rpc: item " ++ toString id ++ ": expected_version " ++
      toString expectedVersion ++ " does not match the current version", none⟩)

end AnimeFeedFlux
