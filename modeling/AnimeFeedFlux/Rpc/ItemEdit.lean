import AnimeFeedFlux.Rpc.Item

/-!
# Editing items

`Update` and `RevertRevision` are one edit: they build the item as it is to be and commit it
through `itemApplyEdit`, which updates the row under the version the caller saw and records
every field that changed in `item_revisions`.  A revert takes the old values of one group of
revisions, all those with the same `at`.

The columns of the edit are the texts and `published_at`; `formats_json` is not among them.

As in `Rpc.Item`, a method is cut into the part up to its write (`updatePrepare`,
`revertPrepare`), which is told the store at each of its reads, and the write.
-/

namespace AnimeFeedFlux

open GoStrings List

/-! ## The history -/

/-- The text columns an edit can change. -/
inductive TextField
  | title
  | summaryText
  | bodyHTML
  | answerHTML
  | link
  | sourceName
  deriving DecidableEq, Repr

namespace TextField

/-- The fields in the order `itemDiff` compares them. -/
def all : List TextField := [title, summaryText, bodyHTML, answerHTML, link, sourceName]

/-- The text of the field. -/
def get : TextField → Item → String
  | title, it => it.title
  | summaryText, it => it.summaryText
  | bodyHTML, it => it.bodyHTML
  | answerHTML, it => it.answerHTML
  | link, it => it.link
  | sourceName, it => it.sourceName

/-- The item with another text in the field. -/
def set (it : Item) : TextField → String → Item
  | title, s => { it with title := s }
  | summaryText, s => { it with summaryText := s }
  | bodyHTML, s => { it with bodyHTML := s }
  | answerHTML, s => { it with answerHTML := s }
  | link, s => { it with link := s }
  | sourceName, s => { it with sourceName := s }

end TextField

/-- The field and the two values of a row of `item_revisions`.  `NULL` reads as the empty text,
and a timestamp is an instant. -/
inductive FieldChange
  | text (field : TextField) (old new : String)
  | publishedAt (old new : ℤ)
  deriving DecidableEq, Repr

/-- A row of `item_revisions`; `recordedAt` is its column `at`. -/
structure Revision where
  id : ℕ
  itemID : ℕ
  recordedAt : ℤ
  change : FieldChange
  deriving DecidableEq, Repr

/-- The store with the table `item_revisions`. -/
structure Editorial where
  db : DB := {}
  revisions : List Revision := []
  deriving DecidableEq, Repr

def itemDiff (old updated : Item) : List FieldChange :=
  (TextField.all.filterMap fun f =>
    if f.get old ≠ f.get updated then some (.text f (f.get old) (f.get updated)) else none) ++
  if old.publishedAt ≠ updated.publishedAt then
    [.publishedAt old.publishedAt updated.publishedAt]
  else []

/-- The rows `itemApplyEdit` records. -/
def recordRevisions (revisions : List Revision) (itemID : ℕ) (now : ℤ) :
    List FieldChange → List Revision
  | [] => revisions
  | change :: rest =>
    recordRevisions
      (revisions ++ [{ id := nextID (revisions.map (·.id)), itemID, recordedAt := now, change }])
      itemID now rest

/-! ## The commit path -/

def itemVersionConflictErr (db : DB) (id expectedVersion : ℕ) : RpcError :=
  if db.items.any (·.id == id) then
    ⟨.failedPrecondition, "rpc: item " ++ toString id ++ ": expected_version " ++
      toString expectedVersion ++ " does not match the current version", none⟩
  else ⟨.notFound, "rpc: item " ++ toString id ++ " not found", none⟩

/-- The row an edit leaves. -/
def Item.edited (row updated : Item) (now : ℤ) : Item :=
  { row with
    title := updated.title, summaryText := updated.summaryText, bodyHTML := updated.bodyHTML
    answerHTML := updated.answerHTML, link := updated.link, sourceName := updated.sourceName
    publishedAt := updated.publishedAt, editedAt := some now, updatedAt := now
    version := row.version + 1 }

section
variable (e : Editorial) (old updated : Item) (expectedVersion : ℕ) (now : ℤ)

/-- What an edit commits. -/
def Editorial.edit : Editorial :=
  { db := { e.db with items := e.db.items.map fun row =>
      if row.id == old.id && row.version == expectedVersion then row.edited updated now else row }
    revisions := recordRevisions e.revisions old.id now (itemDiff old updated) }

/-- `itemApplyEdit`.  `published_at` is unique within a feed. -/
def itemApplyEdit : Editorial × Except RpcError Item :=
  match e.db.items.find? fun row => row.id == old.id && row.version == expectedVersion with
  | none => (e, .error (itemVersionConflictErr e.db old.id expectedVersion))
  | some row =>
    if e.db.items.any fun x => x.id != old.id && x.feedID == row.feedID &&
        formatTime x.publishedAt == formatTime updated.publishedAt then
      (e, .error ⟨.internal, "rpc: updating item " ++ toString old.id, some .unique⟩)
    else
      let e' := e.edit old updated expectedVersion now
      match itemLoadByID e'.db old.id with
      | .ok it => (e', .ok it)
      | .error err =>
        (e', .error ⟨.internal, "rpc: reloading item " ++ toString old.id, some err⟩)

theorem itemApplyEdit_cases :
    (∃ err, itemApplyEdit e old updated expectedVersion now = (e, .error err)) ∨
    ((∃ row ∈ e.db.items, row.id = old.id ∧ row.version = expectedVersion) ∧
      (itemApplyEdit e old updated expectedVersion now).1 =
        e.edit old updated expectedVersion now) := by
  simp only [itemApplyEdit]
  split
  · exact .inl ⟨_, rfl⟩
  rename_i row hfind
  have hrow := find?_some hfind
  simp only [Bool.and_eq_true, beq_iff_eq] at hrow
  split
  · exact .inl ⟨_, rfl⟩
  refine .inr ⟨⟨row, mem_of_find?_eq_some hfind, hrow⟩, ?_⟩
  split <;> rfl

end

/-! ## `Update` -/

/-- `itemNewestPublished`; an `excludeID` other than `0` leaves that item out. -/
def itemNewestPublished (db : DB) (feedID excludeID : ℕ) : Except StoreError ℤ :=
  newestPublished { db with items := db.items.filter fun it =>
    excludeID == 0 || it.id != excludeID } feedID

/-- `ItemServiceUpdateRequest`. -/
structure UpdateRequest where
  id : ℕ
  expectedVersion : ℕ
  title : String
  summaryText : String := ""
  bodyHTML : String := ""
  answerHTML : String := ""
  link : String := ""
  sourceName : String := ""
  publishedAt : Option ℤ := none
  deriving DecidableEq, Repr

/-- The answer to a failed `itemLoadByID`. -/
def itemLoadError (id : ℕ) : StoreError → RpcError
  | .notFound => ⟨.notFound, "rpc: item " ++ toString id ++ " not found", none⟩
  | e => ⟨.internal, "rpc: loading item " ++ toString id, some e⟩

/-- The `published_at` of an update: the item's own when the request has none or one in the
same second, else the requested second, if it is after every other item of the feed. -/
def updatePublishedAt (db : DB) (old : Item) : Option ℤ → Except RpcError ℤ
  | none => .ok old.publishedAt
  | some t =>
    let candidate := Time.truncate t
    match itemValidatePublishedAt candidate with
    | .error e => .error e
    | .ok () =>
      if candidate = Time.truncate old.publishedAt then .ok old.publishedAt
      else match itemNewestPublished db old.feedID old.id with
        | .error e => .error ⟨.internal, "rpc: reading newest published_at", some e⟩
        | .ok newest =>
          match itemRejectBackdated candidate (Time.truncate newest)
              (toString old.feedID) with
          | .error e => .error e
          | .ok () => .ok candidate

/-- `Update` up to its write: the item as it was read from `loading`, and as it is to be.  The
feed's newest timestamp is read from `dating`. -/
def updatePrepare (sanitize : String → String) (loading dating : DB) (req : UpdateRequest) :
    Except RpcError (Item × Item) :=
  let title := trimSpace req.title
  if req.id = 0 then .error ⟨.invalidArgument, "rpc: item.id is required", none⟩
  else if title = "" then .error ⟨.invalidArgument, "rpc: item.title is required", none⟩
  else match itemLoadByID loading req.id with
    | .error e => .error (itemLoadError req.id e)
    | .ok old =>
      match updatePublishedAt dating old req.publishedAt with
      | .error e => .error e
      | .ok publishedAt =>
        .ok (old, { old with title, summaryText := req.summaryText
                             bodyHTML := sanitize req.bodyHTML
                             answerHTML := sanitize req.answerHTML, link := req.link
                             sourceName := req.sourceName, publishedAt })

variable {sanitize : String → String} {loading dating : DB} {req : UpdateRequest}
  {old updated : Item}

theorem updatePrepare_eq (h : updatePrepare sanitize loading dating req = .ok (old, updated)) :
    itemLoadByID loading req.id = .ok old ∧ ∃ publishedAt,
      updatePublishedAt dating old req.publishedAt = .ok publishedAt ∧
      updated = { old with
        title := trimSpace req.title, summaryText := req.summaryText
        bodyHTML := sanitize req.bodyHTML, answerHTML := sanitize req.answerHTML
        link := req.link, sourceName := req.sourceName, publishedAt } := by
  simp only [updatePrepare] at h
  split at h
  · cases h
  split at h
  · cases h
  split at h
  · cases h
  rename_i hload
  split at h
  · cases h
  rename_i publishedAt hpublished
  cases h
  exact ⟨hload, publishedAt, hpublished, rfl⟩

theorem updatePrepare_ok (h : updatePrepare sanitize loading dating req = .ok (old, updated)) :
    itemLoadByID loading req.id = .ok old ∧ updated.summaryText = req.summaryText ∧
      updated.bodyHTML = sanitize req.bodyHTML ∧
      updated.answerHTML = sanitize req.answerHTML := by
  obtain ⟨hload, publishedAt, -, rfl⟩ := updatePrepare_eq h
  exact ⟨hload, rfl, rfl, rfl⟩

/-- `ItemServer.Update`, run without interruption; `now` is its `editStamp`. -/
def updateItem (sanitize : String → String) (e : Editorial) (req : UpdateRequest) (now : ℤ) :
    Editorial × Except RpcError Item :=
  match updatePrepare sanitize e.db e.db req with
  | .error err => (e, .error err)
  | .ok (old, updated) => itemApplyEdit e old updated req.expectedVersion now

/-! ## `RevertRevision` -/

def itemRevisionGroupAt (e : Editorial) (itemID revisionID : ℕ) : Option ℤ :=
  (e.revisions.find? fun r => r.id == revisionID && r.itemID == itemID).map (·.recordedAt)

/-- `itemLoadRevisionFields`: the changes recorded at one time, in order.  No row, or a time
that does not parse, is an error. -/
def itemLoadRevisionFields (e : Editorial) (itemID : ℕ) (at_ : ℤ) :
    Except StoreError (List FieldChange) :=
  match e.revisions.filter fun r =>
      r.itemID == itemID && formatTime r.recordedAt == formatTime at_ with
  | [] => .error .notFound
  | rows => if FourDigitYear at_ then .ok (rows.map (·.change)) else .error .badTime

/-- `itemApplyRevisionField`: the old value of a change.  A timestamp has to parse. -/
def itemApplyRevisionField (target : Item) : FieldChange → Except StoreError Item
  | .text f old _ => .ok (f.set target old)
  | .publishedAt old _ =>
    match parseTime old with
    | none => .error .badTime
    | some t => .ok { target with publishedAt := t }

/-- `ItemServiceRevertRevisionRequest`. -/
structure RevertRequest where
  itemID : ℕ
  revisionID : ℕ
  expectedVersion : ℕ
  deriving DecidableEq, Repr

/-- The checks on the `published_at` a revert restores. -/
def revertPublishedAt (db : DB) (old updated : Item) : Except RpcError Unit :=
  if updated.publishedAt = old.publishedAt then .ok ()
  else match itemValidatePublishedAt updated.publishedAt with
    | .error e => .error e
    | .ok () =>
      match itemNewestPublished db old.feedID old.id with
      | .error e => .error ⟨.internal, "rpc: reading newest published_at", some e⟩
      | .ok newest => itemRejectBackdated updated.publishedAt newest (toString old.feedID)

/-- `RevertRevision` up to its write.  The item, the group, its changes and the newest
timestamp are read one after the other. -/
def revertPrepare (loading grouping reading : Editorial) (dating : DB) (req : RevertRequest) :
    Except RpcError (Item × Item) :=
  if req.itemID = 0 then .error ⟨.invalidArgument, "rpc: item_id is required", none⟩
  else if req.revisionID = 0 then
    .error ⟨.invalidArgument, "rpc: revision_id is required", none⟩
  else match itemLoadByID loading.db req.itemID with
    | .error e => .error (itemLoadError req.itemID e)
    | .ok old =>
      match itemRevisionGroupAt grouping req.itemID req.revisionID with
      | none => .error ⟨.notFound, "rpc: revision " ++ toString req.revisionID ++ " for item " ++
          toString req.itemID ++ " not found", none⟩
      | some at_ =>
        match itemLoadRevisionFields reading req.itemID at_ with
        | .error e => .error ⟨.internal, "rpc: loading revision " ++
            toString req.revisionID ++ " fields", some e⟩
        | .ok changes =>
          match changes.foldlM itemApplyRevisionField old with
          | .error e => .error ⟨.internal, "rpc: reverting item " ++ toString req.itemID ++
              " to revision " ++ toString req.revisionID, some e⟩
          | .ok updated =>
            if trimSpace updated.title = "" then
              .error ⟨.failedPrecondition,
                "rpc: reverting would leave item.title empty", none⟩
            else match revertPublishedAt dating old updated with
              | .error e => .error e
              | .ok () => .ok (old, updated)

theorem revertPrepare_eq {loading grouping reading : Editorial} {req : RevertRequest}
    (h : revertPrepare loading grouping reading dating req = .ok (old, updated)) :
    itemLoadByID loading.db req.itemID = .ok old ∧ ∃ at_ changes,
      itemRevisionGroupAt grouping req.itemID req.revisionID = some at_ ∧
      itemLoadRevisionFields reading req.itemID at_ = .ok changes ∧
      changes.foldlM itemApplyRevisionField old = .ok updated := by
  simp only [revertPrepare] at h
  split at h
  · cases h
  split at h
  · cases h
  split at h
  · cases h
  rename_i hload
  split at h
  · cases h
  rename_i at_ hgroup
  split at h
  · cases h
  rename_i changes hfields
  split at h
  · cases h
  rename_i hfold
  split at h
  · cases h
  split at h
  · cases h
  cases h
  exact ⟨hload, at_, changes, hgroup, hfields, hfold⟩

theorem itemLoadRevisionFields_ok {e : Editorial} {itemID : ℕ} {at_ : ℤ}
    {changes : List FieldChange} (h : itemLoadRevisionFields e itemID at_ = .ok changes) :
    FourDigitYear at_ ∧ changes = (e.revisions.filter fun r =>
      r.itemID == itemID && formatTime r.recordedAt == formatTime at_).map (·.change) := by
  simp only [itemLoadRevisionFields] at h
  split at h
  · cases h
  split at h
  · rename_i hyear
    cases h
    exact ⟨hyear, rfl⟩
  · cases h

theorem revertPrepare_ok {loading grouping reading : Editorial} {req : RevertRequest}
    (h : revertPrepare loading grouping reading dating req = .ok (old, updated)) :
    itemLoadByID loading.db req.itemID = .ok old ∧ ∃ changes : List FieldChange,
      (∀ c ∈ changes, ∃ r ∈ reading.revisions, r.change = c) ∧
      changes.foldlM itemApplyRevisionField old = .ok updated := by
  obtain ⟨hload, at_, changes, -, hfields, hfold⟩ := revertPrepare_eq h
  obtain ⟨-, rfl⟩ := itemLoadRevisionFields_ok hfields
  refine ⟨hload, _, fun c hc => ?_, hfold⟩
  obtain ⟨r, hr, rfl⟩ := mem_map.1 hc
  exact ⟨r, mem_of_mem_filter hr, rfl⟩

/-- `ItemServer.RevertRevision`, run without interruption. -/
def revertRevision (e : Editorial) (req : RevertRequest) (now : ℤ) :
    Editorial × Except RpcError Item :=
  match revertPrepare e e e e.db req with
  | .error err => (e, .error err)
  | .ok (old, updated) => itemApplyEdit e old updated req.expectedVersion now

/-! ## `Restore` -/

/-- `ItemServer.Restore`. -/
def restoreItem (db : DB) (id expectedVersion : ℕ) (now : ℤ) : Reply Item :=
  match itemLoadByID db id with
  | .error e => (db, .error (itemLoadError id e))
  | .ok old =>
    if old.version = expectedVersion then
      let db' := { db with items := db.items.map fun it =>
        if it.id == id && it.version == expectedVersion then
          { it with deletedAt := none, updatedAt := now, version := it.version + 1 }
        else it }
      match itemLoadByID db' id with
      | .ok it => (db', .ok it)
      | .error e => (db', .error ⟨.internal, "rpc: reloading item " ++ toString id, some e⟩)
    else (db, .error (itemVersionConflictErr db id expectedVersion))

end AnimeFeedFlux
