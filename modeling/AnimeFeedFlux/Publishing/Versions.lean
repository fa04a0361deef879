import AnimeFeedFlux.Lib.Machine
import AnimeFeedFlux.Rpc.ItemEdit
import AnimeFeedFlux.Store.ItemReads

/-!
# Optimistic concurrency on items

`Update`, `RevertRevision`, `Delete` and `Restore` write one row, `WHERE id = ? AND version = ?`,
and raise its version.  `Update` and `RevertRevision` carry over the columns their request leaves
alone from a row they loaded earlier, outside the transaction; the version they loaded it at is
compared with nothing.

Each call is one step, taken when it writes.  It read the store before that, in a state the run
has passed through: the label says in which.  The newest timestamp of the feed, against which a
new `published_at` is checked, may come from any tables at all.
-/

namespace AnimeFeedFlux

open Machine GoStrings List

/-! ## The guarded write -/

/-- The row `WHERE id = ? AND version = ?` selects. -/
def matchedRow (db : DB) (id version : ℕ) : Option Item :=
  db.items.find? fun row => row.id == id && row.version == version

/-- A write to the row with this id and version: the row it leaves, the rows it adds to
`item_revisions`, and what the constraints of the table refuse. -/
structure RowWrite where
  id : ℕ
  version : ℕ
  set : Item → Item
  revise : List Revision → List Revision := fun revisions => revisions
  clashes : DB → Item → Bool := fun _ _ => false

/-- The store with the selected row rewritten. -/
def RowWrite.store (w : RowWrite) (e : Editorial) : Editorial :=
  { db := { e.db with items := e.db.items.map fun row =>
      if row.id == w.id && row.version == w.version then w.set row else row }
    revisions := w.revise e.revisions }

/-- The row selected and the store after the write; nothing when no row was affected or the
transaction was rolled back. -/
def RowWrite.commit (w : RowWrite) (e : Editorial) : Option (Item × Editorial) :=
  match matchedRow e.db w.id w.version with
  | none => none
  | some row => if w.clashes e.db row then none else some (row, w.store e)

/-- The write of `itemApplyEdit`. -/
def editWrite (old updated : Item) (expectedVersion : ℕ) (now : ℤ) : RowWrite where
  id := old.id
  version := expectedVersion
  set := fun row => row.edited updated now
  revise := fun revisions => recordRevisions revisions old.id now (itemDiff old updated)
  clashes := fun db row => db.items.any fun x => x.id != old.id && x.feedID == row.feedID &&
    formatTime x.publishedAt == formatTime updated.publishedAt

/-- The row a soft delete leaves. -/
def Item.deleted (row : Item) (now : ℤ) : Item :=
  { row with deletedAt := some now, updatedAt := now, version := row.version + 1 }

/-- The row a restore leaves. -/
def Item.restored (row : Item) (now : ℤ) : Item :=
  { row with deletedAt := none, updatedAt := now, version := row.version + 1 }

/-- The write of `Delete`. -/
def deleteWrite (id expectedVersion : ℕ) (now : ℤ) : RowWrite where
  id := id
  version := expectedVersion
  set := fun row => row.deleted now

/-- The write of `Restore`. -/
def restoreWrite (id expectedVersion : ℕ) (now : ℤ) : RowWrite where
  id := id
  version := expectedVersion
  set := fun row => row.restored now

variable {db : DB} {row : Item}

theorem matchedRow_some {id version : ℕ} (h : matchedRow db id version = some row) :
    row ∈ db.items ∧ row.id = id ∧ row.version = version := by
  have hp := find?_some h
  simp only [Bool.and_eq_true, beq_iff_eq] at hp
  exact ⟨mem_of_find?_eq_some h, hp⟩

variable {w : RowWrite}

theorem RowWrite.commit_some {e e' : Editorial} (h : w.commit e = some (row, e')) :
    matchedRow e.db w.id w.version = some row ∧
      e' = w.store e := by
  simp only [RowWrite.commit] at h
  split at h
  · cases h
  rename_i found hfound
  split at h
  · cases h
  cases h
  exact ⟨hfound, rfl⟩

/-- **`itemApplyEdit` leaves what its write commits.** -/
theorem itemApplyEdit_fst (e : Editorial) (old updated : Item) (expectedVersion : ℕ) (now : ℤ) :
    (itemApplyEdit e old updated expectedVersion now).1 =
      (((editWrite old updated expectedVersion now).commit e).map Prod.snd).getD e := by
  simp only [itemApplyEdit, RowWrite.commit, matchedRow, editWrite]
  cases e.db.items.find? fun row => row.id == old.id && row.version == expectedVersion with
  | none => rfl
  | some row =>
    dsimp only
    split <;> rename_i hclash
    · simp only [hclash, if_true]
      rfl
    · simp only [hclash]
      split <;> rfl

variable {old : Item}

/-- What a soft delete or a restore run without interruption leaves: the item was loaded, so there
is a row, and it is selected exactly if it has the version. -/
theorem commit_of_loaded (hunique : UniqueItems db) {revisions : List Revision}
    (hfree : ∀ row, w.clashes db row = false) (hload : itemLoadByID db w.id = .ok old) :
    ((w.commit { db, revisions }).map fun r => r.2.db).getD db =
      if old.version = w.version then (w.store { db, revisions }).db else db := by
  obtain ⟨row, hrow, hid, rfl⟩ := itemLoadByID_ok hload
  cases hmatched : matchedRow db w.id w.version with
  | none =>
    have hne : row.version ≠ w.version := by
      have := find?_eq_none.1 hmatched row hrow
      simpa [hid] using this
    simp [RowWrite.commit, hmatched, hne]
  | some found =>
    obtain ⟨hfound, hfoundID, hversion⟩ := matchedRow_some hmatched
    obtain rfl := hunique.eq_of_id hfound hrow (hfoundID.trans hid.symm)
    simp [RowWrite.commit, hmatched, hversion, hfree]

/-- **`Delete` and `Restore` leave what their writes commit.** -/
theorem deleteItem_restoreItem_fst (hunique : UniqueItems db) {id expectedVersion : ℕ} {now : ℤ}
    (hload : itemLoadByID db id = .ok old) (revisions : List Revision) :
    (deleteItem db id expectedVersion now).1 = (((deleteWrite id expectedVersion now).commit
      { db, revisions }).map fun r => r.2.db).getD db ∧
    (restoreItem db id expectedVersion now).1 = (((restoreWrite id expectedVersion now).commit
      { db, revisions }).map fun r => r.2.db).getD db := by
  rw [commit_of_loaded hunique (fun _ => rfl) hload, commit_of_loaded hunique (fun _ => rfl) hload]
  by_cases hversion : old.version = expectedVersion
  · simp only [deleteItem, restoreItem, hload, if_pos hversion]
    refine ⟨(if_pos hversion).symm, ?_⟩
    split <;> exact (if_pos hversion).symm
  · simp only [deleteItem, restoreItem, hload, if_neg hversion]
    exact ⟨(if_neg hversion).symm, (if_neg hversion).symm⟩

/-! ## The machine -/

/-- A call at its write.  `loading`, `grouping` and `reading` are positions in the history of the
store; `now` is the time it stamps. -/
inductive VersionedCall
  | update (loading : ℕ) (dating : DB) (req : UpdateRequest) (now : ℤ)
  | revert (loading grouping reading : ℕ) (dating : DB) (req : RevertRequest) (now : ℤ)
  | delete (loading id expectedVersion : ℕ) (now : ℤ)
  | restore (loading id expectedVersion : ℕ) (now : ℤ)

/-- A call that committed: the version it expected, the row it found and the row it left, and
what its request makes of the row it found. -/
structure Success where
  expected : ℕ
  before : Item
  after : Item
  applied : Option Item

/-- The store, the states it has been in, and the calls that committed. -/
structure SharedStore where
  past : List Editorial := []
  store : Editorial
  log : List Success := []

namespace SharedStore

/-- The store as a call found it; a position after the past is the present. -/
def at_ (d : SharedStore) (i : ℕ) : Editorial := d.past.getD i d.store

/-- All states of the store so far. -/
def history (d : SharedStore) : List Editorial := d.past ++ [d.store]

end SharedStore

/-- The `published_at` a request asks for a row: the row's own when the request has none or one in
the same second. -/
def UpdateRequest.publishedAtOf (req : UpdateRequest) (row : Item) : ℤ :=
  match req.publishedAt with
  | none => row.publishedAt
  | some t =>
    if Time.truncate t = Time.truncate row.publishedAt then row.publishedAt else Time.truncate t

namespace VersionedCall
section
variable (sanitize : String → String) (d : SharedStore)

/-- The call up to its write. -/
def prepare : VersionedCall → Option RowWrite
  | update loading dating req now =>
    match updatePrepare sanitize (d.at_ loading).db dating req with
    | .error _ => none
    | .ok (old, updated) => some (editWrite old updated req.expectedVersion now)
  | revert loading grouping reading dating req now =>
    match revertPrepare (d.at_ loading) (d.at_ grouping) (d.at_ reading) dating req with
    | .error _ => none
    | .ok (old, updated) => some (editWrite old updated req.expectedVersion now)
  | delete loading id expectedVersion now =>
    match itemLoadByID (d.at_ loading).db id with
    | .error _ => none
    | .ok _ => some (deleteWrite id expectedVersion now)
  | restore loading id expectedVersion now =>
    match itemLoadByID (d.at_ loading).db id with
    | .error _ => none
    | .ok _ => some (restoreWrite id expectedVersion now)

/-- The row with the request applied to it.  A revert sets the fields of the group it read. -/
def applied (row : Item) : VersionedCall → Option Item
  | update _ _ req now =>
    some (row.edited
      { row with
        title := trimSpace req.title, summaryText := req.summaryText
        bodyHTML := sanitize req.bodyHTML, answerHTML := sanitize req.answerHTML
        link := req.link, sourceName := req.sourceName, publishedAt := req.publishedAtOf row }
      now)
  | revert _ grouping reading _ req now =>
    match itemRevisionGroupAt (d.at_ grouping) req.itemID req.revisionID with
    | none => none
    | some at_ =>
      match itemLoadRevisionFields (d.at_ reading) req.itemID at_ with
      | .error _ => none
      | .ok changes =>
        match changes.foldlM itemApplyRevisionField row with
        | .error _ => none
        | .ok updated => some (row.edited updated now)
  | delete _ _ _ now => some (row.deleted now)
  | restore _ _ _ now => some (row.restored now)

end
end VersionedCall

/-- One step: a call that commits, or one that changes nothing. -/
def SharedStore.step (sanitize : String → String) (d : SharedStore) (c : VersionedCall) :
    SharedStore :=
  match c.prepare sanitize d with
  | none => d
  | some w =>
    match w.commit d.store with
    | none => d
    | some (row, e) =>
      { past := d.past ++ [d.store]
        store := e
        log := ⟨w.version, row, w.set row, c.applied sanitize d row⟩ :: d.log }

/-! ## The property and the condition -/

/-- The calls that committed were each applied to the row as it was at the version they expected.

* The version of an item is its first one plus the number of calls on it.
* No two calls on an item committed at one version.
* A call found the row at the version it expected, the only row the item ever had at that
  version; it left its request applied to that row, the only row at the next version. -/
structure Serial (start : Editorial) (d : SharedStore) : Prop where
  counted : ∀ row₀ ∈ start.db.items, ∀ row ∈ d.store.db.items, row.id = row₀.id →
    row.version = row₀.version + d.log.countP (·.before.id == row.id)
  once : (d.log.map fun s => (s.before.id, s.expected)).Nodup
  applied : ∀ s ∈ d.log, s.before.version = s.expected ∧ s.after.version = s.expected + 1 ∧
    s.applied = some s.after ∧
    ∀ e ∈ d.history, ∀ row ∈ e.db.items, row.id = s.before.id →
      (row.version = s.expected → row = s.before) ∧
      (row.version = s.expected + 1 → row = s.after)

/-- When the row has the version a call expects, the call loaded it at that version. -/
def LoadedAt (loading present : DB) (id expectedVersion : ℕ) : Prop :=
  (matchedRow present id expectedVersion).isSome = true →
    ∀ old, itemLoadByID loading id = .ok old → old.version = expectedVersion

/-- No `Update` and no `RevertRevision` writes to the row at the version it expects after loading
it at another one. -/
def LoadedExpected (d : SharedStore) : VersionedCall → Prop
  | .update loading _ req _ =>
    LoadedAt (d.at_ loading).db d.store.db req.id req.expectedVersion
  | .revert loading _ _ _ req _ =>
    LoadedAt (d.at_ loading).db d.store.db req.itemID req.expectedVersion
  | .delete .. => True
  | .restore .. => True

instance (loading present : DB) (id expectedVersion : ℕ) :
    Decidable (LoadedAt loading present id expectedVersion) :=
  match h : itemLoadByID loading id with
  | .error _ => .isTrue fun _ old hold => by rw [h] at hold; cases hold
  | .ok old => decidable_of_iff
      ((matchedRow present id expectedVersion).isSome = true → old.version = expectedVersion)
      ⟨fun hversion hsome old' hold => by rw [h] at hold; cases hold; exact hversion hsome,
        fun hloaded hsome => hloaded hsome old h⟩

instance (d : SharedStore) (c : VersionedCall) : Decidable (LoadedExpected d c) := by
  cases c <;> unfold LoadedExpected <;> infer_instance

/-! ## What a write does to the rows -/

/-- The write keeps the id and the key and raises the version by one. -/
structure RowWrite.Bumps (w : RowWrite) : Prop where
  id : ∀ row, (w.set row).id = row.id
  itemKey : ∀ row, (w.set row).itemKey = row.itemKey
  version : ∀ row, (w.set row).version = row.version + 1

variable {sanitize : String → String} {d : SharedStore}

theorem VersionedCall.bumps_of_prepare {c : VersionedCall} (h : c.prepare sanitize d = some w) :
    w.Bumps := by
  cases c <;> simp only [VersionedCall.prepare] at h <;> split at h <;> cases h <;>
    exact ⟨fun _ => rfl, fun _ => rfl, fun _ => rfl⟩

section
variable {w : RowWrite} {e : Editorial} {row : Item}

theorem RowWrite.set_mem_store (hmatched : matchedRow e.db w.id w.version = some row) :
    w.set row ∈ (w.store e).db.items := by
  obtain ⟨hrow, hid, hversion⟩ := matchedRow_some hmatched
  exact mem_map.2 ⟨row, hrow, by simp [hid, hversion]⟩

theorem RowWrite.mem_store (hunique : UniqueItems e.db)
    (hmatched : matchedRow e.db w.id w.version = some row) {y : Item}
    (hy : y ∈ (w.store e).db.items) : y = w.set row ∨ y ∈ e.db.items ∧ y.id ≠ row.id := by
  obtain ⟨hrow, hid, hversion⟩ := matchedRow_some hmatched
  obtain ⟨x, hx, rfl⟩ := mem_map.1 hy
  by_cases hsame : x.id = row.id
  · obtain rfl := hunique.eq_of_id hx hrow hsame
    left
    simp [hid, hversion]
  · right
    have hne : x.id ≠ w.id := fun h => hsame (h.trans hid.symm)
    simp [hne, hx, hsame]

theorem RowWrite.unique_store (hunique : UniqueItems e.db) (hbumps : w.Bumps) :
    UniqueItems (w.store e).db := by
  refine hunique.map (fun x => ?_) (fun x => ?_)
  · split
    · exact hbumps.id x
    · rfl
  · split
    · exact hbumps.itemKey x
    · rfl

end

/-! ## The version of a row says what is in it -/

/-- Over all states of the store so far, an item and a version determine a row, and the version in
the store is the newest. -/
structure Versioned (d : SharedStore) : Prop where
  unique : UniqueItems d.store.db
  determined : ∀ e ∈ d.history, ∀ e' ∈ d.history, ∀ x ∈ e.db.items, ∀ x' ∈ e'.db.items,
    x.id = x'.id → x.version = x'.version → x = x'
  newest : ∀ e ∈ d.history, ∀ x ∈ e.db.items, ∀ y ∈ d.store.db.items, x.id = y.id →
    x.version ≤ y.version

theorem SharedStore.at_mem_history (d : SharedStore) (i : ℕ) : d.at_ i ∈ d.history := by
  rw [SharedStore.at_, SharedStore.history, getD_eq_getElem?_getD]
  cases h : d.past[i]? with
  | none => exact mem_append_right _ (mem_singleton_self _)
  | some e => exact mem_append_left _ (mem_of_getElem? h)

theorem SharedStore.store_mem_history (d : SharedStore) : d.store ∈ d.history :=
  mem_append_right _ (mem_singleton_self _)

variable {e : Editorial} {c : VersionedCall}

theorem Versioned.start (hunique : UniqueItems e.db) : Versioned { store := e } where
  unique := hunique
  determined := by
    intro a ha b hb x hx y hy hid _
    obtain rfl := mem_singleton.1 ha
    obtain rfl := mem_singleton.1 hb
    exact hunique.eq_of_id hx hy hid
  newest := by
    intro a ha x hx y hy hid
    obtain rfl := mem_singleton.1 ha
    rw [hunique.eq_of_id hx hy hid]

/-- A committed write keeps it: the row it leaves has a version no row of the item had. -/
theorem Versioned.write (h : Versioned d) (hbumps : w.Bumps)
    (hmatched : matchedRow d.store.db w.id w.version = some row) (log : List Success) :
    Versioned { past := d.past ++ [d.store], store := w.store d.store, log } := by
  obtain ⟨hrow, -, -⟩ := matchedRow_some hmatched
  -- Where a row of the new history comes from.
  have hcases : ∀ e ∈ d.past ++ [d.store] ++ [w.store d.store], ∀ x ∈ e.db.items,
      x = w.set row ∨ ∃ e ∈ d.history, x ∈ e.db.items := by
    intro e he x hx
    rcases mem_append.1 he with he | he
    · exact .inr ⟨e, he, hx⟩
    obtain rfl := mem_singleton.1 he
    rcases RowWrite.mem_store h.unique hmatched hx with hx | hx
    · exact .inl hx
    · exact .inr ⟨d.store, d.store_mem_history, hx.1⟩
  have hnewer : ∀ e ∈ d.history, ∀ x ∈ e.db.items, x.id = row.id →
      x.version < (w.set row).version := by
    intro e he x hx hid
    have := h.newest e he x hx row hrow hid
    rw [hbumps.version]
    omega
  refine ⟨RowWrite.unique_store h.unique hbumps, ?_, ?_⟩
  · intro e he e' he' x hx x' hx' hid hversion
    rcases hcases e he x hx with rfl | ⟨a, ha, hxa⟩ <;>
      rcases hcases e' he' x' hx' with rfl | ⟨b, hb, hxb⟩
    · rfl
    · have := hnewer b hb x' hxb (hid.symm.trans (hbumps.id row))
      omega
    · have := hnewer a ha x hxa (hid.trans (hbumps.id row))
      omega
    · exact h.determined a ha b hb x hxa x' hxb hid hversion
  · intro e he x hx y hy hid
    rcases RowWrite.mem_store h.unique hmatched hy with rfl | ⟨hy, hne⟩
    · rcases hcases e he x hx with rfl | ⟨a, ha, hxa⟩
      · exact le_rfl
      · exact (hnewer a ha x hxa (hid.trans (hbumps.id row))).le
    · rcases hcases e he x hx with rfl | ⟨a, ha, hxa⟩
      · exact absurd (hid.symm.trans (hbumps.id row)) hne
      · exact h.newest a ha x hxa y hy hid

/-! ## What a call writes -/

/-- The `published_at` of an update is the one its request asks for the row that was loaded. -/
theorem updatePublishedAt_ok {dating : DB} {req : UpdateRequest} {publishedAt : ℤ}
    (h : updatePublishedAt dating old req.publishedAt = .ok publishedAt) :
    publishedAt = req.publishedAtOf old := by
  rw [UpdateRequest.publishedAtOf]
  cases hreq : req.publishedAt with
  | none =>
    rw [hreq] at h
    cases h
    rfl
  | some t =>
    simp only [hreq, updatePublishedAt] at h ⊢
    split at h
    · cases h
    split at h
    · rename_i hsame
      cases h
      rw [if_pos hsame]
    rename_i hother
    rw [if_neg hother]
    split at h
    · cases h
    split at h <;> cases h
    rfl

theorem foldlM_itemApplyRevisionField_formats (formats : ItemFormats) (changes : List FieldChange)
    (row : Item) :
    changes.foldlM itemApplyRevisionField { row with formats } =
      (changes.foldlM itemApplyRevisionField row).map fun it => { it with formats } := by
  induction changes generalizing row with
  | nil => rfl
  | cons change changes ih =>
    cases change with
    | text field old new =>
      have hset : field.set { row with formats } old = { field.set row old with formats } := by
        cases field <;> rfl
      simp only [foldlM_cons, itemApplyRevisionField, hset]
      exact ih (field.set row old)
    | publishedAt old new =>
      simp only [foldlM_cons, itemApplyRevisionField]
      cases parseTime old with
      | none => rfl
      | some t => exact ih { row with publishedAt := t }

theorem Versioned.loaded (h : Versioned d) {loading id expectedVersion : ℕ}
    (hload : itemLoadByID (d.at_ loading).db id = .ok old)
    (hloaded : LoadedAt (d.at_ loading).db d.store.db id expectedVersion)
    (hmatched : matchedRow d.store.db old.id expectedVersion = some row) :
    old = { row with formats := {} } := by
  obtain ⟨hrow, hid, hversion⟩ := matchedRow_some hmatched
  have hloadedVersion := fun hsome => hloaded hsome old hload
  obtain ⟨x, hx, rfl, rfl⟩ := itemLoadByID_ok hload
  have hxversion : x.version = expectedVersion :=
    hloadedVersion (Option.isSome_of_eq_some hmatched)
  rw [h.determined _ (d.at_mem_history loading) _ d.store_mem_history x hx row hrow hid.symm
    (hxversion.trans hversion.symm)]

/-- **What a call leaves is its request applied to the row it writes to.** -/
theorem Versioned.applied_eq (h : Versioned d) (hc : LoadedExpected d c)
    (hprepare : c.prepare sanitize d = some w)
    (hmatched : matchedRow d.store.db w.id w.version = some row) :
    c.applied sanitize d row = some (w.set row) := by
  cases c with
  | update loading dating req now =>
    simp only [VersionedCall.prepare] at hprepare
    split at hprepare
    · cases hprepare
    rename_i old updated hprep
    cases hprepare
    obtain ⟨hload, publishedAt, hpublished, rfl⟩ := updatePrepare_eq hprep
    obtain rfl := h.loaded hload hc hmatched
    obtain rfl := updatePublishedAt_ok hpublished
    rfl
  | revert loading grouping reading dating req now =>
    simp only [VersionedCall.prepare] at hprepare
    split at hprepare
    · cases hprepare
    rename_i old updated hprep
    cases hprepare
    obtain ⟨hload, at_, changes, hgroup, hfields, hfold⟩ := revertPrepare_eq hprep
    obtain rfl := h.loaded hload hc hmatched
    rw [foldlM_itemApplyRevisionField_formats] at hfold
    simp only [VersionedCall.applied, hgroup, hfields]
    cases hrow : changes.foldlM itemApplyRevisionField row with
    | error err =>
      rw [hrow] at hfold
      cases hfold
    | ok reverted =>
      rw [hrow] at hfold
      cases hfold
      rfl
  | delete loading id expectedVersion now =>
    simp only [VersionedCall.prepare] at hprepare
    split at hprepare <;> cases hprepare
    rfl
  | restore loading id expectedVersion now =>
    simp only [VersionedCall.prepare] at hprepare
    split at hprepare <;> cases hprepare
    rfl

/-! ## Runs -/

/-- What a run keeps: the rows of the log are rows the item had, and its version has passed those
the logged calls expected. -/
structure Accounted (start : Editorial) (d : SharedStore) : Prop where
  versioned : Versioned d
  counted : ∀ row₀ ∈ start.db.items, ∀ row ∈ d.store.db.items, row.id = row₀.id →
    row.version = row₀.version + d.log.countP (·.before.id == row.id)
  once : (d.log.map fun s => (s.before.id, s.expected)).Nodup
  passed : ∀ s ∈ d.log, ∀ row ∈ d.store.db.items, row.id = s.before.id → s.expected < row.version
  applied : ∀ s ∈ d.log, s.before.version = s.expected ∧ s.after.version = s.expected + 1 ∧
    s.after.id = s.before.id ∧ s.applied = some s.after
  kept : ∀ s ∈ d.log, (∃ e ∈ d.history, s.before ∈ e.db.items) ∧
    ∃ e ∈ d.history, s.after ∈ e.db.items

theorem Accounted.start (hunique : UniqueItems e.db) : Accounted e { store := e } where
  versioned := .start hunique
  counted := fun row₀ h₀ row hrow hid => by rw [hunique.eq_of_id hrow h₀ hid]; rfl
  once := nodup_nil
  passed := fun s hs => absurd hs not_mem_nil
  applied := fun s hs => absurd hs not_mem_nil
  kept := fun s hs => absurd hs not_mem_nil

variable {start : Editorial}

theorem Accounted.serial (h : Accounted start d) :
    Serial start d where
  counted := h.counted
  once := h.once
  applied := by
    intro s hs
    obtain ⟨hbefore, hafter, hid, happlied⟩ := h.applied s hs
    obtain ⟨⟨e₁, he₁, hmem₁⟩, e₂, he₂, hmem₂⟩ := h.kept s hs
    refine ⟨hbefore, hafter, happlied, fun e he row hrow hrowID =>
      ⟨fun hversion => ?_, fun hversion => ?_⟩⟩
    · exact h.versioned.determined e he e₁ he₁ row hrow _ hmem₁ hrowID (hversion.trans hbefore.symm)
    exact h.versioned.determined e he e₂ he₂ row hrow _ hmem₂ (hrowID.trans hid.symm)
      (hversion.trans hafter.symm)

/-- A write whose request was applied to the row it found keeps the account. -/
theorem Accounted.write (h : Accounted start d) (hbumps : w.Bumps)
    (hmatched : matchedRow d.store.db w.id w.version = some row) {applied : Option Item}
    (happlied : applied = some (w.set row)) :
    Accounted start
      { past := d.past ++ [d.store], store := w.store d.store
        log := ⟨w.version, row, w.set row, applied⟩ :: d.log } := by
  obtain ⟨hrow, hid, hversion⟩ := matchedRow_some hmatched
  have hset : (w.set row).version = w.version + 1 := by rw [hbumps.version, hversion]
  have hmem : ∀ e ∈ d.history, e ∈ d.past ++ [d.store] ++ [w.store d.store] := fun e he =>
    mem_append_left _ he
  refine ⟨h.versioned.write hbumps hmatched _, ?_, ?_, ?_, ?_, ?_⟩
  · intro row₀ h₀ y hy hid₀
    rcases RowWrite.mem_store h.versioned.unique hmatched hy with rfl | ⟨hy, hne⟩
    · have hcount := h.counted row₀ h₀ row hrow ((hbumps.id row).symm.trans hid₀)
      rw [hbumps.version, hbumps.id, countP_cons_of_pos (by simp), hcount]
      omega
    · rw [countP_cons_of_neg (by simpa using Ne.symm hne)]
      exact h.counted row₀ h₀ y hy hid₀
  · rw [map_cons, nodup_cons]
    refine ⟨fun hlogged => ?_, h.once⟩
    -- The version the call expected is the present one, which no logged call expected.
    obtain ⟨s, hs, hpair⟩ := mem_map.1 hlogged
    rw [Prod.mk.injEq] at hpair
    have hpassed := h.passed s hs row hrow hpair.1.symm
    have hexpected : s.expected = w.version := hpair.2
    omega
  · intro s hs y hy hys
    rcases mem_cons.1 hs with rfl | hs
    · rcases RowWrite.mem_store h.versioned.unique hmatched hy with rfl | ⟨-, hne⟩
      · rw [hset]
        exact Nat.lt_succ_self _
      · exact absurd hys hne
    · rcases RowWrite.mem_store h.versioned.unique hmatched hy with rfl | ⟨hy, -⟩
      · have hpassed := h.passed s hs row hrow ((hbumps.id row).symm.trans hys)
        rw [hbumps.version]
        omega
      · exact h.passed s hs y hy hys
  · intro s hs
    rcases mem_cons.1 hs with rfl | hs
    · exact ⟨hversion, hset, hbumps.id row, happlied⟩
    · exact h.applied s hs
  · intro s hs
    rcases mem_cons.1 hs with rfl | hs
    · exact ⟨⟨d.store, hmem _ d.store_mem_history, hrow⟩, w.store d.store,
        mem_append_right _ (mem_singleton_self _), RowWrite.set_mem_store hmatched⟩
    · obtain ⟨⟨e₁, he₁, hmem₁⟩, e₂, he₂, hmem₂⟩ := h.kept s hs
      exact ⟨⟨e₁, hmem e₁ he₁, hmem₁⟩, e₂, hmem e₂ he₂, hmem₂⟩

/-- What one step can do. -/
theorem SharedStore.step_cases (sanitize : String → String) (d : SharedStore) (c : VersionedCall) :
    d.step sanitize c = d ∨ ∃ w row, c.prepare sanitize d = some w ∧
      matchedRow d.store.db w.id w.version = some row ∧ d.step sanitize c =
        { past := d.past ++ [d.store], store := w.store d.store
          log := ⟨w.version, row, w.set row, c.applied sanitize d row⟩ :: d.log } := by
  rw [SharedStore.step]
  split
  · exact .inl rfl
  rename_i w hprepare
  split
  · exact .inl rfl
  rename_i row e hcommit
  obtain ⟨hmatched, rfl⟩ := RowWrite.commit_some hcommit
  exact .inr ⟨w, row, hprepare, hmatched, rfl⟩

theorem Accounted.step (h : Accounted start d) (hc : LoadedExpected d c) :
    Accounted start (d.step sanitize c) := by
  obtain hsame | ⟨w, row, hprepare, hmatched, hstep⟩ := d.step_cases sanitize c
  · rwa [hsame]
  rw [hstep]
  exact h.write (VersionedCall.bumps_of_prepare hprepare) hmatched
    (h.versioned.applied_eq hc hprepare hmatched)

/-- **Calls that loaded the version they expect are serial**, in every state of every run,
whatever versions they expect and however their reads and writes interleave. -/
theorem always_serial (sanitize : String → String) {e : Editorial} (hunique : UniqueItems e.db)
    (calls : List VersionedCall)
    (h : Meets (SharedStore.step sanitize) LoadedExpected { store := e } calls) :
    Always (SharedStore.step sanitize) (Serial e) { store := e } calls := by
  have haccounted : Always (SharedStore.step sanitize) (Accounted e) { store := e } calls :=
    always_of_meets (fun _ _ hd hc => hd.step hc) calls _ (.start hunique) h
  exact haccounted.mono fun _ hd => hd.serial

/-- **A version names one row**, whatever versions the calls have loaded and expect: two states of
a run that have an item at one version have the same row, and versions only grow. -/
theorem always_versioned (sanitize : String → String) (e : { e : Editorial // UniqueItems e.db })
    (calls : List VersionedCall) :
    Always (SharedStore.step sanitize) Versioned { store := e.1 } calls := by
  refine always_of_step (fun d c h => ?_) calls _ (.start e.2)
  obtain hsame | ⟨w, row, hprepare, hmatched, hstep⟩ := d.step_cases sanitize c
  · rwa [hsame]
  rw [hstep]
  exact h.write (VersionedCall.bumps_of_prepare hprepare) hmatched _

/-! ## Two runs -/

/-- A store with one item, at version 1. -/
def oneItemStore : Editorial :=
  { db := { items := [{ id := 1, feedID := 1, itemKey := "k", contentHash := ⟨"h"⟩, title := "T"
                        publishedAt := march2026, origin := .manual }] } }

/-- `Update` moves the item to a later second. -/
def moveLater (loading expectedVersion : ℕ) : VersionedCall :=
  .update loading oneItemStore.db
    { id := 1, expectedVersion, title := "T", publishedAt := some (march2026 + Time.second) }
    march2026

/-- `Update` gives the item another title. -/
def retitle (loading expectedVersion : ℕ) : VersionedCall :=
  .update loading oneItemStore.db { id := 1, expectedVersion, title := "U" } march2026

/-- One after the other, with a late delete that finds the version taken. -/
theorem always_serial_inTurn :
    Always (SharedStore.step id) (Serial oneItemStore) { store := oneItemStore }
        [moveLater 0 1, retitle 1 2, .delete 0 1 1 march2026, .restore 2 1 3 march2026] ∧
      (exec (SharedStore.step id) { store := oneItemStore }
        [moveLater 0 1, retitle 1 2, .delete 0 1 1 march2026,
          .restore 2 1 3 march2026]).store.db.items.map (·.version) = [4] :=
  ⟨always_serial id (by decide) _ (by decide +kernel), by decide +kernel⟩

/-- Whatever they expect: the second one writes over what it has not seen. -/
theorem always_versioned_loadedEarly :
    Always (SharedStore.step id) Versioned { store := oneItemStore }
        [moveLater 0 1, retitle 0 2, .delete 0 1 1 march2026, .delete 1 1 3 march2026] ∧
      (exec (SharedStore.step id) { store := oneItemStore }
        [moveLater 0 1, retitle 0 2, .delete 0 1 1 march2026, .delete 1 1 3 march2026]).history.map
          (·.db.items.map fun it => (it.version, it.title)) =
        [[(1, "T")], [(2, "T")], [(3, "U")], [(4, "U")]] :=
  ⟨always_versioned id ⟨oneItemStore, by decide⟩ _, by decide +kernel⟩

/-- **The second update takes the move back**: it expects the version the move will leave, but
loaded the item before. -/
theorem not_always_serial_loadedEarly :
    ¬ Always (SharedStore.step id) (Serial oneItemStore) { store := oneItemStore }
      [moveLater 0 1, retitle 0 2] := by
  intro h
  have hwrong : ∃ s ∈ (exec (SharedStore.step id) { store := oneItemStore }
      [moveLater 0 1, retitle 0 2]).log, s.applied ≠ some s.after := by
    decide +kernel
  obtain ⟨s, hs, hne⟩ := hwrong
  exact hne (h.last.applied s hs).2.2.1

end AnimeFeedFlux
