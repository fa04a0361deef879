import AnimeFeedFlux.Store.Schema

/-!
# Writing items

`INSERT INTO items` under the constraints of the table, the store functions that issue it
for one item, and the query for a feed's newest `published_at`.

The newest timestamp is `MAX(published_at)` over the stored texts.  When every stored year
has four digits, no item of the feed lies in a later second than the one it finds
(`newestPublished_seconds`); within that second it need not be the latest instant.
-/

namespace AnimeFeedFlux

open List

/-! ## Constraints -/

/-- Whether the stored row `x` bars the row `it`: `item_key` is unique, and so are
`content_hash` and the text of `published_at` within a feed. -/
def Item.bars (x it : Item) : Bool :=
  x.itemKey == it.itemKey ||
    (x.feedID == it.feedID && (x.contentHash == it.contentHash ||
      formatTime x.publishedAt == formatTime it.publishedAt))

/-- The row `it`, with the id it is stored under. -/
def DB.storedRow (db : DB) (it : Item) : Item :=
  { it with id := nextID (db.items.map (·.id)) }

/-- One `INSERT INTO items`.  Uniqueness is checked before the foreign keys. -/
def insertItemRow (db : DB) (it : Item) : Except StoreError DB :=
  if db.items.any (·.bars it) then .error .unique
  else if db.feeds.any (·.id == it.feedID) &&
      it.runID.all (fun r => db.runs.any (·.id == r)) then
    .ok { db with items := db.items ++ [db.storedRow it] }
  else .error .foreignKey

/-- The row an `INSERT` of `it` makes: the columns it does not list take their defaults. -/
def Item.newRow (it : Item) (publishedAt : ℤ) (runID : Option ℕ) (now : ℤ) : Item :=
  { it with publishedAt, runID, createdAt := now, updatedAt := now, editedAt := none,
            deletedAt := none, version := 1 }

variable {db db' : DB} {it : Item}

/-- What a successful insert does: one row more, barred by none of the others. -/
theorem insertItemRow_ok (h : insertItemRow db it = .ok db') :
    db' = { db with items := db.items ++ [db.storedRow it] } ∧
    ∀ x ∈ db.items, x.bars it = false := by
  simp only [insertItemRow] at h
  split at h
  · cases h
  rename_i hbar
  split at h
  · cases h
    exact ⟨rfl, by simpa using hbar⟩
  · cases h

theorem insertItemRow_rows (h : insertItemRow db it = .ok db') :
    ∀ x ∈ db'.items, x ∈ db.items ∨ ∃ id, x = { it with id } := by
  obtain ⟨rfl, -⟩ := insertItemRow_ok h
  intro x hx
  rcases mem_append.1 hx with hx | hx
  · exact .inl hx
  · exact .inr ⟨_, mem_singleton.1 hx⟩

theorem insertItemRow_feeds (h : insertItemRow db it = .ok db') : db'.feeds = db.feeds := by
  rw [(insertItemRow_ok h).1]

/-- Where and when an item is published: its feed and its `published_at`. -/
def Item.slot (it : Item) : ℕ × ℤ := (it.feedID, it.publishedAt)

/-- The slots of all rows, in insertion order. -/
def DB.slots (db : DB) : List (ℕ × ℤ) := db.items.map Item.slot

theorem insertItemRow_slots (h : insertItemRow db it = .ok db') :
    db'.slots = db.slots ++ [it.slot] := by
  obtain ⟨rfl, -⟩ := insertItemRow_ok h
  simp [DB.slots, DB.storedRow, Item.slot]

/-- A row is never inserted at the exact timestamp of another row of its feed. -/
theorem insertItemRow_slot_notMem (h : insertItemRow db it = .ok db') : it.slot ∉ db.slots := by
  intro hmem
  obtain ⟨x, hx, hslot⟩ := mem_map.1 hmem
  have hbar := (insertItemRow_ok h).2 x hx
  simp only [Item.slot, Prod.mk.injEq] at hslot
  simp [Item.bars, hslot] at hbar

@[simp] theorem Item.slot_newRow (it : Item) (t : ℤ) (runID : Option ℕ) (now : ℤ) :
    (it.newRow t runID now).slot = (it.feedID, t) := rfl

/-! ## The newest item -/

/-- The instant whose text is greatest, as `MAX` over a text column picks it. -/
def maxText : List ℤ → Option ℤ
  | [] => none
  | t :: ts =>
    match maxText ts with
    | none => some t
    | some m => some (if formatTime m < formatTime t then t else m)

theorem maxText_eq_none {ts : List ℤ} : maxText ts = none ↔ ts = [] := by
  cases ts with
  | nil => simp [maxText]
  | cons t ts =>
    cases h : maxText ts <;> simp [maxText, h]

variable {m : ℤ}

theorem maxText_spec {ts : List ℤ} (h : maxText ts = some m) :
    m ∈ ts ∧ ∀ t ∈ ts, formatTime t ≤ formatTime m := by
  induction ts generalizing m with
  | nil => simp [maxText] at h
  | cons t ts ih =>
    cases hts : maxText ts with
    | none =>
      rw [maxText_eq_none] at hts
      subst hts
      simp only [maxText, Option.some.injEq] at h
      simp [h]
    | some m' =>
      obtain ⟨hmem, hmax⟩ := ih hts
      simp only [maxText, hts, Option.some.injEq] at h
      by_cases hlt : formatTime m' < formatTime t
      · rw [if_pos hlt] at h
        subst h
        refine ⟨mem_cons_self .., ?_⟩
        intro u hu
        rcases mem_cons.1 hu with rfl | hu
        · exact le_refl _
        · exact (hmax u hu).trans hlt.le
      · rw [if_neg hlt] at h
        subst h
        refine ⟨mem_cons_of_mem _ hmem, ?_⟩
        intro u hu
        rcases mem_cons.1 hu with rfl | hu
        · exact not_lt.1 hlt
        · exact hmax u hu

/-- `SELECT MAX(published_at) FROM items WHERE feed_id = ?`, read back: the zero Time for a
feed without items, an error when the text found does not parse. -/
def newestPublished (db : DB) (feedID : ℕ) : Except StoreError ℤ :=
  match maxText ((db.itemsOf feedID).map (·.publishedAt)) with
  | none => .ok 0
  | some t => match parseTime t with
      | some t => .ok t
      | none => .error .badTime

/-- What the newest-item query returns: the zero Time for a feed without items, otherwise
the timestamp of an item whose text no other item's text exceeds. -/
theorem newestPublished_ok {feedID : ℕ} (h : newestPublished db feedID = .ok m) :
    (db.itemsOf feedID = [] ∧ m = 0) ∨
    ((∃ x ∈ db.itemsOf feedID, x.publishedAt = m) ∧
      ∀ x ∈ db.itemsOf feedID, formatTime x.publishedAt ≤ formatTime m) := by
  simp only [newestPublished] at h
  cases hm : maxText ((db.itemsOf feedID).map (·.publishedAt)) with
  | none =>
    rw [hm] at h
    rw [maxText_eq_none, map_eq_nil_iff] at hm
    exact .inl ⟨hm, (Except.ok.inj h).symm⟩
  | some t =>
    obtain ⟨hmem, hmax⟩ := maxText_spec hm
    rw [hm] at h
    by_cases hy : FourDigitYear t
    · simp only [parseTime, if_pos hy, Except.ok.injEq] at h
      subst h
      exact .inr ⟨by simpa using hmem, fun x hx => hmax _ (mem_map_of_mem hx)⟩
    · simp [parseTime, hy] at h

/-- **No item lies in a later second than the newest one**, when the stored years have four
digits. -/
theorem newestPublished_seconds {feedID : ℕ} (h : newestPublished db feedID = .ok m)
    (hy : ∀ x ∈ db.itemsOf feedID, FourDigitYear x.publishedAt) :
    ∀ x ∈ db.itemsOf feedID, Time.seconds x.publishedAt ≤ Time.seconds m := by
  intro x hx
  rcases newestPublished_ok h with ⟨hnil, -⟩ | ⟨⟨y, hy', rfl⟩, hmax⟩
  · simp [hnil] at hx
  by_contra hlt
  have := formatTime_lt (not_le.1 hlt) (hy y hy') (hy x hx)
  exact absurd (hmax x hx) (not_le.2 this)

/-- Whether every timestamp column of a row reads back, as scanning the row needs. -/
def Item.readable (it : Item) : Bool :=
  decide (FourDigitYear it.publishedAt) && decide (FourDigitYear it.createdAt) &&
    decide (FourDigitYear it.updatedAt) && it.editedAt.all (fun t => decide (FourDigitYear t)) &&
    it.deletedAt.all (fun t => decide (FourDigitYear t))

/-! ## `InsertItem` -/

def truncatePublishedAt (t : ℤ) : ℤ := Time.truncate t

/-- `Store.InsertItem` at the clock reading `now`. -/
def insertItem (db : DB) (it : Item) (now : ℤ) : Except StoreError DB :=
  insertItemRow db (it.newRow (truncatePublishedAt it.publishedAt) none now)

theorem insertItem_slots {now : ℤ} (h : insertItem db it now = .ok db') :
    db'.slots = db.slots ++ [(it.feedID, Time.truncate it.publishedAt)] :=
  insertItemRow_slots h

end AnimeFeedFlux
