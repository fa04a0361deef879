import AnimeFeedFlux.Lib.Machine
import AnimeFeedFlux.Rpc.Revisions
import AnimeFeedFlux.Store.ItemReads

/-!
# The edit history is an undo log

`Update` and `RevertRevision` calls of one server, each run without interruption, on any items.
Of an item without recorded edits before the first call, the history leads from the fields it
had to the fields it has.
-/

namespace AnimeFeedFlux

open Machine List

/-! ## The calls -/

/-- A request to edit an item. -/
inductive EditRequest
  | update (req : UpdateRequest)
  | revert (req : RevertRequest)
  deriving DecidableEq, Repr

namespace EditRequest

def itemID : EditRequest → ℕ
  | update req => req.id
  | revert req => req.itemID

def expectedVersion : EditRequest → ℕ
  | update req => req.expectedVersion
  | revert req => req.expectedVersion

/-- The call up to its write. -/
def prepare (sanitize : String → String) (e : Editorial) :
    EditRequest → Except RpcError (Item × Item)
  | update req => updatePrepare sanitize e.db e.db req
  | revert req => revertPrepare e e e e.db req

end EditRequest

/-- The store and the stamp of the last edit, `lastEditAt`. -/
structure Editor where
  store : Editorial
  lastEditAt : ℤ := 0
  deriving DecidableEq, Repr

section
variable (sanitize : String → String) (s : Editor) (c : EditRequest × ℤ)

/-- A call, at the time `now`.  A stamp is drawn only for an edit that was prepared. -/
def Editor.perform (r : EditRequest) (now : ℤ) : Editor × Except RpcError Item :=
  match r.prepare sanitize s.store with
  | .error err => (s, .error err)
  | .ok (old, updated) =>
    let at_ := editStamp s.lastEditAt now
    let out := itemApplyEdit s.store old updated r.expectedVersion at_
    ({ store := out.1, lastEditAt := at_ }, out.2)

/-- One step. -/
def Editor.step : Editor :=
  (s.perform sanitize c.1 c.2).1

/-- The call was answered with the item. -/
def Answered : Prop :=
  (s.perform sanitize c.1 c.2).2.isOk = true

instance : Decidable (Answered sanitize s c) :=
  inferInstanceAs (Decidable (_ = true))

end

/-! ## The property -/

/-- The groups of changes of an item, oldest first. -/
def revisionGroups (e : Editorial) (itemID : ℕ) : List (List FieldChange) :=
  (revisionTimes e itemID).reverse.map (revisionGroup e itemID)

/-- From the fields `v`, group after group, to the fields `v'`: the old values of a group are the
values just before it, and its new values make up the fields just after it. -/
def IsUndoLog (v : Fields) : List (List FieldChange) → Fields → Prop
  | [], v' => v' = v
  | g :: gs, v' => (∀ c ∈ g, c.OldIn v) ∧ IsUndoLog (g.foldl FieldChange.redo v) gs v'

/-- The history of the item leads from its first fields to its present ones, and it is still the
same item. -/
def UndoLog (initial : Item) (s : Editor) : Prop :=
  ∀ row ∈ s.store.db.items, row.id = initial.id →
    IsUndoLog initial.fields (revisionGroups s.store initial.id) row.fields ∧
    row.itemKey = initial.itemKey ∧ row.feedID = initial.feedID

/-- What a call does to the history of an item.

* No row of the history is changed or removed.
* What is added holds, as old values, the fields the item had just before.
* A revert gives the fields of its group their old values and leaves the others. -/
structure RecordsEdit (id : ℕ) (s : Editor) (r : EditRequest) (s' : Editor) : Prop where
  kept : s.store.revisions <+: s'.store.revisions
  recorded : ∀ rev ∈ s'.store.revisions.drop s.store.revisions.length, rev.itemID = id →
    ∀ row ∈ s.store.db.items, row.id = id → rev.change.OldIn row.fields
  reverted : ∀ req, r = .revert req → req.itemID = id →
    ∃ at_, itemRevisionGroupAt s.store id req.revisionID = some at_ ∧
      ∀ row ∈ s.store.db.items, row.id = id → ∀ row' ∈ s'.store.db.items, row'.id = id →
        (∀ c ∈ revisionGroup s.store id at_, c.OldIn row'.fields) ∧
        ∀ field ∉ (revisionGroup s.store id at_).map (·.field), row'.fields.SameAt row.fields field

theorem IsUndoLog.concat {v v' : Fields} {gs : List (List FieldChange)} (h : IsUndoLog v gs v')
    {g : List FieldChange} (hold : ∀ c ∈ g, c.OldIn v') :
    IsUndoLog v (gs ++ [g]) (g.foldl FieldChange.redo v') := by
  induction gs generalizing v with
  | nil =>
    have hv : v' = v := h
    subst hv
    exact ⟨hold, rfl⟩
  | cons g' gs ih => exact ⟨h.1, ih h.2⟩

/-! ## What an answered call does -/

/-- An edit that was answered with the item was committed, and the row reads back. -/
theorem itemApplyEdit_answered {e : Editorial} {old updated : Item} {expectedVersion : ℕ} {now : ℤ}
    (h : (itemApplyEdit e old updated expectedVersion now).2.isOk) :
    (itemApplyEdit e old updated expectedVersion now).1 = e.edit old updated expectedVersion now ∧
      (∃ row ∈ e.db.items, row.id = old.id ∧ row.version = expectedVersion) ∧
      ∃ it, itemLoadByID (e.edit old updated expectedVersion now).db old.id = .ok it := by
  simp only [itemApplyEdit] at h ⊢
  split at h
  · cases h
  rename_i row hfind
  have hp := find?_some hfind
  simp only [Bool.and_eq_true, beq_iff_eq] at hp
  split at h
  · cases h
  rename_i hfree
  split at h
  · rename_i it hload
    rw [if_neg hfree, hload]
    exact ⟨rfl, ⟨row, mem_of_find?_eq_some hfind, hp⟩, it, rfl⟩
  · cases h

/-- An answered call in terms of the item's row: what it loaded, what it leaves of the row, and
what it records. -/
structure Edited (sanitize : String → String) (s : Editor) (r : EditRequest) (now : ℤ)
    (row old updated : Item) : Prop where
  prepared : r.prepare sanitize s.store = .ok (old, updated)
  mem : row ∈ s.store.db.items
  id : row.id = r.itemID
  loaded : old = { row with formats := {} }
  stamp : FourDigitYear (editStamp s.lastEditAt now)
  after : (s.perform sanitize r now).1 =
    { store := s.store.edit old updated r.expectedVersion (editStamp s.lastEditAt now)
      lastEditAt := editStamp s.lastEditAt now }
  rows : ∀ row' ∈ (s.store.edit old updated r.expectedVersion
      (editStamp s.lastEditAt now)).db.items,
    row' = row.edited updated (editStamp s.lastEditAt now) ∨
      row' ∈ s.store.db.items ∧ row'.id ≠ row.id

section
variable {sanitize : String → String} {s : Editor} {r : EditRequest} {now : ℤ}
  {row old updated : Item}

theorem Edited.fields_old (h : Edited sanitize s r now row old updated) :
    old.fields = row.fields := by
  rw [h.loaded]
  exact Fields.ext (funext fun f => by cases f <;> rfl) rfl

theorem fields_edited (row updated : Item) (now : ℤ) :
    (row.edited updated now).fields = updated.fields :=
  Fields.ext (funext fun f => by cases f <;> rfl) rfl

/-- The item's row is the edited one. -/
theorem Edited.eq_edited (h : Edited sanitize s r now row old updated) {row' : Item}
    (hrow : row' ∈ (s.store.edit old updated r.expectedVersion
      (editStamp s.lastEditAt now)).db.items) (hid : row'.id = row.id) :
    row' = row.edited updated (editStamp s.lastEditAt now) :=
  (h.rows row' hrow).resolve_right fun hne => hne.2 hid

end

variable {sanitize : String → String}

theorem EditRequest.loaded_of_prepare {e : Editorial} {r : EditRequest} {old updated : Item}
    (h : r.prepare sanitize e = .ok (old, updated)) : itemLoadByID e.db r.itemID = .ok old := by
  cases r with
  | update req => exact (updatePrepare_eq h).1
  | revert req => exact (revertPrepare_eq h).1

theorem edited_of_answered {s : Editor} {c : EditRequest × ℤ} (hunique : UniqueItems s.store.db)
    (h : Answered sanitize s c) : ∃ row old updated, Edited sanitize s c.1 c.2 row old updated := by
  obtain ⟨r, now⟩ := c
  simp only [Answered, Editor.perform] at h
  split at h
  · cases h
  rename_i old updated hprepare
  obtain ⟨hafter, ⟨matched, hmatched, hmatchedID, hversion⟩, it, hreload⟩ :=
    itemApplyEdit_answered h
  obtain ⟨row, hrow, hid, rfl⟩ := itemLoadByID_ok (EditRequest.loaded_of_prepare hprepare)
  obtain rfl : matched = row := hunique.eq_of_id hmatched hrow hmatchedID
  have hrows : ∀ row' ∈ (s.store.edit { matched with formats := {} } updated r.expectedVersion
      (editStamp s.lastEditAt now)).db.items,
      row' = matched.edited updated (editStamp s.lastEditAt now) ∨
        row' ∈ s.store.db.items ∧ row'.id ≠ matched.id := by
    intro row' hrow'
    obtain ⟨x, hx, rfl⟩ := mem_map.1 hrow'
    by_cases hsame : x.id = matched.id
    · obtain rfl := hunique.eq_of_id hx hrow hsame
      left
      simp [hversion]
    · right
      simp [hsame, hx]
  refine ⟨matched, _, updated, hprepare, hrow, hid, rfl, ?_, ?_, hrows⟩
  · -- The row that was read back carries the stamp.
    simp only [itemLoadByID] at hreload
    split at hreload
    · cases hreload
    rename_i found hfound
    have hfoundID : found.id = matched.id := by simpa using find?_some hfound
    split at hreload
    · rename_i hread
      rcases hrows found (mem_of_find?_eq_some hfound) with rfl | ⟨-, hne⟩
      · simp only [Item.readable, Item.edited, Option.all_some, Bool.and_eq_true,
          decide_eq_true_eq] at hread
        exact hread.1.2
      · exact absurd hfoundID hne
    · cases hreload
  · simp [Editor.perform, hprepare, hafter]

/-! ## The edits of an item -/

/-- The rows of an item are those of its `edits`, each with its stamp and its changes. -/
structure EditLog (initial : Item) (s : Editor) (edits : List (ℤ × List FieldChange)) : Prop where
  unique : UniqueItems s.store.db
  rows : (s.store.revisions.filter (·.itemID == initial.id)).map
      (fun r => (r.recordedAt, r.change)) = edits.flatMap fun p => p.2.map (Prod.mk p.1)
  increasing : (edits.map Prod.fst).Pairwise (· < ·)
  stamps : ∀ p ∈ edits, p.1 ≤ s.lastEditAt ∧ FourDigitYear p.1 ∧ p.1 % 10 ≠ 0
  changes : ∀ p ∈ edits, p.2 ≠ [] ∧ (p.2.map (·.field)).Nodup
  log : ∀ row ∈ s.store.db.items, row.id = initial.id →
    IsUndoLog initial.fields (edits.map Prod.snd) row.fields ∧
    row.itemKey = initial.itemKey ∧ row.feedID = initial.feedID

section
variable {initial : Item} {s : Editor} {edits : List (ℤ × List FieldChange)}

theorem EditLog.editRows (h : EditLog initial s edits) : EditRows s.store initial.id edits where
  rows := h.rows
  nodup := h.increasing.imp fun hlt => hlt.ne
  stamps := fun p hp => (h.stamps p hp).2
  changes := fun p hp => (h.changes p hp).1

theorem EditLog.revisionGroups_eq (h : EditLog initial s edits) :
    revisionGroups s.store initial.id = edits.map Prod.snd := by
  have htimes := (h.editRows.revisionTimes_eq (reverse_perm _) (pairwise_reverse.2 h.increasing)).1
  rw [revisionGroups, htimes, reverse_reverse, map_map]
  exact map_congr_left fun p hp => h.editRows.revisionGroup_eq hp

theorem EditLog.undoLog (h : EditLog initial s edits) : UndoLog initial s := by
  intro row hrow hid
  rw [h.revisionGroups_eq]
  exact h.log row hrow hid

/-! ## One call -/

variable {sanitize : String → String} {c : EditRequest × ℤ}

/-- **An answered call extends the log by its edit**, if it changed anything of the item. -/
theorem EditLog.step (h : EditLog initial s edits) (hc : Answered sanitize s c) :
    ∃ edits', EditLog initial (s.step sanitize c) edits' := by
  obtain ⟨row, old, updated, hrow⟩ := edited_of_answered h.unique hc
  obtain ⟨r, now⟩ := c
  have hlt := editStamp_lt s.lastEditAt now
  have hstamps : ∀ p ∈ edits, p.1 ≤ editStamp s.lastEditAt now ∧ FourDigitYear p.1 ∧ p.1 % 10 ≠ 0 :=
    fun p hp => ⟨(h.stamps p hp).1.trans hlt.le, (h.stamps p hp).2⟩
  have hunique : UniqueItems (s.store.edit old updated r.expectedVersion
      (editStamp s.lastEditAt now)).db := by
    refine h.unique.map (fun x => ?_) (fun x => ?_) <;> split <;> rfl
  have hold : old.id = row.id := by rw [hrow.loaded]
  have hredo := redo_itemDiff old updated
  rw [hrow.fields_old] at hredo
  have hrows := itemRows_edit s.store initial.id old updated r.expectedVersion
    (editStamp s.lastEditAt now)
  rw [h.editRows.rows] at hrows
  rw [Editor.step, hrow.after]
  by_cases hid : row.id = initial.id
  · have hlog := h.log row hrow.mem hid
    rw [if_pos (hold.trans hid)] at hrows
    by_cases hdiff : itemDiff old updated = []
    · rw [hdiff, foldl_nil] at hredo
      rw [hdiff, map_nil, append_nil] at hrows
      refine ⟨edits, hunique, hrows, h.increasing, hstamps, h.changes, fun row' hrow' hid' => ?_⟩
      rw [hrow.eq_edited hrow' (hid'.trans hid.symm), fields_edited, ← hredo]
      exact hlog
    · refine ⟨edits ++ [(editStamp s.lastEditAt now, itemDiff old updated)], hunique, ?_, ?_, ?_,
        ?_, ?_⟩
      · rw [flatMap_append, flatMap_singleton]
        exact hrows
      · rw [map_append, pairwise_append]
        refine ⟨h.increasing, pairwise_singleton _ _, fun a ha b hb => ?_⟩
        obtain ⟨p, hp, rfl⟩ := mem_map.1 ha
        rw [map_singleton, mem_singleton] at hb
        rw [hb]
        exact lt_of_le_of_lt (h.stamps p hp).1 hlt
      · intro p hp
        rcases mem_append.1 hp with hp | hp
        · exact hstamps p hp
        · rw [mem_singleton.1 hp]
          exact ⟨le_rfl, hrow.stamp, editStamp_digit _ _⟩
      · intro p hp
        rcases mem_append.1 hp with hp | hp
        · exact h.changes p hp
        rw [mem_singleton.1 hp]
        exact ⟨hdiff, nodup_fields_itemDiff old updated⟩
      · intro row' hrow' hid'
        rw [hrow.eq_edited hrow' (hid'.trans hid.symm), fields_edited, ← hredo, map_append,
          map_singleton]
        refine ⟨hlog.1.concat fun c hc => ?_, hlog.2⟩
        exact hrow.fields_old ▸ oldIn_of_mem_itemDiff hc
  · rw [if_neg fun heq => hid (hold.symm.trans heq), append_nil] at hrows
    refine ⟨edits, hunique, hrows, h.increasing, hstamps, h.changes, fun row' hrow' hid' => ?_⟩
    rcases hrow.rows row' hrow' with rfl | ⟨hrow', -⟩
    · exact absurd hid' hid
    · exact h.log row' hrow' hid'

/-- **What an answered call records.** -/
theorem EditLog.recordsEdit (h : EditLog initial s edits) (hc : Answered sanitize s c) :
    RecordsEdit initial.id s c.1 (s.step sanitize c) := by
  obtain ⟨row, old, updated, hrow⟩ := edited_of_answered h.unique hc
  obtain ⟨r, now⟩ := c
  obtain ⟨added, heq, hitem, hmap⟩ := recordRevisions_eq s.store.revisions old.id
    (editStamp s.lastEditAt now) (itemDiff old updated)
  rw [Editor.step, hrow.after]
  refine ⟨⟨added, heq.symm⟩, ?_, ?_⟩
  · intro rev hrev hrevID x hx hxID
    have hadded : rev ∈ added := by
      have hdrop : (recordRevisions s.store.revisions old.id (editStamp s.lastEditAt now)
          (itemDiff old updated)).drop s.store.revisions.length = added := by
        rw [heq, drop_left]
      rw [← hdrop]
      exact hrev
    have hold : old.id = row.id := by rw [hrow.loaded]
    have hsame : x = row := h.unique.eq_of_id hx hrow.mem
      (hxID.trans (hrevID.symm.trans ((hitem rev hadded).trans hold)))
    have hchange : (rev.recordedAt, rev.change) ∈
        (itemDiff old updated).map (Prod.mk (editStamp s.lastEditAt now)) := by
      rw [← hmap]
      exact mem_map.2 ⟨rev, hadded, rfl⟩
    obtain ⟨change, hdiff, hpair⟩ := mem_map.1 hchange
    rw [hsame, ← hrow.fields_old, ← (Prod.mk.inj hpair).2]
    exact oldIn_of_mem_itemDiff hdiff
  · rintro req hreq hreqID
    have hr : r = .revert req := hreq
    subst hr
    obtain ⟨-, at_, changes, hgroup, hload, hfold⟩ := revertPrepare_eq hrow.prepared
    rw [hreqID] at hgroup hload
    refine ⟨at_, hgroup, fun x hx hxID row' hrow' hid' => ?_⟩
    have hid : row.id = initial.id := hrow.id.trans hreqID
    have hsame : x = row := h.unique.eq_of_id hx hrow.mem (hxID.trans hid.symm)
    obtain ⟨-, hchanges⟩ := itemLoadRevisionFields_ok hload
    have hgroupChanges : changes = revisionGroup s.store initial.id at_ := hchanges
    -- The row that was asked for belongs to one of the edits.
    have hnodup : (changes.map (·.field)).Nodup := by
      rw [itemRevisionGroupAt, Option.map_eq_some_iff] at hgroup
      obtain ⟨rev, hfind, rfl⟩ := hgroup
      have hrev := find?_some hfind
      simp only [Bool.and_eq_true, beq_iff_eq] at hrev
      have hmem : (rev.recordedAt, rev.change) ∈ edits.flatMap fun p => p.2.map (Prod.mk p.1) := by
        rw [← h.rows]
        refine mem_map.2 ⟨rev, mem_filter.2 ⟨mem_of_find?_eq_some hfind, ?_⟩, rfl⟩
        exact beq_iff_eq.2 hrev.2
      obtain ⟨p, hp, hpair⟩ := mem_flatMap.1 hmem
      obtain ⟨change, -, hpair⟩ := mem_map.1 hpair
      rw [hgroupChanges, ← (Prod.mk.inj hpair).1, h.editRows.revisionGroup_eq hp]
      exact (h.changes p hp).2
    have hundone : row'.fields = changes.foldl FieldChange.undo row.fields := by
      rw [hrow.eq_edited hrow' (hid'.trans hid.symm), ← hrow.fields_old, ← fields_of_foldlM hfold,
        fields_edited]
    rw [hsame, hundone, ← hgroupChanges]
    exact undo_changes hnodup row.fields

end

/-! ## Runs -/

/-- **The history of an item is an undo log.**  In every run of calls that were answered, on this
and other items and with any clock: each state's history of the item leads from its first fields
to its present ones, its key and its feed stay, and each call only adds to the history. -/
theorem undoLog_run (sanitize : String → String) {e : Editorial} (hunique : UniqueItems e.db)
    {initial : Item} (hinitial : initial ∈ e.db.items)
    (hfresh : ∀ r ∈ e.revisions, r.itemID ≠ initial.id) (lastEditAt : ℤ)
    (calls : List (EditRequest × ℤ))
    (h : Meets (Editor.step sanitize) (Answered sanitize) { store := e, lastEditAt } calls) :
    Always (Editor.step sanitize) (UndoLog initial) { store := e, lastEditAt } calls ∧
    ∀ before c after, calls = before ++ c :: after →
      RecordsEdit initial.id (exec (Editor.step sanitize) { store := e, lastEditAt } before) c.1
        (exec (Editor.step sanitize) { store := e, lastEditAt } (before ++ [c])) := by
  have hstart : EditLog initial { store := e, lastEditAt } [] := by
    refine ⟨hunique, ?_, List.Pairwise.nil, by simp, by simp, fun row hrow hid => ?_⟩
    · rw [filter_eq_nil_iff.2 fun r hr => by simpa using hfresh r hr]
      rfl
    · rw [hunique.eq_of_id hrow hinitial hid]
      exact ⟨rfl, rfl, rfl⟩
  have hrun : ∀ calls, Meets (Editor.step sanitize) (Answered sanitize) { store := e, lastEditAt }
      calls → Always (Editor.step sanitize) (fun s => ∃ edits, EditLog initial s edits)
        { store := e, lastEditAt } calls := fun calls hcalls =>
    always_of_meets (fun s c ⟨edits, hs⟩ hc => hs.step hc) calls _ ⟨[], hstart⟩ hcalls
  refine ⟨(hrun calls h).mono fun s ⟨edits, hs⟩ => hs.undoLog, ?_⟩
  rintro before c after rfl
  rw [meets_append, meets_cons] at h
  obtain ⟨edits, hs⟩ := (hrun before h.1).last
  rw [exec_concat]
  exact hs.recordsEdit h.2.1

/-- An item without recorded edits. -/
def uneditedItem : Item :=
  { id := 1, feedID := 1, itemKey := "k", contentHash := ⟨"h"⟩, title := "T", summaryText := "S"
    publishedAt := march2026, origin := .manual }

/-- A new title and a summary at once, and the revert of that edit, at the same clock reading. -/
def editAndRevert : List (EditRequest × ℤ) :=
  [(.update { id := 1, expectedVersion := 1, title := "U" }, march2026),
   (.revert { itemID := 1, revisionID := 2, expectedVersion := 2 }, march2026)]

/-- Both edits are in the history, the second one undoing the first. -/
theorem undoLog_run_reverted : Always (Editor.step id) (UndoLog uneditedItem)
        { store := { db := { items := [uneditedItem] } } } editAndRevert ∧
      revisionGroups (exec (Editor.step id) { store := { db := { items := [uneditedItem] } } }
        editAndRevert).store 1 =
        [[.text .title "T" "U", .text .summaryText "S" ""],
         [.text .title "U" "T", .text .summaryText "" "S"]] := by
  have hrun := undoLog_run id (e := { db := { items := [uneditedItem] } }) (by decide)
    (mem_singleton_self uneditedItem) (by simp) 0 editAndRevert (by decide +kernel)
  exact ⟨hrun.1, by decide +kernel⟩

end AnimeFeedFlux
