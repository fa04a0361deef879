import AnimeFeedFlux.Lib.Paging
import AnimeFeedFlux.Rpc.ItemEdit
import AnimeFeedFlux.TimeOrder

/-!
# The edit history of an item

An edit leaves one row of `item_revisions` per field it changed, all with the same `at`, and `at`
is what tells two edits apart: the readers of the history group rows by its text and order groups
by it.  `editStamp` keeps the stamps of one server apart and makes their texts equally long.
-/

namespace AnimeFeedFlux

open List Paging

/-! ## Stamps -/

/-- `editStamp`, after an edit at `lastEditAt`. -/
def editStamp (lastEditAt now : ℤ) : ℤ :=
  let at_ := if now ≤ lastEditAt then lastEditAt + 1 else now
  if at_ % 10 = 0 then at_ + 1 else at_

theorem editStamp_lt (lastEditAt now : ℤ) : lastEditAt < editStamp lastEditAt now := by
  simp only [editStamp]
  split <;> split <;> omega

theorem editStamp_digit (lastEditAt now : ℤ) : editStamp lastEditAt now % 10 ≠ 0 := by
  simp only [editStamp]
  split <;> split <;> omega

/-- Stamps whose last digit is not zero have texts of one length, which order as they do. -/
theorem textOrder_of_stamps {a b : ℤ} (ha : FourDigitYear a) (hb : FourDigitYear b)
    (hda : a % 10 ≠ 0) (hdb : b % 10 ≠ 0) : TextOrder a b := by
  have hwhole : ∀ {a b : ℤ}, a % 10 ≠ 0 → ¬CutShort a b := by
    rintro a b hd ⟨hlt, k, -, hcut⟩
    cases k with
    | zero =>
      rw [pow_zero, Int.emod_one] at hcut
      omega
    | succ k =>
      refine hd (Int.emod_eq_zero_of_dvd ?_)
      rw [hcut, pow_succ']
      exact (Int.dvd_mul_right 10 (10 ^ k)).trans (Int.dvd_self_sub_emod)
  exact (textOrder_iff ha hb).2 ⟨hwhole hda, hwhole hdb⟩

theorem TextOrder.eq_of_formatTime {a b : ℤ} (h : TextOrder a b)
    (heq : formatTime a = formatTime b) : a = b := by
  have hlt : ¬a < b := fun hab => by
    have := h.1.2 hab
    rw [heq] at this
    exact lt_irrefl _ this
  have hgt : ¬b < a := fun hba => by
    have := h.2.2 hba
    rw [heq] at this
    exact lt_irrefl _ this
  omega

/-! ## Fields -/

/-- The columns an edit can change. -/
inductive EditField
  | text (field : TextField)
  | publishedAt
  deriving DecidableEq, Repr

/-- The values of these columns. -/
@[ext] structure Fields where
  text : TextField → String
  publishedAt : ℤ

/-- The editable fields of an item. -/
def Item.fields (it : Item) : Fields := ⟨fun f => f.get it, it.publishedAt⟩

/-- The two agree in the field. -/
def Fields.SameAt (v v' : Fields) : EditField → Prop
  | .text f => v.text f = v'.text f
  | .publishedAt => v.publishedAt = v'.publishedAt

namespace FieldChange

def field : FieldChange → EditField
  | text f _ _ => .text f
  | publishedAt _ _ => .publishedAt

/-- The fields with the new value of a change. -/
def redo (v : Fields) : FieldChange → Fields
  | text f _ new => { v with text := Function.update v.text f new }
  | publishedAt _ new => { v with publishedAt := new }

/-- The fields with the old value of a change. -/
def undo (v : Fields) : FieldChange → Fields
  | text f old _ => { v with text := Function.update v.text f old }
  | publishedAt old _ => { v with publishedAt := old }

/-- The old value of the change is the one the field has. -/
def OldIn (v : Fields) : FieldChange → Prop
  | text f old _ => v.text f = old
  | publishedAt old _ => v.publishedAt = old

theorem oldIn_undo (v : Fields) (c : FieldChange) : c.OldIn (c.undo v) := by
  cases c with
  | text f old new => exact Function.update_self f old v.text
  | publishedAt old new => rfl

theorem sameAt_undo (v : Fields) (c : FieldChange) {field : EditField} (h : field ≠ c.field) :
    (c.undo v).SameAt v field := by
  cases c with
  | text f old new =>
    cases field with
    | text g => exact Function.update_of_ne (fun hgf => h (congrArg EditField.text hgf)) _ _
    | publishedAt => rfl
  | publishedAt old new =>
    cases field with
    | text g => rfl
    | publishedAt => exact absurd rfl h

theorem OldIn.of_sameAt {v v' : Fields} {c : FieldChange} (h : c.OldIn v)
    (hsame : v'.SameAt v c.field) : c.OldIn v' := by
  cases c with
  | text f old new => exact Eq.trans hsame h
  | publishedAt old new => exact Eq.trans hsame h

end FieldChange

theorem Fields.SameAt.refl (v : Fields) (field : EditField) : v.SameAt v field := by
  cases field <;> rfl

theorem Fields.SameAt.trans {v v' v'' : Fields} {field : EditField} (h : v.SameAt v' field)
    (h' : v'.SameAt v'' field) : v.SameAt v'' field := by
  cases field with
  | text f => exact Eq.trans h h'
  | publishedAt => exact Eq.trans h h'

variable {changes : List FieldChange}

/-- **Undoing a group of changes**: its fields get their old values, the others stay. -/
theorem undo_changes (hnodup : (changes.map (·.field)).Nodup) (v : Fields) :
    (∀ c ∈ changes, c.OldIn (changes.foldl FieldChange.undo v)) ∧
      ∀ field ∉ changes.map (·.field), (changes.foldl FieldChange.undo v).SameAt v field := by
  induction changes generalizing v with
  | nil => exact ⟨fun c hc => absurd hc not_mem_nil, fun field _ => .refl v field⟩
  | cons c changes ih =>
    rw [map_cons, nodup_cons] at hnodup
    obtain ⟨hold, hsame⟩ := ih hnodup.2 (c.undo v)
    refine ⟨fun c' hc' => ?_, fun field hfield => ?_⟩
    · rcases mem_cons.1 hc' with rfl | hc'
      · exact (FieldChange.oldIn_undo v c').of_sameAt (hsame _ hnodup.1)
      · exact hold c' hc'
    · rw [map_cons, mem_cons, not_or] at hfield
      exact (hsame field hfield.2).trans (c.sameAt_undo v hfield.1)

theorem fields_of_foldlM {old updated : Item}
    (h : changes.foldlM itemApplyRevisionField old = .ok updated) :
    updated.fields = changes.foldl FieldChange.undo old.fields := by
  induction changes generalizing old with
  | nil =>
    cases h
    rfl
  | cons c changes ih =>
    cases c with
    | text f o n =>
      have hset : (f.set old o).fields = FieldChange.undo old.fields (.text f o n) := by
        refine Fields.ext (funext fun g => ?_) (by cases f <;> rfl)
        cases f <;> cases g <;> rfl
      rw [foldl_cons, ← hset]
      exact ih h
    | publishedAt o n =>
      cases hparse : parseTime o with
      | none =>
        simp only [foldlM_cons, itemApplyRevisionField, hparse] at h
        cases h
      | some t =>
        obtain ⟨-, rfl⟩ := parseTime_eq_some.1 hparse
        simp only [foldlM_cons, itemApplyRevisionField, hparse] at h
        have hset : ({ old with publishedAt := o } : Item).fields =
            FieldChange.undo old.fields (.publishedAt o n) :=
          Fields.ext (funext fun g => by cases g <;> rfl) rfl
        rw [foldl_cons, ← hset]
        exact ih h

/-! ## The diff of an edit -/

section
variable (old updated : Item)

/-- The change of a text, if there is one. -/
def textChange (f : TextField) : Option FieldChange :=
  if f.get old ≠ f.get updated then some (.text f (f.get old) (f.get updated)) else none

theorem itemDiff_eq : itemDiff old updated = TextField.all.filterMap (textChange old updated) ++
    if old.publishedAt ≠ updated.publishedAt then
      [.publishedAt old.publishedAt updated.publishedAt]
    else [] := rfl

variable {old updated}

theorem textChange_some {f : TextField} {c : FieldChange} (h : textChange old updated f = some c) :
    c = .text f (f.get old) (f.get updated) := by
  rw [textChange] at h
  split at h
  · cases h
    rfl
  · cases h

theorem oldIn_of_mem_itemDiff {c : FieldChange} (h : c ∈ itemDiff old updated) :
    c.OldIn old.fields := by
  rw [itemDiff_eq] at h
  rcases mem_append.1 h with h | h
  · obtain ⟨f, -, hf⟩ := mem_filterMap.1 h
    rw [textChange_some hf]
    rfl
  split at h
  · rw [mem_singleton.1 h]
    rfl
  · exact absurd h not_mem_nil

theorem nodup_fields_itemDiff (old updated : Item) :
    ((itemDiff old updated).map (·.field)).Nodup := by
  have htexts : ∀ fs : List TextField, fs.Nodup →
      ((fs.filterMap (textChange old updated)).map (·.field)).Nodup := by
    intro fs hfs
    refine (hfs.filterMap fun f g c hf hg => ?_).map_on ?_
    · have hsame := (textChange_some hf).symm.trans (textChange_some hg)
      injection hsame
    intro c hc c' hc' heq
    obtain ⟨f, -, hf⟩ := mem_filterMap.1 hc
    obtain ⟨g, -, hg⟩ := mem_filterMap.1 hc'
    rw [textChange_some hf, textChange_some hg] at heq ⊢
    injection heq with hfg
    rw [hfg]
  rw [itemDiff_eq, map_append]
  refine List.Nodup.append (htexts _ (by decide)) ?_ ?_
  · split <;> simp
  intro field hfield hpublished
  obtain ⟨c, hc, rfl⟩ := mem_map.1 hfield
  obtain ⟨f, -, hf⟩ := mem_filterMap.1 hc
  rw [textChange_some hf] at hpublished
  split at hpublished
  · exact absurd (mem_singleton.1 hpublished) (by rintro ⟨⟩)
  · exact absurd hpublished not_mem_nil

theorem redo_textChanges (fs : List TextField) (v : Fields)
    (hv : ∀ f ∈ fs, v.text f = f.get old) (hnodup : fs.Nodup) :
    (fs.filterMap (textChange old updated)).foldl FieldChange.redo v =
      { v with text := fun f => if f ∈ fs then f.get updated else v.text f } := by
  induction fs generalizing v with
  | nil => simp
  | cons f fs ih =>
    rw [nodup_cons] at hnodup
    by_cases hchanged : f.get old = f.get updated
    · have hnone : textChange old updated f = none := if_neg (not_not.2 hchanged)
      rw [filterMap_cons_none hnone, ih v (fun g hg => hv g (mem_cons_of_mem f hg)) hnodup.2]
      refine Fields.ext (funext fun g => ?_) rfl
      by_cases hgf : g = f
      · subst hgf
        simp [hnodup.1, hv g (mem_cons_self ..), hchanged]
      · simp [hgf]
    · have hsome : textChange old updated f = some (.text f (f.get old) (f.get updated)) :=
        if_pos hchanged
      rw [filterMap_cons_some hsome, foldl_cons, ih]
      · refine Fields.ext (funext fun g => ?_) rfl
        by_cases hgf : g = f
        · subst hgf
          simp [FieldChange.redo, hnodup.1]
        · simp [FieldChange.redo, hgf]
      · intro g hg
        have hgf : g ≠ f := fun h => hnodup.1 (h ▸ hg)
        exact (Function.update_of_ne hgf _ _).trans (hv g (mem_cons_of_mem f hg))
      · exact hnodup.2

/-- **The recorded diff leads from the old fields to the new ones.** -/
theorem redo_itemDiff (old updated : Item) :
    (itemDiff old updated).foldl FieldChange.redo old.fields = updated.fields := by
  have hall : ∀ f : TextField, f ∈ TextField.all := by
    intro f
    cases f <;> decide
  rw [itemDiff_eq, foldl_append, redo_textChanges _ _ (fun f _ => rfl) (by decide)]
  simp only [hall, if_true]
  by_cases hpublished : old.publishedAt = updated.publishedAt
  · rw [if_neg (not_not.2 hpublished)]
    exact Fields.ext rfl hpublished
  · rw [if_pos hpublished]
    rfl

end

/-! ## Distinct values in order -/

section
variable {α β : Type} [LinearOrder β]

/-- `SELECT DISTINCT … ORDER BY … DESC`, where `key` is what the column holds. -/
def distinctDesc (key : α → β) (rows : List α) : List α :=
  (rows.pwFilter fun a b => key a ≠ key b).insertionSort fun a b => key b ≤ key a

theorem mem_distinct {key : α → β} {rows : List α}
    (hkey : ∀ a ∈ rows, ∀ b ∈ rows, key a = key b → a = b) {a : α} :
    a ∈ rows.pwFilter (fun a b => key a ≠ key b) ↔ a ∈ rows := by
  refine ⟨fun ha => pwFilter_subset _ ha, fun ha => ?_⟩
  by_contra hnot
  have hne : ∀ b ∈ rows.pwFilter (fun a b => key a ≠ key b), key a ≠ key b := by
    intro b hb heq
    exact hnot (hkey a ha b (pwFilter_subset _ hb) heq ▸ hb)
  have htrans : ∀ {x y z : α}, key x ≠ key z → key x ≠ key y ∨ key y ≠ key z := by
    intro x y z hxz
    by_contra hboth
    rw [not_or, not_not, not_not] at hboth
    exact hxz (hboth.1.trans hboth.2)
  exact (forall_mem_pwFilter (R := fun a b => key a ≠ key b) htrans a rows).1 hne a ha rfl

/-- A list in strictly descending order of its keys is what its elements give, however often they
occur. -/
theorem distinctDesc_eq {key : α → β} {rows desc : List α} (hmem : ∀ a, a ∈ rows ↔ a ∈ desc)
    (hdesc : desc.Pairwise fun a b => key b < key a) : distinctDesc key rows = desc := by
  have hkeys : (desc.map key).Nodup := pairwise_map.2 (hdesc.imp fun hlt => hlt.ne')
  have hinj : ∀ a ∈ desc, ∀ b ∈ desc, key a = key b → a = b := fun a ha b hb heq =>
    inj_on_of_nodup_map hkeys ha hb heq
  have hdistinct : ∀ a, a ∈ rows.pwFilter (fun a b => key a ≠ key b) ↔ a ∈ desc := by
    intro a
    rw [← hmem]
    refine mem_distinct fun a ha b hb heq => ?_
    exact hinj a ((hmem a).1 ha) b ((hmem b).1 hb) heq
  have hnodup : (rows.pwFilter fun a b => key a ≠ key b).Nodup :=
    (pairwise_pwFilter rows).imp fun hne heq => hne (congrArg key heq)
  have hperm : (distinctDesc key rows).Perm desc :=
    (perm_insertionSort _ _).trans
      ((perm_ext_iff_of_nodup hnodup (List.Nodup.of_map key hkeys)).2 hdistinct)
  refine hperm.eq_of_pairwise ?_ ?_ (hdesc.imp le_of_lt)
  · intro a b ha hb hba hab
    exact hinj a (hperm.subset ha) b hb (le_antisymm hab hba)
  · exact pairwise_insertionSort _ _

end

/-! ## Reading the history -/

section
variable (e : Editorial) (itemID : ℕ) (at_ : ℤ)

/-- The changes recorded for an item at one time. -/
def revisionGroup : List FieldChange :=
  (e.revisions.filter fun r => r.itemID == itemID &&
    formatTime r.recordedAt == formatTime at_).map (·.change)

/-- `SELECT DISTINCT at … ORDER BY at DESC`. -/
def revisionTimes : List ℤ :=
  distinctDesc formatTime ((e.revisions.filter (·.itemID == itemID)).map (·.recordedAt))

def itemRevisionDefaultPageSize : ℤ := 20
def itemRevisionMaxPageSize : ℤ := 100

structure ItemRevision where
  id : ℕ
  at_ : ℤ
  changes : List FieldChange
  deriving DecidableEq, Repr

/-- `itemLoadRevisionFields`, with the id of the group. -/
def itemRevisionAt : Except StoreError ItemRevision :=
  match e.revisions.find? fun r => r.itemID == itemID &&
      formatTime r.recordedAt == formatTime at_ with
  | none => .error .notFound
  | some first =>
    match itemLoadRevisionFields e itemID at_ with
    | .error err => .error err
    | .ok changes => .ok ⟨first.id, at_, changes⟩

/-- `ItemServer.ListRevisions`.  The page token stands for the time it encodes, and so does the
next one. -/
def listRevisions (pageSize : ℤ) (pageToken : Option ℤ) : Except RpcError
    (List ItemRevision × Option ℤ) :=
  if itemID = 0 then .error ⟨.invalidArgument, "rpc: item_id is required", none⟩
  else match itemLoadByID e.db itemID with
    | .error err => .error (itemLoadError itemID err)
    | .ok _ =>
      let size := if pageSize ≤ 0 then itemRevisionDefaultPageSize else pageSize
      let size := (if itemRevisionMaxPageSize < size then itemRevisionMaxPageSize else size).toNat
      let ats := ((revisionTimes e itemID).filter fun at_ =>
        pageToken.all fun after => decide (formatTime at_ < formatTime after)).take (size + 1)
      let next := if size < ats.length then ats[size - 1]? else none
      if next.all fun at_ => decide (FourDigitYear at_) then
        match (ats.take size).mapM (itemRevisionAt e itemID) with
        | .error err => .error ⟨.internal, "rpc: loading revision fields for item " ++
            toString itemID, some err⟩
        | .ok revisions => .ok (revisions, next)
      else .error ⟨.internal, "rpc: parsing revision timestamp for item " ++ toString itemID,
        some .badTime⟩

end

variable {e : Editorial} {itemID : ℕ}

/-- An edit as the history shows it. -/
def ItemRevision.edit (rev : ItemRevision) : ℤ × List FieldChange := (rev.at_, rev.changes)

theorem itemRevisionAt_ok {at_ : ℤ} (hyear : FourDigitYear at_)
    (hne : revisionGroup e itemID at_ ≠ []) :
    ∃ rev, itemRevisionAt e itemID at_ = .ok rev ∧
      rev.edit = (at_, revisionGroup e itemID at_) := by
  rw [revisionGroup] at hne ⊢
  have hrows : e.revisions.filter (fun r => r.itemID == itemID &&
      formatTime r.recordedAt == formatTime at_) ≠ [] := fun h => hne (by rw [h]; rfl)
  obtain ⟨first, hfirst⟩ := Option.isSome_iff_exists.1 (find?_isSome.2
    ((exists_mem_of_ne_nil _ hrows).imp fun r hr => mem_filter.1 hr))
  have hload : itemLoadRevisionFields e itemID at_ = .ok ((e.revisions.filter fun r =>
      r.itemID == itemID && formatTime r.recordedAt == formatTime at_).map (·.change)) := by
    rw [itemLoadRevisionFields]
    split
    · rename_i hnil
      exact absurd hnil hrows
    · rw [if_pos hyear]
  exact ⟨⟨first.id, at_, _⟩, by simp only [itemRevisionAt, hfirst, hload], rfl⟩

theorem mapM_itemRevisionAt {ats : List ℤ}
    (h : ∀ at_ ∈ ats, FourDigitYear at_ ∧ revisionGroup e itemID at_ ≠ []) :
    ∃ revisions, ats.mapM (itemRevisionAt e itemID) = .ok revisions ∧
      revisions.map (·.edit) = ats.map fun at_ => (at_, revisionGroup e itemID at_) := by
  induction ats with
  | nil => exact ⟨[], rfl, rfl⟩
  | cons at_ ats ih =>
    obtain ⟨hyear, hne⟩ := h at_ (mem_cons_self ..)
    obtain ⟨rev, hrev, hedit⟩ := itemRevisionAt_ok hyear hne
    obtain ⟨revisions, hrest, hmap⟩ := ih fun t ht => h t (mem_cons_of_mem at_ ht)
    refine ⟨rev :: revisions, ?_, ?_⟩
    · rw [mapM_cons, hrev, hrest]
      rfl
    · rw [map_cons, map_cons, hedit, hmap]

/-- **One page**: the next groups, newest first, and the token of the page after it. -/
theorem listRevisions_page (hid : itemID ≠ 0) {it : Item}
    (hload : itemLoadByID e.db itemID = .ok it) (htimes : ∀ at_ ∈ revisionTimes e itemID,
      FourDigitYear at_ ∧ revisionGroup e itemID at_ ≠ [])
    (hdesc : (revisionTimes e itemID).Pairwise fun a b => formatTime b < formatTime a)
    (pageSize : ℤ) :
    ∃ size, 0 < size ∧ ∀ n ≤ (revisionTimes e itemID).length, ∃ revisions,
      listRevisions e itemID pageSize (tokenAt (revisionTimes e itemID) n) = .ok (revisions,
        if n + size < (revisionTimes e itemID).length then
          tokenAt (revisionTimes e itemID) (n + size) else none) ∧
      revisions.map (·.edit) = (((revisionTimes e itemID).drop n).take size).map
        fun at_ => (at_, revisionGroup e itemID at_) := by
  simp only [listRevisions, if_neg hid, hload]
  have hpos : 0 < (if itemRevisionMaxPageSize < (if pageSize ≤ 0 then
      itemRevisionDefaultPageSize else pageSize) then itemRevisionMaxPageSize
      else (if pageSize ≤ 0 then itemRevisionDefaultPageSize else pageSize)).toNat := by
    simp only [itemRevisionMaxPageSize, itemRevisionDefaultPageSize]
    split <;> split <;> omega
  generalize (if itemRevisionMaxPageSize < _ then _ else _ : ℤ).toNat = size at hpos ⊢
  generalize revisionTimes e itemID = times at htimes hdesc ⊢
  refine ⟨size, hpos, fun n hn => ?_⟩
  rw [filter_tokenAt (r := fun a b => decide (formatTime a < formatTime b))
    (fun a b hab => by simpa using (of_decide_eq_true hab).le)
    (hdesc.imp fun hlt => decide_eq_true hlt) hn]
  have hnext : (if size < ((times.drop n).take (size + 1)).length then
      ((times.drop n).take (size + 1))[size - 1]? else none) =
      if n + size < times.length then tokenAt times (n + size) else none := by
    rw [length_take, length_drop]
    by_cases hmore : n + size < times.length
    · rw [if_pos hmore, if_pos (by omega), tokenAt, if_neg (by omega),
        getElem?_take_of_lt (by omega), getElem?_drop]
      congr 1
      omega
    · rw [if_neg hmore, if_neg (by omega)]
  have hshown : ∀ at_ ∈ (times.drop n).take size,
      FourDigitYear at_ ∧ revisionGroup e itemID at_ ≠ [] :=
    fun at_ hat => htimes at_ (mem_of_mem_drop (mem_of_mem_take hat))
  obtain ⟨revisions, hrevisions, hmap⟩ := mapM_itemRevisionAt hshown
  have hyears : ((if n + size < times.length then tokenAt times (n + size) else none).all
      fun at_ => decide (FourDigitYear at_)) = true := by
    rw [Option.all_eq_true]
    intro at_ hat
    refine decide_eq_true (htimes at_ ?_).1
    split at hat
    · rw [tokenAt, if_neg (by omega)] at hat
      exact mem_of_getElem? hat
    · cases hat
  rw [hnext, if_pos hyears, take_take, min_eq_left (Nat.le_succ size), hrevisions]
  exact ⟨revisions, rfl, hmap⟩

/-! ## The edits of an item -/

/-- The rows of an item: the stamps and the changes. -/
def itemRows (e : Editorial) (itemID : ℕ) : List (ℤ × FieldChange) :=
  (e.revisions.filter (·.itemID == itemID)).map fun r => (r.recordedAt, r.change)

theorem recordRevisions_eq (revisions : List Revision) (itemID : ℕ) (now : ℤ)
    (changes : List FieldChange) :
    ∃ added, recordRevisions revisions itemID now changes = revisions ++ added ∧
      (∀ r ∈ added, r.itemID = itemID) ∧
      added.map (fun r => (r.recordedAt, r.change)) = changes.map (Prod.mk now) := by
  induction changes generalizing revisions with
  | nil => exact ⟨[], (append_nil _).symm, by simp, rfl⟩
  | cons change changes ih =>
    obtain ⟨added, heq, hitem, hmap⟩ := ih
      (revisions ++ [{ id := nextID (revisions.map (·.id)), itemID, recordedAt := now, change }])
    refine ⟨{ id := nextID (revisions.map (·.id)), itemID, recordedAt := now, change } :: added,
      ?_, ?_, ?_⟩
    · rw [recordRevisions, heq, append_assoc, singleton_append]
    · intro r hr
      rcases mem_cons.1 hr with rfl | hr
      · rfl
      · exact hitem r hr
    · rw [map_cons, map_cons, hmap]

theorem itemRows_edit (e : Editorial) (itemID : ℕ) (old updated : Item) (expectedVersion : ℕ)
    (at_ : ℤ) : itemRows (e.edit old updated expectedVersion at_) itemID = itemRows e itemID ++
      if old.id = itemID then (itemDiff old updated).map (Prod.mk at_) else [] := by
  obtain ⟨added, heq, hitem, hmap⟩ :=
    recordRevisions_eq e.revisions old.id at_ (itemDiff old updated)
  rw [itemRows, Editorial.edit, heq, filter_append, map_append]
  congr 1
  split
  · rename_i hid
    rw [filter_eq_self.2 fun r hr => by simp [hitem r hr, hid], hmap]
  · rename_i hid
    rw [filter_eq_nil_iff.2 fun r hr => by simp [hitem r hr, hid], map_nil]

/-- The rows of an item are those of its `edits`, each with its own stamp and its changes. -/
structure EditRows (e : Editorial) (itemID : ℕ) (edits : List (ℤ × List FieldChange)) : Prop where
  rows : itemRows e itemID = edits.flatMap fun p => p.2.map (Prod.mk p.1)
  nodup : (edits.map Prod.fst).Nodup
  stamps : ∀ p ∈ edits, FourDigitYear p.1 ∧ p.1 % 10 ≠ 0
  changes : ∀ p ∈ edits, p.2 ≠ []

namespace EditRows

variable {edits : List (ℤ × List FieldChange)} (h : EditRows e itemID edits)
include h

theorem textOrder {p q : ℤ × List FieldChange} (hp : p ∈ edits) (hq : q ∈ edits) :
    TextOrder p.1 q.1 :=
  textOrder_of_stamps (h.stamps p hp).1 (h.stamps q hq).1 (h.stamps p hp).2 (h.stamps q hq).2

/-- **A group holds the changes of one edit.** -/
theorem revisionGroup_eq {p : ℤ × List FieldChange} (hp : p ∈ edits) :
    revisionGroup e itemID p.1 = p.2 := by
  have hpairs : revisionGroup e itemID p.1 = ((edits.flatMap fun q => q.2.map (Prod.mk q.1)).filter
        fun x => formatTime x.1 == formatTime p.1).map Prod.snd := by
    rw [← h.rows, itemRows, filter_map, map_map, filter_filter, revisionGroup]
    refine congrArg₂ List.map rfl (filter_congr fun r _ => ?_)
    exact Bool.and_comm _ _
  have hothers : ∀ l ⊆ edits, p.1 ∉ l.map Prod.fst →
      (l.flatMap fun q => (q.2.map (Prod.mk q.1)).filter
        fun x => formatTime x.1 == formatTime p.1) = [] := by
    intro l hl hnot
    refine flatMap_eq_nil_iff.2 fun q hq => filter_eq_nil_iff.2 fun x hx => ?_
    obtain ⟨c, -, rfl⟩ := mem_map.1 hx
    simp only [beq_iff_eq]
    intro heq
    rw [← (h.textOrder (hl hq) hp).eq_of_formatTime heq] at hnot
    exact hnot (mem_map_of_mem hq)
  have hown : (p.2.map (Prod.mk p.1)).filter (fun x => formatTime x.1 == formatTime p.1) =
      p.2.map (Prod.mk p.1) := by
    refine filter_eq_self.2 fun x hx => ?_
    obtain ⟨c, -, rfl⟩ := mem_map.1 hx
    exact beq_self_eq_true _
  obtain ⟨l₁, l₂, hsplit⟩ := append_of_mem hp
  have hnodup := h.nodup
  rw [hsplit, map_append, map_cons, nodup_middle, nodup_cons, mem_append, not_or] at hnodup
  have hsub₁ : l₁ ⊆ edits := fun q hq => hsplit ▸ mem_append_left _ hq
  have hsub₂ : l₂ ⊆ edits := fun q hq =>
    hsplit ▸ mem_append_right _ (mem_cons_of_mem p hq)
  rw [hpairs, hsplit, filter_flatMap, flatMap_append, flatMap_cons,
    hothers l₁ hsub₁ hnodup.1.1, hothers l₂ hsub₂ hnodup.1.2, hown, nil_append,
    append_nil, map_map]
  exact map_id _

/-- **The times of an item are the stamps of its edits**, newest first. -/
theorem revisionTimes_eq {desc : List ℤ} (hperm : desc.Perm (edits.map Prod.fst))
    (hdesc : desc.Pairwise (· > ·)) : revisionTimes e itemID = desc ∧
      (revisionTimes e itemID).Pairwise fun a b => formatTime b < formatTime a := by
  have htimes : (e.revisions.filter (·.itemID == itemID)).map (·.recordedAt) =
      edits.flatMap fun p => p.2.map fun _ => p.1 := by
    have hfst := congrArg (List.map Prod.fst) h.rows
    rw [itemRows, map_map, map_flatMap] at hfst
    simpa only [map_map, Function.comp_def] using hfst
  have htexts : desc.Pairwise fun a b => formatTime b < formatTime a := by
    refine hdesc.imp_of_mem fun ha hb hlt => ?_
    obtain ⟨p, hp, rfl⟩ := mem_map.1 (hperm.mem_iff.1 ha)
    obtain ⟨q, hq, rfl⟩ := mem_map.1 (hperm.mem_iff.1 hb)
    exact (h.textOrder hq hp).1.2 hlt
  have htimesEq : revisionTimes e itemID = desc := by
    rw [revisionTimes, htimes]
    refine distinctDesc_eq (fun t => ?_) htexts
    rw [hperm.mem_iff, mem_flatMap, mem_map]
    constructor
    · rintro ⟨p, hp, ht⟩
      obtain ⟨c, -, rfl⟩ := mem_map.1 ht
      exact ⟨p, hp, rfl⟩
    · rintro ⟨p, hp, rfl⟩
      obtain ⟨c, hc⟩ := exists_mem_of_ne_nil _ (h.changes p hp)
      exact ⟨p, hp, mem_map.2 ⟨c, hc, rfl⟩⟩
  exact ⟨htimesEq, htimesEq ▸ htexts⟩

/-- **The pages of `ListRevisions` list every edit once**, newest first. -/
theorem walk_listRevisions (hid : itemID ≠ 0) {it : Item}
    (hload : itemLoadByID e.db itemID = .ok it) (pageSize : ℤ) {fuel : ℕ}
    (hfuel : edits.length < fuel) :
    ∃ revisions, walk (listRevisions e itemID pageSize) fuel none = .ok revisions ∧
      (revisions.map (·.at_)).Pairwise (· > ·) ∧ (revisions.map (·.edit)).Perm edits := by
  have hperm := perm_insertionSort (· ≥ ·) (edits.map Prod.fst)
  have hnodup := hperm.nodup_iff.2 h.nodup
  have hstrict : ((edits.map Prod.fst).insertionSort (· ≥ ·)).Pairwise (· > ·) :=
    (pairwise_insertionSort (· ≥ ·) _).imp₂ (fun a b hge hne => lt_of_le_of_ne hge hne.symm) hnodup
  obtain ⟨htimes, hdesc⟩ := h.revisionTimes_eq hperm hstrict
  have hmem : ∀ at_ ∈ revisionTimes e itemID,
      FourDigitYear at_ ∧ revisionGroup e itemID at_ ≠ [] := by
    intro at_ hat
    rw [htimes, hperm.mem_iff] at hat
    obtain ⟨p, hp, rfl⟩ := mem_map.1 hat
    rw [h.revisionGroup_eq hp]
    exact ⟨(h.stamps p hp).1, h.changes p hp⟩
  obtain ⟨size, hsize, hpage⟩ := listRevisions_page hid hload hmem hdesc pageSize
  obtain ⟨revisions, hwalk, hshown⟩ := walk_tokenAt hsize hpage fuel 0 (Nat.zero_le _) (by
    rw [htimes, hperm.length_eq, length_map]
    omega)
  rw [drop_zero, htimes] at hshown
  refine ⟨revisions, hwalk, ?_, ?_⟩
  · have hats := congrArg (List.map Prod.fst) hshown
    rw [map_map, map_map] at hats
    have : revisions.map (·.at_) = (edits.map Prod.fst).insertionSort (· ≥ ·) :=
      hats.trans (map_id _)
    rw [this]
    exact hstrict
  · rw [hshown]
    refine (hperm.map _).trans (Perm.of_eq ?_)
    rw [map_map]
    refine (map_congr_left fun p hp => ?_).trans (map_id edits)
    exact Prod.ext rfl (h.revisionGroup_eq hp)

end EditRows

end AnimeFeedFlux
