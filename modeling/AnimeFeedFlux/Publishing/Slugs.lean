import AnimeFeedFlux.Publishing.Backdating
import AnimeFeedFlux.Rpc.Feed
import AnimeFeedFlux.Rpc.ItemEdit

/-!
# The slug of a feed that has published

The slug is part of every item's guid, so a feed that has an item must keep it.
`feedCheckSlugImmutable` counts the items in a statement of its own; `feedApplyUpdate` then
names the version of the row, which no insert of an item moves.  This module runs `Update`
and `ImportTOML` one statement at a time beside the calls that insert items and beside the
other writers of `feeds`, and asks when a slug is kept.

An item inserted between the count and the write is not seen by either.  `Undisturbed` is the
condition on an insert.
-/

namespace AnimeFeedFlux

open Machine List

/-! ## Edits in flight -/

/-- A call of `Update` or `ImportTOML` that has read its row. -/
structure FeedEdit where
  row : FeedRow
  feed : FeedIdentity
  spec : FeedSpec
  extra : FeedIdentityExtra
  /-- Whether the call is past `feedCheckSlugImmutable`. -/
  checked : Bool := false

variable {rec r r' : FeedRow} {db' : DB} {p : FeedRow → Bool} {f : FeedRow → FeedRow} {u : FeedEdit}

/-- The columns `ImportTOML` keeps: a recipe does not carry them. -/
def FeedRow.extra (r : FeedRow) : FeedIdentityExtra :=
  { enabled := r.enabled, author := r.author, copyright := r.copyright, ogImage := r.ogImage,
    ttlMinutes := r.ttlMinutes }

/-! ## The machine -/

/-- The item-writing calls with their store, and the edits of feeds in flight. -/
structure Desk where
  plane : Plane
  edits : List FeedEdit := []

/-- The store. -/
abbrev Desk.db (d : Desk) : DB := d.plane.db

/-- One statement or transaction.  `i` is the position of an edit among those in flight;
`drop` is an edit that fails between its statements, over its members or its recipe.  An
`extra` of `none` is an `ImportTOML`; an `Update` may also come as a whole, as the other calls do.
Of the writes `elsewhere` stands for, none touches `feeds` or `items`. -/
inductive DeskAction
  | load (id expectedVersion : ℕ) (feed : FeedIdentity) (spec : FeedSpec)
      (extra : Option FeedIdentityExtra)
  | check (i : ℕ)
  | apply (i : ℕ) (now : ℤ)
  | drop (i : ℕ)
  | item (a : Action)
  | deleteItem (id expectedVersion : ℕ) (now : ℤ)
  | restoreItem (id expectedVersion : ℕ) (now : ℤ)
  | feed (c : FeedCall)
  | disable (id : ℕ) (now : ℤ)

/-- The desk over another store. -/
def Desk.withDB (d : Desk) (db : DB) : Desk := { d with plane := { d.plane with db } }

/-- What an item-writing call may do here: `elsewhere` leaves `feeds` alone. -/
def Action.within (db : DB) : Action → Action
  | .elsewhere db' => .elsewhere { db' with feeds := db.feeds }
  | a => a

/-- One step of the desk.  An edit that fails leaves. -/
def Desk.step (lower : Char → Char) (sanitize : String → String) (d : Desk) : DeskAction → Desk
  | .load id expectedVersion feed spec extra =>
    match editLoad d.db id expectedVersion feed with
    | .error _ => d
    | .ok row =>
      { d with edits := d.edits ++ [{ row, feed, spec, extra := extra.getD row.extra }] }
  | .check i =>
    match d.edits[i]? with
    | none => d
    | some u =>
      match feedCheckSlugImmutable d.db u.row u.feed.slug with
      | .error _ => { d with edits := d.edits.eraseIdx i }
      | .ok () => { d with edits := d.edits.set i { u with checked := true } }
  | .apply i now =>
    match d.edits[i]? with
    | none => d
    | some u =>
      if u.checked then
        { d.withDB (feedApplyUpdate d.db u.row u.feed u.spec u.extra u.row.version now).1 with
          edits := d.edits.eraseIdx i }
      else d
  | .drop i => { d with edits := d.edits.eraseIdx i }
  | .item a => { d with plane := act lower sanitize d.plane (a.within d.db) }
  | .deleteItem id expectedVersion now =>
    d.withDB (AnimeFeedFlux.deleteItem d.db id expectedVersion now).1
  | .restoreItem id expectedVersion now =>
    d.withDB (AnimeFeedFlux.restoreItem d.db id expectedVersion now).1
  | .feed c => d.withDB (c.apply d.db)
  | .disable id now => d.withDB (disableFeed d.db id now)

/-! ## The property and the condition -/

/-- The feed has an item row, deleted or not. -/
def DB.HasItem (db : DB) (feedID : ℕ) : Prop := ∃ it ∈ db.items, it.feedID = feedID
deriving Decidable

/-- Once a feed has an item row its slug does not change any more, as long as the feed is not
deleted. -/
def SlugFixed (lower : Char → Char) (sanitize : String → String) (d : Desk)
    (acts : List DeskAction) : Prop :=
  ∀ before after, before ++ after = acts →
    ∀ r ∈ (exec (Desk.step lower sanitize) d before).db.feeds,
      (exec (Desk.step lower sanitize) d before).db.HasItem r.id →
      ∀ r' ∈ (exec (Desk.step lower sanitize) d acts).db.feeds,
        r'.id = r.id → r'.deletedAt = none → r'.slug = r.slug

/-- The row of the edit still has the version the edit has seen. -/
def FeedEdit.Current (u : FeedEdit) (db : DB) : Prop :=
  ∃ r ∈ db.feeds, r.id = u.row.id ∧ r.version = u.row.version
deriving Decidable

/-- The edit is past its check and about to give its feed another slug. -/
def FeedEdit.Renames (u : FeedEdit) (db : DB) : Prop :=
  u.checked = true ∧ u.feed.slug ≠ u.row.slug ∧ u.Current db
deriving Decidable

/-- A call about to insert items: no edit in flight is about to rename its feed. -/
def Thread.Undisturbed (d : Desk) : Thread → Prop
  | .promoting .. => True
  | .pending p => ∀ u ∈ d.edits, u.Renames d.db → u.row.id ≠ p.feedID

instance (d : Desk) : (t : Thread) → Decidable (t.Undisturbed d)
  | .promoting .. => isTrue trivial
  | .pending _ => inferInstanceAs (Decidable (∀ u ∈ d.edits, _))

/-- The condition on a step: no item is inserted into a feed that an edit in flight is about
to rename. -/
def Undisturbed (d : Desk) : DeskAction → Prop
  | .item (.attempt i) => ∀ t ∈ d.plane.threads[i]?, t.Undisturbed d
  | _ => True

/-! ## What a write does to the rows of `feeds` -/

/-- A row before and after a write: the version moves unless the slug stays, and a deleted
row stays deleted. -/
structure FeedRow.Moves (r r' : FeedRow) : Prop where
  id : r'.id = r.id
  version : r.version < r'.version ∨ r'.version = r.version ∧ r'.slug = r.slug
  live : r'.deletedAt = none → r.deletedAt = none

theorem FeedRow.Moves.refl (r : FeedRow) : r.Moves r := ⟨rfl, .inr ⟨rfl, rfl⟩, fun h => h⟩

/-- A row before and after a write that respects the items in `db`. -/
structure FeedRow.Keeps (db : DB) (r r' : FeedRow) : Prop extends r.Moves r' where
  slug : db.HasItem r.id → r'.deletedAt = none → r'.slug = r.slug

theorem FeedRow.Keeps.refl (db : DB) (r : FeedRow) : r.Keeps db r :=
  ⟨.refl r, fun _ _ => rfl⟩

theorem FeedRow.Keeps.of_slug {db : DB} (hid : r'.id = r.id) (hver : r.version ≤ r'.version)
    (hlive : r'.deletedAt = r.deletedAt) (hslug : r'.slug = r.slug) : r.Keeps db r' where
  id := hid
  version := by
    rcases hver.lt_or_eq with hlt | heq
    · exact .inl hlt
    · exact .inr ⟨heq.symm, hslug⟩
  live := fun h => hlive ▸ h
  slug := fun _ _ => hslug

/-- The tables before and after a write: every row moved on, and rows with new ids. -/
structure Succeeds (db db' : DB) : Prop where
  ids : (db'.feeds.map (·.id)).Nodup
  feeds : ∀ r ∈ db.feeds, ∃ r' ∈ db'.feeds, r.Keeps db r'
  items : ∀ id, db.HasItem id → db'.HasItem id

theorem hasItem_iff_slots {db : DB} {id : ℕ} : db.HasItem id ↔ id ∈ db.slots.map (·.1) := by
  simp [DB.HasItem, DB.slots, Item.slot]

/-- A write to `feeds` alone. -/
structure Rewrites (db db' : DB) : Prop extends Succeeds db db' where
  same : db'.items = db.items

section
variable {db : DB} (hids : (db.feeds.map (·.id)).Nodup)
include hids

theorem Succeeds.map (hfeeds : db'.feeds = db.feeds.map fun r => if p r then f r else r)
    (hkeeps : ∀ r ∈ db.feeds, p r → r.Keeps db (f r))
    (hitems : ∀ id, db.HasItem id → db'.HasItem id) : Succeeds db db' := by
  have hrow : ∀ r ∈ db.feeds, r.Keeps db (if p r then f r else r) := by
    intro r hr
    split
    · exact hkeeps r hr (by assumption)
    · exact .refl db r
  refine ⟨?_, ?_, hitems⟩
  · have heq : db'.feeds.map (·.id) = db.feeds.map (·.id) := by
      rw [hfeeds, map_map]
      exact map_congr_left fun r hr => (hrow r hr).id
    rw [heq]
    exact hids
  · intro r hr
    refine ⟨_, ?_, hrow r hr⟩
    rw [hfeeds]
    exact mem_map_of_mem hr

theorem Succeeds.of_feeds (hfeeds : db'.feeds = db.feeds)
    (hitems : ∀ id, db.HasItem id → db'.HasItem id) : Succeeds db db' :=
  ⟨hfeeds ▸ hids, fun r hr => ⟨r, hfeeds ▸ hr, .refl db r⟩, hitems⟩

theorem Rewrites.refl : Rewrites db db :=
  ⟨.of_feeds hids rfl fun _ h => h, rfl⟩

theorem Rewrites.map (hkeeps : ∀ r ∈ db.feeds, p r → r.Keeps db (f r)) :
    Rewrites db { db with feeds := db.feeds.map fun r => if p r then f r else r } :=
  ⟨.map hids rfl hkeeps fun _ h => h, rfl⟩

end

/-! ## Steps -/

/-- The row an edit has read: it is still there, as it was or at a later version. -/
def FeedEdit.Seen (u : FeedEdit) (db : DB) : Prop :=
  ∃ r ∈ db.feeds, r.id = u.row.id ∧
    (u.row.version < r.version ∨ r.version = u.row.version ∧ r.slug = u.row.slug)

/-- The invariant: an edit about to rename its feed has found no item, and none came. -/
structure Desk.Settled (d : Desk) : Prop where
  ids : (d.db.feeds.map (·.id)).Nodup
  sound : d.plane.Sound
  seen : ∀ u ∈ d.edits, u.Seen d.db
  empty : ∀ u ∈ d.edits, u.Renames d.db → ¬d.db.HasItem u.row.id

theorem Succeeds.eq_of_id {db : DB} (h : Succeeds db db') (hr : r ∈ db'.feeds)
    (hr' : r' ∈ db'.feeds) (hid : r.id = r'.id) : r = r' :=
  inj_on_of_nodup_map h.ids hr hr' hid

theorem FeedEdit.Seen.succeeds {db : DB} (h : u.Seen db) (hs : Succeeds db db') : u.Seen db' := by
  obtain ⟨r, hr, hid, hver⟩ := h
  obtain ⟨r', hr', hkeeps⟩ := hs.feeds r hr
  refine ⟨r', hr', hkeeps.id.trans hid, ?_⟩
  rcases hkeeps.version with hlt | ⟨hver', hslug'⟩
  · exact .inl (by omega)
  rcases hver with hlt | ⟨hver, hslug⟩
  · exact .inl (by omega)
  · exact .inr ⟨hver'.trans hver, hslug'.trans hslug⟩

/-- An edit that is current after a write was so before it: versions only grow. -/
theorem FeedEdit.Current.of_succeeds {db : DB} (hseen : u.Seen db) (hs : Succeeds db db')
    (h : u.Current db') : u.Current db := by
  obtain ⟨r, hr, hid, hver⟩ := hseen
  obtain ⟨r', hr', hkeeps⟩ := hs.feeds r hr
  obtain ⟨x, hx, hxid, hxver⟩ := h
  obtain rfl := hs.eq_of_id hx hr' (by rw [hxid, hkeeps.id, hid])
  refine ⟨r, hr, hid, ?_⟩
  rcases hkeeps.version with hlt | ⟨hver', -⟩ <;> omega

variable {d : Desk}

/-- A write that puts no item into a feed about to be renamed keeps the invariant, for the
edits that remain. -/
theorem Desk.Settled.move {d' : Desk} (h : d.Settled) (hs : Succeeds d.db d'.db)
    (hsound : d'.plane.Sound) (hedits : ∀ u ∈ d'.edits, u ∈ d.edits)
    (hitems : ∀ u ∈ d.edits, u.Renames d.db → d'.db.HasItem u.row.id → d.db.HasItem u.row.id) :
    d'.Settled where
  ids := hs.ids
  sound := hsound
  seen := fun u hu => (h.seen u (hedits u hu)).succeeds hs
  empty := by
    intro u hu hren hitem
    have hmem := hedits u hu
    have hren' : u.Renames d.db :=
      ⟨hren.1, hren.2.1, FeedEdit.Current.of_succeeds (h.seen u hmem) hs hren.2.2⟩
    exact h.empty u hmem hren' (hitems u hmem hren' hitem)

theorem Desk.Settled.rewrite (h : d.Settled) {db : DB} (hs : Rewrites d.db db)
    {edits : List FeedEdit} (hedits : ∀ u ∈ edits, u ∈ d.edits) :
    ({ d.withDB db with edits } : Desk).Settled := by
  refine h.move hs.toSucceeds h.sound hedits ?_
  rintro u - - ⟨it, hit, hfeed⟩
  exact ⟨it, hs.same ▸ hit, hfeed⟩

theorem feedCheckSlugImmutable_ok {db : DB} {newSlug : String}
    (h : feedCheckSlugImmutable db rec newSlug = .ok ()) :
    newSlug = rec.slug ∨ ¬db.HasItem rec.id := by
  simp only [feedCheckSlugImmutable] at h
  split at h
  · exact .inl (by assumption)
  split at h
  · cases h
  · rename_i hany
    exact .inr (by simpa [DB.HasItem] using hany)

theorem Desk.Settled.apply (h : d.Settled) (hu : u ∈ d.edits) (hchecked : u.checked)
    (now : ℤ) :
    Rewrites d.db (feedApplyUpdate d.db u.row u.feed u.spec u.extra u.row.version now).1 := by
  rcases feedApplyUpdate_spec d.db u.row.version u.feed u.spec u.extra now u.row with
    ⟨e, heq⟩ | ⟨-, heq⟩
  · rw [heq]
    exact .refl h.ids
  rw [heq]
  refine .map h.ids ?_
  intro r hr hp
  simp only [Bool.and_eq_true, beq_iff_eq] at hp
  obtain ⟨x, hx, hxid, hxver⟩ := h.seen u hu
  obtain rfl := inj_on_of_nodup_map h.ids hx hr (hxid.trans hp.1.symm)
  refine ⟨⟨rfl, .inl (Nat.lt_succ_self _), fun hlive => hlive⟩, fun hitem _ => ?_⟩
  have hslug : u.feed.slug = u.row.slug := by
    by_contra hne
    exact h.empty u hu ⟨hchecked, hne, x, hr, hp⟩ (hp.1 ▸ hitem)
  rcases hxver with hlt | ⟨-, hrow⟩
  · omega
  · exact hslug.trans hrow.symm

section
variable {db : DB} (hids : (db.feeds.map (·.id)).Nodup)
include hids

theorem rewrites_edits {id v : ℕ} {edit : FeedRow → FeedRow → FeedRow} {reply : Reply Unit}
    (h : EditsFeed db id v edit reply) (hkeeps : ∀ rec r : FeedRow, r.Keeps db (edit rec r)) :
    Rewrites db reply.1 := by
  rcases h with ⟨e, rfl⟩ | ⟨rec, -, -, -, rfl⟩
  · exact .refl hids
  · exact .map hids fun r _ _ => hkeeps rec r

theorem rewrites_feedInsert {feed : FeedIdentity} {spec : FeedSpec} {extra : FeedIdentityExtra}
    {now : ℤ} {r : DB × ℕ} (h : feedInsert db feed spec extra now = .ok r) :
    Rewrites db r.1 := by
  obtain ⟨-, hid, hdb⟩ := feedInsert_ok h
  rw [hdb, hid]
  refine ⟨⟨?_, fun x hx => ⟨x, mem_append_left _ hx, .refl db x⟩, fun _ hitem => hitem⟩, rfl⟩
  simp only [map_append, map_cons, map_nil]
  refine nodup_append.mpr ⟨hids, nodup_singleton _, ?_⟩
  intro i hi j hj
  rw [mem_singleton.mp hj]
  exact (lt_nextID hi).ne

/-- Nothing comes between the check of an `Update` and its write. -/
theorem rewrites_updateFeed (id expectedVersion : ℕ) (feed : FeedIdentity) (spec : FeedSpec)
    (extra : FeedIdentityExtra) (now : ℤ) :
    Rewrites db (updateFeed db id expectedVersion feed spec extra now).1 := by
  simp only [updateFeed]
  split
  · exact .refl hids
  rename_i rec hload
  split
  · exact .refl hids
  rename_i hcheck
  rcases feedApplyUpdate_spec db expectedVersion feed spec extra now rec with
    ⟨e, heq⟩ | ⟨-, heq⟩
  · rw [heq]
    exact .refl hids
  rw [heq]
  refine .map hids fun r hr hp => ?_
  obtain rfl := inj_on_of_nodup_map hids (feedRequireFeed_ok (editLoad_ok hload).1).1 hr
    (id_of_match hp).symm
  refine ⟨⟨rfl, .inl (Nat.lt_succ_self _), fun hlive => hlive⟩, fun hitem _ => ?_⟩
  exact (feedCheckSlugImmutable_ok hcheck).resolve_right (not_not.2 hitem)

theorem rewrites_feedCall (c : FeedCall) : Rewrites db (c.apply db) := by
  cases c with
  | create feed spec extra now =>
    simp only [FeedCall.apply]
    split
    · exact rewrites_feedInsert hids ‹_›
    · exact .refl hids
  | update id v feed spec extra now => exact rewrites_updateFeed hids id v feed spec extra now
  | setEnabled id v enabled now =>
    exact rewrites_edits hids (setEnabled_edits ..) fun _ _ => .of_slug rfl (Nat.le_succ _) rfl rfl
  | setMembers id v now =>
    exact rewrites_edits hids (setMembers_edits ..) fun _ _ => .of_slug rfl (Nat.le_succ _) rfl rfl
  | delete id v now =>
    refine rewrites_edits hids (deleteFeed_edits ..) fun rec r => ?_
    split
    · exact ⟨⟨rfl, .inl (Nat.lt_succ_self _), fun hlive => by cases hlive⟩,
        fun _ hlive => by cases hlive⟩
    · exact .refl db r

/-- A commit stamps `last_built_at`, and no insert of an item touches `feeds` otherwise. -/
theorem succeeds_pendingRun {p : Pending} {db' : DB} (hsound : p.Sound)
    (h : p.run db = .ok db') : Succeeds db db' := by
  have hitems : ∀ id, db.HasItem id → db'.HasItem id := by
    obtain ⟨new, hslots, -⟩ := hsound.run_slots h
    intro id hid
    rw [hasItem_iff_slots] at hid ⊢
    rw [hslots, map_append]
    exact mem_append_left _ hid
  simp only [Pending.run] at h
  split at h
  · exact .of_feeds hids (insertItemRow_feeds h) hitems
  · exact .of_feeds hids (promoteOnce_feeds h) hitems
  · exact .of_feeds hids (insertCorrectionOnce_feeds h) hitems
  · obtain ⟨built, hfeeds⟩ := commitRun_feeds h
    exact .map hids hfeeds (fun _ _ _ => .of_slug rfl le_rfl rfl rfl) hitems

end

theorem slots_deleteItem (db : DB) (id expectedVersion : ℕ) (now : ℤ) :
    (deleteItem db id expectedVersion now).1.slots = db.slots ∧
    (deleteItem db id expectedVersion now).1.feeds = db.feeds := by
  simp only [deleteItem]
  split
  · exact ⟨rfl, rfl⟩
  · exact ⟨rfl, rfl⟩
  · split
    · refine ⟨?_, rfl⟩
      simp only [DB.slots, map_map]
      refine map_congr_left fun it _ => ?_
      simp only [Function.comp_apply]
      split <;> rfl
    · exact ⟨rfl, rfl⟩

theorem slots_restoreItem (db : DB) (id expectedVersion : ℕ) (now : ℤ) :
    (restoreItem db id expectedVersion now).1.slots = db.slots ∧
    (restoreItem db id expectedVersion now).1.feeds = db.feeds := by
  have hslots : (db.items.map fun it : Item =>
      if it.id == id && it.version == expectedVersion then
        { it with deletedAt := none, updatedAt := now, version := it.version + 1 }
      else it).map Item.slot = db.slots := by
    simp only [DB.slots, map_map]
    refine map_congr_left fun it _ => ?_
    simp only [Function.comp_apply]
    split <;> rfl
  simp only [restoreItem]
  split
  · exact ⟨rfl, rfl⟩
  split
  · split <;> exact ⟨hslots, rfl⟩
  · exact ⟨rfl, rfl⟩

variable {d : Desk} {lower : Char → Char} {sanitize : String → String}

theorem Desk.Settled.editItem (h : d.Settled) {db : DB}
    (hdb : db.slots = d.db.slots ∧ db.feeds = d.db.feeds) :
    (d.withDB db).Settled ∧ Succeeds d.db db := by
  have hitems : ∀ id, db.HasItem id ↔ d.db.HasItem id := by
    intro id
    rw [hasItem_iff_slots, hasItem_iff_slots, hdb.1]
  have hs : Succeeds d.db db := .of_feeds h.ids hdb.2 fun id => (hitems id).2
  exact ⟨h.move hs h.sound (fun _ hu => hu) fun u _ _ => (hitems u.row.id).1, hs⟩

theorem Desk.Settled.item (h : d.Settled) (a : Action) (hund : Undisturbed d (.item a)) :
    (d.step lower sanitize (.item a)).Settled ∧
    Succeeds d.db (d.step lower sanitize (.item a)).db := by
  have hsound : (act lower sanitize d.plane (a.within d.db)).Sound := act_sound _ _ h.sound
  have hs : Succeeds d.db (act lower sanitize d.plane (a.within d.db)).db ∧
      ∀ u ∈ d.edits, u.Renames d.db →
        (act lower sanitize d.plane (a.within d.db)).db.HasItem u.row.id →
        d.db.HasItem u.row.id := by
    rcases act_db lower sanitize d.plane (a.within d.db) with
      hdb | ⟨i, p, ha, hp, hok⟩ | ⟨db, ha, hdb⟩
    · rw [hdb]
      exact ⟨(Rewrites.refl h.ids).toSucceeds, fun _ _ _ hitem => hitem⟩
    · have hpending : p.Sound := h.sound p (mem_of_getElem? hp)
      refine ⟨succeeds_pendingRun h.ids hpending hok, ?_⟩
      intro u hu hren hitem
      obtain ⟨new, hslots, hnew, -⟩ := hpending.run_slots hok
      rw [hasItem_iff_slots, hslots, map_append] at hitem
      rcases mem_append.1 hitem with hold | hmem
      · exact hasItem_iff_slots.2 hold
      obtain ⟨b, hb, hbid⟩ := mem_map.1 hmem
      have hai : a = .attempt i := by
        cases a with
        | elsewhere db => cases ha
        | _ => exact ha
      subst hai
      exact absurd (hbid.symm.trans (hnew b hb).1) (hund _ hp u hu hren)
    · have hfeeds : db.feeds = d.db.feeds := by
        cases a with
        | elsewhere db' =>
          cases ha
          rfl
        | _ => cases ha
      rw [hdb]
      exact ⟨.of_feeds h.ids hfeeds fun _ hitem => hitem, fun _ _ _ hitem => hitem⟩
  exact ⟨h.move hs.1 hsound (fun _ hu => hu) hs.2, hs.1⟩

/-- **What a step that meets the condition does**: the invariant stays, and no row of a feed
with an item changes its slug. -/
theorem Desk.Settled.step (h : d.Settled) (a : DeskAction) (hund : Undisturbed d a) :
    (d.step lower sanitize a).Settled ∧ Succeeds d.db (d.step lower sanitize a).db := by
  have hself : Rewrites d.db d.db := .refl h.ids
  have hsame : d.Settled ∧ Succeeds d.db d.db := ⟨h, hself.toSucceeds⟩
  have hwrite : ∀ {db : DB}, Rewrites d.db db →
      (d.withDB db).Settled ∧ Succeeds d.db (d.withDB db).db :=
    fun hs => ⟨h.rewrite hs fun _ hu => hu, hs.toSucceeds⟩
  have hleave : ∀ {db : DB}, Rewrites d.db db → ∀ i,
      ({ d.withDB db with edits := d.edits.eraseIdx i } : Desk).Settled ∧ Succeeds d.db db :=
    fun hs i => ⟨h.rewrite hs fun _ hu => mem_of_mem_eraseIdx hu, hs.toSucceeds⟩
  cases a with
  | load id expectedVersion feed spec extra =>
    simp only [Desk.step]
    split
    · exact hsame
    rename_i row hload
    obtain ⟨hrow, -, -⟩ := feedRequireFeed_ok (editLoad_ok hload).1
    refine ⟨⟨h.ids, h.sound, ?_, ?_⟩, hself.toSucceeds⟩
    · intro u hu
      rcases mem_append.1 hu with hu | hu
      · exact h.seen u hu
      obtain rfl := mem_singleton.1 hu
      exact ⟨row, hrow, rfl, .inr ⟨rfl, rfl⟩⟩
    · intro u hu hren
      rcases mem_append.1 hu with hu | hu
      · exact h.empty u hu hren
      obtain rfl := mem_singleton.1 hu
      exact absurd hren.1 (by simp)
  | check i =>
    simp only [Desk.step]
    split
    · exact hsame
    rename_i u hu
    have hmem := mem_of_getElem? hu
    split
    · exact hleave hself i
    rename_i hcheck
    refine ⟨⟨h.ids, h.sound, ?_, ?_⟩, hself.toSucceeds⟩
    · intro v hv
      rcases mem_or_eq_of_mem_set hv with hv | rfl
      · exact h.seen v hv
      · exact h.seen u hmem
    · intro v hv hren
      rcases mem_or_eq_of_mem_set hv with hv | rfl
      · exact h.empty v hv hren
      rcases feedCheckSlugImmutable_ok hcheck with hslug | hnone
      · exact absurd hslug hren.2.1
      · exact hnone
  | apply i now =>
    simp only [Desk.step]
    split
    · exact hsame
    rename_i u hu
    split
    · rename_i hchecked
      exact hleave (h.apply (mem_of_getElem? hu) hchecked now) i
    · exact hsame
  | drop i => exact hleave hself i
  | item a => exact h.item a hund
  | deleteItem id expectedVersion now => exact h.editItem (slots_deleteItem ..)
  | restoreItem id expectedVersion now => exact h.editItem (slots_restoreItem ..)
  | feed c => exact hwrite (rewrites_feedCall h.ids c)
  | disable id now =>
    exact hwrite (.map h.ids fun _ _ _ => .of_slug rfl (Nat.le_succ _) rfl rfl)

/-! ## Runs -/

theorem FeedRow.Keeps.trans {db db' : DB} {r r' r'' : FeedRow} (h : r.Keeps db r')
    (h' : r'.Keeps db' r'') (hitems : ∀ id, db.HasItem id → db'.HasItem id) : r.Keeps db r'' where
  id := h'.id.trans h.id
  version := by
    rcases h.version with hlt | ⟨hver, hslug⟩ <;> rcases h'.version with hlt' | ⟨hver', hslug'⟩
    · exact .inl (hlt.trans hlt')
    · exact .inl (hver' ▸ hlt)
    · exact .inl (hver ▸ hlt')
    · exact .inr ⟨hver'.trans hver, hslug'.trans hslug⟩
  live := fun hlive => h.live (h'.live hlive)
  slug := by
    intro hitem hlive
    have hitem' : db'.HasItem r'.id := h.id ▸ hitems r.id hitem
    exact (h'.slug hitem' hlive).trans (h.slug hitem (h'.live hlive))

theorem Succeeds.trans {db db' db'' : DB} (h : Succeeds db db') (h' : Succeeds db' db'') :
    Succeeds db db'' where
  ids := h'.ids
  feeds := by
    intro r hr
    obtain ⟨r', hr', hkeeps⟩ := h.feeds r hr
    obtain ⟨r'', hr'', hkeeps'⟩ := h'.feeds r' hr'
    exact ⟨r'', hr'', hkeeps.trans hkeeps' h.items⟩
  items := fun id hid => h'.items id (h.items id hid)

/-- **The slug of a feed with items is fixed, over every interleaving** in which no item is
inserted into a feed that an edit is about to rename. -/
theorem slugFixed_of_undisturbed (lower : Char → Char) (sanitize : String → String) (db : DB)
    (hfeeds : UniqueFeeds db) (acts : List DeskAction)
    (hund : Meets (Desk.step lower sanitize) Undisturbed ⟨⟨db, []⟩, []⟩ acts) :
    SlugFixed lower sanitize ⟨⟨db, []⟩, []⟩ acts := by
  have hstart : Desk.Settled ⟨⟨db, []⟩, []⟩ := ⟨hfeeds.ids, by simp [Plane.Sound], by simp, by simp⟩
  rintro before after rfl r hr hitem r' hr' hid hlive
  have hs : Succeeds (exec (Desk.step lower sanitize) ⟨⟨db, []⟩, []⟩ before).db
      (exec (Desk.step lower sanitize) ⟨⟨db, []⟩, []⟩ (before ++ after)).db :=
    related_of_meets (R := fun d d' => Succeeds d.db d'.db) Desk.Settled
      (fun d hd => (Rewrites.refl hd.ids).toSucceeds) (by intro r s t h h'; exact h.trans h')
      (fun d a hd ha => hd.step a ha) before after _ hstart hund
  obtain ⟨x, hx, hkeeps⟩ := hs.feeds r hr
  obtain rfl := hs.eq_of_id hx hr' (hkeeps.id.trans hid.symm)
  exact hkeeps.slug hitem hlive

/-- An edit that gives the feed `daily` the slug `nightly`. -/
def renameDaily : DeskAction :=
  .load 1 1 { slug := "nightly", title := "Daily", kind := .generative }
    { kind := .generative } (some {})

/-- A generation run of one item of that feed. -/
def generateDaily : DeskAction := .item (generateAt 1 "A" 10500000000)

/-- The feed is renamed before its first item comes, and keeps its slug from then on: through an
edit that would rename it again, one that does not, and a switch. -/
def renamedFirst : List DeskAction :=
  [renameDaily, generateDaily, .check 0, .apply 0 newYear2026, .item (.attempt 0),
    .feed (.update 1 2 { slug := "daily", title := "Daily", kind := .generative }
      { kind := .generative } {} newYear2026),
    .load 1 2 { slug := "nightly", title := "Nightly", kind := .generative }
      { kind := .generative } none, .check 0, .apply 0 newYear2026,
    .feed (.setEnabled 1 3 true newYear2026)]

theorem slugFixed_of_undisturbed_renamedFirst :
    Meets (Desk.step Char.toLower id) Undisturbed ⟨⟨twoOpenRuns, []⟩, []⟩ renamedFirst ∧
    SlugFixed Char.toLower id ⟨⟨twoOpenRuns, []⟩, []⟩ renamedFirst ∧
    (exec (Desk.step Char.toLower id) ⟨⟨twoOpenRuns, []⟩, []⟩ renamedFirst).db.feeds.map
      (fun r => (r.slug, r.title, r.version)) = [("nightly", "Nightly", 4)] := by
  have hmeets : Meets (Desk.step Char.toLower id) Undisturbed ⟨⟨twoOpenRuns, []⟩, []⟩
      renamedFirst := by
    refine ⟨trivial, trivial, trivial, trivial, ?_, trivial, trivial, trivial, trivial, trivial,
      trivial⟩
    unfold Undisturbed
    decide +kernel
  exact ⟨hmeets, slugFixed_of_undisturbed _ _ _ ⟨by decide, by decide⟩ _ hmeets,
    by decide +kernel⟩

/-- **An item inserted between the check and the write is renamed with its feed**: the edit
finds no item, a generation run commits one, and the edit goes through. -/
theorem not_slugFixed_overtaken : ¬SlugFixed Char.toLower id ⟨⟨twoOpenRuns, []⟩, []⟩
      [renameDaily, .check 0, generateDaily, .item (.attempt 0), .apply 0 newYear2026] := by
  intro h
  have hrows := h [renameDaily, .check 0, generateDaily, .item (.attempt 0)] [.apply 0 newYear2026]
    rfl
  revert hrows
  decide +kernel

end AnimeFeedFlux
