import AnimeFeedFlux.Rpc.Status
import AnimeFeedFlux.Schedule.Jitter
import AnimeFeedFlux.Store.Feeds
import AnimeFeedFlux.Store.Runs

/-!
# The feed service

The methods of `FeedServer` that write `feeds` or start a run.  `RunNow` opens a run row and
hands it to the executor; it reads neither the kill switch nor a budget.  `Delete` is soft:
the row stays, under a slug that carries the time of the deletion, and `enabled` keeps its
value.  The recipe is validated before these functions see it.
-/

namespace AnimeFeedFlux

/-- Whether `feedScanRecord` can parse the timestamps of the row. -/
def FeedRow.readable (r : FeedRow) : Bool :=
  r.lastBuiltAt.all (fun t => decide (FourDigitYear t)) &&
    r.deletedAt.all (fun t => decide (FourDigitYear t)) &&
    decide (FourDigitYear r.createdAt) && decide (FourDigitYear r.updatedAt)

def feedRequireFeed (db : DB) (id : ℕ) : Except RpcError FeedRow :=
  match db.feeds.find? (fun r => r.id == id && r.deletedAt.isNone) with
  | none => .error ⟨.notFound, "feed " ++ toString id ++ " not found", none⟩
  | some r =>
    if r.readable then .ok r
    else .error ⟨.internal, "loading feed " ++ toString id, some .badTime⟩

theorem feedRequireFeed_ok {db : DB} {id : ℕ} {r : FeedRow} (h : feedRequireFeed db id = .ok r) :
    r ∈ db.feeds ∧ r.id = id ∧ r.deletedAt = none := by
  simp only [feedRequireFeed] at h
  split at h
  · cases h
  rename_i r' hfind
  split at h
  · cases h
    have hp := List.find?_some hfind
    simp only [Bool.and_eq_true, beq_iff_eq, Option.isNone_iff_eq_none] at hp
    exact ⟨List.mem_of_find?_eq_some hfind, hp.1, hp.2⟩
  · cases h

def feedVersionConflict (id expected actual : ℕ) : RpcError :=
  ⟨.failedPrecondition, "feed " ++ toString id ++ ": version conflict (expected " ++
    toString expected ++ ", have " ++ toString actual ++ ") — reload and retry", none⟩

/-- `UPDATE feeds … WHERE id = ? AND version = ?`. -/
def DB.rewriteFeed (db : DB) (id version : ℕ) (edit : FeedRow → FeedRow) : DB :=
  { db with feeds := db.feeds.map fun r =>
      if r.id == id && r.version == version then edit r else r }

/-- **What a call that writes one feed does**: it fails and changes nothing, or it has found
the feed at the version it names and rewrites the row, under a slug no other row has. -/
def EditsFeed (db : DB) (id version : ℕ) (edit : FeedRow → FeedRow → FeedRow)
    (reply : Reply Unit) : Prop :=
  (∃ e, reply = (db, .error e)) ∨
  ∃ rec, feedRequireFeed db id = .ok rec ∧ rec.version = version ∧
    ((edit rec rec).slug = rec.slug ∨ ∀ r ∈ db.feeds, r.id ≠ id → r.slug ≠ (edit rec rec).slug) ∧
    reply = (db.rewriteFeed id version (edit rec), .ok ())

theorem id_of_match {i v : ℕ} {r : FeedRow} (h : (r.id == i && r.version == v)) : r.id = i :=
  beq_iff_eq.mp (Bool.and_eq_true_iff.mp h).1

namespace EditsFeed
variable {db : DB} {id version : ℕ} {edit : FeedRow → FeedRow → FeedRow} {reply : Reply Unit}
  (h : EditsFeed db id version edit reply) (hdb : UniqueFeeds db)
include h hdb

theorem unique (hid : ∀ rec r, (edit rec r).id = r.id) : UniqueFeeds reply.1 := by
  rcases h with ⟨e, rfl⟩ | ⟨rec, hrec, -, hslug, rfl⟩
  · exact hdb
  obtain ⟨hmem, hi, -⟩ := feedRequireFeed_ok hrec
  refine hdb.edit (fun _ => id_of_match) (hid rec) ?_
  intro r hr hp x hx hne
  rw [hdb.eq_of_id hr hmem ((id_of_match hp).trans hi.symm)]
  rcases hslug with hkeep | hfree
  · rw [hkeep]
    intro heq
    exact hne (hdb.eq_of_slug hx hmem heq ▸ hi)
  · exact hfree x hx hne

/-- The row of a deleted feed stays as it is. -/
theorem mem_of_deleted {r : FeedRow} (hr : r ∈ db.feeds) (hdel : r.deletedAt ≠ none) :
    r ∈ reply.1.feeds := by
  rcases h with ⟨e, rfl⟩ | ⟨rec, hrec, -, -, rfl⟩
  · exact hr
  obtain ⟨hmem, hi, hlive⟩ := feedRequireFeed_ok hrec
  refine List.mem_map.mpr ⟨r, hr, if_neg fun hp => hdel ?_⟩
  rw [hdb.eq_of_id hr hmem ((id_of_match hp).trans hi.symm), hlive]

end EditsFeed

/-! ## `Create` -/

/-- The fields of `feedspec.Spec` that have columns of their own. -/
structure FeedIdentity where
  slug : String
  title : String
  description : String := ""
  language : String := "en"
  kind : FeedKind
  timezone : String := "UTC"
  deriving DecidableEq, Repr

structure FeedIdentityExtra where
  enabled : Bool := false
  author : String := ""
  copyright : String := ""
  ogImage : String := ""
  ttlMinutes : ℕ := 0
  deriving DecidableEq, Repr

/-- The window of the jitter that is stored. -/
def feedJitterWindow : ℤ := 10 * Time.minute

/-- The row `feedInsert` writes. -/
def FeedIdentity.row (feed : FeedIdentity) (spec : FeedSpec) (extra : FeedIdentityExtra)
    (id : ℕ) (now : ℤ) : FeedRow :=
  { id, slug := feed.slug, title := feed.title, description := feed.description,
    language := feed.language, kind := feed.kind, spec := some spec, enabled := extra.enabled,
    timezone := feed.timezone, jitterOffset := Jitter.seconds feedJitterWindow feed.slug,
    author := extra.author, copyright := extra.copyright, ogImage := extra.ogImage,
    ttlMinutes := extra.ttlMinutes, createdAt := now, updatedAt := now }

section
variable (db : DB) (id expectedVersion : ℕ) (feed : FeedIdentity) (spec : FeedSpec)
  (extra : FeedIdentityExtra) (enabled : Bool) (now : ℤ)

/-- `feedInsert`: the database with the new row, and its id.  Soft-deleted feeds count for the
collision too. -/
def feedInsert : Except RpcError (DB × ℕ) :=
  if db.feeds.any (·.slug == feed.slug) then
    .error ⟨.alreadyExists, "feed slug \"" ++ feed.slug ++ "\" already exists", none⟩
  else
    let id := nextID (db.feeds.map (·.id))
    .ok ({ db with feeds := db.feeds ++ [feed.row spec extra id now] }, id)

variable {db feed spec extra now} in
theorem feedInsert_ok {r : DB × ℕ} (h : feedInsert db feed spec extra now = .ok r) :
    (∀ x ∈ db.feeds, x.slug ≠ feed.slug) ∧ r.2 = nextID (db.feeds.map (·.id)) ∧
    r.1 = { db with feeds := db.feeds ++ [feed.row spec extra r.2 now] } := by
  simp only [feedInsert] at h
  split at h
  · cases h
  rename_i hslug
  cases h
  exact ⟨by simpa using hslug, rfl, rfl⟩

/-! ## `Update` -/

def feedCheckSlugImmutable (db : DB) (rec : FeedRow) (newSlug : String) : Except RpcError Unit :=
  if newSlug = rec.slug then .ok ()
  else if db.items.any (·.feedID == rec.id) then
    .error ⟨.failedPrecondition, "feed \"" ++ rec.slug ++ "\": slug is immutable after first " ++
      "publish — it is embedded in every item's Tag URI guid (PLAN.md §14.1)", none⟩
  else .ok ()

/-- The row after `feedApplyUpdate`. -/
def FeedRow.updated (r : FeedRow) (feed : FeedIdentity) (spec : FeedSpec)
    (extra : FeedIdentityExtra) (now : ℤ) : FeedRow :=
  { r with
    slug := feed.slug, title := feed.title, description := feed.description
    language := feed.language, spec := some spec, enabled := extra.enabled
    timezone := feed.timezone, author := extra.author, copyright := extra.copyright
    ogImage := extra.ogImage, ttlMinutes := extra.ttlMinutes, updatedAt := now
    version := r.version + 1 }

/-- `feedApplyUpdate`.  The statement names the version the caller saw, and a row that has
moved on is a conflict. -/
def feedApplyUpdate (db : DB) (rec : FeedRow) (feed : FeedIdentity) (spec : FeedSpec)
    (extra : FeedIdentityExtra) (expectedVersion : ℕ) (now : ℤ) : Reply Unit :=
  if db.feeds.any (fun r => r.id == rec.id && r.version == expectedVersion) then
    if db.feeds.any (fun r => r.id != rec.id && r.slug == feed.slug) then
      (db, .error ⟨.internal, "updating feed " ++ toString rec.id, some .unique⟩)
    else
      ({ db with feeds := db.feeds.map fun r =>
           if r.id == rec.id && r.version == expectedVersion then r.updated feed spec extra now
           else r }, .ok ())
  else (db, .error (feedVersionConflict rec.id expectedVersion rec.version))

/-- The statement changes nothing, or gives the row a slug that no other row has. -/
theorem feedApplyUpdate_spec (rec : FeedRow) :
    (∃ e, feedApplyUpdate db rec feed spec extra expectedVersion now = (db, .error e)) ∨
    (∀ r ∈ db.feeds, r.id ≠ rec.id → r.slug ≠ feed.slug) ∧
      feedApplyUpdate db rec feed spec extra expectedVersion now =
        ({ db with feeds := db.feeds.map fun r =>
             if r.id == rec.id && r.version == expectedVersion then r.updated feed spec extra now
             else r }, .ok ()) := by
  simp only [feedApplyUpdate]
  split
  · split
    · exact Or.inl ⟨_, rfl⟩
    · rename_i hslug
      exact Or.inr ⟨by simpa using hslug, rfl⟩
  · exact Or.inl ⟨_, rfl⟩

/-- What `Update` does before the check of the slug: the row, its version and its kind. -/
def editLoad : Except RpcError FeedRow :=
  match feedRequireFeed db id with
  | .error e => .error e
  | .ok rec =>
    if rec.version ≠ expectedVersion then
      .error (feedVersionConflict rec.id expectedVersion rec.version)
    else if feed.kind ≠ rec.kind then
      .error ⟨.invalidArgument, "kind cannot change after creation", none⟩
    else .ok rec

/-- `FeedServer.Update`.  `ImportTOML` into a feed does the same, with the feed's own
`extra`. -/
def updateFeed : Reply Unit :=
  match editLoad db id expectedVersion feed with
  | .error e => (db, .error e)
  | .ok rec =>
    match feedCheckSlugImmutable db rec feed.slug with
    | .error e => (db, .error e)
    | .ok () => feedApplyUpdate db rec feed spec extra expectedVersion now

variable {db id expectedVersion feed} in
theorem editLoad_ok {rec : FeedRow} (h : editLoad db id expectedVersion feed = .ok rec) :
    feedRequireFeed db id = .ok rec ∧ rec.version = expectedVersion := by
  simp only [editLoad] at h
  split at h
  · cases h
  rename_i row hrow
  split at h
  · cases h
  rename_i hver
  split at h <;> cases h
  exact ⟨hrow, not_not.1 hver⟩

theorem updateFeed_edits :
    EditsFeed db id expectedVersion (fun _ r => r.updated feed spec extra now)
      (updateFeed db id expectedVersion feed spec extra now) := by
  simp only [updateFeed]
  split
  · exact Or.inl ⟨_, rfl⟩
  rename_i rec hload
  obtain ⟨hrec, hver⟩ := editLoad_ok hload
  split
  · exact Or.inl ⟨_, rfl⟩
  rcases feedApplyUpdate_spec db expectedVersion feed spec extra now rec with herr | ⟨hslug, hok⟩
  · exact Or.inl herr
  rw [(feedRequireFeed_ok hrec).2.1] at hslug hok
  exact Or.inr ⟨rec, hrec, hver, Or.inr hslug, hok⟩

/-! ## `SetEnabled` and `SetMembers` -/

/-- The row after `SetEnabled`.  Enabling clears the count of failures, disabling leaves it. -/
def FeedRow.switched (r : FeedRow) (enabled : Bool) (now : ℤ) : FeedRow :=
  { r with
    enabled, updatedAt := now, version := r.version + 1
    consecutiveFailures := if enabled then 0 else r.consecutiveFailures }

def setEnabled : Reply Unit :=
  match feedRequireFeed db id with
  | .error e => (db, .error e)
  | .ok rec =>
    if rec.version ≠ expectedVersion then
      (db, .error (feedVersionConflict rec.id expectedVersion rec.version))
    else
      ({ db with feeds := db.feeds.map fun r =>
           if r.id == id && r.version == expectedVersion then r.switched enabled now
           else r }, .ok ())

/-- `FeedServer.SetMembers`, as far as the row of the aggregate goes. -/
def setMembers : Reply Unit :=
  match feedRequireFeed db id with
  | .error e => (db, .error e)
  | .ok rec =>
    if rec.kind ≠ .aggregate then
      (db, .error ⟨.invalidArgument, "feed \"" ++ rec.slug ++ "\" is not an aggregate", none⟩)
    else if rec.version ≠ expectedVersion then
      (db, .error (feedVersionConflict rec.id expectedVersion rec.version))
    else if rec.spec.isNone then
      (db, .error ⟨.internal, "decoding spec for feed " ++ toString rec.id, none⟩)
    else
      ({ db with feeds := db.feeds.map fun r =>
           if r.id == id && r.version == expectedVersion then
             { r with updatedAt := now, version := r.version + 1 }
           else r }, .ok ())

theorem setEnabled_edits :
    EditsFeed db id expectedVersion (fun _ r => r.switched enabled now)
      (setEnabled db id expectedVersion enabled now) := by
  simp only [setEnabled]
  cases hrec : feedRequireFeed db id with
  | error e => exact Or.inl ⟨e, rfl⟩
  | ok rec =>
    dsimp only
    split
    · exact Or.inl ⟨_, rfl⟩
    · rename_i hver
      exact Or.inr ⟨rec, hrec, not_not.mp hver, Or.inl rfl, rfl⟩

theorem setMembers_edits :
    EditsFeed db id expectedVersion
      (fun _ r => { r with updatedAt := now, version := r.version + 1 })
      (setMembers db id expectedVersion now) := by
  simp only [setMembers]
  cases hrec : feedRequireFeed db id with
  | error e => exact Or.inl ⟨e, rfl⟩
  | ok rec =>
    dsimp only
    split
    · exact Or.inl ⟨_, rfl⟩
    split
    · exact Or.inl ⟨_, rfl⟩
    rename_i hver
    split
    · exact Or.inl ⟨_, rfl⟩
    · exact Or.inr ⟨rec, hrec, not_not.mp hver, Or.inl rfl, rfl⟩

/-! ## The failure sink -/

/-- `UPDATE feeds SET … WHERE id = ?`. -/
def DB.updateFeedRow (db : DB) (id : ℕ) (g : FeedRow → FeedRow) : DB :=
  { db with feeds := db.feeds.map fun r => if r.id == id then g r else r }

/-- `feedFailureSink.DisableFeed`, which does not ask whether the feed is deleted. -/
def disableFeed (db : DB) (id : ℕ) (now : ℤ) : DB :=
  db.updateFeedRow id fun r =>
    { r with enabled := false, version := r.version + 1, updatedAt := now }

def recordFailure (db : DB) (id : ℕ) : DB :=
  db.updateFeedRow id fun r => { r with consecutiveFailures := r.consecutiveFailures + 1 }

def resetFailures (db : DB) (id : ℕ) : DB :=
  db.updateFeedRow id fun r => { r with consecutiveFailures := 0 }

theorem UniqueFeeds.updateFeedRow {db : DB} (h : UniqueFeeds db) {i : ℕ} {g : FeedRow → FeedRow}
    (hid : ∀ r, (g r).id = r.id) (hslug : ∀ r, (g r).slug = r.slug) :
    UniqueFeeds (db.updateFeedRow i g) := by
  refine h.edit (fun r hp => beq_iff_eq.mp hp) hid ?_
  intro r hr hp x hx hxid heq
  rw [hslug] at heq
  exact hxid (h.eq_of_slug hx hr heq ▸ beq_iff_eq.mp hp)

/-! ## `Delete` -/

/-- The slug of a feed deleted at `now`. -/
def tombstone (slug : String) (now : ℤ) : String :=
  slug ++ "-deleted-" ++ toString (Time.unixNano now)

/-- The row after `Delete`. -/
def FeedRow.deleted (r : FeedRow) (slug : String) (now : ℤ) : FeedRow :=
  { r with slug, deletedAt := some now, updatedAt := now, version := r.version + 1 }

/-- `FeedServer.Delete`.  `feeds.slug` is unique. -/
def deleteFeed : Reply Unit :=
  match feedRequireFeed db id with
  | .error e => (db, .error e)
  | .ok rec =>
    if rec.version ≠ expectedVersion then
      (db, .error (feedVersionConflict rec.id expectedVersion rec.version))
    else
      let slug := tombstone rec.slug now
      if db.feeds.any (fun r => r.id != id && r.slug == slug) then
        (db, .error ⟨.internal, "deleting feed " ++ toString id, some .unique⟩)
      else
        ({ db with feeds := db.feeds.map fun r =>
             if r.id == id && r.version == expectedVersion && r.deletedAt.isNone then
               r.deleted slug now
             else r }, .ok ())

theorem deleteFeed_edits :
    EditsFeed db id expectedVersion
      (fun rec r => if r.deletedAt.isNone then r.deleted (tombstone rec.slug now) now else r)
      (deleteFeed db id expectedVersion now) := by
  simp only [deleteFeed]
  cases hrec : feedRequireFeed db id with
  | error e => exact Or.inl ⟨e, rfl⟩
  | ok rec =>
    dsimp only
    split
    · exact Or.inl ⟨_, rfl⟩
    rename_i hver
    split
    · exact Or.inl ⟨_, rfl⟩
    rename_i hslug
    refine Or.inr ⟨rec, hrec, not_not.mp hver, Or.inr ?_, ?_⟩
    · simpa [(feedRequireFeed_ok hrec).2.2, FeedRow.deleted] using hslug
    · simp only [DB.rewriteFeed, Bool.and_eq_true, ite_and]

end

/-! ## All that write `feeds` -/

/-- A call of `FeedServer`. -/
inductive FeedCall
  | create (feed : FeedIdentity) (spec : FeedSpec) (extra : FeedIdentityExtra) (now : ℤ)
  | update (id expectedVersion : ℕ) (feed : FeedIdentity) (spec : FeedSpec)
      (extra : FeedIdentityExtra) (now : ℤ)
  | setEnabled (id expectedVersion : ℕ) (enabled : Bool) (now : ℤ)
  | setMembers (id expectedVersion : ℕ) (now : ℤ)
  | delete (id expectedVersion : ℕ) (now : ℤ)

/-- The database after the call; a call that fails changes nothing. -/
def FeedCall.apply (db : DB) : FeedCall → DB
  | .create feed spec extra now =>
    match feedInsert db feed spec extra now with
    | .ok r => r.1
    | .error _ => db
  | .update id expectedVersion feed spec extra now =>
    (updateFeed db id expectedVersion feed spec extra now).1
  | .setEnabled id expectedVersion enabled now =>
    (AnimeFeedFlux.setEnabled db id expectedVersion enabled now).1
  | .setMembers id expectedVersion now => (AnimeFeedFlux.setMembers db id expectedVersion now).1
  | .delete id expectedVersion now => (deleteFeed db id expectedVersion now).1

/-- **Ids and slugs stay unique, and the row of a deleted feed stays as it is.** -/
theorem FeedCall.keeps {db : DB} (hdb : UniqueFeeds db) (c : FeedCall) : UniqueFeeds (c.apply db) ∧
      ∀ r ∈ db.feeds, r.deletedAt ≠ none → r ∈ (c.apply db).feeds := by
  have hedits : ∀ {i v : ℕ} {edit : FeedRow → FeedRow → FeedRow} {reply : Reply Unit},
      EditsFeed db i v edit reply → (∀ rec r, (edit rec r).id = r.id) →
      UniqueFeeds reply.1 ∧ ∀ r ∈ db.feeds, r.deletedAt ≠ none → r ∈ reply.1.feeds :=
    fun h hid => ⟨h.unique hdb hid, fun _ => h.mem_of_deleted hdb⟩
  cases c with
  | create feed spec extra now =>
    simp only [apply]
    split
    · obtain ⟨hslug, hid, hnew⟩ := feedInsert_ok ‹_›
      rw [hnew]
      exact ⟨hdb.append hid hslug, fun r hr _ => List.mem_append_left _ hr⟩
    · exact ⟨hdb, fun r hr _ => hr⟩
  | update i v feed spec extra now => exact hedits (updateFeed_edits ..) fun _ _ => rfl
  | setEnabled i v enabled now => exact hedits (setEnabled_edits ..) fun _ _ => rfl
  | setMembers i v now => exact hedits (setMembers_edits ..) fun _ _ => rfl
  | delete i v now => exact hedits (deleteFeed_edits ..) fun _ r => by split <;> rfl

/-! ## `RunNow` -/

/-- `FeedServer.RunNow`, up to the hand-over to the executor: the database with the open run
row, and its id. -/
def runNow (db : DB) (feedID : ℕ) (now : ℤ) : Except RpcError (DB × ℕ) :=
  match feedRequireFeed db feedID with
  | .error e => .error e
  | .ok rec =>
    if rec.kind = .aggregate then
      .error ⟨.failedPrecondition, "feed \"" ++ rec.slug ++ "\" is an aggregate and has no " ++
        "generator to run; it republishes its members (PLAN.md §14.2)", none⟩
    else match startRun db rec.id .manual "rpc:feed.RunNow" now with
      | .error .runInProgress =>
        .error ⟨.failedPrecondition, "feed \"" ++ rec.slug ++
          "\" already has a run in progress", none⟩
      | .error e =>
        .error ⟨.internal, "starting run for feed " ++ toString rec.id, some e⟩
      | .ok r => .ok r

end AnimeFeedFlux
