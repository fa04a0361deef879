import AnimeFeedFlux.Publish.Deleted

/-!
# The jitter that is displayed

`Create` stores the offset of the slug under the window `feedJitterWindow`, in whole seconds, so
that what is displayed is what the scheduler does.  The scheduler computes the offset again, from
the slug the feed has by then and under the window it is configured with.  The two agree as long
as no write brings a slug in whose seconds differ.
-/

namespace AnimeFeedFlux.Jitter

open Machine Publish

/-- What is stored for a live feed is what the scheduler adds, in whole seconds. -/
def Displayed (window : ℤ) (db : DB) : Prop :=
  ∀ r ∈ db.feeds, r.deletedAt = none → r.jitterOffset = seconds window r.slug
deriving Decidable

/-- The condition on a write: a new feed has the same seconds under both windows, and a live
feed keeps its seconds when an update gives it another slug. -/
def Agrees (window : ℤ) (db : DB) : FeedWrite → Prop
  | .call (.create feed spec extra now) => (feedInsert db feed spec extra now).isOk = true →
      seconds feedJitterWindow feed.slug = seconds window feed.slug
  | .call (.update id v feed spec extra now) =>
    (updateFeed db id v feed spec extra now).2.isOk = true → ∀ r ∈ db.feeds, r.id = id →
      r.deletedAt = none → seconds window feed.slug = seconds window r.slug
  | _ => True

instance (window : ℤ) (db : DB) (w : FeedWrite) : Decidable (Agrees window db w) := by
  unfold Agrees
  split <;> infer_instance

namespace Displayed
variable {window : ℤ} {db : DB} (h : Displayed window db)
include h

/-- An edit of rows is harmless if those that are live after it were so before it, with the
same seconds. -/
theorem edit {p : FeedRow → Bool} {f : FeedRow → FeedRow}
    (hkeep : ∀ r ∈ db.feeds, p r → (f r).deletedAt = none →
      r.deletedAt = none ∧ (f r).jitterOffset = r.jitterOffset ∧
        seconds window (f r).slug = seconds window r.slug) :
    Displayed window { db with feeds := db.feeds.map fun r => if p r then f r else r } := by
  intro r' hr' hlive
  obtain ⟨r, hr, rfl⟩ := List.mem_map.1 hr'
  by_cases hp : p r = true
  · rw [if_pos hp] at hlive ⊢
    obtain ⟨hlive', hjitter, hslug⟩ := hkeep r hr hp hlive
    rw [hjitter, hslug]
    exact h r hr hlive'
  · rw [if_neg hp] at hlive ⊢
    exact h r hr hlive

theorem edited {id v : ℕ} {f : FeedRow → FeedRow → FeedRow} {reply : Reply Unit}
    (hreply : EditsFeed db id v f reply)
    (hkeep : reply.2.isOk → ∀ rec, ∀ r ∈ db.feeds, r.id = id → (f rec r).deletedAt = none →
      r.deletedAt = none ∧ (f rec r).jitterOffset = r.jitterOffset ∧
        seconds window (f rec r).slug = seconds window r.slug) : Displayed window reply.1 := by
  rcases hreply with ⟨e, rfl⟩ | ⟨rec, -, -, -, rfl⟩
  · exact h
  · exact h.edit fun r hr hp => hkeep rfl rec r hr (id_of_match hp)

theorem create {feed : FeedIdentity} {spec : FeedSpec} {extra : FeedIdentityExtra} {now : ℤ}
    (hagrees : Agrees window db (.call (.create feed spec extra now))) :
    Displayed window (FeedCall.apply db (.create feed spec extra now)) := by
  simp only [FeedCall.apply]
  cases hins : feedInsert db feed spec extra now with
  | error e => exact h
  | ok r =>
    simp only [(feedInsert_ok hins).2.2]
    intro x hx hlive
    rcases List.mem_append.1 hx with hold | hnew
    · exact h x hold hlive
    · rw [List.mem_singleton.1 hnew]
      exact hagrees (by rw [hins]; rfl)

theorem step (w : FeedWrite) (hagrees : Agrees window db w) : Displayed window (w.apply db) := by
  cases w with
  | call c =>
    cases c with
    | create feed spec extra now => exact h.create hagrees
    | update id v feed spec extra now =>
      exact h.edited (updateFeed_edits ..) fun hok _ r hr hid hlive =>
        ⟨hlive, rfl, hagrees hok r hr hid hlive⟩
    | setEnabled id v enabled now =>
      exact h.edited (setEnabled_edits ..) fun _ _ _ _ _ hlive => ⟨hlive, rfl, rfl⟩
    | setMembers id v now =>
      exact h.edited (setMembers_edits ..) fun _ _ _ _ _ hlive => ⟨hlive, rfl, rfl⟩
    | delete id v now =>
      refine h.edited (deleteFeed_edits ..) fun _ _ r _ _ hlive => ?_
      split at hlive
      · cases hlive
      · rename_i hdel
        rw [hlive] at hdel
        exact absurd rfl hdel
  | disable id now => exact h.edit fun _ _ _ hlive => ⟨hlive, rfl, rfl⟩
  | recordFailure id => exact h.edit fun _ _ _ hlive => ⟨hlive, rfl, rfl⟩
  | resetFailures id => exact h.edit fun _ _ _ hlive => ⟨hlive, rfl, rfl⟩
  | built id now => exact h.edit fun _ _ _ hlive => ⟨hlive, rfl, rfl⟩
  | other db' => exact h

end Displayed

/-- **The displayed jitter is the real one** throughout a run from a store without feeds in
which no write brings in a slug with other seconds. -/
theorem always_displayed (window : ℤ) (db : DB) (ws : List FeedWrite)
    (hagree : Meets FeedWrite.apply (Agrees window) { db with feeds := [] } ws) :
    Always FeedWrite.apply (Displayed window) { db with feeds := [] } ws :=
  always_of_meets (fun _ w h => h.step w) ws _ (by simp [Displayed]) hagree

def recipe (slug : String) : FeedIdentity := { slug, title := "Quotes", kind := .generative }

/-- Under a longer window a feed is given a slug with the same seconds; an update that comes too
late is refused. -/
theorem always_displayed_quotes : Always FeedWrite.apply (Displayed (20 * Time.minute)) {}
      [.call (.create (recipe "quotes-16") { kind := .generative } {} 0),
        .call (.update 1 1 (recipe "quotes-141") { kind := .generative } {} 1),
        .call (.update 1 1 (recipe "lines") { kind := .generative } {} 2), .recordFailure 1,
        .call (.delete 1 2 3)] :=
  always_displayed (20 * Time.minute) {} _ (by decide +kernel)

/-- A feed renamed before its first item keeps the offset of its first slug. -/
theorem not_displayed_renamed : ¬Always FeedWrite.apply (Displayed feedJitterWindow) {}
      [.call (.create (recipe "quotes") { kind := .generative } {} 0),
        .call (.update 1 1 (recipe "lines") { kind := .generative } {} 1)] := by
  intro h
  have hlast := h.last
  revert hlast
  decide +kernel

end AnimeFeedFlux.Jitter
