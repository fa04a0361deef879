import AnimeFeedFlux.Store.Runs
import AnimeFeedFlux.Lib.GoStrings

/-!
# Stamping a batch

The last step of a generation run before it commits: every accepted item gets its key, its
content hash and its `published_at`, one second apart, starting after the feed's newest
item.  The first stamp is the run's clock reading as it is, with its fraction of a second,
unless that is not after the newest item.
-/

namespace AnimeFeedFlux

open GoStrings

/-- `ts.Format("2006-01-02")`, with the clock of UTC; `Format` takes the location of `ts`, which is
that of the process unless the stamp follows the newest item. -/
def dateText (t : ℤ) : String :=
  let d := Calendar.civil (Time.days t)
  String.ofList (yearText d.year ++ ('-' :: (Digits.pad 2 d.month ++ ('-' :: Digits.pad 2 d.day))))

/-- `contentHash`: `sha256(slug | normalized_title | date)`. -/
def contentHash (lower : Char → Char) (slug title : String) (ts : ℤ) : Digest :=
  ⟨slug ++ "|" ++ toLower lower (trimSpace title) ++ "|" ++ dateText ts⟩

/-- Where a batch starts: the clock reading if it is after the newest item, otherwise one
second after that item. -/
def stampBase (newest now : ℤ) : ℤ :=
  if !Time.isZero newest && !decide (newest < now) then newest + Time.second else now

/-- `stampItems`.  The timestamps of a batch differ, so the key source is a function of
them. -/
def stampItems (lower : Char → Char) (newItemKey : ℤ → String) (feedID : ℕ) (slug : String)
    (valid : List Item) (newest now : ℤ) : List Item :=
  valid.mapIdx fun i it =>
    let ts := stampBase newest now + i * Time.second
    { it with feedID, publishedAt := ts, itemKey := newItemKey ts,
              contentHash := contentHash lower slug it.title ts,
              origin := .generated, createdAt := now, updatedAt := now }

/-- `zipEmbeddings`: only when there is a vector for every item. -/
def zipEmbeddings (items : List Item) (vecs : List Embedding) : List (String × Embedding) :=
  if vecs.length = items.length then (items.map (·.itemKey)).zip vecs else []

section
variable {lower : Char → Char} {newItemKey : ℤ → String} {feedID : ℕ} {slug : String}
  {valid : List Item} {newest now : ℤ}

theorem mem_stampItems {x : Item}
    (h : x ∈ stampItems lower newItemKey feedID slug valid newest now) :
    x.feedID = feedID ∧
      ∃ i < valid.length, x.publishedAt = stampBase newest now + i * Time.second := by
  rw [stampItems, List.mem_mapIdx] at h
  obtain ⟨i, hi, rfl⟩ := h
  exact ⟨rfl, i, hi, rfl⟩

theorem pairwise_stampItems : (stampItems lower newItemKey feedID slug valid newest now).Pairwise
      (fun x y => Time.seconds x.publishedAt < Time.seconds y.publishedAt) := by
  rw [List.pairwise_iff_getElem]
  intro i j hi hj hij
  simp only [stampItems, List.getElem_mapIdx, Time.seconds_add]
  omega

/-- When the clock is after the newest item and not in its second, or not after it, a batch
starts in a later second than the newest item. -/
theorem seconds_lt_stampBase (hz : newest ≠ 0)
    (h : ¬(newest < now ∧ Time.seconds newest = Time.seconds now)) :
    Time.seconds newest < Time.seconds (stampBase newest now) := by
  by_cases hlt : newest < now
  · have hle := Time.seconds_mono hlt.le
    have hne : Time.seconds newest ≠ Time.seconds now := fun heq => h ⟨hlt, heq⟩
    simp only [stampBase, hlt, decide_true, Bool.not_true, Bool.and_false, Bool.false_eq_true,
      if_false]
    omega
  · have hbase : stampBase newest now = newest + Time.second := by
      simp [stampBase, Time.isZero, hz, hlt]
    rw [hbase, Time.seconds_add_second]
    omega

end

end AnimeFeedFlux
