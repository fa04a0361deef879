import AnimeFeedFlux.Lib.Machine
import AnimeFeedFlux.Publish.Keys
import AnimeFeedFlux.Publish.Recency
import Mathlib.Data.List.Induction

/-!
# Runs of the render cache

Any sequence of calls to the cache that keeps to the handlers' keys: pages under `slug:format`,
`slug:embed:…` and `index`, permalinks under the pair `slug:item:key` and `item:key`.  One item key
may be paired with several slugs over time, and nothing is assumed of its characters: what tells
the two keys of a pair apart is that no slug is `item`.
-/

namespace AnimeFeedFlux.Publish

open Machine Render List

/-- What the handlers allow for a slug. -/
def IsSlug (s : String) : Prop := NoColon s ∧ s ≠ "item" ∧ s ≠ "index"
deriving Decidable

variable {s key : String}

theorem IsSlug.ne_bareKey (hs : IsSlug s) (tail k : String) : s ++ (":" ++ tail) ≠ bareKey k := by
  intro h
  rw [bareKey_eq] at h
  exact hs.2.1 (colon_inj hs.1 noColon_item h).1

theorem IsSlug.slugItemKey_ne (hs : IsSlug s) (k k' : String) : slugItemKey s k ≠ bareKey k' := by
  rw [slugItemKey_eq]
  exact hs.ne_bareKey _ k'

/-- The items of every slug. -/
def slugScheme (owns : String → String → Prop) : Scheme where
  slug := IsSlug
  owns s k := IsSlug s ∧ owns s k
  noColon h := h.1
  owned h := h.1
  apart h _ := h.slugItemKey_ne _ _

/-! ## Runs -/

/-- The calls of the handlers. -/
inductive CacheCall
  | get (key : String)
  | put (key : String) (e : Entry)
  /-- `PutPair` of `slug:item:k` and `item:k`. -/
  | putPair (slug k : String) (e : Entry)
  /-- `Invalidate`, with the order in which the map is ranged over. -/
  | invalidate (slug : String) (visit : List String)
  | invalidateAll

/-- The handlers' keys: an index page, a feed document or an embed view. -/
def IsPageKey (key : String) : Prop :=
  key = "index" ∨ ∃ s, IsSlug s ∧
    ((∃ format : Format, key = feedKey s format) ∨ ∃ rest, key = s ++ ":embed:" ++ rest)

/-- The calls keep to the handlers' keys. -/
def CacheCall.Follows : CacheCall → Prop
  | .get _ => True
  | .put key _ => IsPageKey key
  | .putPair slug _ _ => IsSlug slug
  | .invalidate slug _ => IsSlug slug
  | .invalidateAll => True

/-- One call. -/
def Recency.step (c : Recency) : CacheCall → Recency
  | .get key => (c.get key).1
  | .put key e => c.put key e
  | .putPair slug k e => c.putPair (slugItemKey slug k) (bareKey k) e
  | .invalidate slug visit => c.invalidate slug visit
  | .invalidateAll => c.invalidateAll

/-- The slug an item key was last stored for. -/
def lastSlug (calls : List CacheCall) (k : String) : Option String :=
  calls.foldl (fun last call => match call with
    | .putPair slug k' _ => if k' = k then some slug else last
    | _ => last) none

/-- The keys of the map. -/
def Recency.keys (c : Recency) : List String := c.entries.map (·.1)

/-- What holds after every call, under the ceiling `max`. -/
structure CacheSound (max : ℤ) (calls : List CacheCall) (c : Recency) : Prop where
  mapNodup : c.keys.Nodup
  listNodup : (c.order.map fun p => (c.heap p).key).Nodup
  sameKeys : c.keys.Perm (c.order.map fun p => (c.heap p).key)
  bytes : c.bytes = c.total (·.entry.size)
  bodyBytes : c.bodyBytes = c.total (·.entry.bodyLen)
  gzipBytes : c.gzipBytes = c.total (·.entry.gzipLen)
  ceiling : 0 < max → c.bytes ≤ max
  /-- A bare key is held only with the key of its latest `PutPair`. -/
  twin : ∀ k, bareKey k ∈ c.keys → ∃ s, lastSlug calls k = some s ∧ slugItemKey s k ∈ c.keys
  /-- After `Invalidate` nothing of the slug is left. -/
  cleared : ∀ s visit, calls.getLast? = some (.invalidate s visit) → ∀ key ∈ c.keys,
    key ≠ s ∧ ¬ (s ++ ":").toList <+: key.toList ∧ key ≠ "index" ∧
      ∀ k, key = bareKey k → lastSlug calls k ≠ some s

theorem IsPageKey.ne_bareKey (h : IsPageKey key) (k : String) : key ≠ bareKey k := by
  rcases h with rfl | ⟨s, hs, ⟨format, rfl⟩ | ⟨rest, rfl⟩⟩
  · intro h
    rw [bareKey_eq] at h
    exact not_noColon_append "item" k (h ▸ by decide)
  · rw [feedKey_eq]
    exact hs.ne_bareKey _ k
  · have hsplit : (":embed:" : String) = ":" ++ "embed:" := by decide
    rw [hsplit, String.append_assoc, String.append_assoc]
    exact hs.ne_bareKey _ k

theorem IsPageKey.ne_slugItemKey (h : IsPageKey key) (hs : IsSlug s) (k : String) :
    key ≠ slugItemKey s k := by
  intro heq
  rw [slugItemKey_eq] at heq
  rcases h with rfl | ⟨s', hs', ⟨format, rfl⟩ | ⟨rest, rfl⟩⟩
  · exact not_noColon_append s _ (heq ▸ show NoColon "index" by decide)
  · rw [feedKey_eq] at heq
    have hcolon := noColon_ext format
    rw [(colon_inj hs'.1 hs.1 heq).2] at hcolon
    exact not_noColon_append _ _ hcolon
  · have hsplit : (":embed:" : String) = ":" ++ ("embed" ++ ":") := by decide
    simp only [hsplit, String.append_assoc] at heq
    exact absurd (colon_inj noColon_embed noColon_item (colon_inj hs'.1 hs.1 heq).2).1 (by decide)

theorem lastSlug_concat (calls : List CacheCall) (call : CacheCall) (k : String) :
    lastSlug (calls ++ [call]) k = match call with
      | .putPair slug k' _ => if k' = k then some slug else lastSlug calls k
      | _ => lastSlug calls k := by
  rw [lastSlug, foldl_append]
  rfl

theorem lastSlug_concat_of {calls : List CacheCall} {call : CacheCall}
    (h : (match call with | .putPair _ _ _ => false | _ => true)) :
    lastSlug (calls ++ [call]) = lastSlug calls := by
  funext k
  rw [lastSlug_concat]
  cases call with
  | putPair slug k' e => cases h
  | _ => rfl

/-- What a run keeps up when items are stored for slugs that own them. -/
structure Recency.Kept (owns : String → String → Prop) (max : ℤ) (calls : List CacheCall)
    (c : Recency) : Prop where
  valid : c.Valid
  max_eq : c.max = max
  ceiling : 0 < max → c.bytes ≤ max
  links : Links (slugScheme owns) (fun s k => lastSlug calls k = some s) c.toCache.pairOf

namespace Recency
variable {owns : String → String → Prop} {max : ℤ} {calls : List CacheCall} {c : Recency}

theorem mem_keys (h : Valid c) {key : String} : key ∈ c.keys ↔ c.toCache.pairOf key ≠ none := by
  have hcache : c.toCache.pairOf key = ((c.lookup key).map c.item).map (·.pair) := by
    rw [Cache.pairOf, find_toCache h]
  rw [hcache, ne_eq, Option.map_eq_none_iff, Option.map_eq_none_iff, h.lookup_eq_none, keys,
    mem_map]
  constructor
  · rintro ⟨p, hp, rfl⟩ hnone
    obtain ⟨hel, hkey⟩ := h.mem_entries.1 hp
    exact hnone p.2 hel hkey
  intro hsome
  simp only [not_forall, not_not] at hsome
  obtain ⟨p, hp, hkey⟩ := hsome
  exact ⟨(key, p), h.mem_entries.2 ⟨hp, hkey⟩, rfl⟩

/-- **One call.** -/
theorem Kept.step (h : Kept owns max calls c) {call : CacheCall} (hcall : call.Follows)
    (howns : ∀ s k e, call = .putPair s k e → owns s k) :
    Kept owns max (calls ++ [call]) (c.step call) := by
  have hmax := h.max_eq
  cases call with
  | get key =>
    obtain ⟨hvalid, hcache, -⟩ := get_spec h.valid key
    have hsame : (c.get key).1.max = c.max ∧ (c.get key).1.bytes = c.bytes := by
      simp only [get]
      split
      · exact ⟨rfl, rfl⟩
      split
      · split <;> exact ⟨rfl, rfl⟩
      · exact ⟨rfl, rfl⟩
    refine ⟨hvalid, hsame.1.trans hmax, fun hpos => ?_, ?_⟩
    · exact hsame.2.le.trans (h.ceiling hpos)
    rw [lastSlug_concat_of rfl, Recency.step, hcache]
    exact h.links.get
  | put key e =>
    obtain ⟨hvalid, hcache⟩ := put_spec h.valid key e
    obtain ⟨hput, hput'⟩ := putLocked_spec h.valid key e
    have hsame : (c.putLocked key e).max = max :=
      ((congrArg Cache.max hput').trans (Cache.max_putLocked e)).trans hmax
    obtain ⟨hmax', hceiling⟩ := evictLocked_le hput hsame
    refine ⟨hvalid, hmax', hceiling, ?_⟩
    rw [lastSlug_concat_of rfl, Recency.step, hcache]
    exact h.links.cachePut (fun s k hs => IsPageKey.ne_slugItemKey hcall hs k)
      (fun s k _ => IsPageKey.ne_bareKey hcall k) e
  | putPair slug k e =>
    obtain ⟨hvalid, hcache⟩ := putPair_spec h.valid (slugItemKey slug k) (bareKey k) e
    obtain ⟨hput, hput'⟩ := paired_spec h.valid (slugItemKey slug k) (bareKey k) e
    have hsame := (congrArg Cache.max hput').trans
      (((Cache.max_putLocked e).trans (Cache.max_putLocked e)).trans hmax)
    obtain ⟨hmax', hceiling⟩ := evictLocked_le hput hsame
    refine ⟨hvalid, hmax', hceiling, ?_⟩
    rw [Recency.step, hcache]
    refine h.links.cachePutPair ⟨hcall, howns slug k e rfl⟩ ?_ (fun s' k' hk' hlast => ?_) e
    · rw [lastSlug_concat]
      exact if_pos rfl
    · rw [lastSlug_concat]
      exact (if_neg (Ne.symm hk')).trans hlast
  | invalidate slug visit =>
    obtain ⟨hvalid, hcache⟩ := invalidate_spec h.valid slug visit
    obtain ⟨hbytes, hsame⟩ := c.toCache.invalidate_le slug (c.rangeOrder visit)
    rw [← hcache] at hbytes hsame
    refine ⟨hvalid, hsame.trans hmax, fun hpos => hbytes.trans (h.ceiling hpos), ?_⟩
    rw [lastSlug_concat_of rfl, Recency.step, hcache]
    exact h.links.invalidate slug _
  | invalidateAll =>
    refine ⟨(invalidateAll_spec c).1, hmax, fun hpos => hpos.le, ?_⟩
    exact Links.empty fun key => rfl

theorem mem_keys_invalidate (h : Valid c) {slug key : String} {visit : List String}
    (hkey : key ∈ (c.step (.invalidate slug visit)).keys) :
    Cache.matchesSlug slug key = false ∧ key ≠ "index" := by
  obtain ⟨hvalid, hcache⟩ := invalidate_spec h slug visit
  have hpair := (mem_keys hvalid).1 hkey
  rw [hcache] at hpair
  obtain ⟨it, hit, rfl⟩ := Cache.holds_iff.2 hpair
  exact (Cache.mem_invalidate hit).2

theorem kept_run (owns : String → String → Prop) (max : ℤ) {calls : List CacheCall}
    (h : ∀ call ∈ calls, call.Follows) (howns : ∀ s k e, .putPair s k e ∈ calls → owns s k) :
    Kept owns max calls (exec Recency.step { max } calls) := by
  induction calls using List.reverseRecOn with
  | nil =>
    refine ⟨valid_empty max, rfl, fun hpos => hpos.le, ?_⟩
    exact Links.empty fun key => rfl
  | append_singleton calls call ih =>
    have hlast : call ∈ calls ++ [call] := mem_append_right _ (mem_singleton_self _)
    have hkept := ih (fun x hx => h x (mem_append_left _ hx))
      fun s k e hx => howns s k e (mem_append_left _ hx)
    rw [exec_concat]
    exact hkept.step (h call hlast) fun s k e heq => howns s k e (heq ▸ hlast)

end Recency

/-- **Every run of the cache is sound.** -/
theorem cacheSound_run (max : ℤ) {calls : List CacheCall} (h : ∀ call ∈ calls, call.Follows) :
    CacheSound max calls (exec Recency.step { max } calls) := by
  have hkept := Recency.kept_run (fun _ _ => True) max h fun _ _ _ _ => trivial
  have hvalid := hkept.valid
  have htwin : ∀ k, bareKey k ∈ (exec Recency.step { max } calls).keys →
      ∃ s, lastSlug calls k = some s ∧
        slugItemKey s k ∈ (exec Recency.step { max } calls).keys := by
    intro k hk
    obtain ⟨pair, hpair⟩ := Option.ne_none_iff_exists'.1 ((Recency.mem_keys hvalid).1 hk)
    obtain ⟨s, -, hlast, rfl, hback⟩ := hkept.links.twin k pair ⟨"a", by decide, trivial⟩ hpair
    refine ⟨s, hlast, (Recency.mem_keys hvalid).2 ?_⟩
    rw [hback]
    exact Option.some_ne_none _
  constructor
  · exact hvalid.entries_nodup
  · exact hvalid.keys
  · have hperm := hvalid.entries.map Prod.fst
    rw [map_map] at hperm
    exact hperm
  · rw [hvalid.bytes]
    exact congrArg List.sum (map_congr_left hvalid.sized)
  · exact hvalid.bodyBytes
  · exact hvalid.gzipBytes
  · exact hkept.ceiling
  · exact htwin
  · intro s visit hcall key hkey
    obtain ⟨before, rfl⟩ := getLast?_eq_some_iff.1 hcall
    have hbefore := Recency.kept_run (fun _ _ => True) max
      (fun call hc => h call (mem_append_left _ hc)) fun _ _ _ _ => trivial
    have hleft := hkey
    rw [exec_concat] at hleft
    obtain ⟨hmatch, hindex⟩ := Recency.mem_keys_invalidate hbefore.valid hleft
    obtain ⟨hslug, hunder⟩ := Bool.or_eq_false_iff.1 hmatch
    refine ⟨by simpa using hslug, fun hpre => ?_, hindex, ?_⟩
    · rw [GoStrings.hasPrefix, List.isPrefixOf_iff_prefix.2 hpre] at hunder
      cases hunder
    -- The slugged key of the bare one would be left too.
    rintro k rfl hlast
    obtain ⟨s', hlast', htwin⟩ := htwin k hkey
    obtain rfl := Option.some.inj (hlast'.symm.trans hlast)
    rw [exec_concat] at htwin
    have hmatch' := (Recency.mem_keys_invalidate hbefore.valid htwin).1
    rw [slugItemKey_eq, Cache.matchesSlug_append] at hmatch'
    cases hmatch'

/-- A page of 30 bytes, 12 when compressed. -/
def smallEntry : Entry :=
  { page := .index { baseURL := "", generator := "", feeds := [] }
    bodyLen := 30, gzipLen := 12, lastModified := 0, contentType := "text/html" }

/-- One item under two slugs, a feed document and an invalidation, with room for four entries. -/
def twoSlugs : List CacheCall :=
  [.putPair "a" "k" smallEntry, .putPair "b" "k" smallEntry, .put "a:xml" smallEntry,
    .get "item:k", .put "index" smallEntry, .invalidate "b" []]

theorem follows_twoSlugs : ∀ call ∈ twoSlugs, call.Follows := by
  have ha : IsSlug "a" := by decide
  have hb : IsSlug "b" := by decide
  simp only [twoSlugs, forall_mem_cons]
  exact ⟨ha, hb, .inr ⟨"a", ha, .inl ⟨.xml, by decide⟩⟩, trivial, .inl rfl, hb, by simp⟩

/-- The ceiling evicted the first slug's copy, and with it the bare key; the invalidation left the
other slug's feed document. -/
theorem cacheSound_twoSlugs : CacheSound 170 twoSlugs (exec Recency.step { max := 170 } twoSlugs) ∧
      (exec Recency.step { max := 170 } twoSlugs).keys = ["a:xml"] :=
  ⟨cacheSound_run 170 follows_twoSlugs, by decide +kernel⟩

end AnimeFeedFlux.Publish
