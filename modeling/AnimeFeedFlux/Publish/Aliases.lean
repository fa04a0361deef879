import AnimeFeedFlux.Feedspec.Validate
import AnimeFeedFlux.Publish.CacheRuns
import AnimeFeedFlux.Publish.Server

/-!
# The keys of two feeds

Two feeds with slugs that `Validate` accepts, their documents, their embed views, their items under
any keys, and the index page.  The keys of different requests are different, and `Invalidate` of
one feed leaves what belongs to the other as it is, unless one of the slugs is `item`: the bare key
of a permalink begins with that word, and `reservedSlugs` does not hold it.
-/

namespace AnimeFeedFlux.Publish

open Machine Render Feedspec List

/-! ## Requests and feeds -/

/-- The keys a request looks up or stores under; `owner` gives the slug of an item's feed. -/
def Request.keys (owner : String → String) : Request → List String
  | .root => ["index"]
  | .window slug kind => [kind.key slug]
  | .item k => [bareKey k, slugItemKey (owner k) k]

section
variable {owner : String → String} {key : String}

@[simp] theorem Request.mem_keys_root : key ∈ Request.keys owner .root ↔ key = "index" :=
  mem_singleton

@[simp] theorem Request.mem_keys_window {slug : String} {kind : Windowed} :
    key ∈ Request.keys owner (.window slug kind) ↔ key = kind.key slug :=
  mem_singleton

@[simp] theorem Request.mem_keys_item {k : String} :
    key ∈ Request.keys owner (.item k) ↔ key = bareKey k ∨ key = slugItemKey (owner k) k := by
  simp [Request.keys]

end

/-- The feed whose content a request shows. -/
def Request.feed (owner : String → String) : Request → Option String
  | .root => none
  | .window slug _ => some slug
  | .item k => some (owner k)

/-- A key of the feed `s`. -/
def Belongs (owner : String → String) (s key : String) : Prop :=
  ∃ r : Request, r.feed owner = some s ∧ key ∈ r.keys owner

/-- The calls of the handlers and the control plane for the feeds `a` and `b`. -/
def CacheCall.For (owner : String → String) (a b : String) : CacheCall → Prop
  | .get _ => True
  | .put key _ => key = "index" ∨ ∃ s kind, (s = a ∨ s = b) ∧ key = Windowed.key s kind
  | .putPair slug k _ => slug = owner k
  | .invalidate slug _ => slug = a ∨ slug = b
  | .invalidateAll => True

/-- The entry under a key. -/
def Recency.entryAt (c : Recency) (key : String) : Option Entry :=
  (c.lookup key).map fun p => (c.heap p).entry

/-- **The keys of two feeds do not meet.** -/
structure Separate (a b : String) : Prop where
  /-- Different requests use different keys. -/
  keys : ∀ owner : String → String, (∀ k, owner k = a ∨ owner k = b) → ∀ r r' : Request,
    (∀ s, r.feed owner = some s → s = a ∨ s = b) → (∀ s, r'.feed owner = some s → s = a ∨ s = b) →
    r ≠ r' → ∀ key ∈ r.keys owner, key ∉ r'.keys owner
  /-- An invalidation leaves the entries of the other feed and shows nothing that was not there. -/
  kept : ∀ owner : String → String, (∀ k, owner k = a ∨ owner k = b) → ∀ (max : ℤ)
    (calls : List CacheCall), (∀ call ∈ calls, call.For owner a b) → ∀ s s' visit,
    (s = a ∧ s' = b ∨ s = b ∧ s' = a) →
      (∀ key, Belongs owner s' key →
        ((exec Recency.step { max } calls).step (.invalidate s visit)).entryAt key =
          (exec Recency.step { max } calls).entryAt key) ∧
      ∀ key e, ((exec Recency.step { max } calls).step (.invalidate s visit)).entryAt key = some e →
        (exec Recency.step { max } calls).entryAt key = some e

/-! ## Accepted slugs -/

variable {slug : String}

theorem noColon_of_validateSlug (h : validateSlug slug = []) : NoColon slug := by
  have hpattern := (validateSlug_eq_nil.1 h).1
  rw [slugPattern, Bool.and_eq_true] at hpattern
  intro hcolon
  exact absurd (all_eq_true.1 hpattern.1 ':' hcolon) (by decide)

theorem isSlug_of_validateSlug (h : validateSlug slug = []) (hitem : slug ≠ "item") :
    IsSlug slug := by
  refine ⟨noColon_of_validateSlug h, hitem, ?_⟩
  rintro rfl
  exact (validateSlug_eq_nil.1 h).2 (by decide)

/-! ## Different requests, different keys -/

theorem Windowed.exists_tail (slug : String) (kind : Windowed) :
    ∃ tail, kind.key slug = slug ++ (":" ++ tail) := by
  cases kind with
  | feed format => exact ⟨_, feedKey_eq slug format⟩
  | embed o => exact ⟨_, embedKey_eq slug o⟩

theorem Windowed.key_ne_slugItemKey {slug' : String} (kind : Windowed) (k : String)
    (hs : NoColon slug) (hs' : NoColon slug') : kind.key slug ≠ slugItemKey slug' k :=
  Request.key_ne_slugItemKey (r := .window slug kind) hs hs'

theorem IsSlug.window_ne_bareKey (hs : IsSlug slug) (kind : Windowed) (k : String) :
    kind.key slug ≠ bareKey k := by
  obtain ⟨tail, htail⟩ := kind.exists_tail slug
  rw [htail]
  exact hs.ne_bareKey tail k

theorem noColon_index : NoColon "index" := by decide

theorem slugItemKey_ne_index (s k : String) : slugItemKey s k ≠ "index" := by
  intro h
  rw [slugItemKey_eq] at h
  exact not_noColon_append _ _ (h ▸ noColon_index)

variable {owner : String → String} {key : String}

theorem item_keys {k k' : String} (hk : IsSlug (owner k)) (hk' : IsSlug (owner k'))
    (h : key ∈ Request.keys owner (.item k)) (h' : key ∈ Request.keys owner (.item k')) :
    k = k' := by
  rw [Request.mem_keys_item] at h h'
  rcases h with rfl | rfl
  · rcases h' with h' | h'
    · exact bareKey_inj h'
    · exact absurd h'.symm (hk'.slugItemKey_ne k' k)
  · rcases h' with h' | h'
    · exact absurd h' (hk.slugItemKey_ne k k')
    · exact (slugItemKey_inj hk.1 hk'.1 h').2

/-- **Two requests for feeds with proper slugs share a key only if they are the same.** -/
theorem Request.eq_of_mem_keys (howner : ∀ k, IsSlug (owner k)) {r r' : Request}
    (hr : ∀ s, r.feed owner = some s → IsSlug s) (hr' : ∀ s, r'.feed owner = some s → IsSlug s)
    (h : key ∈ r.keys owner) (h' : key ∈ r'.keys owner) : r = r' := by
  have hrootWindow : ∀ {slug kind}, key ∈ Request.keys owner .root →
      key ∈ Request.keys owner (.window slug kind) → False := by
    intro slug kind hroot hwindow
    rw [mem_keys_root] at hroot
    rw [mem_keys_window] at hwindow
    exact Windowed.key_ne_index slug kind (hwindow.symm.trans hroot)
  have hrootItem : ∀ {k}, key ∈ Request.keys owner .root →
      key ∈ Request.keys owner (.item k) → False := by
    intro k hroot hitem
    rw [mem_keys_root] at hroot
    rcases mem_keys_item.1 hitem with hitem | hitem
    · exact bareKey_ne_index k (hitem.symm.trans hroot)
    · exact slugItemKey_ne_index (owner k) k (hitem.symm.trans hroot)
  have hwindowItem : ∀ {slug kind k}, IsSlug slug → key ∈ Request.keys owner (.window slug kind) →
      key ∈ Request.keys owner (.item k) → False := by
    intro slug kind k hslug hwindow hitem
    rw [mem_keys_window] at hwindow
    rcases mem_keys_item.1 hitem with hitem | hitem
    · exact hslug.window_ne_bareKey kind k (hwindow.symm.trans hitem)
    · exact kind.key_ne_slugItemKey k hslug.1 (howner k).1 (hwindow.symm.trans hitem)
  cases r with
  | root =>
    cases r' with
    | root => rfl
    | window slug' kind' => exact (hrootWindow h h').elim
    | item k' => exact (hrootItem h h').elim
  | window slug kind =>
    cases r' with
    | root => exact (hrootWindow h' h).elim
    | window slug' kind' =>
      rw [mem_keys_window] at h h'
      obtain ⟨rfl, rfl⟩ := Windowed.key_inj (hr slug rfl).1 (hr' slug' rfl).1 (h.symm.trans h')
      rfl
    | item k' => exact (hwindowItem (hr slug rfl) h h').elim
  | item k =>
    cases r' with
    | root => exact (hrootItem h' h).elim
    | window slug' kind' => exact (hwindowItem (hr' slug' rfl) h' h).elim
    | item k' => rw [item_keys (howner k) (howner k') h h']

theorem Belongs.unique (howner : ∀ k, IsSlug (owner k)) {s s' : String} (hs : IsSlug s)
    (hs' : IsSlug s') (h : Belongs owner s key) (h' : Belongs owner s' key) : s = s' := by
  obtain ⟨r, hfeed, hkey⟩ := h
  obtain ⟨r', hfeed', hkey'⟩ := h'
  have hslug : ∀ x, r.feed owner = some x → IsSlug x := by
    intro x hx
    rw [hfeed, Option.some.injEq] at hx
    exact hx ▸ hs
  have hslug' : ∀ x, r'.feed owner = some x → IsSlug x := by
    intro x hx
    rw [hfeed', Option.some.injEq] at hx
    exact hx ▸ hs'
  rw [Request.eq_of_mem_keys howner hslug hslug' hkey hkey', hfeed', Option.some.injEq] at hfeed
  exact hfeed.symm

/-! ## What an invalidation leaves alone -/

/-- Keys of `slug:item:k` are held for the feed of `k` only, and links stay within one item. -/
abbrev Owned (owner : String → String) (calls : List CacheCall) (f : String → Option String) :
    Prop :=
  Links (slugScheme fun s k => owner k = s) (fun s k => lastSlug calls k = some s) f

namespace Cache
variable {c : Cache} {key slug : String}

theorem eq_of_itemKeyOf {rest : String} (h : itemKeyOf slug key = some rest) :
    key = slugItemKey slug rest := by
  simp only [itemKeyOf] at h
  split at h
  · rename_i hpre
    rw [Bool.and_eq_true, GoStrings.hasPrefix, List.isPrefixOf_iff_prefix] at hpre
    obtain ⟨tail, htail⟩ := hpre.1
    have hrest : rest = String.ofList tail := by
      have hdrop : (slug ++ ":item:").toList.isPrefixOf key.toList = true :=
        List.isPrefixOf_iff_prefix.2 hpre.1
      rw [← Option.some.inj h, GoStrings.trimPrefix, GoStrings.hasPrefix, if_pos hdrop, ← htail,
        drop_left]
    rw [hrest, slugItemKey]
    apply String.toList_injective
    rw [String.toList_append, String.toList_ofList, htail]
  · cases h

theorem find_of_deleteLocked {k : String} (it : CacheItem)
    (h : (c.deleteLocked k).find key = some it) : c.find key = some it := by
  rw [find_deleteLocked] at h
  split at h
  · cases h
  · exact h

theorem find_of_invalidateKey {k : String} (it : CacheItem)
    (h : (invalidateKey slug c k).find key = some it) : c.find key = some it := by
  rw [invalidateKey] at h
  split at h
  · cases hitem : itemKeyOf slug k with
    | none =>
      rw [hitem] at h
      exact find_of_deleteLocked it h
    | some rest =>
      rw [hitem] at h
      exact find_of_deleteLocked it (find_of_deleteLocked it h)
  · exact h

theorem find_of_invalidate {visit : List String} (it : CacheItem)
    (h : (c.invalidate slug visit).find key = some it) : c.find key = some it := by
  have hfold : ∀ (keys : List String) {c : Cache},
      (keys.foldl (invalidateKey slug) c).find key = some it → c.find key = some it := by
    intro keys
    induction keys with
    | nil => exact fun h => h
    | cons k keys ih => exact fun h => find_of_invalidateKey it (ih h)
  exact hfold _ (find_of_deleteLocked it h)

theorem eq_of_matchesSlug {p tail : String} (hslug : NoColon slug) (hp : NoColon p)
    (h : matchesSlug slug (p ++ (":" ++ tail))) : slug = p := by
  rw [matchesSlug, Bool.or_eq_true, beq_iff_eq, GoStrings.hasPrefix,
    List.isPrefixOf_iff_prefix] at h
  rcases h with h | ⟨rest, hrest⟩
  · exact absurd (h ▸ hslug) (not_noColon_append p tail)
  have hkey : slug ++ (":" ++ String.ofList rest) = p ++ (":" ++ tail) := by
    apply String.toList_injective
    rw [← String.append_assoc, String.toList_append, String.toList_ofList, hrest]
  exact (colon_inj hslug hp hkey).1

end Cache

section
variable {owner : String → String} {calls : List CacheCall} {s s' : String} {c : Cache}
  {key k : String}

theorem belongs_item (k : String) (h : key ∈ Request.keys owner (.item k)) :
    Belongs owner (owner k) key := ⟨.item k, rfl, h⟩

theorem not_belongs_index (howner : ∀ k, IsSlug (owner k)) (hs : IsSlug s) :
    ¬ Belongs owner s "index" := by
  rintro ⟨r, hfeed, hkey⟩
  have hslug : ∀ x, r.feed owner = some x → IsSlug x := by
    intro x hx
    rw [hfeed, Option.some.injEq] at hx
    exact hx ▸ hs
  have hroot : r = .root :=
    Request.eq_of_mem_keys howner hslug (fun x hx => by cases hx) hkey (Request.mem_keys_root.2 rfl)
  rw [hroot] at hfeed
  cases hfeed

theorem not_belongs_of_matchesSlug (hs : IsSlug s) (hs' : IsSlug s') (hne : s ≠ s')
    (h : Cache.matchesSlug s key) : ¬ Belongs owner s' key := by
  have hother : ∀ {p tail : String}, NoColon p → s ≠ p → key ≠ p ++ (":" ++ tail) := by
    rintro p tail hp hsp rfl
    exact hsp (Cache.eq_of_matchesSlug hs.1 hp h)
  rintro ⟨r, hfeed, hkey⟩
  cases r with
  | root => cases hfeed
  | window slug kind =>
    obtain rfl := Option.some.inj hfeed
    obtain ⟨tail, htail⟩ := kind.exists_tail slug
    exact hother hs'.1 hne ((Request.mem_keys_window.1 hkey).trans htail)
  | item k =>
    obtain rfl := Option.some.inj hfeed
    rcases Request.mem_keys_item.1 hkey with hkey | hkey
    · exact hother noColon_item hs.2.1 (hkey.trans (bareKey_eq k))
    · exact hother hs'.1 hne (hkey.trans (slugItemKey_eq _ k))

/-- **Deleting a key of another feed changes nothing under the keys of this one.** -/
theorem Owned.find_deleteLocked (h : Owned owner calls c.pairOf) (howner : ∀ k, IsSlug (owner k))
    (hs' : IsSlug s') (hkey : Belongs owner s' key) (hk : ¬ Belongs owner s' k) :
    (c.deleteLocked k).find key = c.find key := by
  rw [Cache.find_deleteLocked, if_neg]
  rintro (rfl | ⟨hlink, hne⟩)
  · exact hk hkey
  -- A link stays within one item, and so within one feed.
  obtain ⟨s, x, ⟨-, rfl⟩, hpair⟩ := h.form k key hlink hne
  have hboth : key ∈ Request.keys owner (.item x) ∧ k ∈ Request.keys owner (.item x) := by
    rcases hpair with ⟨rfl, rfl⟩ | ⟨rfl, rfl⟩ <;> simp
  obtain rfl := Belongs.unique howner hs' (howner x) hkey (belongs_item x hboth.1)
  exact hk (belongs_item x hboth.2)

theorem Owned.find_invalidateKey (h : Owned owner calls c.pairOf) (howner : ∀ k, IsSlug (owner k))
    (hs : IsSlug s) (hs' : IsSlug s') (hne : s ≠ s') (hkey : Belongs owner s' key) :
    Owned owner calls (Cache.invalidateKey s c k).pairOf ∧
      (Cache.invalidateKey s c k).find key = c.find key := by
  rw [Cache.invalidateKey]
  split
  · rename_i hround
    rw [Bool.and_eq_true] at hround
    have hslugged : ¬ Belongs owner s' k := not_belongs_of_matchesSlug hs hs' hne hround.2
    cases hitem : Cache.itemKeyOf s k with
    | none => exact ⟨h.deleteLocked, h.find_deleteLocked howner hs' hkey hslugged⟩
    | some rest =>
      -- The item is held for this feed, so its bare key is not the other feed's.
      have howned : owner rest = s := by
        refine (h.slugged s rest hs ?_).2
        rw [← Cache.eq_of_itemKeyOf hitem, Cache.pairOf, ne_eq, Option.map_eq_none_iff]
        exact Option.isSome_iff_ne_none.1 hround.1
      have hbare : ¬ Belongs owner s' ("item:" ++ rest) := by
        intro hbelongs
        have hitem : Belongs owner (owner rest) (bareKey rest) := belongs_item rest (by simp)
        exact hne (howned.symm.trans (Belongs.unique howner (howner rest) hs' hitem hbelongs))
      refine ⟨h.deleteLocked.deleteLocked, ?_⟩
      rw [Owned.find_deleteLocked h.deleteLocked howner hs' hkey hslugged,
        h.find_deleteLocked howner hs' hkey hbare]
  · exact ⟨h, rfl⟩

/-- **`Invalidate` of one feed leaves the entries of the other.** -/
theorem Owned.invalidate (h : Owned owner calls c.pairOf) (howner : ∀ k, IsSlug (owner k))
    (hs : IsSlug s) (hs' : IsSlug s') (hne : s ≠ s') (hkey : Belongs owner s' key)
    (visit : List String) : (c.invalidate s visit).find key = c.find key := by
  have hfold : ∀ (keys : List String) {c : Cache}, Owned owner calls c.pairOf →
      Owned owner calls (keys.foldl (Cache.invalidateKey s) c).pairOf ∧
        (keys.foldl (Cache.invalidateKey s) c).find key = c.find key := by
    intro keys
    induction keys with
    | nil => exact fun h => ⟨h, rfl⟩
    | cons k keys ih =>
      intro c h
      obtain ⟨hround, hfind⟩ := h.find_invalidateKey (k := k) howner hs hs' hne hkey
      obtain ⟨hrest, hfind'⟩ := ih hround
      exact ⟨hrest, hfind'.trans hfind⟩
  obtain ⟨hrest, hfind⟩ := hfold (c.rangeOrder visit) h
  rw [Cache.invalidate, hrest.find_deleteLocked howner hs' hkey (not_belongs_index howner hs'),
    hfind]

end

/-! ## Runs for two feeds -/

section
variable {owner : String → String} {a b : String} {call : CacheCall} {calls : List CacheCall}

theorem Windowed.isPageKey {slug : String} (hs : IsSlug slug) (kind : Windowed) :
    IsPageKey (kind.key slug) := by
  cases kind with
  | feed format => exact .inr ⟨slug, hs, .inl ⟨format, rfl⟩⟩
  | embed o =>
    refine .inr ⟨slug, hs, .inr ⟨toString o.count ++ ":" ++ o.theme.text, ?_⟩⟩
    simp only [Windowed.key, embedKey, String.append_assoc]

theorem CacheCall.For.follows (ha : IsSlug a) (hb : IsSlug b)
    (howner : ∀ k, owner k = a ∨ owner k = b) (h : call.For owner a b) : call.Follows := by
  have hslug : ∀ {s}, s = a ∨ s = b → IsSlug s := by
    rintro s (rfl | rfl)
    · exact ha
    · exact hb
  cases call with
  | get key => trivial
  | put key e =>
    rcases h with rfl | ⟨s, kind, hs, rfl⟩
    · exact .inl rfl
    · exact Windowed.isPageKey (hslug hs) kind
  | putPair slug k e =>
    have heq : slug = owner k := h
    rw [heq]
    exact hslug (howner k)
  | invalidate slug visit => exact hslug h
  | invalidateAll => trivial

theorem Recency.entryAt_eq {c : Recency} (h : c.Valid) (key : String) :
    c.entryAt key = (c.toCache.find key).map (·.entry) := by
  rw [entryAt, find_toCache h, Option.map_map]
  rfl

theorem separate_of_ne (ha : IsSlug a) (hb : IsSlug b) (hab : a ≠ b) : Separate a b := by
  have hslug : ∀ {s}, s = a ∨ s = b → IsSlug s := by
    rintro s (rfl | rfl)
    · exact ha
    · exact hb
  constructor
  · intro owner howner r r' hr hr' hne key hkey hkey'
    exact hne (Request.eq_of_mem_keys (fun k => hslug (howner k)) (fun s hs => hslug (hr s hs))
      (fun s hs => hslug (hr' s hs)) hkey hkey')
  intro owner howner max calls hcalls s s' visit hss'
  obtain ⟨hvalid, -, -, howned⟩ := Recency.kept_run (fun s k => owner k = s) max
    (fun x hx => (hcalls x hx).follows ha hb howner) fun _ _ _ hx => (hcalls _ hx).symm
  obtain ⟨hvalid', hcache⟩ := Recency.invalidate_spec hvalid s visit
  have hs : IsSlug s ∧ IsSlug s' ∧ s ≠ s' := by
    rcases hss' with ⟨rfl, rfl⟩ | ⟨rfl, rfl⟩
    · exact ⟨ha, hb, hab⟩
    · exact ⟨hb, ha, hab.symm⟩
  constructor
  · intro key hkey
    rw [Recency.step, Recency.entryAt_eq hvalid', Recency.entryAt_eq hvalid, hcache,
      Owned.invalidate howned (fun k => hslug (howner k)) hs.1 hs.2.1 hs.2.2 hkey]
  intro key e he
  rw [Recency.step, Recency.entryAt_eq hvalid', hcache] at he
  obtain ⟨it, hit, rfl⟩ := Option.map_eq_some_iff.1 he
  rw [Recency.entryAt_eq hvalid, Cache.find_of_invalidate it hit, Option.map_some]

/-- The RSS document of a feed `item` has the key of the permalink of `xml`. -/
theorem feedKey_item : (handleFeed "item" .xml).key = (Request.item "xml").key := by decide

theorem not_separate_of_item (h : a = "item" ∨ b = "item") : ¬ Separate a b := by
  intro hsep
  have hfeed : ∀ s, (handleFeed "item" .xml).feed (fun _ => a) = some s → s = a ∨ s = b := by
    intro s hs
    obtain rfl := Option.some.inj hs
    rcases h with rfl | rfl
    · exact .inl rfl
    · exact .inr rfl
  have hitem : ∀ s, (Request.item "xml").feed (fun _ => a) = some s → s = a ∨ s = b :=
    fun s hs => .inl (Option.some.inj hs).symm
  refine hsep.keys (fun _ => a) (fun _ => .inl rfl) (handleFeed "item" .xml) (.item "xml") hfeed
    hitem (by decide) (Request.item "xml").key ?_ ?_
  · exact Request.mem_keys_window.2 feedKey_item.symm
  · exact Request.mem_keys_item.2 (.inl rfl)

end

/-- **The keys of two feeds with accepted slugs do not meet, unless one of the slugs is `item`.** -/
theorem separate_iff {a b : String} (ha : validateSlug a = []) (hb : validateSlug b = [])
    (hab : a ≠ b) : Separate a b ↔ a ≠ "item" ∧ b ≠ "item" := by
  constructor
  · intro hsep
    constructor
    · exact fun h => not_separate_of_item (.inl h) hsep
    · exact fun h => not_separate_of_item (.inr h) hsep
  · rintro ⟨hitem, hitem'⟩
    exact separate_of_ne (isSlug_of_validateSlug ha hitem) (isSlug_of_validateSlug hb hitem') hab

/-- Two ordinary feeds. -/
theorem separate_iff_ordinary : Separate "anime-news" "daily-trivia" :=
  (separate_iff (by decide) (by decide) (by decide)).2 ⟨by decide, by decide⟩

/-- `Validate` accepts the slug `item`.  Its RSS document and the permalink of `xml` share a key,
and invalidating it removes the permalink of another feed. -/
theorem not_separate_item : validateSlug "item" = [] ∧ validateSlug "daily-trivia" = [] ∧
      ¬ Separate "item" "daily-trivia" ∧
      (handleFeed "item" .xml).key = (Request.item "xml").key ∧
      (exec Recency.step {} [.putPair "daily-trivia" "01J0" smallEntry]).entryAt "item:01J0" =
        some smallEntry ∧
      (exec Recency.step {} [.putPair "daily-trivia" "01J0" smallEntry,
        .invalidate "item" []]).entryAt "item:01J0" = none :=
  ⟨by decide, by decide, not_separate_of_item (.inl rfl), feedKey_item, by decide +kernel,
    by decide +kernel⟩

end AnimeFeedFlux.Publish
