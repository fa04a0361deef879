import AnimeFeedFlux.Publish.Cache

/-!
# Cache keys and the twins of a permalink

The handlers build their keys from a slug, a colon and a tail.  As long as slugs and item
keys hold no colon, the first colon of a key tells its slug, and no two kinds of key can be
confused.

On top of that stands the invariant of the links: whenever the bare key `item:key` is in
the cache, so is the key `slug:item:key` it is linked to, and that key links back.  Every
operation keeps it, so `Invalidate`, which only looks for keys of its slug, leaves no bare
key behind that is linked to one of them.  `Links` is about the view of the cache in which each
call is a change of a function: which keys are held, and what each is linked to.
-/

namespace AnimeFeedFlux.Publish

open Render List

/-! ## Keys -/

/-- No colon in it. -/
def NoColon (s : String) : Prop := ':' ∉ s.toList
deriving Decidable

/-- An item key as they are generated: 26 characters, none of them a colon. -/
def IsItemKey (k : String) : Prop := NoColon k ∧ k.length = 26
deriving Decidable

/-- The key of `handleFeed`. -/
def feedKey (slug : String) (format : Format) : String := slug ++ ":" ++ format.ext

/-- The key of `handleEmbed`. -/
def embedKey (slug : String) (o : EmbedOptions) : String :=
  slug ++ ":embed:" ++ toString o.count ++ ":" ++ o.theme.text

/-- The key under which `Invalidate` finds a permalink. -/
def slugItemKey (slug itemKey : String) : String := slug ++ ":item:" ++ itemKey

/-- The key `handleItem` looks up. -/
def bareKey (itemKey : String) : String := "item:" ++ itemKey

variable {s s' k k' : String}

/-- **The first colon of a key tells its slug.** -/
theorem colon_inj {t t' : String} (hs : NoColon s) (hs' : NoColon s')
    (h : s ++ (":" ++ t) = s' ++ (":" ++ t')) : s = s' ∧ t = t' := by
  have hlist : s.toList ++ ':' :: t.toList = s'.toList ++ ':' :: t'.toList := by
    simpa [String.toList_append] using congrArg String.toList h
  obtain ⟨h₁, h₂⟩ := GoStrings.append_sep_inj hs hs' hlist
  exact ⟨String.toList_injective h₁, String.toList_injective h₂⟩

theorem feedKey_eq (slug : String) (format : Format) :
    feedKey slug format = slug ++ (":" ++ format.ext) := String.append_assoc

theorem embedKey_eq (slug : String) (o : EmbedOptions) : embedKey slug o =
      slug ++ (":" ++ ("embed" ++ (":" ++ (toString o.count ++ (":" ++ o.theme.text))))) := by
  have hsplit : (":embed:" : String) = ":" ++ ("embed" ++ ":") := by decide
  simp only [embedKey, hsplit, String.append_assoc]

theorem slugItemKey_eq (slug k : String) :
    slugItemKey slug k = slug ++ (":" ++ ("item" ++ (":" ++ k))) := by
  have hsplit : (":item:" : String) = ":" ++ ("item" ++ ":") := by decide
  simp only [slugItemKey, hsplit, String.append_assoc]

theorem bareKey_eq (k : String) : bareKey k = "item" ++ (":" ++ k) := by
  have hsplit : ("item:" : String) = "item" ++ ":" := by decide
  simp only [bareKey, hsplit, String.append_assoc]

theorem noColon_item : NoColon "item" := by decide

theorem noColon_embed : NoColon "embed" := by decide

theorem noColon_ext (format : Format) : NoColon format.ext := by
  cases format <;> decide

theorem not_noColon_append (s t : String) : ¬NoColon (s ++ (":" ++ t)) := by
  simp [NoColon, String.toList_append]

theorem slugItemKey_inj (hs : NoColon s) (hs' : NoColon s')
    (h : slugItemKey s k = slugItemKey s' k') : s = s' ∧ k = k' := by
  rw [slugItemKey_eq, slugItemKey_eq] at h
  obtain ⟨hslug, htail⟩ := colon_inj hs hs' h
  exact ⟨hslug, (colon_inj noColon_item noColon_item htail).2⟩

theorem bareKey_inj (h : bareKey k = bareKey k') : k = k' := by
  rw [bareKey_eq, bareKey_eq] at h
  exact (colon_inj noColon_item noColon_item h).2

theorem slugItemKey_ne_bareKey (hs : NoColon s) (hk' : NoColon k') :
    slugItemKey s k ≠ bareKey k' := by
  intro h
  rw [slugItemKey_eq, bareKey_eq] at h
  rw [← (colon_inj hs noColon_item h).2] at hk'
  exact not_noColon_append _ _ hk'

theorem bareKey_ne_empty (k : String) : bareKey k ≠ "" := by
  intro h
  have hlen := congrArg String.length h
  simp [bareKey, String.length_append] at hlen

/-! ## Which keys are held -/

namespace Cache
variable (c : Cache) (key k : String)

/-- The link of a key that is held. -/
def pairOf : Option String := (c.find key).map (·.pair)

variable {c key k}

theorem find_filter (hne : key ≠ k) :
    (c.order.filter (·.key != k)).find? (·.key == key) = c.find key := by
  rw [find?_filter, find]
  congr 1
  funext it
  by_cases hkey : it.key = key
  · simp [hkey, hne]
  · simp [hkey]

theorem find_filter_self : (c.order.filter (·.key != k)).find? (·.key == k) = none := by
  rw [find?_filter, find?_eq_none]
  simp

theorem find?_cons_key (it : CacheItem) (order : List CacheItem) :
    (it :: order).find? (·.key == key) =
      if key = it.key then some it else order.find? (·.key == key) := by
  by_cases hkey : key = it.key
  · rw [if_pos hkey, find?_cons, hkey, beq_self_eq_true]
  · rw [if_neg hkey, find?_cons, beq_eq_false_iff_ne.2 (Ne.symm hkey)]

theorem find_dropLocked : (c.dropLocked k).find key = if key = k then none else c.find key := by
  cases hfind : c.find k with
  | none =>
    simp only [dropLocked, hfind]
    by_cases hkey : key = k
    · rw [if_pos hkey, hkey, hfind]
    · rw [if_neg hkey]
  | some it =>
    simp only [dropLocked, hfind]
    by_cases hkey : key = k
    · subst hkey
      rw [if_pos rfl, find, find_filter_self]
    · rw [if_neg hkey, find, find_filter hkey]

@[simp] theorem pairOf_moveToFront : (c.moveToFront k).pairOf key = c.pairOf key := by
  cases hfind : c.find k with
  | none => simp only [moveToFront, hfind]
  | some it =>
    obtain rfl := (find_eq_some hfind).2
    simp only [moveToFront, hfind, pairOf]
    rw [find, find?_cons_key]
    split
    · rename_i hkey
      rw [hkey, hfind]
    · rename_i hkey
      exact congrArg _ (find_filter hkey)

@[simp] theorem pairOf_get : (c.get k).1.pairOf key = c.pairOf key := by
  cases hfind : c.find k with
  | none => simp only [get, hfind]
  | some it =>
    simp only [get, hfind]
    split
    · exact pairOf_moveToFront
    · rw [pairOf_moveToFront, pairOf_moveToFront]

theorem pairOf_putLocked (e : Entry) : (c.putLocked k e).pairOf key =
      if key = k then some ((c.pairOf k).getD "") else c.pairOf key := by
  cases hfind : c.find k with
  | none =>
    simp only [putLocked, hfind, pairOf, Option.map_none, Option.getD_none]
    rw [find, find?_cons_key]
    split <;> rfl
  | some it =>
    obtain rfl := (find_eq_some hfind).2
    simp only [putLocked, hfind, pairOf, Option.map_some, Option.getD_some]
    rw [find, find?_cons_key]
    split
    · rfl
    · rename_i hkey
      exact congrArg _ (find_filter hkey)

theorem pairOf_link (pair : String) : (c.link k pair).pairOf key =
      if key = k then (c.pairOf k).map fun _ => pair else c.pairOf key := by
  have hfind : (c.link k pair).find key =
      (c.find key).map fun it => if it.key = k then { it with pair } else it := by
    have hsame : ∀ it : CacheItem,
        ((if it.key = k then { it with pair } else it : CacheItem).key == key) =
          (it.key == key) := by
      intro it
      split <;> rfl
    rw [find, link, find?_map]
    exact congrArg _ (congrArg (List.find? · c.order) (funext hsame))
  rw [pairOf, hfind, Option.map_map]
  by_cases hkey : key = k
  · rw [if_pos hkey, pairOf, Option.map_map, hkey]
    cases hk : c.find k with
    | none => rfl
    | some it =>
      rw [Option.map_some, Option.map_some, Function.comp_apply, if_pos (find_eq_some hk).2]
      rfl
  · rw [if_neg hkey, pairOf]
    cases hk : c.find key with
    | none => rfl
    | some it =>
      have hne : it.key ≠ k := by
        rw [(find_eq_some hk).2]
        exact hkey
      rw [Option.map_some, Option.map_some, Function.comp_apply, if_neg hne]

/-- **A deletion takes the key and what it is linked to**, and nothing else. -/
theorem find_deleteLocked : (c.deleteLocked k).find key =
      if key = k ∨ c.pairOf k = some key ∧ key ≠ "" then none else c.find key := by
  cases hfind : c.find k with
  | none =>
    simp only [deleteLocked, hfind]
    have hnone : c.pairOf k = none := by rw [pairOf, hfind, Option.map_none]
    by_cases hkey : key = k
    · rw [if_pos (.inl hkey), hkey, hfind]
    · rw [if_neg (by simp [hkey, hnone])]
  | some it =>
    have hsome : c.pairOf k = some it.pair := by rw [pairOf, hfind, Option.map_some]
    simp only [deleteLocked, hfind, hsome, Option.some.injEq]
    by_cases hpair : it.pair = ""
    · rw [if_pos hpair, find_dropLocked]
      by_cases hkey : key = k
      · rw [if_pos hkey, if_pos (.inl hkey)]
      rw [if_neg hkey, if_neg]
      rintro (heq | ⟨heq, hne⟩)
      · exact hkey heq
      · exact hne (heq ▸ hpair)
    · rw [if_neg hpair, find_dropLocked, find_dropLocked]
      by_cases hkey : key = k
      · rw [if_pos hkey, ite_self, if_pos (.inl hkey)]
      rw [if_neg hkey]
      by_cases htwin : key = it.pair
      · rw [if_pos htwin, if_pos (.inr ⟨htwin.symm, htwin ▸ hpair⟩)]
      rw [if_neg htwin, if_neg]
      rintro (heq | ⟨heq, -⟩)
      · exact hkey heq
      · exact htwin heq.symm

theorem pairOf_deleteLocked : (c.deleteLocked k).pairOf key =
      if key = k ∨ c.pairOf k = some key ∧ key ≠ "" then none else c.pairOf key := by
  rw [pairOf, find_deleteLocked, apply_ite (Option.map fun it : CacheItem => it.pair)]
  rfl

theorem holds_iff {c : Cache} {key : String} :
    (∃ it ∈ c.order, it.key = key) ↔ c.pairOf key ≠ none := by
  rw [pairOf, ne_eq, Option.map_eq_none_iff, find_eq_none]
  simp

end Cache

/-! ## The links stay in order -/

/-- Which slugs there are and which items are theirs, so that the two keys of an item are told
apart. -/
structure Scheme where
  slug : String → Prop
  owns : String → String → Prop
  noColon : ∀ {s}, slug s → NoColon s
  owned : ∀ {s k}, owns s k → slug s
  apart : ∀ {s s' k k'}, slug s → owns s' k' → slugItemKey s k ≠ bareKey k'

/-- A slugged key is held for its own items only, every link connects the two keys of an item, and
a bare key is held only with the key of a slug it is `stored` for, which links back. -/
structure Links (S : Scheme) (stored : String → String → Prop) (f : String → Option String) :
    Prop where
  slugged : ∀ s k, S.slug s → f (slugItemKey s k) ≠ none → S.owns s k
  form : ∀ key pair, f key = some pair → pair ≠ "" → ∃ s k, S.owns s k ∧
    ((key = slugItemKey s k ∧ pair = bareKey k) ∨ (key = bareKey k ∧ pair = slugItemKey s k))
  twin : ∀ k pair, (∃ s, S.owns s k) → f (bareKey k) = some pair →
    ∃ s, S.owns s k ∧ stored s k ∧ pair = slugItemKey s k ∧ f pair = some (bareKey k)

namespace Links
variable {S : Scheme} {stored : String → String → Prop} {f f' : String → Option String}

theorem of_eq (h : Links S stored f) (heq : ∀ key, f' key = f key) : Links S stored f' := by
  rw [funext heq]
  exact h

theorem empty (h : ∀ key, f key = none) : Links S stored f where
  slugged s k _ hheld := absurd (h _) hheld
  form key pair hkey := by
    rw [h] at hkey
    cases hkey
  twin k pair _ hkey := by
    rw [h] at hkey
    cases hkey

/-- **Removing a key with what it is linked to.** -/
theorem delete (h : Links S stored f) (gone : String)
    (hf : ∀ key, f' key = if key = gone ∨ f gone = some key ∧ key ≠ "" then none else f key) :
    Links S stored f' := by
  have hold : ∀ {key pair}, f' key = some pair →
      key ≠ gone ∧ ¬ (f gone = some key ∧ key ≠ "") ∧ f key = some pair := by
    intro key pair hkey
    rw [hf] at hkey
    split at hkey
    · cases hkey
    rename_i hkept
    obtain ⟨hne, hnot⟩ := not_or.1 hkept
    exact ⟨hne, hnot, hkey⟩
  constructor
  · intro s k hs hheld
    obtain ⟨pair, hpair⟩ := Option.ne_none_iff_exists'.1 hheld
    exact h.slugged s k hs (by simp [(hold hpair).2.2])
  · intro key pair hkey
    exact h.form key pair (hold hkey).2.2
  intro k pair hk hkey
  obtain ⟨hne, hnot, hkey⟩ := hold hkey
  obtain ⟨s, hs, hstored, rfl, hback⟩ := h.twin k pair hk hkey
  refine ⟨s, hs, hstored, rfl, ?_⟩
  rw [hf, if_neg]
  · exact hback
  rintro (heq | ⟨hgone, hne'⟩)
  · -- Were the twin the one removed, it would take the bare key along.
    exact hnot ⟨heq ▸ hback, bareKey_ne_empty k⟩
  · -- Only the bare key of this item links to the twin.
    obtain ⟨s', k', hs', ⟨-, hpair⟩ | ⟨hkey', hpair⟩⟩ := h.form gone _ hgone hne'
    · exact S.apart (S.owned hs) hs' hpair
    rw [hkey', (slugItemKey_inj (S.noColon (S.owned hs)) (S.noColon (S.owned hs')) hpair).2] at hne
    exact hne rfl

/-- **A page.** -/
theorem put (h : Links S stored f) {new : String} (hslug : ∀ s k, S.slug s → new ≠ slugItemKey s k)
    (hbare : ∀ s k, S.owns s k → new ≠ bareKey k)
    (hf : ∀ key, f' key = if key = new then some ((f new).getD "") else f key) :
    Links S stored f' := by
  constructor
  · intro s k hs hheld
    rw [hf, if_neg (hslug s k hs).symm] at hheld
    exact h.slugged s k hs hheld
  · intro key pair hkey hne
    rw [hf] at hkey
    split at hkey
    · rename_i heq
      cases hlink : f new with
      | none =>
        rw [hlink, Option.getD_none, Option.some.injEq] at hkey
        exact absurd hkey.symm hne
      | some old =>
        rw [hlink, Option.getD_some] at hkey
        rw [heq]
        exact h.form new pair (hlink.trans hkey) hne
    · exact h.form key pair hkey hne
  · rintro k pair ⟨s₀, hk⟩ hkey
    rw [hf, if_neg (hbare s₀ k hk).symm] at hkey
    obtain ⟨s, hs, hstored, rfl, hback⟩ := h.twin k pair ⟨s₀, hk⟩ hkey
    refine ⟨s, hs, hstored, rfl, ?_⟩
    rw [hf, if_neg (hslug s k (S.owned hs)).symm]
    exact hback

/-- **The two keys of an item.** -/
theorem putPair {stored' : String → String → Prop} (h : Links S stored f) {s k : String}
    (hs : S.owns s k) (hstored : stored' s k)
    (hold : ∀ s' k', k' ≠ k → stored s' k' → stored' s' k')
    (hf : ∀ key, f' key = if key = slugItemKey s k then some (bareKey k)
      else if key = bareKey k then some (slugItemKey s k) else f key) : Links S stored' f' := by
  constructor
  · intro s' k' hs' hheld
    by_cases heq : slugItemKey s' k' = slugItemKey s k
    · obtain ⟨rfl, rfl⟩ := slugItemKey_inj (S.noColon hs') (S.noColon (S.owned hs)) heq
      exact hs
    · rw [hf, if_neg heq, if_neg (S.apart hs' hs)] at hheld
      exact h.slugged s' k' hs' hheld
  · intro key pair hkey hne
    rw [hf] at hkey
    split at hkey
    · rename_i heq
      exact ⟨s, k, hs, .inl ⟨heq, (Option.some.inj hkey).symm⟩⟩
    split at hkey
    · rename_i heq
      exact ⟨s, k, hs, .inr ⟨heq, (Option.some.inj hkey).symm⟩⟩
    · exact h.form key pair hkey hne
  · rintro k' pair ⟨s₀, hk'⟩ hkey
    rw [hf, if_neg (S.apart (S.owned hs) hk').symm] at hkey
    by_cases hk : k' = k
    · subst hk
      rw [if_pos rfl] at hkey
      refine ⟨s, hs, hstored, (Option.some.inj hkey).symm, ?_⟩
      rw [← Option.some.inj hkey, hf, if_pos rfl]
    · rw [if_neg (mt bareKey_inj hk)] at hkey
      obtain ⟨s', hs', hstored', rfl, hback⟩ := h.twin k' pair ⟨s₀, hk'⟩ hkey
      refine ⟨s', hs', hold s' k' hk hstored', rfl, ?_⟩
      have hother : slugItemKey s' k' ≠ slugItemKey s k := fun heq =>
        hk (slugItemKey_inj (S.noColon (S.owned hs')) (S.noColon (S.owned hs)) heq).2
      rw [hf, if_neg hother, if_neg (S.apart (S.owned hs') hs)]
      exact hback

section
variable {c : Cache} {key : String}

variable (h : Links S stored c.pairOf)
include h

theorem get : Links S stored (c.get key).1.pairOf :=
  h.of_eq fun _ => Cache.pairOf_get

theorem deleteLocked : Links S stored (c.deleteLocked key).pairOf :=
  h.delete key fun _ => Cache.pairOf_deleteLocked

theorem evictLocked : Links S stored c.evictLocked.pairOf := by
  have hevict : ∀ (fuel : ℕ) {c : Cache}, Links S stored c.pairOf →
      Links S stored (Cache.evict fuel c).pairOf := by
    intro fuel
    induction fuel with
    | zero => exact fun h => h
    | succ fuel ih =>
      intro c h
      rw [Cache.evict]
      split
      · split
        · exact h
        · exact ih h.deleteLocked
      · exact h
  rw [Cache.evictLocked]
  split
  · exact h
  · exact hevict _ h

theorem cachePut (hslug : ∀ s k, S.slug s → key ≠ slugItemKey s k)
    (hbare : ∀ s k, S.owns s k → key ≠ bareKey k) (e : Entry) :
    Links S stored (c.put key e).pairOf :=
  (h.put hslug hbare fun _ => Cache.pairOf_putLocked e).evictLocked

theorem cachePutPair {stored' : String → String → Prop}
    {s k : String} (hs : S.owns s k) (hstored : stored' s k)
    (hold : ∀ s' k', k' ≠ k → stored s' k' → stored' s' k') (e : Entry) :
    Links S stored' (c.putPair (slugItemKey s k) (bareKey k) e).pairOf := by
  refine (h.putPair hs hstored hold fun key => ?_).evictLocked
  have hne : slugItemKey s k ≠ bareKey k := S.apart (S.owned hs) hs
  simp only [Cache.pairOf_link, Cache.pairOf_putLocked, if_true, if_neg hne, if_neg hne.symm,
    Option.map_some]
  by_cases hbare : key = bareKey k
  · rw [if_pos hbare, if_neg (hbare ▸ hne.symm), if_pos hbare]
  rw [if_neg hbare, if_neg hbare]
  by_cases hprimary : key = slugItemKey s k
  · rw [if_pos hprimary, if_pos hprimary]
  · rw [if_neg hprimary, if_neg hprimary, if_neg hbare, if_neg hprimary]

theorem invalidate (slug : String) (visit : List String) :
    Links S stored (c.invalidate slug visit).pairOf := by
  have hkey : ∀ {c : Cache} (key : String), Links S stored c.pairOf →
      Links S stored (Cache.invalidateKey slug c key).pairOf := by
    intro c key h
    rw [Cache.invalidateKey]
    split
    · cases Cache.itemKeyOf slug key with
      | none => exact h.deleteLocked
      | some rest => exact h.deleteLocked.deleteLocked
    · exact h
  have hfold : ∀ (keys : List String) {c : Cache}, Links S stored c.pairOf →
      Links S stored (keys.foldl (Cache.invalidateKey slug) c).pairOf := by
    intro keys
    induction keys with
    | nil => exact fun h => h
    | cons key keys ih => exact fun h => ih (hkey key h)
  exact (hfold _ h).deleteLocked

end

end Links

namespace Cache
variable {c : Cache}

theorem matchesSlug_append (slug tail : String) : matchesSlug slug (slug ++ (":" ++ tail)) := by
  simp [matchesSlug, GoStrings.hasPrefix]

/-- **`Invalidate` leaves no bare key that is linked to a key of its slug.** -/
theorem bareKey_notMem_invalidate {S : Scheme} {stored : String → String → Prop} {slug k : String}
    {visit : List String} (hl : Links S stored c.pairOf) (hk : ∃ s, S.owns s k)
    (hpair : ∀ it ∈ c.order, it.key = bareKey k → it.pair = slugItemKey slug k) :
    ∀ it ∈ (c.invalidate slug visit).order, it.key ≠ bareKey k := by
  intro it hit heq
  obtain ⟨pair, hheld⟩ := Option.ne_none_iff_exists'.1 (holds_iff.1 ⟨it, hit, heq⟩)
  obtain ⟨s, -, -, rfl, hback⟩ := (hl.invalidate slug visit).twin k pair hk hheld
  obtain ⟨x, hx, hxpair⟩ := Option.map_eq_some_iff.1 hheld
  obtain ⟨hxmem, hxkey⟩ := find_eq_some hx
  obtain ⟨tw, htw, htwkey⟩ := holds_iff.2 (by rw [hback]; exact Option.some_ne_none _)
  have hmatch := (mem_invalidate htw).2.1
  rw [htwkey, ← hxpair, hpair x (mem_invalidate hxmem).1 hxkey, slugItemKey_eq,
    matchesSlug_append] at hmatch
  cases hmatch

end Cache

end AnimeFeedFlux.Publish
