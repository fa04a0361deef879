import AnimeFeedFlux.Render.Documents

/-!
# The render cache

An LRU cache of rendered documents with a ceiling on their total size.  A permalink is held
under two keys, `slug:item:key` for `Invalidate` and `item:key` for the lookup, and the two
are linked so that whatever removes one removes the other.

The recency list stands for the list and the map of the source at once: a key is looked up
by searching it.  `Get` is a write, because it moves entries to the front.
-/

namespace AnimeFeedFlux.Publish

open Render List

/-- `publish.Entry`.  Of the two bodies only their lengths are carried beside the page. -/
structure Entry where
  page : Page
  bodyLen : ℕ
  gzipLen : ℕ
  lastModified : ℤ
  contentType : String
  deriving DecidableEq, Repr

/-- `entrySize`. -/
def Entry.size (e : Entry) : ℤ := e.bodyLen + e.gzipLen

/-- `cacheItem`; `pair` is the key of the twin, or empty. -/
structure CacheItem where
  key : String
  entry : Entry
  pair : String := ""
  deriving DecidableEq, Repr

/-- `Cache`: the recency list, most recently used first, the bytes it holds and the
ceiling. -/
structure Cache where
  order : List CacheItem := []
  bytes : ℤ := 0
  max : ℤ := 0
  deriving DecidableEq, Repr

namespace Cache

section
variable (c : Cache) (key : String) (e : Entry)

/-- `c.entries[key]`. -/
def find : Option CacheItem := c.order.find? (·.key == key)

def moveToFront : Cache :=
  match c.find key with
  | none => c
  | some it => { c with order := it :: c.order.filter (·.key != key) }

/-- `Get`: a hit on either half of a pair refreshes both. -/
def get : Cache × Option Entry :=
  match c.find key with
  | none => (c, none)
  | some it =>
    let c := c.moveToFront key
    (if it.pair = "" then c else c.moveToFront it.pair, some it.entry)

/-- `putLocked`: an entry that is replaced keeps its link. -/
def putLocked : Cache :=
  match c.find key with
  | some it =>
    { c with order := { it with entry := e } :: c.order.filter (·.key != key)
             bytes := c.bytes - it.entry.size + e.size }
  | none => { c with order := { key, entry := e } :: c.order, bytes := c.bytes + e.size }

/-- `dropLocked`, of a key that may be absent. -/
def dropLocked : Cache :=
  match c.find key with
  | none => c
  | some it =>
    { c with order := c.order.filter (·.key != key), bytes := c.bytes - it.entry.size }

/-- `removeLocked` of the entry under `key`, and `deleteLocked`: the entry and its twin. -/
def deleteLocked : Cache :=
  match c.find key with
  | none => c
  | some it =>
    let c := c.dropLocked key
    if it.pair = "" then c else c.dropLocked it.pair

/-- The loop of `evictLocked`, at most `fuel` rounds of it. -/
def evict : ℕ → Cache → Cache
  | 0, c => c
  | fuel + 1, c =>
    if c.max < c.bytes then
      match c.order.getLast? with
      | none => c
      | some back => evict fuel (c.deleteLocked back.key)
    else c

/-- `evictLocked`.  Every round removes an entry, so there are at most as many rounds as
entries. -/
def evictLocked : Cache := if c.max ≤ 0 then c else evict c.order.length c

def put : Cache := (c.putLocked key e).evictLocked

/-- Set the link of the entry under `key`. -/
def link (key pair : String) : Cache :=
  { c with order := c.order.map fun it => if it.key = key then { it with pair } else it }

def putPair (primary bare : String) (e : Entry) : Cache :=
  ((((c.putLocked primary e).putLocked bare e).link primary bare).link bare primary).evictLocked

/-- The keys `Invalidate` looks for: the slug itself, and everything under `slug:`. -/
def matchesSlug (slug key : String) : Bool :=
  key == slug || GoStrings.hasPrefix key (slug ++ ":")

/-- What follows `slug:item:` in a key, if anything does. -/
def itemKeyOf (slug key : String) : Option String :=
  let p := slug ++ ":item:"
  if GoStrings.hasPrefix key p && p.length < key.length then
    some (GoStrings.trimPrefix key p)
  else none

/-- The body of the loop of `Invalidate`.  A key that an earlier round has removed is not
visited. -/
def invalidateKey (slug : String) (c : Cache) (key : String) : Cache :=
  if (c.find key).isSome && matchesSlug slug key then
    let c := match itemKeyOf slug key with
      | some rest => c.deleteLocked ("item:" ++ rest)
      | none => c
    c.deleteLocked key
  else c

/-- The keys in the order in which `range` visits them: those of `visit` first. -/
def rangeOrder (visit : List String) : List String :=
  visit ++ (c.order.map (·.key)).filter (· ∉ visit)

/-- `Invalidate`.  The order in which a map is ranged over is not specified; `visit` is any
beginning of it. -/
def invalidate (slug : String) (visit : List String) : Cache :=
  ((c.rangeOrder visit).foldl (invalidateKey slug) c).deleteLocked "index"

def invalidateAll : Cache := { c with order := [], bytes := 0 }

end

/-! ## What the operations leave in the cache -/

section
variable {c : Cache} {key : String} {it : CacheItem}

theorem find_eq_none : c.find key = none ↔ ∀ x ∈ c.order, x.key ≠ key := by
  simp [find]

theorem find_eq_some (h : c.find key = some it) : it ∈ c.order ∧ it.key = key :=
  ⟨mem_of_find?_eq_some h, by simpa using find?_some h⟩

theorem mem_dropLocked : it ∈ (c.dropLocked key).order ↔ it ∈ c.order ∧ it.key ≠ key := by
  cases h : c.find key with
  | none =>
    simp only [dropLocked, h]
    constructor
    · intro hit
      exact ⟨hit, find_eq_none.mp h it hit⟩
    · exact And.left
  | some x => simp [dropLocked, h]

theorem mem_deleteLocked : it ∈ (c.deleteLocked key).order ↔
      it ∈ c.order ∧ it.key ≠ key ∧ ∀ x, c.find key = some x → x.pair ≠ "" → it.key ≠ x.pair := by
  cases h : c.find key with
  | none =>
    simp only [deleteLocked, h]
    constructor
    · intro hit
      exact ⟨hit, find_eq_none.mp h it hit, by simp⟩
    · exact And.left
  | some x =>
    by_cases hp : x.pair = ""
    · simp [deleteLocked, h, hp, mem_dropLocked]
    · simp [deleteLocked, h, hp, mem_dropLocked, and_assoc]

theorem mem_of_deleteLocked (h : it ∈ (c.deleteLocked key).order) : it ∈ c.order :=
  (mem_deleteLocked.mp h).1

theorem mem_moveToFront (h : it ∈ (c.moveToFront key).order) : it ∈ c.order := by
  cases hf : c.find key with
  | none => simpa [moveToFront, hf] using h
  | some x =>
    simp only [moveToFront, hf, mem_cons, mem_filter] at h
    cases h with
    | inl heq => exact heq ▸ (find_eq_some hf).1
    | inr hrest => exact hrest.1

theorem mem_get (h : it ∈ (c.get key).1.order) : it ∈ c.order := by
  cases hf : c.find key with
  | none => simpa [get, hf] using h
  | some x =>
    simp only [get, hf] at h
    split at h
    · exact mem_moveToFront h
    · exact mem_moveToFront (mem_moveToFront h)

variable {e : Entry}

theorem get_eq_some (h : (c.get key).2 = some e) : ∃ x ∈ c.order, x.key = key ∧ x.entry = e := by
  cases hf : c.find key with
  | none => simp [get, hf] at h
  | some x =>
    have he : x.entry = e := by simpa [get, hf] using h
    exact ⟨x, (find_eq_some hf).1, (find_eq_some hf).2, he⟩

theorem mem_evict {fuel : ℕ} : ∀ {c : Cache}, it ∈ (evict fuel c).order → it ∈ c.order := by
  induction fuel with
  | zero =>
    intro c h
    exact h
  | succ fuel ih =>
    intro c h
    simp only [evict] at h
    split at h
    · split at h
      · exact h
      · exact mem_of_deleteLocked (ih h)
    · exact h

theorem mem_evictLocked (h : it ∈ c.evictLocked.order) : it ∈ c.order := by
  simp only [evictLocked] at h
  split at h
  · exact h
  · exact mem_evict h

/-- What is in the cache after a key was written: what was there under other keys, and the
new entry. -/
theorem mem_putLocked (h : it ∈ (c.putLocked key e).order) :
    (it ∈ c.order ∧ it.key ≠ key) ∨ (it.key = key ∧ it.entry = e) := by
  cases hf : c.find key with
  | none =>
    simp only [putLocked, hf, mem_cons] at h
    cases h with
    | inl heq => exact Or.inr (heq ▸ ⟨rfl, rfl⟩)
    | inr hold => exact Or.inl ⟨hold, find_eq_none.mp hf it hold⟩
  | some x =>
    simp only [putLocked, hf, mem_cons, mem_filter, bne_iff_ne] at h
    cases h with
    | inl heq => exact Or.inr (heq ▸ ⟨(find_eq_some hf).2, rfl⟩)
    | inr hold => exact Or.inl hold

theorem mem_put (h : it ∈ (c.put key e).order) :
    (it ∈ c.order ∧ it.key ≠ key) ∨ (it.key = key ∧ it.entry = e) :=
  mem_putLocked (mem_evictLocked h)

theorem mem_link {pair : String} (h : it ∈ (c.link key pair).order) :
    ∃ x ∈ c.order, x.key = it.key ∧ x.entry = it.entry := by
  obtain ⟨x, hx, rfl⟩ := mem_map.mp h
  refine ⟨x, hx, ?_⟩
  split <;> exact ⟨rfl, rfl⟩

theorem mem_putPair {primary bare : String} (h : it ∈ (c.putPair primary bare e).order) :
    (∃ x ∈ c.order, x.key = it.key ∧ x.entry = it.entry) ∨
      ((it.key = primary ∨ it.key = bare) ∧ it.entry = e) := by
  obtain ⟨y, hy, hkey, hentry⟩ := mem_link (mem_evictLocked h)
  obtain ⟨x, hx, hkey', hentry'⟩ := mem_link hy
  rw [hkey] at hkey'
  rw [hentry] at hentry'
  rw [← hkey', ← hentry']
  cases mem_putLocked hx with
  | inl hold =>
    cases mem_putLocked hold.1 with
    | inl hold' => exact Or.inl ⟨x, hold'.1, rfl, rfl⟩
    | inr hnew => exact Or.inr ⟨Or.inl hnew.1, hnew.2⟩
  | inr hnew => exact Or.inr ⟨Or.inr hnew.1, hnew.2⟩
end

/-! ## The ceiling and what is held under it -/

section
variable {c : Cache} {key : String}

theorem dropLocked_le : (c.dropLocked key).bytes ≤ c.bytes ∧ (c.dropLocked key).max = c.max := by
  simp only [dropLocked]
  split
  · exact ⟨le_refl _, rfl⟩
  rename_i it _
  refine ⟨?_, rfl⟩
  have hsize : 0 ≤ it.entry.size := by
    rw [Entry.size]
    omega
  dsimp only
  omega

theorem deleteLocked_le :
    (c.deleteLocked key).bytes ≤ c.bytes ∧ (c.deleteLocked key).max = c.max := by
  simp only [deleteLocked]
  split
  · exact ⟨le_refl _, rfl⟩
  split
  · exact dropLocked_le
  · exact ⟨dropLocked_le.1.trans dropLocked_le.1, dropLocked_le.2.trans dropLocked_le.2⟩

theorem invalidate_le (slug : String) (visit : List String) :
    (c.invalidate slug visit).bytes ≤ c.bytes ∧ (c.invalidate slug visit).max = c.max := by
  have hkey : ∀ (c : Cache) (key : String),
      (invalidateKey slug c key).bytes ≤ c.bytes ∧ (invalidateKey slug c key).max = c.max := by
    intro c key
    simp only [invalidateKey]
    split
    · cases itemKeyOf slug key with
      | none => exact deleteLocked_le
      | some rest =>
        exact ⟨deleteLocked_le.1.trans deleteLocked_le.1, deleteLocked_le.2.trans deleteLocked_le.2⟩
    · exact ⟨le_refl _, rfl⟩
  have hfold : ∀ (keys : List String) (c : Cache),
      (keys.foldl (invalidateKey slug) c).bytes ≤ c.bytes ∧
        (keys.foldl (invalidateKey slug) c).max = c.max := by
    intro keys
    induction keys with
    | nil => exact fun c => ⟨le_refl _, rfl⟩
    | cons key keys ih =>
      intro c
      exact ⟨(ih _).1.trans (hkey c key).1, (ih _).2.trans (hkey c key).2⟩
  exact ⟨deleteLocked_le.1.trans (hfold _ c).1, deleteLocked_le.2.trans (hfold _ c).2⟩

theorem max_putLocked (e : Entry) : (c.putLocked key e).max = c.max := by
  simp only [putLocked]
  split <;> rfl

theorem max_evictLocked : c.evictLocked.max = c.max := by
  have hevict : ∀ (fuel : ℕ) (c : Cache), (evict fuel c).max = c.max := by
    intro fuel
    induction fuel with
    | zero => exact fun c => rfl
    | succ fuel ih =>
      intro c
      rw [evict]
      split
      · split
        · rfl
        · rw [ih, deleteLocked_le.2]
      · rfl
  rw [evictLocked]
  split
  · rfl
  · exact hevict _ _

end

/-! ## Invalidation -/

section
variable {slug : String} {it : CacheItem}

theorem mem_invalidateKey {c : Cache} {key : String} (h : it ∈ (invalidateKey slug c key).order) :
    it ∈ c.order ∧ (it.key = key → matchesSlug slug key = false) := by
  simp only [invalidateKey] at h
  split at h
  · have hit := mem_deleteLocked.mp h
    refine ⟨?_, fun heq => absurd heq hit.2.1⟩
    split at hit
    · exact mem_of_deleteLocked hit.1
    · exact hit.1
  · rename_i hskip
    refine ⟨h, fun heq => ?_⟩
    have hfound : (c.find key).isSome = true := by
      by_contra hnone
      exact find_eq_none.mp (by simpa using hnone) it h heq
    simpa [hfound] using hskip

theorem mem_foldl_invalidateKey {keys : List String} : ∀ {c : Cache},
    it ∈ (keys.foldl (invalidateKey slug) c).order →
      it ∈ c.order ∧ (it.key ∈ keys → matchesSlug slug it.key = false) := by
  induction keys with
  | nil =>
    intro c h
    exact ⟨h, by simp⟩
  | cons key keys ih =>
    intro c h
    obtain ⟨hmem, hkeys⟩ := ih h
    obtain ⟨hold, hkey⟩ := mem_invalidateKey hmem
    refine ⟨hold, fun hin => ?_⟩
    cases mem_cons.mp hin with
    | inl heq => exact heq ▸ hkey heq
    | inr hrest => exact hkeys hrest

/-- **After an invalidation no key of the slug is left, and no index page.** -/
theorem mem_invalidate {c : Cache} {visit : List String}
    (h : it ∈ (c.invalidate slug visit).order) :
    it ∈ c.order ∧ matchesSlug slug it.key = false ∧ it.key ≠ "index" := by
  obtain ⟨hmem, hindex, -⟩ := mem_deleteLocked.mp h
  obtain ⟨hold, hkeys⟩ := mem_foldl_invalidateKey hmem
  refine ⟨hold, hkeys ?_, hindex⟩
  rw [rangeOrder, mem_append, mem_filter]
  by_cases hv : it.key ∈ visit
  · exact Or.inl hv
  · exact Or.inr ⟨mem_map_of_mem hold, by simpa using hv⟩
end

end Cache

end AnimeFeedFlux.Publish
