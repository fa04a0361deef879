import AnimeFeedFlux.Lib.Table
import AnimeFeedFlux.Publish.Cache
import Mathlib.Algebra.BigOperators.Group.List.Basic

/-!
# The cache as it is stored

`Cache` keeps its entries twice: a map from keys to list elements, and the list of the elements by
recency.  What an element carries is changed in place, and three counters follow along.  Elements
are addresses here, handed out by a counter.  The map and the list agree as long as every operation
changes both, which is `Valid`; then the store is the recency list of `Publish.Cache`, and each
operation does to that list what its namesake there does.

Sums of sizes are taken to fit an `int64`.
-/

namespace AnimeFeedFlux.Publish

open List Function

/-- `cacheItem`. -/
structure Slot where
  key : String
  entry : Entry
  size : ℤ
  pair : String := ""
  deriving DecidableEq, Repr

/-- The zero `cacheItem`. -/
def Slot.zero : Slot :=
  { key := "", entry := { page := .index { baseURL := "", generator := "", feeds := [] }
                          bodyLen := 0, gzipLen := 0, lastModified := 0, contentType := "" }
    size := 0 }

/-- `Cache`: what each list element carries, the map and the list, and the counters. -/
structure Recency where
  heap : ℕ → Slot := fun _ => Slot.zero
  next : ℕ := 0
  entries : List (String × ℕ) := []
  order : List ℕ := []
  bytes : ℤ := 0
  bodyBytes : ℤ := 0
  gzipBytes : ℤ := 0
  max : ℤ := 0

namespace Recency

section
variable (c : Recency) (key : String) (el : ℕ) (it : Slot) (e : Entry)

/-- `c.entries[key]`. -/
def lookup : Option ℕ := (c.entries.find? (·.1 == key)).map (·.2)

def moveToFront : Recency :=
  { c with order := if el ∈ c.order then el :: c.order.erase el else c.order }

def addLocked : Recency :=
  { c with bytes := c.bytes + it.size, bodyBytes := c.bodyBytes + it.entry.bodyLen
           gzipBytes := c.gzipBytes + it.entry.gzipLen }

def subLocked : Recency :=
  { c with bytes := c.bytes - it.size, bodyBytes := c.bodyBytes - it.entry.bodyLen
           gzipBytes := c.gzipBytes - it.entry.gzipLen }

/-- What an element carries is changed. -/
def assign : Recency :=
  { c with heap := update c.heap el it }

/-- `order.PushFront` of a new element, which the map gets under its key. -/
def pushFront : Recency :=
  { c with heap := update c.heap c.next it, next := c.next + 1
           entries := (it.key, c.next) :: c.entries, order := c.next :: c.order }

def get : Recency × Option Entry :=
  match c.lookup key with
  | none => (c, none)
  | some el =>
    let c := c.moveToFront el
    let it := c.heap el
    if it.pair ≠ "" then
      match c.lookup it.pair with
      | some pel => (c.moveToFront pel, some it.entry)
      | none => (c, some it.entry)
    else (c, some it.entry)

def putLocked : Recency :=
  match c.lookup key with
  | some el =>
    let it := { c.heap el with entry := e, size := e.size }
    (((c.subLocked (c.heap el)).assign el it).addLocked it).moveToFront el
  | none =>
    let it : Slot := { key, entry := e, size := e.size }
    (c.pushFront it).addLocked it

def dropLocked : Recency :=
  { c with order := c.order.erase el
           entries := c.entries.filter (·.1 != (c.heap el).key) }.subLocked (c.heap el)

def removeLocked : Recency :=
  let it := c.heap el
  let c := c.dropLocked el
  if it.pair = "" then c
  else match c.lookup it.pair with
    | some pel => (c.assign pel { c.heap pel with pair := "" }).dropLocked pel
    | none => c

def deleteLocked : Recency :=
  match c.lookup key with
  | some el => c.removeLocked el
  | none => c

/-- The loop of `evictLocked`, at most `fuel` rounds of it. -/
def evict : ℕ → Recency → Recency
  | 0, c => c
  | fuel + 1, c =>
    if c.max < c.bytes then
      match c.order.getLast? with
      | none => c
      | some back => evict fuel (c.removeLocked back)
    else c

/-- `evictLocked`; each round takes an element off the list. -/
def evictLocked : Recency := if c.max ≤ 0 then c else evict c.order.length c

def put : Recency := (c.putLocked key e).evictLocked

/-- Set the link of the entry under `key`, if there is one. -/
def link (key pair : String) : Recency :=
  match c.lookup key with
  | some el => c.assign el { c.heap el with pair }
  | none => c

def putPair (primary bare : String) (e : Entry) : Recency :=
  ((((c.putLocked primary e).putLocked bare e).link primary bare).link bare primary).evictLocked

/-- The body of the loop of `Invalidate`; a key that an earlier round has removed is not
visited. -/
def invalidateKey (slug : String) (c : Recency) (key : String) : Recency :=
  if (c.lookup key).isSome && Cache.matchesSlug slug key then
    let c := match Cache.itemKeyOf slug key with
      | some rest => c.deleteLocked ("item:" ++ rest)
      | none => c
    c.deleteLocked key
  else c

/-- The keys in the order in which `range` visits them: those of `visit` first. -/
def rangeOrder (visit : List String) : List String :=
  visit ++ (c.entries.map (·.1)).filter (· ∉ visit)

/-- `Invalidate`, for any order of the map. -/
def invalidate (slug : String) (visit : List String) : Recency :=
  ((c.rangeOrder visit).foldl (invalidateKey slug) c).deleteLocked "index"

def invalidateAll : Recency :=
  { c with entries := [], order := [], bytes := 0, bodyBytes := 0, gzipBytes := 0 }

/-! ## The map, the list and the counters agree -/

/-- A sum over what the cache holds. -/
def total (size : Slot → ℤ) : ℤ := (c.order.map fun p => size (c.heap p)).sum

/-- The map and the list hold the same elements, under their own keys, and no key twice; the
counters are the sums over them. -/
structure Valid : Prop where
  keys : (c.order.map fun p => (c.heap p).key).Nodup
  entries : c.entries.Perm (c.order.map fun p => ((c.heap p).key, p))
  allocated : ∀ p ∈ c.order, p < c.next
  sized : ∀ p ∈ c.order, (c.heap p).size = (c.heap p).entry.size
  bytes : c.bytes = c.total (·.size)
  bodyBytes : c.bodyBytes = c.total (·.entry.bodyLen)
  gzipBytes : c.gzipBytes = c.total (·.entry.gzipLen)

end

theorem valid_empty (max : ℤ) : Valid { max } where
  keys := nodup_nil
  entries := List.Perm.nil
  allocated := by simp
  sized := by simp
  bytes := rfl
  bodyBytes := rfl
  gzipBytes := rfl

namespace Valid
variable {c : Recency} {key : String} {el : ℕ}

section
variable (h : Valid c)
include h

theorem order_nodup : c.order.Nodup := List.Nodup.of_map _ h.keys

theorem entries_nodup : (c.entries.map Prod.fst).Nodup := by
  have hperm := h.entries.map Prod.fst
  rw [map_map] at hperm
  exact hperm.nodup_iff.2 h.keys

theorem mem_entries {key : String} {p : ℕ} :
    (key, p) ∈ c.entries ↔ p ∈ c.order ∧ (c.heap p).key = key := by
  rw [h.entries.mem_iff, mem_map]
  constructor
  · rintro ⟨q, hq, heq⟩
    obtain ⟨rfl, rfl⟩ := Prod.mk.inj heq
    exact ⟨hq, rfl⟩
  · rintro ⟨hp, rfl⟩
    exact ⟨p, hp, rfl⟩

/-- **The map finds exactly what is on the list.** -/
theorem lookup_eq_some : c.lookup key = some el ↔ el ∈ c.order ∧ (c.heap el).key = key := by
  rw [← h.mem_entries, lookup, Option.map_eq_some_iff]
  constructor
  · rintro ⟨p, hfind, rfl⟩
    have hkey : p.1 = key := by simpa using find?_some hfind
    rw [← hkey]
    exact mem_of_find?_eq_some hfind
  · intro hmem
    exact ⟨(key, el), (find?_eq_some_of_nodup h.entries_nodup fun _ => beq_iff_eq.1).2
      ⟨hmem, beq_self_eq_true key⟩, rfl⟩

theorem lookup_eq_none : c.lookup key = none ↔ ∀ p ∈ c.order, (c.heap p).key ≠ key := by
  constructor
  · intro hnone p hp heq
    rw [h.lookup_eq_some.2 ⟨hp, heq⟩] at hnone
    cases hnone
  intro hne
  cases hfind : c.lookup key with
  | none => rfl
  | some el =>
    obtain ⟨hel, hkey⟩ := h.lookup_eq_some.1 hfind
    exact absurd hkey (hne el hel)

theorem eq_of_key {p q : ℕ} (hp : p ∈ c.order) (hq : q ∈ c.order)
    (heq : (c.heap p).key = (c.heap q).key) : p = q :=
  inj_on_of_nodup_map h.keys hp hq heq

theorem erase_eq_filter (hel : el ∈ c.order) :
    c.order.erase el = c.order.filter fun p => (c.heap p).key != (c.heap el).key := by
  rw [h.order_nodup.erase_eq_filter]
  refine filter_congr fun p hp => ?_
  have hiff : p = el ↔ (c.heap p).key = (c.heap el).key :=
    ⟨fun heq => by rw [heq], h.eq_of_key hp hel⟩
  rw [Bool.eq_iff_iff, bne_iff_ne, bne_iff_ne, ne_eq, ne_eq, hiff]

theorem of_perm {order : List ℕ} (hperm : order.Perm c.order) :
    Valid { c with order } where
  keys := (hperm.map _).nodup_iff.2 h.keys
  entries := h.entries.trans (hperm.map _).symm
  allocated := fun p hp => h.allocated p (hperm.mem_iff.1 hp)
  sized := fun p hp => h.sized p (hperm.mem_iff.1 hp)
  bytes := h.bytes.trans (hperm.map _).sum_eq.symm
  bodyBytes := h.bodyBytes.trans (hperm.map _).sum_eq.symm
  gzipBytes := h.gzipBytes.trans (hperm.map _).sum_eq.symm

theorem moveToFront : Valid (c.moveToFront el) := by
  refine h.of_perm ?_
  split
  · rename_i hel
    exact (perm_cons_erase hel).symm
  · exact List.Perm.refl _

end

theorem total_erase (hel : el ∈ c.order) (size : Slot → ℤ) :
    ((c.order.erase el).map fun p => size (c.heap p)).sum = c.total size - size (c.heap el) := by
  have hsum : c.total size =
      size (c.heap el) + ((c.order.erase el).map fun p => size (c.heap p)).sum :=
    ((perm_cons_erase hel).map _).sum_eq
  rw [hsum]
  omega

theorem heap_update (it : Slot) {p : ℕ} (hp : p ≠ el) :
    update c.heap el it p = c.heap p := update_of_ne hp it c.heap

section
variable (h : Valid c) (hel : el ∈ c.order)
include h hel

theorem dropLocked : Valid (c.dropLocked el) where
  keys := h.keys.sublist (erase_sublist.map _)
  entries := by
    have hperm := h.entries.filter fun p => p.1 != (c.heap el).key
    rw [filter_map] at hperm
    change (c.entries.filter _).Perm ((c.order.erase el).map _)
    rw [h.erase_eq_filter hel]
    exact hperm
  allocated := fun p hp => h.allocated p (mem_of_mem_erase hp)
  sized := fun p hp => h.sized p (mem_of_mem_erase hp)
  bytes := by
    change c.bytes - (c.heap el).size = _
    rw [h.bytes]
    exact (total_erase hel _).symm
  bodyBytes := by
    change c.bodyBytes - (c.heap el).entry.bodyLen = _
    rw [h.bodyBytes]
    exact (total_erase hel _).symm
  gzipBytes := by
    change c.gzipBytes - (c.heap el).entry.gzipLen = _
    rw [h.gzipBytes]
    exact (total_erase hel _).symm

theorem total_assign (it : Slot) (size : Slot → ℤ) :
    (c.assign el it).total size = c.total size - size (c.heap el) + size it := by
  have hsum : (c.assign el it).total size = size (update c.heap el it el) +
      ((c.order.erase el).map fun p => size (update c.heap el it p)).sum :=
    ((perm_cons_erase hel).map _).sum_eq
  have hrest : ((c.order.erase el).map fun p => size (update c.heap el it p)) =
      (c.order.erase el).map fun p => size (c.heap p) := by
    refine map_congr_left fun p hp => ?_
    rw [heap_update it (h.order_nodup.mem_erase_iff.1 hp).1]
  rw [hsum, hrest, total_erase hel, update_self]
  omega

theorem assign (it : Slot) (hkey : it.key = (c.heap el).key) (hsize : it.size = it.entry.size) :
    Valid (((c.subLocked (c.heap el)).assign el it).addLocked it) := by
  have hkeys : ∀ p, (update c.heap el it p).key = (c.heap p).key := by
    intro p
    by_cases hp : p = el
    · rw [hp, update_self, hkey]
    · rw [heap_update it hp]
  have htotal := h.total_assign hel it
  constructor
  · change (c.order.map fun p => (update c.heap el it p).key).Nodup
    simp only [hkeys]
    exact h.keys
  · change c.entries.Perm (c.order.map fun p => ((update c.heap el it p).key, p))
    simp only [hkeys]
    exact h.entries
  · exact h.allocated
  · intro p hp
    change (update c.heap el it p).size = (update c.heap el it p).entry.size
    by_cases hpel : p = el
    · rw [hpel, update_self, hsize]
    rw [heap_update it hpel]
    exact h.sized p hp
  · change c.bytes - (c.heap el).size + it.size = _
    rw [h.bytes]
    exact (htotal _).symm
  · change c.bodyBytes - (c.heap el).entry.bodyLen + it.entry.bodyLen = _
    rw [h.bodyBytes]
    exact (htotal _).symm
  · change c.gzipBytes - (c.heap el).entry.gzipLen + it.entry.gzipLen = _
    rw [h.gzipBytes]
    exact (htotal _).symm

theorem relink (pair : String) : Valid (c.assign el { c.heap el with pair }) := by
  have hvalid := h.assign hel { c.heap el with pair } rfl (h.sized el hel)
  have hsame : ((c.subLocked (c.heap el)).assign el { c.heap el with pair }).addLocked
      { c.heap el with pair } = c.assign el { c.heap el with pair } := by
    simp [Recency.assign, addLocked, subLocked]
  rwa [hsame] at hvalid

end

theorem pushFront (h : Valid c) {it : Slot} (hkey : ∀ p ∈ c.order, (c.heap p).key ≠ it.key)
    (hsize : it.size = it.entry.size) : Valid ((c.pushFront it).addLocked it) := by
  have hold : ∀ p ∈ c.order, update c.heap c.next it p = c.heap p :=
    fun p hp => heap_update it (Nat.ne_of_lt (h.allocated p hp))
  have htotal : ∀ size : Slot → ℤ, (c.pushFront it).total size = size it + c.total size := by
    intro size
    change size (update c.heap c.next it c.next) +
      (c.order.map fun p => size (update c.heap c.next it p)).sum = _
    rw [update_self, map_congr_left fun p hp => by rw [hold p hp]]
    rfl
  have hmap : ∀ {β : Type} (f : Slot → ℕ → β),
      (c.order.map fun p => f (update c.heap c.next it p) p) =
        c.order.map fun p => f (c.heap p) p := by
    intro β f
    exact map_congr_left fun p hp => by rw [hold p hp]
  constructor
  · change ((update c.heap c.next it c.next).key ::
      c.order.map fun p => (update c.heap c.next it p).key).Nodup
    rw [update_self, hmap fun s _ => s.key, nodup_cons, mem_map]
    exact ⟨fun ⟨p, hp, heq⟩ => hkey p hp heq, h.keys⟩
  · change ((it.key, c.next) :: c.entries).Perm
      (((update c.heap c.next it c.next).key, c.next) ::
        c.order.map fun p => ((update c.heap c.next it p).key, p))
    rw [update_self, hmap fun s p => (s.key, p)]
    exact h.entries.cons _
  · intro p hp
    change p < c.next + 1
    rcases mem_cons.1 hp with rfl | hp
    · exact Nat.lt_succ_self _
    · exact Nat.lt_succ_of_lt (h.allocated p hp)
  · intro p hp
    change (update c.heap c.next it p).size =
      (update c.heap c.next it p).entry.size
    rcases mem_cons.1 hp with rfl | hp
    · rw [update_self, hsize]
    rw [hold p hp]
    exact h.sized p hp
  · change c.bytes + it.size = _
    rw [h.bytes, Int.add_comm]
    exact (htotal _).symm
  · change c.bodyBytes + it.entry.bodyLen = _
    rw [h.bodyBytes, Int.add_comm]
    exact (htotal fun s => s.entry.bodyLen).symm
  · change c.gzipBytes + it.entry.gzipLen = _
    rw [h.gzipBytes, Int.add_comm]
    exact (htotal fun s => s.entry.gzipLen).symm

end Valid

/-! ## The recency list of the store -/

/-- What `Publish.Cache` shows of an element. -/
def item (c : Recency) (p : ℕ) : CacheItem :=
  { key := (c.heap p).key, entry := (c.heap p).entry, pair := (c.heap p).pair }

/-- The recency list. -/
def toCache (c : Recency) : Cache :=
  { order := c.order.map c.item, bytes := c.bytes, max := c.max }

section
variable {c : Recency} {key : String} {el : ℕ}

theorem toCache_front (hel : el ∈ c.order) : (c.moveToFront el).toCache =
      { c.toCache with order := c.item el :: (c.order.erase el).map c.item } := by
  have horder : (c.moveToFront el).order = el :: c.order.erase el := if_pos hel
  rw [toCache, horder]
  rfl

theorem map_item {c c' : Recency} {l : List ℕ} (h : ∀ p ∈ l, c'.heap p = c.heap p) :
    l.map c'.item = l.map c.item := by
  refine map_congr_left fun p hp => ?_
  rw [item, h p hp, item]

section
variable (h : Valid c)
include h

/-- **A key is found in both at once.** -/
theorem find_toCache : c.toCache.find key = (c.lookup key).map c.item := by
  cases hlookup : c.lookup key with
  | none =>
    rw [Option.map_none, Cache.find_eq_none]
    intro x hx
    obtain ⟨p, hp, rfl⟩ := mem_map.1 hx
    exact h.lookup_eq_none.1 hlookup p hp
  | some el =>
    obtain ⟨hel, rfl⟩ := h.lookup_eq_some.1 hlookup
    have hkeys : (c.toCache.order.map CacheItem.key).Nodup := by
      rw [toCache, map_map]
      exact h.keys
    exact (find?_eq_some_of_nodup hkeys fun _ => beq_iff_eq.1).2
      ⟨mem_map_of_mem hel, beq_self_eq_true _⟩

theorem find_toCache_none (hlookup : c.lookup key = none) : c.toCache.find key = none := by
  rw [find_toCache h, hlookup, Option.map_none]

theorem find_toCache_key (hel : el ∈ c.order) :
    c.toCache.find (c.heap el).key = some (c.item el) := by
  rw [find_toCache h, h.lookup_eq_some.2 ⟨hel, rfl⟩, Option.map_some]

theorem map_erase (hel : el ∈ c.order) : (c.order.erase el).map c.item =
      c.toCache.order.filter (·.key != (c.heap el).key) := by
  rw [h.erase_eq_filter hel, toCache, filter_map]
  rfl

theorem toCache_moveToFront (hel : el ∈ c.order) :
    (c.moveToFront el).toCache = c.toCache.moveToFront (c.heap el).key := by
  simp only [Cache.moveToFront, find_toCache_key h hel, ← map_erase h hel, toCache_front hel]

theorem toCache_dropLocked (hel : el ∈ c.order) :
    (c.dropLocked el).toCache = c.toCache.dropLocked (c.heap el).key := by
  simp only [Cache.dropLocked, find_toCache_key h hel, ← map_erase h hel]
  have hsize : (c.item el).entry.size = (c.heap el).size := (h.sized el hel).symm
  rw [hsize]
  rfl

theorem get_spec (key : String) :
    Valid (c.get key).1 ∧ (c.get key).1.toCache = (c.toCache.get key).1 ∧
      (c.get key).2 = (c.toCache.get key).2 := by
  cases hlookup : c.lookup key with
  | none =>
    simp only [get, hlookup, Cache.get, find_toCache_none h hlookup]
    exact ⟨h, trivial, trivial⟩
  | some el =>
    obtain ⟨hel, rfl⟩ := h.lookup_eq_some.1 hlookup
    have hfront : Valid (c.moveToFront el) := h.moveToFront
    have hcache := toCache_moveToFront h hel
    have hitem : (c.moveToFront el).heap el = c.heap el := rfl
    have hpair : (c.item el).pair = (c.heap el).pair := rfl
    simp only [get, hlookup, Cache.get, find_toCache_key h hel, hitem, hpair, ← hcache]
    by_cases hp : (c.heap el).pair = ""
    · simp only [hp, ne_eq, not_true_eq_false, if_false, if_true]
      exact ⟨hfront, trivial, rfl⟩
    simp only [hp, ne_eq, not_false_eq_true, if_true, if_false]
    cases htwin : (c.moveToFront el).lookup (c.heap el).pair with
    | none =>
      refine ⟨hfront, ?_, rfl⟩
      rw [Cache.moveToFront, find_toCache hfront, htwin]
      rfl
    | some pel =>
      obtain ⟨hpel, hkey⟩ := hfront.lookup_eq_some.1 htwin
      refine ⟨hfront.moveToFront, ?_, rfl⟩
      rw [toCache_moveToFront hfront hpel, hkey]

theorem putLocked_spec (key : String) (e : Entry) :
    Valid (c.putLocked key e) ∧ (c.putLocked key e).toCache = c.toCache.putLocked key e := by
  cases hlookup : c.lookup key with
  | none =>
    simp only [putLocked, hlookup, Cache.putLocked, find_toCache_none h hlookup]
    refine ⟨h.pushFront (h.lookup_eq_none.1 hlookup) rfl, ?_⟩
    simp only [toCache, pushFront, addLocked, map_cons, Cache.mk.injEq, List.cons.injEq]
    refine ⟨⟨?_, map_item fun p hp => ?_⟩, trivial, trivial⟩
    · simp [item]
    · exact Valid.heap_update _ (Nat.ne_of_lt (h.allocated p hp))
  | some el =>
    obtain ⟨hel, rfl⟩ := h.lookup_eq_some.1 hlookup
    have hvalid := h.assign hel { c.heap el with entry := e, size := e.size } rfl rfl
    simp only [putLocked, hlookup, Cache.putLocked, find_toCache_key h hel]
    refine ⟨hvalid.moveToFront, ?_⟩
    have hsize : (c.item el).entry.size = (c.heap el).size := (h.sized el hel).symm
    rw [← map_erase h hel, hsize, toCache_front (by exact hel)]
    simp only [toCache, Cache.mk.injEq, List.cons.injEq]
    refine ⟨⟨?_, map_item fun p hp => ?_⟩, rfl, rfl⟩
    · simp [item, addLocked, assign]
    · exact Valid.heap_update _ (h.order_nodup.mem_erase_iff.1 hp).1

theorem toCache_drop_assign (pair : String) :
    ((c.assign el { c.heap el with pair }).dropLocked el).toCache = (c.dropLocked el).toCache := by
  simp only [toCache, dropLocked, subLocked, assign, update_self, Cache.mk.injEq]
  exact ⟨map_item fun p hp => Valid.heap_update _ (h.order_nodup.mem_erase_iff.1 hp).1, trivial,
    trivial⟩

/-- `removeLocked` is `deleteLocked` on the recency list, and takes something off the list. -/
theorem removeLocked_spec (hel : el ∈ c.order) : Valid (c.removeLocked el) ∧
      (c.removeLocked el).toCache = c.toCache.deleteLocked (c.heap el).key ∧
      (c.removeLocked el).order.length < c.order.length := by
  have hdrop := h.dropLocked hel
  have hcache := toCache_dropLocked h hel
  have hpair : (c.item el).pair = (c.heap el).pair := rfl
  have hlength : (c.dropLocked el).order.length < c.order.length := by
    have hpos := length_pos_of_mem hel
    have herase := length_erase_of_mem hel
    change (c.order.erase el).length < _
    omega
  simp only [removeLocked, Cache.deleteLocked, find_toCache_key h hel, hpair, ← hcache]
  by_cases hp : (c.heap el).pair = ""
  · simp only [hp, if_true]
    exact ⟨hdrop, trivial, hlength⟩
  simp only [hp, if_false]
  cases htwin : (c.dropLocked el).lookup (c.heap el).pair with
  | none =>
    refine ⟨hdrop, ?_, hlength⟩
    rw [Cache.dropLocked, find_toCache hdrop, htwin]
    rfl
  | some pel =>
    obtain ⟨hpel, hkey⟩ := hdrop.lookup_eq_some.1 htwin
    refine ⟨(hdrop.relink hpel "").dropLocked hpel, ?_, ?_⟩
    · rw [toCache_drop_assign hdrop, toCache_dropLocked hdrop hpel, hkey]
    · exact lt_of_le_of_lt (length_erase_le) hlength

theorem deleteLocked_spec (key : String) :
    Valid (c.deleteLocked key) ∧ (c.deleteLocked key).toCache = c.toCache.deleteLocked key := by
  cases hlookup : c.lookup key with
  | none =>
    simp only [deleteLocked, hlookup, Cache.deleteLocked, find_toCache_none h hlookup]
    exact ⟨h, trivial⟩
  | some el =>
    obtain ⟨hel, rfl⟩ := h.lookup_eq_some.1 hlookup
    obtain ⟨hvalid, hcache, -⟩ := removeLocked_spec h hel
    simp only [deleteLocked, hlookup]
    exact ⟨hvalid, hcache⟩

theorem link_spec (key pair : String) :
    Valid (c.link key pair) ∧ (c.link key pair).toCache = c.toCache.link key pair := by
  cases hlookup : c.lookup key with
  | none =>
    have habsent := h.lookup_eq_none.1 hlookup
    simp only [link, hlookup]
    refine ⟨h, ?_⟩
    have hmap : c.toCache.order.map (fun it => if it.key = key then { it with pair } else it) =
        c.toCache.order := by
      rw [toCache, map_map]
      refine map_congr_left fun p hp => ?_
      exact if_neg (habsent p hp)
    rw [Cache.link, hmap]
  | some el =>
    obtain ⟨hel, rfl⟩ := h.lookup_eq_some.1 hlookup
    simp only [link, hlookup]
    refine ⟨h.relink hel pair, ?_⟩
    refine congrArg (fun order => Cache.mk order c.bytes c.max) ?_
    change c.order.map _ = (c.order.map c.item).map _
    rw [map_map]
    refine map_congr_left fun p hp => ?_
    by_cases hpel : p = el
    · subst hpel
      simp [item, assign]
    have hkey : (c.item p).key ≠ (c.heap el).key := mt (h.eq_of_key hp hel) hpel
    simp only [comp_apply, if_neg hkey]
    simp [item, assign, Valid.heap_update _ hpel]

end

/-! ## Eviction and the ceiling -/

theorem evict_spec {fuel : ℕ} : ∀ {c : Recency}, Valid c →
    Valid (evict fuel c) ∧ (evict fuel c).toCache = Cache.evict fuel c.toCache := by
  induction fuel with
  | zero => exact fun h => ⟨h, rfl⟩
  | succ fuel ih =>
    intro c h
    simp only [evict, Cache.evict]
    change Valid (if c.max < c.bytes then _ else c) ∧ _ = if c.max < c.bytes then _ else c.toCache
    by_cases hover : c.max < c.bytes
    · simp only [hover, if_true]
      have hlast : c.toCache.order.getLast? = c.order.getLast?.map c.item := by
        rw [toCache, getLast?_map]
      rw [hlast]
      cases hback : c.order.getLast? with
      | none => exact ⟨h, rfl⟩
      | some back =>
        obtain ⟨hvalid, hcache, -⟩ := removeLocked_spec h (mem_of_getLast? hback)
        rw [Option.map_some]
        simp only
        have hkey : (c.item back).key = (c.heap back).key := rfl
        rw [hkey, ← hcache]
        exact ih hvalid
    · simp only [hover, if_false]
      exact ⟨h, trivial⟩

theorem evictLocked_spec (h : Valid c) :
    Valid c.evictLocked ∧ c.evictLocked.toCache = c.toCache.evictLocked := by
  have hlength : c.toCache.order.length = c.order.length := length_map _
  simp only [evictLocked, Cache.evictLocked, hlength]
  change Valid (if c.max ≤ 0 then c else _) ∧ _ = if c.max ≤ 0 then c.toCache else _
  by_cases hmax : c.max ≤ 0
  · simp only [hmax, if_true]
    exact ⟨h, trivial⟩
  · simp only [hmax, if_false]
    exact evict_spec h

theorem bytes_evict_le {fuel : ℕ} : ∀ {c : Recency}, Valid c → c.order.length ≤ fuel →
    0 ≤ c.max → (evict fuel c).bytes ≤ c.max := by
  have hempty : ∀ {c : Recency}, Valid c → c.order = [] → 0 ≤ c.max → c.bytes ≤ c.max := by
    intro c h hnil hmax
    rw [h.bytes, total, hnil]
    exact hmax
  induction fuel with
  | zero =>
    intro c h hlength hmax
    exact hempty h (eq_nil_of_length_eq_zero (Nat.le_zero.1 hlength)) hmax
  | succ fuel ih =>
    intro c h hlength hmax
    rw [evict]
    split
    · cases hback : c.order.getLast? with
      | none => exact hempty h (getLast?_eq_none_iff.1 hback) hmax
      | some back =>
        obtain ⟨hvalid, hcache, hless⟩ := removeLocked_spec h (mem_of_getLast? hback)
        have hsame : (c.removeLocked back).max = c.max :=
          (congrArg Cache.max hcache).trans Cache.deleteLocked_le.2
        have hle := ih hvalid (by omega) (by rw [hsame]; exact hmax)
        rw [hsame] at hle
        exact hle
    · omega

/-- **The ceiling.** -/
theorem evictLocked_le (h : Valid c) {max : ℤ} (hmax : c.max = max) :
    c.evictLocked.max = max ∧ (0 < max → c.evictLocked.bytes ≤ max) := by
  subst hmax
  refine ⟨(congrArg Cache.max (evictLocked_spec h).2).trans Cache.max_evictLocked, fun hpos => ?_⟩
  rw [evictLocked, if_neg (by omega)]
  exact bytes_evict_le h (Nat.le_refl _) (by omega)

/-! ## The operations -/

theorem put_spec (h : Valid c) (key : String) (e : Entry) :
    Valid (c.put key e) ∧ (c.put key e).toCache = c.toCache.put key e := by
  obtain ⟨hput, hcache⟩ := putLocked_spec h key e
  rw [put, Cache.put, ← hcache]
  exact evictLocked_spec hput

theorem paired_spec (h : Valid c) (primary bare : String) (e : Entry) :
    Valid ((((c.putLocked primary e).putLocked bare e).link primary bare).link bare primary) ∧
      ((((c.putLocked primary e).putLocked bare e).link primary bare).link bare primary).toCache =
        (((c.toCache.putLocked primary e).putLocked bare e).link primary bare).link bare
          primary := by
  obtain ⟨hprimary, hcache⟩ := putLocked_spec h primary e
  obtain ⟨hbare, hcache'⟩ := putLocked_spec hprimary bare e
  obtain ⟨hlink, hlinked⟩ := link_spec hbare primary bare
  obtain ⟨hlink', hlinked'⟩ := link_spec hlink bare primary
  refine ⟨hlink', ?_⟩
  rw [hlinked', hlinked, hcache', hcache]

theorem putPair_spec (h : Valid c) (primary bare : String) (e : Entry) :
    Valid (c.putPair primary bare e) ∧
      (c.putPair primary bare e).toCache = c.toCache.putPair primary bare e := by
  obtain ⟨hpaired, hcache⟩ := paired_spec h primary bare e
  rw [putPair, Cache.putPair, ← hcache]
  exact evictLocked_spec hpaired

theorem invalidateKey_spec (h : Valid c) (slug key : String) : Valid (invalidateKey slug c key) ∧
      (invalidateKey slug c key).toCache = Cache.invalidateKey slug c.toCache key := by
  have hsome : (c.toCache.find key).isSome = (c.lookup key).isSome := by
    rw [find_toCache h, Option.isSome_map]
  simp only [invalidateKey, Cache.invalidateKey, hsome]
  by_cases hmatch : ((c.lookup key).isSome && Cache.matchesSlug slug key) = true
  · simp only [hmatch, if_true]
    cases hitem : Cache.itemKeyOf slug key with
    | none => exact deleteLocked_spec h key
    | some rest =>
      obtain ⟨hbare, hcache⟩ := deleteLocked_spec h ("item:" ++ rest)
      simp only [← hcache]
      exact deleteLocked_spec hbare key
  · rw [if_neg hmatch, if_neg hmatch]
    exact ⟨h, rfl⟩

theorem foldl_invalidateKey_spec (slug : String) (keys : List String) :
    ∀ {c : Recency}, Valid c → Valid (keys.foldl (invalidateKey slug) c) ∧
      (keys.foldl (invalidateKey slug) c).toCache =
        keys.foldl (Cache.invalidateKey slug) c.toCache := by
  induction keys with
  | nil => exact fun h => ⟨h, rfl⟩
  | cons key keys ih =>
    intro c h
    obtain ⟨hkey, hcache⟩ := invalidateKey_spec h slug key
    rw [foldl_cons, foldl_cons, ← hcache]
    exact ih hkey

/-- `Invalidate` is `Invalidate` on the recency list, for the order of the map. -/
theorem invalidate_spec (h : Valid c) (slug : String) (visit : List String) :
    Valid (c.invalidate slug visit) ∧
      (c.invalidate slug visit).toCache = c.toCache.invalidate slug (c.rangeOrder visit) := by
  have hrange : c.toCache.rangeOrder (c.rangeOrder visit) = c.rangeOrder visit := by
    rw [Cache.rangeOrder, filter_eq_nil_iff.2, append_nil]
    intro key hkey
    obtain ⟨it, hit, rfl⟩ := mem_map.1 hkey
    obtain ⟨p, hp, rfl⟩ := mem_map.1 hit
    have hmem : (c.item p).key ∈ c.entries.map (·.1) :=
      mem_map_of_mem (h.mem_entries.2 ⟨hp, rfl⟩)
    have hvisit : (c.item p).key ∈ c.rangeOrder visit := by
      by_cases hin : (c.item p).key ∈ visit
      · exact mem_append_left _ hin
      · exact mem_append_right _ (mem_filter.2 ⟨hmem, by simpa using hin⟩)
    simpa using hvisit
  obtain ⟨hfold, hcache⟩ := foldl_invalidateKey_spec slug (c.rangeOrder visit) h
  rw [invalidate, Cache.invalidate, hrange, ← hcache]
  exact deleteLocked_spec hfold "index"

theorem invalidateAll_spec (c : Recency) :
    Valid c.invalidateAll ∧ c.invalidateAll.toCache = c.toCache.invalidateAll :=
  ⟨⟨nodup_nil, List.Perm.nil, by simp [invalidateAll], by simp [invalidateAll], rfl, rfl, rfl⟩, rfl⟩

end

end Recency

end AnimeFeedFlux.Publish
