import AnimeFeedFlux.Lib.Machine
import AnimeFeedFlux.Publish.Server
import AnimeFeedFlux.Rpc.Item

/-!
# Is a document served after its invalidation stale?

Requests and writers share the cache and nothing else.  A writer commits and then calls
`Invalidate`; a request that missed reads the store, renders and puts, each at its own
time.  This module interleaves any number of both, step by step, and asks when a request
that arrives after a write and its `Invalidate` are over is answered from a store that
includes the write.

Two things can go wrong.  A request that read before the write may put after the
`Invalidate`, and entries have no expiry.  And a permalink may be cached under a slug the
feed has lost in between, where the `Invalidate` of the new slug does not find it.
-/

namespace AnimeFeedFlux.Publish

open Machine Render List

/-! ## Writes -/

/-- A state of the store.  Slugs are checked when a feed is saved and item keys are
generated, so neither holds a colon. -/
structure Published where
  db : DB
  slugs : ∀ f ∈ db.feeds, NoColon f.slug
  itemKeys : ∀ it ∈ db.items, IsItemKey it.itemKey

/-- The slug of the feed an item belongs to. -/
def itemSlug (db : DB) (itemKey : String) : Option String :=
  match db.items.find? (·.itemKey == itemKey) with
  | none => none
  | some it => (db.feeds.find? (·.id == it.feedID)).map (·.slug)

/-- A committed write: its number, the store states before and after it, and the slug its
writer invalidates. -/
structure Change where
  version : ℕ
  before : Published
  after : Published
  slug : String
  noColon : NoColon slug

/-- The requests a write is about: the documents of its slug, the permalinks of the items
that belong to the slug before or after it, and the index. -/
def Concerns (ch : Change) : Request → Prop
  | .root => True
  | .window slug _ => slug = ch.slug
  | .item itemKey =>
    itemSlug ch.before.db itemKey = some ch.slug ∨ itemSlug ch.after.db itemKey = some ch.slug

instance (ch : Change) (req : Request) : Decidable (Concerns ch req) := by
  cases req <;> unfold Concerns <;> infer_instance

/-! ## The machine -/

/-- How far a request that missed has got.  `first` is the number of the store state its
first read found. -/
inductive Stage
  | missed
  | found (g : Found) (first : ℕ)
  | drawn (m : Material) (first : ℕ)
  | rendered (e : Entry) (m : Material) (first : ℕ)

/-- A request that missed.  `arrived` is the number of the store state at its lookup, `owed`
what had been written and invalidated by then. -/
structure Fill where
  req : Request
  owed : List Change
  arrived : ℕ
  stage : Stage

/-- An answered request. -/
structure Answer where
  req : Request
  owed : List Change
  response : Response

/-- The publish plane with its writers: the store and its past states, the cache, writes
whose `Invalidate` is outstanding and over, requests under way, and answers given. -/
structure Plane where
  past : List Published := []
  store : Published
  cache : Cache := {}
  pending : List Change := []
  completed : List Change := []
  fills : List Fill := []
  answers : List Answer := []

/-- The number of the current store state. -/
def Plane.version (p : Plane) : ℕ := p.past.length

/-- All store states so far. -/
def Plane.history (p : Plane) : List Published := p.past ++ [p.store]

/-- One step.  `write` commits a store state and leaves an `Invalidate` to do for each of
the slugs; `invalidate` does the `i`-th outstanding one; `arrive` is the cache lookup of a
request; `advance` lets the `i`-th request under way take its next step. -/
inductive Move
  | write (s : Published) (slugs : List { slug : String // NoColon slug })
  | invalidate (i : ℕ) (visit : List String)
  | arrive (req : Request)
  | advance (i : ℕ) (now : ℤ)

/-- The next step of a request under way: another stage, or its answer. -/
def Fill.next (deps : Deps) (p : Plane) (now : ℤ) (fill : Fill) : Stage ⊕ Response :=
  match fill.stage with
  | .missed =>
    match firstRead p.store.db fill.req with
    | .error r => .inr r
    | .ok g => .inl (.found g p.version)
  | .found g first =>
    match secondRead p.store.db g with
    | .error r => .inr r
    | .ok m => .inl (.drawn m first)
  | .drawn m first => .inl (.rendered (entryOf deps now m) m first)
  | .rendered e _ _ => .inr (.page e)

/-- The cache after the step: only the last one writes it. -/
def Fill.put (c : Cache) (fill : Fill) : Cache :=
  match fill.stage with
  | .rendered e m _ => store c e m
  | _ => c

/-- One step of the machine. -/
def Plane.step (deps : Deps) (p : Plane) : Move → Plane
  | .write s slugs =>
    { p with
      past := p.past ++ [p.store]
      store := s
      pending := p.pending ++
        slugs.map fun slug => ⟨p.version + 1, p.store, s, slug.1, slug.2⟩ }
  | .invalidate i visit =>
    match p.pending[i]? with
    | none => p
    | some ch =>
      { p with
        cache := p.cache.invalidate ch.slug visit
        pending := p.pending.eraseIdx i
        completed := ch :: p.completed }
  | .arrive req =>
    match p.cache.get req.key with
    | (c, some e) =>
      { p with cache := c, answers := ⟨req, p.completed, .page e⟩ :: p.answers }
    | (c, none) =>
      { p with cache := c, fills := ⟨req, p.completed, p.version, .missed⟩ :: p.fills }
  | .advance i now =>
    match p.fills[i]? with
    | none => p
    | some fill =>
      let cache := fill.put p.cache
      match fill.next deps p now with
      | .inl stage => { p with cache, fills := p.fills.set i { fill with stage } }
      | .inr r =>
        { p with
          cache
          fills := p.fills.eraseIdx i
          answers := ⟨fill.req, fill.owed, r⟩ :: p.answers }

/-! ## The property and the condition -/

/-- The response comes from reads of the store that all include write number `w`. -/
def FreshSince (deps : Deps) (p : Plane) (w : ℕ) (req : Request) (r : Response) : Prop :=
  ∃ i j s₁ s₂ now, w ≤ i ∧ i ≤ j ∧ p.history[i]? = some s₁ ∧ p.history[j]? = some s₂ ∧
    respond deps req s₁.db s₂.db now = r

/-- The item is there and soft-deleted. -/
def SoftDeleted (db : DB) (itemKey : String) : Prop :=
  match getItem db itemKey with
  | .ok (some (_, it)) => isDeleted it = true
  | _ => False

instance (db : DB) (itemKey : String) : Decidable (SoftDeleted db itemKey) := by
  unfold SoftDeleted
  split <;> infer_instance

variable {db : DB} {itemKey : String}

theorem SoftDeleted.firstRead (h : SoftDeleted db itemKey) :
    firstRead db (.item itemKey) = .error .gone := by
  unfold SoftDeleted at h
  split at h
  · rename_i f it hget
    simp [Publish.firstRead, hget, h]
  · exact h.elim

/-- Whoever asked after a write and its `Invalidate` were over was answered from a store that
includes the write; and for an item that is soft-deleted ever since the write, with `410`. -/
def NoStale (deps : Deps) (p : Plane) : Prop :=
  ∀ a ∈ p.answers, ∀ ch ∈ a.owed, Concerns ch a.req →
    FreshSince deps p ch.version a.req a.response ∧
    ∀ itemKey, a.req = .item itemKey →
      (∀ i s, ch.version ≤ i → p.history[i]? = some s → SoftDeleted s.db itemKey) →
      a.response = .gone

/-- What a step must meet.

* A request that puts must not have read before a write about it whose `Invalidate` is
  over.
* When a slug is invalidated, the permalinks of its items must be cached under it. -/
def Timely (p : Plane) : Move → Prop
  | .advance i _ =>
    match p.fills[i]? with
    | some fill =>
      match fill.stage with
      | .rendered _ _ first => ∀ ch ∈ p.completed, Concerns ch fill.req → ch.version ≤ first
      | _ => True
    | none => True
  | .invalidate i _ =>
    match p.pending[i]? with
    | some ch =>
      ∀ it ∈ p.cache.order, ∀ row ∈ ch.before.db.items ++ ch.after.db.items,
        it.key = bareKey row.itemKey → Concerns ch (.item row.itemKey) →
        it.pair = slugItemKey ch.slug row.itemKey
    | none => True
  | _ => True

instance (p : Plane) (move : Move) : Decidable (Timely p move) := by
  unfold Timely
  split
  · split
    · split <;> infer_instance
    · infer_instance
  · split <;> infer_instance
  · infer_instance

/-! ## What the reads and the put of one request do -/

theorem itemSlug_row {slug : String} (h : itemSlug db itemKey = some slug) :
    ∃ row ∈ db.items, row.itemKey = itemKey := by
  simp only [itemSlug] at h
  split at h
  · cases h
  rename_i row hfind
  exact ⟨row, mem_of_find?_eq_some hfind, by simpa using find?_some hfind⟩

variable {ch : Change}

theorem Concerns.row (h : Concerns ch (.item itemKey)) :
    ∃ row ∈ ch.before.db.items ++ ch.after.db.items, row.itemKey = itemKey := by
  cases h with
  | inl hbefore =>
    obtain ⟨row, hrow, hkey⟩ := itemSlug_row hbefore
    exact ⟨row, mem_append_left _ hrow, hkey⟩
  | inr hafter =>
    obtain ⟨row, hrow, hkey⟩ := itemSlug_row hafter
    exact ⟨row, mem_append_right _ hrow, hkey⟩

variable {req : Request}

theorem Concerns.proper (h : Concerns ch req) : req.Proper := by
  cases req with
  | root => trivial
  | window slug kind =>
    have hslug : slug = ch.slug := h
    rw [Request.Proper, hslug]
    exact ch.noColon
  | item itemKey =>
    obtain ⟨row, hrow, rfl⟩ := Concerns.row h
    cases mem_append.mp hrow with
    | inl hbefore => exact ch.before.itemKeys row hbefore
    | inr hafter => exact ch.after.itemKeys row hafter

/-- What a request draws from the store is material for its own document. -/
inductive Draws : Request → Material → Prop
  | feeds (fs : List Feed) : Draws .root (.feeds fs)
  | window {slug : String} (kind : Windowed) (f : Feed) (items : List Item) (h : NoColon slug) :
      Draws (.window slug kind) (.window slug kind f items)
  | item {itemKey : String} {f : Feed} (it : Item) (hslug : NoColon f.slug)
      (hkey : IsItemKey itemKey) : Draws (.item itemKey) (.item itemKey f it)

theorem Draws.proper {m : Material} (h : Draws req m) : req.Proper := by
  cases h with
  | feeds fs => trivial
  | window kind f items hslug => exact hslug
  | item it hslug hkey => exact hkey

theorem draws_of_reads {s : Published} {g : Found} {m : Material} (h₁ : firstRead s.db req = .ok g)
    (h₂ : secondRead db g = .ok m) : Draws req m := by
  cases req with
  | root =>
    simp only [firstRead] at h₁
    split at h₁
    · cases h₁
    cases h₁
    cases h₂
    exact .feeds _
  | window slug kind =>
    simp only [firstRead] at h₁
    split at h₁
    · cases h₁
    · cases h₁
    · rename_i f hget
      cases h₁
      simp only [secondRead] at h₂
      split at h₂
      · cases h₂
      cases h₂
      obtain ⟨row, hrow, rfl, -⟩ := getFeedBySlug_ok hget
      exact .window kind f _ (s.slugs row hrow)
  | item itemKey =>
    simp only [firstRead] at h₁
    split at h₁
    · cases h₁
    · cases h₁
    · rename_i f it hget
      split at h₁
      · cases h₁
      cases h₁
      cases h₂
      obtain ⟨⟨row, hrow, rfl⟩, feed, hfeed, hslug⟩ := getItem_ok hget
      exact .item it (hslug ▸ s.slugs feed hfeed) (s.itemKeys row hrow)

section
variable {c : Cache} {e : Entry} {req : Request} {m : Material}

/-- The items there can be, under any slug. -/
def itemScheme : Scheme where
  slug := NoColon
  owns s k := NoColon s ∧ IsItemKey k
  noColon h := h
  owned h := h.1
  apart hs hk := slugItemKey_ne_bareKey hs hk.2.1

/-- The links of a cache. -/
abbrev Linked (c : Cache) : Prop := Links itemScheme (fun _ _ => True) c.pairOf

theorem linked_store (hl : Linked c) (h : Draws req m) : Linked (store c e m) := by
  cases h with
  | feeds fs =>
    exact hl.cachePut (fun s k hs => Request.key_ne_slugItemKey (r := .root) trivial hs)
      (fun s k _ => (bareKey_ne_index k).symm) e
  | window kind f items hslug =>
    exact hl.cachePut (fun s k hs => Request.key_ne_slugItemKey (r := .window _ kind) hslug hs)
      (fun s k hk => Windowed.key_ne_bareKey hslug hk.2) e
  | item it hslug hkey => exact hl.cachePutPair ⟨hslug, hkey⟩ trivial (fun _ _ _ h => h) e

/-- What is in the cache after the put: what was there, and the new document under the key
of the request and perhaps under one that no request looks up. -/
theorem mem_store {it : CacheItem} (h : Draws req m) (hit : it ∈ (store c e m).order) :
    (∃ x ∈ c.order, x.key = it.key ∧ x.entry = it.entry) ∨ (it.entry = e ∧
        (it.key = req.key ∨ ∃ slug k, NoColon slug ∧ it.key = slugItemKey slug k)) := by
  have hput : ∀ key, it ∈ (c.put key e).order →
      (∃ x ∈ c.order, x.key = it.key ∧ x.entry = it.entry) ∨ (it.entry = e ∧ it.key = key) := by
    intro key hit
    cases Cache.mem_put hit with
    | inl hold => exact Or.inl ⟨it, hold.1, rfl, rfl⟩
    | inr hnew => exact Or.inr hnew.symm
  cases h with
  | feeds fs => exact (hput _ hit).imp_right fun hnew => ⟨hnew.1, Or.inl hnew.2⟩
  | window kind f items hslug => exact (hput _ hit).imp_right fun hnew => ⟨hnew.1, Or.inl hnew.2⟩
  | item it' hslug hkey =>
    refine (Cache.mem_putPair hit).imp_right fun hnew => ⟨hnew.2, ?_⟩
    cases hnew.1 with
    | inl hprimary => exact Or.inr ⟨_, _, hslug, hprimary⟩
    | inr hbare => exact Or.inl hbare
end

/-! ## Histories -/

section
variable {deps : Deps} {p p' : Plane}

/-- The later plane knows every store state of the earlier one. -/
def Extends (p p' : Plane) : Prop :=
  ∀ (i : ℕ) (s : Published), p.history[i]? = some s → p'.history[i]? = some s

variable {w : ℕ} {req : Request} {r : Response} {first : ℕ} {e : Entry} {m : Material}

theorem FreshSince.mono (he : Extends p p') (h : FreshSince deps p w req r) :
    FreshSince deps p' w req r := by
  obtain ⟨i, j, s₁, s₂, now, hw, hij, hi, hj, hr⟩ := h
  exact ⟨i, j, s₁, s₂, now, hw, hij, he i s₁ hi, he j s₂ hj, hr⟩

theorem history_version (p : Plane) : p.history[p.version]? = some p.store := by
  simp [Plane.history, Plane.version]

theorem le_version {i : ℕ} {s : Published} (h : p.history[i]? = some s) : i ≤ p.version := by
  obtain ⟨hlt, -⟩ := List.getElem?_eq_some_iff.mp h
  simp only [Plane.history, length_append, length_singleton] at hlt
  rw [Plane.version]
  omega

theorem FreshSince.gone {itemKey : String} (h : FreshSince deps p w (.item itemKey) r)
    (hdel : ∀ i s, w ≤ i → p.history[i]? = some s → SoftDeleted s.db itemKey) : r = .gone := by
  obtain ⟨i, j, s₁, s₂, now, hw, -, hi, -, rfl⟩ := h
  simp [respond, (hdel i s₁ hw hi).firstRead]

/-- What the stage of a request says about the reads behind it. -/
def Stage.Reached (deps : Deps) (p : Plane) (req : Request) (arrived : ℕ) : Stage → Prop
  | .missed => True
  | .found g first =>
    arrived ≤ first ∧ ∃ s, p.history[first]? = some s ∧ firstRead s.db req = .ok g
  | .drawn m first =>
    arrived ≤ first ∧ ∃ j s₁ s₂ g, first ≤ j ∧ p.history[first]? = some s₁ ∧
      p.history[j]? = some s₂ ∧ firstRead s₁.db req = .ok g ∧ secondRead s₂.db g = .ok m
  | .rendered e m first =>
    arrived ≤ first ∧ ∃ j s₁ s₂ g now, first ≤ j ∧ p.history[first]? = some s₁ ∧
      p.history[j]? = some s₂ ∧ firstRead s₁.db req = .ok g ∧ secondRead s₂.db g = .ok m ∧
      e = entryOf deps now m

variable {arrived : ℕ}

theorem Stage.Reached.mono {stage : Stage} (he : Extends p p')
    (h : stage.Reached deps p req arrived) : stage.Reached deps p' req arrived := by
  cases stage with
  | missed => trivial
  | found g first =>
    obtain ⟨hle, s, hs, hg⟩ := h
    exact ⟨hle, s, he _ _ hs, hg⟩
  | drawn m first =>
    obtain ⟨hle, j, s₁, s₂, g, hj, h₁, h₂, hreads⟩ := h
    exact ⟨hle, j, s₁, s₂, g, hj, he _ _ h₁, he _ _ h₂, hreads⟩
  | rendered e m first =>
    obtain ⟨hle, j, s₁, s₂, g, now, hj, h₁, h₂, hreads⟩ := h
    exact ⟨hle, j, s₁, s₂, g, now, hj, he _ _ h₁, he _ _ h₂, hreads⟩

theorem Stage.Reached.fresh (h : (Stage.rendered e m first).Reached deps p req arrived)
    (hw : w ≤ first) : FreshSince deps p w req (.page e) := by
  obtain ⟨-, j, s₁, s₂, g, now, hj, h₁, h₂, hg, hm, rfl⟩ := h
  exact ⟨first, j, s₁, s₂, now, hw, hj, h₁, h₂, by simp [respond, hg, hm]⟩

theorem Stage.Reached.draws (h : (Stage.rendered e m first).Reached deps p req arrived) :
    Draws req m := by
  obtain ⟨-, j, s₁, s₂, g, now, -, -, -, hg, hm, -⟩ := h
  exact draws_of_reads hg hm

/-- One step of a request under way: a stage that was reached, or an answer that is fresh
for everything written before the request arrived. -/
theorem Fill.next_spec {fill : Fill} (now : ℤ) (ha : fill.arrived ≤ p.version)
    (h : fill.stage.Reached deps p fill.req fill.arrived) :
    match fill.next deps p now with
    | .inl stage => stage.Reached deps p fill.req fill.arrived
    | .inr r => ∀ w ≤ fill.arrived, FreshSince deps p w fill.req r := by
  have hnow := history_version p
  cases hs : fill.stage with
  | missed =>
    simp only [Fill.next, hs]
    cases hg : firstRead p.store.db fill.req with
    | error r =>
      intro w hw
      refine ⟨p.version, p.version, p.store, p.store, now, hw.trans ha, le_refl _, hnow, hnow, ?_⟩
      simp [respond, hg]
    | ok g => exact ⟨ha, p.store, hnow, hg⟩
  | found g first =>
    rw [hs] at h
    obtain ⟨hle, s, hfirst, hg⟩ := h
    simp only [Fill.next, hs]
    cases hm : secondRead p.store.db g with
    | error r =>
      intro w hw
      refine ⟨first, p.version, s, p.store, now, hw.trans hle, le_version hfirst, hfirst, hnow, ?_⟩
      simp [respond, hg, hm]
    | ok m => exact ⟨hle, p.version, s, p.store, g, le_version hfirst, hfirst, hnow, hg, hm⟩
  | drawn m first =>
    rw [hs] at h
    obtain ⟨hle, j, s₁, s₂, g, hj, h₁, h₂, hg, hm⟩ := h
    simp only [Fill.next, hs]
    exact ⟨hle, j, s₁, s₂, g, now, hj, h₁, h₂, hg, hm, rfl⟩
  | rendered e m first =>
    rw [hs] at h
    simp only [Fill.next, hs]
    intro w hw
    exact h.fresh (hw.trans h.1)
end

/-! ## The invariant -/

/-- The cache holds nothing that is stale for a write whose `Invalidate` is over, and every
request under way has come by its material honestly. -/
structure Coherent (deps : Deps) (p : Plane) : Prop where
  links : Linked p.cache
  cached : ∀ it ∈ p.cache.order, ∀ ch ∈ p.completed, ∀ req : Request, req.key = it.key →
    Concerns ch req → FreshSince deps p ch.version req (.page it.entry)
  completed : ∀ ch ∈ p.completed, ch.version ≤ p.version
  pending : ∀ ch ∈ p.pending, ch.version ≤ p.version
  fills : ∀ fill ∈ p.fills, fill.arrived ≤ p.version ∧
    (∀ ch ∈ fill.owed, ch.version ≤ fill.arrived) ∧
    fill.stage.Reached deps p fill.req fill.arrived
  answers : ∀ a ∈ p.answers, ∀ ch ∈ a.owed, Concerns ch a.req →
    FreshSince deps p ch.version a.req a.response

theorem Coherent.noStale {deps : Deps} {p : Plane} (h : Coherent deps p) : NoStale deps p := by
  intro a ha ch hch hc
  have hfresh := h.answers a ha ch hch hc
  refine ⟨hfresh, fun itemKey hreq hdel => ?_⟩
  rw [hreq] at hfresh
  exact hfresh.gone hdel

section
variable {deps : Deps} {p : Plane}

variable (h : Coherent deps p)
include h

theorem Coherent.write (s : Published)
    (slugs : List { slug : String // NoColon slug }) :
    Coherent deps (p.step deps (.write s slugs)) := by
  have hext : Extends p (p.step deps (.write s slugs)) := by
    intro i s' hi
    have hlt := (List.getElem?_eq_some_iff.mp hi).1
    simp only [Plane.history, Plane.step] at hi hlt ⊢
    rw [getElem?_append_left hlt]
    exact hi
  have hver : (p.step deps (.write s slugs)).version = p.version + 1 := by
    simp [Plane.step, Plane.version]
  constructor
  · exact h.links
  · intro it hit ch hch req hkey hc
    exact (h.cached it hit ch hch req hkey hc).mono hext
  · intro ch hch
    rw [hver]
    exact (h.completed ch hch).trans (Nat.le_succ _)
  · intro ch hch
    rw [hver]
    simp only [Plane.step, mem_append, mem_map] at hch
    rcases hch with hold | ⟨slug, -, rfl⟩
    · exact (h.pending ch hold).trans (Nat.le_succ _)
    · exact le_refl _
  · intro fill hfill
    obtain ⟨harr, howed, hreached⟩ := h.fills fill hfill
    rw [hver]
    exact ⟨harr.trans (Nat.le_succ _), howed, hreached.mono hext⟩
  · intro a ha ch hch hc
    exact (h.answers a ha ch hch hc).mono hext

theorem Coherent.invalidate (i : ℕ) (visit : List String)
    (ht : Timely p (.invalidate i visit)) : Coherent deps (p.step deps (.invalidate i visit)) := by
  cases hi : p.pending[i]? with
  | none => simpa only [Plane.step, hi] using h
  | some ch =>
    have hch : ch ∈ p.pending := mem_of_getElem? hi
    simp only [Plane.step, hi]
    constructor
    · exact h.links.invalidate _ visit
    · intro it hit ch' hch' req hkey hc
      obtain ⟨hold, hmatch, hindex⟩ := Cache.mem_invalidate hit
      cases mem_cons.mp hch' with
      | inr hdone => exact h.cached it hold ch' hdone req hkey hc
      | inl heq =>
        -- Nothing this write is about is left in the cache.
        subst heq
        cases req with
        | root => exact absurd hkey.symm hindex
        | window slug kind =>
          have hslug : slug = ch'.slug := hc
          rw [← hkey, Request.key, hslug, Windowed.matchesSlug_key] at hmatch
          cases hmatch
        | item itemKey =>
          refine absurd hkey.symm
            (Cache.bareKey_notMem_invalidate h.links ⟨"", by decide, hc.proper⟩ ?_ it hit)
          intro x hx hxkey
          obtain ⟨row, hrow, rfl⟩ := Concerns.row hc
          simp only [Timely, hi] at ht
          exact ht x hx row hrow hxkey hc
    · intro ch' hch'
      cases mem_cons.mp hch' with
      | inl heq => exact heq ▸ h.pending ch hch
      | inr hdone => exact h.completed ch' hdone
    · intro ch' hch'
      exact h.pending ch' (mem_of_mem_eraseIdx hch')
    · exact h.fills
    · exact h.answers

theorem Coherent.arrive (req : Request) : Coherent deps (p.step deps (.arrive req)) := by
  have hcached : ∀ it ∈ (p.cache.get req.key).1.order, it ∈ p.cache.order :=
    fun it => Cache.mem_get
  have hlinks : Linked (p.cache.get req.key).1 := h.links.get
  cases hget : p.cache.get req.key with
  | mk c hit =>
    rw [hget] at hcached hlinks
    cases hit with
    | some e =>
      simp only [Plane.step, hget]
      refine ⟨hlinks, fun it hit => h.cached it (hcached it hit), h.completed, h.pending,
        h.fills, ?_⟩
      intro a ha ch hch hc
      cases mem_cons.mp ha with
      | inr hold => exact h.answers a hold ch hch hc
      | inl heq =>
        subst heq
        obtain ⟨x, hx, hkey, rfl⟩ := Cache.get_eq_some (congrArg Prod.snd hget)
        exact h.cached x hx ch hch req hkey.symm hc
    | none =>
      simp only [Plane.step, hget]
      refine ⟨hlinks, fun it hit => h.cached it (hcached it hit), h.completed, h.pending,
        ?_, h.answers⟩
      intro fill hfill
      cases mem_cons.mp hfill with
      | inr hold => exact h.fills fill hold
      | inl heq =>
        subst heq
        exact ⟨le_refl _, h.completed, trivial⟩

theorem Coherent.put {fill : Fill}
    (hreached : fill.stage.Reached deps p fill.req fill.arrived)
    (ht : ∀ e m first, fill.stage = .rendered e m first →
      ∀ ch ∈ p.completed, Concerns ch fill.req → ch.version ≤ first) :
    Linked (fill.put p.cache) ∧
      ∀ it ∈ (fill.put p.cache).order, ∀ ch ∈ p.completed, ∀ req : Request, req.key = it.key →
        Concerns ch req → FreshSince deps p ch.version req (.page it.entry) := by
  cases hs : fill.stage with
  | missed => simpa only [Fill.put, hs] using ⟨h.links, h.cached⟩
  | found g first => simpa only [Fill.put, hs] using ⟨h.links, h.cached⟩
  | drawn m first => simpa only [Fill.put, hs] using ⟨h.links, h.cached⟩
  | rendered e m first =>
    rw [hs] at hreached
    have hdraws := hreached.draws
    simp only [Fill.put, hs]
    refine ⟨linked_store h.links hdraws, ?_⟩
    intro it hit ch hch req hkey hc
    rcases mem_store hdraws hit with ⟨x, hx, hxkey, hxe⟩ | ⟨rfl, hreq | ⟨slug, k, hslug, hk⟩⟩
    · rw [← hxe]
      exact h.cached x hx ch hch req (hkey.trans hxkey.symm) hc
    · -- The new document: the request it was rendered for is the one looked up.
      have heq : req = fill.req :=
        Request.key_inj hc.proper hdraws.proper (hkey.trans hreq)
      subst heq
      exact hreached.fresh (ht _ _ _ hs ch hch hc)
    · exact absurd (hkey.trans hk) (Request.key_ne_slugItemKey hc.proper hslug)

theorem Coherent.advance (i : ℕ) (now : ℤ)
    (ht : Timely p (.advance i now)) : Coherent deps (p.step deps (.advance i now)) := by
  cases hi : p.fills[i]? with
  | none => simpa only [Plane.step, hi] using h
  | some fill =>
    obtain ⟨harr, howed, hreached⟩ := h.fills fill (mem_of_getElem? hi)
    have hspec := Fill.next_spec now harr hreached
    have hput := h.put hreached fun e m first hs => by
      simpa only [Timely, hi, hs] using ht
    simp only [Plane.step, hi]
    cases hn : fill.next deps p now with
    | inl stage =>
      rw [hn] at hspec
      refine ⟨hput.1, hput.2, h.completed, h.pending, ?_, h.answers⟩
      intro fill' hfill'
      cases mem_or_eq_of_mem_set hfill' with
      | inl hold => exact h.fills fill' hold
      | inr heq => exact heq ▸ ⟨harr, howed, hspec⟩
    | inr r =>
      rw [hn] at hspec
      refine ⟨hput.1, hput.2, h.completed, h.pending, ?_, ?_⟩
      · intro fill' hfill'
        exact h.fills fill' (mem_of_mem_eraseIdx hfill')
      intro a ha ch hch hc
      cases mem_cons.mp ha with
      | inr hold => exact h.answers a hold ch hch hc
      | inl heq =>
        subst heq
        exact hspec ch.version (howed ch hch)

theorem Coherent.step {move : Move} (ht : Timely p move) : Coherent deps (p.step deps move) := by
  cases move with
  | write s slugs => exact h.write s slugs
  | invalidate i visit => exact h.invalidate i visit ht
  | arrive req => exact h.arrive req
  | advance i now => exact h.advance i now ht

omit h in
theorem coherent_init (deps : Deps) (s : Published) (max : ℤ) :
    Coherent deps { store := s, cache := { max } } := by
  constructor
  · exact Links.empty fun _ => rfl
  all_goals simp
end

/-- **No stale answer** when no request puts a document it read too early and permalinks are
cached under the slug that is invalidated. -/
theorem always_noStale (deps : Deps) (s : Published) (max : ℤ) (moves : List Move)
    (h : Meets (Plane.step deps) Timely { store := s, cache := { max } } moves) :
    Always (Plane.step deps) (NoStale deps) { store := s, cache := { max } } moves := by
  have hcoherent :
      Always (Plane.step deps) (Coherent deps) { store := s, cache := { max } } moves :=
    always_of_meets (fun _ _ hp ht => hp.step ht) moves _ (coherent_init deps s max) h
  exact hcoherent.mono fun _ hp => hp.noStale

/-! ## Two runs -/

/-- A feed with one item. -/
def quizStore : Published where
  db :=
    { feeds := [{ id := 1, slug := "quiz", title := "Quiz", kind := .generative, enabled := true,
                  createdAt := march2026, updatedAt := march2026 }]
      items := [{ id := 1, feedID := 1, itemKey := "01KN2M0000QV1Z7J3C5D8E9FGH",
                  contentHash := ⟨"capital of japan"⟩, title := "Capital of Japan?",
                  publishedAt := march2026, origin := .generated }] }
  slugs := by decide
  itemKeys := by decide

/-- The same store after `ItemServer.Delete`. -/
def quizStoreDeleted : Published where
  db := (deleteItem quizStore.db 1 1 march2026).1
  slugs := by decide
  itemKeys := by decide

/-- The publish plane of a fresh process. -/
def quizPlane : Plane := { store := quizStore, cache := { max := 1000 } }

def quizDeps : Deps where
  baseURL := "https://feeds.example"
  tagYear := 2026
  lengths := fun _ => (100, 60)

def quizItem : Request := .item "01KN2M0000QV1Z7J3C5D8E9FGH"

def quizSlug : { slug : String // NoColon slug } := ⟨"quiz", by decide⟩

/-- The permalink is asked for and rendered, the item is deleted and the feed invalidated, the
rendered page is put, and the permalink is asked for again. -/
def deletedMeanwhile : List Move :=
  [.arrive quizItem, .advance 0 march2026, .advance 0 march2026, .advance 0 march2026,
   .write quizStoreDeleted [quizSlug], .invalidate 0 [], .advance 0 march2026, .arrive quizItem]

/-- The same with the put before the deletion. -/
def deletedAfterwards : List Move :=
  [.arrive quizItem, .advance 0 march2026, .advance 0 march2026, .advance 0 march2026,
   .advance 0 march2026, .write quizStoreDeleted [quizSlug], .invalidate 0 [], .arrive quizItem,
   .advance 0 march2026]

/-- When nothing was written since, a permalink of an item that is soft-deleted answers
`410`. -/
theorem NoStale.gone {deps : Deps} {p : Plane} (h : NoStale deps p) {a : Answer}
    (ha : a ∈ p.answers) (hch : ch ∈ a.owed) (hreq : a.req = .item itemKey) (hc : Concerns ch a.req)
    (hlast : p.version ≤ ch.version) (hdel : SoftDeleted p.store.db itemKey) :
    a.response = .gone := by
  refine (h a ha ch hch hc).2 itemKey hreq ?_
  intro i s hi hs
  have hnow : i = p.version := le_antisymm (le_version hs) (hlast.trans hi)
  rw [hnow, history_version] at hs
  cases hs
  exact hdel

/-- The run with the late put serves the page of the deleted item. -/
theorem not_noStale_deletedMeanwhile :
    ¬ Always (Plane.step quizDeps) (NoStale quizDeps) quizPlane deletedMeanwhile := by
  intro h
  have hpage : ∃ a ∈ (exec (Plane.step quizDeps) quizPlane deletedMeanwhile).answers,
      ∃ ch ∈ a.owed, a.req = quizItem ∧ Concerns ch a.req ∧
        (exec (Plane.step quizDeps) quizPlane deletedMeanwhile).version ≤ ch.version ∧
        SoftDeleted (exec (Plane.step quizDeps) quizPlane deletedMeanwhile).store.db
          "01KN2M0000QV1Z7J3C5D8E9FGH" ∧ a.response ≠ .gone := by
    decide +kernel
  obtain ⟨a, ha, ch, hch, hreq, hc, hlast, hdel, hne⟩ := hpage
  exact hne (h.last.gone ha hch hreq hc hlast hdel)

/-- The run with the put in time is covered, and its last answer is `410`. -/
theorem always_noStale_deletedAfterwards :
    Meets (Plane.step quizDeps) Timely quizPlane deletedAfterwards ∧
    Always (Plane.step quizDeps) (NoStale quizDeps) quizPlane deletedAfterwards ∧
    ((exec (Plane.step quizDeps) quizPlane deletedAfterwards).answers.map (·.response)).head? =
      some .gone := by
  have hmeets : Meets (Plane.step quizDeps) Timely quizPlane deletedAfterwards := by
    decide +kernel
  exact ⟨hmeets, always_noStale quizDeps quizStore 1000 deletedAfterwards hmeets, by decide +kernel⟩

end AnimeFeedFlux.Publish
