import AnimeFeedFlux.Publish.Keys

/-!
# The publish plane

A request is answered from the cache or from the store.  On a miss the handler reads the
store once or twice, renders, puts the document into the cache and answers; nothing ties
these steps together.  Routing, conditional requests and compression are left out: a
`Request` is what the path and the query of a `GET` come down to.
-/

namespace AnimeFeedFlux.Publish

open Render

/-- `publish.Deps`, with the base URL in effect.  `lengths` are the lengths of a serialised
page and of its compressed form. -/
structure Deps where
  baseURL : String
  tagYear : ℤ
  generator : String := ""
  docsURL : String := ""
  lengths : Page → ℕ × ℕ := fun _ => (0, 0)

def tagYearFor (deps : Deps) (f : Feed) : ℤ :=
  if Time.isZero f.createdAt then deps.tagYear else Time.year f.createdAt

/-- The documents that are made of a feed and its window of items. -/
inductive Windowed
  | feed (format : Format)
  | embed (o : EmbedOptions)
  deriving DecidableEq, Repr

/-- A request the publish plane has a document for. -/
inductive Request
  | root
  | window (slug : String) (kind : Windowed)
  | item (itemKey : String)
  deriving DecidableEq, Repr

/-- `GET /feeds/{slug}.{format}`. -/
def handleFeed (slug : String) (format : Format) : Request := .window slug (.feed format)

/-- `GET /embed/{slug}`. -/
def handleEmbed (slug : String) (o : EmbedOptions) : Request := .window slug (.embed o)

/-- The key of a document of a slug. -/
def Windowed.key (slug : String) : Windowed → String
  | .feed format => feedKey slug format
  | .embed o => embedKey slug o

/-- The key a request looks up. -/
def Request.key : Request → String
  | .root => "index"
  | .window slug kind => kind.key slug
  | .item itemKey => bareKey itemKey

/-- A request for something that can exist: slugs and item keys are as they are generated. -/
def Request.Proper : Request → Prop
  | .root => True
  | .window slug _ => NoColon slug
  | .item itemKey => IsItemKey itemKey

theorem noColon_count (o : EmbedOptions) : NoColon (toString o.count) := by
  have hall : ∀ n ∈ embedCounts, NoColon (toString n) := by decide
  exact hall o.count o.valid

theorem count_inj {o o' : EmbedOptions} (h : toString o.count = toString o'.count) :
    o.count = o'.count := by
  have hall : ∀ n ∈ embedCounts, ∀ m ∈ embedCounts, toString n = toString m → n = m := by decide
  exact hall o.count o.valid o'.count o'.valid h

theorem ext_inj {f f' : Format} (h : f.ext = f'.ext) : f = f' := by
  cases f <;> cases f' <;> first | rfl | exact absurd h (by decide)

theorem theme_inj {t t' : EmbedTheme} (h : t.text = t'.text) : t = t' := by
  cases t <;> cases t' <;> first | rfl | exact absurd h (by decide)

/-- The key of a windowed document: its slug, a colon, and a tail that tells the kind. -/
theorem Windowed.key_inj {slug slug' : String} {kind kind' : Windowed} (hs : NoColon slug)
    (hs' : NoColon slug') (h : kind.key slug = kind'.key slug') : slug = slug' ∧ kind = kind' := by
  cases kind with
  | feed format =>
    cases kind' with
    | feed format' =>
      simp only [Windowed.key, feedKey_eq] at h
      obtain ⟨hslug, hext⟩ := colon_inj hs hs' h
      exact ⟨hslug, by rw [ext_inj hext]⟩
    | embed o' =>
      simp only [Windowed.key, feedKey_eq, embedKey_eq] at h
      have hcolon := noColon_ext format
      rw [(colon_inj hs hs' h).2] at hcolon
      exact absurd hcolon (not_noColon_append _ _)
  | embed o =>
    cases kind' with
    | feed format' =>
      simp only [Windowed.key, feedKey_eq, embedKey_eq] at h
      have hcolon := noColon_ext format'
      rw [← (colon_inj hs hs' h).2] at hcolon
      exact absurd hcolon (not_noColon_append _ _)
    | embed o' =>
      simp only [Windowed.key, embedKey_eq] at h
      obtain ⟨hslug, htail⟩ := colon_inj hs hs' h
      obtain ⟨hcount, htheme⟩ := colon_inj (noColon_count o) (noColon_count o')
        (colon_inj noColon_embed noColon_embed htail).2
      have hopts : o = o' := by
        have hc := count_inj hcount
        have ht := theme_inj htheme
        cases o
        cases o'
        cases hc
        cases ht
        rfl
      exact ⟨hslug, by rw [hopts]⟩

theorem Windowed.key_ne_bareKey {slug k : String} {kind : Windowed} (hs : NoColon slug)
    (hk : IsItemKey k) : kind.key slug ≠ bareKey k := by
  intro h
  cases kind with
  | feed format =>
    simp only [Windowed.key, feedKey_eq, bareKey_eq] at h
    have hlen := hk.2
    rw [← (colon_inj hs noColon_item h).2] at hlen
    cases format <;> exact absurd hlen (by decide)
  | embed o =>
    simp only [Windowed.key, embedKey_eq, bareKey_eq] at h
    have hcolon := hk.1
    rw [← (colon_inj hs noColon_item h).2] at hcolon
    exact not_noColon_append _ _ hcolon

theorem Windowed.key_ne_index (slug : String) (kind : Windowed) : kind.key slug ≠ "index" := by
  have hindex : NoColon "index" := by decide
  intro h
  rw [← h] at hindex
  cases kind with
  | feed format =>
    rw [Windowed.key, feedKey_eq] at hindex
    exact not_noColon_append _ _ hindex
  | embed o =>
    rw [Windowed.key, embedKey_eq] at hindex
    exact not_noColon_append _ _ hindex

theorem Windowed.matchesSlug_key (slug : String) (kind : Windowed) :
    Cache.matchesSlug slug (kind.key slug) := by
  cases kind with
  | feed format =>
    rw [Windowed.key, feedKey_eq]
    exact Cache.matchesSlug_append _ _
  | embed o =>
    rw [Windowed.key, embedKey_eq]
    exact Cache.matchesSlug_append _ _

theorem bareKey_ne_index (k : String) : bareKey k ≠ "index" := by
  have hindex : NoColon "index" := by decide
  intro h
  rw [← h, bareKey_eq] at hindex
  exact not_noColon_append _ _ hindex

/-- **Two requests that can exist share a key only if they are the same.** -/
theorem Request.key_inj {r r' : Request} (hr : r.Proper) (hr' : r'.Proper)
    (h : r.key = r'.key) : r = r' := by
  cases r with
  | root =>
    cases r' with
    | root => rfl
    | window slug' kind' => exact absurd h.symm (Windowed.key_ne_index _ _)
    | item k' => exact absurd h.symm (bareKey_ne_index _)
  | window slug kind =>
    cases r' with
    | root => exact absurd h (Windowed.key_ne_index _ _)
    | window slug' kind' =>
      obtain ⟨hslug, hkind⟩ := Windowed.key_inj hr hr' h
      rw [hslug, hkind]
    | item k' => exact absurd h (Windowed.key_ne_bareKey hr hr')
  | item k =>
    cases r' with
    | root => exact absurd h (bareKey_ne_index _)
    | window slug' kind' => exact absurd h.symm (Windowed.key_ne_bareKey hr' hr)
    | item k' => rw [bareKey_inj h]

theorem Request.key_ne_slugItemKey {r : Request} (hr : r.Proper) {slug k : String}
    (hs : NoColon slug) : r.key ≠ slugItemKey slug k := by
  intro h
  cases r with
  | root =>
    have hindex : NoColon "index" := by decide
    rw [show ("index" : String) = slugItemKey slug k from h, slugItemKey_eq] at hindex
    exact not_noColon_append _ _ hindex
  | window slug' kind =>
    cases kind with
    | feed format =>
      simp only [Request.key, Windowed.key, feedKey_eq, slugItemKey_eq] at h
      have hcolon := noColon_ext format
      rw [(colon_inj hr hs h).2] at hcolon
      exact not_noColon_append _ _ hcolon
    | embed o =>
      simp only [Request.key, Windowed.key, embedKey_eq, slugItemKey_eq] at h
      have hword := (colon_inj noColon_embed noColon_item (colon_inj hr hs h).2).1
      exact absurd hword (by decide)
  | item k' => exact slugItemKey_ne_bareKey hs hr.1 h.symm

/-- What a client gets. -/
inductive Response
  | page (e : Entry)
  | notFound
  | gone
  | internalError
  deriving DecidableEq, Repr

def isDeleted (it : Item) : Bool := it.deletedAt.any fun t => !Time.isZero t

/-! ## The steps of a miss -/

/-- What the first read of the store brings. -/
inductive Found
  | feeds (fs : List Feed)
  | feed (slug : String) (kind : Windowed) (f : Feed)
  | item (itemKey : String) (f : Feed) (it : Item)
  deriving DecidableEq, Repr

/-- What a document is rendered from. -/
inductive Material
  | feeds (fs : List Feed)
  | window (slug : String) (kind : Windowed) (f : Feed) (items : List Item)
  | item (itemKey : String) (f : Feed) (it : Item)
  deriving DecidableEq, Repr

/-- `ListFeeds`, `GetFeed` or `GetItem`. -/
def firstRead (db : DB) : Request → Except Response Found
  | .root =>
    match listFeeds db with
    | .error _ => .error .internalError
    | .ok fs => .ok (.feeds fs)
  | .window slug kind =>
    match getFeedBySlug db slug with
    | .error _ => .error .internalError
    | .ok none => .error .notFound
    | .ok (some f) => .ok (.feed slug kind f)
  | .item itemKey =>
    match getItem db itemKey with
    | .error _ => .error .internalError
    | .ok none => .error .notFound
    | .ok (some (f, it)) =>
      if isDeleted it then .error .gone else .ok (.item itemKey f it)

/-- `ListItems`, for the documents that show a window of items. -/
def secondRead (db : DB) : Found → Except Response Material
  | .feeds fs => .ok (.feeds fs)
  | .feed slug kind f =>
    match listItems db f.id with
    | .error _ => .error .internalError
    | .ok items => .ok (.window slug kind f items)
  | .item itemKey f it => .ok (.item itemKey f it)

/-- The channel of `renderFeed` and of `renderEmbed`, whose self link is the RSS document. -/
def windowChannel (deps : Deps) (slug : String) (kind : Windowed) (f : Feed) (items : List Item)
    (now : ℤ) : Channel :=
  let ext := match kind with
    | .feed format => format.ext
    | .embed _ => Format.ext .xml
  { feed := f, selfURL := deps.baseURL ++ "/feeds/" ++ slug ++ "." ++ ext,
    htmlURL := deps.baseURL ++ "/", host := deps.baseURL, tagYear := tagYearFor deps f, items,
    buildTime := now, generator := deps.generator, docsURL := deps.docsURL }

/-- The channel of `handleItem`. -/
def itemChannel (deps : Deps) (f : Feed) : Channel :=
  { feed := f, htmlURL := deps.baseURL ++ "/", host := deps.baseURL, tagYear := tagYearFor deps f,
    generator := deps.generator }

/-- The content type of a feed document. -/
def contentType : Format → String
  | .xml => "application/rss+xml; charset=utf-8"
  | .atom => "application/atom+xml; charset=utf-8"
  | .json => "application/feed+json"

/-- `Last-Modified` of a permalink. -/
def itemLastModified (it : Item) : ℤ :=
  let edited := it.editedAt.getD 0
  let changed := if Time.isZero edited then it.updatedAt else edited
  if Time.isZero changed then it.publishedAt else changed

def newEntry (deps : Deps) (page : Page) (contentType : String) (lastModified : ℤ) : Entry :=
  { page, bodyLen := (deps.lengths page).1, gzipLen := (deps.lengths page).2, lastModified,
    contentType }

/-- Rendering, at the time `now`. -/
def entryOf (deps : Deps) (now : ℤ) : Material → Entry
  | .feeds fs =>
    newEntry deps (.index (index fs deps.baseURL deps.generator)) "text/html; charset=utf-8" now
  | .window slug (.feed format) f items =>
    let ch := windowChannel deps slug (.feed format) f items now
    newEntry deps (feedPage format ch) (contentType format) ch.newestPublished
  | .window slug (.embed o) f items =>
    let ch := windowChannel deps slug (.embed o) f items now
    newEntry deps (.embed (embed ch o)) "text/html; charset=utf-8" ch.newestPublished
  | .item _ f it =>
    newEntry deps (.permalink (permalink (itemChannel deps f) it)) "text/html; charset=utf-8"
      (itemLastModified it)

/-- `Put` or `PutPair` of what was rendered. -/
def store (c : Cache) (e : Entry) : Material → Cache
  | .feeds _ => c.put "index" e
  | .window slug kind _ _ => c.put (kind.key slug) e
  | .item itemKey f _ => c.putPair (slugItemKey f.slug itemKey) (bareKey itemKey) e

/-- The answer to a miss whose first read finds the store as `db₁`, whose second read finds
it as `db₂`, and which renders at `now`. -/
def respond (deps : Deps) (req : Request) (db₁ db₂ : DB) (now : ℤ) : Response :=
  match firstRead db₁ req with
  | .error r => r
  | .ok found =>
    match secondRead db₂ found with
    | .error r => r
    | .ok m => .page (entryOf deps now m)

end AnimeFeedFlux.Publish
