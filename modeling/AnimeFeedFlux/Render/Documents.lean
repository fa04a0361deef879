import AnimeFeedFlux.Lib.GoStrings
import AnimeFeedFlux.Store.Feeds

/-!
# The rendered documents

What the renderers put into a document, element by element and before serialisation: texts
are unescaped and dates are instants.  `RSS`, `Atom` and `JSONFeed` identify an item by one
function, `tagURI`, over the host, the tag year, the feed's slug and the item's key.
-/

namespace AnimeFeedFlux.Render

open List

structure Channel where
  feed : Feed
  selfURL : String := ""
  htmlURL : String := ""
  host : String
  tagYear : ℤ
  items : List Item := []
  buildTime : ℤ := 0
  generator : String := ""
  docsURL : String := ""
  deriving DecidableEq, Repr

def Channel.newestPublished (c : Channel) : ℤ :=
  let newest := c.items.foldl (fun newest it => max newest it.publishedAt) 0
  if Time.isZero newest then c.buildTime else newest

/-! ## What a surface shows of an item -/

/-- `variant` when stage 2 produced one, the raw field otherwise. -/
def orRaw (variant raw : String) : String := if variant ≠ "" then variant else raw

/-- `Item.RenderCardText`. -/
def cardText (it : Item) : String := orRaw it.formats.cardText it.summaryText

/-- `Item.RenderFeedHTML`. -/
def feedHTML (it : Item) : String := orRaw it.formats.feedHTML it.bodyHTML

/-- `Item.RenderPageHTML`. -/
def pageHTML (it : Item) : String := orRaw it.formats.pageHTML it.bodyHTML

/-- `Item.RenderEmbedText`. -/
def embedText (it : Item) : String := orRaw it.formats.embedText it.summaryText

def itemBodyWithAnswer (it : Item) : String :=
  if it.answerHTML = "" then feedHTML it
  else feedHTML it ++ "<hr class=\"spoiler-break\"/><p><strong>Answer:</strong> " ++
    it.answerHTML ++ "</p>"

/-- `newestFirst`; the three feed formats and the embed all sort this way. -/
def newestFirst (items : List Item) : List Item :=
  items.insertionSort fun a b => b.publishedAt ≤ a.publishedAt

/-- `some s` unless it is empty. -/
def nonEmpty (s : String) : Option String := if s = "" then none else some s

/-! ## Identity -/

/-- `host[i+3:]` with `i` the first index of `"://"`, and `host` itself when there is none. -/
def afterScheme : List Char → Option (List Char)
  | ':' :: '/' :: '/' :: rest => some rest
  | _ :: rest => afterScheme rest
  | [] => none

def stripHostDecoration (host : String) : String :=
  GoStrings.trimSuffix (((afterScheme host.toList).map String.ofList).getD host) "/"

def tagURI (host : String) (year : ℤ) (slug itemKey : String) : String :=
  "tag:" ++ stripHostDecoration host ++ "," ++ toString year ++ ":" ++ slug ++ "/" ++ itemKey

/-- The Tag URI of an item in a channel, as every renderer asks for it. -/
def Channel.tagURI (c : Channel) (it : Item) : String :=
  Render.tagURI c.host c.tagYear c.feed.slug it.itemKey

example : stripHostDecoration "https://anime.example.com/" = "anime.example.com" := by decide

theorem suffix_of_afterScheme {cs rest : List Char} (h : afterScheme cs = some rest) :
    rest <:+ cs := by
  induction cs using afterScheme.induct with
  | case1 rest' =>
    rw [afterScheme, Option.some.injEq] at h
    subst h
    exact ⟨[':', '/', '/'], rfl⟩
  | case2 c cs hne ih =>
    rw [afterScheme] at h
    · exact (ih h).trans (suffix_cons c cs)
    · exact hne
  | case3 => cases h

theorem mem_of_mem_stripHostDecoration {host : String} {c : Char}
    (h : c ∈ (stripHostDecoration host).toList) : c ∈ host.toList := by
  have hscheme : c ∈ (((afterScheme host.toList).map String.ofList).getD host).toList := by
    rw [stripHostDecoration, GoStrings.trimSuffix] at h
    split at h
    · rw [String.toList_ofList] at h
      exact mem_of_mem_take h
    · exact h
  cases hrest : afterScheme host.toList with
  | none =>
    rw [hrest] at hscheme
    exact hscheme
  | some rest =>
    rw [hrest, Option.map_some, Option.getD_some, String.toList_ofList] at hscheme
    exact (suffix_of_afterScheme hrest).subset hscheme

theorem isDigit_or_minus_of_mem_toString {y : ℤ} {c : Char} (h : c ∈ (toString y).toList) :
    c.isDigit ∨ c = '-' := by
  have hnat : ∀ n : ℕ, c ∈ n.repr.toList → c.isDigit := by
    intro n hmem
    rw [Nat.toList_repr] at hmem
    exact Nat.isDigit_of_mem_toDigits (by decide) (by decide) hmem
  rw [Int.toString_eq_repr, Int.repr_eq_if] at h
  split at h
  · exact .inl (hnat _ h)
  rw [String.toList_append] at h
  rcases mem_append.1 h with h | h
  · exact .inr (mem_singleton.1 h)
  · exact .inl (hnat _ h)

/-! ## RSS -/

/-- `<item>`; `link` is omitted when the item has none. -/
structure RssItem where
  title : String
  link : Option String
  description : String
  contentEncoded : String
  guid : String
  pubDate : ℤ
  deriving DecidableEq, Repr

/-- `<channel>`. -/
structure RssChannel where
  title : String
  link : String
  description : String
  language : String
  pubDate : ℤ
  lastBuildDate : ℤ
  generator : String
  docs : String
  ttl : ℕ
  selfLink : String
  items : List RssItem
  deriving DecidableEq, Repr

/-- `writeItem`. -/
def rssItem (c : Channel) (it : Item) : RssItem :=
  { title := it.title, link := nonEmpty it.link, description := cardText it,
    contentEncoded := itemBodyWithAnswer it, guid := c.tagURI it, pubDate := it.publishedAt }

def rss (c : Channel) : RssChannel :=
  { title := c.feed.title, link := c.htmlURL, description := c.feed.description,
    language := c.feed.language, pubDate := c.newestPublished, lastBuildDate := c.buildTime,
    generator := c.generator, docs := c.docsURL, ttl := c.feed.ttlMinutes,
    selfLink := c.selfURL, items := (newestFirst c.items).map (rssItem c) }

/-! ## Atom -/

/-- `<entry>`. -/
structure AtomEntry where
  id : String
  title : String
  updated : ℤ
  link : Option String
  summary : String
  content : String
  deriving DecidableEq, Repr

/-- `<feed>`. -/
structure AtomFeed where
  id : String
  title : String
  updated : ℤ
  author : String
  selfLink : Option String
  alternate : Option String
  subtitle : Option String
  rights : Option String
  generator : Option String
  entries : List AtomEntry
  deriving DecidableEq, Repr

def feedID (c : Channel) : String :=
  "tag:" ++ stripHostDecoration c.host ++ "," ++ toString c.tagYear ++ ":" ++ c.feed.slug

/-- `writeAtomEntry`. -/
def atomEntry (c : Channel) (it : Item) : AtomEntry :=
  { id := c.tagURI it, title := it.title, updated := it.publishedAt, link := nonEmpty it.link,
    summary := cardText it, content := itemBodyWithAnswer it }

def atom (c : Channel) : AtomFeed :=
  { id := feedID c, title := c.feed.title, updated := c.buildTime,
    author := if c.feed.author = "" then c.feed.title else c.feed.author,
    selfLink := nonEmpty c.selfURL, alternate := nonEmpty c.htmlURL,
    subtitle := nonEmpty c.feed.description, rights := nonEmpty c.feed.copyright,
    generator := nonEmpty c.generator, entries := (newestFirst c.items).map (atomEntry c) }

/-! ## JSON Feed -/

/-- `jsonFeedItem`, without the tags, which no query of the publish plane loads. -/
structure JsonFeedItem where
  id : String
  url : String
  title : String
  contentHTML : String
  summary : String
  datePublished : ℤ
  deriving DecidableEq, Repr

structure JsonFeedDoc where
  version : String
  title : String
  homePageURL : String
  feedURL : String
  description : String
  language : String
  icon : String
  authors : List String
  items : List JsonFeedItem
  deriving DecidableEq, Repr

def jsonFeedVersion : String := "https://jsonfeed.org/version/1.1"

/-- The item literal of `JSONFeed`. -/
def jsonFeedItem (c : Channel) (it : Item) : JsonFeedItem :=
  { id := c.tagURI it, url := it.link, title := it.title, contentHTML := itemBodyWithAnswer it,
    summary := cardText it, datePublished := it.publishedAt }

def jsonFeed (c : Channel) : JsonFeedDoc :=
  { version := jsonFeedVersion, title := c.feed.title, homePageURL := c.htmlURL,
    feedURL := c.selfURL, description := c.feed.description, language := c.feed.language,
    icon := c.feed.ogImage, authors := if c.feed.author = "" then [] else [c.feed.author],
    items := (newestFirst c.items).map (jsonFeedItem c) }

/-! ## HTML pages -/

/-- `Permalink`. -/
structure PermalinkPage where
  lang : String
  title : String
  summary : String
  ogImage : Option String
  ogURL : String
  published : ℤ
  body : String
  answer : Option String
  deriving DecidableEq, Repr

/-- The language of a page, `en` when the feed has none. -/
def pageLang (f : Feed) : String := if f.language = "" then "en" else f.language

def permalink (c : Channel) (it : Item) : PermalinkPage :=
  { lang := pageLang c.feed, title := it.title, summary := cardText it,
    ogImage := nonEmpty c.feed.ogImage, ogURL := it.link, published := it.publishedAt,
    body := pageHTML it, answer := nonEmpty it.answerHTML }

/-- `writeFeedEntry` and `writeAlternate`: what the index says about a feed.  Its links are
built from the slug. -/
structure IndexEntry where
  title : String
  description : String
  slug : String
  deriving DecidableEq, Repr

/-- `Index`. -/
structure IndexPage where
  baseURL : String
  generator : String
  feeds : List IndexEntry
  deriving DecidableEq, Repr

/-- `Index`: the enabled feeds, by title. -/
def index (feeds : List Feed) (baseURL generator : String) : IndexPage :=
  { baseURL, generator,
    feeds := ((feeds.filter (·.enabled)).insertionSort fun a b => a.title ≤ b.title).map
      fun f => ⟨f.title, f.description, f.slug⟩ }

/-- `EmbedThemes`. -/
inductive EmbedTheme
  | light
  | dark
  | auto
  deriving DecidableEq, Repr

/-- The theme as it stands in a query and in a cache key. -/
def EmbedTheme.text : EmbedTheme → String
  | .light => "light"
  | .dark => "dark"
  | .auto => "auto"

def embedCounts : List ℕ := [5, 10, 20]

/-- `EmbedOptions` with values the renderer honours. -/
structure EmbedOptions where
  count : ℕ := 10
  theme : EmbedTheme := .auto
  valid : count ∈ embedCounts := by decide
  deriving DecidableEq, Repr

/-- `writeEmbedItem`; no stamp for the zero Time, no paragraph for an empty text. -/
structure EmbedItem where
  stamp : Option ℤ
  link : String
  title : String
  text : Option String
  deriving DecidableEq, Repr

/-- `Embed`. -/
structure EmbedPage where
  lang : String
  title : String
  generator : String
  theme : EmbedTheme
  htmlURL : String
  items : List EmbedItem
  subscribe : String
  deriving DecidableEq, Repr

/-- `writeEmbedItem`. -/
def embedItem (it : Item) : EmbedItem :=
  { stamp := if Time.isZero it.publishedAt then none else some it.publishedAt, link := it.link,
    title := it.title, text := nonEmpty (embedText it) }

def embed (c : Channel) (o : EmbedOptions) : EmbedPage :=
  { lang := pageLang c.feed, title := c.feed.title, generator := c.generator, theme := o.theme,
    htmlURL := c.htmlURL, items := ((newestFirst c.items).take o.count).map embedItem,
    subscribe := c.selfURL }

/-! ## Pages -/

/-- The formats of a feed document. -/
inductive Format
  | xml
  | atom
  | json
  deriving DecidableEq, Repr

/-- The extension of the format, which is also its name in a cache key. -/
def Format.ext : Format → String
  | .xml => "xml"
  | .atom => "atom"
  | .json => "json"

/-- A document of the publish plane. -/
inductive Page
  | rss (doc : RssChannel)
  | atom (doc : AtomFeed)
  | json (doc : JsonFeedDoc)
  | permalink (doc : PermalinkPage)
  | index (doc : IndexPage)
  | embed (doc : EmbedPage)
  deriving DecidableEq, Repr

/-- The `switch format` of `renderFeed`. -/
def feedPage (format : Format) (c : Channel) : Page :=
  match format with
  | .xml => .rss (rss c)
  | .atom => .atom (atom c)
  | .json => .json (jsonFeed c)

/-- The guids of the RSS items, the ids of the Atom entries or of the JSON items. -/
def Page.guids : Page → List String
  | .rss doc => doc.items.map (·.guid)
  | .atom doc => doc.entries.map (·.id)
  | .json doc => doc.items.map (·.id)
  | _ => []

theorem guids_feedPage (format : Format) (c : Channel) :
    (feedPage format c).guids = (newestFirst c.items).map c.tagURI := by
  cases format <;>
    simp [feedPage, Page.guids, rss, atom, jsonFeed, rssItem, atomEntry, jsonFeedItem]

end AnimeFeedFlux.Render
