import AnimeFeedFlux.Render.Documents
import AnimeFeedFlux.Render.Escape

/-!
# The feed documents, byte for byte

`RSS` and `Atom` write their documents piece by piece into a buffer; `JSONFeed` fills a value that
`encoding/json` writes.  The texts of a channel are arbitrary Go strings here; its host, its slug
and its item keys are not.  A JSON document is modelled by the value a reader gets: a byte that is
not part of well-formed UTF-8 is read as U+FFFD.
-/

namespace AnimeFeedFlux.Render

open GoStrings Digits

/-! ## What is rendered -/

/-- `model.Item`, as far as the feed documents show it. -/
structure RawItem where
  itemKey : String
  title : Bytes := []
  summaryText : Bytes := []
  bodyHTML : Bytes := []
  answerHTML : Bytes := []
  cardText : Bytes := []
  feedHTML : Bytes := []
  link : Bytes := []
  publishedAt : ℤ := 0
  deriving DecidableEq, Repr

/-- `model.Channel` with the fields of its feed. -/
structure RawChannel where
  host : String
  tagYear : ℤ
  slug : String
  title : Bytes := []
  description : Bytes := []
  language : Bytes := []
  author : Bytes := []
  copyright : Bytes := []
  ogImage : Bytes := []
  ttlMinutes : ℤ := 0
  selfURL : Bytes := []
  htmlURL : Bytes := []
  items : List RawItem := []
  buildTime : ℤ := 0
  generator : Bytes := []
  docsURL : Bytes := []
  deriving DecidableEq, Repr

section
variable (c : RawChannel) (it : RawItem)

def RawItem.renderCardText : Bytes :=
  if it.cardText ≠ [] then it.cardText else it.summaryText

def RawItem.renderFeedHTML : Bytes :=
  if it.feedHTML ≠ [] then it.feedHTML else it.bodyHTML

/-- `itemBodyWithAnswer`. -/
def RawItem.bodyWithAnswer : Bytes :=
  if it.answerHTML = [] then it.renderFeedHTML
  else it.renderFeedHTML ++
    (utf8 "<hr class=\"spoiler-break\"/><p><strong>Answer:</strong> " ++
      (it.answerHTML ++ utf8 "</p>"))

/-- `newestFirst`, which `RSS` and `JSONFeed` write out. -/
def RawChannel.newestFirst : List RawItem :=
  c.items.insertionSort fun a b => b.publishedAt ≤ a.publishedAt

def RawChannel.newestPublished : ℤ :=
  let newest := c.items.foldl (fun newest it => max newest it.publishedAt) 0
  if Time.isZero newest then c.buildTime else newest

/-- The Tag URI of an item. -/
def RawChannel.tagURI : String :=
  Render.tagURI c.host c.tagYear c.slug it.itemKey

/-! ## Dates -/

def shortDayNames : List String := ["Sun", "Mon", "Tue", "Wed", "Thu", "Fri", "Sat"]

def shortMonthNames : List String :=
  ["Jan", "Feb", "Mar", "Apr", "May", "Jun", "Jul", "Aug", "Sep", "Oct", "Nov", "Dec"]

def rfc822 (t : ℤ) : Bytes :=
  let s := Time.seconds t
  let d := Calendar.civil (s / 86400)
  let r := (s % 86400).toNat
  encode ((shortDayNames.getD ((s / 86400 + 1) % 7).toNat "").toList ++ ", ".toList ++
    pad 2 d.day ++ " ".toList ++ (shortMonthNames.getD (d.month - 1) "").toList ++ " ".toList ++
    yearText d.year ++ " ".toList ++ pad 2 (r / 3600) ++ ":".toList ++ pad 2 (r / 60 % 60) ++
    ":".toList ++ pad 2 (r % 60) ++ " +0000".toList)

/-- `RFC3339`. -/
def rfc3339Text (t : ℤ) : List Char := secondText (Time.seconds t) ++ ['Z']

/-! ## RSS -/

def writeElem (indent name : String) (value : Bytes) : List Char :=
  indent.toList ++ '<' :: (name.toList ++ '>' :: (escapeText value ++
    "</".toList ++ name.toList ++ ">\n".toList))

def writeItem : List Char :=
  "    <item>\n".toList ++
  writeElem "      " "title" it.title ++
  (if it.link ≠ [] then writeElem "      " "link" it.link else []) ++
  writeElem "      " "description" it.renderCardText ++
  "      <content:encoded>".toList ++ cdata it.bodyWithAnswer ++ "</content:encoded>\n".toList ++
  "      <guid isPermaLink=\"false\">".toList ++ escapeText (utf8 (c.tagURI it)) ++
  "</guid>\n".toList ++
  writeElem "      " "pubDate" (rfc822 it.publishedAt) ++
  "    </item>\n".toList

/-- `RSS`. -/
def writeRSS : List Char :=
  "<?xml version=\"1.0\" encoding=\"utf-8\"?>\n".toList ++
  ("<rss version=\"2.0\" xmlns:atom=\"http://www.w3.org/2005/Atom\" " ++
    "xmlns:content=\"http://purl.org/rss/1.0/modules/content/\">\n").toList ++
  "  <channel>\n".toList ++
  writeElem "    " "title" c.title ++
  writeElem "    " "link" c.htmlURL ++
  writeElem "    " "description" c.description ++
  writeElem "    " "language" c.language ++
  writeElem "    " "pubDate" (rfc822 c.newestPublished) ++
  writeElem "    " "lastBuildDate" (rfc822 c.buildTime) ++
  writeElem "    " "generator" c.generator ++
  writeElem "    " "docs" c.docsURL ++
  writeElem "    " "ttl" (utf8 (toString c.ttlMinutes)) ++
  "    <atom:link rel=\"self\" type=\"application/rss+xml\" href=\"".toList ++
  escapeText c.selfURL ++ "\"/>\n".toList ++
  c.newestFirst.flatMap (writeItem c) ++
  "  </channel>\n".toList ++
  "</rss>\n".toList

/-! ## Atom -/

def RawChannel.feedID : String :=
  "tag:" ++ stripHostDecoration c.host ++ "," ++ toString c.tagYear ++ ":" ++ c.slug

def writeAtomEntry : List Char :=
  "  <entry>\n".toList ++
  "    <id>".toList ++ escapeText (utf8 (c.tagURI it)) ++ "</id>\n".toList ++
  "    <title>".toList ++ escapeText it.title ++ "</title>\n".toList ++
  "    <updated>".toList ++ rfc3339Text it.publishedAt ++ "</updated>\n".toList ++
  (if it.link ≠ [] then
    "    <link rel=\"alternate\" href=\"".toList ++ escapeText it.link ++ "\"/>\n".toList
  else []) ++
  "    <summary type=\"text\">".toList ++ escapeText it.renderCardText ++ "</summary>\n".toList ++
  "    <content type=\"html\">".toList ++ escapeText it.bodyWithAnswer ++ "</content>\n".toList ++
  "  </entry>\n".toList

/-- `Atom`. -/
def writeAtom : List Char :=
  "<?xml version=\"1.0\" encoding=\"utf-8\"?>\n".toList ++
  "<feed xmlns=\"http://www.w3.org/2005/Atom\">\n".toList ++
  "  <id>".toList ++ escapeText (utf8 c.feedID) ++ "</id>\n".toList ++
  "  <title>".toList ++ escapeText c.title ++ "</title>\n".toList ++
  "  <updated>".toList ++ rfc3339Text c.buildTime ++ "</updated>\n".toList ++
  "  <author>\n".toList ++
  "    <name>".toList ++ escapeText (if c.author = [] then c.title else c.author) ++
  "</name>\n".toList ++
  "  </author>\n".toList ++
  (if c.selfURL ≠ [] then
    "  <link rel=\"self\" href=\"".toList ++ escapeText c.selfURL ++ "\"/>\n".toList else []) ++
  (if c.htmlURL ≠ [] then
    "  <link rel=\"alternate\" href=\"".toList ++ escapeText c.htmlURL ++ "\"/>\n".toList
  else []) ++
  (if c.description ≠ [] then
    "  <subtitle>".toList ++ escapeText c.description ++ "</subtitle>\n".toList else []) ++
  (if c.copyright ≠ [] then
    "  <rights>".toList ++ escapeText c.copyright ++ "</rights>\n".toList else []) ++
  (if c.generator ≠ [] then
    "  <generator>".toList ++ escapeText c.generator ++ "</generator>\n".toList else []) ++
  c.newestFirst.flatMap (writeAtomEntry c) ++
  "</feed>\n".toList

/-! ## JSON Feed -/

/-- `jsonFeedItem`, as a reader gets it. -/
structure JsonItemValue where
  id : List Char
  url : List Char
  title : List Char
  contentHTML : List Char
  summary : List Char
  datePublished : List Char
  deriving DecidableEq, Repr

/-- `jsonFeedDoc`, as a reader gets it. -/
structure JsonFeedValue where
  version : String
  title : List Char
  homePageURL : List Char
  feedURL : List Char
  description : List Char
  language : List Char
  icon : List Char
  authors : List (List Char)
  items : List JsonItemValue
  deriving DecidableEq, Repr

/-- The item literal of `JSONFeed`. -/
def jsonItemValue : JsonItemValue :=
  { id := (c.tagURI it).toList, url := runes it.link, title := sanitizeXMLText it.title
    contentHTML := sanitizeXMLText it.bodyWithAnswer
    summary := sanitizeXMLText it.renderCardText, datePublished := rfc3339Text it.publishedAt }

/-- `JSONFeed`. -/
def jsonFeedValue : JsonFeedValue :=
  { version := jsonFeedVersion, title := sanitizeXMLText c.title, homePageURL := runes c.htmlURL
    feedURL := runes c.selfURL, description := runes c.description
    language := runes c.language, icon := runes c.ogImage
    authors := if c.author = [] then [] else [runes c.author]
    items := c.newestFirst.map (jsonItemValue c) }

end

/-! ## Channels of texts -/

/-- The item with its texts encoded. -/
def itemRaw (it : Item) : RawItem :=
  { itemKey := it.itemKey, title := utf8 it.title, summaryText := utf8 it.summaryText
    bodyHTML := utf8 it.bodyHTML, answerHTML := utf8 it.answerHTML
    cardText := utf8 it.formats.cardText, feedHTML := utf8 it.formats.feedHTML
    link := utf8 it.link, publishedAt := it.publishedAt }

/-- The channel with its texts encoded. -/
def Channel.raw (c : Channel) : RawChannel :=
  { host := c.host, tagYear := c.tagYear, slug := c.feed.slug, title := utf8 c.feed.title
    description := utf8 c.feed.description, language := utf8 c.feed.language
    author := utf8 c.feed.author, copyright := utf8 c.feed.copyright
    ogImage := utf8 c.feed.ogImage, ttlMinutes := c.feed.ttlMinutes, selfURL := utf8 c.selfURL
    htmlURL := utf8 c.htmlURL, items := c.items.map itemRaw, buildTime := c.buildTime
    generator := utf8 c.generator, docsURL := utf8 c.docsURL }

end AnimeFeedFlux.Render
