import AnimeFeedFlux.Generate.Contract
import AnimeFeedFlux.Generate.Provenance
import AnimeFeedFlux.Publish.Guids
import AnimeFeedFlux.Rpc.Preview
import AnimeFeedFlux.Sanitize.Html

/-!
# A preview and what is published

A candidate of a sample is shown as the `<item>` it is to become.  If it is promoted, the publish
plane renders the stored item in a channel of its own.  This module follows one candidate from
the dry run through the payload, the promotion and the query of the publish plane to the
document, and says when the two elements are one, the item key and the date apart.

Three things tell them apart.  The preview takes the Tag URI year from a creation time that no
query fills in, which is the year 1; it takes the authority from another setting; and promotion
sanitizes the markup once more, which can change it again.
-/

namespace AnimeFeedFlux

open Render Sanitize GoStrings List

/-! ## The property and the condition -/

/-- `published` is `preview` with the item key in its guid, up to the date. -/
structure Faithful (itemKey : String) (preview published : RssItem) : Prop where
  title : published.title = preview.title
  link : published.link = preview.link
  description : published.description = preview.description
  contentEncoded : published.contentEncoded = preview.contentEncoded
  guid : published.guid = preview.guid ++ itemKey

/-- The two planes are configured with one authority, the publish plane's year is the year 1, and
sanitizing the candidate again does not change its content. -/
structure SameOutcome (cfg : PreviewConfig) (deps : Publish.Deps) (sanitize : String → String)
    (cand : SampleCandidate) : Prop where
  host : stripHostDecoration deps.baseURL = stripHostDecoration cfg.publicHost
  year : deps.tagYear = 1
  content : itemBodyWithAnswer (candidateItem sanitize "" 0 cand) =
    itemBodyWithAnswer (candidateItem id "" 0 cand)

/-! ## Tag URIs -/

theorem comma_notMem_toString (y : ℤ) : ',' ∉ (toString y).toList := by
  intro hmem
  rcases isDigit_or_minus_of_mem_toString hmem with hdigit | hminus
  · exact absurd hdigit (by decide)
  · exact absurd hminus (by decide)

theorem eq_one_of_toString {y : ℤ} (h : toString y = toString (1 : ℤ)) : y = 1 := by
  rw [Int.toString_eq_repr, Int.repr_eq_if] at h
  have hlist := congrArg String.toList h
  split at hlist
  · rename_i hnonneg
    rw [Nat.toList_repr] at hlist
    have hvalue := congrArg (fun ds => Nat.ofDigitChars 10 ds 0) hlist
    simp only [Nat.ofDigitChars_ten_toDigits] at hvalue
    have hone : y.toNat = 1 := hvalue
    omega
  · rw [String.toList_append] at hlist
    cases hlist

theorem tagURI_eq_append {host host' slug key : String} {year : ℤ} :
    tagURI host year slug key = tagURI host' 1 slug "" ++ key ↔
      stripHostDecoration host = stripHostDecoration host' ∧ year = 1 := by
  constructor
  · intro h
    have hlist := congrArg String.toList h
    simp only [tagURI, String.toList_append, append_assoc] at hlist
    have hcancel : (stripHostDecoration host).toList ++ ',' :: (toString year).toList =
        (stripHostDecoration host').toList ++ ',' :: (toString (1 : ℤ)).toList := by
      have htail : ((stripHostDecoration host).toList ++ ',' :: (toString year).toList) ++
            ':' :: (slug.toList ++ '/' :: key.toList) =
          ((stripHostDecoration host').toList ++ ',' :: (toString (1 : ℤ)).toList) ++
            ':' :: (slug.toList ++ '/' :: key.toList) := by
        rw [append_assoc, append_assoc]
        exact append_cancel_left hlist
      exact append_cancel_right htail
    obtain ⟨hhost, hyear⟩ :=
      append_sep_inj_last (comma_notMem_toString year) (comma_notMem_toString 1) hcancel
    exact ⟨String.toList_injective hhost, eq_one_of_toString (String.toList_injective hyear)⟩
  · rintro ⟨hhost, rfl⟩
    simp [tagURI, hhost]

/-! ## The preview -/

theorem renderCandidateXML_rawItem (cfg : PreviewConfig) {feed : Feed}
    (hcreated : feed.createdAt = 0)
    (title summaryText bodyHTML answerHTML link sourceName : String) (now : ℤ) :
    ∃ date, renderCandidateXML cfg feed
        (Contract.rawItem title summaryText bodyHTML answerHTML link sourceName) now =
      some { title, link := nonEmpty link, description := summaryText
             contentEncoded := itemBodyWithAnswer
               (Contract.rawItem title summaryText bodyHTML answerHTML link sourceName)
             guid := tagURI cfg.publicHost 1 feed.slug "", pubDate := date } := by
  have hyear : Time.year feed.createdAt = 1 := by
    rw [hcreated]
    decide
  refine ⟨now, ?_⟩
  simp only [renderCandidateXML, rss, candidateChannel, hyear]
  rfl

/-! ## The promotion -/

/-- What a promotion that was answered has stored: the row under the answered id is the candidate
of the sample, sanitized. -/
theorem itemPromoteSample_row {codec : PayloadCodec} {sanitize : String → String}
    {newItemKey : ℤ → String} {db db' : DB} {req : PromoteRequest} {now clock created : ℤ}
    {promoted : Item}
    (h : itemPromoteSample codec sanitize newItemKey db req now clock created =
      (db', .ok promoted)) :
    ∃ n s cand, parseInt (utf8 req.sampleID) 10 64 = some n ∧
      db.samples.find? (fun s => (s.id : ℤ) == n) = some s ∧
      itemFindCandidate codec s.payload req.candidateID = .ok cand ∧
      promoted.itemKey = newItemKey now ∧
      ∀ x ∈ db'.items, x.id = promoted.id → ∃ feedID stamp,
        x = { { candidateItem sanitize (newItemKey now) s.feedID cand with feedID }.newRow stamp
                none created with id := promoted.id } := by
  simp only [itemPromoteSample] at h
  split at h
  · cases h
  rename_i id it hprep
  obtain ⟨n, s, sm, cand, hparse, hfind, rfl, hget, hcand, rfl⟩ := promotePrepare_found hprep
  obtain rfl : sm = s := Option.some.inj ((getSample_ok hget).symm.trans hfind)
  split at h
  · cases h
  · cases h
  rename_i db₁ hstored
  simp only [Prod.mk.injEq] at h
  obtain ⟨rfl, hreply⟩ := h
  obtain ⟨feedID, stamp, honce⟩ := promoteSample_ok hstored
  have hid : promoted.id = nextID (db.items.map (·.id)) := by
    obtain ⟨row, -, hrow, rfl⟩ := itemLoadByID_ok (promoteReply_ok hreply)
    exact hrow
  have hnew : ∀ x ∈ db₁.items, x.id = promoted.id →
      x = { { candidateItem sanitize (newItemKey now) sm.feedID cand with feedID }.newRow stamp
              none created with id := promoted.id } := by
    intro x hx hxid
    rcases promoteOnce_rows honce x hx with hold | ⟨i, rfl⟩
    · -- The id was new.
      have hlt := lt_nextID (mem_map_of_mem (f := (·.id)) hold)
      rw [hxid, hid] at hlt
      exact absurd hlt (lt_irrefl _)
    · rw [← hxid]
  refine ⟨n, sm, cand, hparse, hfind, hcand, ?_, fun x hx hxid => ⟨feedID, stamp, hnew x hx hxid⟩⟩
  obtain ⟨row, hrow, hrowID, hloaded⟩ := itemLoadByID_ok (promoteReply_ok hreply)
  have hkey := congrArg Item.itemKey (hnew row hrow (hrowID.trans hid.symm))
  rw [hloaded]
  exact hkey

/-! ## One candidate -/

/-- One candidate from the sample to the document: a request for a sample, shown at `shownAt` and
stored; a request to promote one of its candidates from a store that still holds the sample; and
the RSS document of the feed once the item is stored.  The payload is read back as it was
written. -/
structure Journey (m : Contract.Matchers) (u : CaseTable) where
  codec : PayloadCodec
  previews : PreviewConfig
  plane : Publish.Deps
  env : SampleEnv
  fold : String → String
  config : Config
  request : SampleRequest
  feed : Feed
  spec : GenSpec
  shownAt : ℤ
  sampleID : ℕ
  remaining : ℚ
  before : DB
  promotion : PromoteRequest
  newItemKey : ℤ → String
  now : ℤ
  clock : ℤ
  created : ℤ
  cand : SampleCandidate
  preview : RssItem
  promoted : Item
  after : DB
  servedAt : ℤ
  document : Publish.Document
  item : Item
  validates : env.services.validate = Contract.validate m (htmlText u)
  admitted : admitSample env fold config request = .ok (feed, spec)
  answered : (sampleRPC (env.previewing previews codec feed shownAt) fold config request).answer =
    .ok (sampleID, remaining)
  decodes : codec.list (codec.encode
      (buildCandidates previews feed (sample env.deps feed spec).items shownAt)) =
    some (buildCandidates previews feed (sample env.deps feed spec).items shownAt)
  chosen : (buildCandidates previews feed (sample env.deps feed spec).items shownAt).find?
    (·.candidateID == promotion.candidateID) = some cand
  shown : cand.renderedXML = some preview
  kept : before.samples.find? (fun s => s.id == sampleID) =
    (sampleRPC (env.previewing previews codec feed shownAt) fold config request).db.samples.find?
      (fun s => s.id == sampleID)
  named : parseInt (utf8 promotion.sampleID) 10 64 = some (sampleID : ℤ)
  promotes : itemPromoteSample codec (htmlText u) newItemKey before promotion now clock created =
    (after, .ok promoted)
  served : Publish.renderFeed plane after feed.slug .xml servedAt = some document
  listed : item ∈ document.channel.items
  identified : item.id = promoted.id

namespace Journey

open List
variable {m : Contract.Matchers} {u : CaseTable} (j : Journey m u)

/-- The element of the document. -/
def published : RssItem := rssItem j.document.channel j.item

theorem preview_eq : ∃ date, j.preview =
    { title := j.cand.title, link := nonEmpty j.cand.link, description := j.cand.summaryText
      contentEncoded := itemBodyWithAnswer (candidateItem id "" 0 j.cand)
      guid := tagURI j.previews.publicHost 1 j.feed.slug "", pubDate := date } := by
  have hcreated : j.feed.createdAt = 0 := by
    have hadmitted := j.admitted
    simp only [admitSample] at hadmitted
    split at hadmitted
    · cases hadmitted
    rename_i hresolve
    split at hadmitted
    · cases hadmitted
    cases hadmitted
    exact (resolveSample_ok hresolve).2.2
  obtain ⟨i, hi, hcand⟩ := mem_mapIdx.1 (mem_of_find?_eq_some j.chosen)
  obtain ⟨gi, opts, hvalid⟩ := validated_sample rfl j.feed j.spec _ (getElem_mem hi)
  have hraw : Contract.validate m (htmlText u) gi opts =
      .ok ((sample j.env.deps j.feed j.spec).items[i], []) := by
    rw [← j.validates]
    exact hvalid
  have hit := Contract.validate_ok hraw
  obtain ⟨date, hdate⟩ := renderCandidateXML_rawItem j.previews hcreated (trimSpace gi.title)
    (trimSpace gi.summaryText) (htmlText u gi.bodyHTML) (htmlText u gi.answerHTML)
    (trimSpace gi.link) (trimSpace gi.sourceName) j.shownAt
  refine ⟨date, ?_⟩
  have hshown := j.shown
  rw [← hcand, sampleCandidate, hit, hdate] at hshown
  rw [← Option.some.inj hshown, ← hcand, hit]
  rfl

theorem published_eq : ∃ date, j.published =
    { title := j.cand.title, link := nonEmpty j.cand.link, description := j.cand.summaryText
      contentEncoded := itemBodyWithAnswer (candidateItem (htmlText u) "" 0 j.cand)
      guid := tagURI j.plane.baseURL j.plane.tagYear j.feed.slug j.promoted.itemKey
      pubDate := date } := by
  obtain ⟨n, s, cand, hparse, hfind, hcand, hkey, hrows⟩ := itemPromoteSample_row j.promotes
  -- The candidate is the one that was shown: the sample's payload is what the sampler stored.
  obtain rfl : n = j.sampleID := Option.some.inj (hparse.symm.trans j.named)
  obtain rfl : cand = j.cand := by
    obtain ⟨stored, hstored, -, hpayload⟩ := sampleRPC_stored j.admitted j.answered
    have hsame : (fun s : Sample => (s.id : ℤ) == (j.sampleID : ℤ)) =
        fun s => s.id == j.sampleID := by
      funext s
      simp
    rw [hsame, j.kept, hstored] at hfind
    obtain rfl := Option.some.inj hfind
    simp only [itemFindCandidate, hpayload, j.decodes, Option.some_or, j.chosen] at hcand
    exact (Except.ok.inj hcand).symm
  -- The element is rendered from its row.
  have hserved := j.served
  simp only [Publish.renderFeed] at hserved
  split at hserved
  · rename_i f hget
    split at hserved
    · rename_i items hlist
      obtain ⟨row, -, hslug, hscan⟩ := getFeedBySlug_ok hget
      obtain ⟨-, hfslug, -, -, hcreated⟩ := scanFeedRow_ok hscan
      have hdocument := (Option.some.inj hserved).symm
      have hlisted := j.listed
      rw [hdocument] at hlisted
      obtain ⟨x, hx, -, -, hitem⟩ := mem_listItems hlist hlisted
      have hxid : x.id = j.promoted.id := by
        rw [← j.identified, hitem]
      obtain ⟨feedID, stamp, rfl⟩ := hrows x hx hxid
      have hyear : Publish.tagYearFor j.plane f = j.plane.tagYear := by
        rw [Publish.tagYearFor, hcreated]
        rfl
      refine ⟨stamp, ?_⟩
      rw [published, hdocument, hitem, hkey, ← hslug, ← hfslug, ← hyear]
      rfl
    · cases hserved
  · cases hserved

/-- **When a preview is faithful**: exactly when the two planes agree on the authority, the publish
plane's year is the year 1, and the candidate's content stays as it is when it is sanitized
again. -/
theorem faithful_iff : Faithful j.promoted.itemKey j.preview j.published ↔
      SameOutcome j.previews j.plane (htmlText u) j.cand := by
  obtain ⟨date, hpreview⟩ := j.preview_eq
  obtain ⟨date', hpublished⟩ := j.published_eq
  rw [hpreview, hpublished]
  constructor
  · intro h
    obtain ⟨hhost, hyear⟩ := tagURI_eq_append.1 h.guid
    exact ⟨hhost, hyear, h.contentEncoded⟩
  · intro h
    exact ⟨rfl, rfl, rfl, h.content, tagURI_eq_append.2 ⟨h.host, h.year⟩⟩

end Journey

/-! ## A preview that is not faithful -/

namespace PreviewExample

open List

/-- `2026-01-01T00:00:00Z`. -/
def start : ℤ := 63902822400 * Time.second

/-- Rules that find nothing to match. -/
def matchers : Contract.Matchers :=
  { lower := id, htmlTag := fun _ => false, anchorHrefs := fun _ => [], stripTags := id
    isAbsoluteURL := fun _ => true, normalize := some }

/-- A provider that always answers with one item. -/
def services : Services :=
  { scriptedServices
      (.ok ⟨[{ title := "What is new", summaryText := "News", bodyHTML := "Text" }], ""⟩) start with
    newItemKey := fun _ => ""
    validate := Contract.validate matchers (htmlText asciiCase) }

/-- A store with one feed, created in 2026. -/
def store : DB where
  feeds := [{ id := 1, slug := "daily", title := "Daily", kind := .generative
              spec := some { kind := .generative, model := "m" }
              createdAt := start, updatedAt := start }]

def env : SampleEnv where
  services := services
  defaults := ⟨"m", "smart"⟩
  prices _ := none
  validateTemplate _ := none
  buildCandidates _ := .error ""
  marshal := .ok
  loading := ⟨store, true⟩
  gate := ⟨store, true⟩
  titles := ⟨store, true⟩
  storing := ⟨store, true⟩
  reporting := ⟨store, true⟩
  gateAt := start
  storedAt := start
  reportedAt := start

def config : Config := { generationEnabled := true, monthlySpendCeilingUSD := 100 }

/-- The feed and the recipe the sampler is admitted with. -/
def feed : Feed :=
  { id := 1, slug := "daily", title := "Daily", description := "", language := "en"
    kind := .generative, author := "", copyright := "", ogImage := "", ttlMinutes := 15
    enabled := false, timezone := "UTC", lastBuiltAt := 0, createdAt := 0, version := 1 }

def spec : GenSpec := { model := "m", effort := "smart", trigger := .manual }

/-- The two planes have one authority. -/
def previews : PreviewConfig := { publicHost := "feeds.example" }

/-- The publish plane with the year of the feed's creation. -/
def plane : Publish.Deps := { baseURL := "https://feeds.example", tagYear := 2026 }

def candidates : List SampleCandidate :=
  buildCandidates previews feed (sample env.deps feed spec).items start

/-- A codec that knows the one payload. -/
def codec : PayloadCodec :=
  { encode := fun _ => "[]", list := fun _ => some candidates, wrapped := fun _ => none }

/-- The store with the sample. -/
def before : DB := (sampleRPC (env.previewing previews codec feed start) id config
  { feedID := 1 }).db

def promotion : PromoteRequest := { sampleID := "1", candidateID := "c1" }

/-- The store with the item. -/
def after : DB :=
  (itemPromoteSample codec (htmlText asciiCase) (fun _ => "key") before promotion start start
    start).1

/-- The item as it is stored and listed. -/
def item : Item :=
  { id := 1, feedID := 1, itemKey := "key"
    contentHash := itemContentHash 1 "What is new" "News" "Text" "", title := "What is new"
    summaryText := "News", bodyHTML := "Text", publishedAt := start, origin := .sampled
    createdAt := start, updatedAt := start }

/-- The sampled item, promoted and served. -/
def journey : Journey matchers asciiCase where
  codec := codec
  previews := previews
  plane := plane
  env := env
  fold := id
  config := config
  request := { feedID := 1 }
  feed := feed
  spec := spec
  shownAt := start
  sampleID := 1
  remaining := 5
  before := before
  promotion := promotion
  newItemKey _ := "key"
  now := start
  clock := start
  created := start
  cand := { candidateID := "c1", title := "What is new", summaryText := "News", bodyHTML := "Text"
            renderedXML := some { title := "What is new", link := none, description := "News"
                                  contentEncoded := "Text", guid := "tag:feeds.example,1:daily/"
                                  pubDate := start } }
  preview := { title := "What is new", link := none, description := "News"
               contentEncoded := "Text", guid := "tag:feeds.example,1:daily/", pubDate := start }
  promoted := item
  after := after
  servedAt := start
  document := ⟨.xml, Publish.windowChannel plane "daily" (.feed .xml) feed [item] start⟩
  item := item
  validates := rfl
  admitted := by decide +kernel
  answered := by decide +kernel
  decodes := rfl
  chosen := by decide +kernel
  shown := rfl
  kept := rfl
  named := by decide +kernel
  promotes := Prod.ext rfl (by decide +kernel)
  served := by decide +kernel
  listed := List.mem_singleton_self _
  identified := rfl

end PreviewExample

/-- **A preview of 2026 shows the year 1**: with one authority for both planes, the sampled item
is promoted as it was and its guid still differs. -/
theorem not_faithful_year : ∃ j : Journey PreviewExample.matchers asciiCase,
      j.preview.guid = "tag:feeds.example,1:daily/" ∧
      j.published.guid = "tag:feeds.example,2026:daily/key" ∧
      ¬Faithful j.promoted.itemKey j.preview j.published := by
  have hguid : PreviewExample.journey.published.guid = "tag:feeds.example,2026:daily/key" := by
    decide +kernel
  refine ⟨PreviewExample.journey, rfl, hguid, fun h => ?_⟩
  exact absurd (hguid.symm.trans h.guid) (by decide +kernel)

end AnimeFeedFlux
