import AnimeFeedFlux.Rpc.Promote
import AnimeFeedFlux.Rpc.Sample

/-!
# Previews of a sample

`Sample` shows each candidate as the feed document would: it puts the item into a channel of its
own, renders that as RSS and takes out the one `<item>`.  What it shows and what promotion later
reads is one list of candidates, stored as JSON.

The Tag URI year of that channel is the year of the feed's creation time.  The feed comes from
`loadFeedRow`, which leaves the creation time at the zero Time.

Token shares, the embed preview and the verdicts are left out.
-/

namespace AnimeFeedFlux

open Render

/-- `PublicHost` and `Generator`. -/
structure PreviewConfig where
  publicHost : String
  generator : String := ""
  deriving DecidableEq, Repr

/-- `candidateChannel`; an item without a timestamp gets the clock's. -/
def candidateChannel (cfg : PreviewConfig) (feed : Feed) (it : Item) (now : ℤ) : Channel :=
  let tagYear := if Time.year feed.createdAt = 0 then Time.year now else Time.year feed.createdAt
  let it := if Time.isZero it.publishedAt then { it with publishedAt := now } else it
  { feed, selfURL := "https://" ++ cfg.publicHost ++ "/feeds/" ++ feed.slug ++ ".xml"
    htmlURL := "https://" ++ cfg.publicHost ++ "/", host := cfg.publicHost, tagYear, items := [it]
    buildTime := now, generator := cfg.generator
    docsURL := "https://www.rssboard.org/rss-specification" }

/-- `renderCandidateXML`: the one item of the document, which `smpExtractItemFragment` cuts out. -/
def renderCandidateXML (cfg : PreviewConfig) (feed : Feed) (it : Item) (now : ℤ) : Option RssItem :=
  (rss (candidateChannel cfg feed it now)).items.head?

/-- The candidate at position `i`. -/
def sampleCandidate (cfg : PreviewConfig) (feed : Feed) (now : ℤ) (i : ℕ) (it : Item) :
    SampleCandidate :=
  { candidateID := "c" ++ toString (i + 1), title := it.title, summaryText := it.summaryText
    bodyHTML := it.bodyHTML, answerHTML := it.answerHTML, link := it.link
    sourceName := it.sourceName, renderedXML := renderCandidateXML cfg feed it now }

def buildCandidates (cfg : PreviewConfig) (feed : Feed) (items : List Item) (now : ℤ) :
    List SampleCandidate :=
  items.mapIdx (sampleCandidate cfg feed now)

/-- The sampler of `feed` with these previews, stored in the encoding of `codec`. -/
def SampleEnv.previewing (env : SampleEnv) (cfg : PreviewConfig) (codec : PayloadCodec)
    (feed : Feed) (now : ℤ) : SampleEnv :=
  { env with
    buildCandidates := fun result =>
      .ok (codec.encode (AnimeFeedFlux.buildCandidates cfg feed result.items now))
    marshal := .ok }

/-! ## What a request stores -/

theorem putSample_find {db : DB} {feedID tokensIn tokensOut : ℕ} {payload : String} {costUSD : ℚ}
    {ttl now : ℤ} {r : DB × ℕ}
    (h : putSample db feedID payload tokensIn tokensOut costUSD ttl now = .ok r) :
    ∃ s, r.1.samples.find? (fun s => s.id == r.2) = some s ∧ s.feedID = feedID ∧
      s.payload = payload := by
  simp only [putSample] at h
  split at h
  · cases h
    have hnone : db.samples.find? (fun s => s.id == nextID (db.samples.map (·.id))) = none := by
      refine List.find?_eq_none.2 fun s hs hid => ?_
      have hlt := lt_nextID (List.mem_map_of_mem (f := (·.id)) hs)
      rw [beq_iff_eq.1 hid] at hlt
      exact lt_irrefl _ hlt
    simp [List.find?_append, hnone]
  · cases h

/-- What a request that was answered has stored: the candidates of the dry run, under the id it
answered with. -/
theorem sampleRPC_stored {env : SampleEnv} {fold : String → String} {cfg : Config}
    {req : SampleRequest} {pcfg : PreviewConfig} {codec : PayloadCodec} {feed : Feed}
    {spec : GenSpec} {now : ℤ} {id : ℕ} {remaining : ℚ}
    (hadm : admitSample env fold cfg req = .ok (feed, spec))
    (h : (sampleRPC (env.previewing pcfg codec feed now) fold cfg req).answer =
      .ok (id, remaining)) :
    ∃ s, (sampleRPC (env.previewing pcfg codec feed now) fold cfg req).db.samples.find?
        (fun s => s.id == id) = some s ∧ s.feedID = feed.id ∧
      s.payload =
        codec.encode (buildCandidates pcfg feed (sample env.deps feed spec).items now) := by
  have hadm' : admitSample (env.previewing pcfg codec feed now) fold cfg req = .ok (feed, spec) :=
    hadm
  have hdeps : (env.previewing pcfg codec feed now).deps = env.deps := rfl
  simp only [sampleRPC, prepareSample, hadm', hdeps] at h ⊢
  cases herr : (sample env.deps feed spec).err with
  | some e =>
    simp only [herr] at h
    cases h
  | none =>
    simp only [herr, SampleEnv.previewing] at h ⊢
    split at h
    · cases h
    rename_i db id' hput
    split at h
    · cases h
    cases h
    exact putSample_find (Moment.read_eq_ok.1 hput).2

end AnimeFeedFlux
