import AnimeFeedFlux.Lib.Bytes
import AnimeFeedFlux.Render.Documents
import AnimeFeedFlux.Rpc.Item

/-!
# Promoting a sample

`ItemServer.PromoteSample` takes one candidate out of the payload of a stored sample and
publishes it.  The payload is JSON that the sampler wrote; it is read again by the types it was
written from.  The candidate's markup goes through the sanitizer once more.
-/

namespace AnimeFeedFlux

open GoStrings

/-- `affv1.SampleCandidate`, as far as promotion reads it, with the preview of the feed document.
Its number and its verdicts are left out. -/
structure SampleCandidate where
  candidateID : String
  title : String := ""
  summaryText : String := ""
  bodyHTML : String := ""
  answerHTML : String := ""
  link : String := ""
  sourceName : String := ""
  renderedXML : Option Render.RssItem := none
  deriving DecidableEq, Repr

/-- `encoding/json` on payloads: a list of candidates, or an object around one. -/
structure PayloadCodec where
  encode : List SampleCandidate → String
  list : String → Option (List SampleCandidate)
  wrapped : String → Option (List SampleCandidate)

def itemFindCandidate (codec : PayloadCodec) (payload candidateID : String) :
    Except String SampleCandidate :=
  match (codec.list payload).or (codec.wrapped payload) with
  | none => .error "parsing sample payload"
  | some cs =>
    match cs.find? (·.candidateID == candidateID) with
    | none => .error ("candidate \"" ++ candidateID ++ "\" not present in sample payload")
    | some c => .ok c

/-- `Store.GetSample`: an expired sample is not found. -/
def getSample (db : DB) (id : ℤ) (now : ℤ) : Except StoreError Sample :=
  match db.samples.find? fun s => (s.id : ℤ) == id with
  | none => .error .notFound
  | some s =>
    if ¬(FourDigitYear s.createdAt ∧ FourDigitYear s.expiresAt) then .error .badTime
    else if now < s.expiresAt then .ok s else .error .notFound

/-- `ItemServicePromoteSampleRequest`. -/
structure PromoteRequest where
  sampleID : String
  candidateID : String
  deriving DecidableEq, Repr

/-- The item a candidate becomes; the store stamps it and sets its feed. -/
def candidateItem (sanitize : String → String) (itemKey : String) (feedID : ℕ)
    (cand : SampleCandidate) : Item :=
  let body := sanitize cand.bodyHTML
  { feedID, itemKey
    contentHash := itemContentHash feedID cand.title cand.summaryText body cand.link
    title := cand.title, summaryText := cand.summaryText, bodyHTML := body
    answerHTML := sanitize cand.answerHTML, link := cand.link, sourceName := cand.sourceName
    publishedAt := 0, origin := .sampled }

/-- `PromoteSample` up to the store's: the sample and the item.  The sample's feed, its slug and
the sample itself are read one after the other; `now` is the clock of `GetSample`. -/
def promotePrepare (codec : PayloadCodec) (sanitize : String → String) (itemKey : String)
    (reading naming getting : DB) (req : PromoteRequest) (now : ℤ) :
    Except RpcError (ℕ × Item) :=
  match parseInt (utf8 req.sampleID) 10 64 with
  | none => .error ⟨.invalidArgument, "rpc: sample_id \"" ++ req.sampleID ++
      "\" is not a valid id", none⟩
  | some id =>
    match reading.samples.find? fun s => (s.id : ℤ) == id with
    | none => .error ⟨.notFound, "rpc: sample " ++ toString id ++ " not found", none⟩
    | some s =>
      match itemFeedSlug naming s.feedID with
      | none => .error ⟨.internal, "rpc: resolving feed " ++ toString s.feedID ++
          " for sample " ++ toString id, some .notFound⟩
      | some _ =>
        match getSample getting id now with
        | .error .notFound => .error ⟨.notFound, "rpc: sample " ++ toString id ++
            " not found or expired", none⟩
        | .error e => .error ⟨.internal, "rpc: getting sample " ++ toString id, some e⟩
        | .ok sm =>
          match itemFindCandidate codec sm.payload req.candidateID with
          | .error e => .error ⟨.notFound, "rpc: " ++ e, none⟩
          | .ok cand => .ok (s.id, candidateItem sanitize itemKey s.feedID cand)

/-- What a prepared promotion has found: the sample, and a candidate in the payload of the sample
as it was got. -/
theorem promotePrepare_found {codec : PayloadCodec} {sanitize : String → String} {itemKey : String}
    {reading naming getting : DB} {req : PromoteRequest} {now : ℤ} {id : ℕ} {it : Item}
    (h : promotePrepare codec sanitize itemKey reading naming getting req now = .ok (id, it)) :
    ∃ n s sm cand, parseInt (utf8 req.sampleID) 10 64 = some n ∧
      reading.samples.find? (fun s => (s.id : ℤ) == n) = some s ∧ id = s.id ∧
      getSample getting n now = .ok sm ∧
      itemFindCandidate codec sm.payload req.candidateID = .ok cand ∧
      it = candidateItem sanitize itemKey s.feedID cand := by
  simp only [promotePrepare] at h
  split at h
  · cases h
  rename_i n hparse
  split at h
  · cases h
  rename_i s hfind
  split at h
  · cases h
  split at h
  · cases h
  · cases h
  rename_i sm hget
  split at h
  · cases h
  rename_i cand hcand
  cases h
  exact ⟨n, s, sm, cand, hparse, hfind, rfl, hget, hcand, rfl⟩

theorem getSample_ok {db : DB} {id now : ℤ} {sm : Sample} (h : getSample db id now = .ok sm) :
    db.samples.find? (fun s => (s.id : ℤ) == id) = some sm := by
  simp only [getSample] at h
  split at h
  · cases h
  rename_i s hfind
  split at h
  · cases h
  split at h
  · cases h
    exact hfind
  · cases h

/-- The answer of `PromoteSample` once the item is stored: a stamp no feed format can render is
reported. -/
def promoteReply (db : DB) (id : ℕ) : Except RpcError Item :=
  match itemLoadByID db id with
  | .error e => .error ⟨.internal, "rpc: reloading promoted item " ++ toString id, some e⟩
  | .ok it =>
    match itemValidatePublishedAt it.publishedAt with
    | .error e => .error ⟨.internal, "rpc: promoted item " ++ toString id ++
        " committed with published_at outside the range every feed format can render: " ++
        e.message, none⟩
    | .ok () => .ok it

theorem promoteReply_ok {db : DB} {id : ℕ} {it : Item} (h : promoteReply db id = .ok it) :
    itemLoadByID db id = .ok it := by
  simp only [promoteReply] at h
  split at h
  · cases h
  rename_i hload
  split at h
  · cases h
  cases h
  exact hload

/-- `ItemServer.PromoteSample`, run without interruption. -/
def itemPromoteSample (codec : PayloadCodec) (sanitize : String → String) (newItemKey : ℤ → String)
    (db : DB) (req : PromoteRequest) (now clock created : ℤ) : Reply Item :=
  match promotePrepare codec sanitize (newItemKey now) db db db req now with
  | .error e => (db, .error e)
  | .ok (id, it) =>
    match promoteSample db id it clock created with
    | .error .notFound => (db, .error ⟨.notFound, "rpc: sample " ++ toString id ++
        " not found, expired, or already promoted/discarded", none⟩)
    | .error e => (db, .error ⟨.internal, "rpc: promoting sample " ++ toString id, some e⟩)
    | .ok db' => (db', promoteReply db' (nextID (db.items.map (·.id))))

end AnimeFeedFlux
