import AnimeFeedFlux.Generate.Deps
import AnimeFeedFlux.Lib.Url

/-!
# The normal form of a link

`internal/urlnorm`: the address of an article is brought into one form, so that two ways of
writing it compare as equal.  Scheme and host are in lower case, a default port and trailing
slashes go, tracking parameters go, the others are sorted, the fragment goes.

`FetchCandidates` does this to each article of a source before anything else sees it.
-/

namespace AnimeFeedFlux.Urlnorm

open GoStrings NetUrl

def trackingParamNames : List Bytes :=
  ["fbclid", "gclid", "mc_cid", "mc_eid", "igshid", "ref", "ref_src"].map utf8

def isTrackingParam (name : Bytes) : Bool :=
  trackingParamNames.contains name || (utf8 "utm_").isPrefixOf name

def normalizeHost (u : CaseTable) (scheme host : Bytes) : Bytes :=
  let (hostname, port) := match cutLast host ':'.toUInt8 with
    | some (before, maybePort) =>
      if maybePort != [] && maybePort.all isDigit then (before, maybePort) else (host, [])
    | none => (host, [])
  let hostname := toLowerBytes u hostname
  let port :=
    if (scheme = utf8 "http" ∧ port = utf8 "80") ∨ (scheme = utf8 "https" ∧ port = utf8 "443")
    then [] else port
  if port = [] then hostname else hostname ++ ':'.toUInt8 :: port

/-- The loop over the trailing slashes of a path: they go, down to a path of one byte. -/
def stripSlashes (path : Bytes) : Bytes :=
  match path with
  | [] => []
  | b :: rest => b :: trimRight rest (utf8 "/")

/-- The order of `sort.Strings`. -/
def bytesLE : Bytes → Bytes → Bool
  | [], _ => true
  | _ :: _, [] => false
  | a :: s, b :: t => a < b || (a == b && bytesLE s t)

def encodeSortedQuery (values : Values) : Bytes :=
  let keys := ((values.map (·.1)).dedup).insertionSort (bytesLE · ·)
  let params := keys.flatMap fun k =>
    (((values.filter (·.1 == k)).map (·.2)).insertionSort (bytesLE · ·)).map fun v =>
      escape k .queryComponent ++ '='.toUInt8 :: escape v .queryComponent
  ['&'.toUInt8].intercalate params

def normalize (u : CaseTable) (raw : Bytes) : Option Bytes :=
  match parse u raw with
  | none => none
  | some url =>
    if url.scheme = [] ∨ url.hostname = [] then none
    else
      let scheme := toLowerBytes u url.scheme
      let rawQuery := if url.rawQuery = [] then []
        else encodeSortedQuery ((parseQuery url.rawQuery).filter fun p => !isTrackingParam p.1)
      some { url with
        scheme, host := normalizeHost u scheme url.host, path := stripSlashes url.path
        rawQuery, fragment := [], rawFragment := [] }.toBytes

/-- `Normalize` of a text; what it returns is ASCII. -/
def normalizeText (u : CaseTable) (raw : String) : Option String :=
  (normalize u (utf8 raw)).map fun s => String.ofList (runes s)

/-- The articles of `FetchCandidates`: what has no address, or none that can be normalized, is
left out. -/
def normalized (u : CaseTable) (cands : List SourceArticle) : List SourceArticle :=
  cands.filterMap fun c =>
    if c.url = "" then none else (normalizeText u c.url).map fun url => { c with url }

end AnimeFeedFlux.Urlnorm
