import AnimeFeedFlux.Publish.Freshness
import AnimeFeedFlux.Render.Faithful
import AnimeFeedFlux.Rpc.ItemEdit

/-!
# Does a conditional `GET` hide a change?

A response carries two validators: `ETag`, the quoted hex SHA-256 of the body, and
`Last-Modified`, the newest publication for a feed document, the last edit for a permalink, the
time of rendering for the index.  A client may send either back or both, and `notModified` looks
at the date only when there is no `If-None-Match`.  The body of a document changes with every
edit of an item and every change of its feed; the newest publication does not.

The bodies are the bytes of `RSS` for an RSS document and a parameter for the others; SHA-256 is a
parameter without collisions.  A date is the instant whose text stands in the header.
-/

namespace AnimeFeedFlux.Publish

open Machine Render GoStrings List

/-! ## Bodies -/

/-- An item as `writeItem` writes it. -/
def rssItemText (it : RssItem) : List Char :=
  "    <item>\n".toList ++
  writeElem "      " "title" (utf8 it.title) ++
  (match it.link with
    | some link => writeElem "      " "link" (utf8 link)
    | none => []) ++
  writeElem "      " "description" (utf8 it.description) ++
  "      <content:encoded>".toList ++ cdata (utf8 it.contentEncoded) ++
  "</content:encoded>\n".toList ++
  "      <guid isPermaLink=\"false\">".toList ++ escapeText (utf8 it.guid) ++ "</guid>\n".toList ++
  writeElem "      " "pubDate" (rfc822 it.pubDate) ++
  "    </item>\n".toList

/-- A document as `RSS` writes it. -/
def rssText (d : RssChannel) : List Char :=
  "<?xml version=\"1.0\" encoding=\"utf-8\"?>\n".toList ++
  ("<rss version=\"2.0\" xmlns:atom=\"http://www.w3.org/2005/Atom\" " ++
    "xmlns:content=\"http://purl.org/rss/1.0/modules/content/\">\n").toList ++
  "  <channel>\n".toList ++
  writeElem "    " "title" (utf8 d.title) ++
  writeElem "    " "link" (utf8 d.link) ++
  writeElem "    " "description" (utf8 d.description) ++
  writeElem "    " "language" (utf8 d.language) ++
  writeElem "    " "pubDate" (rfc822 d.pubDate) ++
  writeElem "    " "lastBuildDate" (rfc822 d.lastBuildDate) ++
  writeElem "    " "generator" (utf8 d.generator) ++
  writeElem "    " "docs" (utf8 d.docs) ++
  writeElem "    " "ttl" (utf8 (toString (d.ttl : ℤ))) ++
  "    <atom:link rel=\"self\" type=\"application/rss+xml\" href=\"".toList ++
  escapeText (utf8 d.selfLink) ++ "\"/>\n".toList ++
  d.items.flatMap rssItemText ++
  "  </channel>\n".toList ++
  "</rss>\n".toList

theorem rssItemText_rssItem (c : Channel) (it : Item) :
    rssItemText (rssItem c it) = Render.writeItem c.raw (itemRaw it) := by
  have hlink : (match nonEmpty it.link with
      | some link => writeElem "      " "link" (utf8 link)
      | none => []) =
      if (itemRaw it).link ≠ [] then writeElem "      " "link" (itemRaw it).link else [] := by
    by_cases hempty : it.link = "" <;> simp [nonEmpty, itemRaw, hempty]
  unfold rssItemText Render.writeItem
  rw [renderCardText_itemRaw, bodyWithAnswer_itemRaw, tagURI_raw, ← hlink]
  rfl

theorem newestPublished_raw (c : Channel) : c.raw.newestPublished = c.newestPublished := by
  simp only [RawChannel.newestPublished, Channel.newestPublished, Channel.raw, foldl_map]
  rfl

/-- **The text of a page is what `RSS` writes for its channel.** -/
theorem rssText_rss (c : Channel) : rssText (rss c) = writeRSS c.raw := by
  have hitems : (rss c).items.flatMap rssItemText =
      c.raw.newestFirst.flatMap (Render.writeItem c.raw) := by
    rw [newestFirst_raw, rss, flatMap_map, flatMap_map]
    exact flatMap_congr fun it _ => rssItemText_rssItem c it
  unfold rssText writeRSS
  rw [hitems, newestPublished_raw]
  rfl

/-- What a reader takes an item of the page for. -/
def readBack (it : RssItem) : Render.Entry where
  id := it.guid.toList
  title := it.title.toList
  summary := it.description.toList
  body := it.contentEncoded.toList

/-- A channel whose names have their characters and whose texts XML can represent. -/
structure ReadableChannel extends Channel where
  names : toChannel.raw.WellNamed
  texts : ∀ it ∈ items, Representable it.title ∧ Representable (cardText it) ∧
    Representable (itemBodyWithAnswer it)

/-- **A reader gets back what was published**: the parse of the document lists the items of the
page, newest first, with nothing lost or added. -/
theorem rssEntries_rssText (c : ReadableChannel) :
    (Xml.parse (encode (rssText (rss c.toChannel)))).bind rssEntries =
      some ((newestFirst c.items).map fun it => readBack (rssItem c.toChannel it)) := by
  rw [rssText_rss, rssEntries_writeRSS c.names, newestFirst_raw, map_map]
  refine congrArg some (map_congr_left fun it hit => ?_)
  obtain ⟨htitle, hcard, hbody⟩ := c.texts it ((perm_insertionSort _ _).subset hit)
  have hraw : (itemRaw it).title = utf8 it.title := rfl
  simp [RawChannel.entry, tagURI_raw, hraw, renderCardText_itemRaw, bodyWithAnswer_itemRaw, rssItem,
    readBack, sanitizeXMLText_utf8 htitle, sanitizeXMLText_utf8 hcard, sanitizeXMLText_utf8 hbody]

/-- A quiz of two items, the later one with markup in its title, its body and its answer. -/
def twoQuestions : ReadableChannel where
  toChannel := windowChannel quizDeps "quiz" (.feed .xml)
    ((getFeedBySlug quizStore.db "quiz").toOption.join.get rfl)
    (quizStore.db.items ++ quizStore.db.items.map fun it =>
      { it with itemKey := "01KN2M0001QV1Z7J3C5D8E9FGH", title := "Is 1 < 2 & 2 > 1?"
                bodyHTML := "<p>a ]]> b</p>", answerHTML := "<em>Yes</em>"
                publishedAt := it.publishedAt + Time.second }) march2026
  names := ⟨by decide +kernel, by decide +kernel, by decide +kernel⟩
  texts := by decide +kernel

theorem rssEntries_rssText_twoQuestions :
    ((Xml.parse (encode (rssText (rss twoQuestions.toChannel)))).bind rssEntries).map
      (·.map fun e => (String.ofList e.title, String.ofList e.body)) =
    some [("Is 1 < 2 & 2 > 1?", "<p>a ]]> b</p><hr class=\"spoiler-break\"/>" ++
      "<p><strong>Answer:</strong> <em>Yes</em></p>"), ("Capital of Japan?", "")] := by
  rw [rssEntries_rssText]
  decide +kernel

/-- How pages are serialised, RSS apart, and hashed.  `sum256` is `sha256.Sum256`. -/
structure Wire where
  other : Page → Bytes
  sum256 : Bytes → Bytes
  collisionFree : ∀ b b', sum256 b = sum256 b' → b = b'

/-- The body of a page. -/
def Wire.body (w : Wire) : Page → Bytes
  | .rss d => encode (rssText d)
  | page => w.other page

/-- `hex.EncodeToString`. -/
def hexEncode (b : Bytes) : List Char :=
  b.flatMap fun x => [Nat.digitChar (x.toNat / 16), Nat.digitChar (x.toNat % 16)]

/-- The text between quotes. -/
def quoted (cs : List Char) : String := String.ofList ('"' :: (cs ++ ['"']))

/-- `Entry.ETag`, as `NewEntry` computes it. -/
def Wire.etag (w : Wire) (e : Entry) : String := quoted (hexEncode (w.sum256 (w.body e.page)))

/-! ## Conditional requests -/

/-- The conditional headers of a request; an absent `If-None-Match` is the empty text. -/
structure Conditions where
  ifNoneMatch : String := ""
  ifModifiedSince : Option ℤ := none
  deriving DecidableEq, Repr

/-- `http.ParseTime` of the text of `t`: its second, when the year has four digits. -/
def parseHttpTime (t : ℤ) : Option ℤ := if FourDigitYear t then some (Time.seconds t) else none

def etagMatch (header etag : String) : Bool :=
  (header.toList.splitOn ',').any fun tok =>
    let tok := trimSpace (String.ofList tok)
    tok == "*" || trimPrefix tok "W/" == etag

def notModified (w : Wire) (r : Conditions) (e : Entry) : Bool :=
  if r.ifNoneMatch ≠ "" then etagMatch r.ifNoneMatch (w.etag e)
  else
    match r.ifModifiedSince with
    | none => false
    | some ims =>
      match parseHttpTime ims with
      | none => false
      | some since =>
        match parseHttpTime e.lastModified with
        | none => false
        | some lastMod => !decide (since < lastMod)

/-- The validators a client sends back. -/
structure Replay where
  etag : Bool
  lastModified : Bool
  deriving DecidableEq, Repr

/-- The request of a client that once got `e`. -/
def Replay.conditions (replay : Replay) (w : Wire) (e : Entry) : Conditions :=
  { ifNoneMatch := if replay.etag then w.etag e else ""
    ifModifiedSince := if replay.lastModified then some e.lastModified else none }

/-- In every run, from any store and with a cache of any size: when a client got the page `e` and
the answer to a later request for the same URL is `e'`, then `304` is sent in its place only if
the body is the same.  The answers after `before` are counted anew. -/
def Unhidden (w : Wire) (replay : Replay) : Prop :=
  ∀ (deps : Deps) (s : Published) (max : ℤ) (before after : List Move),
    let p := exec (Plane.step deps) { store := s, cache := { max } } before
    let q := exec (Plane.step deps) { p with answers := [] } after
    ∀ a ∈ p.answers, ∀ a' ∈ q.answers, ∀ e e', a.req = a'.req →
      a.response = .page e → a'.response = .page e' →
      notModified w (replay.conditions w e) e' = true → w.body e'.page = w.body e.page

/-! ## The hash -/

theorem digitChar_inj {m n : ℕ} (hm : m < 16) (hn : n < 16)
    (h : Nat.digitChar m = Nat.digitChar n) : m = n := by
  have hall : ∀ m < 16, ∀ n < 16, Nat.digitChar m = Nat.digitChar n → m = n := by decide
  exact hall m hm n hn h

theorem hexEncode_inj {b b' : Bytes} (h : hexEncode b = hexEncode b') : b = b' := by
  induction b generalizing b' with
  | nil =>
    cases b' with
    | nil => rfl
    | cons y b' => cases h
  | cons x b ih =>
    cases b' with
    | nil => cases h
    | cons y b' =>
      have hx := x.toNat_lt
      have hy := y.toNat_lt
      simp only [hexEncode, flatMap_cons, cons_append, nil_append, List.cons.injEq] at h
      have hhigh := digitChar_inj (by omega) (by omega) h.1
      have hlow := digitChar_inj (by omega) (by omega) h.2.1
      have hbyte : x = y := UInt8.toNat_inj.1 (by omega)
      rw [hbyte, ih h.2.2]

theorem comma_notMem_hexEncode (b : Bytes) : ',' ∉ hexEncode b := by
  have hall : ∀ n < 16, Nat.digitChar n ≠ ',' := by decide
  intro h
  obtain ⟨x, -, hx⟩ := mem_flatMap.1 h
  have hlt := x.toNat_lt
  simp only [mem_cons, not_mem_nil, or_false] at hx
  rcases hx with hx | hx
  · exact hall _ (by omega) hx.symm
  · exact hall _ (by omega) hx.symm

@[simp] theorem toList_quoted (cs : List Char) : (quoted cs).toList = '"' :: (cs ++ ['"']) :=
  String.toList_ofList

theorem quoted_inj {cs cs' : List Char} (h : quoted cs = quoted cs') : cs = cs' := by
  have htext : '"' :: (cs ++ ['"']) = '"' :: (cs' ++ ['"']) := String.ofList_injective h
  exact append_cancel_right (List.cons.inj htext).2

theorem quoted_ne_empty (cs : List Char) : quoted cs ≠ "" := by
  intro h
  have hlist := toList_quoted cs
  rw [h] at hlist
  cases hlist

theorem trimSpace_quoted (cs : List Char) : trimSpace (quoted cs) = quoted cs := by
  have hquote : isSpace '"' = false := by decide
  rw [trimSpace, toList_quoted, dropWhile_cons_of_neg (by simp [hquote]), ← cons_append,
    reverse_append, reverse_singleton, singleton_append,
    dropWhile_cons_of_neg (by simp [hquote]), reverse_cons, reverse_reverse]
  rfl

theorem etagMatch_quoted {cs : List Char} (h : ',' ∉ cs) (etag : String) :
    etagMatch (quoted cs) etag = (quoted cs == etag) := by
  have hsplit : (quoted cs).toList.splitOn ',' = [(quoted cs).toList] :=
    splitOn_eq_singleton (by simp [h])
  have hstar : (quoted cs == "*") = false := by
    refine beq_false_of_ne fun heq => ?_
    have hlist := toList_quoted cs
    rw [heq] at hlist
    cases hlist
  have hweak : trimPrefix (quoted cs) "W/" = quoted cs := by
    rw [trimPrefix, hasPrefix, toList_quoted]
    rfl
  simp only [etagMatch, hsplit, any_cons, any_nil, Bool.or_false, String.ofList_toList,
    trimSpace_quoted, hstar, hweak, Bool.false_or]

variable {w : Wire} {e e' : Entry}

theorem body_of_etagMatch (h : etagMatch (w.etag e) (w.etag e')) :
    w.body e'.page = w.body e.page := by
  rw [Wire.etag, etagMatch_quoted (comma_notMem_hexEncode _), beq_iff_eq] at h
  exact (w.collisionFree _ _ (hexEncode_inj (quoted_inj h))).symm

theorem body_of_notModified {replay : Replay} (hetag : replay.etag)
    (h : notModified w (replay.conditions w e) e') : w.body e'.page = w.body e.page := by
  have hheader : (replay.conditions w e).ifNoneMatch = w.etag e := by
    simp [Replay.conditions, hetag]
  have hsent : w.etag e ≠ "" := quoted_ne_empty _
  rw [notModified, hheader, if_pos hsent] at h
  exact body_of_etagMatch h

theorem notModified_date (h : FourDigitYear e.lastModified) (h' : FourDigitYear e'.lastModified)
    (hle : Time.seconds e'.lastModified ≤ Time.seconds e.lastModified) :
    notModified w (Replay.conditions ⟨false, true⟩ w e) e' := by
  simp [notModified, Replay.conditions, parseHttpTime, h, h', hle]

/-! ## An edit that is hidden -/

/-- An hour after the quiz was published. -/
def anHourLater : ℤ := march2026 + 3600 * Time.second

/-- The quiz after `ItemServer.Update` gave its item another title. -/
def quizStoreEdited : Published where
  db := (updateItem id { db := quizStore.db }
    { id := 1, expectedVersion := 1, title := "Capital of France?" } anHourLater).1.db
  slugs := by decide
  itemKeys := by decide +kernel

/-- The RSS document of the quiz. -/
def quizFeed : Request := handleFeed "quiz" .xml

/-- A request that misses, at the time `now`. -/
def asked (req : Request) (now : ℤ) : List Move :=
  [.arrive req, .advance 0 now, .advance 0 now, .advance 0 now, .advance 0 now]

/-- The item is edited, the feed invalidated, and its document asked for again. -/
def askedAfterEdit : List Move :=
  [.write quizStoreEdited [quizSlug], .invalidate 0 []] ++ asked quizFeed anHourLater

/-- The document of the quiz with the given title of its item, rendered at `now`. -/
def quizEntry (title : String) (now : ℤ) : Entry where
  page := .rss
    { title := "Quiz", link := "https://feeds.example/", description := "", language := "en"
      pubDate := march2026, lastBuildDate := now, generator := "", docs := "", ttl := 15
      selfLink := "https://feeds.example/feeds/quiz.xml"
      items := [{ title, link := none, description := "", contentEncoded := ""
                  guid := "tag:feeds.example,2026:quiz/01KN2M0000QV1Z7J3C5D8E9FGH"
                  pubDate := march2026 }] }
  bodyLen := 100
  gzipLen := 60
  lastModified := march2026
  contentType := "application/rss+xml; charset=utf-8"

/-- The requests answered so far, with the answers. -/
def Plane.served (p : Plane) : List (Request × Response) :=
  p.answers.map fun a => (a.req, a.response)

theorem served_quiz : (exec (Plane.step quizDeps) quizPlane (asked quizFeed march2026)).served =
    [(quizFeed, .page (quizEntry "Capital of Japan?" march2026))] := by
  decide +kernel

theorem served_quiz_edited : (exec (Plane.step quizDeps)
      { exec (Plane.step quizDeps) quizPlane (asked quizFeed march2026) with answers := [] }
      askedAfterEdit).served =
        [(quizFeed, .page (quizEntry "Capital of France?" anHourLater))] := by
  decide +kernel

theorem body_quizEntry_ne (w : Wire) : w.body (quizEntry "Capital of France?" anHourLater).page ≠
      w.body (quizEntry "Capital of Japan?" march2026).page := by
  intro h
  have htext := congrArg runes h
  simp only [Wire.body, quizEntry, runes_encode] at htext
  -- The first difference is the hour of `lastBuildDate`.
  unfold rssText at htext
  simp only [append_assoc, append_cancel_left_eq] at htext
  exact absurd (append_inj_left htext (by decide +kernel)) (by decide +kernel)

/-- A client that sends back nothing but the date is told that nothing changed. -/
theorem not_unhidden_date (w : Wire) : ¬ Unhidden w { etag := false, lastModified := true } := by
  intro h
  have hfirst : (quizFeed, Response.page (quizEntry "Capital of Japan?" march2026)) ∈
      (exec (Plane.step quizDeps) quizPlane (asked quizFeed march2026)).served := by
    rw [served_quiz]
    exact mem_singleton_self _
  have hsecond : (quizFeed, Response.page (quizEntry "Capital of France?" anHourLater)) ∈
      (exec (Plane.step quizDeps)
        { exec (Plane.step quizDeps) quizPlane (asked quizFeed march2026) with answers := [] }
        askedAfterEdit).served := by
    rw [served_quiz_edited]
    exact mem_singleton_self _
  obtain ⟨a, ha, heq⟩ := mem_map.1 hfirst
  obtain ⟨a', ha', heq'⟩ := mem_map.1 hsecond
  rw [Prod.mk.injEq] at heq heq'
  refine body_quizEntry_ne w (h quizDeps quizStore 1000 (asked quizFeed march2026) askedAfterEdit
    a ha a' ha' _ _ (heq.1.trans heq'.1.symm) heq.2 heq'.2 ?_)
  exact notModified_date (by decide) (by decide) (by decide)

/-! ## Who misses nothing -/

/-- **A client misses no change exactly if it sends the `ETag` back.** -/
theorem unhidden_iff (w : Wire) {replay : Replay}
    (h : replay.etag = true ∨ replay.lastModified = true) :
    Unhidden w replay ↔ replay.etag = true := by
  constructor
  · intro hunhidden
    by_contra hetag
    have hdate : replay = { etag := false, lastModified := true } := by
      cases replay
      simp_all
    rw [hdate] at hunhidden
    exact not_unhidden_date w hunhidden
  · intro hetag deps s max before after p q a _ a' _ e e' _ _ _ hnot
    exact body_of_notModified hetag hnot

/-- A hash that is the body itself. -/
def plainWire : Wire where
  other := fun _ => []
  sum256 := id
  collisionFree := fun _ _ h => h

/-- A client that sends both validators back. -/
theorem unhidden_iff_both : Unhidden plainWire { etag := true, lastModified := true } :=
  (unhidden_iff plainWire (.inl rfl)).2 rfl

/-- After the title of an item was edited, the feed document is not sent to a client that has only
its date. -/
theorem not_unhidden_edited : ¬ Unhidden plainWire { etag := false, lastModified := true } :=
  not_unhidden_date plainWire

end AnimeFeedFlux.Publish
