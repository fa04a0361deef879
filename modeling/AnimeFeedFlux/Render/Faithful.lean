import AnimeFeedFlux.Render.Serialize

/-!
# The three formats say the same

Whatever bytes the texts of a channel hold, the RSS and the Atom document are well-formed XML, and
what a reader finds in them, item by item, are the sanitized texts: the same entries, in the same
order, in both and in the JSON feed.

The documents are built line by line, so each writer is first brought into the form of lines and
elements (`writeItem_eq`, `writeAtomEntry_eq`); from there the rules for fragments give what is
read, and the queries pick the entries out of it.
-/

namespace AnimeFeedFlux.Render

open GoStrings Digits Xml List

/-! ## Readers -/

/-- What the formats show of an item. -/
structure Entry where
  id : List Char
  title : List Char
  summary : List Char
  body : List Char
  deriving DecidableEq, Repr

/-- The entry of an item: its Tag URI and its sanitized texts. -/
def RawChannel.entry (c : RawChannel) (it : RawItem) : Entry :=
  { id := (c.tagURI it).toList, title := sanitizeXMLText it.title
    summary := sanitizeXMLText it.renderCardText, body := sanitizeXMLText it.bodyWithAnswer }

/-- What is in the children with this name. -/
def children (name : String) (ns : List Content) : List (List Content) := named name.toList ns

/-- The contents of the only child with this name. -/
def only (name : String) (ns : List Content) : Option (List Content) :=
  match children name ns with
  | [inner] => some inner
  | _ => none

/-- An entry under the names of a format. -/
def readEntry (id title summary body : String) (ns : List Content) : Option Entry := do
  let id ← only id ns
  let title ← only title ns
  let summary ← only summary ns
  let body ← only body ns
  return { id := charData id, title := charData title, summary := charData summary
           body := charData body }

/-- The items of an RSS document. -/
def rssEntries : Content → Option (List Entry)
  | .char _ => none
  | .elem name _ ns => do
    guard (name = "rss".toList)
    let channel ← only "channel" ns
    (children "item" channel).mapM (readEntry "guid" "title" "description" "content:encoded")

/-- The entries of an Atom document. -/
def atomEntries : Content → Option (List Entry)
  | .char _ => none
  | .elem name _ ns => do
    guard (name = "feed".toList)
    (children "entry" ns).mapM (readEntry "id" "title" "summary" "content")

/-- The items of a JSON feed. -/
def JsonFeedValue.entries (d : JsonFeedValue) : List Entry :=
  d.items.map fun it =>
    { id := it.id, title := it.title, summary := it.summary, body := it.contentHTML }

/-! ## Lines and elements -/

/-- Something on a line of its own. -/
def line (indent : String) (s : List Char) : List Char := indent.toList ++ (s ++ "\n".toList)

/-- The character data of blanks. -/
def blanks (s : String) : List Content := s.toList.map .char

/-- What a line holds, with the blanks around it. -/
def lineNodes (indent : String) (n : Content) : List Content := blanks indent ++ (n :: blanks "\n")

/-- An element. -/
def tagged (name : String) (attrs : Attrs) (inner : List Char) : List Char :=
  elemText escapeChar name.toList attrs inner

/-- What is read of it. -/
def node (name : String) (attrs : Attrs) (ns : List Content) : Content :=
  .elem name.toList (readAttrs attrs) ns

/-- The character data of a text. -/
def texts (s : Bytes) : List Content := (sanitizeXMLText s).map .char

theorem frag_texts (s : Bytes) : Frag (escapeText s) (texts s) := frag_escapeText s

@[simp] theorem charData_texts (s : Bytes) : charData (texts s) = sanitizeXMLText s :=
  charData_chars _

section
variable (name : String)

@[simp] theorem children_nil : children name [] = [] := rfl

@[simp] theorem children_append (ns ms : List Content) :
    children name (ns ++ ms) = children name ns ++ children name ms := named_append _ ns ms

@[simp] theorem children_blanks (s : String) : children name (blanks s) = [] := named_chars _ _

@[simp] theorem children_flatMap {α : Type} (nodes : α → List Content) (l : List α) :
    children name (l.flatMap nodes) = l.flatMap fun a => children name (nodes a) :=
  named_flatMap _ nodes l

@[simp] theorem children_lineNodes (indent child : String)
    (attrs : Attrs) (inner : List Content) :
    children name (lineNodes indent (node child attrs inner)) =
      if child = name then [inner] else [] := by
  simp [children, lineNodes, blanks, node, String.toList_inj]

@[simp] theorem children_ite {p : Prop} [Decidable p] (ns ms : List Content) :
    children name (if p then ns else ms) = if p then children name ns else children name ms :=
  apply_ite _ _ _ _

end

theorem frag_blanks {s : String} (h : s.toList.all (fun c => c == ' ' || c == '\n') = true) :
    Frag s.toList (blanks s) := by
  refine frag_plain fun c hc => ?_
  have hblank := all_eq_true.1 h c hc
  rw [Bool.or_eq_true, beq_iff_eq, beq_iff_eq] at hblank
  rcases hblank with rfl | rfl
  · decide
  · decide

variable {indent name : String} {attrs : Attrs}

theorem frag_line {s : List Char} {n : Content}
    (hindent : indent.toList.all (fun c => c == ' ' || c == '\n') = true) (h : Frag s [n]) :
    Frag (line indent s) (lineNodes indent n) :=
  (frag_blanks hindent).append (h.append (frag_blanks rfl))

theorem writesAttrs_of_chars (hkeys : ∀ a ∈ attrs, isName a.1)
    (hvalues : ∀ a ∈ attrs, ∀ c ∈ a.2, isChar c ∧ c ≠ '\r')
    (hnodup : (attrs.map (·.1)).Nodup) : WritesAttrs escapeChar attrs :=
  ⟨hkeys, fun a ha c hc => writes_escapeChar (hvalues a ha c hc).1 (hvalues a ha c hc).2, hnodup⟩

/-- Characters that an attribute value may have. -/
def Plain (s : List Char) : Prop := s.all (fun c => isChar c && c != '\r') = true
deriving Decidable

theorem Plain.chars {s : List Char} (h : Plain s) : ∀ c ∈ s, isChar c ∧ c ≠ '\r' := by
  simpa [Plain] using h

theorem writesAttrs_of_plain (h : ∀ a ∈ attrs, isName a.1 ∧ Plain a.2)
    (hnodup : (attrs.map (·.1)).Nodup) : WritesAttrs escapeChar attrs :=
  writesAttrs_of_chars (fun a ha => (h a ha).1) (fun a ha => (h a ha).2.chars) hnodup

theorem writesAttrs_nil : WritesAttrs escapeChar [] :=
  writesAttrs_of_plain (by decide) (by decide)

theorem frag_tagged (hname : isName name.toList) (hattrs : WritesAttrs escapeChar attrs)
    {inner : List Char} {ns : List Content} (h : Frag inner ns) :
    Frag (tagged name attrs inner) [node name attrs ns] :=
  frag_elem hname hattrs h

/-- A start tag after its indentation. -/
def openText (indent name : String) (attrs : Attrs) : List Char :=
  indent.toList ++ '<' :: (name.toList ++ (attrsText escapeChar attrs ++ ['>']))

/-- An end tag and the end of its line. -/
def closeText (name : String) : List Char := '<' :: '/' :: (name.toList ++ ['>', '\n'])

theorem line_tagged (indent name : String) (attrs : Attrs)
    (inner : List Char) :
    line indent (tagged name attrs inner) =
      openText indent name attrs ++ (inner ++ closeText name) := by
  simp [line, tagged, elemText, openText, closeText]

theorem document_eq (name : String) (attrs : Attrs) (inner : List Char) :
    header ++ (elemText escapeChar name.toList attrs inner ++ ['\n']) =
      header ++ (openText "" name attrs ++ (inner ++ closeText name)) :=
  congrArg (header ++ ·) (line_tagged "" name attrs inner)

theorem writeElem_eq (indent name : String) (value : Bytes) :
    writeElem indent name value = line indent (tagged name [] (escapeText value)) := by
  have hclose : ">\n".toList = ['>', '\n'] := rfl
  have hslash : "</".toList = ['<', '/'] := rfl
  simp [writeElem, line_tagged, openText, closeText, attrsText, hclose, hslash]

theorem frag_writeElem (value : Bytes)
    (hindent : indent.toList.all (fun c => c == ' ' || c == '\n') = true)
    (hname : isName name.toList) :
    Frag (writeElem indent name value) (lineNodes indent (node name [] (texts value))) := by
  rw [writeElem_eq]
  exact frag_line hindent (frag_tagged hname writesAttrs_nil (frag_texts value))

/-! ## Pieces -/

/-- A piece of a document: what is written, and what is read of it. -/
structure Piece where
  text : List Char
  nodes : List Content
  frag : Frag text nodes

namespace Piece

@[simps]
def concat (ps : List Piece) : Piece :=
  ⟨ps.flatMap text, ps.flatMap nodes, Frag.flatMap fun p _ => p.frag⟩

@[simps]
def onlyIf (p : Prop) [Decidable p] (piece : Piece) : Piece :=
  ⟨if p then piece.text else [], if p then piece.nodes else [], piece.frag.ite⟩

@[simps]
def escaped (s : Bytes) : Piece := ⟨escapeText s, texts s, frag_texts s⟩

@[simps]
def space (s : String) (h : s.toList.all (fun c => c == ' ' || c == '\n') = true) : Piece :=
  ⟨s.toList, blanks s, frag_blanks h⟩

section
variable (indent name : String)
  (h : indent.toList.all (fun c => c == ' ' || c == '\n') = true ∧ isName name.toList = true)

/-- What `writeElem` writes. -/
@[simps]
def leaf (value : Bytes) : Piece := ⟨writeElem indent name value, _, frag_writeElem value h.1 h.2⟩

variable (attrs : Attrs) (hattrs : WritesAttrs escapeChar attrs)

/-- An element on a line of its own. -/
@[simps]
def elem (inner : Piece) : Piece :=
  ⟨line indent (tagged name attrs inner.text), lineNodes indent (node name attrs inner.nodes),
    frag_line h.1 (frag_tagged h.2 hattrs inner.frag)⟩

/-- An element without contents. -/
@[simps]
def empty : Piece :=
  ⟨line indent (emptyText escapeChar name.toList attrs), lineNodes indent (node name attrs []),
    frag_line h.1 (frag_empty h.2 hattrs)⟩

end

end Piece

/-! ## RSS -/

def notPermaLink : Attrs := [("isPermaLink".toList, "false".toList)]

theorem writesAttrs_notPermaLink : WritesAttrs escapeChar notPermaLink :=
  writesAttrs_of_plain (by decide) (by decide)

section
variable (c : RawChannel) (it : RawItem)

/-- What is inside an `item`. -/
def itemInner : Piece :=
  .concat [.space "\n" (by decide), .leaf "      " "title" (by decide) it.title,
    .onlyIf (it.link ≠ []) (.leaf "      " "link" (by decide) it.link),
    .leaf "      " "description" (by decide) it.renderCardText,
    .elem "      " "content:encoded" (by decide) [] writesAttrs_nil
      ⟨_, _, frag_cdata_text it.bodyWithAnswer⟩,
    .elem "      " "guid" (by decide) notPermaLink writesAttrs_notPermaLink
      (.escaped (utf8 (c.tagURI it))),
    .leaf "      " "pubDate" (by decide) (rfc822 it.publishedAt), .space "    " (by decide)]

def itemPiece : Piece :=
  .elem "    " "item" (by decide) [] writesAttrs_nil (itemInner c it)

theorem writeItem_eq : writeItem c it = (itemPiece c it).text := by
  unfold writeItem itemPiece itemInner
  simp only [Piece.concat_text, Piece.elem_text, line_tagged, flatMap_cons, flatMap_nil,
    append_assoc, append_nil]
  rfl

/-- A link of a channel. -/
def selfLink (url : Bytes) : Attrs :=
  [("rel".toList, "self".toList), ("type".toList, "application/rss+xml".toList),
    ("href".toList, sanitizeXMLText url)]

def rssAttrs : Attrs :=
  [("version".toList, "2.0".toList), ("xmlns:atom".toList, "http://www.w3.org/2005/Atom".toList),
    ("xmlns:content".toList, "http://purl.org/rss/1.0/modules/content/".toList)]

theorem writesAttrs_rssAttrs : WritesAttrs escapeChar rssAttrs :=
  writesAttrs_of_plain (by decide) (by decide)

theorem isChar_text (s : Bytes) : ∀ c ∈ sanitizeXMLText s, isChar c ∧ c ≠ '\r' := by
  intro c hc
  refine ⟨isChar_of_mem_sanitizeXMLText hc, ?_⟩
  rintro rfl
  exact clean_sanitizeXMLText s hc

theorem writesAttrs_selfLink (url : Bytes) : WritesAttrs escapeChar (selfLink url) := by
  refine writesAttrs_of_chars ?_ ?_ ?_
  · simp only [selfLink, forall_mem_cons]
    exact ⟨rfl, rfl, rfl, by simp⟩
  · simp only [selfLink, forall_mem_cons]
    exact ⟨Plain.chars (by decide), Plain.chars (by decide), isChar_text url, by simp⟩
  · simp only [selfLink, map_cons, map_nil]
    decide

/-- What is inside the `channel`. -/
def channelInner : Piece :=
  .concat [.space "\n" (by decide), .leaf "    " "title" (by decide) c.title,
    .leaf "    " "link" (by decide) c.htmlURL, .leaf "    " "description" (by decide) c.description,
    .leaf "    " "language" (by decide) c.language,
    .leaf "    " "pubDate" (by decide) (rfc822 c.newestPublished),
    .leaf "    " "lastBuildDate" (by decide) (rfc822 c.buildTime),
    .leaf "    " "generator" (by decide) c.generator, .leaf "    " "docs" (by decide) c.docsURL,
    .leaf "    " "ttl" (by decide) (utf8 (toString c.ttlMinutes)),
    .empty "    " "atom:link" (by decide) (selfLink c.selfURL) (writesAttrs_selfLink c.selfURL),
    .concat (c.newestFirst.map (itemPiece c)), .space "  " (by decide)]

theorem writeRSS_eq :
    writeRSS c = header ++ (elemText escapeChar "rss".toList rssAttrs
      ("\n".toList ++ line "  " (tagged "channel" [] (channelInner c).text)) ++ ['\n']) := by
  have hrss : ("<rss version=\"2.0\" xmlns:atom=\"http://www.w3.org/2005/Atom\" " ++
      "xmlns:content=\"http://purl.org/rss/1.0/modules/content/\">\n").toList =
      openText "" "rss" rssAttrs ++ ['\n'] := by decide +kernel
  have hchannel : "  <channel>\n".toList = openText "  " "channel" [] ++ ['\n'] := by decide
  have hlink : "    <atom:link rel=\"self\" type=\"application/rss+xml\" href=\"".toList ++
      (escapeText c.selfURL ++ "\"/>\n".toList) =
      line "    " (emptyText escapeChar "atom:link".toList (selfLink c.selfURL)) := by
    simp only [line, emptyText, selfLink, attrsText, flatMap_cons, flatMap_nil,
      append_assoc, append_nil, cons_append]
    rfl
  have hchannel' : "  </channel>\n".toList = "  ".toList ++ closeText "channel" := by decide
  have hrss' : "</rss>\n".toList = closeText "rss" := by decide
  rw [line_tagged, document_eq "rss"]
  unfold writeRSS channelInner
  simp only [Piece.concat_text, Piece.empty_text, flatMap_cons, flatMap_nil,
    flatMap_map, ← writeItem_eq]
  rw [hrss, hchannel, hchannel', hrss', ← hlink]
  simp only [append_assoc, append_nil]
  rfl

/-- **The RSS document is well formed.** -/
theorem parse_writeRSS : parse (encode (writeRSS c)) = some (node "rss" rssAttrs
      (blanks "\n" ++ lineNodes "  " (node "channel" [] (channelInner c).nodes))) := by
  rw [writeRSS_eq]
  refine parse_document rfl writesAttrs_rssAttrs ((frag_blanks rfl).append ?_)
  exact frag_line rfl (frag_tagged rfl writesAttrs_nil (channelInner c).frag)

/-! ## Atom -/

theorem isDigit_of_mem_rfc3339Text {t : ℤ} {c : Char} (h : c ∈ rfc3339Text t) :
    c.isDigit ∨ c ∈ ['-', ':', 'T', 'Z'] := by
  have hpad : ∀ {w n : ℕ}, c ∈ pad w n → c.isDigit := isDigit_of_mem_pad
  simp only [rfc3339Text, secondText, mem_append, mem_cons, not_mem_nil, or_false] at h
  rcases h with (h | h | h | h | h | h | h | h | h | h | h) | h
  · rcases isDigit_of_mem_yearText h with h | rfl
    · exact .inl h
    · exact .inr (by decide)
  · exact .inr (by simp [h])
  · exact .inl (hpad h)
  · exact .inr (by simp [h])
  · exact .inl (hpad h)
  · exact .inr (by simp [h])
  · exact .inl (hpad h)
  · exact .inr (by simp [h])
  · exact .inl (hpad h)
  · exact .inr (by simp [h])
  · exact .inl (hpad h)
  · exact .inr (by simp [h])

theorem isChar_of_isDigit {c : Char} (h : c.isDigit) : isChar c := by
  rw [Char.isDigit, Bool.and_eq_true, decide_eq_true_eq, decide_eq_true_eq] at h
  have hlow : 48 ≤ c.toNat := h.1
  have hhigh : c.toNat ≤ 57 := h.2
  simp only [isChar, Bool.or_eq_true, Bool.and_eq_true, decide_eq_true_eq, beq_iff_eq]
  omega

theorem frag_rfc3339Text (t : ℤ) : Frag (rfc3339Text t) ((rfc3339Text t).map .char) := by
  refine frag_plain fun c hc => ?_
  rcases isDigit_of_mem_rfc3339Text hc with hdigit | hmark
  · refine ⟨isChar_of_isDigit hdigit, fun hmem => ?_⟩
    simp only [mem_cons, not_mem_nil, or_false] at hmem
    rcases hmem with rfl | rfl | rfl | rfl | rfl <;> exact absurd hdigit (by decide)
  · simp only [mem_cons, not_mem_nil, or_false] at hmark
    rcases hmark with rfl | rfl | rfl | rfl <;> decide

/-- The attributes of a link. -/
def atomLink (rel : String) (url : Bytes) : Attrs :=
  [("rel".toList, rel.toList), ("href".toList, sanitizeXMLText url)]

variable {rel : String}

theorem writesAttrs_atomLink (hrel : Plain rel.toList) (url : Bytes) :
    WritesAttrs escapeChar (atomLink rel url) := by
  refine writesAttrs_of_chars ?_ ?_ ?_
  · simp only [atomLink, forall_mem_cons]
    exact ⟨rfl, rfl, by simp⟩
  · simp only [atomLink, forall_mem_cons]
    exact ⟨hrel.chars, isChar_text url, by simp⟩
  · simp only [atomLink, map_cons, map_nil]
    decide

def typeAttr (type : String) : Attrs := [("type".toList, type.toList)]

/-- A link on a line of its own. -/
def linkPiece (indent : String)
    (h : indent.toList.all (fun c => c == ' ' || c == '\n') = true ∧ isName "link".toList = true)
    (rel : String) (hrel : Plain rel.toList) (url : Bytes) : Piece :=
  .empty indent "link" h (atomLink rel url) (writesAttrs_atomLink hrel url)

theorem writesAttrs_typeAttr {type : String} (htype : Plain type.toList) :
    WritesAttrs escapeChar (typeAttr type) :=
  writesAttrs_of_plain (forall_mem_singleton.2 ⟨rfl, htype⟩) (nodup_singleton _)

/-- What is inside an `entry`. -/
def entryInner : Piece :=
  .concat [.space "\n" (by decide),
    .leaf "    " "id" (by decide) (utf8 (c.tagURI it)),
    .leaf "    " "title" (by decide) it.title,
    .elem "    " "updated" (by decide) [] writesAttrs_nil ⟨_, _, frag_rfc3339Text it.publishedAt⟩,
    .onlyIf (it.link ≠ []) (linkPiece "    " (by decide) "alternate" (by decide) it.link),
    .elem "    " "summary" (by decide) (typeAttr "text") (writesAttrs_typeAttr (by decide))
      (.escaped it.renderCardText),
    .elem "    " "content" (by decide) (typeAttr "html") (writesAttrs_typeAttr (by decide))
      (.escaped it.bodyWithAnswer),
    .space "  " (by decide)]

def entryPiece : Piece :=
  .elem "  " "entry" (by decide) [] writesAttrs_nil (entryInner c it)

theorem line_atomLink {indent : String} {start : List Char} (url : Bytes)
    (hstart : start = indent.toList ++ ("<link rel=\"".toList ++
      (rel.toList.flatMap escapeChar ++ "\" href=\"".toList))) :
    start ++ (escapeText url ++ "\"/>\n".toList) =
      line indent (emptyText escapeChar "link".toList (atomLink rel url)) := by
  subst hstart
  simp only [line, emptyText, atomLink, attrsText, flatMap_cons, flatMap_nil,
    append_assoc, append_nil, cons_append]
  rfl

theorem writeAtomEntry_eq : writeAtomEntry c it = (entryPiece c it).text := by
  have hlink : "    <link rel=\"alternate\" href=\"".toList ++ (escapeText it.link ++
      "\"/>\n".toList) = (linkPiece "    " (by decide) "alternate" (by decide) it.link).text :=
    line_atomLink it.link (by decide)
  unfold writeAtomEntry entryPiece entryInner
  simp only [Piece.concat_text, Piece.elem_text, Piece.leaf_text, Piece.onlyIf_text, ← hlink,
    writeElem_eq, line_tagged, flatMap_cons, flatMap_nil, append_assoc,
    append_nil]
  rfl

def atomAttrs : Attrs :=
  [("xmlns".toList, "http://www.w3.org/2005/Atom".toList)]

theorem writesAttrs_atomAttrs : WritesAttrs escapeChar atomAttrs :=
  writesAttrs_of_plain (by decide) (by decide)

/-- The author a feed shows. -/
def RawChannel.shownAuthor : Bytes := if c.author = [] then c.title else c.author

/-- What is inside the `feed`. -/
def feedInner : Piece :=
  .concat [.space "\n" (by decide),
    .leaf "  " "id" (by decide) (utf8 c.feedID),
    .leaf "  " "title" (by decide) c.title,
    .elem "  " "updated" (by decide) [] writesAttrs_nil ⟨_, _, frag_rfc3339Text c.buildTime⟩,
    .elem "  " "author" (by decide) [] writesAttrs_nil (.concat [.space "\n" (by decide),
      .leaf "    " "name" (by decide) c.shownAuthor, .space "  " (by decide)]),
    .onlyIf (c.selfURL ≠ []) (linkPiece "  " (by decide) "self" (by decide) c.selfURL),
    .onlyIf (c.htmlURL ≠ []) (linkPiece "  " (by decide) "alternate" (by decide) c.htmlURL),
    .onlyIf (c.description ≠ []) (.leaf "  " "subtitle" (by decide) c.description),
    .onlyIf (c.copyright ≠ []) (.leaf "  " "rights" (by decide) c.copyright),
    .onlyIf (c.generator ≠ []) (.leaf "  " "generator" (by decide) c.generator),
    .concat (c.newestFirst.map (entryPiece c))]

theorem writeAtom_eq : writeAtom c =
      header ++ (elemText escapeChar "feed".toList atomAttrs (feedInner c).text ++ ['\n']) := by
  have hfeed : "<feed xmlns=\"http://www.w3.org/2005/Atom\">\n".toList =
      openText "" "feed" atomAttrs ++ ['\n'] := by decide
  have hself : "  <link rel=\"self\" href=\"".toList ++ (escapeText c.selfURL ++
      "\"/>\n".toList) = (linkPiece "  " (by decide) "self" (by decide) c.selfURL).text :=
    line_atomLink c.selfURL (by decide)
  have hhtml : "  <link rel=\"alternate\" href=\"".toList ++ (escapeText c.htmlURL ++
      "\"/>\n".toList) = (linkPiece "  " (by decide) "alternate" (by decide) c.htmlURL).text :=
    line_atomLink c.htmlURL (by decide)
  rw [document_eq "feed"]
  unfold writeAtom feedInner RawChannel.shownAuthor
  rw [hfeed]
  simp only [Piece.concat_text, Piece.elem_text, Piece.leaf_text, Piece.onlyIf_text, ← hself,
    ← hhtml, writeElem_eq, line_tagged, flatMap_cons, flatMap_nil, flatMap_map,
    ← writeAtomEntry_eq, append_assoc, append_nil]
  rfl

/-- **The Atom document is well formed.** -/
theorem parse_writeAtom :
    parse (encode (writeAtom c)) = some (node "feed" atomAttrs (feedInner c).nodes) := by
  rw [writeAtom_eq]
  exact parse_document rfl writesAttrs_atomAttrs (feedInner c).frag

end

/-! ## Agreement -/

variable {s host : String} {c : RawChannel}

/-- Visible ASCII characters only, as in hosts, slugs and item keys. -/
def Visible (s : String) : Prop := ∀ c ∈ s.toList, '!' ≤ c ∧ c ≤ '~'

instance (s : String) : Decidable (Visible s) := decidableBAll _ s.toList

/-- What names a channel and its items is visible. -/
structure RawChannel.WellNamed (c : RawChannel) : Prop where
  host : Visible c.host
  slug : Visible c.slug
  itemKeys : ∀ it ∈ c.items, Visible it.itemKey

theorem Visible.append {t : String} (hs : Visible s) (ht : Visible t) : Visible (s ++ t) := by
  intro c hc
  rw [String.toList_append] at hc
  rcases mem_append.1 hc with hc | hc
  · exact hs c hc
  · exact ht c hc

theorem visible_toString (y : ℤ) : Visible (toString y) := by
  intro c hc
  rcases isDigit_or_minus_of_mem_toString hc with hdigit | rfl
  · rw [Char.isDigit, Bool.and_eq_true, decide_eq_true_eq, decide_eq_true_eq] at hdigit
    exact ⟨le_trans (by decide) hdigit.1, le_trans hdigit.2 (by decide)⟩
  · decide

theorem visible_stripHostDecoration (h : Visible host) : Visible (stripHostDecoration host) :=
  fun c hc => h c (mem_of_mem_stripHostDecoration hc)

theorem visible_tagURI {slug itemKey : String} (year : ℤ) (hhost : Visible host)
    (hslug : Visible slug) (hkey : Visible itemKey) : Visible (tagURI host year slug itemKey) := by
  refine .append (.append (.append (.append (.append (.append (.append ?_ ?_) ?_) ?_) ?_) hslug)
    ?_) hkey
  · decide
  · exact visible_stripHostDecoration hhost
  · decide
  · exact visible_toString year
  · decide
  · decide

theorem sanitizeXMLText_of_visible (h : Visible s) : sanitizeXMLText (utf8 s) = s.toList := by
  refine sanitizeXMLText_utf8 fun c hc => ?_
  obtain ⟨hlow, hhigh⟩ := h c hc
  have hlow : 0x21 ≤ c.toNat := hlow
  have hhigh : c.toNat ≤ 0x7E := hhigh
  constructor
  · rw [isInvalidXMLRune, if_neg (by omega), if_pos (by omega)]
  rintro rfl
  exact absurd hlow (by decide)

theorem RawChannel.WellNamed.entry_eq (h : c.WellNamed) {it : RawItem} (hit : it ∈ c.items) :
    { c.entry it with id := sanitizeXMLText (utf8 (c.tagURI it)) } = c.entry it := by
  have hid : sanitizeXMLText (utf8 (c.tagURI it)) = (c.tagURI it).toList :=
    sanitizeXMLText_of_visible (visible_tagURI c.tagYear h.host h.slug (h.itemKeys it hit))
  rw [hid]
  rfl

section
variable (c) (it : RawItem)

theorem readEntry_itemInner :
    readEntry "guid" "title" "description" "content:encoded" (itemInner c it).nodes =
      some { c.entry it with id := sanitizeXMLText (utf8 (c.tagURI it)) } := by
  simp [readEntry, only, itemInner, RawChannel.entry]

theorem readEntry_entryInner :
    readEntry "id" "title" "summary" "content" (entryInner c it).nodes =
      some { c.entry it with id := sanitizeXMLText (utf8 (c.tagURI it)) } := by
  simp [readEntry, only, entryInner, linkPiece, RawChannel.entry]

theorem children_channelInner : children "item" (channelInner c).nodes =
      c.newestFirst.map fun it => (itemInner c it).nodes := by
  simp [channelInner, itemPiece, flatMap_map, ← map_eq_flatMap]

theorem children_feedInner :
    children "entry" (feedInner c).nodes = c.newestFirst.map fun it => (entryInner c it).nodes := by
  simp [feedInner, entryPiece, linkPiece, flatMap_map, ← map_eq_flatMap]

theorem mapM_map_eq_some {α β γ : Type} {f : α → β} {g : β → Option γ} {h : α → γ} {l : List α}
    (hg : ∀ a ∈ l, g (f a) = some (h a)) : (l.map f).mapM g = some (l.map h) := by
  induction l with
  | nil => rfl
  | cons a l ih =>
    rw [map_cons, mapM_cons, hg a (mem_cons_self ..), ih fun x hx => hg x (mem_cons_of_mem _ hx)]
    rfl

theorem perm_newestFirst : c.newestFirst.Perm c.items := perm_insertionSort ..

theorem pairwise_newestFirst : c.newestFirst.Pairwise fun a b => b.publishedAt ≤ a.publishedAt := by
  refine pairwise_insertionSort (fun a b : RawItem => b.publishedAt ≤ a.publishedAt) c.items

end

theorem rssEntries_node (attrs : Attrs) (ns : List Content) :
    rssEntries (node "rss" attrs ns) = (only "channel" ns).bind fun channel =>
      (children "item" channel).mapM
        (readEntry "guid" "title" "description" "content:encoded") := rfl

theorem atomEntries_node (attrs : Attrs) (ns : List Content) :
    atomEntries (node "feed" attrs ns) =
      (children "entry" ns).mapM (readEntry "id" "title" "summary" "content") := rfl

/-- **The RSS reader finds every item, newest first, with its sanitized texts.** -/
theorem rssEntries_writeRSS (h : c.WellNamed) :
    (parse (encode (writeRSS c))).bind rssEntries = some (c.newestFirst.map c.entry) := by
  have hchannel : only "channel" (blanks "\n" ++ lineNodes "  " (node "channel" []
      (channelInner c).nodes)) = some (channelInner c).nodes := by simp [only]
  have hitems : (children "item" (channelInner c).nodes).mapM
      (readEntry "guid" "title" "description" "content:encoded") =
      some (c.newestFirst.map c.entry) := by
    rw [children_channelInner]
    refine mapM_map_eq_some fun it hit => ?_
    rw [readEntry_itemInner, h.entry_eq ((perm_newestFirst c).subset hit)]
  rw [parse_writeRSS, Option.bind_some, rssEntries_node, hchannel, Option.bind_some, hitems]

/-- **So does the Atom reader.** -/
theorem atomEntries_writeAtom (h : c.WellNamed) :
    (parse (encode (writeAtom c))).bind atomEntries = some (c.newestFirst.map c.entry) := by
  have hentries : (children "entry" (feedInner c).nodes).mapM
      (readEntry "id" "title" "summary" "content") = some (c.newestFirst.map c.entry) := by
    rw [children_feedInner]
    refine mapM_map_eq_some fun it hit => ?_
    rw [readEntry_entryInner, h.entry_eq ((perm_newestFirst c).subset hit)]
  rw [parse_writeAtom, Option.bind_some, atomEntries_node, hentries]

theorem entries_jsonFeedValue (c : RawChannel) :
    (jsonFeedValue c).entries = c.newestFirst.map c.entry := by
  simp only [JsonFeedValue.entries, jsonFeedValue, map_map]
  refine map_congr_left fun it _ => ?_
  simp [jsonItemValue, RawChannel.entry]

/-- **The documents are faithful, and agree.**  The RSS and the Atom document are well formed, a
reader of either finds the entry of every item, newest first, and the JSON feed lists the same
entries. -/
theorem documents_agree {c : RawChannel} (h : c.WellNamed) :
    (parse (encode (writeRSS c))).bind rssEntries = some (c.newestFirst.map c.entry) ∧
      (parse (encode (writeAtom c))).bind atomEntries = some (c.newestFirst.map c.entry) ∧
      (jsonFeedValue c).entries = c.newestFirst.map c.entry ∧
      c.newestFirst.Perm c.items ∧
      c.newestFirst.Pairwise (fun a b => b.publishedAt ≤ a.publishedAt) :=
  ⟨rssEntries_writeRSS h, atomEntries_writeAtom h, entries_jsonFeedValue c, perm_newestFirst c,
    pairwise_newestFirst c⟩

/-- A channel with markup, a control character, a byte that is no text, a carriage return and the
end mark of a section in its texts. -/
def roughChannel : RawChannel :=
  { host := "https://anime.example.com/", tagYear := 2026, slug := "daily-trivia"
    title := utf8 "Trivia & <more>", htmlURL := utf8 "https://anime.example.com/?a=1&b=\"2\""
    buildTime := march2026
    items := [{ itemKey := "01J0", title := utf8 "Who's \x01 there?" ++ [0xFF],
                summaryText := utf8 "line\r\nbreak", bodyHTML := utf8 "<p>a ]]> b</p>",
                answerHTML := utf8 "<em>Goku</em>", publishedAt := march2026 },
              { itemKey := "01J1", title := utf8 "Second", bodyHTML := utf8 "<p>x</p>",
                publishedAt := march2026 + Time.second }] }

theorem wellNamed_roughChannel : roughChannel.WellNamed :=
  ⟨by decide, by decide, by decide⟩

/-- Both documents of the rough channel list the second item first. -/
theorem documents_agree_rough : (parse (encode (writeRSS roughChannel))).bind rssEntries =
        some (roughChannel.newestFirst.map roughChannel.entry) ∧
      (parse (encode (writeAtom roughChannel))).bind atomEntries =
        some (roughChannel.newestFirst.map roughChannel.entry) ∧
      (roughChannel.newestFirst.map roughChannel.entry).map Entry.title =
        ["Second".toList, "Who's  there?".toList] := by
  obtain ⟨hrss, hatom, -⟩ := documents_agree wellNamed_roughChannel
  exact ⟨hrss, hatom, by decide +kernel⟩

/-! ## The documents of texts -/

/-- Text that XML can represent, without carriage returns. -/
def Representable (s : String) : Prop := ∀ c ∈ s.toList, isInvalidXMLRune c = false ∧ c ≠ '\r'

instance (s : String) : Decidable (Representable s) := decidableBAll _ s.toList

theorem renderCardText_itemRaw (it : Item) : (itemRaw it).renderCardText = utf8 (cardText it) := by
  simp only [RawItem.renderCardText, itemRaw, cardText, orRaw, ne_eq, utf8_eq_nil]
  split <;> rfl

theorem bodyWithAnswer_itemRaw (it : Item) :
    (itemRaw it).bodyWithAnswer = utf8 (itemBodyWithAnswer it) := by
  have hfeed : (itemRaw it).renderFeedHTML = utf8 (feedHTML it) := by
    simp only [RawItem.renderFeedHTML, itemRaw, feedHTML, orRaw, ne_eq, utf8_eq_nil]
    split <;> rfl
  have hraw : (itemRaw it).answerHTML = utf8 it.answerHTML := rfl
  rw [RawItem.bodyWithAnswer, itemBodyWithAnswer, hfeed, hraw]
  by_cases hanswer : it.answerHTML = "" <;> simp [hanswer, utf8_append]

theorem tagURI_raw (c : Channel) (it : Item) : c.raw.tagURI (itemRaw it) = c.tagURI it := rfl

theorem newestFirst_raw (c : Channel) : c.raw.newestFirst = (newestFirst c.items).map itemRaw :=
  (map_insertionSort _ _ itemRaw c.items fun _ _ _ _ => Iff.rfl).symm

end AnimeFeedFlux.Render
