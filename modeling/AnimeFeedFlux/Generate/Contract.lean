import AnimeFeedFlux.Generate.Deps
import AnimeFeedFlux.Lib.GoStrings
import Mathlib.Data.List.Infix

/-!
# The contract of model output

A model item becomes an item of a feed only through `Validate`, and a stage-2 variant only
through `validateFormats`.  The first refuses an item that breaks a rule, the second drops a
variant that does; what either lets through as markup has been through the sanitizer.

The regular expressions and the URL parser are arguments, `Matchers`, and so is the sanitizer.
Texts are Unicode, so the check for invalid UTF-8 has nothing to find.
-/

namespace AnimeFeedFlux.Contract

open GoStrings

/-- The matchers of the package: `htmlTagRe`, the addresses `anchorHrefRe` finds, what
`stripTagsRe` leaves, `isAbsoluteURL` and `urlnorm.Normalize`. -/
structure Matchers where
  lower : Char → Char
  htmlTag : String → Bool
  anchorHrefs : String → List String
  stripTags : String → String
  isAbsoluteURL : String → Bool
  normalize : String → Option String

namespace Reason

def controlChars : String := "control_chars"
def titleRequired : String := "title_required"
def titleTooShort : String := "title_too_short"
def titleTooLong : String := "title_too_long"
def titleTrailingPunct : String := "title_trailing_punctuation"
def summaryRequired : String := "summary_required"
def summaryHardCap : String := "summary_exceeds_hard_cap"
def summaryContainsHTML : String := "summary_contains_html"
def bodyRequired : String := "body_html_required"
def bodyRelativeLink : String := "body_html_relative_link"
def answerLeaked : String := "answer_leaked_into_summary"
def tagsTooMany : String := "tags_too_many"
def tagsNotLowercase : String := "tags_not_lowercase"
def linkRequiredGrounded : String := "link_required_grounded"
def linkInvalid : String := "link_invalid"
def linkNotCandidate : String := "link_not_in_candidate_set"

end Reason

def titleMinLen : ℕ := 10

def titleMaxLen : ℕ := 200

def summaryHardCap : ℕ := 500

def maxTags : ℕ := 6

def trailingPunct : List Char := ['.', ',', '!', '?', ';', ':']

def isForbiddenControl (c : Char) : Bool :=
  let n := c.toNat
  !(n == 0x09 || n == 0x0A || n == 0x0D) &&
    (n < 0x20 || (0x7F ≤ n && n ≤ 0x9F) || n == 0xFFFE || n == 0xFFFF)

def contains (s sub : String) : Bool := decide (sub.toList <:+: s.toList)

def plainText (m : Matchers) (html : String) : String := trimSpace (m.stripTags html)

/-- `CheckLink`: the reason to refuse a link, if there is one. -/
def checkLink (m : Matchers) (link : String) (candidates : List String) : Option String :=
  if link = "" then some Reason.linkRequiredGrounded
  else match m.normalize link with
    | none => some Reason.linkInvalid
    | some normLink =>
      if (candidates.filterMap m.normalize).contains normLink then none
      else some Reason.linkNotCandidate

variable {m : Matchers} {gi : GeneratedItem}

/-- A rule about a field: its rejection when it is broken. -/
def rule (field reason : String) (broken : Bool) : List Rejection :=
  if broken then [⟨field, reason⟩] else []

/-- The rules of encoding. -/
def encodingRules (gi : GeneratedItem) : List Rejection :=
  [("title", gi.title), ("summary_text", gi.summaryText), ("body_html", gi.bodyHTML),
    ("answer_html", gi.answerHTML)].flatMap fun f =>
      rule f.1 Reason.controlChars (f.2.toList.any isForbiddenControl)

/-- The rules of the title, which is trimmed. -/
def titleRules (title : String) : List Rejection :=
  if title = "" then [⟨"title", Reason.titleRequired⟩]
  else
    rule "title" Reason.titleTooShort (title.length < titleMinLen) ++
    rule "title" Reason.titleTooLong (titleMaxLen < title.length) ++
    rule "title" Reason.titleTrailingPunct (title.toList.getLast?.any trailingPunct.contains)

section
variable (m) (sanitize : String → String)

/-- The rules of the summary, which is trimmed. -/
def summaryRules (summary : String) : List Rejection :=
  if summary = "" then [⟨"summary_text", Reason.summaryRequired⟩]
  else
    rule "summary_text" Reason.summaryHardCap (summaryHardCap < summary.length) ++
    rule "summary_text" Reason.summaryContainsHTML (m.htmlTag summary)

/-- The rule of absolute links in markup. -/
def linkRule (field html : String) : List Rejection :=
  rule field Reason.bodyRelativeLink ((m.anchorHrefs html).any fun href => !m.isAbsoluteURL href)

/-- The rules of the body. -/
def bodyRules (body : String) : List Rejection :=
  if trimSpace body = "" then [⟨"body_html", Reason.bodyRequired⟩] else linkRule m "body_html" body

/-- Whether a text gives the answer away. -/
def leaks (text answerHTML : String) : Bool :=
  let answerText := plainText m answerHTML
  answerText != "" && contains (toLower m.lower text) (toLower m.lower answerText)

/-- The rules of the answer. -/
def answerRules (summary answer : String) : List Rejection :=
  rule "summary_text" Reason.answerLeaked (summary != "" && leaks m summary answer) ++
  linkRule m "answer_html" answer

/-- The rules of the tags. -/
def tagRules (tags : List String) : List Rejection :=
  rule "tags" Reason.tagsTooMany (maxTags < tags.length) ++
  rule "tags" Reason.tagsNotLowercase (tags.any fun t => t != toLower m.lower t)

/-- The rule of the link, which is trimmed. -/
def itemLinkRules (link : String) (opts : Options) : List Rejection :=
  match opts.kind with
  | .grounded =>
    match checkLink m link opts.candidateURLs with
    | some reason => [⟨"link", reason⟩]
    | none => []
  | _ => rule "link" Reason.linkInvalid (link != "" && !m.isAbsoluteURL link)

/-- All rules, in the order of the source. -/
def rejections (gi : GeneratedItem) (opts : Options) : List Rejection :=
  let summary := trimSpace gi.summaryText
  encodingRules gi ++ titleRules (trimSpace gi.title) ++ summaryRules m summary ++
    bodyRules m gi.bodyHTML ++ answerRules m summary gi.answerHTML ++ tagRules m gi.tags ++
    itemLinkRules m (trimSpace gi.link) opts

/-- `model.Item` with its texts only; the rest is set when the item is stamped. -/
def rawItem (title summaryText bodyHTML answerHTML link sourceName : String) : Item :=
  { feedID := 0, itemKey := "", contentHash := ⟨""⟩, title, summaryText, bodyHTML, answerHTML,
    link, sourceName, publishedAt := 0, origin := .generated }

/-- `Validate`: the item, or the rules it breaks.  Every kind is a known one. -/
def validate (gi : GeneratedItem) (opts : Options) : Except String (Item × List Rejection) :=
  match rejections m gi opts with
  | [] => .ok (rawItem (trimSpace gi.title) (trimSpace gi.summaryText) (sanitize gi.bodyHTML)
      (sanitize gi.answerHTML) (trimSpace gi.link) (trimSpace gi.sourceName), [])
  | rej => .ok (rawItem "" "" "" "" "" "", rej)

end

variable {sanitize : String → String} {opts : Options} {it : Item}

section
variable (h : validate m sanitize gi opts = .ok (it, []))
include h

/-- An item without rejections has its markup from the sanitizer; it has no key, no stamp and no
variants yet. -/
theorem validate_ok :
    it = rawItem (trimSpace gi.title) (trimSpace gi.summaryText) (sanitize gi.bodyHTML)
      (sanitize gi.answerHTML) (trimSpace gi.link) (trimSpace gi.sourceName) := by
  simp only [validate] at h
  split at h
  · cases h
    rfl
  rename_i hne
  simp only [Except.ok.injEq, Prod.mk.injEq] at h
  exact absurd h.2 hne

theorem rejections_of_validate : rejections m gi opts = [] := by
  simp only [validate] at h
  split at h
  · assumption
  rename_i hne
  simp only [Except.ok.injEq, Prod.mk.injEq] at h
  exact absurd h.2 hne

end

/-! ## Variants -/

section
variable (m sanitize)

/-- The closure `cleanHTML` of `validateFormats`, with the check of its result. -/
def cleanHTML (v : String) : String :=
  let v := trimSpace v
  if v = "" then ""
  else if (m.anchorHrefs v).any (fun href => !m.isAbsoluteURL href) then ""
  else if (sanitize v).toList.any isForbiddenControl then "" else sanitize v

/-- The closure `cleanText`. -/
def cleanText (answerHTML v : String) (max : ℕ) : String :=
  let v := trimSpace v
  if v = "" || m.htmlTag v || v.toList.any isForbiddenControl then ""
  else if 0 < max ∧ max * 3 / 2 < v.utf8ByteSize then ""
  else if leaks m v answerHTML then "" else v

/-- The closure `dropIfSame`. -/
def dropIfSame (v raw : String) : String := if v = raw then "" else v

def validateFormats (f : ItemFormats) (it : Item) : ItemFormats :=
  { feedHTML := dropIfSame (cleanHTML m sanitize f.feedHTML) it.bodyHTML
    pageHTML := dropIfSame (cleanHTML m sanitize f.pageHTML) it.bodyHTML
    cardText := dropIfSame (cleanText m it.answerHTML f.cardText 280) it.summaryText
    embedText := dropIfSame (cleanText m it.answerHTML f.embedText 180) it.summaryText }

theorem cleanHTML_cases (v : String) :
    cleanHTML m sanitize v = "" ∨ ∃ w, cleanHTML m sanitize v = sanitize w := by
  simp only [cleanHTML]
  split
  · exact .inl rfl
  split
  · exact .inl rfl
  split
  · exact .inl rfl
  · exact .inr ⟨_, rfl⟩

theorem dropIfSame_cases (v raw : String) : dropIfSame v raw = "" ∨ dropIfSame v raw = v := by
  rw [dropIfSame]
  split
  · exact .inl rfl
  · exact .inr rfl

theorem dropIfSame_cleanHTML (v raw : String) :
    dropIfSame (cleanHTML m sanitize v) raw = "" ∨
      ∃ w, dropIfSame (cleanHTML m sanitize v) raw = sanitize w := by
  rcases dropIfSame_cases (cleanHTML m sanitize v) raw with h | h
  · exact .inl h
  rw [h]
  exact cleanHTML_cases m sanitize v

end

end AnimeFeedFlux.Contract
