import AnimeFeedFlux.Generate.Patterns
import AnimeFeedFlux.Sanitize.Again

/-!
# Dead anchors

An item with a relative link is refused, since the sanitizer would keep the anchor and drop its
address.  But `Validate` finds links with a pattern of its own and accepts every scheme.  The
sanitizer keeps an address only if it begins with `http://` or `https://`, and keeps no anchor
inside a script.
-/

namespace AnimeFeedFlux.Sanitize

open GoStrings Contract List

/-- A start tag of an anchor with this address. -/
structure Token.Links (t : Token) (href : Bytes) : Prop where
  kind : t.kind = .startTag ∨ t.kind = .selfClose
  name : t.name = utf8 "a"
  attr : t.attrs.lookup (utf8 "href") = some href

/-- What is written for a token after these (`html_eq`). -/
def written (u : CaseTable) (before : List Token) (t : Token) : List Part :=
  (before.foldl (Writer.write u) {}).parts u t

/-- Every anchor with an address is written with an address. -/
def KeepsAnchors (u : CaseTable) (s : Bytes) : Prop :=
  ∀ before t after, tokenize u s = before ++ t :: after → ∀ href, t.Links href →
    ∃ closed v, written u before t = [.startTag (utf8 "a") closed (some v)]

/-- The anchors with an address are outside dropped elements, and the addresses are of the web. -/
def SafeAnchors (u : CaseTable) (s : Bytes) : Prop :=
  ∀ before t after, tokenize u s = before ++ t :: after → ∀ href, t.Links href →
    before.foldl skipAfter none = none ∧ (safeHref u href).isSome

variable {u : CaseTable}

theorem Writer.skips_foldl (before : List Token) (w : Writer) :
    (before.foldl (Writer.write u) w).skips = before.foldl skipAfter w.skips := by
  induction before generalizing w with
  | nil => rfl
  | cons t before ih => rw [foldl_cons, foldl_cons, ih, skips_write]

theorem keepsAnchors_iff {s : Bytes} : KeepsAnchors u s ↔ SafeAnchors u s := by
  refine forall₃_congr fun before t after => imp_congr_right fun _ => forall_congr' fun href =>
    imp_congr_right fun h => ?_
  have hskips : _ = before.foldl skipAfter none := Writer.skips_foldl (u := u) before {}
  rw [written, ← hskips]
  generalize before.foldl (Writer.write u) {} = w
  have hkept : ¬(utf8 "a" ∈ rawTextTags ∨ utf8 "a" ∉ allowedTags) := by decide
  have hpart : t.part u =
      .startTag (utf8 "a") (decide (t.kind = .selfClose)) (safeHref u href) := by
    simp [Token.part, Token.href, h.name, h.attr, show utf8 "a" ≠ utf8 "br" by decide]
  by_cases hskip : 0 < w.skipDepth
  · simp [Writer.parts, Writer.skips, hskip]
  · have hparts : w.parts u t = [t.part u] := by
      rcases h.kind with hkind | hkind <;>
        simp only [Writer.parts, if_neg hskip, hkind, h.name, if_neg hkept]
    simp [hparts, hpart, Writer.skips, hskip, Option.isSome_iff_exists]

/-- The markup of an item is that of its candidate, sanitized, with all the addresses. -/
structure NoDeadAnchors (u : CaseTable) (gi : GeneratedItem) (it : Item) : Prop where
  body : it.bodyHTML = htmlText u gi.bodyHTML ∧ KeepsAnchors u (utf8 gi.bodyHTML)
  answer : it.answerHTML = htmlText u gi.answerHTML ∧ KeepsAnchors u (utf8 gi.answerHTML)

/-- **An accepted item has no dead anchors** exactly if the anchors of its candidate lead to the
web and none of them is dropped with a script. -/
theorem noDeadAnchors_iff {gi : GeneratedItem} {opts : Options} {it : Item}
    (h : validate (patterns u) (htmlText u) gi opts = .ok (it, [])) :
    NoDeadAnchors u gi it ↔
      SafeAnchors u (utf8 gi.bodyHTML) ∧ SafeAnchors u (utf8 gi.answerHTML) := by
  rw [← keepsAnchors_iff, ← keepsAnchors_iff]
  obtain rfl := validate_ok h
  exact ⟨fun h => ⟨h.body.2, h.answer.2⟩, fun h => ⟨⟨rfl, h.1⟩, ⟨rfl, h.2⟩⟩⟩

/-- A question with this link. -/
def linking (href : String) : GeneratedItem :=
  { title := "Name the series", summaryText := "Which series ran in the spring?"
    bodyHTML := "<a href='" ++ href ++ "'>Notes</a>" }

/-- The question is accepted as this item. -/
def Accepts (href : String) (it : Item) : Prop :=
  validate (patterns asciiCase) (htmlText asciiCase) (linking href) { kind := .generative } =
    .ok (it, [])

theorem exists_accepts (href : String)
    (h : rejections (patterns asciiCase) (linking href) { kind := .generative } = []) :
    ∃ it, Accepts href it :=
  ⟨_, by rw [Accepts, validate, h]⟩

theorem noDeadAnchors_iff_web : ∃ it, Accepts "https://x/y" it ∧
    (NoDeadAnchors asciiCase (linking "https://x/y") it ↔
      SafeAnchors asciiCase (utf8 (linking "https://x/y").bodyHTML) ∧
        SafeAnchors asciiCase (utf8 (linking "https://x/y").answerHTML)) := by
  obtain ⟨it, h⟩ := exists_accepts "https://x/y" (by decide +kernel)
  exact ⟨it, h, noDeadAnchors_iff h⟩

/-- **The address of a file server is absolute, and is dropped.** -/
theorem not_noDeadAnchors_ftp : ∃ it, Accepts "ftp://x/y" it ∧
    ¬NoDeadAnchors asciiCase (linking "ftp://x/y") it := by
  obtain ⟨it, h⟩ := exists_accepts "ftp://x/y" (by decide +kernel)
  refine ⟨it, h, fun hlive => ?_⟩
  have htokens : tokenize asciiCase (utf8 (linking "ftp://x/y").bodyHTML) =
      [] ++ ⟨.startTag, utf8 "a", [(utf8 "href", utf8 "ftp://x/y")], []⟩ ::
        [⟨.text, [], [], utf8 "Notes"⟩, ⟨.endTag, utf8 "a", [], []⟩] := by
    decide +kernel
  have hsafe := keepsAnchors_iff.1 hlive.body.2 _ _ _ htokens _ ⟨.inl rfl, rfl, rfl⟩
  exact absurd hsafe.2 (by decide +kernel)

end AnimeFeedFlux.Sanitize
