import AnimeFeedFlux.Sanitize.Tokenizer
import Mathlib.Data.Bool.AllAny

/-!
# The sanitizer

`sanitize.HTML` reads its input into tokens and writes back text and allowed tags.  Its output is
safe whatever the reader makes of the input: text is written without a `<`, a tag is written only
under an allowed name, and the one attribute value that survives is checked and escaped here.  So
nothing below depends on how markup is read, except that the value of an `href` is what
`decodeEntities` gives back after `escapeAttr`.
-/

namespace AnimeFeedFlux.Sanitize

open GoStrings List

def allowedTags : List Bytes :=
  ["p", "em", "strong", "a", "ul", "ol", "li", "blockquote", "code", "br"].map utf8

/-- `rawTextTags`: elements that are dropped with their content. -/
def rawTextTags : List Bytes := ["script", "style"].map utf8

/-! ## Attributes -/

section
variable (u : CaseTable) (t : Token)

def safeHref (href : Bytes) : Option Bytes :=
  let h := trimSpaceBytes href
  if h = [] then none
  else
    let h := encode ((runes h).filter fun r => !decide (r.toNat ≤ 0x20))
    let lower := toLowerBytes u h
    if (utf8 "http://").isPrefixOf lower then some h
    else if (utf8 "https://").isPrefixOf lower then some h
    else none

def escapeAttr (s : Bytes) : Bytes :=
  let s := replaceByte s '&'.toUInt8 (utf8 "&amp;")
  let s := replaceByte s '"'.toUInt8 (utf8 "&quot;")
  let s := replaceByte s '<'.toUInt8 (utf8 "&lt;")
  replaceByte s '>'.toUInt8 (utf8 "&gt;")

/-- The attributes `renderStartTag` writes. -/
def renderAttrs : Bytes :=
  if t.name = utf8 "a" then
    match t.attrs.lookup (utf8 "href") with
    | none => []
    | some href =>
      match safeHref u href with
      | none => []
      | some safe =>
        utf8 " href=\"" ++ escapeAttr safe ++
          utf8 "\" rel=\"nofollow noopener\" target=\"_blank\""
  else []

def renderStartTag : Bytes :=
  '<'.toUInt8 :: (t.name ++ (renderAttrs u t ++
    if t.kind = .selfClose ∨ t.name = utf8 "br" then utf8 " />" else utf8 ">"))

/-- An end tag. -/
def renderEndTag (name : Bytes) : Bytes := utf8 "</" ++ name ++ utf8 ">"

/-! ## The loop -/

/-- The locals of `HTML`. -/
structure Writer where
  out : Bytes := []
  /-- The open allowed tags, the innermost last. -/
  openStack : List Bytes := []
  skipDepth : ℕ := 0
  skipTag : Bytes := []
  deriving DecidableEq, Repr

def lastIndex (stack : List Bytes) (name : Bytes) : Option ℕ :=
  (stack.reverse.idxOf? name).map fun i => stack.length - 1 - i

/-- Closes the open tags from index `idx` on, the innermost first. -/
def Writer.closeFrom (w : Writer) (idx : ℕ) : Writer :=
  { w with out := w.out ++ (w.openStack.drop idx).reverse.flatMap renderEndTag
           openStack := w.openStack.take idx }

/-- One token of the loop of `HTML`. -/
def Writer.write (w : Writer) (t : Token) : Writer :=
  match t.kind with
  | .comment => w
  | .text =>
    if 0 < w.skipDepth then w
    else { w with out := w.out ++ replaceByte t.text '<'.toUInt8 (utf8 "&lt;") }
  | .startTag | .selfClose =>
    if 0 < w.skipDepth then w
    else if t.name ∈ rawTextTags then
      if t.kind = .startTag then { w with skipDepth := 1, skipTag := t.name } else w
    else if t.name ∉ allowedTags then w
    else
      let w := { w with out := w.out ++ renderStartTag u t }
      if t.kind = .startTag ∧ t.name ≠ utf8 "br" then
        { w with openStack := w.openStack ++ [t.name] }
      else w
  | .endTag =>
    if 0 < w.skipDepth then
      if t.name = w.skipTag then { w with skipDepth := 0, skipTag := [] } else w
    else if t.name ∈ rawTextTags then w
    else if t.name ∉ allowedTags ∨ t.name = utf8 "br" then w
    else match lastIndex w.openStack t.name with
      | some idx => w.closeFrom idx
      | none => w

def html (s : Bytes) : Bytes :=
  (((tokenize u s).foldl (Writer.write u) {}).closeFrom 0).out

end

example : html asciiCase (utf8 "a<script>x</script><P onclick=1>b<i>c") = utf8 "a<p>bc</p>" := by
  decide +kernel

example : html asciiCase (utf8 "<a href=' HTTP://x/?a&amp;b'>") =
    utf8 "<a href=\"HTTP://x/?a&amp;b\" rel=\"nofollow noopener\" target=\"_blank\"></a>" := by
  decide +kernel

/-! ## What is safe -/

/-- An `href` value that breaks out of nothing and names a web address. -/
structure SafeValue (v : Bytes) : Prop where
  plain : ∀ b ∈ v, b ≠ '"'.toUInt8 ∧ b ≠ '<'.toUInt8 ∧ b ≠ '>'.toUInt8 ∧ 0x20 < b.toNat
  scheme : HasPrefixFold (decodeEntities v) (utf8 "http://") ∨
    HasPrefixFold (decodeEntities v) (utf8 "https://")

/-- What can end a start tag. -/
def tagEnds : List Bytes := [utf8 ">", utf8 " />"]

/-- The bytes after a `<` begin with the rest of an allowed tag: a closing tag, a start tag
without attributes, or an `a` with an address. -/
inductive BeginsTag : Bytes → Prop
  | close (t rest : Bytes) : t ∈ allowedTags → BeginsTag (utf8 "/" ++ t ++ utf8 ">" ++ rest)
  | bare (t e rest : Bytes) : t ∈ allowedTags → e ∈ tagEnds → BeginsTag (t ++ e ++ rest)
  | anchor (v e rest : Bytes) : SafeValue v → e ∈ tagEnds →
      BeginsTag (utf8 "a" ++ utf8 " href=\"" ++ v ++
        utf8 "\" rel=\"nofollow noopener\" target=\"_blank\"" ++ e ++ rest)

/-- Every `<` begins an allowed tag. -/
def WellTagged (out : Bytes) : Prop :=
  ∀ before rest, out = before ++ '<'.toUInt8 :: rest → BeginsTag rest

/-! ## Escaping and decoding -/

/-- What `escapeAttr` writes for one byte. -/
def escapeByte (b : UInt8) : Bytes :=
  if b = '&'.toUInt8 then utf8 "&amp;"
  else if b = '"'.toUInt8 then utf8 "&quot;"
  else if b = '<'.toUInt8 then utf8 "&lt;"
  else if b = '>'.toUInt8 then utf8 "&gt;"
  else [b]

theorem replaceByte_append (s t : Bytes) (old : UInt8) (new : Bytes) :
    replaceByte (s ++ t) old new = replaceByte s old new ++ replaceByte t old new :=
  flatMap_append

theorem escapeAttr_cons (b : UInt8) (s : Bytes) :
    escapeAttr (b :: s) = escapeByte b ++ escapeAttr s := by
  have hbyte : escapeAttr [b] = escapeByte b := by
    by_cases hamp : b = '&'.toUInt8
    · subst hamp
      decide
    by_cases hquot : b = '"'.toUInt8
    · subst hquot
      decide
    by_cases hlt : b = '<'.toUInt8
    · subst hlt
      decide
    by_cases hgt : b = '>'.toUInt8
    · subst hgt
      decide
    simp [escapeAttr, escapeByte, replaceByte, hamp, hquot, hlt, hgt]
  rw [← hbyte, ← singleton_append]
  simp only [escapeAttr, replaceByte_append]

theorem mem_escapeByte {b c : UInt8} (hb : 0x20 < b.toNat) (h : c ∈ escapeByte b) :
    c ≠ '"'.toUInt8 ∧ c ≠ '<'.toUInt8 ∧ c ≠ '>'.toUInt8 ∧ 0x20 < c.toNat := by
  have hesc : ∀ {e : Bytes}, (e.all fun c => decide (c ≠ '"'.toUInt8 ∧ c ≠ '<'.toUInt8 ∧
      c ≠ '>'.toUInt8 ∧ 0x20 < c.toNat)) = true → c ∈ e →
        c ≠ '"'.toUInt8 ∧ c ≠ '<'.toUInt8 ∧ c ≠ '>'.toUInt8 ∧ 0x20 < c.toNat :=
    fun he hc => all_iff_forall_prop.1 he c hc
  rw [escapeByte] at h
  split at h
  · exact hesc (by decide) h
  split at h
  · exact hesc (by decide) h
  split at h
  · exact hesc (by decide) h
  split at h
  · exact hesc (by decide) h
  rw [mem_singleton] at h
  subst h
  exact ⟨‹_›, ‹_›, ‹_›, hb⟩

variable {s safe : Bytes} {u : CaseTable}

theorem mem_escapeAttr (hs : ∀ b ∈ s, 0x20 < b.toNat) {c : UInt8} (h : c ∈ escapeAttr s) :
    c ≠ '"'.toUInt8 ∧ c ≠ '<'.toUInt8 ∧ c ≠ '>'.toUInt8 ∧ 0x20 < c.toNat := by
  induction s with
  | nil => cases h
  | cons b s ih =>
    rw [escapeAttr_cons, mem_append] at h
    rcases h with h | h
    · exact mem_escapeByte (hs b (mem_cons_self ..)) h
    · exact ih (fun b hb => hs b (mem_cons_of_mem _ hb)) h

theorem decodeLoop_entity {c : Char} (ent : Bytes)
    (hent : entityAt ('&'.toUInt8 :: (ent ++ s)) = some (c, ent.length + 1)) :
    decodeLoop ('&'.toUInt8 :: (ent ++ s)) = String.utf8EncodeChar c ++ decodeLoop s := by
  rw [decodeLoop, if_pos rfl, hent]
  simp only [Nat.add_sub_cancel, drop_left]

theorem decodeLoop_escapeByte (b : UInt8) (s : Bytes) :
    decodeLoop (escapeByte b ++ s) = b :: decodeLoop s := by
  rw [escapeByte]
  split
  · subst b
    exact decodeLoop_entity (utf8 "amp;") rfl
  split
  · subst b
    exact decodeLoop_entity (utf8 "quot;") rfl
  split
  · subst b
    exact decodeLoop_entity (utf8 "lt;") rfl
  split
  · subst b
    exact decodeLoop_entity (utf8 "gt;") rfl
  · rw [singleton_append, decodeLoop, if_neg ‹_›]

theorem decodeLoop_escapeAttr (s : Bytes) : decodeLoop (escapeAttr s) = s := by
  induction s with
  | nil => simp [escapeAttr, replaceByte, decodeLoop]
  | cons b s ih => rw [escapeAttr_cons, decodeLoop_escapeByte, ih]

theorem decodeLoop_eq_self (h : '&'.toUInt8 ∉ s) : decodeLoop s = s := by
  induction s with
  | nil => rw [decodeLoop]
  | cons b s ih =>
    rw [mem_cons, not_or] at h
    rw [decodeLoop, if_neg (Ne.symm h.1), ih h.2]

/-- **Decoding undoes escaping.** -/
theorem decodeEntities_escapeAttr (s : Bytes) : decodeEntities (escapeAttr s) = s := by
  rw [decodeEntities]
  split
  · exact decodeLoop_escapeAttr s
  rename_i hamp
  rw [contains_iff_mem] at hamp
  rw [← decodeLoop_eq_self hamp, decodeLoop_escapeAttr]

/-! ## The address -/

theorem safeHref_spec {href : Bytes} (h : safeHref u href = some safe) :
    (∀ b ∈ safe, 0x20 < b.toNat) ∧
    (HasPrefixFold safe (utf8 "http://") ∨ HasPrefixFold safe (utf8 "https://")) := by
  have hplain : ∀ b ∈ encode ((runes (trimSpaceBytes href)).filter
      fun r => !decide (r.toNat ≤ 0x20)), 0x20 < b.toNat := by
    refine lt_of_mem_encode (by decide) fun c hc => ?_
    simpa using (mem_filter.1 hc).2
  simp only [safeHref] at h
  split at h
  · cases h
  split at h
  · rename_i hhttp
    cases h
    exact ⟨hplain, .inl (hasPrefixFold_of_lower u (all_iff_forall_prop.1 (by decide))
      (List.isPrefixOf_iff_prefix.1 hhttp))⟩
  split at h
  · rename_i hhttps
    cases h
    exact ⟨hplain, .inr (hasPrefixFold_of_lower u (all_iff_forall_prop.1 (by decide))
        (List.isPrefixOf_iff_prefix.1 hhttps))⟩
  · cases h

theorem safeValue_of_safeHref {href : Bytes} (h : safeHref u href = some safe) :
    SafeValue (escapeAttr safe) := by
  obtain ⟨hplain, hscheme⟩ := safeHref_spec h
  refine ⟨fun b hb => mem_escapeAttr hplain hb, ?_⟩
  rwa [decodeEntities_escapeAttr]

/-! ## Tags -/

theorem BeginsTag.append (h : BeginsTag s) (t : Bytes) : BeginsTag (s ++ t) := by
  cases h with
  | close t' rest ht =>
    rw [append_assoc]
    exact .close t' _ ht
  | bare t' e rest ht he =>
    rw [append_assoc]
    exact .bare t' e _ ht he
  | anchor v e rest hv he =>
    rw [append_assoc]
    exact .anchor v e _ hv he

theorem wellTagged_of_notMem (h : '<'.toUInt8 ∉ s) : WellTagged s := by
  rintro before rest rfl
  exact absurd (mem_append_right _ (mem_cons_self ..)) h

theorem wellTagged_tag (h : BeginsTag s) (hs : '<'.toUInt8 ∉ s) :
    WellTagged ('<'.toUInt8 :: s) := by
  intro before rest heq
  rcases cons_eq_append_iff.1 heq with ⟨-, hcons⟩ | ⟨before', -, hs'⟩
  · rw [List.cons.injEq] at hcons
    exact hcons.2 ▸ h
  · rw [hs'] at hs
    exact absurd (mem_append_right _ (mem_cons_self ..)) hs

theorem WellTagged.append {t : Bytes} (hs : WellTagged s) (ht : WellTagged t) :
    WellTagged (s ++ t) := by
  intro before rest heq
  rcases append_eq_append_iff.1 heq with ⟨mid, -, hmid⟩ | ⟨mid, hbefore, hmid⟩
  · exact ht mid rest hmid
  -- the mark is in the first part, unless that part is exactly what comes before it
  cases mid with
  | nil => exact ht [] rest hmid.symm
  | cons b mid =>
    rw [cons_append, List.cons.injEq] at hmid
    obtain ⟨rfl, rfl⟩ := hmid
    exact (hs before mid hbefore).append t

theorem wellTagged_flatMap {α : Type} {f : α → Bytes} {l : List α}
    (h : ∀ x ∈ l, WellTagged (f x)) : WellTagged (l.flatMap f) := by
  induction l with
  | nil => exact wellTagged_of_notMem (by simp)
  | cons x l ih =>
    rw [flatMap_cons]
    exact (h x (mem_cons_self ..)).append (ih fun y hy => h y (mem_cons_of_mem _ hy))

theorem lt_notMem_allowed : ∀ t ∈ allowedTags, '<'.toUInt8 ∉ t := by decide

theorem lt_notMem_tagEnds : ∀ e ∈ tagEnds, '<'.toUInt8 ∉ e := by decide

theorem wellTagged_renderEndTag {name : Bytes} (h : name ∈ allowedTags) :
    WellTagged (renderEndTag name) := by
  have hbegins := BeginsTag.close name [] h
  rw [append_nil] at hbegins
  have htag : renderEndTag name = '<'.toUInt8 :: (utf8 "/" ++ name ++ utf8 ">") := rfl
  rw [htag]
  refine wellTagged_tag hbegins fun hmem => ?_
  simp only [mem_append] at hmem
  rcases hmem with (hmem | hmem) | hmem
  · exact absurd hmem (by decide)
  · exact lt_notMem_allowed name h hmem
  · exact absurd hmem (by decide)

/-! ## The output -/

/-- What `HTML` writes at a time: text, a start tag, with the slash of a self-closing one and the
address of an anchor, or an end tag. -/
inductive Part
  | text (s : Bytes)
  | startTag (name : Bytes) (closed : Bool) (href : Option Bytes)
  | endTag (name : Bytes)

/-- The attributes that come with an address. -/
def hrefText : Option Bytes → Bytes
  | none => []
  | some v =>
    utf8 " href=\"" ++ escapeAttr v ++ utf8 "\" rel=\"nofollow noopener\" target=\"_blank\""

/-- The end of a start tag. -/
def tagEnd (closed : Bool) : Bytes := if closed then utf8 " />" else utf8 ">"

def Part.print : Part → Bytes
  | .text s => s
  | .startTag name closed href => '<'.toUInt8 :: (name ++ (hrefText href ++ tagEnd closed))
  | .endTag name => renderEndTag name

section
variable (u) (w : Writer) (t : Token)

/-- The address a start tag keeps. -/
def Token.href : Option Bytes :=
  if t.name = utf8 "a" then (t.attrs.lookup (utf8 "href")).bind (safeHref u) else none

/-- What is written for an allowed start tag. -/
def Token.part : Part :=
  .startTag t.name (decide (t.kind = .selfClose ∨ t.name = utf8 "br")) (t.href u)

theorem renderStartTag_eq : renderStartTag u t = (t.part u).print := by
  have hattrs : renderAttrs u t = hrefText (t.href u) := by
    rw [renderAttrs, Token.href]
    split
    · cases t.attrs.lookup (utf8 "href") with
      | none => rfl
      | some href => cases hsafe : safeHref u href <;> simp [hsafe, hrefText]
    · rfl
  simp [renderStartTag, Token.part, Part.print, hattrs, tagEnd]

/-- What a token adds to the output. -/
def Writer.parts : List Part :=
  if 0 < w.skipDepth then []
  else match t.kind with
    | .comment => []
    | .text => [.text (replaceByte t.text '<'.toUInt8 (utf8 "&lt;"))]
    | .startTag | .selfClose =>
      if t.name ∈ rawTextTags ∨ t.name ∉ allowedTags then [] else [t.part u]
    | .endTag =>
      if t.name ∈ rawTextTags ∨ t.name ∉ allowedTags ∨ t.name = utf8 "br" then []
      else match lastIndex w.openStack t.name with
        | some idx => (w.openStack.drop idx).reverse.map .endTag
        | none => []

/-- All that is added, with the end tags of what is left open. -/
def Writer.allParts (u : CaseTable) : Writer → List Token → List Part
  | w, [] => w.openStack.reverse.map .endTag
  | w, t :: ts => w.parts u t ++ (w.write u t).allParts u ts

/-- What a token does to the output and to the open tags, by what it writes. -/
inductive Writer.Writes (u : CaseTable) (w : Writer) (t : Token) : Writer → List Part → Prop
  | nothing {w' : Writer} (hout : w'.out = w.out) (hopen : w'.openStack = w.openStack) :
      Writes u w t w' []
  | text (hkind : t.kind = .text) :
      Writes u w t { w with out := w.out ++ replaceByte t.text '<'.toUInt8 (utf8 "&lt;") }
        [.text (replaceByte t.text '<'.toUInt8 (utf8 "&lt;"))]
  | startTag (hkind : t.kind = .startTag ∨ t.kind = .selfClose) (hallowed : t.name ∈ allowedTags) :
      Writes u w t { w with
          out := w.out ++ (t.part u).print
          openStack := if t.kind = .startTag ∧ t.name ≠ utf8 "br" then w.openStack ++ [t.name]
            else w.openStack }
        [t.part u]
  | endTag (idx : ℕ) :
      Writes u w t (w.closeFrom idx) ((w.openStack.drop idx).reverse.map .endTag)

/-- **One token.** -/
theorem Writer.writes : w.Writes u t (w.write u t) (w.parts u t) := by
  by_cases hskip : 0 < w.skipDepth
  · rw [parts, if_pos hskip]
    cases hkind : t.kind <;> simp only [write, hkind, if_pos hskip]
    case endTag => split <;> exact .nothing rfl rfl
    all_goals exact .nothing rfl rfl
  have hstart : t.kind = .startTag ∨ t.kind = .selfClose → w.Writes u t (w.write u t)
      (if t.name ∈ rawTextTags ∨ t.name ∉ allowedTags then [] else [t.part u]) := by
    intro hkind
    have hwrite : w.write u t = if t.name ∈ rawTextTags then
          if t.kind = .startTag then { w with skipDepth := 1, skipTag := t.name } else w
        else if t.name ∉ allowedTags then w
        else { w with
          out := w.out ++ (t.part u).print
          openStack := if t.kind = .startTag ∧ t.name ≠ utf8 "br" then w.openStack ++ [t.name]
            else w.openStack } := by
      rcases hkind with hkind | hkind <;>
        simp only [write, hkind, if_neg hskip, renderStartTag_eq] <;> split_ifs <;> rfl
    rw [hwrite]
    by_cases hraw : t.name ∈ rawTextTags
    · simp only [hraw, if_true, true_or]
      split <;> exact .nothing rfl rfl
    by_cases hallowed : t.name ∈ allowedTags
    · simp only [hraw, hallowed, not_true_eq_false, if_false, or_self]
      exact .startTag hkind hallowed
    · simp only [hraw, hallowed, not_false_eq_true, if_false, if_true, or_true]
      exact .nothing rfl rfl
  rw [parts, if_neg hskip]
  cases hkind : t.kind with
  | comment =>
    simp only [write, hkind]
    exact .nothing rfl rfl
  | text =>
    simp only [write, hkind, if_neg hskip]
    exact .text hkind
  | startTag => exact hstart (.inl hkind)
  | selfClose => exact hstart (.inr hkind)
  | endTag =>
    simp only [write, hkind, if_neg hskip]
    by_cases hraw : t.name ∈ rawTextTags
    · rw [if_pos hraw, if_pos (.inl hraw)]
      exact .nothing rfl rfl
    by_cases hdrop : t.name ∉ allowedTags ∨ t.name = utf8 "br"
    · rw [if_neg hraw, if_pos hdrop, if_pos (.inr hdrop)]
      exact .nothing rfl rfl
    rw [if_neg hraw, if_neg hdrop, if_neg (not_or.2 ⟨hraw, hdrop⟩)]
    split
    · exact .endTag _
    · exact .nothing rfl rfl

end

/-- The tags that are open are allowed ones, and no `br`. -/
def Writer.Tracked (w : Writer) : Prop := ∀ t ∈ w.openStack, t ∈ allowedTags ∧ t ≠ utf8 "br"

section
variable {u : CaseTable} {w w' : Writer} {t : Token} {ps : List Part}

theorem Writer.Writes.out (h : w.Writes u t w' ps) : w'.out = w.out ++ ps.flatMap Part.print := by
  cases h with
  | nothing hout => simp [hout]
  | text => simp [Part.print]
  | startTag => simp
  | endTag idx =>
    rw [flatMap_map]
    rfl

theorem Writer.Writes.tracked (h : w.Writes u t w' ps) (hw : w.Tracked) : w'.Tracked := by
  cases h with
  | nothing _ hopen => rwa [Tracked, hopen]
  | text => exact hw
  | startTag _ hallowed =>
    intro t' ht'
    dsimp only at ht'
    split at ht'
    · rename_i hpush
      rcases mem_append.1 ht' with ht' | ht'
      · exact hw t' ht'
      rw [mem_singleton.1 ht']
      exact ⟨hallowed, hpush.2⟩
    · exact hw t' ht'
  | endTag idx => exact fun t' ht' => hw t' (mem_of_mem_take ht')

theorem Writer.out_allParts (u : CaseTable) (toks : List Token) (w : Writer) :
    ((toks.foldl (write u) w).closeFrom 0).out =
      w.out ++ (w.allParts u toks).flatMap Part.print := by
  induction toks generalizing w with
  | nil =>
    rw [allParts, flatMap_map]
    rfl
  | cons t toks ih =>
    rw [foldl_cons, ih, (w.writes u t).out, allParts, flatMap_append, append_assoc]

theorem Writer.forall_allParts {P : Part → Prop} (toks : List Token)
    (htext : ∀ t ∈ toks, t.kind = .text → P (.text (replaceByte t.text '<'.toUInt8 (utf8 "&lt;"))))
    (hstart : ∀ t : Token, t.name ∈ allowedTags → P (t.part u))
    (hend : ∀ name ∈ allowedTags, name ≠ utf8 "br" → P (.endTag name)) (hw : w.Tracked) :
    ∀ p ∈ w.allParts u toks, P p := by
  have hclose : ∀ {w : Writer} {l : List Bytes}, w.Tracked → (∀ name ∈ l, name ∈ w.openStack) →
      ∀ p ∈ l.reverse.map Part.endTag, P p := by
    intro w l hw hl p hp
    obtain ⟨name, hname, rfl⟩ := mem_map.1 hp
    have hopen := hw name (hl name (mem_reverse.1 hname))
    exact hend name hopen.1 hopen.2
  induction toks generalizing w with
  | nil => exact hclose hw fun _ => id
  | cons t toks ih =>
    intro p hp
    rcases mem_append.1 hp with hp | hp
    · have hwrites := w.writes u t
      generalize w.write u t = w', w.parts u t = ps at hwrites hp
      cases hwrites with
      | nothing => cases hp
      | text hkind => exact mem_singleton.1 hp ▸ htext t (mem_cons_self ..) hkind
      | startTag _ hallowed => exact mem_singleton.1 hp ▸ hstart t hallowed
      | endTag idx => exact hclose hw (fun _ => mem_of_mem_drop) p hp
    · exact ih (fun t' ht' => htext t' (mem_cons_of_mem _ ht')) ((w.writes u t).tracked hw) p hp

end

/-- The parts of the output. -/
def parts (u : CaseTable) (s : Bytes) : List Part := ({} : Writer).allParts u (tokenize u s)

/-- **The output is made of parts**: escaped text, allowed start tags and allowed end tags. -/
theorem html_eq (u : CaseTable) (s : Bytes) : html u s = (parts u s).flatMap Part.print :=
  Writer.out_allParts u (tokenize u s) {}

theorem forall_parts {u : CaseTable} {s : Bytes} {P : Part → Prop}
    (htext : ∀ t ∈ tokenize u s, t.kind = .text →
      P (.text (replaceByte t.text '<'.toUInt8 (utf8 "&lt;"))))
    (hstart : ∀ t : Token, t.name ∈ allowedTags → P (t.part u))
    (hend : ∀ name ∈ allowedTags, name ≠ utf8 "br" → P (.endTag name)) : ∀ p ∈ parts u s, P p :=
  Writer.forall_allParts (tokenize u s) htext hstart hend (by simp [Writer.Tracked])

theorem lt_notMem_escaped (s : Bytes) : '<'.toUInt8 ∉ replaceByte s '<'.toUInt8 (utf8 "&lt;") := by
  intro hmem
  obtain ⟨b, -, hb⟩ := mem_flatMap.1 hmem
  split at hb
  · exact absurd hb (by decide)
  · exact absurd (mem_singleton.1 hb).symm ‹_›

theorem wellTagged_part (u : CaseTable) {t : Token} (h : t.name ∈ allowedTags) :
    WellTagged (t.part u).print := by
  rw [Token.part, Part.print]
  generalize decide (t.kind = .selfClose ∨ t.name = utf8 "br") = closed
  have hend : tagEnd closed ∈ tagEnds := by cases closed <;> decide
  cases hhref : t.href u with
  | none =>
    have hbegins := BeginsTag.bare t.name _ [] h hend
    rw [append_nil] at hbegins
    refine wellTagged_tag hbegins fun hmem => ?_
    rcases mem_append.1 hmem with hmem | hmem
    · exact lt_notMem_allowed _ h hmem
    · exact lt_notMem_tagEnds _ hend hmem
  | some safe =>
    simp only [Token.href, Option.ite_none_right_eq_some, Option.bind_eq_some_iff] at hhref
    obtain ⟨ha, href, -, hsafe⟩ := hhref
    have hv := safeValue_of_safeHref hsafe
    have hbegins := BeginsTag.anchor _ _ [] hv hend
    rw [append_nil] at hbegins
    rw [ha, hrefText, ← append_assoc, ← append_assoc, ← append_assoc]
    refine wellTagged_tag hbegins fun hmem => ?_
    simp only [mem_append] at hmem
    rcases hmem with (((hmem | hmem) | hmem) | hmem) | hmem
    · exact absurd hmem (by decide)
    · exact absurd hmem (by decide)
    · exact (hv.plain _ hmem).2.1 rfl
    · exact absurd hmem (by decide)
    · exact lt_notMem_tagEnds _ hend hmem

/-- **Sanitized markup is well tagged**: whatever the input, every `<` of the output begins an
allowed tag, and the only attributes are those of an `a` with a safe web address. -/
theorem wellTagged_html (u : CaseTable) (s : Bytes) : WellTagged (html u s) := by
  rw [html_eq]
  refine wellTagged_flatMap (forall_parts
    (fun t _ _ => wellTagged_of_notMem (lt_notMem_escaped t.text))
    (fun t => wellTagged_part u) fun name hname _ => wellTagged_renderEndTag hname)

/-! ## Texts -/

/-- `HTML` of a text.  It cuts its input only next to ASCII bytes, so the output is a text too. -/
def htmlText (u : CaseTable) (s : String) : String := String.ofList (runes (html u (utf8 s)))

@[simp] theorem htmlText_empty (u : CaseTable) : htmlText u "" = "" := by
  have htoks : tokenize u (utf8 "") = [] := by
    rw [show utf8 "" = [] from rfl, tokenize]
  have hout : html u (utf8 "") = encode [] := by
    rw [html, htoks]
    rfl
  rw [htmlText, hout, runes_encode]

end AnimeFeedFlux.Sanitize
