import AnimeFeedFlux.Sanitize.Html
import Mathlib.Data.List.DropRight
import Mathlib.Data.List.Flatten

/-!
# Sanitizing twice

Callers count on `HTML` being idempotent: what was sanitized before it was stored is sanitized again
when it is shown.  The output is read back part by part, as the tokens it was written from, and the
second pass writes every part again.  Only an address can come out differently: `safeHref` trims
white space before it drops control characters, so an address may end in white space after that.
-/

namespace AnimeFeedFlux.Sanitize

open GoStrings List

/-! ## Reading the output back -/

/-- A fold over tokens that does not see where a text is cut. -/
structure Merges {α : Type} (f : α → Token → α) : Prop where
  nil : ∀ x, f x { kind := .text } = x
  append : ∀ x a b, f (f x { kind := .text, text := a }) { kind := .text, text := b } =
    f x { kind := .text, text := a ++ b }

section
variable {α : Type} {f : α → Token → α} {u : CaseTable}

theorem foldl_text (hf : Merges f) (x : α) (s : Bytes) :
    (tokenize u s).foldl f x = (tokenize u (s.dropWhile (· != '<'.toUInt8))).foldl f
      (f x { kind := .text, text := s.takeWhile (· != '<'.toUInt8) }) := by
  cases s with
  | nil => simp [hf.nil]
  | cons b s =>
    by_cases hb : b = '<'.toUInt8
    · simp [hb, hf.nil]
    have hpos : (b != '<'.toUInt8) = true := by simpa using hb
    rw [dropWhile_cons_of_pos (p := (· != '<'.toUInt8)) hpos, tokenize, if_pos hb,
      foldl_cons]

theorem foldl_text_append (hf : Merges f) (x : α) {t : Bytes} (ht : '<'.toUInt8 ∉ t)
    (s : Bytes) : (tokenize u (t ++ s)).foldl f x =
      (tokenize u s).foldl f (f x { kind := .text, text := t }) := by
  have hpos : ∀ b ∈ t, (b != '<'.toUInt8) = true := by
    intro b hb
    rw [bne_iff_ne]
    rintro rfl
    exact ht hb
  rw [foldl_text hf x (t ++ s), foldl_text hf _ s, takeWhile_append_of_pos hpos,
    dropWhile_append_of_pos hpos, hf.append]

end

/-- One attribute, as it is written. -/
def attrText (key value : Bytes) : Bytes :=
  ' '.toUInt8 :: (key ++ '='.toUInt8 :: '"'.toUInt8 :: (value ++ ['"'.toUInt8]))

theorem hrefText_some (v : Bytes) : hrefText (some v) = attrText (utf8 "href") (escapeAttr v) ++
    (attrText (utf8 "rel") (utf8 "nofollow noopener") ++
      attrText (utf8 "target") (utf8 "_blank")) := by
  have hstart : utf8 " href=\"" = ' '.toUInt8 :: (utf8 "href" ++ ['='.toUInt8, '"'.toUInt8]) := rfl
  have hend : utf8 "\" rel=\"nofollow noopener\" target=\"_blank\"" = '"'.toUInt8 ::
      (attrText (utf8 "rel") (utf8 "nofollow noopener") ++
        attrText (utf8 "target") (utf8 "_blank")) := rfl
  rw [hrefText, hstart, hend]
  simp [attrText]

/-- The bytes of an attribute name. -/
def KeyBytes (key : Bytes) : Prop :=
  key ≠ [] ∧ ∀ b ∈ key, isSpaceByte b = false ∧ b ≠ '='.toUInt8 ∧ b ≠ '"'.toUInt8 ∧
    b ≠ '\''.toUInt8 ∧ b ≠ '>'.toUInt8

instance (key : Bytes) : Decidable (KeyBytes key) := @instDecidableAnd _ _ _ (decidableBAll _ key)

variable {key value s name : Bytes} {α : Type} {f : α → Token → α} {u : CaseTable}

theorem tagRest_attr (hkey : KeyBytes key) (hvalue : '"'.toUInt8 ∉ value) (s : Bytes) :
    tagRest none (attrText key value ++ s) =
      (tagRest none s).map fun r => (attrText key value ++ r.1, r.2) := by
  have hplain : ∀ {k : Bytes}, (∀ b ∈ k, b ≠ '"'.toUInt8 ∧ b ≠ '\''.toUInt8 ∧ b ≠ '>'.toUInt8) →
      ∀ s, tagRest none (k ++ s) = (tagRest none s).map fun r => (k ++ r.1, r.2) := by
    intro k hk s
    induction k with
    | nil => simp
    | cons b k ih =>
      obtain ⟨hquot, hapos, hgt⟩ := hk b (mem_cons_self ..)
      rw [cons_append, tagRest, if_neg (by simp [hquot, hapos]), if_neg hgt,
        ih fun c hc => hk c (mem_cons_of_mem _ hc), Option.map_map]
      rfl
  have hquoted : ∀ s, tagRest (some '"'.toUInt8) (value ++ '"'.toUInt8 :: s) =
      (tagRest none s).map fun r => (value ++ '"'.toUInt8 :: r.1, r.2) := by
    intro s
    induction value with
    | nil => simp [tagRest]
    | cons b value ih =>
      rw [mem_cons, not_or] at hvalue
      rw [cons_append, tagRest, if_neg (Ne.symm hvalue.1), ih hvalue.2, Option.map_map]
      rfl
  have hopen : ∀ b ∈ ' '.toUInt8 :: (key ++ ['='.toUInt8]),
      b ≠ '"'.toUInt8 ∧ b ≠ '\''.toUInt8 ∧ b ≠ '>'.toUInt8 := by
    simp only [mem_cons, mem_append, not_mem_nil, or_false]
    rintro b (rfl | hb | rfl)
    · decide
    · exact (hkey.2 b hb).2.2
    · decide
  have hsplit : attrText key value ++ s = (' '.toUInt8 :: (key ++ ['='.toUInt8])) ++
      '"'.toUInt8 :: (value ++ '"'.toUInt8 :: s) := by simp [attrText]
  rw [hsplit, hplain hopen, tagRest, if_pos (.inl rfl), hquoted, Option.map_map, Option.map_map]
  refine congrArg (fun g => (tagRest none s).map g) (funext fun r => ?_)
  simp [attrText]

theorem parseAttrsFrom_attr (u : CaseTable) (attrs : List (Bytes × Bytes)) (hkey : KeyBytes key)
    (hvalue : '"'.toUInt8 ∉ value) (s : Bytes) :
    parseAttrsFrom u attrs (attrText key value ++ s) =
      parseAttrsFrom u ((toLowerBytes u key, decodeEntities value) :: attrs) s := by
  obtain ⟨c, k, rfl⟩ := exists_cons_of_ne_nil hkey.1
  obtain ⟨hspace, hequals, -⟩ := hkey.2 c (mem_cons_self ..)
  have hin : ∀ b ∈ k, (!isSpaceByte b && b != '='.toUInt8) = true := by
    intro b hb
    obtain ⟨hb, hb', -⟩ := hkey.2 b (mem_cons_of_mem _ hb)
    simp [hb, hb']
  have hraw : (attrText (c :: k) value ++ s).dropWhile isSpaceByte =
      c :: (k ++ '='.toUInt8 :: '"'.toUInt8 :: (value ++ '"'.toUInt8 :: s)) := by
    simp [attrText, show isSpaceByte ' '.toUInt8 = true from rfl, hspace]
  have hq : ∀ b ∈ value, (b != '"'.toUInt8) = true := by
    intro b hb
    rw [bne_iff_ne]
    rintro rfl
    exact hvalue hb
  have hval : attrValue ('"'.toUInt8 :: (value ++ '"'.toUInt8 :: s)) = (value, s) := by
    simp [attrValue, takeWhile_append_of_pos hq, dropWhile_append_of_pos hq]
  have hafter : ((k ++ '='.toUInt8 :: '"'.toUInt8 :: (value ++ '"'.toUInt8 :: s)).dropWhile
      fun b => !isSpaceByte b && b != '='.toUInt8).dropWhile isSpaceByte =
        '='.toUInt8 :: '"'.toUInt8 :: (value ++ '"'.toUInt8 :: s) := by
    rw [dropWhile_append_of_pos hin]
    rfl
  rw [parseAttrsFrom]
  split
  · rename_i hnil
    cases hraw.symm.trans hnil
  rename_i hcons
  cases hraw.symm.trans hcons
  rw [if_neg hequals]
  simp only
  split
  · rename_i hnil
    cases hafter.symm.trans hnil
  rename_i hcons'
  cases hafter.symm.trans hcons'
  rw [if_pos rfl, dropWhile_cons_of_neg (by decide), hval,
    takeWhile_append_of_pos hin]
  simp

theorem parseAttrsFrom_blank (u : CaseTable) (attrs : List (Bytes × Bytes))
    (h : s.dropWhile isSpaceByte = []) : parseAttrsFrom u attrs s = attrs := by
  rw [parseAttrsFrom]
  split
  · rfl
  rename_i hcons
  cases h.symm.trans hcons

/-! ## Tags -/

theorem toLowerBytes_utf8 (u : CaseTable) {s : String}
    (h : s.toList.all (fun c => decide (c.toNat < 0x80 ∧ c.toLower = c)) = true) :
    toLowerBytes u (utf8 s) = utf8 s := by
  have hmap : s.toList.map u.lower = s.toList := by
    refine (map_congr_left fun c hc => ?_).trans (map_id _)
    obtain ⟨hascii, hlower⟩ := forall_of_all h c hc
    rw [u.ascii c hascii, hlower]
    rfl
  rw [toLowerBytes, utf8, runes_encode, hmap]

theorem allowed_spec (u : CaseTable) (h : name ∈ allowedTags) :
    name ≠ [] ∧ (∀ b ∈ name, isNameByte b) ∧ toLowerBytes u name = name ∧
      name ∉ rawTextTags := by
  have key : ∀ n ∈ allowedTags, n ≠ [] ∧ n.all isNameByte = true ∧ n ∉ rawTextTags := by
    decide
  obtain ⟨hne, hbytes, hraw⟩ := key name h
  refine ⟨hne, all_eq_true.1 hbytes, ?_, hraw⟩
  obtain ⟨s, hs, rfl⟩ := mem_map.1 h
  have hlower : ∀ s ∈ ["p", "em", "strong", "a", "ul", "ol", "li", "blockquote", "code", "br"],
      s.toList.all (fun c => decide (c.toNat < 0x80 ∧ c.toLower = c)) = true := by decide
  exact toLowerBytes_utf8 u (hlower s hs)

/-- **A tag is read back**, with what stands between its name and its end. -/
theorem tokenize_tag (u : CaseTable) (closing : Bool) {raw : Bytes} (hname : name ∈ allowedTags)
    (hraw : ∀ b ∈ raw.head?, isNameByte b = false)
    (hrest : tagRest none (raw ++ '>'.toUInt8 :: s) = some (raw, s)) :
    tokenize u ('<'.toUInt8 :: ((if closing then ['/'.toUInt8] else []) ++
        (name ++ (raw ++ '>'.toUInt8 :: s)))) = tagToken u closing name raw :: tokenize u s := by
  obtain ⟨hne, hbytes, hlower, -⟩ := allowed_spec u hname
  have hstop : (raw ++ '>'.toUInt8 :: s).takeWhile isNameByte = [] ∧
      (raw ++ '>'.toUInt8 :: s).dropWhile isNameByte = raw ++ '>'.toUInt8 :: s := by
    cases raw with
    | nil => exact ⟨rfl, rfl⟩
    | cons b raw => simp [hraw b rfl]
  obtain ⟨c, n, rfl⟩ := exists_cons_of_ne_nil hne
  have hc := hbytes c (mem_cons_self ..)
  have hnot : ∀ {d : UInt8}, isNameByte d = false → c ≠ d := by
    rintro d hd rfl
    rw [hc] at hd
    cases hd
  have hspace : isSpaceByte c = false := by
    simp [isSpaceByte, hnot (d := ' '.toUInt8) (by decide), hnot (d := '\t'.toUInt8) (by decide),
      hnot (d := '\n'.toUInt8) (by decide), hnot (d := '\r'.toUInt8) (by decide),
      hnot (d := 12) (by decide)]
  have hstart : tagStart ((if closing then ['/'.toUInt8] else []) ++
      (c :: n ++ (raw ++ '>'.toUInt8 :: s))) =
        (closing, c :: n, raw ++ '>'.toUInt8 :: s) := by
    have htake : (c :: n ++ (raw ++ '>'.toUInt8 :: s)).takeWhile isNameByte = c :: n := by
      rw [takeWhile_append_of_pos hbytes, hstop.1, append_nil]
    have hdrop : (c :: n ++ (raw ++ '>'.toUInt8 :: s)).dropWhile isNameByte =
        raw ++ '>'.toUInt8 :: s := by
      rw [dropWhile_append_of_pos hbytes, hstop.2]
    rw [cons_append] at htake hdrop
    cases closing
    · have hslash : c ≠ '/'.toUInt8 := hnot (by decide)
      simp [tagStart, hslash, hspace, htake, hdrop]
    · simp [tagStart, hspace, htake, hdrop]
  have hmarkup : ∀ {l : Bytes}, l.head? ≠ some '!'.toUInt8 → l.head? ≠ some '?'.toUInt8 →
      (utf8 "<!--").isPrefixOf ('<'.toUInt8 :: l) = false ∧
        ¬((utf8 "<!").isPrefixOf ('<'.toUInt8 :: l) = true ∨
          (utf8 "<?").isPrefixOf ('<'.toUInt8 :: l) = true) := by
    intro l hbang hquest
    cases l with
    | nil => decide
    | cons d l =>
      have hbang : '!'.toUInt8 ≠ d := fun h => hbang (h ▸ rfl)
      have hquest : '?'.toUInt8 ≠ d := fun h => hquest (h ▸ rfl)
      simp [List.isPrefixOf, hbang, hquest,
        show utf8 "<!--" = ['<'.toUInt8, '!'.toUInt8, '-'.toUInt8, '-'.toUInt8] from rfl,
        show utf8 "<!" = ['<'.toUInt8, '!'.toUInt8] from rfl,
        show utf8 "<?" = ['<'.toUInt8, '?'.toUInt8] from rfl]
  obtain ⟨hcomment, hdecl⟩ := hmarkup (l := (if closing then ['/'.toUInt8] else []) ++
      (c :: n ++ (raw ++ '>'.toUInt8 :: s)))
    (by cases closing <;> simp [hnot (d := '!'.toUInt8) (by decide)]; decide)
    (by cases closing <;> simp [hnot (d := '?'.toUInt8) (by decide)]; decide)
  rw [tokenize, if_neg (not_not.2 rfl), hcomment, if_neg (by decide), if_neg hdecl, hstart,
    if_neg (cons_ne_nil _ _)]
  split
  · rename_i hnone
    cases hrest.symm.trans hnone
  rename_i hsome
  cases hrest.symm.trans hsome
  rw [hlower]

/-! ## Parts -/

/-- The attributes that are read from those of an address. -/
def hrefAttrs : Option Bytes → List (Bytes × Bytes)
  | none => []
  | some v => [(utf8 "target", utf8 "_blank"), (utf8 "rel", utf8 "nofollow noopener"),
      (utf8 "href", v)]

/-- The token a part is read as. -/
def Part.token : Part → Token
  | .text s => { kind := .text, text := s }
  | .startTag name closed href =>
    { kind := if closed then .selfClose else .startTag, name, attrs := hrefAttrs href }
  | .endTag name => { kind := .endTag, name }

/-- What `HTML` writes. -/
def Part.Good (u : CaseTable) : Part → Prop
  | .text s => '<'.toUInt8 ∉ s
  | .startTag name closed href => name ∈ allowedTags ∧ (name = utf8 "br" → closed = true) ∧
      ∀ v, href = some v → name = utf8 "a" ∧ ∃ value, safeHref u value = some v
  | .endTag name => name ∈ allowedTags ∧ name ≠ utf8 "br"

theorem good_parts (u : CaseTable) (s : Bytes) : ∀ p ∈ parts u s, p.Good u := by
  refine forall_parts (fun t _ _ => lt_notMem_escaped t.text) (fun t hallowed => ?_)
    fun name hallowed hbr => ⟨hallowed, hbr⟩
  refine ⟨hallowed, fun hbr => decide_eq_true (.inr hbr), fun v hv => ?_⟩
  simp only [Token.href, Option.ite_none_right_eq_some, Option.bind_eq_some_iff] at hv
  obtain ⟨ha, value, -, hsafe⟩ := hv
  exact ⟨ha, value, hsafe⟩

theorem tagToken_startTag (u : CaseTable) (closed : Bool) {href : Option Bytes}
    (hhref : ∀ v, href = some v → ∀ b ∈ v, 0x20 < b.toNat) :
    tagToken u false name (hrefText href ++ if closed then utf8 " /" else []) =
      (Part.startTag name closed href).token := by
  have hattrs : ∀ {s : Bytes}, s.dropWhile isSpaceByte = [] →
      parseAttrs u (hrefText href ++ s) = hrefAttrs href := by
    intro s hs
    cases href with
    | none => exact parseAttrsFrom_blank u [] hs
    | some v =>
      have hquote : '"'.toUInt8 ∉ escapeAttr v :=
        fun hmem => (mem_escapeAttr (hhref v rfl) hmem).1 rfl
      rw [hrefText_some, append_assoc, append_assoc, parseAttrs,
        parseAttrsFrom_attr u [] (by decide) hquote,
        parseAttrsFrom_attr u _ (by decide) (by decide),
        parseAttrsFrom_attr u _ (by decide) (by decide), parseAttrsFrom_blank u _ hs,
        decodeEntities_escapeAttr, toLowerBytes_utf8 u (by decide),
        toLowerBytes_utf8 u (by decide), toLowerBytes_utf8 u (by decide)]
      rfl
  have htrim : ∀ (s : Bytes) {b : UInt8}, b ∉ blanks → trimRight (s ++ [b]) blanks = s ++ [b] := by
    intro s b hb
    simp [trimRight, hb]
  cases closed
  · have hlast : (trimRight (hrefText href) blanks).getLast? ≠ some '/'.toUInt8 := by
      cases href with
      | none => decide
      | some v =>
        have hend : hrefText (some v) = utf8 " href=\"" ++ escapeAttr v ++
            utf8 "\" rel=\"nofollow noopener\" target=\"_blank" ++ ['"'.toUInt8] := by
          simp [hrefText, append_assoc]
          rfl
        rw [hend, htrim _ (by decide), getLast?_concat]
        decide
    simp only [tagToken, Bool.false_eq_true, if_false, append_nil, hlast, Part.token]
    have := hattrs (s := []) rfl
    rw [append_nil] at this
    rw [this]
  · have hsplit : hrefText href ++ utf8 " /" = (hrefText href ++ utf8 " ") ++ ['/'.toUInt8] := by
      rw [append_assoc]
      rfl
    simp only [tagToken, Bool.false_eq_true, if_false, if_true, hsplit,
      htrim _ (show '/'.toUInt8 ∉ blanks by decide), getLast?_concat,
      dropLast_concat, Part.token]
    rw [hattrs (by decide)]

/-- **A part is read as its token.** -/
theorem foldl_part (hf : Merges f) (x : α) {p : Part} (hp : p.Good u) (s : Bytes) :
    (tokenize u (p.print ++ s)).foldl f x = (tokenize u s).foldl f (f x p.token) := by
  cases p with
  | text t => exact foldl_text_append hf x hp s
  | endTag name =>
    have hrest : tagRest none ([] ++ '>'.toUInt8 :: s) = some ([], s) := rfl
    have hprint : (Part.endTag name).print ++ s = '<'.toUInt8 ::
        ((if true then ['/'.toUInt8] else []) ++ (name ++ ([] ++ '>'.toUInt8 :: s))) := by
      simp [Part.print, renderEndTag, show utf8 "</" = ['<'.toUInt8, '/'.toUInt8] from rfl,
        show utf8 ">" = ['>'.toUInt8] from rfl]
    rw [hprint, tokenize_tag u true hp.1 (by simp) hrest, foldl_cons]
    rfl
  | startTag name closed href =>
    obtain ⟨hname, hbr, hhref⟩ := hp
    have hplain : ∀ v, href = some v → ∀ b ∈ v, 0x20 < b.toNat := by
      intro v hv
      obtain ⟨-, value, hsafe⟩ := hhref v hv
      exact (safeHref_spec hsafe).1
    have hclose : tagRest none ((if closed then utf8 " /" else []) ++ '>'.toUInt8 :: s) =
        some ((if closed then utf8 " /" else []), s) := by cases closed <;> rfl
    have hrest : tagRest none ((hrefText href ++ if closed then utf8 " /" else []) ++
        '>'.toUInt8 :: s) = some ((hrefText href ++ if closed then utf8 " /" else []), s) := by
      cases href with
      | none => exact hclose
      | some v =>
        have hquote : '"'.toUInt8 ∉ escapeAttr v :=
          fun hmem => (mem_escapeAttr (hplain v rfl) hmem).1 rfl
        simp only [hrefText_some, append_assoc]
        rw [tagRest_attr (by decide) hquote, tagRest_attr (by decide) (by decide),
          tagRest_attr (by decide) (by decide), hclose]
        simp
    have hhead : ∀ b ∈ (hrefText href ++ if closed then utf8 " /" else []).head?,
        isNameByte b = false := by
      cases href with
      | none =>
        cases closed <;> rintro b ⟨⟩
        rfl
      | some v => simp [hrefText_some, attrText, show isNameByte ' '.toUInt8 = false from rfl]
    have htag := tokenize_tag u false hname hhead hrest
    have hprint : (Part.startTag name closed href).print ++ s = '<'.toUInt8 :: ([] ++ (name ++
        ((hrefText href ++ if closed then utf8 " /" else []) ++ '>'.toUInt8 :: s))) := by
      have hend : tagEnd closed = (if closed then utf8 " /" else []) ++ ['>'.toUInt8] := by
        cases closed <;> rfl
      simp [Part.print, hend]
    rw [hprint]
    rw [if_neg (by decide)] at htag
    rw [htag, foldl_cons, tagToken_startTag u closed hplain]

theorem foldl_parts (hf : Merges f) (x : α) {ps : List Part} (hps : ∀ p ∈ ps, p.Good u) :
    (tokenize u (ps.flatMap Part.print)).foldl f x = (ps.map Part.token).foldl f x := by
  induction ps generalizing x with
  | nil => simp [tokenize]
  | cons p ps ih =>
    rw [flatMap_cons, foldl_part hf x (hps p (mem_cons_self ..)),
      ih _ fun q hq => hps q (mem_cons_of_mem _ hq)]
    rfl

/-! ## The second pass -/

/-- What is written for a part when it is sanitized again. -/
def Part.again (u : CaseTable) : Part → Part
  | .startTag name closed href => .startTag name closed (href.bind (safeHref u))
  | p => p

theorem replaceByte_eq_self {old : UInt8} (h : old ∉ s) (new : Bytes) :
    replaceByte s old new = s := by
  have hsame : replaceByte s old new = s.flatMap fun b => [b] := by
    refine flatMap_congr fun b hb => if_neg ?_
    rintro rfl
    exact h hb
  rw [hsame, flatMap_singleton']

theorem merges_write (u : CaseTable) : Merges (Writer.write u) where
  nil w := by
    simp only [Writer.write]
    split
    · rfl
    · simp [replaceByte]
  append w a b := by
    simp only [Writer.write]
    split <;> simp_all [replaceByte_append]

section
variable {u : CaseTable} {w : Writer}

theorem write_text (hw : w.skipDepth = 0) {s : Bytes} (hs : '<'.toUInt8 ∉ s) :
    w.write u (Part.text s).token = { w with out := w.out ++ s } := by
  simp [Writer.write, Part.token, hw, replaceByte_eq_self hs]

theorem write_startTag (hw : w.skipDepth = 0) {name : Bytes} {closed : Bool} {href : Option Bytes}
    (h : (Part.startTag name closed href).Good u) :
    w.write u (Part.startTag name closed href).token = { w with
      out := w.out ++ ((Part.startTag name closed href).again u).print
      openStack := if closed then w.openStack else w.openStack ++ [name] } := by
  obtain ⟨hname, hbr, hhref⟩ := h
  have hraw := (allowed_spec u hname).2.2.2
  have hkept : (Part.startTag name closed href).token.href u = href.bind (safeHref u) := by
    cases href with
    | none =>
      rw [Token.href]
      split <;> rfl
    | some v =>
      simp only [Token.href, Part.token, hrefAttrs, (hhref v rfl).1, if_true]
      rfl
  have hpart : (Part.startTag name closed href).token.part u =
      (Part.startTag name closed href).again u := by
    rw [Token.part, hkept, Part.again]
    cases closed <;> simp_all [Part.token]
  cases closed with
  | true =>
    simp only [Writer.write, renderStartTag_eq, hpart]
    simp [Part.token, hw, hraw, hname]
  | false =>
    have hne : name ≠ utf8 "br" := fun h => by cases hbr h
    simp only [Writer.write, renderStartTag_eq, hpart]
    simp [Part.token, hw, hraw, hname, hne]

theorem write_endTag (hw : w.skipDepth = 0) {l : List Bytes} {name : Bytes}
    (hopen : w.openStack = l ++ [name]) (h : (Part.endTag name).Good u) :
    w.write u (Part.endTag name).token =
      { w with out := w.out ++ renderEndTag name, openStack := l } := by
  have hraw := (allowed_spec u h.1).2.2.2
  have hlast : lastIndex (l ++ [name]) name = some l.length := by
    simp [lastIndex, idxOf?_cons]
  simp [Writer.write, Part.token, hw, hraw, h.1, h.2, hlast, Writer.closeFrom, hopen]

theorem foldl_endTags (below l : List Bytes) (hl : ∀ name ∈ l, (Part.endTag name).Good u)
    (hw : w.skipDepth = 0) (hopen : w.openStack = below ++ l) :
    ((l.reverse.map Part.endTag).map Part.token).foldl (Writer.write u) w =
      { w with out := w.out ++ l.reverse.flatMap renderEndTag, openStack := below } := by
  induction l using List.reverseRecOn generalizing w with
  | nil =>
    rw [append_nil] at hopen
    simp [← hopen]
  | append_singleton l name ih =>
    rw [← append_assoc] at hopen
    rw [reverse_concat, map_cons, map_cons, foldl_cons,
      write_endTag hw hopen (hl name (by simp)), ih (fun n hn => hl n (by simp [hn]))]
    · simp
    · exact hw
    · rfl

variable {w' w₂ : Writer} {t : Token} {ps : List Part}

/-- **The two passes keep the same tags open.** -/
theorem Writer.Writes.again (h : w.Writes u t w' ps) (hw : w.Tracked) (hps : ∀ p ∈ ps, p.Good u)
    (hskip : w₂.skipDepth = 0) (hopen : w₂.openStack = w.openStack) :
    (ps.map Part.token).foldl (Writer.write u) w₂ = { w₂ with
      out := w₂.out ++ ps.flatMap fun p => (p.again u).print
      openStack := w'.openStack } := by
  cases h with
  | nothing hout hopen' =>
    rw [hopen', ← hopen]
    simp
  | text hkind =>
    simp only [map_cons, map_nil, foldl_cons, foldl_nil,
      write_text hskip (hps _ (mem_cons_self ..)), ← hopen]
    simp [Part.again, Part.print]
  | startTag hkind hallowed =>
    have hstart := write_startTag hskip (hps _ (mem_cons_self ..))
    rw [Token.part] at hps ⊢
    simp only [map_cons, map_nil, foldl_cons, foldl_nil, hstart, hopen]
    rcases hkind with hkind | hkind
    · by_cases hbr : t.name = utf8 "br" <;> simp [hkind, hbr]
    · simp [hkind]
  | endTag idx =>
    have hclose := foldl_endTags (w.openStack.take idx) (w.openStack.drop idx) (u := u)
      (fun name hname => hw name (mem_of_mem_drop hname)) hskip
      (by rw [take_append_drop, hopen])
    rw [hclose, flatMap_map]
    rfl

end

/-- **Sanitizing twice** writes every part again. -/
theorem html_html (u : CaseTable) (s : Bytes) :
    html u (html u s) = (parts u s).flatMap fun p => (p.again u).print := by
  have hloop : ∀ (toks : List Token) (w w₂ : Writer), w.Tracked →
      (∀ p ∈ w.allParts u toks, p.Good u) → w₂.skipDepth = 0 → w₂.openStack = w.openStack →
      ((w.allParts u toks).map Part.token).foldl (Writer.write u) w₂ = { w₂ with
        out := w₂.out ++ (w.allParts u toks).flatMap fun p => (p.again u).print
        openStack := [] } := by
    intro toks
    induction toks with
    | nil =>
      intro w w₂ hw hgood hskip hopen
      rw [Writer.allParts, foldl_endTags [] w.openStack hw hskip (by simp [hopen]),
        flatMap_map]
      rfl
    | cons t toks ih =>
      intro w w₂ hw hgood hskip hopen
      rw [Writer.allParts] at hgood ⊢
      rw [map_append, foldl_append, (w.writes u t).again hw
        (fun p hp => hgood p (mem_append_left _ hp)) hskip hopen,
        ih _ _ ((w.writes u t).tracked hw) (fun p hp => hgood p (mem_append_right _ hp))
          (by exact hskip) (by rfl), flatMap_append, append_assoc]
  have hpass := hloop (tokenize u s) {} {} (by simp [Writer.Tracked]) (good_parts u s) rfl rfl
  rw [html_eq u s, html, foldl_parts (merges_write u) {} (good_parts u s), parts, hpass]
  simp [Writer.closeFrom]

/-! ## Addresses that change -/

/-- The characters of a trimmed address that are not dropped. -/
def cleaned (href : Bytes) : List Char :=
  (runes (trimSpaceBytes href)).filter fun r => !decide (r.toNat ≤ 0x20)

/-- No white space is left at the end once the control characters after it are dropped. -/
def Tidy (href : Bytes) : Prop := ∀ c, (cleaned href).getLast? = some c → isSpace c = false

/-- White space at both ends goes. -/
def trimChars (cs : List Char) : List Char := (cs.dropWhile isSpace).rdropWhile isSpace

theorem trimSpaceBytes_encode (cs : List Char) :
    trimSpaceBytes (encode cs) = encode (trimChars cs) := by
  simp only [trimSpaceBytes, segments_encode, dropWhile_map, ← map_reverse,
    flatMap_map]
  rfl

theorem trimChars_sublist (cs : List Char) : (trimChars cs).Sublist cs :=
  (List.rdropWhile_prefix isSpace _).sublist.trans (cs.dropWhile_sublist isSpace)

variable {u : CaseTable} {α β : Type} {f g : α → List β} {l : List α}

theorem safeHref_eq_some (href : Bytes) {v : Bytes} :
    safeHref u href = some v ↔ v = encode (cleaned href) ∧
      (utf8 "http://" <+: toLowerBytes u v ∨ utf8 "https://" <+: toLowerBytes u v) := by
  have hempty : ¬(utf8 "http://" <+: toLowerBytes u [] ∨
      utf8 "https://" <+: toLowerBytes u []) := by
    simp [toLowerBytes, runes, segments]
  by_cases hnil : trimSpaceBytes href = []
  · have hclean : encode (cleaned href) = [] := by simp [cleaned, hnil, runes, segments]
    simp only [safeHref, hnil, if_true, hclean, reduceCtorEq, false_iff, not_and]
    rintro rfl
    exact hempty
  · simp only [safeHref, cleaned, hnil, if_false, List.isPrefixOf_iff_prefix]
    split
    · rename_i hhttp
      constructor
      · rintro ⟨⟩
        exact ⟨rfl, .inl hhttp⟩
      · rintro ⟨rfl, -⟩
        rfl
    · rename_i hhttp
      simp only [Option.ite_none_right_eq_some, Option.some.injEq]
      constructor
      · rintro ⟨hhttps, rfl⟩
        exact ⟨rfl, .inr hhttps⟩
      · rintro ⟨rfl, hweb⟩
        exact ⟨hweb.resolve_left hhttp, rfl⟩

/-- **An address is kept the second time if it is tidy**; otherwise it gets shorter. -/
theorem safeHref_again {href v : Bytes} (h : safeHref u href = some v) :
    (safeHref u v = some v ↔ Tidy href) ∧ ∀ v', safeHref u v = some v' → v'.Sublist v := by
  obtain ⟨rfl, hweb⟩ := (safeHref_eq_some href).1 h
  have hclean : cleaned (encode (cleaned href)) = trimChars (cleaned href) := by
    rw [cleaned, trimSpaceBytes_encode, runes_encode, filter_eq_self]
    exact fun c hc => (mem_filter.1 ((trimChars_sublist _).mem hc)).2
  simp only [safeHref_eq_some (encode (cleaned href)), hclean]
  constructor
  · rw [and_iff_left hweb, Tidy]
    generalize cleaned href = cs at hweb
    cases cs with
    | nil => simp [trimChars]
    | cons c cs =>
      have hhead : isSpace c = false := by
        simp only [toLowerBytes, runes_encode] at hweb
        have hlower : u.lower c = 'h' := by
          rcases hweb with hweb | hweb <;> exact (eq_of_isPrefix_encode (by decide) hweb).1
        by_cases hascii : c.toNat < 0x80
        · have key : ∀ n < 0x80, (Char.ofNat n).toLower = 'h' →
              isSpace (Char.ofNat n) = false := by decide
          have hc := key c.toNat hascii
          rw [Char.ofNat_toNat] at hc
          exact hc (u.ascii c hascii ▸ hlower)
        · rcases u.nonascii c (by omega) (by rw [hlower]; decide) with hi | hk
          · exact absurd (hlower.symm.trans hi) (by decide)
          · exact absurd (hlower.symm.trans hk) (by decide)
      have hinj : encode (c :: cs) = encode (trimChars (c :: cs)) ↔
          trimChars (c :: cs) = c :: cs := by
        constructor
        · intro heq
          have hrunes := congrArg runes heq
          rw [runes_encode, runes_encode] at hrunes
          exact hrunes.symm
        · intro heq
          rw [heq]
      rw [hinj, trimChars, dropWhile_cons_of_neg (by simp [hhead]),
        rdropWhile_eq_self_iff]
      simp [getLast?_eq_some_getLast]
  · rintro v' ⟨rfl, -⟩
    exact (trimChars_sublist _).flatMap _

/-! ## What is written -/

/-- The element whose content is dropped, after one more token. -/
def skipAfter (skip : Option Bytes) (t : Token) : Option Bytes :=
  skip.elim (if t.kind = .startTag ∧ rawTextTags.contains t.name then some t.name else none)
    fun tag => if t.kind = .endTag ∧ t.name = tag then none else some tag

/-- The tokens that are not inside a dropped element. -/
def outside : Option Bytes → List Token → List Token
  | _, [] => []
  | skip, t :: ts => (if skip = none then [t] else []) ++ outside (skipAfter skip t) ts

/-- The element the writer drops. -/
def Writer.skips (w : Writer) : Option Bytes := if 0 < w.skipDepth then some w.skipTag else none

theorem Writer.skips_write (u : CaseTable) (w : Writer) (t : Token) :
    (w.write u t).skips = skipAfter w.skips t := by
  by_cases hskip : 0 < w.skipDepth
  · have hskips : w.skips = some w.skipTag := if_pos hskip
    rw [hskips]
    cases hkind : t.kind <;> simp only [write, hkind, if_pos hskip, skipAfter] <;>
      split_ifs <;> simp_all [skips]
  · have hskips : w.skips = none := if_neg hskip
    rw [hskips]
    cases hkind : t.kind <;> simp only [write, hkind, if_neg hskip, skipAfter]
    case endTag =>
      cases lastIndex w.openStack t.name <;> split_ifs <;> simp_all [skips, closeFrom]
    all_goals split_ifs <;> simp_all [skips]

/-- The start tags among the parts come from the tokens outside dropped elements. -/
theorem Writer.forall_startTags {Q : Part → Prop} (htext : ∀ s, Q (.text s))
    (hend : ∀ name, Q (.endTag name)) (toks : List Token) (w : Writer) :
    (∀ p ∈ w.allParts u toks, Q p) ↔ ∀ t ∈ outside w.skips toks,
      t.kind = .startTag ∨ t.kind = .selfClose → t.name ∈ allowedTags → Q (t.part u) := by
  induction toks generalizing w with
  | nil => simp [allParts, outside, hend]
  | cons t toks ih =>
    have hone : (∀ p ∈ w.parts u t, Q p) ↔ ∀ t' ∈ (if w.skips = none then [t] else []),
        t'.kind = .startTag ∨ t'.kind = .selfClose → t'.name ∈ allowedTags → Q (t'.part u) := by
      by_cases hskip : 0 < w.skipDepth
      · simp [parts, skips, hskip]
      have hraw : t.name ∈ allowedTags → t.name ∉ rawTextTags :=
        fun h => (allowed_spec u h).2.2.2
      cases hkind : t.kind
      case endTag =>
        refine iff_of_true (fun p hp => ?_) (by simp [skips, hskip, hkind])
        simp only [parts, hskip, hkind, if_false] at hp
        split at hp
        · cases hp
        split at hp
        · obtain ⟨name, -, rfl⟩ := mem_map.1 hp
          exact hend name
        · cases hp
      case text => simp [parts, skips, hskip, hkind, htext]
      case comment => simp [parts, skips, hskip, hkind]
      all_goals
        by_cases hallowed : t.name ∈ allowedTags
        · simp [parts, skips, hskip, hkind, hallowed, hraw hallowed]
        · simp [parts, skips, hskip, hkind, hallowed]
    rw [allParts, outside, forall_mem_append, forall_mem_append, hone, ih,
      skips_write]

theorem length_flatMap_le (h : ∀ a ∈ l, (g a).length ≤ (f a).length) :
    (l.flatMap g).length ≤ (l.flatMap f).length := by
  induction l with
  | nil => exact Nat.le_refl _
  | cons a l ih =>
    rw [flatMap_cons, flatMap_cons, length_append, length_append]
    exact Nat.add_le_add (h a (mem_cons_self ..))
      (ih fun b hb => h b (mem_cons_of_mem _ hb))

theorem flatMap_eq_iff (h : ∀ a ∈ l, (g a).length ≤ (f a).length) :
    l.flatMap g = l.flatMap f ↔ ∀ a ∈ l, g a = f a := by
  constructor
  · intro heq
    induction l with
    | nil => simp
    | cons a l ih =>
      rw [flatMap_cons, flatMap_cons] at heq
      have hlen := congrArg List.length heq
      rw [length_append, length_append] at hlen
      have hrest := length_flatMap_le fun b hb => h b (mem_cons_of_mem _ hb)
      have hfirst := h a (mem_cons_self ..)
      obtain ⟨ha, hl⟩ := append_inj heq (by omega)
      exact forall_mem_cons.2 ⟨ha, ih (fun b hb => h b (mem_cons_of_mem _ hb)) hl⟩
  · exact flatMap_congr

theorem hrefText_inj {a b : Option Bytes} : hrefText a = hrefText b ↔ a = b := by
  constructor
  · intro h
    cases a with
    | none => cases b with
      | none => rfl
      | some v => cases h
    | some v => cases b with
      | none => cases h
      | some v' =>
        rw [hrefText, hrefText, append_cancel_right_eq, append_cancel_left_eq] at h
        rw [← decodeEntities_escapeAttr v, h, decodeEntities_escapeAttr]
  · exact congrArg hrefText

theorem length_escapeAttr_le {v v' : Bytes} (h : v'.Sublist v) :
    (escapeAttr v').length ≤ (escapeAttr v).length := by
  have heq : ∀ s, escapeAttr s = s.flatMap escapeByte := by
    intro s
    induction s with
    | nil => rfl
    | cons b s ih => rw [escapeAttr_cons, ih, flatMap_cons]
  rw [heq, heq]
  exact (h.flatMap escapeByte).length_le

/-- **Sanitizing twice is sanitizing once**, unless an address that is kept ends in white space
outside ASCII followed by control characters. -/
theorem html_idempotent_iff (u : CaseTable) (s : Bytes) :
    html u (html u s) = html u s ↔ ∀ t ∈ outside none (tokenize u s),
      t.kind = .startTag ∨ t.kind = .selfClose → t.name = utf8 "a" →
      ∀ href, t.attrs.lookup (utf8 "href") = some href → (safeHref u href).isSome → Tidy href := by
  have hshorter : ∀ p ∈ parts u s, (p.again u).print.length ≤ p.print.length := by
    intro p hp
    cases p with
    | startTag name closed href =>
      cases href with
      | none => exact Nat.le_refl _
      | some v =>
        obtain ⟨-, value, hsafe⟩ := (good_parts u s _ hp).2.2 v rfl
        cases hagain : safeHref u v with
        | none =>
          simp only [Part.again, Part.print, Option.bind_some, hagain, hrefText,
            length_cons, length_append]
          simp
        | some v' =>
          have := length_escapeAttr_le ((safeHref_again hsafe).2 v' hagain)
          simp only [Part.again, Part.print, Option.bind_some, hagain, hrefText,
            length_cons, length_append]
          omega
    | _ => exact Nat.le_refl _
  rw [html_html, html_eq, flatMap_eq_iff hshorter, parts,
    Writer.forall_startTags (fun _ => rfl) fun _ => rfl]
  refine forall_congr' fun t => imp_congr_right fun _ => imp_congr_right fun _ => ?_
  have hprint : ((t.part u).again u).print = (t.part u).print ↔
      (t.href u).bind (safeHref u) = t.href u := by
    simp [Token.part, Part.again, Part.print, hrefText_inj]
  have hallowed : utf8 "a" ∈ allowedTags := by decide
  rw [hprint]
  constructor
  · intro h ha href hlookup hsome
    obtain ⟨v, hv⟩ := Option.isSome_iff_exists.1 hsome
    have hhref : t.href u = some v := by simp [Token.href, ha, hlookup, hv]
    rw [hhref] at h
    exact (safeHref_again hv).1.1 (h (ha ▸ hallowed))
  · intro h _
    cases hhref : t.href u with
    | none => rfl
    | some v =>
      simp only [Token.href, Option.ite_none_right_eq_some, Option.bind_eq_some_iff] at hhref
      obtain ⟨ha, href, hlookup, hsafe⟩ := hhref
      exact (safeHref_again hsafe).1.2 (h ha href hlookup (by rw [hsafe]; rfl))

/-- An anchor whose address ends in a no-break space and a control character. -/
def noBreakAnchor : Bytes := utf8 "<a href=\"http://x/\u00a0\x01\">"

/-- **The second pass drops the space** that the first one has left at the end. -/
theorem not_idempotent_noBreakAnchor :
    html asciiCase (html asciiCase noBreakAnchor) ≠ html asciiCase noBreakAnchor := by
  decide +kernel

end AnimeFeedFlux.Sanitize
