import AnimeFeedFlux.Lib.Xml

/-!
# Text for XML

`internal/render/escape.go`: what XML cannot represent is taken out of a string, the rest is
escaped or put into CDATA sections.  A Go string is any sequence of bytes; what comes out is
well-formed UTF-8, so from here on a string is the list of its characters.
-/

namespace AnimeFeedFlux.Render

open GoStrings Xml List

def isInvalidXMLRune (r : Char) : Bool :=
  let n := r.toNat
  if n = 0x09 ∨ n = 0x0A ∨ n = 0x0D then false
  else if 0x20 ≤ n ∧ n ≤ 0xD7FF then false
  else if 0xE000 ≤ n ∧ n ≤ 0xFFFD then false
  else if 0x10000 ≤ n ∧ n ≤ 0x10FFFF then false
  else true

def validString (s : Bytes) : Bool := encode (runes s) == s

/-- The line ends of `sanitizeXMLText`. -/
def unifyNewlines (s : Bytes) : Bytes :=
  if s.contains '\r'.toUInt8 then
    replaceAll (utf8 "\r") (utf8 "\n") (replaceAll (utf8 "\r\n") (utf8 "\n") s)
  else s

def sanitizeXMLText (s : Bytes) : List Char :=
  let s := unifyNewlines s
  if validString s && !(runes s).any isInvalidXMLRune then runes s
  else (runes s).filter fun r => !(r == runeError || isInvalidXMLRune r)

/-- `textEscaper`. -/
def escapeChar (c : Char) : List Char :=
  if c = '&' then "&#x26;".toList
  else if c = '<' then "&#x3C;".toList
  else if c = '>' then "&#x3E;".toList
  else if c = '"' then "&#x22;".toList
  else if c = '\'' then "&#x27;".toList
  else [c]

def escapeText (s : Bytes) : List Char := (sanitizeXMLText s).flatMap escapeChar

def cdata (s : Bytes) : List Char :=
  "<![CDATA[".toList ++
    (replaceAll "]]>".toList "]]]]><![CDATA[>".toList (sanitizeXMLText s) ++ "]]>".toList)

/-! ## What is left of a text -/

theorem isChar_of_not_invalid {c : Char} (h : isInvalidXMLRune c = false) : isChar c := by
  simp only [isInvalidXMLRune] at h
  simp only [isChar, Bool.or_eq_true, Bool.and_eq_true, decide_eq_true_eq, beq_iff_eq]
  split at h
  · omega
  split at h
  · omega
  split at h
  · omega
  split at h
  · omega
  · cases h

theorem isChar_of_mem_sanitizeXMLText {s : Bytes} {c : Char} (h : c ∈ sanitizeXMLText s) :
    isChar c := by
  apply isChar_of_not_invalid
  simp only [sanitizeXMLText] at h
  split at h
  · rename_i hvalid
    simp only [Bool.and_eq_true, Bool.not_eq_true', any_eq_false] at hvalid
    exact Bool.not_eq_true _ ▸ hvalid.2 c h
  · have hkept := (mem_filter.1 h).2
    simp only [Bool.not_eq_true', Bool.or_eq_false_iff] at hkept
    exact hkept.2

theorem mem_replaceAll_single {α : Type} [DecidableEq α] {a : α} {new s : List α} (ha : a ∉ new) :
    a ∉ replaceAll [a] new s := by
  induction s with
  | nil => exact not_mem_nil
  | cons c s ih =>
    by_cases hc : a = c
    · subst hc
      have happend := replaceAll_append new (cons_ne_nil a []) s
      rw [cons_append, nil_append] at happend
      rw [happend, mem_append]
      exact not_or.2 ⟨ha, ih⟩
    · rw [replaceAll_cons new fun hp => hc (cons_prefix_cons.1 hp).1, mem_cons]
      exact not_or.2 ⟨hc, ih⟩

theorem clean_unifyNewlines (s : Bytes) : '\r'.toUInt8 ∉ unifyNewlines s := by
  rw [unifyNewlines]
  split
  · exact mem_replaceAll_single (by decide)
  rename_i h
  rwa [contains_iff_mem] at h

theorem clean_sanitizeXMLText (s : Bytes) : '\r' ∉ sanitizeXMLText s := by
  have hrunes : '\r' ∉ runes (unifyNewlines s) := fun h =>
    clean_unifyNewlines s (toUInt8_mem_of_mem_runes (by decide) h)
  rw [sanitizeXMLText]
  split
  · exact hrunes
  · exact fun h => hrunes (mem_filter.1 h).1

/-- A text of characters XML can represent, without carriage returns, stays as it is. -/
theorem sanitizeXMLText_utf8 {s : String}
    (h : ∀ c ∈ s.toList, isInvalidXMLRune c = false ∧ c ≠ '\r') :
    sanitizeXMLText (utf8 s) = s.toList := by
  have hnewlines : unifyNewlines (utf8 s) = utf8 s := by
    refine if_neg fun hmem => ?_
    rw [contains_iff_mem] at hmem
    exact (h '\r' (mem_of_toUInt8_mem_encode (by decide) hmem)).2 rfl
  have hrunes : runes (utf8 s) = s.toList := runes_encode s.toList
  have hvalid : validString (utf8 s) = true := by
    rw [validString, hrunes]
    exact beq_self_eq_true _
  have hnone : s.toList.any isInvalidXMLRune = false := by
    rw [any_eq_false]
    exact fun c hc => by simp [(h c hc).1]
  simp [sanitizeXMLText, hnewlines, hvalid, hrunes, hnone]

/-! ## Reading it back -/

theorem writes_escapeChar {c : Char} (hchar : isChar c) (hclean : c ≠ '\r') :
    Writes (escapeChar c) c := by
  by_cases hspecial : c ∈ ['&', '<', '>', '"', '\'']
  · simp only [mem_cons, not_mem_nil, or_false] at hspecial
    rcases hspecial with rfl | rfl | rfl | rfl | rfl
    · exact .reference "#x26".toList rfl (forall_of_all (by decide)) rfl
    · exact .reference "#x3C".toList rfl (forall_of_all (by decide)) rfl
    · exact .reference "#x3E".toList rfl (forall_of_all (by decide)) rfl
    · exact .reference "#x22".toList rfl (forall_of_all (by decide)) rfl
    · exact .reference "#x27".toList rfl (forall_of_all (by decide)) rfl
  · simp only [mem_cons, not_mem_nil, or_false, not_or] at hspecial
    obtain ⟨hamp, hlt, hgt, hquote, hapos⟩ := hspecial
    have hplain : escapeChar c = [c] := by
      simp [escapeChar, hamp, hlt, hgt, hquote, hapos]
    rw [hplain]
    exact .plain hchar (by simp [hamp, hlt, hgt, hquote, hclean])

theorem writes_sanitizeXMLText (s : Bytes) : ∀ c ∈ sanitizeXMLText s, Writes (escapeChar c) c := by
  intro c hc
  refine writes_escapeChar (isChar_of_mem_sanitizeXMLText hc) ?_
  rintro rfl
  exact clean_sanitizeXMLText s hc

/-- **Escaped text is read back as the sanitized text.** -/
theorem frag_escapeText (s : Bytes) : Frag (escapeText s) ((sanitizeXMLText s).map .char) :=
  frag_escaped (writes_sanitizeXMLText s)

/-- **CDATA sections are read back as the sanitized text.** -/
theorem frag_cdata_text (s : Bytes) : Frag (cdata s) ((sanitizeXMLText s).map .char) :=
  frag_cdata (fun _ hc => isChar_of_mem_sanitizeXMLText hc) (clean_sanitizeXMLText s)

/-! ## What a CDATA section carries -/

/-- The characters of a string, without the bytes that belong to none. -/
def wellFormed (s : Bytes) : List Char :=
  ((segments s).filter fun g => String.utf8EncodeChar g.1 == g.2).map (·.1)

/-- What XML can carry of a string: its characters, with line ends unified, but for those that XML
forbids. -/
def carried (s : Bytes) : List Char := (wellFormed (unifyNewlines s)).filter isChar

/-- `CDATA` gives sections without an end mark inside, which are read back as what XML can carry. -/
def CarriesText (s : Bytes) : Prop :=
  (∃ ts : List (List Char), (∀ t ∈ ts, ¬ cdataEnd <:+: t) ∧ cdata s = ts.flatMap cdataSection) ∧
    Frag (cdata s) ((carried s).map .char)

theorem isChar_eq (c : Char) : isChar c = !isInvalidXMLRune c := by
  cases h : isInvalidXMLRune c with
  | false => exact isChar_of_not_invalid h
  | true =>
    simp only [isInvalidXMLRune] at h
    simp only [isChar]
    grind

theorem carried_eq_iff (s : Bytes) : carried s = sanitizeXMLText s ↔
      validString (unifyNewlines s) ∧ (∀ c ∈ runes (unifyNewlines s), isChar c) ∨
        runeError ∉ wellFormed (unifyNewlines s) := by
  rw [carried, sanitizeXMLText]
  generalize unifyNewlines s = t
  have hcond : (validString t && !(runes t).any isInvalidXMLRune) = true ↔
      validString t = true ∧ ∀ c ∈ runes t, isChar c = true := by
    simp [isChar_eq]
  by_cases hnice : validString t = true ∧ ∀ c ∈ runes t, isChar c = true
  · have hchars : wellFormed t = runes t := by
      have hvalid := beq_iff_eq.1 hnice.1
      rw [wellFormed, ← hvalid, segments_encode]
      simp [filter_map, Function.comp_def]
    rw [if_pos (hcond.2 hnice), hchars, filter_eq_self]
    exact ⟨fun _ => .inl hnice, fun _ => hnice.2⟩
  rw [if_neg (mt hcond.1 hnice), or_iff_right hnice]
  constructor
  · intro h hmem
    have hcarried := mem_filter.2 ⟨hmem, (by decide : isChar runeError = true)⟩
    rw [h] at hcarried
    simp at hcarried
  · intro hnone
    rw [wellFormed, runes, filter_map, filter_filter, filter_map]
    congr 1
    refine filter_congr fun g hg => ?_
    by_cases hwell : String.utf8EncodeChar g.1 = g.2
    · have hne : g.1 ≠ runeError := by
        rintro heq
        refine hnone (mem_map.2 ⟨g, mem_filter.2 ⟨hg, ?_⟩, heq⟩)
        simpa using hwell
      simp [hwell, hne, isChar_eq]
    · have heq := (segments_wellFormed hg).resolve_left hwell
      rw [heq] at hwell
      simp [hwell, heq]

theorem carriesText_iff_eq (s : Bytes) : CarriesText s ↔ carried s = sanitizeXMLText s := by
  obtain ⟨t, ts, -, hclean, htext⟩ := exists_sections (sanitizeXMLText s)
  have hsections : cdata s = (t :: ts).flatMap cdataSection := by
    have hcdata : cdata s = cdataBegin ++
        (replaceAll cdataEnd cdataSplit (sanitizeXMLText s) ++ cdataEnd) := rfl
    rw [hcdata, htext]
    simp [cdataSection]
  constructor
  · intro h
    exact map_injective_iff.2 (fun _ _ => Content.char.inj) (h.2.unique (frag_cdata_text s))
  · exact fun h => ⟨⟨t :: ts, hclean, hsections⟩, h ▸ frag_cdata_text s⟩

/-- **CDATA sections carry what XML can carry, unless a U+FFFD stands in a text that also has
something to remove.**  There it is taken for an ill-formed byte and removed as well. -/
theorem carriesText_iff (s : Bytes) : CarriesText s ↔
    validString (unifyNewlines s) = true ∧ (∀ c ∈ runes (unifyNewlines s), isChar c = true) ∨
      runeError ∉ wellFormed (unifyNewlines s) :=
  (carriesText_iff_eq s).trans (carried_eq_iff s)

theorem not_carriesText_replacement : ¬CarriesText (utf8 "�" ++ [0xFF]) := by
  rw [carriesText_iff_eq]
  decide +kernel

end AnimeFeedFlux.Render
