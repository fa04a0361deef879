import AnimeFeedFlux.Lib.Bytes

/-!
# Reading markup

The sanitizer's own reader: tags, comments and text, with attribute values decoded.  It takes any
bytes.  What it cannot read as a tag it returns as text, as it stands, so text can hold a `<`; what
it drops (declarations, processing instructions, the rest after an unterminated one) is in no token.
-/

namespace AnimeFeedFlux.Sanitize

open GoStrings

/-! ## Entities -/

def namedEntities : List (Bytes × Char) :=
  [(utf8 "&amp;", '&'), (utf8 "&lt;", '<'), (utf8 "&gt;", '>'), (utf8 "&quot;", '"'),
    (utf8 "&apos;", '\'')]

/-- The code point of a numeric entity, from what stands between `&#` and `;`. -/
def numericEntity (body : Bytes) : Option ℤ :=
  match body with
  | x :: y :: hex =>
    if x = 'x'.toUInt8 ∨ x = 'X'.toUInt8 then parseInt (y :: hex) 16 32 else parseInt body 10 32
  | _ => parseInt body 10 32

/-- The entity at the start of `s`, which begins with `&`: the rune it stands for and its length.
One that is not recognised is not read at all. -/
def entityAt (s : Bytes) : Option (Char × ℕ) :=
  match indexByte s ';'.toUInt8 with
  | none => none
  | some semi =>
    if 12 < semi then none
    else
      let ent := s.take (semi + 1)
      match namedEntities.lookup ent with
      | some r => some (r, ent.length)
      | none =>
        if (utf8 "&#").isPrefixOf ent then
          match numericEntity ((ent.drop 2).dropLast) with
          | some code =>
            if 0 < code ∧ code ≤ 0x10FFFF then some (runeOf code.toNat, ent.length) else none
          | none => none
        else none

/-- The loop of `decodeEntities`. -/
def decodeLoop (s : Bytes) : Bytes :=
  match s with
  | [] => []
  | b :: s =>
    if b = '&'.toUInt8 then
      match entityAt (b :: s) with
      | some (r, n) => String.utf8EncodeChar r ++ decodeLoop (s.drop (n - 1))
      | none => b :: decodeLoop s
    else b :: decodeLoop s
termination_by s.length
decreasing_by
  · simp only [List.length_drop, List.length_cons]
    omega
  · exact Nat.lt_succ_self _
  · exact Nat.lt_succ_self _

def decodeEntities (s : Bytes) : Bytes :=
  if s.contains '&'.toUInt8 then decodeLoop s else s

/-! ## Tags -/

inductive TokenKind
  | text
  | startTag
  | endTag
  | selfClose
  | comment
  deriving DecidableEq, Repr

/-- `token`.  The latest binding of an attribute comes first. -/
structure Token where
  kind : TokenKind
  name : Bytes := []
  attrs : List (Bytes × Bytes) := []
  text : Bytes := []
  deriving DecidableEq, Repr

/-- The package's own `isSpace`. -/
def isSpaceByte (c : UInt8) : Bool :=
  c == ' '.toUInt8 || c == '\t'.toUInt8 || c == '\n'.toUInt8 || c == '\r'.toUInt8 || c == 12

def isNameByte (c : UInt8) : Bool :=
  ('a'.toUInt8 ≤ c && c ≤ 'z'.toUInt8) || ('A'.toUInt8 ≤ c && c ≤ 'Z'.toUInt8) ||
    ('0'.toUInt8 ≤ c && c ≤ '9'.toUInt8) || c == '-'.toUInt8 || c == ':'.toUInt8 ||
    c == '_'.toUInt8

theorem length_dropWhile_le (p : UInt8 → Bool) (s : Bytes) : (s.dropWhile p).length ≤ s.length :=
  (List.dropWhile_suffix p).length_le

/-- The value at the start of `s`, and what follows it: quoted, up to the matching quote or the
end, or else up to a blank. -/
def attrValue (s : Bytes) : Bytes × Bytes :=
  match s with
  | [] => ([], [])
  | q :: s' =>
    if q = '"'.toUInt8 ∨ q = '\''.toUInt8 then
      (s'.takeWhile (· != q), (s'.dropWhile (· != q)).drop 1)
    else (s.takeWhile (!isSpaceByte ·), s.dropWhile (!isSpaceByte ·))

theorem length_attrValue_le (s : Bytes) : (attrValue s).2.length ≤ s.length := by
  cases s with
  | nil => exact Nat.le_refl _
  | cons q s =>
    simp only [attrValue]
    split
    · have := length_dropWhile_le (· != q) s
      simp only [List.length_drop, List.length_cons]
      omega
    · exact length_dropWhile_le _ _

/-- `parseAttrs`, from the map `attrs` on. -/
def parseAttrsFrom (u : CaseTable) (attrs : List (Bytes × Bytes)) (raw : Bytes) :
    List (Bytes × Bytes) :=
  match _hraw : raw.dropWhile isSpaceByte with
  | [] => attrs
  | c :: s =>
    -- an equals sign without a key is skipped alone
    if c = '='.toUInt8 then parseAttrsFrom u attrs s
    else
      let inKey := fun b => !isSpaceByte b && b != '='.toUInt8
      let key := toLowerBytes u (c :: s.takeWhile inKey)
      match _hkey : (s.dropWhile inKey).dropWhile isSpaceByte with
      | [] => (key, []) :: attrs
      | b :: rest =>
        if b = '='.toUInt8 then
          let val := attrValue (rest.dropWhile isSpaceByte)
          parseAttrsFrom u ((key, decodeEntities val.1) :: attrs) val.2
        else parseAttrsFrom u ((key, []) :: attrs) (b :: rest)
termination_by raw.length
decreasing_by
  all_goals
    have hs := length_dropWhile_le isSpaceByte raw
    rw [_hraw, List.length_cons] at hs
  · omega
  all_goals
    have hrest := length_dropWhile_le isSpaceByte (s.dropWhile inKey)
    have hinKey := length_dropWhile_le inKey s
    rw [_hkey, List.length_cons] at hrest
  · have hval := length_attrValue_le (rest.dropWhile isSpaceByte)
    have hblank := length_dropWhile_le isSpaceByte rest
    omega
  · rw [List.length_cons]
    omega

def parseAttrs (u : CaseTable) (raw : Bytes) : List (Bytes × Bytes) := parseAttrsFrom u [] raw

/-- The end of a tag: what stands before the first `>` outside quotes, and what follows it.
`quote` is the quote that is open. -/
def tagRest (quote : Option UInt8) : Bytes → Option (Bytes × Bytes)
  | [] => none
  | c :: s =>
    match quote with
    | some q => (tagRest (if c = q then none else some q) s).map fun r => (c :: r.1, r.2)
    | none =>
      if c = '"'.toUInt8 ∨ c = '\''.toUInt8 then
        (tagRest (some c) s).map fun r => (c :: r.1, r.2)
      else if c = '>'.toUInt8 then some ([], s)
      else (tagRest none s).map fun r => (c :: r.1, r.2)

variable {quote : Option UInt8} {s raw rest : Bytes}

theorem suffix_of_tagRest (h : tagRest quote s = some (raw, rest)) : '>'.toUInt8 :: rest <:+ s := by
  induction s generalizing quote raw with
  | nil => cases h
  | cons c s ih =>
    have hmap : ∀ {q : Option UInt8},
        (tagRest q s).map (fun r => (c :: r.1, r.2)) = some (raw, rest) →
          '>'.toUInt8 :: rest <:+ c :: s := by
      intro q hq
      obtain ⟨⟨raw', rest'⟩, hr, heq⟩ := Option.map_eq_some_iff.1 hq
      cases heq
      exact (ih hr).trans (List.suffix_cons c s)
    simp only [tagRest] at h
    split at h
    · exact hmap h
    split at h
    · exact hmap h
    split at h
    · rename_i hgt
      cases h
      exact hgt ▸ List.suffix_refl _
    · exact hmap h

theorem length_tagRest (h : tagRest quote s = some (raw, rest)) : rest.length < s.length :=
  (suffix_of_tagRest h).length_le

/-- The trailing blanks `TrimRight` cuts off an attribute region. -/
def blanks : Bytes := utf8 " \t\r\n"

/-- The token of a tag, from its name and its attribute region. -/
def tagToken (u : CaseTable) (closing : Bool) (name raw : Bytes) : Token :=
  let selfClose := (trimRight raw blanks).getLast? = some '/'.toUInt8
  let attrs := parseAttrs u (if selfClose then (trimRight raw blanks).dropLast else raw)
  if closing then { kind := .endTag, name }
  else if selfClose then { kind := .selfClose, name, attrs }
  else { kind := .startTag, name, attrs }

/-- The start of a tag after its `<`: whether it closes an element, its name, and what follows the
name. -/
def tagStart (s : Bytes) : Bool × Bytes × Bytes :=
  let closing := s.head? == some '/'.toUInt8
  let s := (if closing then s.drop 1 else s).dropWhile isSpaceByte
  (closing, s.takeWhile isNameByte, s.dropWhile isNameByte)

theorem suffix_tagStart (s : Bytes) : (tagStart s).2.2 <:+ s := by
  refine ((List.dropWhile_suffix _).trans (List.dropWhile_suffix _)).trans ?_
  split
  · exact List.drop_suffix 1 s
  · exact List.suffix_refl s

/-- `tokenize`, on what is left of the input. -/
def tokenize (u : CaseTable) (s : Bytes) : List Token :=
  match s with
  | [] => []
  | b :: s' =>
    if b ≠ '<'.toUInt8 then
      { kind := .text, text := s.takeWhile (· != '<'.toUInt8) } ::
        tokenize u (s'.dropWhile (· != '<'.toUInt8))
    else if (utf8 "<!--").isPrefixOf s then
      match index s (utf8 "-->") with
      | none => [{ kind := .comment, text := s }]
      | some n => { kind := .comment, text := s.take (n + 3) } :: tokenize u (s'.drop (n + 2))
    else if (utf8 "<!").isPrefixOf s ∨ (utf8 "<?").isPrefixOf s then
      match indexByte s '>'.toUInt8 with
      | none => []
      | some n => tokenize u (s'.drop n)
    else if (tagStart s').2.1 = [] then { kind := .text, text := utf8 "<" } :: tokenize u s'
    else
      match _htag : tagRest none (tagStart s').2.2 with
      | none => [{ kind := .text, text := s }]
      | some (raw, rest) =>
        tagToken u (tagStart s').1 (toLowerBytes u (tagStart s').2.1) raw :: tokenize u rest
termination_by s.length
decreasing_by
  · exact Nat.lt_succ_of_le (length_dropWhile_le _ _)
  · simp only [List.length_drop, List.length_cons]
    omega
  · simp only [List.length_drop, List.length_cons]
    omega
  · exact Nat.lt_succ_self _
  · exact Nat.lt_succ_of_lt
      (Nat.lt_of_lt_of_le (length_tagRest _htag) (suffix_tagStart s').length_le)

end AnimeFeedFlux.Sanitize
