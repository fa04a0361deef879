import AnimeFeedFlux.Lib.GoStrings
import Mathlib.Algebra.Group.Int.Defs

/-!
# Go strings as bytes

A Go string is any sequence of bytes.  Ranging over one decodes it rune by rune, and a byte that
starts no well-formed encoding is read alone, as U+FFFD; this is what `segments` does.  The case
mapping of characters outside ASCII needs the Unicode tables, of which a `CaseTable` keeps the one
fact that matters to a comparison with an ASCII text: which of them have an ASCII lower case.
-/

namespace AnimeFeedFlux

open List

abbrev Bytes := List UInt8

namespace GoStrings

/-- The bytes a `strings.Builder` holds after `WriteRune` of each character. -/
def encode (cs : List Char) : Bytes := cs.flatMap String.utf8EncodeChar

/-- A string literal. -/
def utf8 (s : String) : Bytes := encode s.toList

def runeError : Char := '�'

/-- A rune for a code point: `WriteRune` replaces what is not a Unicode scalar value. -/
def runeOf (code : ℕ) : Char := if code.isValidChar then Char.ofNat code else runeError

/-- The runes of a string, each with the bytes it was read from. -/
def segments (s : Bytes) : List (Char × Bytes) :=
  match s with
  | [] => []
  | b :: s =>
    match (b :: s).toByteArray.utf8DecodeChar? 0 with
    | some c => (c, (b :: s).take c.utf8Size) :: segments (s.drop (c.utf8Size - 1))
    | none => (runeError, [b]) :: segments s
termination_by s.length
decreasing_by
  · simp only [List.length_drop, List.length_cons]
    omega
  · exact Nat.lt_succ_self _

/-- What `for _, r := range s` yields. -/
def runes (s : Bytes) : List Char := (segments s).map (·.1)

/-- `strings.TrimSpace`. -/
def trimSpaceBytes (s : Bytes) : Bytes :=
  let blank := fun g : Char × Bytes => isSpace g.1
  ((((segments s).dropWhile blank).reverse.dropWhile blank).reverse).flatMap (·.2)

/-- `strings.TrimRight`, for a cutset of ASCII characters. -/
def trimRight (s cutset : Bytes) : Bytes := (s.reverse.dropWhile cutset.contains).reverse

/-- `strings.ReplaceAll` of a single byte. -/
def replaceByte (s : Bytes) (old : UInt8) (new : Bytes) : Bytes :=
  s.flatMap fun b => if b = old then new else [b]

def indexByte (s : Bytes) (c : UInt8) : Option ℕ := s.idxOf? c

def index (s sub : Bytes) : Option ℕ :=
  if sub.isPrefixOf s then some 0
  else match s with
    | [] => none
    | _ :: s => (index s sub).map (· + 1)

/-- A simple lower-case mapping.  Only two characters outside ASCII have a lower case inside it:
the dotted capital I and the Kelvin sign. -/
structure CaseTable where
  lower : Char → Char
  ascii : ∀ c, c.toNat < 0x80 → lower c = c.toLower
  nonascii : ∀ c, 0x80 ≤ c.toNat → (lower c).toNat < 0x80 → lower c = 'i' ∨ lower c = 'k'

/-- `strings.ToLower`. -/
def toLowerBytes (u : CaseTable) (s : Bytes) : Bytes := encode ((runes s).map u.lower)

/-- An ASCII letter in lower case, every other byte as it is. -/
def lowerByte (b : UInt8) : UInt8 := if 65 ≤ b ∧ b ≤ 90 then b + 32 else b

/-- Whether `s` begins with `p`, which is in lower case, up to the case of ASCII letters. -/
def HasPrefixFold (s p : Bytes) : Prop := (s.take p.length).map lowerByte = p
deriving Decidable

variable {c : Char} {s : Bytes} {cs ps : List Char}

theorem toLower_of_nonascii (hc : 0x80 ≤ c.toNat) : c.toLower = c := by
  have htoNat : c.val.toNat = c.toNat := rfl
  delta Char.toLower
  rw [dif_neg]
  rintro ⟨-, hle⟩
  have := UInt32.le_iff_toNat_le.1 hle
  simp at this
  omega

theorem toLower_nonascii (c : Char) (hc : 0x80 ≤ c.toNat) (hlt : c.toLower.toNat < 0x80) :
    c.toLower = 'i' ∨ c.toLower = 'k' := by
  rw [toLower_of_nonascii hc] at hlt
  omega

/-- The table of a world without letters outside ASCII. -/
def asciiCase : CaseTable where
  lower := Char.toLower
  ascii _ _ := rfl
  nonascii := toLower_nonascii

/-! ## Numbers -/

/-- The value of an ASCII digit or letter as a digit. -/
def digitOf (b : UInt8) : Option ℕ :=
  if 48 ≤ b ∧ b ≤ 57 then some (b.toNat - 48)
  else if 97 ≤ lowerByte b ∧ lowerByte b ≤ 122 then some ((lowerByte b).toNat - 97 + 10)
  else none

/-- `strconv.ParseUint` without its range check. -/
def parseUint (base : ℕ) (s : Bytes) : Option ℕ :=
  if s = [] then none
  else s.foldlM (fun n b => (digitOf b).bind fun d =>
    if d < base then some (n * base + d) else none) 0

def parseInt (s : Bytes) (base bits : ℕ) : Option ℤ :=
  let signed : Option ℤ := match s with
    | [] => none
    | b :: digits =>
      if b = '+'.toUInt8 then (parseUint base digits).map Int.ofNat
      else if b = '-'.toUInt8 then (parseUint base digits).map fun n => -Int.ofNat n
      else (parseUint base s).map Int.ofNat
  signed.filter fun n => decide (-2 ^ (bits - 1) ≤ n ∧ n < 2 ^ (bits - 1))

/-! ## Encodings -/

@[simp] theorem encode_nil : encode [] = [] := rfl

@[simp] theorem encode_cons (c : Char) (cs : List Char) :
    encode (c :: cs) = String.utf8EncodeChar c ++ encode cs := rfl

theorem utf8EncodeChar_ne_nil (c : Char) : String.utf8EncodeChar c ≠ [] := by
  intro h
  have hlen := String.length_utf8EncodeChar c
  rw [h] at hlen
  exact absurd hlen (Nat.ne_of_lt c.utf8Size_pos)

@[simp] theorem utf8_eq_nil {s : String} : utf8 s = [] ↔ s = "" := by
  constructor
  · intro h
    rw [← String.toList_eq_nil_iff]
    cases hs : s.toList with
    | nil => rfl
    | cons c cs =>
      rw [utf8, hs, encode_cons] at h
      exact absurd (append_eq_nil_iff.1 h).1 (utf8EncodeChar_ne_nil c)
  · rintro rfl
    rfl

@[simp] theorem utf8_append (s t : String) : utf8 (s ++ t) = utf8 s ++ utf8 t := by
  rw [utf8, String.toList_append, encode, flatMap_append]
  rfl

theorem segments_encode_cons (c : Char) (s : Bytes) :
    segments (String.utf8EncodeChar c ++ s) = (c, String.utf8EncodeChar c) :: segments s := by
  have hdecode : (String.utf8EncodeChar c ++ s).toByteArray.utf8DecodeChar? 0 = some c := by
    rw [toByteArray_append]
    exact ByteArray.utf8DecodeChar?_utf8EncodeChar_append
  have hlen := String.length_utf8EncodeChar c
  obtain ⟨b, bs, hb⟩ := exists_cons_of_ne_nil (utf8EncodeChar_ne_nil c)
  rw [hb] at hdecode hlen ⊢
  rw [cons_append] at hdecode ⊢
  rw [segments, hdecode]
  simp only [List.cons.injEq, Prod.mk.injEq, true_and]
  constructor
  · rw [← hlen, ← cons_append, take_left]
  · rw [← hlen, length_cons, Nat.add_sub_cancel, drop_left]

theorem segments_encode (cs : List Char) :
    segments (encode cs) = cs.map fun c => (c, String.utf8EncodeChar c) := by
  induction cs with
  | nil => simp [segments]
  | cons c cs ih => rw [encode_cons, segments_encode_cons, ih, map_cons]

/-- **Ranging over what was encoded gives the characters back.** -/
@[simp] theorem runes_encode (cs : List Char) : runes (encode cs) = cs := by
  simp [runes, segments_encode, Function.comp_def]

/-- The first rune of a string: an encoded character, or a byte that begins none. -/
theorem segments_cases (hs : s ≠ []) : (∃ c l, s = String.utf8EncodeChar c ++ l ∧
      segments s = (c, String.utf8EncodeChar c) :: segments l) ∨
      ∃ b l, s = b :: l ∧ segments s = (runeError, [b]) :: segments l := by
  obtain ⟨b, l, rfl⟩ := exists_cons_of_ne_nil hs
  cases hdecode : (b :: l).toByteArray.utf8DecodeChar? 0 with
  | some c =>
    obtain ⟨rest, hrest⟩ := ByteArray.exists_of_utf8DecodeChar?_eq_some hdecode
    have hbytes : b :: l = String.utf8EncodeChar c ++ rest.data.toList := by
      simpa using congrArg (·.data.toList) hrest
    refine .inl ⟨c, rest.data.toList, hbytes, ?_⟩
    rw [hbytes, segments_encode_cons]
  | none =>
    refine .inr ⟨b, l, rfl, ?_⟩
    rw [segments, hdecode]

theorem segments_wellFormed {g : Char × Bytes} (hg : g ∈ segments s) :
    String.utf8EncodeChar g.1 = g.2 ∨ g.1 = runeError := by
  induction hlen : s.length using Nat.strongRecOn generalizing s with
  | ind n ih =>
    have hs : s ≠ [] := by
      rintro rfl
      simp [segments] at hg
    rcases segments_cases hs with ⟨c, l, rfl, hseg⟩ | ⟨b, l, rfl, hseg⟩
    · rw [hseg] at hg
      rcases mem_cons.1 hg with rfl | hg
      · exact .inl rfl
      · have hpos := length_pos_of_ne_nil (utf8EncodeChar_ne_nil c)
        rw [length_append] at hlen
        exact ih l.length (by omega) hg rfl
    · rw [hseg] at hg
      rcases mem_cons.1 hg with rfl | hg
      · exact .inr rfl
      · exact ih l.length (by rw [← hlen]; exact Nat.lt_succ_self _) hg rfl

theorem toNat_toUInt8 (h : c.toNat < 0x80) : c.toUInt8.toNat = c.toNat := by
  change c.val.toUInt8.toNat = c.val.toNat
  rw [UInt32.toNat_toUInt8]
  exact Nat.mod_eq_of_lt (Nat.lt_trans h (by decide))

/-- An ASCII character is its own encoding; any other is encoded in bytes above ASCII. -/
theorem utf8EncodeChar_cases (c : Char) : (c.toNat < 0x80 ∧ String.utf8EncodeChar c = [c.toUInt8]) ∨
    (0x80 ≤ c.toNat ∧ ∀ b ∈ String.utf8EncodeChar c, 0x80 ≤ b.toNat) := by
  have htoNat : c.val.toNat = c.toNat := rfl
  by_cases h : c.toNat < 0x80
  · refine .inl ⟨h, ?_⟩
    rw [String.utf8EncodeChar, htoNat, if_pos (by omega)]
    rfl
  refine .inr ⟨Nat.le_of_not_lt h, fun b hb => ?_⟩
  rw [String.utf8EncodeChar, htoNat, if_neg (by omega)] at hb
  split at hb
  · simp only [mem_cons, not_mem_nil, or_false] at hb
    rcases hb with rfl | rfl <;> rw [UInt8.toNat_ofNat'] <;> omega
  split at hb
  · simp only [mem_cons, not_mem_nil, or_false] at hb
    rcases hb with rfl | rfl | rfl <;> rw [UInt8.toNat_ofNat'] <;> omega
  · simp only [mem_cons, not_mem_nil, or_false] at hb
    rcases hb with rfl | rfl | rfl | rfl <;> rw [UInt8.toNat_ofNat'] <;> omega

theorem toUInt8_mem_of_mem_runes (hc : c.toNat < 0x80) (h : c ∈ runes s) : c.toUInt8 ∈ s := by
  induction hlen : s.length using Nat.strongRecOn generalizing s with
  | ind n ih =>
    have hs : s ≠ [] := by
      rintro rfl
      simp [runes, segments] at h
    rcases segments_cases hs with ⟨d, l, rfl, hseg⟩ | ⟨b, l, rfl, hseg⟩
    · simp only [runes, hseg, map_cons, mem_cons] at h
      rcases h with rfl | h
      · rcases utf8EncodeChar_cases c with ⟨-, henc⟩ | ⟨hge, -⟩
        · rw [henc]
          exact mem_cons_self ..
        · omega
      · have hpos := length_pos_of_ne_nil (utf8EncodeChar_ne_nil d)
        rw [length_append] at hlen
        exact mem_append_right _ (ih l.length (by omega) h rfl)
    · simp only [runes, hseg, map_cons, mem_cons] at h
      rcases h with rfl | h
      · exact absurd hc (by decide)
      rw [length_cons] at hlen
      exact mem_cons_of_mem _ (ih l.length (by omega) h rfl)

theorem exists_of_mem_encode {b : UInt8} (hb : b.toNat < 0x80) (h : b ∈ encode cs) :
    ∃ c ∈ cs, c.toNat < 0x80 ∧ b = c.toUInt8 := by
  obtain ⟨c, hc, hbc⟩ := mem_flatMap.1 h
  rcases utf8EncodeChar_cases c with ⟨hascii, henc⟩ | ⟨-, hhigh⟩
  · rw [henc, mem_singleton] at hbc
    exact ⟨c, hc, hascii, hbc⟩
  · have := hhigh b hbc
    omega

/-- No byte of an encoding is at or below a bound within ASCII if no character is. -/
theorem lt_of_mem_encode {n : ℕ} (hn : n < 0x80) (hcs : ∀ c ∈ cs, n < c.toNat) :
    ∀ b ∈ encode cs, n < b.toNat := by
  intro b hb
  by_cases hascii : b.toNat < 0x80
  · obtain ⟨c, hc, hcascii, rfl⟩ := exists_of_mem_encode hascii hb
    rw [toNat_toUInt8 hcascii]
    exact hcs c hc
  · omega

theorem mem_of_toUInt8_mem_encode (hc : c.toNat < 0x80) (h : c.toUInt8 ∈ encode cs) : c ∈ cs := by
  obtain ⟨d, hd, hascii, heq⟩ := exists_of_mem_encode (by rwa [toNat_toUInt8 hc]) h
  have hnat := congrArg UInt8.toNat heq
  rw [toNat_toUInt8 hc, toNat_toUInt8 hascii] at hnat
  rwa [Char.toNat_inj.1 hnat]

/-! ## Comparing without case -/

theorem lowerByte_toUInt8 (h : c.toNat < 0x80) : lowerByte c.toUInt8 = c.toLower.toUInt8 := by
  have hall : ∀ n < 0x80, lowerByte (Char.ofNat n).toUInt8 = (Char.ofNat n).toLower.toUInt8 := by
    decide
  have := hall c.toNat h
  rwa [Char.ofNat_toNat] at this

theorem eq_of_isPrefix_encode {p : Char} (hp : p.toNat < 0x80)
    (h : encode (p :: ps) <+: encode (c :: cs)) : c = p ∧ encode ps <+: encode cs := by
  rcases utf8EncodeChar_cases p with ⟨-, hpenc⟩ | ⟨hge, -⟩
  · rw [encode_cons, encode_cons, hpenc] at h
    rcases utf8EncodeChar_cases c with ⟨hc, hcenc⟩ | ⟨-, hhigh⟩
    · rw [hcenc] at h
      obtain ⟨hbyte, htail⟩ := cons_prefix_cons.1 h
      refine ⟨?_, htail⟩
      have hnat := congrArg UInt8.toNat hbyte
      rw [toNat_toUInt8 hp, toNat_toUInt8 hc] at hnat
      exact Char.toNat_inj.1 hnat.symm
    · obtain ⟨b, bs, hb⟩ := exists_cons_of_ne_nil (utf8EncodeChar_ne_nil c)
      have := hhigh b (hb ▸ mem_cons_self ..)
      rw [hb] at h
      have hbyte := congrArg UInt8.toNat (cons_prefix_cons.1 h).1
      rw [toNat_toUInt8 hp] at hbyte
      omega
  · omega

/-- **A lower-cased string that begins with an ASCII text begins with it up to ASCII case**,
unless the text has an i or a k: no other letter can come from outside ASCII. -/
theorem hasPrefixFold_of_lower (u : CaseTable) (hps : ∀ p ∈ ps, p.toNat < 0x80 ∧ p ≠ 'i' ∧ p ≠ 'k')
    (h : encode ps <+: toLowerBytes u (encode cs)) : HasPrefixFold (encode cs) (encode ps) := by
  rw [toLowerBytes, runes_encode] at h
  induction ps generalizing cs with
  | nil => rfl
  | cons p ps ih =>
    obtain ⟨hp, hi, hk⟩ := hps p (mem_cons_self ..)
    cases cs with
    | nil =>
      rw [map_nil, encode_nil, prefix_nil, encode_cons] at h
      exact absurd (append_eq_nil_iff.1 h).1 (utf8EncodeChar_ne_nil p)
    | cons c cs =>
      obtain ⟨hlower, htail⟩ := eq_of_isPrefix_encode hp h
      have hc : c.toNat < 0x80 := by
        by_contra hge
        rcases u.nonascii c (by omega) (by rwa [hlower]) with hlow | hlow
        · exact hi (hlower.symm.trans hlow)
        · exact hk (hlower.symm.trans hlow)
      have hrest := ih (fun q hq => hps q (mem_cons_of_mem _ hq)) htail
      have hcenc := (utf8EncodeChar_cases c).resolve_right (by omega)
      have hpenc := (utf8EncodeChar_cases p).resolve_right (by omega)
      have hfold : lowerByte c.toUInt8 = p.toUInt8 := by
        rw [lowerByte_toUInt8 hc, ← u.ascii c hc, hlower]
      rw [HasPrefixFold, encode_cons, encode_cons, hcenc.2, hpenc.2]
      simpa [hfold, HasPrefixFold, map_take] using hrest

end GoStrings

end AnimeFeedFlux
