import AnimeFeedFlux.Generate.Contract
import AnimeFeedFlux.Sources.Urlnorm

/-!
# The patterns of the contract

The regular expressions of `contract.go` written out as the searches they stand for, with the URL
parser: what `Validate` and `validateFormats` match with when nothing is left open but the Unicode
case table.
-/

namespace AnimeFeedFlux.Contract

open GoStrings

/-- `\s`. -/
def isBlank (c : Char) : Bool := [' ', '\t', '\n', '\x0C', '\r'].contains c

/-- `\w`, whose edges are `\b`. -/
def isWord (c : Char) : Bool := c.isAlphanum || c == '_'

/-- `htmlTagRe` at the front of a text. -/
def tagOpens : List Char → Bool
  | [] => false
  | c :: rest =>
    let rest := rest.dropWhile isBlank
    let rest := if rest.head? = some '/' then rest.tail.dropWhile isBlank else rest
    c == '<' && rest.head?.any Char.isAlpha

/-- `htmlTagRe.MatchString`. -/
def htmlTag (s : String) : Bool := s.toList.tails.any tagOpens

/-- `stripTagsRe` with nothing in place of a match; `inTag` says whether one is being read. -/
def stripTagsFrom : Bool → List Char → List Char
  | _, [] => []
  | true, c :: rest => stripTagsFrom (c != '>') rest
  | false, c :: rest =>
    if c = '<' ∧ '>' ∈ rest then stripTagsFrom true rest else c :: stripTagsFrom false rest

/-- `stripTagsRe.ReplaceAllString(s, "")`. -/
def stripTags (s : String) : String := String.ofList (stripTagsFrom false s.toList)

/-- A quoted value, up to the quote that ends it. -/
def quoted (q : Char) (cs : List Char) : Option (List Char × List Char) :=
  if q ∈ cs then some (cs.takeWhile (· != q), (cs.dropWhile (· != q)).drop 1) else none

/-- A value without quotes. -/
def bare (cs : List Char) : Option (List Char × List Char) :=
  let stops := fun c => isBlank c || c == '>'
  if cs.takeWhile (!stops ·) = [] then none
  else some (cs.takeWhile (!stops ·), cs.dropWhile (!stops ·))

/-- The value alternatives of `anchorHrefRe`, tried in turn. -/
def hrefValue (cs : List Char) : Option (List Char × List Char) :=
  match cs with
  | [] => none
  | c :: rest =>
    if c = '"' ∨ c = '\'' then (quoted c rest).or (bare cs) else bare cs

/-- `href\s*=\s*` and the value after it, at the front of a text. -/
def hrefAt (cs : List Char) : Option (List Char × List Char) :=
  if (cs.take 4).map Char.toLower = "href".toList then
    match (cs.drop 4).dropWhile isBlank with
    | [] => none
    | c :: rest => if c = '=' then hrefValue (rest.dropWhile isBlank) else none
  else none

/-- The first `href` of a start tag, not beyond the end of the tag; `prev` is the character
before. -/
def findHref (prev : Char) : List Char → Option (List Char × List Char)
  | [] => none
  | c :: rest =>
    if c = '>' then none
    else match if isWord prev then none else hrefAt (c :: rest) with
      | some found => some found
      | none => findHref c rest

/-- `anchorHrefRe` at the front of a text: the value, and what follows the match. -/
def anchorHref : List Char → Option (List Char × List Char)
  | '<' :: a :: rest =>
    if a.toLower = 'a' ∧ !(rest.head?.any isWord) then findHref a rest else none
  | _ => none

/-- The matches of `anchorHrefRe`; the fuel is the number of characters, of which each step takes
one at least. -/
def anchorHrefsFrom : ℕ → List Char → List String
  | 0, _ => []
  | _, [] => []
  | fuel + 1, c :: rest =>
    match anchorHref (c :: rest) with
    | some (value, after) => String.ofList value :: anchorHrefsFrom fuel after
    | none => anchorHrefsFrom fuel rest

/-- `anchorHrefRe.FindAllStringSubmatch`, the value of each match. -/
def anchorHrefs (s : String) : List String := anchorHrefsFrom s.length s.toList

def isAbsoluteURL (u : CaseTable) (raw : String) : Bool :=
  match NetUrl.parse u (utf8 (trimSpace raw)) with
  | none => false
  | some url => url.scheme != [] && url.host != []

/-- What the package matches with. -/
def patterns (u : CaseTable) : Matchers where
  lower := u.lower
  htmlTag := htmlTag
  anchorHrefs := anchorHrefs
  stripTags := stripTags
  isAbsoluteURL := isAbsoluteURL u
  normalize := Urlnorm.normalizeText u

example : anchorHrefs "<a class=x HREF = '/b'>t</a><a href=c>" = ["/b", "c"] := by decide

end AnimeFeedFlux.Contract
