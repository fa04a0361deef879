import AnimeFeedFlux.Lib.Bytes

/-!
# Go's `net/url`

A URL is taken apart by `parse` and put together by `toBytes`.  Each part has its own set of bytes
that are written as they are; all others are written `%XX`, and `unescape` reads them back.  In a
host only bytes outside ASCII may be written so.

A host in brackets has to be an IPv6 address, which may name a zone; a host without them has at
most one colon, before its port.
-/

namespace AnimeFeedFlux.NetUrl

open GoStrings

/-! ## Splitting -/

/-- `strings.Cut` at a byte. -/
def cut (s : Bytes) (sep : UInt8) : Bytes × Bytes :=
  (s.takeWhile (· != sep), (s.dropWhile (· != sep)).drop 1)

/-- The parts before and after the last `sep`, if there is one. -/
def cutLast (s : Bytes) (sep : UInt8) : Option (Bytes × Bytes) :=
  if s.contains sep then
    some (((s.reverse.dropWhile (· != sep)).drop 1).reverse,
      (s.reverse.takeWhile (· != sep)).reverse)
  else none

/-- The parts between separators, of which there is always one. -/
def splitOn (s : Bytes) (sep : UInt8) : List Bytes :=
  match s with
  | [] => [[]]
  | b :: s =>
    match splitOn s sep with
    | [] => [[b]]
    | part :: parts => if b = sep then [] :: part :: parts else (b :: part) :: parts

/-! ## Percent-encoding -/

/-- The `encoding` modes. -/
inductive Encoding
  | path
  | host
  | zone
  | userPassword
  | queryComponent
  | fragment
  deriving DecidableEq, Repr

def isDigit (c : UInt8) : Bool := 48 ≤ c && c ≤ 57

def isLetter (c : UInt8) : Bool := (97 ≤ c && c ≤ 122) || (65 ≤ c && c ≤ 90)

/-- `unhex`, if `ishex`. -/
def unhex (c : UInt8) : Option ℕ :=
  if isDigit c then some (c.toNat - 48)
  else if 97 ≤ c ∧ c ≤ 102 then some (c.toNat - 97 + 10)
  else if 65 ≤ c ∧ c ≤ 70 then some (c.toNat - 65 + 10)
  else none

/-- A digit of `upperhex`. -/
def upperhex (n : ℕ) : UInt8 := if n < 10 then .ofNat (48 + n) else .ofNat (55 + n)

def shouldEscape (c : UInt8) (mode : Encoding) : Bool :=
  if isLetter c || isDigit c then false
  else if (mode == .host || mode == .zone) && (utf8 "!$&'()*+,;=:[]<>\"").contains c then false
  else if (utf8 "-_.~").contains c then false
  else if (utf8 "$&+,/:;=?@").contains c then
    match mode with
    | .path => c == '?'.toUInt8
    | .userPassword => (utf8 "@/?:").contains c
    | .queryComponent => true
    | .fragment => false
    | .host | .zone => true
  else !(mode == .fragment && (utf8 "!()*").contains c)

def escape (s : Bytes) (mode : Encoding) : Bytes :=
  s.flatMap fun c =>
    if c == ' '.toUInt8 && mode == .queryComponent then ['+'.toUInt8]
    else if shouldEscape c mode then
      ['%'.toUInt8, upperhex (c.toNat / 16), upperhex (c.toNat % 16)]
    else [c]

/-- Whether `%XX` may stand for the byte `v` in a part of this mode.  A host writes only bytes
outside ASCII so, and the percent sign of a zone. -/
def mayDecode (v : ℕ) : Encoding → Bool
  | .host => v == 0x25 || 0x80 ≤ v
  | .zone => v == 0x25 || v == 0x20 || !shouldEscape (.ofNat v) .host
  | _ => true

def unescape (s : Bytes) (mode : Encoding) : Option Bytes :=
  match s with
  | [] => some []
  | c :: rest =>
    if c = '%'.toUInt8 then
      match rest with
      | a :: b :: rest =>
        match unhex a, unhex b with
        | some hi, some lo =>
          if mayDecode (hi * 16 + lo) mode then
            (unescape rest mode).map (.ofNat (hi * 16 + lo) :: ·)
          else none
        | _, _ => none
      | _ => none
    else if c = '+'.toUInt8 ∧ mode = .queryComponent then
      (unescape rest mode).map (' '.toUInt8 :: ·)
    else if (mode == .host || mode == .zone) && c < 0x80 && shouldEscape c mode then none
    else (unescape rest mode).map (c :: ·)

def validEncoded (s : Bytes) (mode : Encoding) : Bool :=
  s.all fun c => (utf8 "!$&'()*+,;=:@[]%").contains c || !shouldEscape c mode

/-! ## Hosts -/

/-- `validOptionalPort`: nothing, or a colon and digits. -/
def validOptionalPort : Bytes → Bool
  | [] => true
  | c :: port => c == ':'.toUInt8 && port.all isDigit

/-- One decimal field of an IPv4 address. -/
def isIPv4Field (s : Bytes) : Bool :=
  s.all isDigit && (s == ['0'.toUInt8] || (s != [] && s.head? != some '0'.toUInt8)) &&
    (s.length ≤ 3 && s.foldl (fun n c => n * 10 + (c.toNat - 48)) 0 ≤ 255)

/-- `parseIPv4Fields`, whether it succeeds. -/
def isIPv4 (s : Bytes) : Bool :=
  let fields := splitOn s '.'.toUInt8
  fields.length == 4 && fields.all isIPv4Field

/-- The loop of `parseIPv6`: `groups` fields have been read, and `ellipsis` says whether a double
colon has. -/
def isIPv6From : ℕ → ℕ → Bool → Bytes → Bool
  | 0, _, _, _ => false
  | fuel + 1, groups, ellipsis, s =>
    let digits := s.takeWhile fun c => (unhex c).isSome
    let rest := s.drop digits.length
    if digits = [] ∨ 4 < digits.length ∨ 8 ≤ groups then false
    else match rest with
      | [] => groups + 1 < 8 && ellipsis || groups + 1 == 8 && !ellipsis
      | c :: rest =>
        if c = '.'.toUInt8 then
          (ellipsis || groups == 6) && groups + 2 ≤ 8 && isIPv4 s &&
            (groups + 2 < 8 && ellipsis || groups + 2 == 8 && !ellipsis)
        else if c ≠ ':'.toUInt8 then false
        else match rest with
          | [] => false
          | d :: rest' =>
            if d ≠ ':'.toUInt8 then isIPv6From fuel (groups + 1) ellipsis rest
            else if ellipsis then false
            else if rest' = [] then groups + 1 < 8
            else isIPv6From fuel (groups + 1) true rest'

/-- `netip.ParseAddr`, whether it returns an IPv6 address. -/
def isIPv6 (s : Bytes) : Bool :=
  let first := s.find? fun c => c == '.'.toUInt8 || c == ':'.toUInt8 || c == '%'.toUInt8
  let addr := (cut s '%'.toUInt8).1
  let zoned := s.contains '%'.toUInt8
  first == some ':'.toUInt8 && (!zoned || (cut s '%'.toUInt8).2 != []) &&
    if (utf8 "::").isPrefixOf addr then
      addr.length == 2 || isIPv6From 9 0 true (addr.drop 2)
    else isIPv6From 9 0 false addr

/-- The host part of an IP literal, which may name a zone after `%25`. -/
def unescapeLiteral (hostname : Bytes) : Option Bytes :=
  match index hostname (utf8 "%25") with
  | some i => do
    let hostPart ← unescape (hostname.take i) .host
    let zonePart ← unescape (hostname.drop i) .zone
    return hostPart ++ zonePart
  | none => unescape hostname .host

def parseHost (scheme host : Bytes) : Option Bytes :=
  match cutLast host '['.toUInt8 with
  | some (_ :: _, _) => none
  | some ([], inner) =>
    match cutLast inner ']'.toUInt8 with
    | none => none
    | some (hostname, colonPort) => do
      guard (validOptionalPort colonPort)
      let port ← unescape colonPort .host
      let addr ← unescapeLiteral hostname
      guard (isIPv6 addr)
      return '['.toUInt8 :: addr ++ ']'.toUInt8 :: port
  | none =>
    let port :=
      if scheme = utf8 "postgresql" ∨ scheme = utf8 "postgres" then
        (cutLast host ':'.toUInt8).map (·.2)
      else if host.contains ':'.toUInt8 then some (cut host ':'.toUInt8).2
      else none
    if port.all (·.all isDigit) then unescape host .host else none

/-! ## URLs -/

structure Userinfo where
  username : Bytes
  password : Option Bytes
  deriving DecidableEq, Repr

/-- `url.URL`; `rootless` is the field `Opaque`. -/
structure URL where
  scheme : Bytes := []
  rootless : Bytes := []
  user : Option Userinfo := none
  host : Bytes := []
  path : Bytes := []
  rawPath : Bytes := []
  omitHost : Bool := false
  forceQuery : Bool := false
  rawQuery : Bytes := []
  fragment : Bytes := []
  rawFragment : Bytes := []
  deriving DecidableEq, Repr

/-- `getScheme`: the scheme and what follows its colon. -/
def getScheme (rawURL : Bytes) : Option (Bytes × Bytes) :=
  let scheme := rawURL.takeWhile fun c => isLetter c || isDigit c || (utf8 "+-.").contains c
  match rawURL.drop scheme.length with
  | c :: rest =>
    if c ≠ ':'.toUInt8 then some ([], rawURL)
    else match scheme with
      | [] => none
      | first :: _ => if isLetter first then some (scheme, rest) else some ([], rawURL)
  | [] => some ([], rawURL)

def validUserinfo (s : Bytes) : Bool :=
  s.all fun c => isLetter c || isDigit c || (utf8 "-._:~!$&'()*+,;=%@").contains c

def parseAuthority (scheme authority : Bytes) : Option (Option Userinfo × Bytes) :=
  match cutLast authority '@'.toUInt8 with
  | none => do
    let host ← parseHost scheme authority
    return (none, host)
  | some (userinfo, rest) => do
    let host ← parseHost scheme rest
    guard (validUserinfo userinfo)
    let username ← unescape (cut userinfo ':'.toUInt8).1 .userPassword
    if userinfo.contains ':'.toUInt8 then
      let password ← unescape (cut userinfo ':'.toUInt8).2 .userPassword
      return (some ⟨username, some password⟩, host)
    else return (some ⟨username, none⟩, host)

/-- `setPath`: the raw path is kept where the default encoding differs from it. -/
def URL.setPath (url : URL) (p : Bytes) : Option URL :=
  (unescape p .path).map fun path =>
    { url with path, rawPath := if escape path .path = p then [] else p }

def URL.setFragment (url : URL) (f : Bytes) : Option URL :=
  (unescape f .fragment).map fun fragment =>
    { url with fragment, rawFragment := if escape fragment .fragment = f then [] else f }

/-- The part of `parse` that follows the query. -/
def URL.parseRest (url : URL) (rest : Bytes) : Option URL :=
  if !(utf8 "/").isPrefixOf rest && url.scheme != [] then some { url with rootless := rest }
  else if !(utf8 "/").isPrefixOf rest && (cut rest '/'.toUInt8).1.contains ':'.toUInt8 then none
  else if (url.scheme != [] || !(utf8 "///").isPrefixOf rest) && (utf8 "//").isPrefixOf rest then
    let authority := (rest.drop 2).takeWhile (· != '/'.toUInt8)
    match parseAuthority url.scheme authority with
    | none => none
    | some (user, host) =>
      { url with user, host }.setPath ((rest.drop 2).drop authority.length)
  else { url with omitHost := url.scheme != [] && (utf8 "/").isPrefixOf rest }.setPath rest

/-- `parse`, for a string without a fragment. -/
def parseNoFragment (u : CaseTable) (rawURL : Bytes) : Option URL :=
  if rawURL.any fun c => c < 0x20 || c == 0x7F then none
  else if rawURL = utf8 "*" then some { path := utf8 "*" }
  else match getScheme rawURL with
    | none => none
    | some (scheme, rest) =>
      let url : URL := { scheme := toLowerBytes u scheme }
      if (utf8 "?").isSuffixOf rest && rest.count '?'.toUInt8 == 1 then
        { url with forceQuery := true }.parseRest rest.dropLast
      else
        { url with rawQuery := (cut rest '?'.toUInt8).2 }.parseRest (cut rest '?'.toUInt8).1

def parse (u : CaseTable) (rawURL : Bytes) : Option URL := do
  let url ← parseNoFragment u (cut rawURL '#'.toUInt8).1
  if (cut rawURL '#'.toUInt8).2 = [] then return url
  else url.setFragment (cut rawURL '#'.toUInt8).2

/-- `Userinfo.String`. -/
def Userinfo.toBytes (ui : Userinfo) : Bytes :=
  escape ui.username .userPassword ++
    match ui.password with
    | some password => ':'.toUInt8 :: escape password .userPassword
    | none => []

def URL.escapedPath (url : URL) : Bytes :=
  if url.rawPath != [] && validEncoded url.rawPath .path &&
      unescape url.rawPath .path == some url.path then url.rawPath
  else if url.path = utf8 "*" then utf8 "*"
  else escape url.path .path

def URL.escapedFragment (url : URL) : Bytes :=
  if url.rawFragment != [] && validEncoded url.rawFragment .fragment &&
      unescape url.rawFragment .fragment == some url.fragment then url.rawFragment
  else escape url.fragment .fragment

/-- The authority with its slashes, as `URL.String` writes it. -/
def URL.authority (url : URL) : Bytes :=
  if url.scheme == [] && url.host == [] && url.user == none then []
  else if url.omitHost && url.host == [] && url.user == none then []
  else
    (if url.host != [] || url.path != [] || url.user != none then utf8 "//" else []) ++
    (match url.user with
     | some ui => ui.toBytes ++ utf8 "@"
     | none => []) ++ escape url.host .host

/-- What `URL.String` writes before the query. -/
def URL.body (url : URL) : Bytes :=
  let scheme := if url.scheme = [] then [] else url.scheme ++ utf8 ":"
  if url.rootless ≠ [] then scheme ++ url.rootless
  else
    let start := scheme ++ url.authority
    let path := url.escapedPath
    let slash := if path != [] && path.head? != some '/'.toUInt8 && url.host != [] then utf8 "/"
      else []
    let dot := if start ++ slash = [] ∧ (cut path '/'.toUInt8).1.contains ':'.toUInt8
      then utf8 "./" else []
    start ++ slash ++ dot ++ path

/-- `URL.String`. -/
def URL.toBytes (url : URL) : Bytes :=
  url.body ++
    (if url.forceQuery || url.rawQuery != [] then '?'.toUInt8 :: url.rawQuery else []) ++
    (if url.fragment != [] then '#'.toUInt8 :: url.escapedFragment else [])

def URL.hostname (url : URL) : Bytes :=
  let host := match cutLast url.host ':'.toUInt8 with
    | some (host, port) => if port.all isDigit then host else url.host
    | none => url.host
  if (utf8 "[").isPrefixOf host && (utf8 "]").isSuffixOf host then (host.drop 1).dropLast
  else host

/-! ## Queries -/

/-- `url.Values`, in the order the parameters were read. -/
abbrev Values := List (Bytes × Bytes)

/-- The number of parameters a query may have. -/
def maxParams : ℕ := 10000

/-- One parameter; what has a semicolon or cannot be decoded is left out. -/
def parseParam (param : Bytes) : Option (Bytes × Bytes) :=
  if param = [] ∨ ';'.toUInt8 ∈ param then none
  else do
    let key ← unescape (cut param '='.toUInt8).1 .queryComponent
    let value ← unescape (cut param '='.toUInt8).2 .queryComponent
    return (key, value)

/-- `URL.Query`, which ignores errors. -/
def parseQuery (query : Bytes) : Values :=
  if maxParams < query.count '&'.toUInt8 + 1 then []
  else (splitOn query '&'.toUInt8).filterMap parseParam

end AnimeFeedFlux.NetUrl
