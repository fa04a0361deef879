import Mathlib.Algebra.Group.Nat.Defs
import Mathlib.Data.Int.Order.Basic
import Mathlib.Data.List.Basic

/-!
# The guard of the source fetcher

`internal/sources/guard.go` and `fetchOnce` of `fetch.go`: the checks of a URL, of a redirect and
of a dialled address, and the loop of `http.Client` that calls them.  What the fetch meets on the
network is given to it, exchange by exchange: the addresses the resolver answers for a host that
is not an address itself, and what the server reached replies.  Which addresses accept a
connection is given apart from that.

`DialContext` sees the host and not the address.  For an address the two are the same; a name it
passes on to `net.Dialer`, which resolves it and connects to whatever the answer is.
-/

namespace AnimeFeedFlux.Sources

open List

/-! ## Addresses -/

/-- `net.IP` in its 16-byte form; an IPv4 address is the IPv6 address it is mapped to. -/
abbrev IP := BitVec 128

namespace IP

/-- `ip[i]`. -/
def byte (ip : IP) (i : ℕ) : BitVec 8 := ip.extractLsb' (8 * (15 - i)) 8

/-- `net.IPv4`. -/
def v4 (a b c d : BitVec 8) : IP := (0xffff#96 ++ a ++ b ++ c ++ d : BitVec _)

/-- `ip.To4() != nil`; the bytes of `To4()` are the last four. -/
def isV4 (ip : IP) : Bool := ip.extractLsb' 32 96 == 0xffff#96

def isUnspecified (ip : IP) : Bool := ip == v4 0 0 0 0 || ip == 0

def isLoopback (ip : IP) : Bool := if ip.isV4 then ip.byte 12 == 127 else ip == 1

def isPrivate (ip : IP) : Bool :=
  if ip.isV4 then
    ip.byte 12 == 10 || (ip.byte 12 == 172 && ip.byte 13 &&& 0xf0 == 16) ||
      (ip.byte 12 == 192 && ip.byte 13 == 168)
  else ip.byte 0 &&& 0xfe == 0xfc

def isMulticast (ip : IP) : Bool :=
  if ip.isV4 then ip.byte 12 &&& 0xf0 == 0xe0 else ip.byte 0 == 0xff

def isInterfaceLocalMulticast (ip : IP) : Bool := ip.byte 0 == 0xff && ip.byte 1 &&& 0x0f == 0x01

def isLinkLocalMulticast (ip : IP) : Bool :=
  if ip.isV4 then ip.byte 12 == 224 && ip.byte 13 == 0 && ip.byte 14 == 0
  else ip.byte 0 == 0xff && ip.byte 1 &&& 0x0f == 0x02

def isLinkLocalUnicast (ip : IP) : Bool :=
  if ip.isV4 then ip.byte 12 == 169 && ip.byte 13 == 254
  else ip.byte 0 == 0xfe && ip.byte 1 &&& 0xc0 == 0x80

theorem byte_zero_of_isV4 {ip : IP} (h : ip.isV4) : ip.byte 0 = 0 := by
  have hhigh : ip.byte 0 = (ip.extractLsb' 32 96).extractLsb' 88 8 := by
    ext i hi
    have hlt : 88 + i < 96 := by omega
    have hsum : 32 + (88 + i) = 120 + i := by omega
    simp [byte, hlt, hsum]
  rw [hhigh, beq_iff_eq.1 h]
  rfl

end IP

/-- The addresses a fetch is to keep away from: loopback, link-local, private, unspecified and
multicast ones. -/
def Forbidden (ip : IP) : Prop :=
  ip.isLoopback = true ∨ ip.isLinkLocalUnicast = true ∨ ip.isLinkLocalMulticast = true ∨
    ip.isPrivate = true ∨ ip.isUnspecified = true ∨ ip.isMulticast = true
deriving Decidable

/-! ## The checks -/

/-- `checkIP`: why an address is refused. -/
def checkIP (ip : IP) : Option String :=
  if ip.isLoopback then some "loopback"
  else if ip.isLinkLocalUnicast || ip.isLinkLocalMulticast then
    some "link-local (cloud metadata lives here)"
  else if ip.isPrivate then some "private"
  else if ip.isUnspecified then some "unspecified"
  else if ip.isMulticast then some "multicast"
  else if ip.isInterfaceLocalMulticast then some "interface-local multicast"
  else none

variable {ip : IP}

theorem isMulticast_of_isInterfaceLocalMulticast (h : ip.isInterfaceLocalMulticast) :
    ip.isMulticast := by
  obtain ⟨hfirst, -⟩ := Bool.and_eq_true_iff.1 h
  have hv4 : ¬ip.isV4 = true := by
    intro hv4
    rw [IP.byte_zero_of_isV4 hv4] at hfirst
    cases hfirst
  unfold IP.isMulticast
  rw [if_neg hv4, hfirst]

/-- **`checkIP` refuses exactly the forbidden addresses.** -/
theorem checkIP_eq_none_iff : checkIP ip = none ↔ ¬Forbidden ip := by
  have hlast : ip.isMulticast = false → ip.isInterfaceLocalMulticast = false := by
    intro hm
    by_contra hi
    rw [isMulticast_of_isInterfaceLocalMulticast (by simpa using hi)] at hm
    cases hm
  unfold checkIP Forbidden
  split_ifs with h₁ h₂ h₃ h₄ h₅ h₆
  · simp [h₁]
  · rcases Bool.or_eq_true_iff.1 h₂ with h | h <;> simp [h]
  · simp [h₃]
  · simp [h₄]
  · simp [h₅]
  · exact absurd (hlast (by simpa using h₅)) (by simpa using h₆)
  · simpa [h₁, h₃, h₄, h₅] using h₂

/-- What `net.ParseIP` makes of a host: an address, or a name. -/
inductive Host
  | literal (ip : IP)
  | name (text : String)
  deriving DecidableEq

/-- `url.URL`, as far as the checks read it. -/
structure URL where
  scheme : String
  host : Host
  deriving DecidableEq

/-- `ErrBlockedTarget`, with what its texts are made of. -/
inductive BlockedTarget
  | scheme (scheme : String)
  | noHost
  | address (ip : IP) (why : String)
  deriving DecidableEq

def checkTarget (u : URL) : Option BlockedTarget :=
  if u.scheme ≠ "http" ∧ u.scheme ≠ "https" then some (.scheme u.scheme)
  else
    match u.host with
    | .name "" => some .noHost
    | .name _ => none
    | .literal ip => (checkIP ip).map (.address ip)

/-- How a fetch fails. -/
inductive FetchError
  | parsing
  | blocked (why : BlockedTarget)
  | stoppedAfterRedirects
  /-- No connection, or none that lasts. -/
  | transport
  | timeout
  | readingBody
  | bodyTooLarge
  deriving DecidableEq

def maxRedirects : ℕ := 10

/-- `CheckRedirect` of `GuardedClient`. -/
def checkRedirect (req : URL) (via : List URL) : Option FetchError :=
  if maxRedirects ≤ via.length then some .stoppedAfterRedirects
  else (checkTarget req).map .blocked

/-- `DialContext` of `GuardedClient`: the address it connects to.  `net.Dialer` takes the first
address of the answer that accepts. -/
def dialContext (accepts : IP → Bool) (answers : List IP) : Host → Except FetchError IP
  | .literal ip =>
    match checkIP ip with
    | some why => .error (.blocked (.address ip why))
    | none => if accepts ip then .ok ip else .error .transport
  | .name _ =>
    match answers.find? accepts with
    | some ip => .ok ip
    | none => .error .transport

/-! ## A fetch -/

/-- `http.Response`, as far as it is read; the body is `none` if reading it fails. -/
structure Response where
  statusCode : ℕ
  etag : String := ""
  lastModified : String := ""
  body : Option (List UInt8)
  deriving DecidableEq

/-- What a server replies to a request. -/
inductive Reply
  | response (r : Response)
  | redirect (location : URL)
  | broken
  deriving DecidableEq

/-- What the network has for one request: the answer of the resolver, if a name is looked up,
and the reply. -/
structure Exchange where
  answers : List IP := []
  reply : Reply
  deriving DecidableEq

/-- What a fetch came to, and the addresses it has opened a connection to. -/
structure Fetched (α : Type) where
  opened : List IP := []
  result : Except FetchError α

/-- `http.Client.Do` from the request for `url` on, after those of `via`.  The client's timeout
ends it when the network has no more exchanges. -/
def follow (accepts : ℕ → IP → Bool) : List URL → URL → List Exchange → Fetched Response
  | _, _, [] => { result := .error .timeout }
  | via, url, x :: xs =>
    match dialContext (accepts via.length) x.answers url.host with
    | .error e => { result := .error e }
    | .ok ip =>
      match x.reply with
      | .response r => { opened := [ip], result := .ok r }
      | .broken => { opened := [ip], result := .error .transport }
      | .redirect next =>
        match checkRedirect next (via ++ [url]) with
        | some e => { opened := [ip], result := .error e }
        | none =>
          let rest := follow accepts (via ++ [url]) next xs
          { rest with opened := ip :: rest.opened }

/-- `Result`. -/
structure FetchResult where
  body : List UInt8 := []
  etag : String
  lastModified : String
  statusCode : ℕ
  notModified : Bool := false
  deriving DecidableEq

def maxParseBytes : ℕ := 10 * 2 ^ 20

/-- The end of `fetchOnce`: the body, read up to one byte past the cap. -/
def readResult (maxBytes : ℤ) (r : Response) : Except FetchError FetchResult :=
  if r.statusCode = 304 then
    .ok { etag := r.etag, lastModified := r.lastModified, statusCode := r.statusCode,
          notModified := true }
  else
    match r.body with
    | none => .error .readingBody
    | some body =>
      let cap := if maxBytes ≤ 0 then maxParseBytes else maxBytes.toNat
      if cap < (body.take (cap + 1)).length then .error .bodyTooLarge
      else .ok { body := body.take (cap + 1), etag := r.etag, lastModified := r.lastModified,
                 statusCode := r.statusCode }

/-- `fetchOnce` through a `GuardedClient`; the target is what `url.Parse` makes of it. -/
def fetchOnce (accepts : ℕ → IP → Bool) (network : List Exchange) (maxBytes : ℤ)
    (target : Option URL) : Fetched FetchResult :=
  match target with
  | none => { result := .error .parsing }
  | some url =>
    match checkTarget url with
    | some why => { result := .error (.blocked why) }
    | none =>
      let done := follow accepts [] url network
      { opened := done.opened, result := done.result.bind (readResult maxBytes) }

/-! ## What keeps a fetch from the forbidden addresses -/

/-- Whether the resolver's answer for a host is free of addresses `checkIP` refuses; an address
is not looked up. -/
def publicAnswers (answers : List IP) : Host → Bool
  | .literal _ => true
  | .name _ => answers.all fun ip => (checkIP ip).isNone

/-- Whether there is an address to connect to. -/
def connectable (answers : List IP) : Host → Bool
  | .literal _ => true
  | .name _ => !answers.isEmpty

/-- The condition: of all names the redirects lead to, none is answered with an address `checkIP`
refuses. -/
def resolvesPublic : List URL → URL → List Exchange → Bool
  | _, _, [] => true
  | via, url, x :: xs =>
    publicAnswers x.answers url.host &&
      match x.reply with
      | .redirect next =>
        if connectable x.answers url.host && (checkRedirect next (via ++ [url])).isNone then
          resolvesPublic (via ++ [url]) next xs
        else true
      | _ => true

variable {url : URL}

theorem checkIP_of_checkTarget (h : checkTarget url = none) (hhost : url.host = .literal ip) :
    checkIP ip = none := by
  unfold checkTarget at h
  split at h
  · cases h
  · simpa [hhost] using h

variable {via : List URL}

theorem checkTarget_of_checkRedirect (h : checkRedirect url via = none) :
    checkTarget url = none := by
  unfold checkRedirect at h
  split at h
  · cases h
  · simpa using h

variable {answers : List IP} {xs : List Exchange}

/-- What `DialContext` connects to for a checked URL: the address itself, or one of the answer. -/
theorem dialContext_eq_ok {accepts : IP → Bool} (hurl : checkTarget url = none)
    (h : dialContext accepts answers url.host = .ok ip)
    (hpublic : publicAnswers answers url.host) :
    checkIP ip = none ∧ connectable answers url.host := by
  cases hhost : url.host with
  | literal ip' =>
    have hip' := checkIP_of_checkTarget hurl hhost
    rw [hhost] at h
    simp only [dialContext, hip'] at h
    split at h
    · cases h
      exact ⟨hip', rfl⟩
    · cases h
  | name text =>
    rw [hhost] at h hpublic
    simp only [dialContext] at h
    split at h
    · rename_i ip' hfind
      cases h
      have hmem := mem_of_find?_eq_some hfind
      refine ⟨by simpa using all_eq_true.1 hpublic ip hmem, ?_⟩
      simpa [connectable] using ne_nil_of_mem hmem
    · cases h

variable {accepts : ℕ → IP → Bool}

theorem follow_public (hurl : checkTarget url = none) (hpublic : resolvesPublic via url xs) :
    ∀ ip ∈ (follow accepts via url xs).opened, checkIP ip = none := by
  induction xs generalizing via url with
  | nil => exact fun ip hip => by cases hip
  | cons x xs ih =>
    obtain ⟨hanswers, hrest⟩ := Bool.and_eq_true_iff.1 hpublic
    unfold follow
    split
    · exact fun ip hip => by cases hip
    rename_i ip hdial
    obtain ⟨hip, hconnectable⟩ := dialContext_eq_ok hurl hdial hanswers
    split
    · simpa using hip
    · simpa using hip
    · rename_i next hreply
      split
      · simpa using hip
      rename_i hredirect
      rw [hreply] at hrest
      simp only [hconnectable, hredirect, Option.isNone_none, Bool.and_self, if_true] at hrest
      intro ip' hip'
      rcases mem_cons.1 hip' with rfl | hip'
      · exact hip
      · exact ih (checkTarget_of_checkRedirect hredirect) hrest ip' hip'

theorem follow_congr {accepts' : ℕ → IP → Bool} (h : ∀ n, via.length ≤ n → accepts n = accepts' n) :
    follow accepts via url xs = follow accepts' via url xs := by
  induction xs generalizing via url with
  | nil => rfl
  | cons x xs ih =>
    have hrest : ∀ next, follow accepts (via ++ [url]) next xs =
        follow accepts' (via ++ [url]) next xs := fun next =>
      ih fun n hn => h n (by rw [length_append] at hn; omega)
    unfold follow
    rw [h _ (Nat.le_refl _)]
    simp [hrest]

theorem mem_opened_of_dial {x : Exchange}
    (h : dialContext (accepts via.length) x.answers url.host = .ok ip) :
    ip ∈ (follow accepts via url (x :: xs)).opened := by
  unfold follow
  rw [h]
  dsimp only
  split
  · simp
  · simp
  · split <;> simp

theorem dialContext_of_connectable (hurl : checkTarget url = none)
    (h : connectable answers url.host) :
    ∃ ip, dialContext (fun _ => true) answers url.host = .ok ip := by
  cases hhost : url.host with
  | literal ip => exact ⟨ip, by simp [dialContext, checkIP_of_checkTarget hurl hhost]⟩
  | name text =>
    rw [hhost] at h
    cases answers with
    | nil => cases h
    | cons ip ips => exact ⟨ip, rfl⟩

/-- If a name is answered with an address `checkIP` refuses, that address may be the one that
accepts. -/
theorem exists_opened (hurl : checkTarget url = none)
    (hpublic : resolvesPublic via url xs = false) :
    ∃ accepts, ∃ ip ∈ (follow accepts via url xs).opened, checkIP ip ≠ none := by
  induction xs generalizing via url with
  | nil => cases hpublic
  | cons x xs ih =>
    by_cases hanswers : publicAnswers x.answers url.host = true
    · -- The first answer is in order, so it is a later one that is not.
      unfold resolvesPublic at hpublic
      rw [hanswers, Bool.true_and] at hpublic
      split at hpublic
      · rename_i next hreply
        split at hpublic
        · rename_i hgoes
          obtain ⟨hconnectable, hredirect⟩ := Bool.and_eq_true_iff.1 hgoes
          rw [Option.isNone_iff_eq_none] at hredirect
          obtain ⟨accepts, ip, hip, hrefused⟩ :=
            ih (checkTarget_of_checkRedirect hredirect) hpublic
          obtain ⟨first, hfirst⟩ := dialContext_of_connectable hurl hconnectable
          -- Up to here everything accepts, and from here on what the tail needs.
          refine ⟨fun n => if n ≤ via.length then fun _ => true else accepts n, ip, ?_, hrefused⟩
          unfold follow
          rw [if_pos (Nat.le_refl _), hfirst]
          simp only [hreply, hredirect]
          refine mem_cons_of_mem _ ?_
          rwa [follow_congr fun n hn => ?_]
          rw [length_append, length_singleton] at hn
          rw [if_neg (by omega)]
        · cases hpublic
      · cases hpublic
    · -- The refused address is the only one that accepts.
      cases hhost : url.host with
      | literal ip => simp [hhost, publicAnswers] at hanswers
      | name text =>
        obtain ⟨ip, hip, hrefused⟩ : ∃ ip ∈ x.answers, checkIP ip ≠ none := by
          simpa [hhost, publicAnswers] using hanswers
        refine ⟨fun _ ip' => ip' == ip, ip, mem_opened_of_dial ?_, hrefused⟩
        have hfind : x.answers.find? (· == ip) = some ip := by
          cases hfound : x.answers.find? (· == ip) with
          | none => simpa using find?_eq_none.1 hfound ip hip
          | some ip' =>
            have heq := find?_some hfound
            rw [beq_iff_eq.1 heq]
        simp [hhost, dialContext, hfind]

/-- **What keeps a fetch from the forbidden addresses.**  Whatever accepts its connections, a
fetch opens none to a forbidden address, exactly if of all names that the configured URL and the
redirects from it lead to, none is answered with such an address at the lookup it is dialled
by. -/
theorem fetchOnce_guarded_iff (network : List Exchange) (maxBytes : ℤ) (target : Option URL) :
    (∀ accepts, ∀ ip ∈ (fetchOnce accepts network maxBytes target).opened, ¬Forbidden ip) ↔
      ∀ url ∈ target, checkTarget url = none → resolvesPublic [] url network = true := by
  cases target with
  | none => simp [fetchOnce]
  | some url =>
    cases hurl : checkTarget url with
    | some why => simp [fetchOnce, hurl]
    | none =>
      simp only [fetchOnce, hurl, ← checkIP_eq_none_iff]
      constructor
      · rintro hsafe url' ⟨⟩ -
        by_contra hpublic
        obtain ⟨accepts, ip, hip, hrefused⟩ := exists_opened hurl (by simpa using hpublic)
        exact hrefused (hsafe accepts ip hip)
      · intro hpublic accepts ip hip
        exact follow_public hurl (hpublic url rfl hurl) ip hip

/-- A source that is served from a name, and moves under the same name. -/
def movingSource : URL := { scheme := "https", host := .name "feeds.example" }

/-- The name is answered with a public address both times. -/
theorem fetchOnce_guarded_iff_public : (∀ accepts, ∀ ip ∈ (fetchOnce accepts
        [{ answers := [.v4 93 184 216 34], reply := .redirect movingSource },
         { answers := [.v4 93 184 216 35],
           reply := .response { statusCode := 200, body := some [60] } }] 0
        (some movingSource)).opened, ¬Forbidden ip) ∧
      (fetchOnce (fun _ _ => true)
        [{ answers := [.v4 93 184 216 34], reply := .redirect movingSource },
         { answers := [.v4 93 184 216 35],
           reply := .response { statusCode := 200, body := some [60] } }] 0
        (some movingSource)).opened = [.v4 93 184 216 34, .v4 93 184 216 35] :=
  ⟨(fetchOnce_guarded_iff _ 0 (some movingSource)).2 (by decide +kernel), by decide +kernel⟩

/-- **A name that is answered with another address the second time**: the redirect leads to the
URL that was just fetched, and the connection goes to the loopback. -/
theorem fetchOnce_opens_loopback : ∃ ip ∈ (fetchOnce (fun _ _ => true)
        [{ answers := [.v4 93 184 216 34], reply := .redirect movingSource },
         { answers := [.v4 127 0 0 1],
           reply := .response { statusCode := 200, body := some [60] } }] 0
        (some movingSource)).opened, Forbidden ip :=
  ⟨.v4 127 0 0 1, by decide +kernel, by decide +kernel⟩

end AnimeFeedFlux.Sources
