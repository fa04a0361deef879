import AnimeFeedFlux.Lib.Aead
import Mathlib.Algebra.Order.BigOperators.Group.List
import Mathlib.Algebra.Order.Group.Nat

/-!
# Encrypted backups

`internal/ops/offsite.go`: a backup is sealed chunk by chunk, each chunk with a nonce of its own,
framed by the nonce and the length of the ciphertext.  Nothing in a chunk tells which stream it
belongs to, where in the stream it stands, or whether it is the last.  So `Decrypt` gives back
every backup, and accepts exactly the concatenations of chunks sealed under the key, in any order
and number.
-/

namespace AnimeFeedFlux.Ops

open List

def chunkSize : ℕ := 2 ^ 20

def keySize : ℕ := 32

def nonceSize : ℕ := 12

def chunkHeaderSize : ℕ := nonceSize + 4

/-- The bytes an `io.Reader` delivers, and whether an error follows them in place of the end. -/
structure Reader where
  bytes : Bytes
  failed : Bool := false
  deriving DecidableEq

inductive ReadError
  | eof
  | unexpectedEOF
  | other
  deriving DecidableEq

/-- `io.ReadFull` into a buffer of `n` bytes: what it has read, its error, and what is left. -/
def readFull (n : ℕ) (r : Reader) : Bytes × Option ReadError × Reader :=
  if n ≤ r.bytes.length then (r.bytes.take n, none, { r with bytes := r.bytes.drop n })
  else
    (r.bytes, some (if r.failed then .other else if r.bytes = [] then .eof else .unexpectedEOF),
      { r with bytes := [] })

inductive OffsiteError
  | keySize (got : ℕ)
  | readingPlaintext
  | generatingNonce
  | readingChunkHeader
  | readingChunkBody
  | decryptingChunk
  deriving DecidableEq

/-- What a function has written, and its error. -/
structure Written where
  out : Bytes := []
  err : Option OffsiteError := none
  deriving DecidableEq

/-- A nonce drawn from `rand.Reader`. -/
abbrev Nonce := { b : Bytes // b.length = nonceSize }

def putUint32 (n : ℕ) : Bytes :=
  [.ofNat (n / 2 ^ 24), .ofNat (n / 2 ^ 16), .ofNat (n / 2 ^ 8), .ofNat n]

def uint32 (b : Bytes) : ℕ := b.foldl (fun n x => n * 2 ^ 8 + x.toNat) 0

/-- AES-GCM: its tags have 16 bytes. -/
structure GCM extends Aead Bytes where
  tagSize_eq : tagSize = 16

/-- What `encryptChunk` writes. -/
def encryptChunk (gcm : GCM) (key : Bytes) (nonce plaintext : Bytes) : Bytes :=
  nonce ++ putUint32 (gcm.sealWith key nonce plaintext).length ++ gcm.sealWith key nonce plaintext

/-- The loop of `Encrypt`, with the nonces it draws; a list that is used up is a `rand.Reader`
that fails. -/
def encryptLoop (gcm : GCM) (key : Bytes) : List Nonce → Reader → Written
  | [], r =>
    match readFull chunkSize r with
    | ([], some .other, _) => { err := some .readingPlaintext }
    | ([], _, _) => {}
    | (_ :: _, _, _) => { err := some .generatingNonce }
  | nonce :: nonces, r =>
    match readFull chunkSize r with
    | ([], some .other, _) => { err := some .readingPlaintext }
    | ([], _, _) => {}
    | (buf, some .other, _) =>
      { out := encryptChunk gcm key nonce buf, err := some .readingPlaintext }
    | (buf, some _, _) => { out := encryptChunk gcm key nonce buf }
    | (buf, none, r') =>
      let rest := encryptLoop gcm key nonces r'
      { rest with out := encryptChunk gcm key nonce buf ++ rest.out }

def encrypt (gcm : GCM) (key : Bytes) (nonces : List Nonce) (r : Reader) : Written :=
  if key.length ≠ keySize then { err := some (.keySize key.length) }
  else encryptLoop gcm key nonces r

variable {n : ℕ} {r : Reader} {buf : Bytes} {openChunk : Bytes → Bytes → Option Bytes}

theorem readFull_of_le (h : n ≤ r.bytes.length) :
    readFull n r = (r.bytes.take n, none, { r with bytes := r.bytes.drop n }) := if_pos h

theorem readFull_of_lt (h : r.bytes.length < n) :
    readFull n r = (r.bytes, some (if r.failed then .other else if r.bytes = [] then .eof
      else .unexpectedEOF), { r with bytes := [] }) := if_neg (Nat.not_le.2 h)

theorem readFull_eq_full {r' : Reader} (h : readFull n r = (buf, none, r')) :
    n ≤ r.bytes.length ∧ buf = r.bytes.take n ∧ r' = { r with bytes := r.bytes.drop n } := by
  unfold readFull at h
  split at h
  · rename_i hle
    cases h
    exact ⟨hle, rfl, rfl⟩
  · cases h

theorem readFull_append (h : buf.length = n) (rest : Bytes) :
    readFull n { bytes := buf ++ rest } = (buf, none, { bytes := rest }) := by
  subst h
  rw [readFull_of_le (by simp)]
  simp only [take_left, drop_left]

/-- The loop of `Decrypt`, given how `gcm.Open` opens. -/
def decryptLoop (openChunk : Bytes → Bytes → Option Bytes) (r : Reader) : Written :=
  match _hheader : readFull chunkHeaderSize r with
  | (_, some .eof, _) => {}
  | (_, some _, _) => { err := some .readingChunkHeader }
  | (header, none, r') =>
    match _hbody : readFull (uint32 (header.drop nonceSize)) r' with
    | (_, some _, _) => { err := some .readingChunkBody }
    | (ciphertext, none, r'') =>
      match openChunk (header.take nonceSize) ciphertext with
      | none => { err := some .decryptingChunk }
      | some plaintext =>
        let rest := decryptLoop openChunk r''
        { rest with out := plaintext ++ rest.out }
termination_by r.bytes.length
decreasing_by
  obtain ⟨hle, -, rfl⟩ := readFull_eq_full _hheader
  obtain ⟨-, -, rfl⟩ := readFull_eq_full _hbody
  have : 0 < chunkHeaderSize := by decide
  simp only [List.length_drop]
  omega

/-- `Decrypt`, given everything that was sealed. -/
def decrypt (gcm : GCM) (log : List (Sealed Bytes)) (key : Bytes) (r : Reader) : Written :=
  if key.length ≠ keySize then { err := some (.keySize key.length) }
  else decryptLoop (gcm.openWith log key) r

/-! ## Frames -/

theorem uint32_putUint32 (h : n < 2 ^ 32) : uint32 (putUint32 n) = n := by
  simp only [uint32, putUint32, foldl_cons, foldl_nil, UInt8.toNat_ofNat']
  omega

theorem putUint32_uint32 {b : Bytes} (h : b.length = 4) : putUint32 (uint32 b) = b := by
  match b, h with
  | [w, x, y, z], _ =>
    have hw := w.toNat_lt
    have hx := x.toNat_lt
    have hy := y.toNat_lt
    have hz := z.toNat_lt
    have hbyte : ∀ {n : ℕ} {u : UInt8}, n % 256 = u.toNat → UInt8.ofNat n = u := fun hn =>
      UInt8.toNat_inj.1 (by rw [UInt8.toNat_ofNat', hn])
    simp only [uint32, putUint32, foldl_cons, foldl_nil]
    rw [hbyte (u := w) (by omega), hbyte (u := x) (by omega), hbyte (u := y) (by omega),
      hbyte (u := z) (by omega)]

/-- The chunk of a sealed plaintext. -/
def chunk (gcm : GCM) (e : Sealed Bytes) : Bytes := encryptChunk gcm e.key e.nonce e.plaintext

/-- What `Encrypt` seals: a plaintext of a chunk's size at most, under a nonce. -/
def Sized (e : Sealed Bytes) : Prop :=
  e.nonce.length = nonceSize ∧ e.plaintext.length ≤ chunkSize

theorem length_sealWith_lt {gcm : GCM} {e : Sealed Bytes} (h : Sized e) :
    (gcm.sealWith e.key e.nonce e.plaintext).length < 2 ^ 32 := by
  have := h.2
  rw [gcm.length_sealWith, gcm.tagSize_eq]
  unfold chunkSize at this
  omega

theorem length_putUint32 (n : ℕ) : (putUint32 n).length = 4 := rfl

theorem decryptLoop_nil (openChunk : Bytes → Bytes → Option Bytes) :
    decryptLoop openChunk { bytes := [] } = {} := by
  unfold decryptLoop
  rfl

theorem decryptLoop_cons {nonce ciphertext : Bytes} (hnonce : nonce.length = nonceSize)
    (hlen : ciphertext.length < 2 ^ 32) {p : Bytes} (hopen : openChunk nonce ciphertext = some p)
    (rest : Bytes) :
    decryptLoop openChunk { bytes := nonce ++ putUint32 ciphertext.length ++ ciphertext ++ rest } =
      { out := p ++ (decryptLoop openChunk { bytes := rest }).out,
        err := (decryptLoop openChunk { bytes := rest }).err } := by
  have hheader : readFull chunkHeaderSize
      { bytes := nonce ++ putUint32 ciphertext.length ++ ciphertext ++ rest } =
      (nonce ++ putUint32 ciphertext.length, none, { bytes := ciphertext ++ rest }) := by
    rw [append_assoc (nonce ++ _)]
    refine readFull_append ?_ _
    rw [length_append, hnonce, length_putUint32, chunkHeaderSize]
  have hbody : readFull (uint32 ((nonce ++ putUint32 ciphertext.length).drop nonceSize))
      { bytes := ciphertext ++ rest } = (ciphertext, none, { bytes := rest }) := by
    rw [← hnonce, drop_left, uint32_putUint32 hlen]
    exact readFull_append rfl rest
  have htake : (nonce ++ putUint32 ciphertext.length).take nonceSize = nonce := by
    rw [← hnonce, take_left]
  rw [decryptLoop]
  split
  · rename_i heq
    rw [hheader] at heq
    cases heq
  · rename_i heq
    rw [hheader] at heq
    cases heq
  · rename_i header r' heq
    rw [hheader] at heq
    cases heq
    split
    · rename_i heq
      rw [hbody] at heq
      cases heq
    rename_i heq
    rw [hbody] at heq
    cases heq
    rw [htake, hopen]

/-- What a loop that ends well has found at the front: nothing, or a chunk that opens. -/
theorem decryptLoop_eq_ok {bytes : Bytes}
    (h : (decryptLoop openChunk { bytes := bytes }).err = none) :
    bytes = [] ∨ ∃ nonce ciphertext p rest, nonce.length = nonceSize ∧
      bytes = nonce ++ putUint32 ciphertext.length ++ ciphertext ++ rest ∧
      openChunk nonce ciphertext = some p ∧
      (decryptLoop openChunk { bytes := rest }).err = none := by
  rw [decryptLoop] at h
  split at h
  · rename_i heq
    left
    unfold readFull at heq
    split at heq
    · cases heq
    by_contra hne
    simp [hne] at heq
  · cases h
  · rename_i header r' hheader
    split at h
    · cases h
    rename_i ciphertext r'' hbody
    split at h
    · cases h
    rename_i p hopen
    obtain ⟨hle, rfl, rfl⟩ := readFull_eq_full hheader
    obtain ⟨hle', rfl, rfl⟩ := readFull_eq_full hbody
    have hsize : (bytes.take chunkHeaderSize).length = chunkHeaderSize := by
      rw [length_take]
      exact Nat.min_eq_left hle
    refine .inr ⟨_, _, p, _, ?_, ?_, hopen, h⟩
    · rw [length_take, hsize]
      rfl
    -- The length field is that of the ciphertext, so it is the one written for it.
    rw [length_take, Nat.min_eq_left hle', putUint32_uint32, take_append_drop,
      append_assoc, take_append_drop, take_append_drop]
    rw [length_drop, hsize]
    rfl

section Log

variable {gcm : GCM} {log : List (Sealed Bytes)} {key : Bytes}

/-- **What `decrypt` accepts**: the concatenations of chunks sealed under the key. -/
theorem decrypt_eq_ok_iff (hkey : key.length = keySize) (hlog : Distinct log)
    (hsized : ∀ e ∈ log, Sized e) {bytes p : Bytes} :
    decrypt gcm log key { bytes := bytes } = { out := p } ↔
      ∃ es : List (Sealed Bytes), (∀ e ∈ es, e ∈ log ∧ e.key = key) ∧
        bytes = es.flatMap (chunk gcm) ∧ p = es.flatMap (·.plaintext) := by
  unfold decrypt
  rw [if_neg (not_not.2 hkey)]
  constructor
  · intro h
    induction hn : bytes.length using Nat.strong_induction_on generalizing bytes p with
    | h n ih =>
      obtain rfl | ⟨nonce, ciphertext, q, rest, hnonce, rfl, hopen, hrest⟩ :=
        decryptLoop_eq_ok (congrArg Written.err h)
      · rw [decryptLoop_nil] at h
        cases h
        exact ⟨[], by simp, rfl, rfl⟩
      obtain ⟨hmem, rfl⟩ := openWith_eq_some hopen
      rw [decryptLoop_cons hnonce (length_sealWith_lt (hsized _ hmem)) hopen] at h
      obtain ⟨es, hes, rfl, hout⟩ := ih rest.length (by
        subst hn
        simp only [length_append, length_putUint32]
        omega) (p := (decryptLoop (gcm.openWith log key) { bytes := rest }).out)
        (by rw [← hrest]) rfl
      refine ⟨⟨key, nonce, q⟩ :: es, ?_, ?_, ?_⟩
      · intro e he
        rcases mem_cons.1 he with rfl | he
        · exact ⟨hmem, rfl⟩
        · exact hes e he
      · simp [chunk, encryptChunk]
      · rw [flatMap_cons, ← hout]
        exact (congrArg Written.out h).symm
  · rintro ⟨es, hes, rfl, rfl⟩
    induction es with
    | nil => exact decryptLoop_nil _
    | cons e es ih =>
      obtain ⟨hmem, rfl⟩ := hes e (by simp)
      rw [flatMap_cons, chunk, encryptChunk,
        decryptLoop_cons (hsized e hmem).1 (length_sealWith_lt (hsized e hmem))
          (openWith_sealWith hlog hmem), ih fun e' he' => hes e' (by simp [he'])]
      rfl

end Log

/-! ## What `Encrypt` writes -/

/-- What `Encrypt` seals of a plaintext, with the nonces it draws. -/
def sealedChunks (key : Bytes) : List Nonce → Bytes → List (Sealed Bytes)
  | [], _ => []
  | nonce :: nonces, p =>
    if p = [] then []
    else ⟨key, nonce, p.take chunkSize⟩ :: sealedChunks key nonces (p.drop chunkSize)

theorem sized_of_mem_sealedChunks {key : Bytes} {nonces : List Nonce} {p : Bytes}
    {e : Sealed Bytes} (he : e ∈ sealedChunks key nonces p) : e.key = key ∧ Sized e := by
  induction nonces generalizing p with
  | nil => cases he
  | cons nonce nonces ih =>
    unfold sealedChunks at he
    split at he
    · cases he
    rcases mem_cons.1 he with rfl | he
    · exact ⟨rfl, nonce.2, length_take_le _ _⟩
    · exact ih he

section Loop

variable {gcm : GCM} {key : Bytes} {p : Bytes}

theorem chunkSize_pos : 0 < chunkSize := by decide

theorem encryptLoop_nil (nonces : List Nonce) :
    encryptLoop gcm key nonces { bytes := [] } = {} := by
  have hread := readFull_of_lt (r := { bytes := [] }) chunkSize_pos
  cases nonces <;> (unfold encryptLoop; rw [hread]; rfl)

theorem encryptLoop_no_nonce (hp : p ≠ []) :
    (encryptLoop gcm key [] { bytes := p }).err = some .generatingNonce := by
  obtain ⟨x, xs, rfl⟩ := exists_cons_of_ne_nil hp
  unfold encryptLoop
  by_cases hle : chunkSize ≤ (x :: xs).length
  · rw [readFull_of_le hle]
    obtain ⟨n, hn⟩ : ∃ n, chunkSize = n + 1 := ⟨chunkSize - 1, rfl⟩
    rw [hn, take_succ_cons]
  · rw [readFull_of_lt (Nat.not_le.1 hle)]

theorem encryptLoop_full (nonce : Nonce) (nonces : List Nonce) (hle : chunkSize ≤ p.length) :
    encryptLoop gcm key (nonce :: nonces) { bytes := p } =
      { out := encryptChunk gcm key nonce (p.take chunkSize) ++
          (encryptLoop gcm key nonces { bytes := p.drop chunkSize }).out,
        err := (encryptLoop gcm key nonces { bytes := p.drop chunkSize }).err } := by
  conv_lhs => unfold encryptLoop
  rw [readFull_of_le hle]
  obtain ⟨x, xs, hx⟩ : ∃ x xs, p.take chunkSize = x :: xs := by
    refine exists_cons_of_ne_nil fun hnil => ?_
    have := congrArg List.length hnil
    rw [length_take, Nat.min_eq_left hle] at this
    exact chunkSize_pos.ne' this
  rw [hx]

/-- The loop writes the chunks of what it seals, and has sealed everything if it ends well. -/
theorem encryptLoop_eq {nonces : List Nonce}
    (h : (encryptLoop gcm key nonces { bytes := p }).err = none) :
    (encryptLoop gcm key nonces { bytes := p }).out =
        (sealedChunks key nonces p).flatMap (chunk gcm) ∧
      (sealedChunks key nonces p).flatMap (·.plaintext) = p := by
  induction nonces generalizing p with
  | nil =>
    by_cases hp : p = []
    · subst hp
      rw [encryptLoop_nil]
      exact ⟨rfl, rfl⟩
    · rw [encryptLoop_no_nonce hp] at h
      cases h
  | cons nonce nonces ih =>
    by_cases hp : p = []
    · subst hp
      rw [encryptLoop_nil]
      exact ⟨rfl, rfl⟩
    unfold sealedChunks
    rw [if_neg hp]
    by_cases hle : chunkSize ≤ p.length
    · rw [encryptLoop_full nonce nonces hle] at h ⊢
      obtain ⟨hout, hall⟩ := ih h
      simp only [flatMap_cons, hout, hall, take_append_drop, and_true]
      rfl
    · -- The rest of the plaintext is empty, so nothing more is sealed.
      have hshort := Nat.not_le.1 hle
      have hrest : sealedChunks key nonces (p.drop chunkSize) = [] := by
        rw [drop_of_length_le hshort.le]
        cases nonces <;> rfl
      obtain ⟨x, xs, rfl⟩ := exists_cons_of_ne_nil hp
      unfold encryptLoop
      rw [readFull_of_lt hshort, hrest, take_of_length_le hshort.le]
      simp [chunk]

end Loop

/-- One `Encrypt` of a plaintext, with the nonces it draws. -/
structure Backup where
  plaintext : Bytes
  nonces : List Nonce

/-- What it writes. -/
def Backup.written (gcm : GCM) (key : Bytes) (b : Backup) : Written :=
  encrypt gcm key b.nonces { bytes := b.plaintext }

/-- Everything that was sealed for a list of backups. -/
def sealLog (key : Bytes) (bs : List Backup) : List (Sealed Bytes) :=
  bs.flatMap fun b => sealedChunks key b.nonces b.plaintext

/-- What an adversary can put together from the chunks of backups. -/
def Assembled (gcm : GCM) (key : Bytes) (bs : List Backup) (stream : Bytes) : Prop :=
  ∃ es : List (Sealed Bytes), (∀ e ∈ es, e ∈ sealLog key bs) ∧ stream = es.flatMap (chunk gcm)

/-- **Backup streams are authentic**: each backup decrypts to its plaintext, and what is put
together from the chunks of backups and decrypts is a backup. -/
structure StreamsAuthentic (gcm : GCM) (key : Bytes) (bs : List Backup) : Prop where
  roundTrip : ∀ b ∈ bs, decrypt gcm (sealLog key bs) key { bytes := (b.written gcm key).out } =
    { out := b.plaintext }
  authentic : ∀ stream, Assembled gcm key bs stream →
    (decrypt gcm (sealLog key bs) key { bytes := stream }).err = none →
      ∃ b ∈ bs, stream = (b.written gcm key).out

section Backups

variable {gcm : GCM} {key : Bytes} {bs : List Backup}

theorem sized_of_mem_sealLog {e : Sealed Bytes} (he : e ∈ sealLog key bs) :
    e.key = key ∧ Sized e := by
  obtain ⟨b, -, he⟩ := mem_flatMap.1 he
  exact sized_of_mem_sealedChunks he

theorem written_eq (hkey : key.length = keySize) {b : Backup}
    (hok : (b.written gcm key).err = none) :
    (b.written gcm key).out = (sealedChunks key b.nonces b.plaintext).flatMap (chunk gcm) ∧
      (sealedChunks key b.nonces b.plaintext).flatMap (·.plaintext) = b.plaintext := by
  unfold Backup.written encrypt at hok ⊢
  rw [if_neg (not_not.2 hkey)] at hok ⊢
  exact encryptLoop_eq hok

theorem decrypt_sealLog_eq_ok_iff (hkey : key.length = keySize) (hfresh : Distinct (sealLog key bs))
    {stream p : Bytes} :
    decrypt gcm (sealLog key bs) key { bytes := stream } = { out := p } ↔
      ∃ es : List (Sealed Bytes), (∀ e ∈ es, e ∈ sealLog key bs) ∧
        stream = es.flatMap (chunk gcm) ∧ p = es.flatMap (·.plaintext) := by
  rw [decrypt_eq_ok_iff hkey hfresh fun e he => (sized_of_mem_sealLog he).2]
  -- Everything in the log was sealed under the key.
  refine exists_congr fun es => and_congr_left fun _ => forall₂_congr fun e _ => ?_
  exact and_iff_left_of_imp fun he => (sized_of_mem_sealLog he).1

/-- **The round trip.** -/
theorem decrypt_encrypt (hkey : key.length = keySize) (hfresh : Distinct (sealLog key bs))
    {b : Backup} (hb : b ∈ bs) (hok : (b.written gcm key).err = none) :
    decrypt gcm (sealLog key bs) key { bytes := (b.written gcm key).out } =
      { out := b.plaintext } := by
  obtain ⟨hout, hall⟩ := written_eq hkey hok
  exact (decrypt_sealLog_eq_ok_iff hkey hfresh).2
    ⟨_, fun e he => mem_flatMap.2 ⟨b, hb, he⟩, hout, hall.symm⟩

theorem decrypt_assembled (hkey : key.length = keySize) (hfresh : Distinct (sealLog key bs))
    {stream : Bytes} (h : Assembled gcm key bs stream) :
    (decrypt gcm (sealLog key bs) key { bytes := stream }).err = none := by
  obtain ⟨es, hes, rfl⟩ := h
  rw [(decrypt_sealLog_eq_ok_iff hkey hfresh).2 ⟨es, hes, rfl, rfl⟩]

/-- **What a key protects.**  Each backup decrypts to its plaintext; the streams accepted are the
concatenations of chunks sealed under the key, and their plaintexts are written one after the
other. -/
theorem decrypt_backups (gcm : GCM) (key : Bytes) (hkey : key.length = keySize)
    (bs : List Backup) (hok : ∀ b ∈ bs, (b.written gcm key).err = none)
    (hfresh : Distinct (sealLog key bs)) :
    (∀ b ∈ bs, decrypt gcm (sealLog key bs) key { bytes := (b.written gcm key).out } =
      { out := b.plaintext }) ∧
    ∀ stream p, decrypt gcm (sealLog key bs) key { bytes := stream } = { out := p } ↔
      ∃ es : List (Sealed Bytes), (∀ e ∈ es, e ∈ sealLog key bs) ∧
        stream = es.flatMap (chunk gcm) ∧ p = es.flatMap (·.plaintext) :=
  ⟨fun b hb => decrypt_encrypt hkey hfresh hb (hok b hb),
    fun _ _ => decrypt_sealLog_eq_ok_iff hkey hfresh⟩

end Backups

/-- A cipher that leaves the plaintext as it is. -/
def plainGCM : GCM :=
  { tagSize := 16, sealWith := fun _ _ p => p ++ List.replicate 16 0,
    length_sealWith := by simp, tagSize_eq := rfl }

def plainKey : Bytes := List.replicate 32 0

/-- A backup of three bytes and one of two. -/
def twoBackups : List Backup :=
  [⟨[1, 2, 3], [⟨List.replicate 12 0, rfl⟩]⟩, ⟨[4, 5], [⟨List.replicate 12 1, rfl⟩]⟩]

/-- The chunk of the second backup before that of the first, which stands there twice. -/
theorem decrypt_backups_spliced :
    (∀ b ∈ twoBackups, decrypt plainGCM (sealLog plainKey twoBackups) plainKey
      { bytes := (b.written plainGCM plainKey).out } = { out := b.plaintext }) ∧
    decrypt plainGCM (sealLog plainKey twoBackups) plainKey
      { bytes := (([1, 0, 0].filterMap (twoBackups[·]?)).flatMap
        fun b => (b.written plainGCM plainKey).out) } = { out := [4, 5, 1, 2, 3, 1, 2, 3] } := by
  obtain ⟨hback, haccepted⟩ := decrypt_backups plainGCM plainKey rfl twoBackups
    (by decide +kernel) (by decide +kernel)
  refine ⟨hback, (haccepted _ _).2 ⟨[1, 0, 0].filterMap ((sealLog plainKey twoBackups)[·]?), ?_⟩⟩
  decide +kernel

/-- A backup of one byte. -/
def oneByteBackup : Backup := ⟨[1], [⟨List.replicate 12 0, rfl⟩]⟩

/-- **A duplicated stream is accepted**: its one chunk twice over decrypts, and is no backup. -/
theorem not_streamsAuthentic_duplicated : Distinct (sealLog plainKey [oneByteBackup]) ∧
      (oneByteBackup.written plainGCM plainKey).err = none ∧
      ¬StreamsAuthentic plainGCM plainKey [oneByteBackup] := by
  have hfresh : Distinct (sealLog plainKey [oneByteBackup]) := by decide +kernel
  have htwice : Assembled plainGCM plainKey [oneByteBackup]
      ((oneByteBackup.written plainGCM plainKey).out ++
        (oneByteBackup.written plainGCM plainKey).out) :=
    ⟨sealLog plainKey [oneByteBackup, oneByteBackup], by decide +kernel, by decide +kernel⟩
  refine ⟨hfresh, by decide +kernel, fun h => ?_⟩
  obtain ⟨b, hb, heq⟩ := h.authentic _ htwice (decrypt_assembled rfl hfresh htwice)
  obtain rfl := mem_singleton.1 hb
  exact absurd heq (by decide +kernel)

end AnimeFeedFlux.Ops
