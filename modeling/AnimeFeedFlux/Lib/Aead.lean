import AnimeFeedFlux.Lib.Bytes
import Mathlib.Data.List.Nodup

/-!
# Ideal authenticated encryption

An ideal cipher opens exactly what was sealed before: `openWith` looks a nonce and a ciphertext up
in the log of everything sealed.  What an adversary makes up is not in the log, so it is refused;
what it copies is opened, wherever it has put the copy.
-/

namespace AnimeFeedFlux

open List

/-- A cipher: ciphertexts are longer than plaintexts by the tag. -/
structure Aead (Key : Type) where
  tagSize : ℕ
  sealWith : Key → Bytes → Bytes → Bytes
  length_sealWith : ∀ key nonce plaintext,
    (sealWith key nonce plaintext).length = plaintext.length + tagSize

/-- One use of a cipher. -/
structure Sealed (Key : Type) where
  key : Key
  nonce : Bytes
  plaintext : Bytes
  deriving DecidableEq

variable {Key : Type} [DecidableEq Key] (a : Aead Key)

/-- Open a ciphertext, given what was sealed. -/
def Aead.openWith (log : List (Sealed Key)) (key : Key) (nonce ciphertext : Bytes) : Option Bytes :=
  (log.find? fun e => decide (e.key = key ∧ e.nonce = nonce ∧
    a.sealWith key nonce e.plaintext = ciphertext)).map (·.plaintext)

/-- No nonce is used twice under one key. -/
def Distinct (log : List (Sealed Key)) : Prop := (log.map fun e => (e.key, e.nonce)).Nodup

instance (log : List (Sealed Key)) : Decidable (Distinct log) :=
  inferInstanceAs (Decidable (List.Nodup _))

variable {a} {log : List (Sealed Key)}

/-- **What is opened was sealed.** -/
theorem openWith_eq_some {key : Key} {nonce ciphertext p : Bytes}
    (h : a.openWith log key nonce ciphertext = some p) :
    ⟨key, nonce, p⟩ ∈ log ∧ a.sealWith key nonce p = ciphertext := by
  obtain ⟨e, hfind, rfl⟩ := Option.map_eq_some_iff.1 h
  obtain ⟨rfl, rfl, hseal⟩ : e.key = key ∧ e.nonce = nonce ∧
      a.sealWith key nonce e.plaintext = ciphertext := by simpa using find?_some hfind
  exact ⟨mem_of_find?_eq_some hfind, hseal⟩

/-- **What was sealed is opened**, if nonces are distinct. -/
theorem openWith_sealWith (hlog : Distinct log) {e : Sealed Key} (he : e ∈ log) :
    a.openWith log e.key e.nonce (a.sealWith e.key e.nonce e.plaintext) = some e.plaintext := by
  cases hopen : a.openWith log e.key e.nonce (a.sealWith e.key e.nonce e.plaintext) with
  | none =>
    have hnone := find?_eq_none.1 (Option.map_eq_none_iff.1 hopen) e he
    exact absurd (decide_eq_true ⟨rfl, rfl, rfl⟩) hnone
  | some p =>
    obtain ⟨hmem, -⟩ := openWith_eq_some hopen
    have heq : (⟨e.key, e.nonce, p⟩ : Sealed Key) = e :=
      inj_on_of_nodup_map hlog hmem he rfl
    rw [← heq]

end AnimeFeedFlux
