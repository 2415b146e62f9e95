import Mathlib.Data.List.Basic
import Mathlib.Tactic.Common

/-!
# Encryption of package payloads

`SharpCrypto` seals every payload with libsodium's secret box under a key derived
from the configured password. libsodium is a parameter: the program relies on
opening what was sealed and on the size of a sealed message.
-/

namespace Sharpvpn

abbrev Bytes := List UInt8

/-- `crypto_secretbox_NONCEBYTES` -/
def nonceBytes : Nat := 24

/-- `crypto_secretbox_MACBYTES` -/
def macBytes : Nat := 16

/-- `crypto_secretbox_KEYBYTES` -/
def keyBytes : Nat := 32

/-- `SHARPVPN_CRYPTO_OVERHEAD` -/
def cryptoOverhead : Nat := nonceBytes + macBytes

/-- libsodium's `crypto_secretbox_easy` and `crypto_secretbox_open_easy`; the
arguments are the text, the nonce and the key. -/
structure Sodium where
  secretboxEasy : Bytes → Bytes → Bytes → Bytes
  secretboxOpenEasy : Bytes → Bytes → Bytes → Option Bytes
  /-- What comes of opening a text that ends before its nonce does: the length passed on
  wraps around, and the call reads whatever memory follows. -/
  overread : Bytes → Bytes → Option Bytes
  open_easy : ∀ message nonce key, nonce.length = nonceBytes → key.length = keyBytes →
    secretboxOpenEasy (secretboxEasy message nonce key) nonce key = some message
  length_of_open : ∀ text nonce key message,
    secretboxOpenEasy text nonce key = some message → text.length = message.length + macBytes

/-- What `randombytes_buf` yields for one message. -/
structure Nonce where
  bytes : Bytes
  length_eq : bytes.length = nonceBytes

structure SharpCrypto where
  sodium : Sodium
  /-- The configured password. -/
  key : Bytes

namespace SharpCrypto

variable (crypto : SharpCrypto)

/-- The password cut to the key size or padded with zeros. -/
def keyBuf : Bytes := (crypto.key ++ List.replicate keyBytes 0).take keyBytes

def encrypt (nonce : Nonce) (message : Bytes) : Bytes :=
  nonce.bytes ++ crypto.sodium.secretboxEasy message nonce.bytes crypto.keyBuf

/-- `none` where the source returns 0 because the box does not open. -/
def decrypt (ciphertext : Bytes) : Option Bytes :=
  -- `clen - crypto_secretbox_NONCEBYTES` is not checked
  if ciphertext.length < nonceBytes then crypto.sodium.overread ciphertext crypto.keyBuf
  else
    crypto.sodium.secretboxOpenEasy (ciphertext.drop nonceBytes) (ciphertext.take nonceBytes)
      crypto.keyBuf

@[simp] theorem length_keyBuf : crypto.keyBuf.length = keyBytes := by
  simp [keyBuf]

@[simp] theorem decrypt_encrypt (nonce : Nonce) (message : Bytes) :
    crypto.decrypt (crypto.encrypt nonce message) = some message := by
  have hlength : ¬ (crypto.encrypt nonce message).length < nonceBytes := by
    simp [encrypt, nonce.length_eq]
  unfold decrypt
  rw [if_neg hlength, encrypt, List.drop_left' nonce.length_eq, List.take_left' nonce.length_eq]
  exact crypto.sodium.open_easy _ _ _ nonce.length_eq (length_keyBuf crypto)

end SharpCrypto

/-- A box that marks a message instead of hiding it, to run the model with. -/
def Sodium.marking : Sodium where
  secretboxEasy message _ _ := List.replicate macBytes 1 ++ message
  secretboxOpenEasy text _ _ :=
    if text.take macBytes = List.replicate macBytes 1 then some (text.drop macBytes) else none
  overread _ _ := none
  open_easy message nonce key _ _ := by
    have htake : (List.replicate macBytes (1 : UInt8) ++ message).take macBytes =
        List.replicate macBytes 1 := by
      simp
    simp [htake]
  length_of_open text nonce key message hopen := by
    split at hopen
    next htake =>
      have hlength := congrArg List.length htake
      simp only [Option.some.injEq] at hopen
      simp only [List.length_take, List.length_replicate] at hlength
      rw [← hopen, List.length_drop]
      omega
    next => cases hopen

def Nonce.zero : Nonce := ⟨List.replicate nonceBytes 0, rfl⟩

def SharpCrypto.marking : SharpCrypto := ⟨.marking, []⟩

end Sharpvpn
