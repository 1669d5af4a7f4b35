import Desmos.Library.Bytes

/-! # The cryptographic interface of the protocol crate

`Primitives` holds what the crate takes from elsewhere: the digest, the MAC, the AEAD and the scalar
multiplication. The laws that proofs may assume of them are the named propositions at the end.
-/
namespace Desmos.Proto
open Library

abbrev Key32 := ByteArr 32
abbrev Nonce := ByteArr 12

def keyLen : ℕ := 32
def tagLen : ℕ := 16
def publicKeyLen : ℕ := 32

inductive CryptoError where
  | invalidKeyLength
  | invalidNonceLength
  | invalidCiphertextLength
  | aeadFailed
  | x25519Failed
  | hkdfFailed
  | shortOutput
  deriving DecidableEq, Repr

def CryptoError.display : CryptoError → String
  | .invalidKeyLength => "crypto: invalid key length"
  | .invalidNonceLength => "crypto: invalid nonce length"
  | .invalidCiphertextLength => "crypto: invalid ciphertext length"
  | .aeadFailed => "crypto: AEAD open failed (bad key, tag mismatch, or tamper)"
  | .x25519Failed => "crypto: X25519 operation failed"
  | .hkdfFailed => "crypto: HKDF expand failed"
  | .shortOutput => "crypto: output buffer too small"

/-- The external functions, as total functions on byte strings. The AEAD
answers `none` where the library reports an error. -/
structure Primitives where
  sha256 : Bytes → Key32
  hmacSha256 : Bytes → Bytes → Key32
  aeadSeal : Key32 → Nonce → Bytes → Bytes → Option Bytes
  aeadOpen : Key32 → Nonce → Bytes → Bytes → Option Bytes
  scalarmult : Key32 → Key32 → Key32

structure AeadKey where
  key : Key32
  deriving DecidableEq

namespace AeadKey

def new (keyBytes : Bytes) : Except CryptoError AeadKey :=
  if keyBytes.length ≠ keyLen then .error .invalidKeyLength
  else .ok ⟨ByteArr.ofBytes 32 keyBytes⟩

@[simp] theorem new_toList (k : Key32) : new k.toList = .ok ⟨k⟩ := by
  simp [new, keyLen]

/-- The buffer starts as the plaintext and ends as ciphertext and tag. -/
def sealInPlace (P : Primitives) (k : AeadKey) (nonce : Nonce) (aad buf : Bytes) :
    Except CryptoError Bytes :=
  match P.aeadSeal k.key nonce aad buf with
  | some ct => .ok ct
  | none => .error .aeadFailed

def openInPlace (P : Primitives) (k : AeadKey) (nonce : Nonce) (aad buf : Bytes) :
    Except CryptoError Bytes :=
  if buf.length < tagLen then .error .invalidCiphertextLength
  else match P.aeadOpen k.key nonce aad buf with
    | some pt => .ok pt
    | none => .error .aeadFailed

theorem sealInPlace_ok_iff {P : Primitives} {k : AeadKey} {nonce : Nonce} {aad buf ct : Bytes} :
    k.sealInPlace P nonce aad buf = .ok ct ↔ P.aeadSeal k.key nonce aad buf = some ct := by
  unfold sealInPlace
  cases P.aeadSeal k.key nonce aad buf <;> simp

theorem openInPlace_ok_iff {P : Primitives} {k : AeadKey} {nonce : Nonce} {aad buf pt : Bytes} :
    k.openInPlace P nonce aad buf = .ok pt ↔
      tagLen ≤ buf.length ∧ P.aeadOpen k.key nonce aad buf = some pt := by
  unfold openInPlace
  by_cases hl : buf.length < tagLen
  · simp [hl]
  · cases P.aeadOpen k.key nonce aad buf <;> simp [hl, Nat.not_lt.mp hl]

end AeadKey

structure PublicKey where
  bytes : Key32
  deriving DecidableEq

structure X25519PrivateKey where
  seed : Key32
  deriving DecidableEq

def basepoint : Key32 := ByteArr.ofBytes 32 [9]

namespace X25519PrivateKey

/-- The argument is what the system random source delivered, if it did. -/
def generate (entropy : Option Key32) : Except CryptoError X25519PrivateKey :=
  match entropy with
  | some seed => .ok ⟨seed⟩
  | none => .error .x25519Failed

def fromBytes (seed : Key32) : X25519PrivateKey := ⟨seed⟩

def publicKey (P : Primitives) (k : X25519PrivateKey) : PublicKey :=
  ⟨P.scalarmult k.seed basepoint⟩

def diffieHellman (P : Primitives) (k : X25519PrivateKey) (peer : PublicKey) : Key32 :=
  P.scalarmult k.seed peer.bytes

end X25519PrivateKey

namespace Primitives

/-- Longest plaintext the AEAD accepts: all but one of the 64-byte blocks a
32-bit block counter can number. -/
def maxInputLen : ℕ := (2 ^ 32 - 1) * 64

/-- Documented behaviour of the AEAD: it seals every plaintext up to its length
limit, appends one tag, and opens what it sealed. -/
structure LawfulAead (P : Primitives) : Prop where
  seal_accepts : ∀ k n ad pt, pt.length ≤ maxInputLen → ∃ ct, P.aeadSeal k n ad pt = some ct
  seal_length : ∀ {k n ad pt ct}, P.aeadSeal k n ad pt = some ct → ct.length = pt.length + tagLen
  open_seal : ∀ {k n ad pt ct}, P.aeadSeal k n ad pt = some ct → P.aeadOpen k n ad ct = some pt

/-- Both ends of an exchange of public keys compute the same secret. -/
def DhCommutes (P : Primitives) : Prop :=
  ∀ a b : X25519PrivateKey, a.diffieHellman P (b.publicKey P) = b.diffieHellman P (a.publicKey P)

/-- A degenerate instance without any secrecy: the tag is the associated data,
cut to 16 bytes. It shows that the laws above can be met together. -/
def transparent : Primitives where
  sha256 bs := ByteArr.ofBytes 32 bs
  hmacSha256 k bs := ByteArr.ofBytes 32 (bs.reverse ++ k)
  aeadSeal _ _ ad pt :=
    if pt.length ≤ maxInputLen then some (pt ++ (ByteArr.ofBytes 16 ad).toList) else none
  aeadOpen _ _ ad ct :=
    if ct.drop (ct.length - tagLen) = (ByteArr.ofBytes 16 ad).toList then
      some (ct.take (ct.length - tagLen))
    else none
  scalarmult a b := Vector.zipWith (· ^^^ ·) a b

theorem transparent_seal_iff {k : Key32} {n : Nonce} {ad pt ct : Bytes} :
    transparent.aeadSeal k n ad pt = some ct ↔
      pt.length ≤ maxInputLen ∧ ct = pt ++ (ByteArr.ofBytes 16 ad).toList := by
  simp only [transparent]
  split_ifs with h
  · simpa [h] using eq_comm
  · simp [h]

theorem transparent_open_append (k : Key32) (n : Nonce) (ad ad' pt : Bytes) :
    transparent.aeadOpen k n ad' (pt ++ (ByteArr.ofBytes 16 ad).toList) =
      if ByteArr.ofBytes 16 ad = ByteArr.ofBytes 16 ad' then some pt else none := by
  simp [transparent, tagLen, Vector.toList_inj]

theorem transparent_lawfulAead : transparent.LawfulAead where
  seal_accepts k n ad pt h := ⟨_, transparent_seal_iff.mpr ⟨h, rfl⟩⟩
  seal_length h := by simp [(transparent_seal_iff.mp h).2, tagLen]
  open_seal h := by rw [(transparent_seal_iff.mp h).2, transparent_open_append, if_pos rfl]

theorem transparent_dhCommutes : transparent.DhCommutes := by
  intro a b
  simp only [X25519PrivateKey.diffieHellman, X25519PrivateKey.publicKey, transparent]
  ext i hi
  simp only [Vector.getElem_zipWith]
  rw [← UInt8.xor_assoc, UInt8.xor_comm a.seed[i], UInt8.xor_assoc]

end Primitives

theorem AeadKey.open_seal {P : Primitives} (hP : P.LawfulAead) {k : AeadKey} {nonce : Nonce}
    {aad pt ct : Bytes} (h : k.sealInPlace P nonce aad pt = .ok ct) :
    k.openInPlace P nonce aad ct = .ok pt := by
  rw [sealInPlace_ok_iff] at h
  rw [openInPlace_ok_iff, hP.seal_length h]
  exact ⟨Nat.le_add_left _ _, hP.open_seal h⟩

end Desmos.Proto
