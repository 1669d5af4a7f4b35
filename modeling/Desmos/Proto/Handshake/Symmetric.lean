import Desmos.Proto.Crypto.Hkdf

/-! # The Noise symmetric state

An operation that borrows the state mutably returns its error together with the state it leaves
behind. Four history variables record what the state has hashed, derived, sealed and opened. No
operation reads them.
-/
namespace Desmos.Proto
open Library

def hashLen : ℕ := 32

/-- One use of the AEAD: its inputs and the ciphertext it produced. -/
structure Sealing where
  key : Key32
  nonce : Nonce
  aad : Bytes
  ciphertext : Bytes
  deriving DecidableEq

structure SymmetricState where
  ck : Key32
  h : Key32
  k : Option AeadKey
  n : UInt64
  hashed : List Bytes
  derived : List (Key32 × Bytes)
  sealed : List Sealing
  opened : List Sealing
  deriving DecidableEq

/-- Four zero bytes followed by the counter in big-endian order. -/
def nonceBytes (counter : UInt64) : Nonce :=
  ByteArr.ofBytes 12 (List.replicate 4 0 ++ toBe 8 counter.toNat)

/-- `u64::checked_add(1)`. -/
def checkedSucc (n : UInt64) : Option UInt64 :=
  if n.toNat + 1 < 2 ^ 64 then some (n + 1) else none

variable {pt ct : Bytes}

namespace SymmetricState

section
variable (P : Primitives)

def new (protocolName : Bytes) : SymmetricState :=
  let h := if protocolName.length ≤ hashLen then ByteArr.ofBytes 32 protocolName
    else P.sha256 protocolName
  { ck := h, h := h, k := none, n := 0, derived := [], sealed := [], opened := []
    hashed := if protocolName.length ≤ hashLen then [] else [protocolName] }

variable (s : SymmetricState)

def mixKey (ikm : Bytes) : Except CryptoError Unit × SymmetricState :=
  match Hkdf.derive P s.ck.toList ikm [] (hashLen + keyLen) with
  | .error e => (.error e, s)
  | .ok out =>
    let s := { s with
      ck := ByteArr.ofBytes 32 (out.take hashLen)
      derived := s.derived ++ [(s.ck, ikm)] }
    match AeadKey.new (out.drop hashLen) with
    | .error e => (.error e, s)
    | .ok k => (.ok (), { s with k := some k, n := 0 })

def mixHash (data : Bytes) : SymmetricState :=
  let buf := s.h.toList ++ data
  { s with h := P.sha256 buf, hashed := s.hashed ++ [buf] }

def encryptAndHash (plaintext : Bytes) : Except CryptoError Bytes × SymmetricState :=
  match s.k with
  | none => (.ok plaintext, s.mixHash P plaintext)
  | some k =>
    let nonce := nonceBytes s.n
    match k.sealInPlace P nonce s.h.toList plaintext with
    | .error e => (.error e, s)
    | .ok out =>
      let s := { s with sealed := s.sealed ++ [⟨k.key, nonce, s.h.toList, out⟩] }
      match checkedSucc s.n with
      | none => (.error .aeadFailed, s)
      | some n => (.ok out, { s with n := n }.mixHash P out)

def decryptAndHash (ciphertext : Bytes) : Except CryptoError Bytes × SymmetricState :=
  match s.k with
  | none => (.ok ciphertext, s.mixHash P ciphertext)
  | some k =>
    let nonce := nonceBytes s.n
    match k.openInPlace P nonce s.h.toList ciphertext with
    | .error e => (.error e, s)
    | .ok pt =>
      let s := { s with opened := s.opened ++ [⟨k.key, nonce, s.h.toList, ciphertext⟩] }
      match checkedSucc s.n with
      | none => (.error .aeadFailed, s)
      | some n => (.ok pt, { s with n := n }.mixHash P ciphertext)

def split : Except CryptoError (Key32 × Key32) :=
  match Hkdf.derive P s.ck.toList [] [] (keyLen * 2) with
  | .error e => .error e
  | .ok out => .ok (ByteArr.ofBytes 32 (out.take keyLen), ByteArr.ofBytes 32 (out.drop keyLen))

def handshakeHash : Key32 := s.h

/-- The state `mixKey` leaves behind: asking HKDF for 64 bytes never fails. -/
def keyed (ikm : Bytes) : SymmetricState :=
  { s with
    ck := Hkdf.block1 P s.ck.toList ikm
    k := some ⟨Hkdf.block2 P s.ck.toList ikm⟩
    n := 0
    derived := s.derived ++ [(s.ck, ikm)] }

theorem mixKey_eq (ikm : Bytes) : s.mixKey P ikm = (.ok (), s.keyed P ikm) := by
  simp [mixKey, hashLen, keyLen, Hkdf.derive_pair, keyed]

theorem split_eq :
    s.split P = .ok (Hkdf.block1 P s.ck.toList [], Hkdf.block2 P s.ck.toList []) := by
  simp [split, keyLen, Hkdf.derive_pair]

end

@[simp] theorem checkedSucc_zero : checkedSucc 0 = some 1 := rfl

section Keyed
variable {P : Primitives} {s s' : SymmetricState} {ikm : Bytes}

/-- Right after a key was mixed in, encryption succeeds exactly when sealing
does: counter zero, transcript hash as associated data. -/
theorem encryptAndHash_keyed_iff :
    (s.keyed P ikm).encryptAndHash P pt = (.ok ct, s') ↔
      P.aeadSeal (Hkdf.block2 P s.ck.toList ikm) (nonceBytes 0) s.h.toList pt = some ct ∧
      s' = ({ s.keyed P ikm with
        n := 1
        sealed := s.sealed ++ [⟨Hkdf.block2 P s.ck.toList ikm, nonceBytes 0, s.h.toList, ct⟩] } :
          SymmetricState).mixHash P ct := by
  simp only [encryptAndHash, keyed, AeadKey.sealInPlace]
  cases P.aeadSeal (Hkdf.block2 P s.ck.toList ikm) (nonceBytes 0) s.h.toList pt with
  | none => simp
  | some out =>
    simp only [checkedSucc_zero, Prod.mk.injEq, Except.ok.injEq, Option.some.injEq]
    exact and_congr_right fun hct => hct ▸ eq_comm

theorem encryptAndHash_keyed_error {e : CryptoError}
    (h : (s.keyed P ikm).encryptAndHash P pt = (.error e, s')) : s' = s.keyed P ikm := by
  simp only [encryptAndHash, keyed, AeadKey.sealInPlace] at h
  cases hs : P.aeadSeal (Hkdf.block2 P s.ck.toList ikm) (nonceBytes 0) s.h.toList pt with
  | none =>
    simp only [hs, Prod.mk.injEq] at h
    exact h.2.symm
  | some out => simp [hs] at h

theorem decryptAndHash_keyed_iff :
    (s.keyed P ikm).decryptAndHash P ct = (.ok pt, s') ↔
      tagLen ≤ ct.length ∧
      P.aeadOpen (Hkdf.block2 P s.ck.toList ikm) (nonceBytes 0) s.h.toList ct = some pt ∧
      s' = ({ s.keyed P ikm with
        n := 1
        opened := s.opened ++ [⟨Hkdf.block2 P s.ck.toList ikm, nonceBytes 0, s.h.toList, ct⟩] } :
          SymmetricState).mixHash P ct := by
  simp only [decryptAndHash, keyed, AeadKey.openInPlace]
  by_cases hl : ct.length < tagLen
  · simp [hl]
  · simp only [hl, if_false, Nat.not_lt.mp hl, true_and]
    cases P.aeadOpen (Hkdf.block2 P s.ck.toList ikm) (nonceBytes 0) s.h.toList ct with
    | none => simp
    | some out =>
      simp only [checkedSucc_zero, Prod.mk.injEq, Except.ok.injEq, Option.some.injEq]
      exact and_congr_right fun _ => eq_comm

/-- What sealing or opening a ciphertext right after mixing in a key does to the
state, apart from the AEAD history. -/
structure Absorbed (P : Primitives) (s : SymmetricState) (ikm ct : Bytes) (s' : SymmetricState) :
    Prop where
  ck : s'.ck = Hkdf.block1 P s.ck.toList ikm
  h : s'.h = P.sha256 (s.h.toList ++ ct)
  hashed : s'.hashed = s.hashed ++ [s.h.toList ++ ct]
  derived : s'.derived = s.derived ++ [(s.ck, ikm)]

theorem encryptAndHash_keyed_absorbed
    (he : (s.keyed P ikm).encryptAndHash P pt = (.ok ct, s')) :
    Absorbed P s ikm ct s' ∧ s'.opened = s.opened ∧ s'.sealed = s.sealed ++
      [⟨Hkdf.block2 P s.ck.toList ikm, nonceBytes 0, s.h.toList, ct⟩] := by
  obtain ⟨-, rfl⟩ := encryptAndHash_keyed_iff.mp he
  exact ⟨⟨rfl, rfl, rfl, rfl⟩, rfl, rfl⟩

theorem decryptAndHash_keyed_absorbed
    (hd : (s.keyed P ikm).decryptAndHash P ct = (.ok pt, s')) :
    Absorbed P s ikm ct s' ∧ s'.sealed = s.sealed ∧ s'.opened = s.opened ++
      [⟨Hkdf.block2 P s.ck.toList ikm, nonceBytes 0, s.h.toList, ct⟩] := by
  obtain ⟨-, -, rfl⟩ := decryptAndHash_keyed_iff.mp hd
  exact ⟨⟨rfl, rfl, rfl, rfl⟩, rfl, rfl⟩

/-- Opening seals nothing, whether it succeeds or not. -/
theorem decryptAndHash_sealed (P : Primitives) (s : SymmetricState) (ct : Bytes) :
    (s.decryptAndHash P ct).2.sealed = s.sealed := by
  unfold decryptAndHash
  cases s.k with
  | none => rfl
  | some k =>
    dsimp only
    split
    · rfl
    · cases checkedSucc s.n with
      | none => rfl
      | some n => rfl

end Keyed

/-- The two ends of a handshake hold the same chaining key and transcript hash. -/
structure Agree (a b : SymmetricState) : Prop where
  ck : a.ck = b.ck
  h : a.h = b.h

namespace Agree
variable {P : Primitives} {a b a' : SymmetricState}

theorem symm (hab : a.Agree b) : b.Agree a := ⟨hab.ck.symm, hab.h.symm⟩

theorem mixHash (hab : a.Agree b) (data : Bytes) : (a.mixHash P data).Agree (b.mixHash P data) :=
  ⟨hab.ck, by simp [SymmetricState.mixHash, hab.h]⟩

theorem keyed (hab : a.Agree b) (ikm : Bytes) : (a.keyed P ikm).Agree (b.keyed P ikm) :=
  ⟨by simp [SymmetricState.keyed, hab.ck], hab.h⟩

/-- What one end seals the other end opens, and both absorb the ciphertext. -/
theorem crypt (hP : P.LawfulAead) (hab : a.Agree b) {ikm : Bytes}
    (he : (a.keyed P ikm).encryptAndHash P pt = (.ok ct, a')) :
    ∃ b', (b.keyed P ikm).decryptAndHash P ct = (.ok pt, b') ∧ a'.Agree b' := by
  obtain ⟨hs, rfl⟩ := encryptAndHash_keyed_iff.mp he
  rw [hab.ck, hab.h] at hs
  refine ⟨_, decryptAndHash_keyed_iff.mpr ⟨?_, hP.open_seal hs, rfl⟩, ?_⟩
  · rw [hP.seal_length hs]
    exact Nat.le_add_left _ _
  · have hk : (a.keyed P ikm).Agree (b.keyed P ikm) := hab.keyed ikm
    exact ⟨hk.ck, by simp [SymmetricState.mixHash, hk.h]⟩

end Agree

section Lawful
variable {P : Primitives} (hP : P.LawfulAead)
include hP

/-- A short plaintext is always sealed. -/
theorem encryptAndHash_keyed_ok (s : SymmetricState) (ikm pt : Bytes)
    (hl : pt.length ≤ Primitives.maxInputLen) :
    ∃ ct s', (s.keyed P ikm).encryptAndHash P pt = (.ok ct, s') := by
  obtain ⟨ct, hct⟩ :=
    hP.seal_accepts (Hkdf.block2 P s.ck.toList ikm) (nonceBytes 0) s.h.toList pt hl
  exact ⟨ct, _, encryptAndHash_keyed_iff.mpr ⟨hct, rfl⟩⟩

theorem encryptAndHash_keyed_length {s s' : SymmetricState} {ikm : Bytes}
    (he : (s.keyed P ikm).encryptAndHash P pt = (.ok ct, s')) : ct.length = pt.length + tagLen :=
  hP.seal_length (encryptAndHash_keyed_iff.mp he).1

end Lawful

end SymmetricState

end Desmos.Proto
