import Desmos.Proto.Handshake.Noise

/-! # The transcript hash of a handshake

What a message does to a symmetric state is a function of the hash before it and of its bytes, so
two ends with equal hashes have seen equal messages as long as the digest keeps the absorbed inputs
apart.
-/
namespace Desmos.Proto
open Library

variable {msg : Bytes}

namespace Transcript

variable (P : Primitives) (h : Key32)

/-- The transcript hash after one more piece of data. -/
def absorb (data : Bytes) : Key32 := P.sha256 (h.toList ++ data)

variable (msg1 : Bytes)

def encS : Bytes := (msg1.drop publicKeyLen).take (publicKeyLen + tagLen)
def encPayload1 : Bytes := msg1.drop (publicKeyLen + publicKeyLen + tagLen)
def encPayload2 (msg2 : Bytes) : Bytes := msg2.drop publicKeyLen

/-- The hash before message 1: prologue, then the responder's static key. -/
def start (prologue : Bytes) (rs : PublicKey) : Key32 :=
  absorb P (absorb P (ByteArr.ofBytes 32 protocolName) prologue) rs.bytes.toList

def ephemeral (msg : Bytes) : Key32 :=
  absorb P h (leadingKey msg).bytes.toList

def static : Key32 :=
  absorb P (ephemeral P h msg1) (encS msg1)

def after1 : Key32 :=
  absorb P (static P h msg1) (encPayload1 msg1)

def after2 (msg2 : Bytes) : Key32 :=
  absorb P (ephemeral P h msg2) (encPayload2 msg2)

/-- The digest inputs up to message 1, of message 1, and of message 2. -/
def inputs0 (prologue : Bytes) (rs : PublicKey) : List Bytes :=
  [protocolName ++ prologue,
    (absorb P (ByteArr.ofBytes 32 protocolName) prologue).toList ++ rs.bytes.toList]

def inputs1 : List Bytes :=
  [h.toList ++ (leadingKey msg1).bytes.toList, (ephemeral P h msg1).toList ++ encS msg1,
    (static P h msg1).toList ++ encPayload1 msg1]

def inputs2 (msg2 : Bytes) : List Bytes :=
  [h.toList ++ (leadingKey msg2).bytes.toList, (ephemeral P h msg2).toList ++ encPayload2 msg2]

/-- The two AEAD uses of message 1, under the keys `k1` and `k2`. -/
def uses1 (k1 k2 : Key32) : List Sealing :=
  [⟨k1, nonceBytes 0, (ephemeral P h msg1).toList, encS msg1⟩,
    ⟨k2, nonceBytes 0, (static P h msg1).toList, encPayload1 msg1⟩]

def use2 (msg2 : Bytes) (k : Key32) : Sealing :=
  ⟨k, nonceBytes 0, (ephemeral P h msg2).toList, encPayload2 msg2⟩

theorem encS_length (h : msg.length = msg1Len) :
    (encS msg).length = publicKeyLen + tagLen := by
  simp only [encS, List.length_take, List.length_drop, h]
  rfl

theorem encPayload1_length (h : msg.length = msg1Len) :
    (encPayload1 msg).length = tagLen := by
  simp only [encPayload1, List.length_drop, h]
  rfl

end Transcript

open Transcript

/-- Sealing appends exactly one tag. -/
def Primitives.SealAppendsTag (P : Primitives) : Prop :=
  ∀ k n ad pt ct, P.aeadSeal k n ad pt = some ct → ct.length = pt.length + tagLen

section Messages
variable {P : Primitives} {ini ini' : Initiator} {ek : Key32} {res res' : Responder}
  {keys : TransportKeys}

theorem protocolName_length : protocolName.length = 32 := rfl

theorem SymmetricState.new_protocolName (P : Primitives) :
    SymmetricState.new P protocolName =
      { ck := ByteArr.ofBytes 32 protocolName, h := ByteArr.ofBytes 32 protocolName, k := none
        n := 0, hashed := [], derived := [], sealed := [], opened := [] } := rfl

theorem Initiator.new_symm (P : Primitives) (s : X25519PrivateKey) (rs : PublicKey)
    (prologue : Bytes) :
    (Initiator.new P s rs prologue).symm.h = start P prologue rs ∧
      (Initiator.new P s rs prologue).symm.hashed = inputs0 P prologue rs ∧
      (Initiator.new P s rs prologue).symm.sealed = [] := by
  have hl : (ByteArr.ofBytes 32 protocolName).toList = protocolName :=
    ByteArr.toList_ofBytes protocolName_length
  simp [Initiator.new, SymmetricState.new_protocolName, SymmetricState.mixHash, start, inputs0,
    absorb, hl]

theorem Responder.new_symm (P : Primitives) (s : X25519PrivateKey) (known : List PublicKey)
    (prologue : Bytes) :
    (Responder.new P s known prologue).symm = (Initiator.new P s (s.publicKey P) prologue).symm :=
  rfl

theorem Initiator.writeMessage1_transcript (hP : P.SealAppendsTag)
    (h : ini.writeMessage1 P (some ek) = (.ok msg, ini')) :
    msg.length = msg1Len ∧ ini'.symm.h = after1 P ini.symm.h msg ∧
      ini'.symm.hashed = ini.symm.hashed ++ inputs1 P ini.symm.h msg ∧
      ∃ k1 k2, ini'.symm.sealed = ini.symm.sealed ++ uses1 P ini.symm.h msg k1 k2 := by
  obtain ⟨-, encS', symm1, encP', symm2, h1, h2, rfl, rfl⟩ := writeMessage1_ok_iff.mp h
  have hl1 : encS'.length = publicKeyLen + tagLen := by
    simpa [publicKeyLen] using hP _ _ _ _ _ (SymmetricState.encryptAndHash_keyed_iff.mp h1).1
  have hl2 : encP'.length = tagLen := by
    simpa using hP _ _ _ _ _ (SymmetricState.encryptAndHash_keyed_iff.mp h2).1
  obtain ⟨a1, -, s1⟩ := SymmetricState.encryptAndHash_keyed_absorbed h1
  obtain ⟨a2, -, s2⟩ := SymmetricState.encryptAndHash_keyed_absorbed h2
  have hl := msg1_length (k := (X25519PrivateKey.publicKey P ⟨ek⟩).bytes) hl1 hl2
  have he : leadingKey ((X25519PrivateKey.publicKey P ⟨ek⟩).bytes.toList ++ encS' ++ encP') =
      X25519PrivateKey.publicKey P ⟨ek⟩ := by
    rw [List.append_assoc, leadingKey_append]
  have hs := msg1_encS (k := (X25519PrivateKey.publicKey P ⟨ek⟩).bytes) (p := encP') hl1
  have hp := msg1_payload (k := (X25519PrivateKey.publicKey P ⟨ek⟩).bytes) (p := encP') hl1
  generalize (X25519PrivateKey.publicKey P ⟨ek⟩).bytes.toList ++ encS' ++ encP' = msg at hl he hs hp
  simp only [after1, static, ephemeral, inputs1, uses1, encS, encPayload1, hl, he, hs, hp, absorb,
    a1.h, a2.h, a1.hashed, a2.hashed, s1, s2, SymmetricState.mixHash, List.append_assoc,
    List.cons_append, List.nil_append, true_and]
  exact ⟨_, _, rfl⟩

theorem Responder.readMessage1_transcript (h : res.readMessage1 P msg = (.ok (), res')) :
    msg.length = msg1Len ∧ res'.symm.h = after1 P res.symm.h msg ∧
      res'.symm.hashed = res.symm.hashed ++ inputs1 P res.symm.h msg ∧
      ∃ k1 k2, res'.symm.opened = res.symm.opened ++ uses1 P res.symm.h msg k1 k2 := by
  obtain ⟨hl, -, sBytes, symm1, symm2, h1, -, -, h2, rfl⟩ := readMessage1_ok_iff.mp h
  obtain ⟨a1, -, o1⟩ := SymmetricState.decryptAndHash_keyed_absorbed h1
  obtain ⟨a2, -, o2⟩ := SymmetricState.decryptAndHash_keyed_absorbed h2
  simp only [after1, static, ephemeral, inputs1, uses1, encS, encPayload1, hl, absorb, a1.h, a2.h,
    a1.hashed, a2.hashed, o1, o2, SymmetricState.mixHash, List.append_assoc, List.cons_append,
    List.nil_append, true_and]
  exact ⟨_, _, rfl⟩

/-- What the second message does to either end: `ck` and `dh` are the inputs of
its last key derivation. -/
structure Message2Effect (P : Primitives) (s : SymmetricState) (msg : Bytes) (ck : Key32)
    (dh : Bytes) (s' : SymmetricState) : Prop where
  length : msg.length = msg2Len
  h : s'.h = after2 P s.h msg
  hashed : s'.hashed = s.hashed ++ inputs2 P s.h msg
  ck_eq : s'.ck = Hkdf.block1 P ck.toList dh
  derived : (ck, dh) ∈ s'.derived

theorem Responder.writeMessage2_transcript (hP : P.SealAppendsTag)
    (h : res.writeMessage2 P (some ek) = (.ok (msg, keys), res')) :
    ∃ ck dh, Message2Effect P res.symm msg ck dh res'.symm ∧
      res'.symm.sealed = res.symm.sealed ++ [use2 P res.symm.h msg (Hkdf.block2 P ck.toList dh)] ∧
      keys = { send := Hkdf.block2 P res'.symm.ck.toList []
               recv := Hkdf.block1 P res'.symm.ck.toList [], handshakeHash := res'.symm.h } := by
  obtain ⟨re, rs, encP', symm, -, -, h1, rfl, rfl, rfl⟩ := writeMessage2_ok_iff.mp h
  have hl : encP'.length = tagLen := by
    simpa using hP _ _ _ _ _ (SymmetricState.encryptAndHash_keyed_iff.mp h1).1
  obtain ⟨a, -, hs⟩ := SymmetricState.encryptAndHash_keyed_absorbed h1
  have hd : ((X25519PrivateKey.publicKey P ⟨ek⟩).bytes.toList ++ encP').drop publicKeyLen = encP' :=
    List.drop_left' (by simp [publicKeyLen])
  refine ⟨_, _, ⟨?_, ?_, ?_, a.ck, ?_⟩, ?_, rfl⟩
  · simp [msg2Len, publicKeyLen, hl]
  · simp only [a.h, after2, ephemeral, encPayload2, leadingKey_append, hd, absorb]
    rfl
  · simp only [a.hashed, inputs2, ephemeral, encPayload2, leadingKey_append, hd, absorb]
    simp [SymmetricState.keyed, SymmetricState.mixHash]
  · simp [a.derived]
  · simp only [hs, use2, ephemeral, encPayload2, leadingKey_append, hd, absorb]
    rfl

theorem Initiator.readMessage2_transcript (h : ini.readMessage2 P msg = (.ok keys, ini')) :
    ∃ ck dh, Message2Effect P ini.symm msg ck dh ini'.symm ∧
      ini'.symm.opened = ini.symm.opened ++ [use2 P ini.symm.h msg (Hkdf.block2 P ck.toList dh)] ∧
      keys = { send := Hkdf.block1 P ini'.symm.ck.toList []
               recv := Hkdf.block2 P ini'.symm.ck.toList [], handshakeHash := ini'.symm.h } := by
  obtain ⟨hl, e, symm, -, h1, rfl, rfl⟩ := readMessage2_ok_iff.mp h
  obtain ⟨a, -, ho⟩ := SymmetricState.decryptAndHash_keyed_absorbed h1
  refine ⟨_, _, ⟨hl, ?_, ?_, a.ck, ?_⟩, ?_, rfl⟩
  · simp only [a.h, after2, ephemeral, encPayload2, absorb]
    rfl
  · simp only [a.hashed, inputs2, ephemeral, encPayload2, absorb]
    simp [SymmetricState.keyed, SymmetricState.mixHash]
  · simp [a.derived]
  · simp only [ho, use2, ephemeral, encPayload2, absorb]
    rfl

end Messages

end Desmos.Proto
