import Desmos.Proto.Handshake.Symmetric

/-! # The Noise IK state machines of initiator and responder

`-> e, es, s, ss` and `<- e, ee, se`, with the length checks, the phase checks and the whitelist of
the source. Methods that borrow `self` mutably return the state they leave behind next to their
result.
-/
namespace Desmos.Proto
open Library

/-- The ASCII bytes of `Noise_IK_25519_ChaChaPoly_SHA256`. -/
def protocolName : Bytes :=
  [78, 111, 105, 115, 101, 95, 73, 75, 95, 50, 53, 53, 49, 57, 95, 67,
   104, 97, 67, 104, 97, 80, 111, 108, 121, 95, 83, 72, 65, 50, 53, 54]

def msg1Len : ℕ := publicKeyLen + (publicKeyLen + tagLen) + tagLen
def msg2Len : ℕ := publicKeyLen + tagLen

inductive HandshakeError where
  | crypto (e : CryptoError)
  | unknownStatic
  | badMessage
  | wrongState
  deriving DecidableEq, Repr

def HandshakeError.display : HandshakeError → String
  | .crypto e => "handshake: " ++ e.display
  | .unknownStatic => "handshake: unknown initiator static key"
  | .badMessage => "handshake: malformed message"
  | .wrongState => "handshake: wrong state"

def leadingKey (msg : Bytes) : PublicKey := ⟨ByteArr.ofBytes 32 (msg.take publicKeyLen)⟩

structure TransportKeys where
  send : Key32
  recv : Key32
  handshakeHash : Key32
  deriving DecidableEq

structure Initiator where
  symm : SymmetricState
  s : X25519PrivateKey
  e : Option X25519PrivateKey
  rs : PublicKey
  deriving DecidableEq

structure Responder where
  symm : SymmetricState
  s : X25519PrivateKey
  re : Option PublicKey
  rs : Option PublicKey
  knownInitiators : List PublicKey
  deriving DecidableEq

namespace Initiator

def new (P : Primitives) (staticKey : X25519PrivateKey) (responderStatic : PublicKey)
    (prologue : Bytes) : Initiator :=
  let symm := SymmetricState.new P protocolName
  let symm := symm.mixHash P prologue
  let symm := symm.mixHash P responderStatic.bytes.toList
  { symm := symm, s := staticKey, e := none, rs := responderStatic }

/-- `entropy` is what the random source returns to the ephemeral key generation. -/
def writeMessage1 (P : Primitives) (ini : Initiator) (entropy : Option Key32) :
    Except HandshakeError Bytes × Initiator :=
  if ini.e.isSome then (.error .wrongState, ini)
  else match X25519PrivateKey.generate entropy with
  | .error err => (.error (.crypto err), ini)
  | .ok e =>
    let ePub := e.publicKey P
    let symm := ini.symm.mixHash P ePub.bytes.toList
    let dhEs := e.diffieHellman P ini.rs
    match symm.mixKey P dhEs.toList with
    | (.error err, symm) => (.error (.crypto err), { ini with symm := symm })
    | (.ok _, symm) =>
      let sPub := ini.s.publicKey P
      match symm.encryptAndHash P sPub.bytes.toList with
      | (.error err, symm) => (.error (.crypto err), { ini with symm := symm })
      | (.ok encS, symm) =>
        let dhSs := ini.s.diffieHellman P ini.rs
        match symm.mixKey P dhSs.toList with
        | (.error err, symm) => (.error (.crypto err), { ini with symm := symm })
        | (.ok _, symm) =>
          match symm.encryptAndHash P [] with
          | (.error err, symm) => (.error (.crypto err), { ini with symm := symm })
          | (.ok encPayload, symm) =>
            (.ok (ePub.bytes.toList ++ encS ++ encPayload), { ini with symm := symm, e := some e })

def readMessage2 (P : Primitives) (ini : Initiator) (msg : Bytes) :
    Except HandshakeError TransportKeys × Initiator :=
  if msg.length ≠ msg2Len then (.error .badMessage, ini)
  else match ini.e with
  | none => (.error .wrongState, ini)
  | some e =>
    let ini := { ini with e := none }
    let re := leadingKey msg
    let encPayload := msg.drop publicKeyLen
    let symm := ini.symm.mixHash P re.bytes.toList
    let dhEe := e.diffieHellman P re
    match symm.mixKey P dhEe.toList with
    | (.error err, symm) => (.error (.crypto err), { ini with symm := symm })
    | (.ok _, symm) =>
      let dhSe := ini.s.diffieHellman P re
      match symm.mixKey P dhSe.toList with
      | (.error err, symm) => (.error (.crypto err), { ini with symm := symm })
      | (.ok _, symm) =>
        match symm.decryptAndHash P encPayload with
        | (.error err, symm) => (.error (.crypto err), { ini with symm := symm })
        | (.ok pt, symm) =>
          let ini := { ini with symm := symm }
          if pt ≠ [] then (.error .badMessage, ini)
          else match symm.split P with
          | .error err => (.error (.crypto err), ini)
          | .ok (kI2r, kR2i) =>
            (.ok { send := kI2r, recv := kR2i, handshakeHash := symm.handshakeHash }, ini)

end Initiator

namespace Responder

def new (P : Primitives) (staticKey : X25519PrivateKey) (knownInitiators : List PublicKey)
    (prologue : Bytes) : Responder :=
  let symm := SymmetricState.new P protocolName
  let symm := symm.mixHash P prologue
  let sPub := staticKey.publicKey P
  let symm := symm.mixHash P sPub.bytes.toList
  { symm := symm, s := staticKey, re := none, rs := none, knownInitiators := knownInitiators }

def readMessage1 (P : Primitives) (res : Responder) (msg : Bytes) :
    Except HandshakeError Unit × Responder :=
  if msg.length ≠ msg1Len then (.error .badMessage, res)
  else if res.re.isSome then (.error .wrongState, res)
  else
    let re := leadingKey msg
    let encS := (msg.drop publicKeyLen).take (publicKeyLen + tagLen)
    let encPayload := msg.drop (publicKeyLen + publicKeyLen + tagLen)
    let symm := res.symm.mixHash P re.bytes.toList
    let dhEs := res.s.diffieHellman P re
    match symm.mixKey P dhEs.toList with
    | (.error err, symm) => (.error (.crypto err), { res with symm := symm })
    | (.ok _, symm) =>
      match symm.decryptAndHash P encS with
      | (.error err, symm) => (.error (.crypto err), { res with symm := symm })
      | (.ok sBytes, symm) =>
        if sBytes.length ≠ publicKeyLen then (.error .badMessage, { res with symm := symm })
        else
          let rs : PublicKey := ⟨ByteArr.ofBytes 32 sBytes⟩
          if !res.knownInitiators.isEmpty && !res.knownInitiators.any (fun k => k.bytes == rs.bytes)
          then (.error .unknownStatic, { res with symm := symm })
          else
            let dhSs := res.s.diffieHellman P rs
            match symm.mixKey P dhSs.toList with
            | (.error err, symm) => (.error (.crypto err), { res with symm := symm })
            | (.ok _, symm) =>
              match symm.decryptAndHash P encPayload with
              | (.error err, symm) => (.error (.crypto err), { res with symm := symm })
              | (.ok pt, symm) =>
                if pt ≠ [] then (.error .badMessage, { res with symm := symm })
                else (.ok (), { res with symm := symm, re := some re, rs := some rs })

def writeMessage2 (P : Primitives) (res : Responder) (entropy : Option Key32) :
    Except HandshakeError (Bytes × TransportKeys) × Responder :=
  match res.re, res.rs with
  | none, _ => (.error .wrongState, res)
  | some _, none => (.error .wrongState, { res with re := none })
  | some re, some rs =>
    let res := { res with re := none, rs := none }
    match X25519PrivateKey.generate entropy with
    | .error err => (.error (.crypto err), res)
    | .ok e =>
      let ePub := e.publicKey P
      let symm := res.symm.mixHash P ePub.bytes.toList
      let dhEe := e.diffieHellman P re
      match symm.mixKey P dhEe.toList with
      | (.error err, symm) => (.error (.crypto err), { res with symm := symm })
      | (.ok _, symm) =>
        let dhSe := e.diffieHellman P rs
        match symm.mixKey P dhSe.toList with
        | (.error err, symm) => (.error (.crypto err), { res with symm := symm })
        | (.ok _, symm) =>
          match symm.encryptAndHash P [] with
          | (.error err, symm) => (.error (.crypto err), { res with symm := symm })
          | (.ok encPayload, symm) =>
            let res := { res with symm := symm }
            let out := ePub.bytes.toList ++ encPayload
            match symm.split P with
            | .error err => (.error (.crypto err), res)
            | .ok (kI2r, kR2i) =>
              (.ok (out, { send := kR2i, recv := kI2r, handshakeHash := symm.handshakeHash }), res)

def initiatorStatic (res : Responder) : Option PublicKey := res.rs

end Responder

variable {msg : Bytes}

section Slices
variable {k : Key32} {s p : Bytes}

@[simp] theorem leadingKey_append (k : Key32) (rest : Bytes) :
    leadingKey (k.toList ++ rest) = ⟨k⟩ := by
  simp [leadingKey, publicKeyLen]

theorem msg1_length (hs : s.length = publicKeyLen + tagLen) (hp : p.length = tagLen) :
    (k.toList ++ s ++ p).length = msg1Len := by
  simp only [List.length_append, Vector.length_toList, hs, hp]
  rfl

theorem msg1_encS (hs : s.length = publicKeyLen + tagLen) :
    ((k.toList ++ s ++ p).drop publicKeyLen).take (publicKeyLen + tagLen) = s := by
  rw [List.append_assoc, List.drop_left' (by simp [publicKeyLen]), List.take_left' hs]

theorem msg1_payload (hs : s.length = publicKeyLen + tagLen) :
    (k.toList ++ s ++ p).drop (publicKeyLen + publicKeyLen + tagLen) = p :=
  List.drop_left' (by simp [publicKeyLen, tagLen, hs])

/-- A message of the right length is its leading key and its two ciphertexts. -/
theorem msg1_eq (h : msg.length = msg1Len) :
    msg = (leadingKey msg).bytes.toList ++ (msg.drop publicKeyLen).take (publicKeyLen + tagLen) ++
      msg.drop (publicKeyLen + publicKeyLen + tagLen) := by
  have hk : (leadingKey msg).bytes.toList = msg.take publicKeyLen :=
    ByteArr.toList_ofBytes (by simp [publicKeyLen, msg1Len, tagLen] at h ⊢; omega)
  rw [hk, Nat.add_assoc, ← List.drop_drop, List.append_assoc, List.take_append_drop,
    List.take_append_drop]

theorem msg2_eq (h : msg.length = msg2Len) :
    msg = (leadingKey msg).bytes.toList ++ msg.drop publicKeyLen := by
  have hk : (leadingKey msg).bytes.toList = msg.take publicKeyLen :=
    ByteArr.toList_ofBytes (by simp [publicKeyLen, msg2Len, tagLen] at h ⊢; omega)
  rw [hk, List.take_append_drop]

end Slices

section Inversion
variable {P : Primitives} {ini ini' : Initiator} {ek : Key32} {res res' : Responder}
  {keys : TransportKeys}

theorem Responder.rejects_iff (known : List PublicKey) (rs : PublicKey) :
    (!known.isEmpty && !known.any (fun k => k.bytes == rs.bytes)) = true ↔
      ¬ (known = [] ∨ rs ∈ known) := by
  have hm : known.any (fun k => k.bytes == rs.bytes) = true ↔ rs ∈ known := by
    rw [List.any_eq_true]
    constructor
    · rintro ⟨k, hk, hb⟩
      have he : k = rs := by
        cases k
        cases rs
        simpa using hb
      exact he ▸ hk
    · exact fun h => ⟨rs, h, by simp⟩
  simp [← Bool.not_eq_true, hm]

/-- A successful message 1 sealed the static key and the empty payload. -/
theorem Initiator.writeMessage1_ok_iff : ini.writeMessage1 P (some ek) = (.ok msg, ini') ↔
      ini.e = none ∧ ∃ encS symm1 encPayload symm2,
        ((ini.symm.mixHash P (X25519PrivateKey.publicKey P ⟨ek⟩).bytes.toList).keyed P
          (X25519PrivateKey.diffieHellman P ⟨ek⟩ ini.rs).toList).encryptAndHash P
            (ini.s.publicKey P).bytes.toList = (.ok encS, symm1) ∧
        (symm1.keyed P (ini.s.diffieHellman P ini.rs).toList).encryptAndHash P [] =
          (.ok encPayload, symm2) ∧
        msg = (X25519PrivateKey.publicKey P ⟨ek⟩).bytes.toList ++ encS ++ encPayload ∧
        ini' = { ini with symm := symm2, e := some ⟨ek⟩ } := by
  constructor
  · intro h
    unfold Initiator.writeMessage1 at h
    simp only [X25519PrivateKey.generate, SymmetricState.mixKey_eq] at h
    split at h
    · cases h
    next hstate =>
    split at h
    · cases h
    next encS symm1 hstatic =>
    split at h
    · cases h
    next encPayload symm2 hpayload =>
    cases h
    exact ⟨by simpa using hstate, encS, symm1, encPayload, symm2, hstatic, hpayload, rfl, rfl⟩
  · rintro ⟨hstate, encS, symm1, encPayload, symm2, hstatic, hpayload, rfl, rfl⟩
    simp [writeMessage1, hstate, X25519PrivateKey.generate, SymmetricState.mixKey_eq, hstatic,
      hpayload]

/-- A successful message 2 sealed the empty payload under the `ee`, `se` key. -/
theorem Responder.writeMessage2_ok_iff : res.writeMessage2 P (some ek) = (.ok (msg, keys), res') ↔
      ∃ re rs encPayload symm, res.re = some re ∧ res.rs = some rs ∧
        (((res.symm.mixHash P (X25519PrivateKey.publicKey P ⟨ek⟩).bytes.toList).keyed P
          (X25519PrivateKey.diffieHellman P ⟨ek⟩ re).toList).keyed P
          (X25519PrivateKey.diffieHellman P ⟨ek⟩ rs).toList).encryptAndHash P [] =
            (.ok encPayload, symm) ∧
        msg = (X25519PrivateKey.publicKey P ⟨ek⟩).bytes.toList ++ encPayload ∧
        keys = { send := Hkdf.block2 P symm.ck.toList [], recv := Hkdf.block1 P symm.ck.toList []
                 handshakeHash := symm.h } ∧
        res' = { res with symm := symm, re := none, rs := none } := by
  constructor
  · intro h
    unfold Responder.writeMessage2 at h
    simp only [X25519PrivateKey.generate, SymmetricState.mixKey_eq, SymmetricState.split_eq] at h
    split at h
    · cases h
    · cases h
    next re rs hre hrs =>
    split at h
    · cases h
    next encPayload symm hpayload =>
    cases h
    exact ⟨re, rs, encPayload, symm, hre, hrs, hpayload, rfl, rfl, rfl⟩
  · rintro ⟨re, rs, encPayload, symm, hre, hrs, hpayload, rfl, rfl, rfl⟩
    simp [writeMessage2, hre, hrs, X25519PrivateKey.generate, SymmetricState.mixKey_eq, hpayload,
      SymmetricState.split_eq, SymmetricState.handshakeHash]

/-- The responder accepts message 1 when both ciphertexts open, the static key
is on the whitelist, and the payload is empty. -/
theorem Responder.readMessage1_ok_iff : res.readMessage1 P msg = (.ok (), res') ↔
      msg.length = msg1Len ∧ res.re = none ∧ ∃ sBytes symm1 symm2,
        ((res.symm.mixHash P (leadingKey msg).bytes.toList).keyed P
          (res.s.diffieHellman P (leadingKey msg)).toList).decryptAndHash P
            ((msg.drop publicKeyLen).take (publicKeyLen + tagLen)) = (.ok sBytes, symm1) ∧
        sBytes.length = publicKeyLen ∧
        (res.knownInitiators = [] ∨ ⟨ByteArr.ofBytes 32 sBytes⟩ ∈ res.knownInitiators) ∧
        (symm1.keyed P (res.s.diffieHellman P ⟨ByteArr.ofBytes 32 sBytes⟩).toList).decryptAndHash P
          (msg.drop (publicKeyLen + publicKeyLen + tagLen)) = (.ok [], symm2) ∧
        res' = { res with
          symm := symm2, re := some (leadingKey msg), rs := some ⟨ByteArr.ofBytes 32 sBytes⟩ } := by
  constructor
  · intro h
    unfold Responder.readMessage1 at h
    simp only [SymmetricState.mixKey_eq, Responder.rejects_iff] at h
    split at h
    · cases h
    next hlength =>
    split at h
    · cases h
    next hstate =>
    split at h
    · cases h
    next sBytes symm1 hstatic =>
    split at h
    · cases h
    next hkey =>
    split at h
    · cases h
    next hknown =>
    split at h
    · cases h
    next pt symm2 hpayload =>
    split at h
    · cases h
    next hempty =>
    cases h
    rw [not_not.mp hempty] at hpayload
    exact ⟨not_not.mp hlength, by simpa using hstate, sBytes, symm1, symm2, hstatic,
      not_not.mp hkey, not_not.mp hknown, hpayload, rfl⟩
  · rintro ⟨hlength, hstate, sBytes, symm1, symm2, hstatic, hkey, hknown, hpayload, rfl⟩
    simp only [readMessage1, hlength, hstate, SymmetricState.mixKey_eq, hstatic, hkey,
      Responder.rejects_iff, hknown, hpayload]
    simp

/-- The initiator accepts message 2 when its payload opens to nothing. -/
theorem Initiator.readMessage2_ok_iff : ini.readMessage2 P msg = (.ok keys, ini') ↔
      msg.length = msg2Len ∧ ∃ e symm, ini.e = some e ∧
        (((ini.symm.mixHash P (leadingKey msg).bytes.toList).keyed P
          (e.diffieHellman P (leadingKey msg)).toList).keyed P
          (ini.s.diffieHellman P (leadingKey msg)).toList).decryptAndHash P (msg.drop publicKeyLen) =
            (.ok [], symm) ∧
        keys = { send := Hkdf.block1 P symm.ck.toList [], recv := Hkdf.block2 P symm.ck.toList []
                 handshakeHash := symm.h } ∧
        ini' = { ini with symm := symm, e := none } := by
  constructor
  · intro h
    unfold Initiator.readMessage2 at h
    simp only [SymmetricState.mixKey_eq, SymmetricState.split_eq] at h
    split at h
    · cases h
    next hlength =>
    split at h
    · cases h
    next e he =>
    split at h
    · cases h
    next pt symm hpayload =>
    split at h
    · cases h
    next hempty =>
    cases h
    rw [not_not.mp hempty] at hpayload
    exact ⟨not_not.mp hlength, e, symm, he, hpayload, rfl, rfl⟩
  · rintro ⟨hlength, e, symm, he, hpayload, rfl, rfl⟩
    simp [readMessage2, hlength, he, SymmetricState.mixKey_eq, hpayload, SymmetricState.split_eq,
      SymmetricState.handshakeHash]

end Inversion

end Desmos.Proto
