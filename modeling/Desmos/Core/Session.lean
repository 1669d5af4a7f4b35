import Desmos.Proto.AntiReplay
import Desmos.Proto.Handshake.Noise
import Desmos.Proto.Wire

/-! # The session typestate

A `Session S` carries its state marker as a type, so `encryptPacket` exists only on an established
session. Methods that work through interior mutability return the session they leave behind.
`encryptPacket` is cut into its atomic part, `fetchAdd`, and the rest.
-/
namespace Desmos.Core
open Library Proto

inductive SessionError where
  | handshake (e : HandshakeError)
  | crypto (e : CryptoError)
  | replay (e : ReplayError)
  | counterOverflow
  | wrongStep
  deriving DecidableEq, Repr

def SessionError.display : SessionError → String
  | .handshake e => "session: handshake: " ++ e.display
  | .crypto e => "session: crypto: " ++ e.display
  | .replay e => "session: " ++ e.display
  | .counterOverflow => "session: send counter overflow"
  | .wrongStep => "session: advance called in wrong step"

inductive HandshakeInner where
  | initiator (ini : Initiator)
  | responder (res : Responder)
  deriving DecidableEq

structure Handshaking where
  inner : HandshakeInner
  deriving DecidableEq

structure Established where
  sendKey : AeadKey
  recvKey : AeadKey
  sendCounter : UInt64
  recvWindow : AntiReplayWindow
  establishedAtMs : UInt64
  handshakeHash : Key32
  deriving DecidableEq

structure Closed where
  deriving DecidableEq

structure Session (S : Type) where
  id : SessionId
  state : S
  deriving DecidableEq

structure Rekeying where
  old : Established
  new : Session Handshaking
  deriving DecidableEq

inductive HandshakeOutcome where
  | needsMore (outbound : Bytes) (next : Session Handshaking)
  | established (outbound : Option Bytes) (session : Session Established)
  deriving DecidableEq

inductive RekeyOutcome where
  | needsMore (outbound : Bytes) (next : Session Rekeying)
  | finished (session : Session Established)
  deriving DecidableEq

def rekeyIntervalMs : UInt64 := 120000

/-- Whether a session is due for a rekey; a clock that went back is not. -/
def isDue (establishedAtMs nowMs : UInt64) : Bool :=
  if establishedAtMs ≤ nowMs then decide (nowMs - establishedAtMs ≥ rekeyIntervalMs) else false

def buildNonce (seq : UInt64) : Nonce := nonceBytes seq

/-- Associated data: session id, then sequence number, both big-endian. -/
def buildAad (id : SessionId) (seq : UInt64) : Bytes := toBe 2 id.toNat ++ toBe 8 seq.toNat

theorem buildNonce_injective : Function.Injective buildNonce := by
  intro a b h
  have hl := congrArg Vector.toList h
  simp only [buildNonce, nonceBytes] at hl
  rw [ByteArr.toList_ofBytes (by simp), ByteArr.toList_ofBytes (by simp)] at hl
  exact UInt64.toNat_inj.mp (toBe_inj a.toNat_lt b.toNat_lt (List.append_cancel_left hl))

variable {seq : UInt64} {P : Primitives} {s : Session Established} {pt ct : Bytes}

theorem buildAad_inj {id id' : SessionId} {seq' : UInt64}
    (h : buildAad id seq = buildAad id' seq') : id = id' ∧ seq = seq' := by
  obtain ⟨hi, hs⟩ := toBe_append_inj id.toNat_lt id'.toNat_lt h
  exact ⟨UInt16.toNat_inj.mp hi, UInt64.toNat_inj.mp (toBe_inj seq.toNat_lt seq'.toNat_lt hs)⟩

def establishedFromKeys (id : SessionId) (keys : TransportKeys) (nowMs : UInt64) :
    Except SessionError (Session Established) :=
  match AeadKey.new keys.send.toList with
  | .error e => .error (.crypto e)
  | .ok sendKey =>
    match AeadKey.new keys.recv.toList with
    | .error e => .error (.crypto e)
    | .ok recvKey => .ok
      { id := id
        state :=
          { sendKey := sendKey, recvKey := recvKey, sendCounter := 0
            recvWindow := AntiReplayWindow.new, establishedAtMs := nowMs
            handshakeHash := keys.handshakeHash } }

/-- The session both ends start from: fresh counter, empty window. -/
def freshSession (id : SessionId) (keys : TransportKeys) (nowMs : UInt64) : Session Established :=
  { id := id
    state :=
      { sendKey := ⟨keys.send⟩, recvKey := ⟨keys.recv⟩, sendCounter := 0
        recvWindow := AntiReplayWindow.new, establishedAtMs := nowMs
        handshakeHash := keys.handshakeHash } }

theorem establishedFromKeys_eq (id : SessionId) (keys : TransportKeys) (nowMs : UInt64) :
    establishedFromKeys id keys nowMs = .ok (freshSession id keys nowMs) := by
  simp [establishedFromKeys, freshSession]

namespace Session

variable (P : Primitives)

def newInitiator (id : SessionId) (staticKey : X25519PrivateKey)
    (responderStatic : PublicKey) (prologue : Bytes) : Session Handshaking :=
  { id := id, state := ⟨.initiator (Initiator.new P staticKey responderStatic prologue)⟩ }

def newResponder (id : SessionId) (staticKey : X25519PrivateKey)
    (knownInitiators : List PublicKey) (prologue : Bytes) : Session Handshaking :=
  { id := id, state := ⟨.responder (Responder.new P staticKey knownInitiators prologue)⟩ }

/-- One message of the handshake. The session is consumed: on an error path
nothing of it is left. -/
def advance (s : Session Handshaking) (entropy : Option Key32)
    (peerMsg : Option Bytes) (nowMs : UInt64) : Except SessionError HandshakeOutcome :=
  match s.state.inner with
  | .initiator ini =>
    match peerMsg with
    | none =>
      match ini.writeMessage1 P entropy with
      | (.error e, _) => .error (.handshake e)
      | (.ok msg1, ini) => .ok (.needsMore msg1 { id := s.id, state := ⟨.initiator ini⟩ })
    | some msg2 =>
      match ini.readMessage2 P msg2 with
      | (.error e, _) => .error (.handshake e)
      | (.ok keys, _) =>
        match establishedFromKeys s.id keys nowMs with
        | .error e => .error e
        | .ok session => .ok (.established none session)
  | .responder res =>
    match peerMsg with
    | none => .error .wrongStep
    | some msg1 =>
      match res.readMessage1 P msg1 with
      | (.error e, _) => .error (.handshake e)
      | (.ok _, res) =>
        match res.writeMessage2 P entropy with
        | (.error e, _) => .error (.handshake e)
        | (.ok (msg2, keys), _) =>
          match establishedFromKeys s.id keys nowMs with
          | .error e => .error e
          | .ok session => .ok (.established (some msg2) session)

variable (s : Session Established)

/-- The atomic `fetch_add` on the send counter: it wraps. -/
def fetchAdd : UInt64 × Session Established :=
  (s.state.sendCounter, { s with state := { s.state with sendCounter := s.state.sendCounter + 1 } })

/-- What `encryptPacket` does with the number it drew. -/
def sealWith (seq : UInt64) (plaintext : Bytes) : Except SessionError (UInt64 × Bytes) :=
  if seq = 0xFFFFFFFFFFFFFFFF then .error .counterOverflow
  else match s.state.sendKey.sealInPlace P (buildNonce seq) (buildAad s.id seq) plaintext with
  | .error e => .error (.crypto e)
  | .ok buf => .ok (seq, buf)

def encryptPacket (plaintext : Bytes) :
    Except SessionError (UInt64 × Bytes) × Session Established :=
  let (seq, s) := s.fetchAdd
  (s.sealWith P seq plaintext, s)

def encryptData (plaintext : Bytes) : Except SessionError Bytes × Session Established :=
  let (r, s) := s.encryptPacket P plaintext
  (r.map Prod.snd, s)

end Session

/-- The shared body of `decryptData` and `decryptWithOld`: the window is checked
and updated first, the ciphertext is opened afterwards. -/
def Established.receive (P : Primitives) (id : SessionId) (st : Established) (seq : UInt64)
    (ciphertext : Bytes) : Except SessionError Bytes × Established :=
  match st.recvWindow.checkAndUpdate seq with
  | (.error e, window) => (.error (.replay e), { st with recvWindow := window })
  | (.ok _, window) =>
    let st := { st with recvWindow := window }
    match st.recvKey.openInPlace P (buildNonce seq) (buildAad id seq) ciphertext with
    | .error e => (.error (.crypto e), st)
    | .ok pt => (.ok pt, st)

namespace Session

def decryptData (P : Primitives) (s : Session Established) (seq : UInt64) (ciphertext : Bytes) :
    Except SessionError Bytes × Session Established :=
  let (r, st) := s.state.receive P s.id seq ciphertext
  (r, { s with state := st })

def needsRekey (s : Session Established) (nowMs : UInt64) : Bool :=
  isDue s.state.establishedAtMs nowMs

def handshakeHash (s : Session Established) : Key32 := s.state.handshakeHash

def sendCounter (s : Session Established) : UInt64 := s.state.sendCounter

def beginRekey (P : Primitives) (s : Session Established) (staticKey : X25519PrivateKey)
    (responderStatic : PublicKey) (prologue : Bytes) : Session Rekeying :=
  { id := s.id
    state := { old := s.state, new := newInitiator P s.id staticKey responderStatic prologue } }

def close (s : Session Established) : Session Closed := { id := s.id, state := {} }

def decryptWithOld (P : Primitives) (s : Session Rekeying) (seq : UInt64) (ciphertext : Bytes) :
    Except SessionError Bytes × Session Rekeying :=
  let (r, old) := s.state.old.receive P s.id seq ciphertext
  (r, { s with state := { s.state with old := old } })

def advanceRekey (P : Primitives) (s : Session Rekeying) (entropy : Option Key32)
    (peerMsg : Option Bytes) (nowMs : UInt64) : Except SessionError RekeyOutcome :=
  match s.state.new.advance P entropy peerMsg nowMs with
  | .error e => .error e
  | .ok (.needsMore outbound next) =>
    .ok (.needsMore outbound { id := s.id, state := { s.state with new := next } })
  | .ok (.established _ session) => .ok (.finished session)

end Session

section Receive
variable {P : Primitives} {id : SessionId} {st : Established} {seq : UInt64} {ct pt : Bytes}

/-- Every offered packet updates the window, whether or not it opens. -/
theorem Established.receive_state (P : Primitives) (id : SessionId) (st : Established)
    (seq : UInt64) (ct : Bytes) :
    (st.receive P id seq ct).2 =
      { st with recvWindow := (st.recvWindow.checkAndUpdate seq).2 } := by
  unfold receive
  rcases st.recvWindow.checkAndUpdate seq with ⟨_ | _, window⟩
  · rfl
  · cases h : st.recvKey.openInPlace P (buildNonce seq) (buildAad id seq) ct with
    | error e => simp only [h]
    | ok pt => simp only [h]

theorem Established.receive_ok_iff :
    (st.receive P id seq ct).1 = .ok pt ↔ st.recvWindow.wouldAccept seq = true ∧
      st.recvKey.openInPlace P (buildNonce seq) (buildAad id seq) ct = .ok pt := by
  rw [AntiReplayWindow.wouldAccept_iff]
  unfold receive
  rcases st.recvWindow.checkAndUpdate seq with ⟨_ | _, window⟩
  · simp
  · cases ho : st.recvKey.openInPlace P (buildNonce seq) (buildAad id seq) ct with
    | error e => simp [ho]
    | ok pt => simp [ho]

theorem Session.decryptData_state (P : Primitives) (s : Session Established) (seq : UInt64)
    (ct : Bytes) : (s.decryptData P seq ct).2 = { s with
      state := { s.state with recvWindow := (s.state.recvWindow.checkAndUpdate seq).2 } } := by
  simp only [decryptData, Established.receive_state]

theorem Session.decryptData_id (P : Primitives) (s : Session Established) (seq : UInt64)
    (ct : Bytes) : (s.decryptData P seq ct).2.id = s.id := by
  rw [decryptData_state]

theorem Session.decryptData_recvWindow (P : Primitives) (s : Session Established) (seq : UInt64)
    (ct : Bytes) : (s.decryptData P seq ct).2.state.recvWindow =
      (s.state.recvWindow.checkAndUpdate seq).2 := by
  rw [decryptData_state]

theorem Session.decryptData_ok_iff {s : Session Established} :
    (s.decryptData P seq ct).1 = .ok pt ↔ s.state.recvWindow.wouldAccept seq = true ∧
      s.state.recvKey.openInPlace P (buildNonce seq) (buildAad s.id seq) ct = .ok pt :=
  Established.receive_ok_iff

end Receive

theorem Session.sealWith_ok_iff {n : UInt64} :
    s.sealWith P seq pt = .ok (n, ct) ↔ n = seq ∧ seq ≠ 0xFFFFFFFFFFFFFFFF ∧
      s.state.sendKey.sealInPlace P (buildNonce seq) (buildAad s.id seq) pt = .ok ct := by
  unfold sealWith
  by_cases h : seq = 0xFFFFFFFFFFFFFFFF
  · simp [h]
  · cases s.state.sendKey.sealInPlace P (buildNonce seq) (buildAad s.id seq) pt with
    | error e => simp [h]
    | ok buf => simpa [h] using fun _ => eq_comm

theorem Session.encryptPacket_ok_iff : (s.encryptPacket P pt).1 = .ok (seq, ct) ↔
      seq = s.state.sendCounter ∧ seq ≠ 0xFFFFFFFFFFFFFFFF ∧
      s.state.sendKey.sealInPlace P (buildNonce seq) (buildAad s.id seq) pt = .ok ct := by
  change s.fetchAdd.2.sealWith P s.state.sendCounter pt = .ok (seq, ct) ↔ _
  rw [sealWith_ok_iff]
  constructor
  · rintro ⟨rfl, h⟩
    exact ⟨rfl, h⟩
  · rintro ⟨rfl, h⟩
    exact ⟨rfl, h⟩

end Desmos.Core
