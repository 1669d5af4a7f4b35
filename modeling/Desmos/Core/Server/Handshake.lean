import Desmos.Core.Server.Clients
import Desmos.Proto.Handshake.Agreement

/-! # One handshake between a client and the registry

A client whose message 1 the registry accepts completes the handshake with the answer, and both ends
start from crossed transport keys.
-/
namespace Desmos.Core
open Library Proto

variable {P : Primitives} {r r' : ClientRegistry} {id sid : SessionId}
  {entropy entropyR : Option Key32} {privateKey : X25519PrivateKey} {serverPub : PublicKey}
  {prologue msg1 msg2 : Bytes} {next : Session Handshaking} {nowMs nowR : UInt64}

theorem Session.advance_initiator_iff :
    (Session.newInitiator P id privateKey serverPub prologue).advance P entropy none nowMs =
        .ok (.needsMore msg1 next) ↔
      ∃ ek ini1, entropy = some ek ∧ next = ⟨id, ⟨.initiator ini1⟩⟩ ∧
        (Initiator.new P privateKey serverPub prologue).writeMessage1 P (some ek) =
          (.ok msg1, ini1) := by
  simp only [Session.advance, Session.newInitiator]
  cases entropy with
  | none => simp [Initiator.writeMessage1, Initiator.new, X25519PrivateKey.generate]
  | some ek =>
    rcases hw : (Initiator.new P privateKey serverPub prologue).writeMessage1 P (some ek) with
      ⟨e | m, ini1⟩
    · simp [hw]
    · simp [hw, eq_comm, and_comm]

theorem Session.advance_initiator_length (hP : P.LawfulAead)
    (hadv : (Session.newInitiator P id privateKey serverPub prologue).advance P entropy none nowMs =
      .ok (.needsMore msg1 next)) : msg1.length = msg1Len := by
  obtain ⟨ek, ini1, -, -, hw⟩ := advance_initiator_iff.mp hadv
  exact Initiator.writeMessage1_length hP hw

theorem Session.advance_initiator_writes (hP : P.LawfulAead) (id : SessionId)
    (privateKey : X25519PrivateKey) (serverPub : PublicKey) (prologue : Bytes) (ek : Key32)
    (nowMs : UInt64) : ∃ msg1 next,
      (Session.newInitiator P id privateKey serverPub prologue).advance P (some ek) none nowMs =
        .ok (.needsMore msg1 next) := by
  obtain ⟨msg1, ini1, hw⟩ := Initiator.writeMessage1_succeeds hP
    (show (Initiator.new P privateKey serverPub prologue).e = none from rfl) ek
  exact ⟨msg1, _, advance_initiator_iff.mpr ⟨ek, ini1, rfl, rfl, hw⟩⟩

theorem ClientRegistry.acceptClientMsg1_length
    (h : r.acceptClientMsg1 P entropyR msg1 nowR = (.ok (sid, msg2), r')) :
    msg1.length = msg1Len := by
  obtain ⟨-, cursor, session, -, hr, -⟩ := acceptClientMsg1_ok_iff.mp h
  obtain ⟨res1, keys, res2, hread, -⟩ := respond_ok_iff.mp hr
  exact (Responder.readMessage1_ok_iff.mp hread).1

/-- A client whose message 1 was accepted completes the handshake with the answer, and
the two sessions have each other's keys. -/
theorem ClientRegistry.accept_completes (hP : P.LawfulAead) (hD : P.DhCommutes)
    (hadv : (Session.newInitiator P id privateKey (r.staticKey.publicKey P) r.prologue).advance P
      entropy none nowMs = .ok (.needsMore msg1 next))
    (hacc : r.acceptClientMsg1 P entropyR msg1 nowR = (.ok (sid, msg2), r')) :
    msg2.length = msg2Len ∧ ∃ keysI keysR, keysI.send = keysR.recv ∧ keysI.recv = keysR.send ∧
      r'.table = r.table.set (.established (freshSession sid keysR nowR)) ∧
      ∀ nowMs, next.advance P none (some msg2) nowMs =
        .ok (.established none (freshSession id keysI nowMs)) := by
  obtain ⟨ek, ini1, rfl, rfl, hw1⟩ := Session.advance_initiator_iff.mp hadv
  obtain ⟨-, cursor, session, -, hr, rfl⟩ := acceptClientMsg1_ok_iff.mp hacc
  obtain ⟨res1, keysR, res2, hr1, hw2, rfl⟩ := respond_ok_iff.mp hr
  obtain ⟨hab, he, hs, hre, hrs⟩ := Responder.readMessage1_agree hP hD
    (new_agree P privateKey r.staticKey r.knownClients r.prologue) rfl hw1 hr1
  cases entropyR with
  | none => simp [Responder.writeMessage2, hre, hrs, X25519PrivateKey.generate] at hw2
  | some rk =>
    obtain ⟨m, kR, keysI, symmR, symmI, hw, hr2, -, hsend, hrecv, -⟩ :=
      message2_agreement hP hD ini1 res1 ek rk hab he hre (hs ▸ hrs)
    obtain ⟨⟨rfl, rfl⟩, -⟩ : (m = msg2 ∧ kR = keysR) ∧ _ = res2 := by simpa [hw] using hw2
    refine ⟨(Initiator.readMessage2_ok_iff.mp hr2).1, keysI, kR, hsend, hrecv,
      rfl, fun now => ?_⟩
    simp only [Session.advance, hr2, establishedFromKeys_eq]

/-- The responder reads message 1 under the registry's keys, whatever id it runs under. -/
def ClientRegistry.Reads (P : Primitives) (r : ClientRegistry) (msg1 : Bytes) : Prop :=
  ∃ res, (Responder.new P r.staticKey r.knownClients r.prologue).readMessage1 P msg1 = (.ok (), res)

/-- A message 1 that was read is answered under every id and with every ephemeral key. -/
theorem ClientRegistry.Reads.respond (hP : P.LawfulAead) (h : r.Reads P msg1) (id : SessionId)
    (rk : Key32) (nowMs : UInt64) : ∃ msg2 keys,
      r.respond P id (some rk) msg1 nowMs = .ok (msg2, freshSession id keys nowMs) := by
  obtain ⟨res, hread⟩ := h
  obtain ⟨-, -, sBytes, symm1, symm2, -, -, -, -, hres⟩ := Responder.readMessage1_ok_iff.mp hread
  obtain ⟨re, rs, hre, hrs⟩ : ∃ re rs, res.re = some re ∧ res.rs = some rs := by
    rw [hres]
    exact ⟨_, _, rfl, rfl⟩
  obtain ⟨encPayload, symm, hs⟩ := SymmetricState.encryptAndHash_keyed_ok hP
    ((res.symm.mixHash P (X25519PrivateKey.publicKey P ⟨rk⟩).bytes.toList).keyed P
      (X25519PrivateKey.diffieHellman P ⟨rk⟩ re).toList)
    (X25519PrivateKey.diffieHellman P ⟨rk⟩ rs).toList [] (by simp)
  exact ⟨_, _, respond_ok_iff.mpr ⟨res, _, _, hread,
    Responder.writeMessage2_ok_iff.mpr ⟨re, rs, encPayload, symm, hre, hrs, hs, rfl, rfl, rfl⟩,
    rfl⟩⟩

/-- Below the cap and with an id left, a message 1 that is read is accepted. -/
theorem ClientRegistry.Reads.accept (hP : P.LawfulAead) (h : r.Reads P msg1)
    (hcap : r.atCapacity = false) {cursor : UInt16}
    (hid : findId r.table 65536 r.nextId = (some sid, cursor)) (rk : Key32) (nowR : UInt64) :
    ∃ msg2 r', r.acceptClientMsg1 P (some rk) msg1 nowR = (.ok (sid, msg2), r') := by
  obtain ⟨msg2, keys, hr⟩ := h.respond hP sid rk nowR
  exact ⟨msg2, _, acceptClientMsg1_ok_iff.mpr ⟨hcap, cursor, _, hid, hr, rfl⟩⟩

theorem ClientRegistry.reads_of_accept
    (h : r.acceptClientMsg1 P entropyR msg1 nowR = (.ok (sid, msg2), r')) : r.Reads P msg1 := by
  obtain ⟨-, cursor, session, -, hr, -⟩ := acceptClientMsg1_ok_iff.mp h
  obtain ⟨res1, keys, res2, hread, -, -⟩ := respond_ok_iff.mp hr
  exact ⟨res1, hread⟩

/-- The registry reads the message 1 of its own clients. -/
theorem ClientRegistry.reads_of_advance (hP : P.LawfulAead) (hD : P.DhCommutes)
    (hadv : (Session.newInitiator P id privateKey (r.staticKey.publicKey P) r.prologue).advance P
      entropy none nowMs = .ok (.needsMore msg1 next))
    (hk : r.knownClients = [] ∨ privateKey.publicKey P ∈ r.knownClients) : r.Reads P msg1 := by
  obtain ⟨ek, ini1, rfl, rfl, hw1⟩ := Session.advance_initiator_iff.mp hadv
  obtain ⟨m, i, res1, hw, hr1⟩ := message1_agreement hP hD
    (Initiator.new P privateKey (r.staticKey.publicKey P) r.prologue)
    (Responder.new P r.staticKey r.knownClients r.prologue) ek
    (new_agree P privateKey r.staticKey r.knownClients r.prologue) rfl rfl rfl hk
  obtain ⟨rfl, rfl⟩ : m = msg1 ∧ i = ini1 := by simpa [hw] using hw1
  exact ⟨res1, hr1⟩

/-- The registry accepts the client of its own server, if there is room for it. -/
theorem ClientRegistry.accept_succeeds (hP : P.LawfulAead) (hD : P.DhCommutes)
    (hadv : (Session.newInitiator P id privateKey (r.staticKey.publicKey P) r.prologue).advance P
      entropy none nowMs = .ok (.needsMore msg1 next)) (hcap : r.atCapacity = false)
    (hk : r.knownClients = [] ∨ privateKey.publicKey P ∈ r.knownClients) {cursor : UInt16}
    (hid : findId r.table 65536 r.nextId = (some sid, cursor)) (rk : Key32) (nowR : UInt64) :
    ∃ msg2 r', r.acceptClientMsg1 P (some rk) msg1 nowR = (.ok (sid, msg2), r') :=
  (reads_of_advance hP hD hadv hk).accept hP hcap hid rk nowR

namespace Sample

def clientKey : X25519PrivateKey := ⟨Vector.replicate 32 1⟩
def serverKey : X25519PrivateKey := ⟨Vector.replicate 32 2⟩

def written : Except SessionError HandshakeOutcome → Bytes
  | .ok (.needsMore outbound _) => outbound
  | _ => []

def clientMsg1 (r : ClientRegistry) (key : X25519PrivateKey) : Bytes :=
  written ((Session.newInitiator .transparent 1 key (r.staticKey.publicKey .transparent)
    r.prologue).advance .transparent (some (Vector.replicate 32 3)) none 0)

theorem clientMsg1_reads (r : ClientRegistry) (hknown : r.knownClients = []) (key : X25519PrivateKey) :
    r.Reads .transparent (clientMsg1 r key) := by
  obtain ⟨m, next, hadv⟩ := Session.advance_initiator_writes Primitives.transparent_lawfulAead 1 key
    (r.staticKey.publicKey .transparent) r.prologue (Vector.replicate 32 3) 0
  have hm : clientMsg1 r key = m := congrArg written hadv
  rw [hm]
  exact ClientRegistry.reads_of_advance Primitives.transparent_lawfulAead
    Primitives.transparent_dhCommutes hadv (Or.inl hknown)

end Sample

end Desmos.Core
