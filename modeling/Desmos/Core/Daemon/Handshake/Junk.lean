import Desmos.Core.Daemon.Framing

/-! # Junk in front of message 2

The session that waits for message 2 is consumed by the first attempt to read it. So the first
datagram from the server's address decides the handshake.
-/
namespace Desmos.Core
open Library Proto

/-- The turn brought a datagram, or nothing yet; the socket itself did not fail. -/
def RecvTurn.Polled (turn : RecvTurn) : Prop :=
  ∀ e, turn.recv = .error e → e.kind = .wouldBlock

/-- The datagram of this turn, if it has the server's address. -/
def RecvTurn.fromServer (server : SocketAddr) (turn : RecvTurn) : Option Bytes :=
  match turn.recv with
  | .ok (data, source) => if source = server then some data else none
  | .error _ => none

/-- The first datagram with the server's address, and the clock when it came in. -/
def firstFromServer (server : SocketAddr) (turns : List RecvTurn) : Option (Bytes × UInt64) :=
  turns.findSome? fun turn => (turn.fromServer server).map fun data => (data, turn.nowMs)

/-- Either end seals with the key that the other one opens with. -/
structure Crossed (a b : Session Established) : Prop where
  sends : a.state.sendKey = b.state.recvKey
  receives : a.state.recvKey = b.state.sendKey

/-- The handshake returned the session that the server shares. -/
def EstablishedWith (peer : Session Established) (r : Except IoError (Session Established)) : Prop :=
  ∃ session, r = .ok session ∧ Crossed session peer

/-- The waiting initiator takes the datagram for message 2 and derives the keys of the server. -/
def Answers (P : Primitives) (next : Session Handshaking) (peer : Session Established)
    (data : Bytes) (nowMs : UInt64) : Prop :=
  ∃ outbound session, next.advance P none (some (data.take handshakeBufLen)) nowMs =
    .ok (.established outbound session) ∧ Crossed session peer

section Loop
variable {P : Primitives} {server : SocketAddr} {next : Session Handshaking}
  {peer : Session Established} {turn : RecvTurn} {data : Bytes}

theorem RecvTurn.fromServer_eq_some_iff :
    turn.fromServer server = some data ↔ turn.recv = .ok (data, server) := by
  rw [fromServer]
  cases hr : turn.recv with
  | error e => simp
  | ok received =>
    obtain ⟨bytes, source⟩ := received
    by_cases hs : source = server
    · simp [hs]
    · simp [hs]

theorem RecvTurn.skipped_of_fromServer (hpoll : turn.Polled) (h : turn.fromServer server = none) :
    turn.Skipped server := by
  rw [Skipped]
  cases hr : turn.recv with
  | error e => exact hpoll e hr
  | ok received =>
    obtain ⟨bytes, source⟩ := received
    simpa [fromServer, hr] using h

theorem awaitMsg2_decides (hturn : turn.recv = .ok (data, server)) (turns : List RecvTurn) :
    EstablishedWith peer (awaitMsg2 P server next (turn :: turns)) ↔
      Answers P next peer data turn.nowMs := by
  simp only [awaitMsg2, hturn, ne_eq, not_true_eq_false, if_false]
  cases hadv : next.advance P none (some (data.take handshakeBufLen)) turn.nowMs with
  | error e => simp [EstablishedWith, Answers, hadv]
  | ok outcome =>
    cases outcome with
    | needsMore outbound waiting => simp [EstablishedWith, Answers, hadv]
    | established outbound session => simp [EstablishedWith, Answers, hadv]

/-- In front of the answer stand some turns. If one of them has the server's address, the first of
these decides; if none has, the answer does. -/
theorem awaitMsg2_iff {before : List RecvTurn} (hbefore : ∀ turn ∈ before, turn.Polled)
    (hturn : turn.recv = .ok (data, server)) (hgenuine : Answers P next peer data turn.nowMs)
    (rest : List RecvTurn) :
    EstablishedWith peer (awaitMsg2 P server next (before ++ turn :: rest)) ↔
      ∀ junk nowMs, firstFromServer server before = some (junk, nowMs) →
        Answers P next peer junk nowMs := by
  induction before with
  | nil => simp [firstFromServer, awaitMsg2_decides hturn, hgenuine]
  | cons t before ih =>
    have hrest := ih fun t' ht' => hbefore t' (List.mem_cons_of_mem _ ht')
    cases ht : t.fromServer server with
    | none =>
      have hskip := RecvTurn.skipped_of_fromServer (hbefore t List.mem_cons_self) ht
      have hone : ∀ t' ∈ [t], t'.Skipped server := by simpa using hskip
      rw [List.cons_append, ← List.singleton_append, awaitMsg2_skipped hone, hrest]
      simp [firstFromServer, ht]
    | some junk =>
      rw [List.cons_append, awaitMsg2_decides (RecvTurn.fromServer_eq_some_iff.mp ht)]
      simp [firstFromServer, ht]

end Loop

section Genuine
variable {P : Primitives} {r r' : ClientRegistry} {id sid : SessionId} {entropyR : Option Key32}
  {privateKey : X25519PrivateKey} {msg1 msg2 : Bytes} {next : Session Handshaking}
  {nowR : UInt64} {peer : Session Established} {env : HandshakeEnv}

theorem answers_of_accept (hP : P.LawfulAead) (hD : P.DhCommutes)
    (hadv : (Session.newInitiator P id privateKey (r.staticKey.publicKey P) r.prologue).advance P
      env.entropy none env.nowMs = .ok (.needsMore msg1 next))
    (hacc : r.acceptClientMsg1 P entropyR msg1 nowR = (.ok (sid, msg2), r'))
    (hpeer : r'.table.get sid = some (.established peer)) (nowMs : UInt64) :
    Answers P next peer msg2 nowMs := by
  obtain ⟨hl, keysI, keysR, hsend, hrecv, htable, hcompl⟩ :=
    ClientRegistry.accept_completes hP hD hadv hacc
  have htake : msg2.take handshakeBufLen = msg2 :=
    List.take_of_length_le (hl.trans_le (by decide))
  have hset := SessionTable.get_set_self r.table (.established (freshSession sid keysR nowR))
  rw [htable] at hpeer
  obtain rfl := AnySession.established.inj (Option.some.inj (hset.symm.trans hpeer))
  refine ⟨none, freshSession id keysI nowMs, ?_, congrArg AeadKey.mk hsend,
    congrArg AeadKey.mk hrecv⟩
  rw [htake]
  exact hcompl nowMs

end Genuine

/-- The server's answer to message 1 is among the turns before the deadline. The handshake returns
the session that the server has created exactly when the first datagram with the server's address is
an answer, if there is one in front of this answer. -/
theorem clientHandshake_completes_iff (P : Primitives) (hP : P.LawfulAead) (hD : P.DhCommutes)
    (env : HandshakeEnv) (sock : UdpSocket) (server : SocketAddr) (privateKey : X25519PrivateKey)
    (id : SessionId) (r : ClientRegistry) (msg1 : Bytes) (next : Session Handshaking)
    (hadv : (Session.newInitiator P id privateKey (r.staticKey.publicKey P) r.prologue).advance P
      env.entropy none env.nowMs = .ok (.needsMore msg1 next)) (hsend : env.sendTo = .ok ())
    (entropyR : Option Key32) (nowR : UInt64) (sid : SessionId) (msg2 : Bytes) (r' : ClientRegistry)
    (hacc : r.acceptClientMsg1 P entropyR msg1 nowR = (.ok (sid, msg2), r'))
    (peer : Session Established) (hpeer : r'.table.get sid = some (.established peer))
    (before rest : List RecvTurn) (nowMs : UInt64)
    (hturns : env.turns = before ++ ⟨.ok (msg2, server), nowMs⟩ :: rest)
    (hbefore : ∀ turn ∈ before, turn.Polled) :
    EstablishedWith peer (clientHandshake P env sock server privateKey (r.staticKey.publicKey P) id
        r.prologue).result ↔
      ∀ junk now, firstFromServer server before = some (junk, now) →
        Answers P next peer junk now := by
  rw [clientHandshake_of_written hadv hsend, hturns]
  exact awaitMsg2_iff hbefore rfl (answers_of_accept hP hD hadv hacc hpeer nowMs) rest

namespace Sample

/-- The answer of the fresh server to its client. -/
def genuine : RecvTurn := ⟨.ok (msg2 server.registry clientKey, udp.localAddr), 0⟩

def junk (source : SocketAddr) : RecvTurn := ⟨.ok ([], source), 0⟩

def waiting (turns : List RecvTurn) : ClientHandshakeOutcome :=
  clientHandshake .transparent { handshakeEnv with turns := turns } ⟨addr 1, none⟩ udp.localAddr
    clientKey (serverKey.publicKey .transparent) clientSessionId daemonPrologue

/-- The fresh server has answered the client, and holds its own end of the session. -/
structure Answered (next : Session Handshaking) (r' : ClientRegistry)
    (peer : Session Established) : Prop where
  written : (initiator clientKey).advance .transparent handshakeEnv.entropy none
    handshakeEnv.nowMs = .ok (.needsMore (msg1 clientKey) next)
  accepted : server.registry.acceptClientMsg1 .transparent turn.entropy (msg1 clientKey)
    turn.nowMs = (.ok (1, msg2 server.registry clientKey), r')
  created : r'.table.get 1 = some (.established peer)

theorem answered_exists : ∃ next r' peer, Answered next r' peer := by
  obtain ⟨next, hadv⟩ := advance_msg1 clientKey
  obtain ⟨r', keysI, keysR, hacc, -, htable⟩ := accepts clientKey rfl rfl rfl rfl server_finds_one
  refine ⟨next, r', freshSession 1 keysR turn.nowMs, hadv, hacc, ?_⟩
  rw [htable]
  exact SessionTable.get_set_self _ _

end Sample

/-- Junk from another address is skipped. -/
theorem clientHandshake_completes_other : ∃ next r' peer, Sample.Answered next r' peer ∧
    EstablishedWith peer
      (Sample.waiting [Sample.junk (Sample.addr 9), Sample.genuine]).result := by
  obtain ⟨next, r', peer, h⟩ := Sample.answered_exists
  refine ⟨next, r', peer, h, ?_⟩
  have hiff := clientHandshake_completes_iff .transparent Primitives.transparent_lawfulAead
    Primitives.transparent_dhCommutes
    { Sample.handshakeEnv with turns := [Sample.junk (Sample.addr 9), Sample.genuine] }
    ⟨Sample.addr 1, none⟩ Sample.udp.localAddr Sample.clientKey clientSessionId
    Sample.server.registry _ next h.written rfl Sample.turn.entropy Sample.turn.nowMs 1 _ r'
    h.accepted peer h.created [Sample.junk (Sample.addr 9)] [] 0 rfl
    (by simp [Sample.junk, RecvTurn.Polled])
  apply hiff.mpr
  intro junk now hfirst
  have hnone : firstFromServer Sample.udp.localAddr [Sample.junk (Sample.addr 9)] = none := by decide
  exact absurd (hnone.symm.trans hfirst) (by simp)

/-- One empty datagram from the server's address, and the answer behind it is lost. -/
theorem clientHandshake_aborted_by_junk : ∃ next r' peer, Sample.Answered next r' peer ∧
    (Sample.waiting [Sample.junk Sample.udp.localAddr, Sample.genuine]).result =
      .error ⟨.other, "handshake msg2: " ++ (SessionError.handshake .badMessage).display⟩ := by
  obtain ⟨next, r', peer, h⟩ := Sample.answered_exists
  refine ⟨next, r', peer, h, ?_⟩
  obtain ⟨ek, ini, -, rfl, -⟩ := Session.advance_initiator_iff.mp h.written
  have hread : Session.advance .transparent ⟨clientSessionId, ⟨.initiator ini⟩⟩ none (some []) 0 =
      .error (.handshake .badMessage) := rfl
  have hout : Sample.waiting [Sample.junk Sample.udp.localAddr, Sample.genuine] = _ :=
    clientHandshake_of_written h.written rfl
  rw [hout]
  simp [awaitMsg2, Sample.junk, hread]

end Desmos.Core
