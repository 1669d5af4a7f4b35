import Desmos.Core.Daemon.Client
import Desmos.Core.Daemon.ServerLoop
import Desmos.Core.Server.Handshake

/-! # The framing of the handshake

`client_handshake` puts message 1 on the wire as the initiator wrote it, and `handle_incoming` reads
a header off the front of every datagram. So the registry never sees the message the client wrote.
-/
namespace Desmos.Core
open Library Proto

/-- The rate limit and the client cap let a handshake through, and the whitelist is
empty. -/
structure Admitted (env : IncomingEnv) (st : ServerState) (source : SocketAddr) : Prop where
  rateLimit : (st.rateLimiter.tryAdmit source.ip env.nowMs).1 = true
  capacity : st.registry.atCapacity = false
  whitelist : st.registry.knownClients = []

/-- The datagram installs a session under a free id, and what is sent back completes the handshake of
the client. -/
def Answered (P : Primitives) (udp : UdpSocket) (env : IncomingEnv) (st : ServerState)
    (next : Session Handshaking) (d : Datagram) : Prop :=
  ∃ sid session msg2 completed,
    st.registry.table.get sid = none ∧
    (handleIncoming P udp env st d.payload d.src).state.registry.table.get sid =
      some (.established session) ∧
    (handleIncoming P udp env st d.payload d.src).sent = [⟨udp.localAddr, d.src, msg2⟩] ∧
    awaitMsg2 P d.dst next [⟨.ok (msg2, d.dst), env.nowMs⟩] = .ok completed

/-- Both ends agree on the framing of one client datagram: the server reads it as a handshake, its
registry gets message 1 as it was written, and an admitted client gets a session and an answer that
completes its handshake. -/
structure FramingAgrees (P : Primitives) (udp : UdpSocket) (env : IncomingEnv) (st : ServerState)
    (msg1 : Bytes) (next : Session Handshaking) (d : Datagram) : Prop where
  recognised : ∃ header, Header.decode (d.payload.take headerLen) = .ok header ∧
    header.packetType = .handshake
  handed : d.payload.drop headerLen = msg1
  answered : Admitted env st d.src → Answered P udp env st next d

section Raw
variable {P : Primitives} {udp : UdpSocket} {env : IncomingEnv} {st : ServerState}
  {msg1 : Bytes} {next : Session Handshaking}

theorem handleIncoming_silent_of_length {data : Bytes} (source : SocketAddr)
    (h : data.length ≠ headerLen + msg1Len) :
    (handleIncoming P udp env st data source).Silent st := by
  rcases handleIncoming_silent_or_accepted P udp env st data source with hs | ⟨sid, msg2, ha⟩
  · exact hs
  · have hl := ClientRegistry.acceptClientMsg1_length ha.accept
    have hpos : 0 < msg1Len := by decide
    rw [List.length_drop] at hl
    omega

theorem raw_message1_disagrees (hl : msg1.length = msg1Len) (src dst : SocketAddr) :
    ¬ FramingAgrees P udp env st msg1 next ⟨src, dst, msg1⟩ := by
  intro h
  have hd := congrArg List.length h.handed
  rw [List.length_drop, hl] at hd
  exact absurd hd (by decide)

end Raw

/-- The agreement that the two files miss: with a handshake header in front of message 1
it holds, for every client of the server's own key that finds a free session id. A client that the
whitelist names is answered as one is where there is no whitelist. -/
theorem framed_message1_agrees {P : Primitives} (hP : P.LawfulAead) (hD : P.DhCommutes)
    {udp : UdpSocket} {env : IncomingEnv} {st : ServerState} {id sid : SessionId}
    {privateKey : X25519PrivateKey} {entropy : Option Key32} {rk : Key32} {nowMs : UInt64}
    {msg1 : Bytes} {next : Session Handshaking} {cursor : UInt16}
    (hadv : (Session.newInitiator P id privateKey (st.registry.staticKey.publicKey P)
      st.registry.prologue).advance P entropy none nowMs = .ok (.needsMore msg1 next))
    (hent : env.entropy = some rk)
    (hid : ClientRegistry.findId st.registry.table 65536 st.registry.nextId = (some sid, cursor))
    (src dst : SocketAddr) :
    let d : Datagram := ⟨src, dst, (Header.new .handshake id).bytes ++ msg1⟩
    FramingAgrees P udp env st msg1 next d ∧
    ((st.rateLimiter.tryAdmit src.ip env.nowMs).1 = true → st.registry.atCapacity = false →
      (st.registry.knownClients = [] ∨ privateKey.publicKey P ∈ st.registry.knownClients) →
      Answered P udp env st next d) := by
  intro d
  have hanswered (hrate : (st.rateLimiter.tryAdmit src.ip env.nowMs).1 = true)
      (hcap : st.registry.atCapacity = false)
      (hknown : st.registry.knownClients = [] ∨
        privateKey.publicKey P ∈ st.registry.knownClients) : Answered P udp env st next d := by
    obtain ⟨msg2, r', hacc⟩ := ClientRegistry.accept_succeeds hP hD hadv hcap hknown hid rk env.nowMs
    obtain ⟨hl, keysI, keysR, -, -, htable, hcompl⟩ :=
      ClientRegistry.accept_completes hP hD hadv hacc
    obtain ⟨-, -, -, -, ⟨-, hfree⟩, -⟩ := ClientRegistry.findId_some_iff.mp hid
    rw [← hent] at hacc
    obtain ⟨hout, rfl⟩ := handleIncoming_accepts udp (h := Header.new .handshake id) rfl rfl
      hrate hacc
    refine ⟨sid, freshSession sid keysR env.nowMs, msg2, freshSession id keysI env.nowMs, hfree, ?_,
      hout.sent, awaitMsg2_answered hl (hcompl _) []⟩
    rw [htable]
    exact SessionTable.get_set_self _ _
  refine ⟨⟨⟨Header.new .handshake id, ?_, rfl⟩, List.drop_left' (Header.bytes_length _),
    fun ha => hanswered ha.rateLimit ha.capacity (Or.inl ha.whitelist)⟩, hanswered⟩
  rw [List.take_left' (Header.bytes_length _)]
  simpa using Header.decode_bytes_append (Header.new .handshake id) rfl []

/-- The datagram of the client never meets the framing of the server, and never gets an
answer: for all keys, in every state of the server. -/
theorem clientHandshake_framing_disagrees (P : Primitives) (hP : P.LawfulAead)
    (henv : HandshakeEnv) (ek : Key32) (hent : henv.entropy = some ek)
    (hsend : henv.sendTo = .ok ()) (sock : UdpSocket) (server : SocketAddr)
    (privateKey : X25519PrivateKey) (serverPub : PublicKey) (id : SessionId) (prologue : Bytes)
    (udp : UdpSocket) (env : IncomingEnv) (st : ServerState) :
    ∃ msg1 next d,
      (Session.newInitiator P id privateKey serverPub prologue).advance P henv.entropy none
        henv.nowMs = .ok (.needsMore msg1 next) ∧
      (clientHandshake P henv sock server privateKey serverPub id prologue).sent = [d] ∧
      ¬ FramingAgrees P udp env st msg1 next d ∧
      (handleIncoming P udp env st d.payload d.src).Silent st := by
  obtain ⟨msg1, next, hadv⟩ := Session.advance_initiator_writes hP id privateKey serverPub prologue
    ek henv.nowMs
  have hl : msg1.length = msg1Len := Session.advance_initiator_length hP hadv
  rw [← hent] at hadv
  refine ⟨msg1, next, ⟨sock.localAddr, server, msg1⟩, hadv, ?_, raw_message1_disagrees hl _ _,
    handleIncoming_silent_of_length _ ?_⟩
  · rw [clientHandshake_of_written hadv hsend]
  · rw [hl]
    decide

namespace Sample

def addr (port : UInt16) : SocketAddr := ⟨.v4 (Vector.replicate 4 10), port⟩
def udp : UdpSocket := ⟨addr 51820, none⟩
def server : ServerState :=
  .init (ClientRegistry.new serverKey [] daemonPrologue 16) PipelineMetrics.new
def turn : IncomingEnv := ⟨0, some (Vector.replicate 32 4)⟩
def handshakeEnv : HandshakeEnv := ⟨some (Vector.replicate 32 3), 0, .ok (), []⟩

variable (key : X25519PrivateKey)

def initiator : Session Handshaking :=
  Session.newInitiator .transparent clientSessionId key (serverKey.publicKey .transparent)
    daemonPrologue

def answered : Except ServerError (SessionId × Bytes) × ClientRegistry → Bytes
  | (.ok (_, outbound), _) => outbound
  | (.error _, _) => []

def msg1 : Bytes :=
  written ((initiator key).advance .transparent handshakeEnv.entropy none handshakeEnv.nowMs)

def msg2 (r : ClientRegistry) (key : X25519PrivateKey) : Bytes :=
  answered (r.acceptClientMsg1 .transparent turn.entropy (msg1 key) turn.nowMs)

theorem server_admits (port : UInt16) : Admitted turn server (addr port) :=
  ⟨rfl, rfl, rfl⟩

theorem server_finds_one :
    ClientRegistry.findId server.registry.table 65536 server.registry.nextId = (some 1, 2) :=
  ClientRegistry.findId_of_free ⟨by decide, rfl⟩

theorem advance_msg1 : ∃ next,
    (initiator key).advance .transparent handshakeEnv.entropy none handshakeEnv.nowMs =
      .ok (.needsMore (msg1 key) next) := by
  obtain ⟨m, next, h⟩ : ∃ m next, (initiator key).advance .transparent handshakeEnv.entropy none
      handshakeEnv.nowMs = .ok (.needsMore m next) :=
    Session.advance_initiator_writes Primitives.transparent_lawfulAead _ _ _ _ _ _
  have hm : msg1 key = m := congrArg written h
  exact ⟨next, hm ▸ h⟩

/-- The server accepts any client of its key while it has room. -/
theorem accepts {r : ClientRegistry} {sid : SessionId} {cursor : UInt16}
    (hkey : r.staticKey = serverKey) (hprologue : r.prologue = daemonPrologue)
    (hknown : r.knownClients = []) (hcap : r.atCapacity = false)
    (hid : ClientRegistry.findId r.table 65536 r.nextId = (some sid, cursor)) :
    ∃ r', ∃ keysI keysR : TransportKeys,
      r.acceptClientMsg1 .transparent turn.entropy (msg1 key) turn.nowMs =
        (.ok (sid, msg2 r key), r') ∧
      keysI.send = keysR.recv ∧
      r'.table = r.table.set (.established (freshSession sid keysR turn.nowMs)) := by
  obtain ⟨next, hadv⟩ := advance_msg1 key
  rw [initiator, ← hkey, ← hprologue] at hadv
  obtain ⟨m, r', hacc⟩ := ClientRegistry.accept_succeeds Primitives.transparent_lawfulAead
    Primitives.transparent_dhCommutes hadv hcap (Or.inl hknown) hid (Vector.replicate 32 4)
    turn.nowMs
  obtain ⟨-, keysI, keysR, hs, -, htable, -⟩ := ClientRegistry.accept_completes
    Primitives.transparent_lawfulAead Primitives.transparent_dhCommutes hadv hacc
  have hm : msg2 r key = m := congrArg answered hacc
  exact ⟨r', keysI, keysR, hm ▸ hacc, hs, htable⟩

end Sample

open Sample in
theorem framed_client_answered : ∃ next, Answered .transparent udp turn server next
    ⟨addr 1, udp.localAddr, (Header.new .handshake clientSessionId).bytes ++ msg1 clientKey⟩ := by
  obtain ⟨next, hadv⟩ := advance_msg1 clientKey
  have hagrees := @framed_message1_agrees .transparent Primitives.transparent_lawfulAead
    Primitives.transparent_dhCommutes udp turn server clientSessionId 1 clientKey
    handshakeEnv.entropy (.replicate 32 4) 0 (msg1 clientKey) next 2 hadv rfl server_finds_one
    (addr 1) udp.localAddr
  exact ⟨next, hagrees.2 rfl rfl (Or.inl rfl)⟩

theorem clientHandshake_framing_disagrees_sample :
    ∃ msg1 next d,
      (Sample.initiator Sample.clientKey).advance .transparent Sample.handshakeEnv.entropy none
        Sample.handshakeEnv.nowMs = .ok (.needsMore msg1 next) ∧
      (clientHandshake .transparent Sample.handshakeEnv ⟨Sample.addr 1, none⟩ Sample.udp.localAddr
        Sample.clientKey (Sample.serverKey.publicKey .transparent) clientSessionId
          daemonPrologue).sent = [d] ∧
      ¬ FramingAgrees .transparent Sample.udp Sample.turn Sample.server msg1 next d ∧
      (handleIncoming .transparent Sample.udp Sample.turn Sample.server d.payload d.src).Silent
        Sample.server :=
  clientHandshake_framing_disagrees .transparent Primitives.transparent_lawfulAead
    Sample.handshakeEnv (Vector.replicate 32 3) rfl rfl _ _ _ _ _ _ _ _ _

/-- A client that the fresh server would let in, and whose message 1 it does not read. -/
theorem admitted_client_unanswered :
    Admitted Sample.turn Sample.server (Sample.addr 1) ∧
    (clientHandshake .transparent Sample.handshakeEnv ⟨Sample.addr 1, none⟩ Sample.udp.localAddr
      Sample.clientKey (Sample.serverKey.publicKey .transparent) clientSessionId
        daemonPrologue).sent =
          [⟨Sample.addr 1, Sample.udp.localAddr, Sample.msg1 Sample.clientKey⟩] ∧
    ∃ next,
      (Sample.initiator Sample.clientKey).advance .transparent Sample.handshakeEnv.entropy none
        Sample.handshakeEnv.nowMs = .ok (.needsMore (Sample.msg1 Sample.clientKey) next) ∧
      ¬ FramingAgrees .transparent Sample.udp Sample.turn Sample.server
        (Sample.msg1 Sample.clientKey) next
        ⟨Sample.addr 1, Sample.udp.localAddr, Sample.msg1 Sample.clientKey⟩ := by
  obtain ⟨next, hadv⟩ := Sample.advance_msg1 Sample.clientKey
  have hl := Session.advance_initiator_length Primitives.transparent_lawfulAead hadv
  exact ⟨Sample.server_admits 1, by rw [clientHandshake_of_written hadv rfl], next, hadv,
    raw_message1_disagrees hl _ _⟩

end Desmos.Core
