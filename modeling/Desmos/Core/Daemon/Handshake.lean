import Desmos.Core.Io
import Desmos.Core.Session

/-! # The client side of the handshake

One datagram out, then a loop that waits for the answer. Each turn is one `recv_from` before the
deadline, and when they are used up the deadline has passed.
-/
namespace Desmos.Core
open Library Proto

def handshakeBufLen : ℕ := 4096

/-- One turn of the waiting loop: what `recv_from` returned and the wall clock. -/
structure RecvTurn where
  recv : Except IoError (Bytes × SocketAddr)
  nowMs : UInt64

/-- What the environment contributes to one client handshake. -/
structure HandshakeEnv where
  entropy : Option Key32
  nowMs : UInt64
  sendTo : Except IoError Unit
  turns : List RecvTurn

structure ClientHandshakeOutcome where
  result : Except IoError (Session Established)
  sent : List Datagram

/-- Wait for message 2. Datagrams from other addresses are skipped; the first one
from the server decides. -/
def awaitMsg2 (P : Primitives) (server : SocketAddr) (ini : Session Handshaking) :
    List RecvTurn → Except IoError (Session Established)
  | [] => .error ⟨.timedOut, "handshake timeout"⟩
  | turn :: turns =>
    match turn.recv with
    | .error e => if e.kind = .wouldBlock then awaitMsg2 P server ini turns else .error e
    | .ok (data, source) =>
      if source ≠ server then awaitMsg2 P server ini turns
      else match ini.advance P none (some (data.take handshakeBufLen)) turn.nowMs with
      | .error e => .error ⟨.other, "handshake msg2: " ++ e.display⟩
      | .ok (.established _ session) => .ok session
      | .ok (.needsMore _ _) => .error ⟨.other, "unexpected NeedsMore after msg2"⟩

def clientHandshake (P : Primitives) (env : HandshakeEnv) (sock : UdpSocket) (server : SocketAddr)
    (privateKey : X25519PrivateKey) (serverPub : PublicKey) (sessionId : SessionId)
    (prologue : Bytes) : ClientHandshakeOutcome :=
  let ini := Session.newInitiator P sessionId privateKey serverPub prologue
  match ini.advance P env.entropy none env.nowMs with
  | .error e => ⟨.error ⟨.other, "handshake msg1: " ++ e.display⟩, []⟩
  | .ok (.established _ _) => ⟨.error ⟨.other, "unexpected Established after first advance"⟩, []⟩
  | .ok (.needsMore msg1 ini) =>
    match env.sendTo with
    | .error e => ⟨.error e, []⟩
    | .ok _ => ⟨awaitMsg2 P server ini env.turns, [⟨sock.localAddr, server, msg1⟩]⟩

section Client
variable {P : Primitives} {env : HandshakeEnv} {sock : UdpSocket} {server : SocketAddr}
  {privateKey : X25519PrivateKey} {serverPub : PublicKey} {sessionId : SessionId}
  {prologue msg1 : Bytes} {next : Session Handshaking}

/-- The loop goes on after this turn. -/
def RecvTurn.Skipped (server : SocketAddr) (turn : RecvTurn) : Prop :=
  match turn.recv with
  | .error e => e.kind = .wouldBlock
  | .ok (_, source) => source ≠ server

theorem awaitMsg2_skipped {skipped : List RecvTurn} (h : ∀ turn ∈ skipped, turn.Skipped server)
    (turns : List RecvTurn) :
    awaitMsg2 P server next (skipped ++ turns) = awaitMsg2 P server next turns := by
  induction skipped with
  | nil => rfl
  | cons turn skipped ih =>
    have hturn := h turn List.mem_cons_self
    unfold RecvTurn.Skipped at hturn
    rw [List.cons_append, awaitMsg2]
    cases hr : turn.recv with
    | error e =>
      simp only [hr] at hturn
      simp only [hturn, if_true]
      exact ih fun t ht => h t (List.mem_cons_of_mem _ ht)
    | ok received =>
      obtain ⟨data, source⟩ := received
      simp only [hr] at hturn
      simp only [hturn, not_false_eq_true, ne_eq, if_true]
      exact ih fun t ht => h t (List.mem_cons_of_mem _ ht)

/-- The first datagram from the server ends the wait, if the initiator accepts it. -/
theorem awaitMsg2_answered {msg2 : Bytes} {nowMs : UInt64} {outbound : Option Bytes}
    {session : Session Established} (hl : msg2.length = msg2Len)
    (hadv : next.advance P none (some msg2) nowMs = .ok (.established outbound session))
    (turns : List RecvTurn) :
    awaitMsg2 P server next (⟨.ok (msg2, server), nowMs⟩ :: turns) = .ok session := by
  have htake : msg2.take handshakeBufLen = msg2 :=
    List.take_of_length_le (hl.trans_le (by decide))
  simp [awaitMsg2, htake, hadv]

theorem clientHandshake_of_written
    (hadv : (Session.newInitiator P sessionId privateKey serverPub prologue).advance P env.entropy
      none env.nowMs = .ok (.needsMore msg1 next)) (hsend : env.sendTo = .ok ()) :
    clientHandshake P env sock server privateKey serverPub sessionId prologue =
      ⟨awaitMsg2 P server next env.turns, [⟨sock.localAddr, server, msg1⟩]⟩ := by
  simp only [clientHandshake, hadv, hsend]

/-- A handshake that put something on the wire has put message 1 there. -/
theorem clientHandshake_of_sent {d : Datagram}
    (h : d ∈ (clientHandshake P env sock server privateKey serverPub sessionId prologue).sent) :
    ∃ msg1 next, (Session.newInitiator P sessionId privateKey serverPub prologue).advance P
        env.entropy none env.nowMs = .ok (.needsMore msg1 next) ∧
      clientHandshake P env sock server privateKey serverPub sessionId prologue =
        ⟨awaitMsg2 P server next env.turns, [⟨sock.localAddr, server, msg1⟩]⟩ := by
  cases hadv : (Session.newInitiator P sessionId privateKey serverPub prologue).advance P
      env.entropy none env.nowMs with
  | error e => simp [clientHandshake, hadv] at h
  | ok outcome =>
    cases outcome with
    | established outbound session => simp [clientHandshake, hadv] at h
    | needsMore msg1 next =>
      cases hsend : env.sendTo with
      | error e => simp [clientHandshake, hadv, hsend] at h
      | ok u => exact ⟨msg1, next, rfl, clientHandshake_of_written hadv hsend⟩

end Client

end Desmos.Core
