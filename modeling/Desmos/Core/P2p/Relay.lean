import Desmos.Core.Io
import Desmos.Library.Offsets
import Desmos.Library.TextSearch

/-! # The relay fallback

When hole punching fails, two peers route their packets through a relay, over one UDP socket. The
environment answers the calls on the socket and the readings of the clock in order; a run that is
still waiting for the next answer has no result.
-/
namespace Desmos.Core
open Library Library.Text

/-- The bytes of `DESMOS-RELAY`. -/
def relayMagic : Bytes := [68, 69, 83, 77, 79, 83, 45, 82, 69, 76, 65, 89]

def relayHeaderLen : ℕ := 16
def maxRelayPayload : ℕ := 65519
def recvBufLen : ℕ := 65535

inductive RelayCmd where
  | register
  | registered
  | data
  | peerJoined
  | error
  deriving DecidableEq, Repr

namespace RelayCmd

def toByte : RelayCmd → UInt8
  | register => 0
  | registered => 1
  | data => 2
  | peerJoined => 3
  | error => 4

def fromByte (b : UInt8) : Option RelayCmd :=
  if b = 0 then some register
  else if b = 1 then some registered
  else if b = 2 then some data
  else if b = 3 then some peerJoined
  else if b = 4 then some error
  else none

end RelayCmd

/-- Errors of hole punching are left out: no function below makes one. -/
inductive RelayError where
  | noRelay
  | relayRejected (reason : Text)
  | badFrame (reason : String)
  | noRelayServers
  | io (message : String)
  | timeout
  deriving DecidableEq, Repr

structure RelayFrame where
  cmd : RelayCmd
  payload : Bytes
  deriving DecidableEq

/-- The bytes that are written to the front of a buffer of `bufLen` bytes. -/
def encodeRelayFrame (bufLen : ℕ) (cmd : RelayCmd) (payload : Bytes) : Option Bytes :=
  if maxRelayPayload < payload.length ∨ bufLen < relayHeaderLen + payload.length then none
  else some (relayMagic ++ ([cmd.toByte, 0] ++ (toBe 2 payload.length ++ payload)))

/-- The accesses stand behind the length checks that cover them. -/
def decodeRelayFrame (bytes : Bytes) : Option RelayFrame :=
  if bytes.length < relayHeaderLen then none
  else if slice bytes 0 12 ≠ relayMagic then none
  else do
    let cmd ← bytes[12]?.bind RelayCmd.fromByte
    let payloadLen ← u16At bytes 14
    if bytes.length < relayHeaderLen + payloadLen.toNat then none
    else do
      let payload ← sliceAt bytes relayHeaderLen (relayHeaderLen + payloadLen.toNat)
      some ⟨cmd, payload⟩

abbrev RelayArrival := Except IoError (SocketAddr × Bytes)

structure RelaySession where
  relayAddr : SocketAddr
  deriving DecidableEq

/-- The socket's read timeout shows up as one of two kinds. -/
def RelayError.ofRecv (e : IoError) : RelayError :=
  if e.kind = .wouldBlock ∨ e.kind = .timedOut then .timeout else .io e.message

def rejection (payload : Bytes) : RelayError :=
  .relayRejected ((fromUtf8 payload).getD "(invalid utf-8)".toList)

namespace RelaySession

/-- The frame that goes to the relay; `sent` is what `send_to` answers. -/
def send (self : RelaySession) (payload : Bytes) (sent : Except IoError Unit) :
    Except RelayError (SocketAddr × Bytes) :=
  match encodeRelayFrame recvBufLen .data payload with
  | none => .error (.badFrame "payload too large for relay frame")
  | some frame =>
    match sent with
    | .error e => .error (.io e.message)
    | .ok _ => .ok (self.relayAddr, frame)

/-- Receive into a buffer of `bufLen` bytes: the result and the arrivals that are left. The source
of an arrival is not looked at. -/
def recv (self : RelaySession) (bufLen : ℕ) :
    List RelayArrival → Option (Except RelayError Bytes × List RelayArrival)
  | [] => none
  | .error e :: arrivals => some (.error (.ofRecv e), arrivals)
  | .ok (_, bytes) :: arrivals =>
    match decodeRelayFrame (bytes.take bufLen) with
    | none => recv self bufLen arrivals
    | some frame =>
      match frame.cmd with
      | .data => some (.ok frame.payload, arrivals)
      | .error => some (.error (rejection frame.payload), arrivals)
      | .register | .registered | .peerJoined => recv self bufLen arrivals

end RelaySession

/-- What the calls on the socket answer, in order, and what was sent on it. -/
structure RelaySocket where
  calls : List (Except IoError Unit)
  arrivals : List RelayArrival
  sent : List (SocketAddr × Bytes)
  deriving DecidableEq

namespace RelaySocket

def configure (sock : RelaySocket) : Option (Except IoError Unit × RelaySocket) :=
  match sock.calls with
  | [] => none
  | answer :: calls => some (answer, { sock with calls })

def sendTo (sock : RelaySocket) (bytes : Bytes) (addr : SocketAddr) :
    Option (Except IoError Unit × RelaySocket) :=
  match sock.calls with
  | [] => none
  | .error e :: calls => some (.error e, { sock with calls })
  | .ok _ :: calls => some (.ok (), { sock with calls, sent := sock.sent ++ [(addr, bytes)] })

def recvFrom (sock : RelaySocket) : Option (RelayArrival × RelaySocket) :=
  match sock.arrivals with
  | [] => none
  | arrival :: arrivals => some (arrival, { sock with arrivals })

end RelaySocket

/-- A result, the readings of the clock that are left, and the socket. -/
abbrev RelayOutcome := Except RelayError RelaySession × List ℕ × RelaySocket

/-- The loop of `relay_connect`: one reading of the clock each turn. A Registered frame only sets a
flag that nothing depends on. -/
def awaitPeer (relayAddr : SocketAddr) (deadline : ℕ) :
    List ℕ → RelaySocket → Option RelayOutcome
  | [], _ => none
  | now :: clock, sock =>
    if deadline ≤ now then some (.error .timeout, clock, sock)
    else do
      let (timeoutSet, sock) ← sock.configure
      match timeoutSet with
      | .error e => some (.error (.io e.message), clock, sock)
      | .ok _ =>
        let (arrival, sock) ← sock.recvFrom
        match arrival with
        | .error e => some (.error (.ofRecv e), clock, sock)
        | .ok (_, bytes) =>
          match decodeRelayFrame (bytes.take recvBufLen) with
          | none => awaitPeer relayAddr deadline clock sock
          | some frame =>
            match frame.cmd with
            | .peerJoined => some (.ok ⟨relayAddr⟩, clock, sock)
            | .error => some (.error (rejection frame.payload), clock, sock)
            | .register | .registered | .data => awaitPeer relayAddr deadline clock sock

def relayConnect (relayAddr : SocketAddr) (peerPublicKey : ByteArr 32) (deadline : ℕ)
    (clock : List ℕ) (sock : RelaySocket) : Option RelayOutcome := do
  let (connresetOff, sock) ← sock.configure
  match connresetOff with
  | .error e => some (.error (.io e.message), clock, sock)
  | .ok _ =>
    match encodeRelayFrame (relayHeaderLen + 32) .register peerPublicKey.toList with
    | none => some (.error (.badFrame "register encode failed"), clock, sock)
    | some frame =>
      let (sent, sock) ← sock.sendTo frame relayAddr
      match sent with
      | .error e => some (.error (.io e.message), clock, sock)
      | .ok _ => awaitPeer relayAddr deadline clock sock

/-- 500 ms, the least budget of an attempt; times are in nanoseconds. -/
def minAttempt : ℕ := 500000000

/-- An even share of the time that is left. The count is cast to 32 bits before the division. -/
def perServer (totalBudget count : ℕ) : ℕ :=
  max (if count % 2 ^ 32 = 0 then minAttempt else totalBudget / (count % 2 ^ 32)) minAttempt

/-- The loop of `relay_connect_any` over the servers that are left. -/
def connectFirst (peerPublicKey : ByteArr 32) (deadline share : ℕ) :
    List SocketAddr → List ℕ → RelaySocket → Option RelayOutcome
  | [], clock, sock => some (.error .noRelay, clock, sock)
  | _ :: _, [], _ => none
  | addr :: servers, now :: clock, sock =>
    if deadline ≤ now then some (.error .noRelay, clock, sock)
    else do
      let (result, clock, sock) ←
        relayConnect addr peerPublicKey (min (now + share) deadline) clock sock
      match result with
      | .ok session => some (.ok session, clock, sock)
      | .error _ => connectFirst peerPublicKey deadline share servers clock sock

def relayConnectAny (relayServers : List SocketAddr) (peerPublicKey : ByteArr 32) (deadline : ℕ)
    (clock : List ℕ) (sock : RelaySocket) : Option RelayOutcome :=
  if relayServers.isEmpty then some (.error .noRelayServers, clock, sock)
  else
    match clock with
    | [] => none
    | now :: clock =>
      connectFirst peerPublicKey deadline (perServer (deadline - now) relayServers.length)
        relayServers clock sock

end Desmos.Core
