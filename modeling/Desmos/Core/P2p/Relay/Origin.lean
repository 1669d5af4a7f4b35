import Desmos.Core.P2p.Relay

/-! # Who speaks for the relay

Neither the registration nor the session looks at where a datagram comes from, so the first frame of
the awaited kind decides, whoever sent it. What the caller learns comes from the relay exactly if
that first frame does.
-/
namespace Desmos.Core
open Library

section StopsAt
variable {α : Type*} {p : α → Bool} {front l : List α} {last x : α}

/-- The last element is the first that satisfies `p`. -/
def StopsAt (p : α → Bool) (l : List α) (last : α) : Prop :=
  p last = true ∧ ∃ quiet, l = quiet ++ [last] ∧ ∀ x ∈ quiet, p x = false

theorem StopsAt.prepend (h : StopsAt p l last) (hfront : ∀ x ∈ front, p x = false) :
    StopsAt p (front ++ l) last := by
  obtain ⟨hlast, quiet, rfl, hquiet⟩ := h
  refine ⟨hlast, front ++ quiet, by rw [List.append_assoc], ?_⟩
  intro x hx
  exact (List.mem_append.mp hx).elim (hfront x) (hquiet x)

theorem StopsAt.mem (h : StopsAt p l last) : last ∈ l := by
  obtain ⟨-, quiet, rfl, -⟩ := h
  exact List.mem_concat_self

theorem StopsAt.eq_last (h : StopsAt p l last) (hx : x ∈ l) (hp : p x = true) : x = last := by
  obtain ⟨-, quiet, rfl, hquiet⟩ := h
  rcases List.mem_append.mp hx with hx | hx
  · exact absurd (hquiet x hx) (by simp [hp])
  · exact List.mem_singleton.mp hx

end StopsAt

/-- The frame that an arrival carries, with its source. -/
def frameOf (bufLen : ℕ) : RelayArrival → Option (SocketAddr × RelayFrame)
  | .error _ => none
  | .ok (source, bytes) => (decodeRelayFrame (bytes.take bufLen)).map (source, ·)

def framesOf (bufLen : ℕ) (arrivals : List RelayArrival) : List (SocketAddr × RelayFrame) :=
  arrivals.filterMap (frameOf bufLen)

def takenFrom (before after : List RelayArrival) : List RelayArrival :=
  before.take (before.length - after.length)

def isJoin (frame : SocketAddr × RelayFrame) : Bool := frame.2.cmd = .peerJoined

/-- What `recv` answers to a frame that ends it. -/
def verdictOf (frame : RelayFrame) : Option (Except RelayError Bytes) :=
  match frame.cmd with
  | .data => some (.ok frame.payload)
  | .error => some (.error (rejection frame.payload))
  | .register | .registered | .peerJoined => none

def isVerdict (frame : SocketAddr × RelayFrame) : Bool := (verdictOf frame.2).isSome

/-- The first Data or Error frame before a receive fails. -/
def firstVerdict (bufLen : ℕ) (arrivals : List RelayArrival) : Option (SocketAddr × RelayFrame) :=
  (framesOf bufLen (arrivals.takeWhile Except.isOk)).find? isVerdict

/-- A session for a relay is only returned if this relay sent a PeerJoined frame. -/
def SessionsGenuine (servers : List SocketAddr) (peerPublicKey : ByteArr 32) (deadline : ℕ)
    (clock : List ℕ) (sock : RelaySocket) : Prop :=
  ∀ session clock' sock',
    relayConnectAny servers peerPublicKey deadline clock sock = some (.ok session, clock', sock') →
      ∃ frame ∈ framesOf recvBufLen (takenFrom sock.arrivals sock'.arrivals),
        frame.1 = session.relayAddr ∧ frame.2.cmd = .peerJoined

/-- Payloads and rejections are those of frames that the session's relay sent. -/
def AnswersGenuine (session : RelaySession) (bufLen : ℕ) (arrivals : List RelayArrival) : Prop :=
  (∀ payload rest, session.recv bufLen arrivals = some (.ok payload, rest) →
    (session.relayAddr, ⟨.data, payload⟩) ∈ framesOf bufLen (takenFrom arrivals rest)) ∧
  ∀ reason rest, session.recv bufLen arrivals = some (.error (.relayRejected reason), rest) →
    ∃ frame ∈ framesOf bufLen (takenFrom arrivals rest),
      frame.1 = session.relayAddr ∧ frame.2.cmd = .error

theorem takenFrom_append (got rest : List RelayArrival) : takenFrom (got ++ rest) rest = got := by
  rw [takenFrom, List.length_append, Nat.add_sub_cancel, List.take_left]

theorem framesOf_append (bufLen : ℕ) (got rest : List RelayArrival) :
    framesOf bufLen (got ++ rest) = framesOf bufLen got ++ framesOf bufLen rest :=
  List.filterMap_append

/-- What is read on a socket, each arrival with the relay of the attempt that reads it, from the
readings of the clock and the answers of the socket. -/
abbrev RelayReads :=
  List ℕ → List (Except IoError Unit) → List RelayArrival → List (SocketAddr × RelayArrival)

/-- An attempt reads to its deadline, to an answer that fails, or to an Error frame, and then
`later` goes on; behind a PeerJoined frame nothing is read. -/
def awaitReads (relay : SocketAddr) (deadline : ℕ) (later : RelayReads) : RelayReads
  | [], _, _ => []
  | now :: clock, calls, arrivals =>
    if deadline ≤ now then later clock calls arrivals
    else
      match calls, arrivals with
      | [], _ => []
      | .error _ :: calls, arrivals => later clock calls arrivals
      | .ok _ :: _, [] => []
      | .ok _ :: calls, .error e :: arrivals => (relay, .error e) :: later clock calls arrivals
      | .ok _ :: calls, .ok received :: arrivals =>
        (relay, .ok received) ::
          match frameOf recvBufLen (.ok received) with
          | some (_, ⟨.peerJoined, _⟩) => []
          | some (_, ⟨.error, _⟩) => later clock calls arrivals
          | _ => awaitReads relay deadline later clock calls arrivals

/-- An attempt reads once the socket is set up and the Register frame sent. -/
def attemptReads (relay : SocketAddr) (deadline : ℕ) (later : RelayReads) : RelayReads
  | clock, .ok _ :: .ok _ :: calls, arrivals => awaitReads relay deadline later clock calls arrivals
  | clock, .ok _ :: .error _ :: calls, arrivals => later clock calls arrivals
  | clock, .error _ :: calls, arrivals => later clock calls arrivals
  | _, [.ok _], _ => []
  | _, [], _ => []

/-- One attempt after the other, until the time is over. -/
def serverReads (deadline share : ℕ) : List SocketAddr → RelayReads
  | [], _, _, _ => []
  | _ :: _, [], _, _ => []
  | addr :: servers, now :: clock, calls, arrivals =>
    if deadline ≤ now then []
    else
      attemptReads addr (min (now + share) deadline) (serverReads deadline share servers) clock
        calls arrivals

def connectReads (servers : List SocketAddr) (deadline : ℕ) : RelayReads
  | [], _, _ => []
  | now :: clock, calls, arrivals =>
    serverReads deadline (perServer (deadline - now) servers.length) servers clock calls arrivals

def joins (read : SocketAddr × RelayArrival) : Bool := (frameOf recvBufLen read.2).any isJoin

section Connect
variable {servers : List SocketAddr} {peerPublicKey : ByteArr 32} {relay : SocketAddr}
  {deadline share : ℕ} {clock : List ℕ} {sock mid : RelaySocket} {outcome : Option RelayOutcome}
  {later : RelayReads} {reads : List (SocketAddr × RelayArrival)}

/-- A call that succeeds stops at the first PeerJoined frame, read for the relay of its session. One
that fails has read none and leaves the rest to `later`. -/
def Hears (later : RelayReads) (reads : List (SocketAddr × RelayArrival)) (sock : RelaySocket) :
    Option RelayOutcome → Prop
  | none => ∀ read ∈ reads, joins read = false
  | some (.ok session, _, left) =>
    sock.arrivals = reads.map Prod.snd ++ left.arrivals ∧
      ∃ arrival, StopsAt joins reads (session.relayAddr, arrival)
  | some (.error _, clock, left) =>
    ∃ front, reads = front ++ later clock left.calls left.arrivals ∧
      sock.arrivals = front.map Prod.snd ++ left.arrivals ∧ ∀ read ∈ front, joins read = false

/-- The call fails before it reads anything. -/
theorem Hears.unread {e : RelayError} (mid : RelaySocket) (h : mid.arrivals = sock.arrivals) :
    Hears later (later clock mid.calls mid.arrivals) sock (some (.error e, clock, mid)) :=
  ⟨[], rfl, h.symm, nofun⟩

theorem Hears.after (front : List (SocketAddr × RelayArrival)) (h : Hears later reads mid outcome)
    (hfront : sock.arrivals = front.map Prod.snd ++ mid.arrivals)
    (hquiet : ∀ read ∈ front, joins read = false) :
    Hears later (front ++ reads) sock outcome := by
  match outcome with
  | none => exact fun read hread => (List.mem_append.mp hread).elim (hquiet read) (h read)
  | some (.ok session, _, left) =>
    obtain ⟨harrivals, arrival, hstops⟩ := h
    refine ⟨?_, arrival, hstops.prepend hquiet⟩
    rw [hfront, harrivals, List.map_append, List.append_assoc]
  | some (.error _, clock, left) =>
    obtain ⟨more, rfl, harrivals, hmore⟩ := h
    refine ⟨front ++ more, by rw [List.append_assoc], ?_, ?_⟩
    · rw [hfront, harrivals, List.map_append, List.append_assoc]
    · exact fun read hread => (List.mem_append.mp hread).elim (hquiet read) (hmore read)

/-- Where a failed attempt is followed by others, they are what is read later. -/
theorem Hears.followed {next : RelayReads} {more : List ℕ → RelaySocket → Option RelayOutcome}
    (h : Hears next reads sock outcome)
    (hmore : ∀ clock sock,
      Hears later (next clock sock.calls sock.arrivals) sock (more clock sock)) :
    Hears later reads sock (outcome.bind fun (result, clock, left) =>
      match result with
      | .ok session => some (.ok session, clock, left)
      | .error _ => more clock left) := by
  match outcome with
  | none => exact h
  | some (.ok session, _, left) => exact h
  | some (.error _, clock, left) =>
    obtain ⟨front, rfl, harrivals, hquiet⟩ := h
    exact (hmore clock left).after front harrivals hquiet

theorem awaitPeer_hears :
    Hears later (awaitReads relay deadline later clock sock.calls sock.arrivals) sock
      (awaitPeer relay deadline clock sock) := by
  induction clock generalizing sock with
  | nil => exact List.forall_mem_nil _
  | cons now clock ih =>
    obtain ⟨calls, arrivals, sent⟩ := sock
    unfold awaitPeer awaitReads
    split_ifs with hlate
    · exact .unread _ rfl
    match calls, arrivals with
    | [], _ => exact List.forall_mem_nil _
    | .error _ :: calls, arrivals => exact .unread ⟨calls, arrivals, sent⟩ rfl
    | .ok _ :: calls, [] => exact List.forall_mem_nil _
    | .ok _ :: calls, .error e :: arrivals =>
      exact (Hears.unread ⟨calls, arrivals, sent⟩ rfl).after [(relay, .error e)] rfl
        (by simp [joins, frameOf])
    | .ok _ :: calls, .ok (source, bytes) :: arrivals =>
      have hread {reads outcome} (h : Hears later reads ⟨calls, arrivals, sent⟩ outcome)
          (hquiet : joins (relay, .ok (source, bytes)) = false) :
          Hears later ((relay, .ok (source, bytes)) :: reads)
            ⟨.ok () :: calls, .ok (source, bytes) :: arrivals, sent⟩ outcome :=
        h.after [(relay, .ok (source, bytes))] rfl (by simpa using hquiet)
      simp only [RelaySocket.configure, RelaySocket.recvFrom, Option.bind_eq_bind, Option.bind_some,
        frameOf]
      cases hdecode : decodeRelayFrame (bytes.take recvBufLen) with
      | none => exact hread ih (by simp [joins, frameOf, hdecode])
      | some frame =>
        have hjoins : joins (relay, .ok (source, bytes)) = isJoin (source, frame) := by
          simp [joins, frameOf, hdecode]
        obtain ⟨cmd, payload⟩ := frame
        cases cmd with
        | peerJoined => exact ⟨rfl, .ok (source, bytes), hjoins, [], rfl, List.forall_mem_nil _⟩
        | error => exact hread (.unread ⟨calls, arrivals, sent⟩ rfl) hjoins
        | register | registered | data => exact hread ih hjoins

theorem encode_register (peerPublicKey : ByteArr 32) :
    ∃ frame,
      encodeRelayFrame (relayHeaderLen + 32) .register peerPublicKey.toList = some frame := by
  simp [encodeRelayFrame, maxRelayPayload]

theorem relayConnect_hears :
    Hears later (attemptReads relay deadline later clock sock.calls sock.arrivals) sock
      (relayConnect relay peerPublicKey deadline clock sock) := by
  obtain ⟨frame, hframe⟩ := encode_register peerPublicKey
  obtain ⟨calls, arrivals, sent⟩ := sock
  unfold relayConnect
  rw [hframe]
  match calls with
  | [] => exact nofun
  | .error _ :: calls => exact .unread ⟨calls, arrivals, sent⟩ rfl
  | [.ok _] => exact nofun
  | .ok _ :: .error _ :: calls => exact .unread ⟨calls, arrivals, sent⟩ rfl
  | .ok _ :: .ok _ :: calls =>
    exact awaitPeer_hears.after [] rfl nofun

theorem connectFirst_hears :
    Hears (fun _ _ _ => []) (serverReads deadline share servers clock sock.calls sock.arrivals) sock
      (connectFirst peerPublicKey deadline share servers clock sock) := by
  induction servers generalizing clock sock with
  | nil => exact .unread _ rfl
  | cons addr servers ih =>
    cases clock with
    | nil => exact nofun
    | cons now clock =>
      unfold connectFirst serverReads
      split_ifs with hlate
      · exact .unread _ rfl
      · exact relayConnect_hears.followed fun _ _ => ih

theorem relayConnectAny_hears :
    Hears (fun _ _ _ => []) (connectReads servers deadline clock sock.calls sock.arrivals) sock
      (relayConnectAny servers peerPublicKey deadline clock sock) := by
  unfold relayConnectAny
  split_ifs with hempty
  · obtain rfl := List.isEmpty_iff.mp hempty
    have hreads : connectReads [] deadline clock sock.calls sock.arrivals = [] := by
      cases clock <;> rfl
    rw [hreads]
    exact .unread sock rfl
  · cases clock with
    | nil => exact nofun
    | cons now clock => exact connectFirst_hears

end Connect

section Recv
variable {session : RelaySession} {bufLen : ℕ} {arrivals rest : List RelayArrival}

/-- The first verdict is what `recv` returns; without one it can only fail to receive. -/
def Decides (session : RelaySession) (bufLen : ℕ) (arrivals : List RelayArrival) :
    Option (SocketAddr × RelayFrame) → Prop
  | none => ∀ result rest, session.recv bufLen arrivals = some (result, rest) →
    ∃ e, result = .error (.ofRecv e)
  | some last => ∃ result got rest, arrivals = got ++ rest ∧
    session.recv bufLen arrivals = some (result, rest) ∧ verdictOf last.2 = some result ∧
    StopsAt isVerdict (framesOf bufLen got) last

/-- A datagram that is not a verdict is passed over. -/
theorem Decides.passed {received : SocketAddr × Bytes}
    (h : Decides session bufLen arrivals (firstVerdict bufLen arrivals))
    (hquiet : ∀ frame ∈ framesOf bufLen [.ok received], isVerdict frame = false)
    (hrecv : session.recv bufLen (.ok received :: arrivals) = session.recv bufLen arrivals) :
    Decides session bufLen (.ok received :: arrivals)
      (firstVerdict bufLen (.ok received :: arrivals)) := by
  have hfirst : firstVerdict bufLen (.ok received :: arrivals) = firstVerdict bufLen arrivals := by
    have hnone : (framesOf bufLen [.ok received]).find? isVerdict = none :=
      List.find?_eq_none.mpr fun frame hmem => by simp [hquiet frame hmem]
    calc firstVerdict bufLen (.ok received :: arrivals)
      _ = (framesOf bufLen ([.ok received] ++ arrivals.takeWhile Except.isOk)).find? isVerdict := rfl
      _ = firstVerdict bufLen arrivals := by
        rw [framesOf_append, List.find?_append, hnone, Option.none_or, firstVerdict]
  rw [hfirst]
  cases hverdict : firstVerdict bufLen arrivals with
  | none =>
    rw [hverdict] at h
    intro result rest hrun
    exact h result rest (hrecv ▸ hrun)
  | some last =>
    rw [hverdict] at h
    obtain ⟨result, got, rest, rfl, hrun, hlast, hstops⟩ := h
    refine ⟨result, [.ok received] ++ got, rest, rfl, hrecv.trans hrun, hlast, ?_⟩
    rw [framesOf_append]
    exact hstops.prepend hquiet

theorem recv_decides : Decides session bufLen arrivals (firstVerdict bufLen arrivals) := by
  induction arrivals with
  | nil => exact nofun
  | cons arrival arrivals ih =>
    cases arrival with
    | error e =>
      intro result rest h
      cases h
      exact ⟨e, rfl⟩
    | ok received =>
      obtain ⟨source, bytes⟩ := received
      cases hdecode : decodeRelayFrame (bytes.take bufLen) with
      | none =>
        exact ih.passed (by simp [framesOf, frameOf, hdecode])
          (by simp [RelaySession.recv, hdecode])
      | some frame =>
        have hframes : framesOf bufLen [.ok (source, bytes)] = [(source, frame)] := by
          simp [framesOf, frameOf, hdecode]
        have hspoken {result} (hverdict : verdictOf frame = some result)
            (hrun : session.recv bufLen (.ok (source, bytes) :: arrivals) =
              some (result, arrivals)) :
            Decides session bufLen (.ok (source, bytes) :: arrivals)
              (firstVerdict bufLen (.ok (source, bytes) :: arrivals)) := by
          have hlast : isVerdict (source, frame) = true := by simp [isVerdict, hverdict]
          have hfirst : firstVerdict bufLen (.ok (source, bytes) :: arrivals) =
              some (source, frame) := by
            simp [firstVerdict, framesOf, frameOf, hdecode, List.takeWhile, Except.isOk,
              Except.toBool, hlast]
          rw [hfirst]
          exact ⟨result, [.ok (source, bytes)], arrivals, rfl, hrun, hverdict, hlast, [], hframes,
            nofun⟩
        obtain ⟨cmd, payload⟩ := frame
        cases cmd with
        | data | error => exact hspoken rfl (by rw [RelaySession.recv, hdecode])
        | register | registered | peerJoined =>
          exact ih.passed (by simp [hframes, isVerdict, verdictOf])
            (by simp [RelaySession.recv, hdecode])

theorem verdictOf_eq_ok {frame : RelayFrame} {payload : Bytes}
    (h : verdictOf frame = some (.ok payload)) : frame = ⟨.data, payload⟩ := by
  obtain ⟨cmd, bytes⟩ := frame
  cases cmd <;> cases h
  rfl

theorem verdictOf_eq_error {frame : RelayFrame} {e : RelayError}
    (h : verdictOf frame = some (.error e)) : frame.cmd = .error ∧ e = rejection frame.payload := by
  obtain ⟨cmd, bytes⟩ := frame
  cases cmd <;> cases h
  exact ⟨rfl, rfl⟩

theorem ofRecv_ne_relayRejected (e : IoError) (reason : Text) :
    RelayError.ofRecv e ≠ .relayRejected reason := by
  unfold RelayError.ofRecv
  split_ifs <;> nofun

end Recv

theorem sessionsGenuine_iff (servers : List SocketAddr) (peerPublicKey : ByteArr 32)
    (deadline : ℕ) (clock : List ℕ) (sock : RelaySocket) :
    SessionsGenuine servers peerPublicKey deadline clock sock ↔
      ∀ relay arrival frame,
        (relay, arrival) ∈ connectReads servers deadline clock sock.calls sock.arrivals →
        frameOf recvBufLen arrival = some frame → isJoin frame = true → frame.1 = relay := by
  have hears := @relayConnectAny_hears servers peerPublicKey deadline clock sock
  constructor
  · intro hgenuine relay arrival frame hread hframe hjoin
    have hjoins : joins (relay, arrival) = true := by simp [joins, hframe, hjoin]
    match hrun : relayConnectAny servers peerPublicKey deadline clock sock with
    | none =>
      rw [hrun] at hears
      cases hjoins.symm.trans (hears _ hread)
    | some (.error e, clock', left) =>
      rw [hrun] at hears
      obtain ⟨front, hreads, -, hquiet⟩ := hears
      rw [hreads, List.append_nil] at hread
      cases hjoins.symm.trans (hquiet _ hread)
    | some (.ok session, clock', left) =>
      rw [hrun] at hears
      obtain ⟨harrivals, last, hstops⟩ := hears
      obtain ⟨found, hfound, hsource, hcmd⟩ := hgenuine session clock' left hrun
      rw [harrivals, takenFrom_append] at hfound
      obtain ⟨arrival', harrival', hfound⟩ := List.mem_filterMap.mp hfound
      obtain ⟨read, hread', rfl⟩ := List.mem_map.mp harrival'
      -- at most one PeerJoined frame is read, so both are the last one
      obtain rfl := hstops.eq_last hread' (by simp [joins, hfound, isJoin, hcmd])
      cases hstops.eq_last hread hjoins
      rw [← Option.some.inj (hfound.symm.trans hframe)]
      exact hsource
  · intro hrelay session clock' left hrun
    rw [hrun] at hears
    obtain ⟨harrivals, arrival, hstops⟩ := hears
    obtain ⟨frame, hframe, hjoin⟩ : ∃ frame, frameOf recvBufLen arrival = some frame ∧
        isJoin frame = true := by
      simpa [joins, Option.any_eq_true] using hstops.1
    refine ⟨frame, ?_, hrelay _ arrival frame hstops.mem hframe hjoin, of_decide_eq_true hjoin⟩
    rw [harrivals, takenFrom_append]
    exact List.mem_filterMap.mpr ⟨arrival, List.mem_map_of_mem hstops.mem, hframe⟩

theorem answersGenuine_iff (session : RelaySession) (bufLen : ℕ) (arrivals : List RelayArrival) :
    AnswersGenuine session bufLen arrivals ↔
      ∀ frame, firstVerdict bufLen arrivals = some frame → frame.1 = session.relayAddr := by
  have hdecides := @recv_decides session bufLen arrivals
  constructor
  · rintro ⟨hpayloads, hrejections⟩ last hlast
    rw [hlast] at hdecides
    obtain ⟨result, got, rest, rfl, hrun, hverdict, hstops⟩ := hdecides
    rw [← takenFrom_append got rest] at hstops
    cases result with
    | ok payload => rw [← hstops.eq_last (hpayloads payload rest hrun) rfl]
    | error e =>
      obtain ⟨-, rfl⟩ := verdictOf_eq_error hverdict
      obtain ⟨frame, hmem, hsource, hcmd⟩ := hrejections _ rest hrun
      rw [← hstops.eq_last hmem (by simp [isVerdict, verdictOf, hcmd]), hsource]
  · intro hrelay
    have hspoken : ∀ result rest, session.recv bufLen arrivals = some (result, rest) →
        (∃ e, result = .error (.ofRecv e)) ∨
          ∃ last ∈ framesOf bufLen (takenFrom arrivals rest), last.1 = session.relayAddr ∧
            verdictOf last.2 = some result := by
      intro result rest hrun
      cases hlast : firstVerdict bufLen arrivals with
      | none =>
        rw [hlast] at hdecides
        exact Or.inl (hdecides result rest hrun)
      | some last =>
        rw [hlast] at hdecides
        obtain ⟨_, got, _, rfl, hrun', hverdict, hstops⟩ := hdecides
        cases hrun.symm.trans hrun'
        refine Or.inr ⟨last, ?_, hrelay last hlast, hverdict⟩
        rw [takenFrom_append]
        exact hstops.mem
    constructor
    · intro payload rest hrun
      rcases hspoken _ rest hrun with ⟨e, hfailed⟩ | ⟨last, hmem, hsource, hverdict⟩
      · cases hfailed
      rw [← hsource, ← verdictOf_eq_ok hverdict]
      exact hmem
    · intro reason rest hrun
      rcases hspoken _ rest hrun with ⟨e, hfailed⟩ | ⟨last, hmem, hsource, hverdict⟩
      · exact absurd (Except.error.inj hfailed).symm (ofRecv_ne_relayRejected e reason)
      exact ⟨last, hmem, hsource, (verdictOf_eq_error hverdict).1⟩

/-- Sessions, payloads and rejections come from the relay exactly if the frames that decide do: a
PeerJoined frame from the relay of the attempt that reads it, the first Data or Error frame before a
receive fails from the relay of the session. -/
theorem relay_speaks_iff (servers : List SocketAddr) (peerPublicKey : ByteArr 32) (deadline : ℕ)
    (clock : List ℕ) (sock : RelaySocket) (session : RelaySession) (bufLen : ℕ)
    (arrivals : List RelayArrival) :
    (SessionsGenuine servers peerPublicKey deadline clock sock ↔
      ∀ relay arrival frame,
        (relay, arrival) ∈ connectReads servers deadline clock sock.calls sock.arrivals →
        frameOf recvBufLen arrival = some frame → isJoin frame = true → frame.1 = relay) ∧
    (AnswersGenuine session bufLen arrivals ↔
      ∀ frame, firstVerdict bufLen arrivals = some frame → frame.1 = session.relayAddr) :=
  ⟨sessionsGenuine_iff servers peerPublicKey deadline clock sock,
    answersGenuine_iff session bufLen arrivals⟩

namespace Sample

def relayAt (port : UInt16) : SocketAddr := ⟨.v4 (ByteArr.ofBytes 4 [192, 0, 2, 1]), port⟩

/-- A frame of at most 255 bytes of payload, as a sender writes it. -/
def relayed (source : SocketAddr) (cmd : RelayCmd) (payload : Bytes) : RelayArrival :=
  .ok (source, relayMagic ++ ([cmd.toByte, 0] ++ (toBe 2 payload.length ++ payload)))

/-- The first relay does not answer in time, and its PeerJoined frame comes in during the attempt
with the second relay, which never says anything. -/
def lateJoin : RelaySocket where
  calls := [.ok (), .ok (), .ok (), .ok (), .ok (), .ok ()]
  arrivals := [.error ⟨.wouldBlock, "timed out"⟩, relayed (relayAt 1) .peerJoined []]
  sent := []

end Sample

open Sample in
/-- A session for the second relay rests on a frame of the first, and a payload and a rejection on
frames of a stranger. -/
theorem other_sources_speak_for_relay :
    let servers := [relayAt 1, relayAt 2]
    let key : ByteArr 32 := Vector.replicate 32 0
    let clock := [0, 0, 0, 1000000000, 1000000000]
    let session : RelaySession := ⟨relayAt 2⟩
    let payload := [relayed (relayAt 9) .data [104, 105]]
    let refusal := [relayed (relayAt 9) .error [110, 111]]
    ((relayConnectAny servers key 2000000000 clock lateJoin).map Prod.fst = some (.ok session) ∧
      ¬ SessionsGenuine servers key 2000000000 clock lateJoin) ∧
    (session.recv recvBufLen payload = some (.ok [104, 105], []) ∧
      ¬ AnswersGenuine session recvBufLen payload) ∧
    (session.recv recvBufLen refusal = some (.error (.relayRejected ['n', 'o']), []) ∧
      ¬ AnswersGenuine session recvBufLen refusal) := by
  intro servers key clock session payload refusal
  have hconnect : (relayConnectAny servers key 2000000000 clock lateJoin).map Prod.fst =
      some (.ok session) := by decide +kernel
  have hpayload : session.recv recvBufLen payload = some (.ok [104, 105], []) := by decide +kernel
  have htext : Text.fromUtf8 [110, 111] = some ['n', 'o'] := Text.fromUtf8_eq_some_iff.mpr rfl
  have hrefusal : session.recv recvBufLen refusal =
      some (.error (.relayRejected ['n', 'o']), []) := by
    have hrejected : session.recv recvBufLen refusal = some (.error (rejection [110, 111]), []) :=
      rfl
    rfl
  refine ⟨⟨hconnect, fun hgenuine => ?_⟩, ⟨hpayload, fun hgenuine => ?_⟩,
    hrefusal, fun hgenuine => ?_⟩
  · have hsource := (sessionsGenuine_iff ..).mp hgenuine (relayAt 2)
      (relayed (relayAt 1) .peerJoined []) (relayAt 1, ⟨.peerJoined, []⟩) (by decide +kernel)
      (by decide +kernel) rfl
    exact absurd hsource (by decide)
  · have hsource := (answersGenuine_iff ..).mp hgenuine (relayAt 9, ⟨.data, [104, 105]⟩)
    exact absurd (hsource (by decide +kernel)) (by decide)
  · have hsource := (answersGenuine_iff ..).mp hgenuine (relayAt 9, ⟨.error, [110, 111]⟩)
    exact absurd (hsource (by decide +kernel)) (by decide)

end Desmos.Core
