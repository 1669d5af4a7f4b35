import Desmos.Core.Pipeline
import Desmos.Core.Server.Clients
import Desmos.Core.Server.RateLimit

/-! # The server's datagram loop

`handleIncoming` takes one datagram and leaves the server's state, at most one datagram to the
sender and at most one packet to the TUN.
-/
namespace Desmos.Core
open Library Proto

/-- What the loop carries from datagram to datagram. -/
structure ServerState where
  registry : ClientRegistry
  rateLimiter : RateLimiter
  addrMap : AList fun _ : SocketAddr => SessionId
  metrics : PipelineMetrics

def ServerState.init (registry : ClientRegistry) (metrics : PipelineMetrics) : ServerState :=
  { registry, rateLimiter := RateLimiter.withDefaultPolicy, addrMap := ∅, metrics }

/-- What the environment contributes to one turn: the wall clock and the randomness
of the responder's ephemeral key. -/
structure IncomingEnv where
  nowMs : UInt64
  entropy : Option Key32

structure IncomingOutcome where
  state : ServerState
  sent : List Datagram
  tun : List Bytes

def handleHandshake (P : Primitives) (udp : UdpSocket) (env : IncomingEnv) (st : ServerState)
    (msg1 : Bytes) (source : SocketAddr) : IncomingOutcome :=
  match st.rateLimiter.tryAdmit source.ip env.nowMs with
  | (false, rateLimiter) => ⟨{ st with rateLimiter }, [], []⟩
  | (true, rateLimiter) =>
    match st.registry.acceptClientMsg1 P env.entropy msg1 env.nowMs with
    | (.ok (sessionId, msg2), registry) =>
      ⟨{ st with rateLimiter, registry, addrMap := st.addrMap.insert source sessionId },
        [⟨udp.localAddr, source, msg2⟩], []⟩
    | (.error _, registry) => ⟨{ st with rateLimiter, registry }, [], []⟩

/-- The data branch: the session is the one the source address is mapped to. -/
def handleData (P : Primitives) (st : ServerState) (header : Header) (payload : Bytes)
    (source : SocketAddr) : IncomingOutcome :=
  match st.addrMap.lookup source with
  | none => ⟨st, [], []⟩
  | some sessionId =>
    match st.registry.table.get sessionId with
    | some (.established session) =>
      let (result, session) := session.decryptData P header.sequence.toUInt64 payload
      let st := { st with registry :=
        { st.registry with table := st.registry.table.set (.established session) } }
      match result with
      | .ok plaintext => ⟨st, [], [plaintext]⟩
      | .error _ => ⟨{ st with metrics := st.metrics.recordDecryptFailure }, [], []⟩
    | _ => ⟨st, [], []⟩

def handleIncoming (P : Primitives) (udp : UdpSocket) (env : IncomingEnv) (st : ServerState)
    (data : Bytes) (source : SocketAddr) : IncomingOutcome :=
  let st := { st with metrics := st.metrics.recordReceived data.length }
  if data.length < headerLen then ⟨{ st with metrics := st.metrics.recordBadHeader }, [], []⟩
  else match Header.decode (data.take headerLen) with
  | .error _ => ⟨{ st with metrics := st.metrics.recordBadHeader }, [], []⟩
  | .ok header =>
    if header.packetType = .handshake then
      handleHandshake P udp env st (data.drop headerLen) source
    else handleData P st header (data.drop headerLen) source

/-- A datagram on its way into a turn. -/
structure Arrival where
  env : IncomingEnv
  data : Bytes
  source : SocketAddr

/-- The loop over the socket: it answers each datagram with what it sent and what it
wrote to the TUN. -/
def serverLoop (P : Primitives) (udp : UdpSocket) :
    Machine ServerState Arrival (List Datagram × List Bytes) := fun st arrival =>
  let out := handleIncoming P udp arrival.env st arrival.data arrival.source
  ((out.sent, out.tun), out.state)

/-- The session that data from an address goes to. -/
def ServerState.sessionOf (st : ServerState) (source : SocketAddr) : Option (Session Established) :=
  match st.addrMap.lookup source with
  | none => none
  | some sessionId =>
    match st.registry.table.get sessionId with
    | some (.established session) => some session
    | _ => none

variable {st : ServerState} {source : SocketAddr} {s : Session Established} {out : IncomingOutcome}
  {P : Primitives}

theorem ServerState.sessionOf_eq_some_iff : st.sessionOf source = some s ↔
      ∃ sid, st.addrMap.lookup source = some sid ∧
        st.registry.table.get sid = some (.established s) := by
  unfold sessionOf
  split
  · next hm => simp [hm]
  · next sid hm =>
    split
    · next session ht => simp [hm, ht]
    · next hne =>
      simp only [hm, Option.some.injEq, exists_eq_left', reduceCtorEq, false_iff]
      exact hne s

/-- A turn that answers nothing, writes nothing, maps no address and touches no session. -/
structure IncomingOutcome.Ignored (st : ServerState) (out : IncomingOutcome) : Prop where
  sent : out.sent = []
  tun : out.tun = []
  addrMap : out.state.addrMap = st.addrMap
  table : out.state.registry.table = st.registry.table

/-- A turn that hands a payload to a session. -/
structure IncomingOutcome.Opened (P : Primitives) (st : ServerState) (data : Bytes)
    (source : SocketAddr) (header : Header) (s : Session Established) (out : IncomingOutcome) :
    Prop where
  decode : Header.decode (data.take headerLen) = .ok header
  packetType : header.packetType ≠ .handshake
  session : st.sessionOf source = some s
  sent : out.sent = []
  tun : out.tun =
    (s.decryptData P header.sequence.toUInt64 (data.drop headerLen)).1.toOption.toList
  addrMap : out.state.addrMap = st.addrMap
  table : out.state.registry.table = st.registry.table.set
    (.established (s.decryptData P header.sequence.toUInt64 (data.drop headerLen)).2)

structure IncomingOutcome.Accepted (P : Primitives) (udp : UdpSocket) (env : IncomingEnv)
    (st : ServerState) (msg1 : Bytes) (source : SocketAddr) (sid : SessionId) (msg2 : Bytes)
    (out : IncomingOutcome) : Prop where
  accept : st.registry.acceptClientMsg1 P env.entropy msg1 env.nowMs =
    (.ok (sid, msg2), out.state.registry)
  sent : out.sent = [⟨udp.localAddr, source, msg2⟩]
  tun : out.tun = []
  addrMap : out.state.addrMap = st.addrMap.insert source sid

section Turn
variable {P : Primitives} {udp : UdpSocket} {env : IncomingEnv} {st : ServerState} {msg : Bytes}
  {source : SocketAddr} {h : Header}

theorem handleData_of_none (P : Primitives) (header : Header) (payload : Bytes)
    (h : st.sessionOf source = none) : handleData P st header payload source = ⟨st, [], []⟩ := by
  unfold handleData
  unfold ServerState.sessionOf at h
  split
  · rfl
  · next sid hm =>
    simp only [hm] at h
    split
    · next s ht => simp [ht] at h
    · rfl

/-- A data packet of a mapped address updates one session and writes what it opened. -/
theorem handleData_of_session (P : Primitives) (header : Header) (payload : Bytes)
    {s : Session Established} (h : st.sessionOf source = some s) :
    let out := handleData P st header payload source
    let r := s.decryptData P header.sequence.toUInt64 payload
    out.sent = [] ∧ out.tun = r.1.toOption.toList ∧ out.state.addrMap = st.addrMap ∧
      out.state.registry =
        { st.registry with table := st.registry.table.set (.established r.2) } := by
  obtain ⟨sid, hm, ht⟩ := ServerState.sessionOf_eq_some_iff.mp h
  intro out r
  simp only [out, r, handleData, hm, ht]
  cases (s.decryptData P header.sequence.toUInt64 payload).1 with
  | error e => exact ⟨rfl, rfl, rfl, rfl⟩
  | ok pt => exact ⟨rfl, rfl, rfl, rfl⟩

/-- A datagram whose header decodes goes to one of the two branches. -/
theorem handleIncoming_of_decode {data : Bytes} {header : Header}
    (hd : Header.decode (data.take headerLen) = .ok header) :
    handleIncoming P udp env st data source =
      if header.packetType = .handshake then
        handleHandshake P udp env { st with
          metrics := st.metrics.recordReceived data.length } (data.drop headerLen) source
      else handleData P { st with
        metrics := st.metrics.recordReceived data.length } header (data.drop headerLen) source := by
  have hl : ¬ data.length < headerLen := by
    intro hl
    simp [Header.decode, hl] at hd
  simp [handleIncoming, hl, hd]

theorem handleIncoming_framed (hv : h.version = wireVersion) (payload : Bytes) :
    handleIncoming P udp env st (h.bytes ++ payload) source =
      if h.packetType = .handshake then
        handleHandshake P udp env { st with
          metrics := st.metrics.recordReceived (h.bytes ++ payload).length } payload source
      else handleData P { st with
        metrics := st.metrics.recordReceived (h.bytes ++ payload).length } h payload source := by
  have hd : Header.decode ((h.bytes ++ payload).take headerLen) = .ok h := by
    simpa using Header.decode_bytes_append h hv []
  rw [handleIncoming_of_decode hd, List.drop_left' (Header.bytes_length h)]

/-- An admitted message 1 behind a handshake header is accepted if the registry accepts it. -/
theorem handleIncoming_accepts (udp : UdpSocket) (hv : h.version = wireVersion)
    (ht : h.packetType = .handshake) {sid : SessionId} {msg2 : Bytes} {r' : ClientRegistry}
    (hrate : (st.rateLimiter.tryAdmit source.ip env.nowMs).1 = true)
    (hacc : st.registry.acceptClientMsg1 P env.entropy msg env.nowMs = (.ok (sid, msg2), r')) :
    (handleIncoming P udp env st (h.bytes ++ msg) source).Accepted P udp env st msg source sid
      msg2 ∧ (handleIncoming P udp env st (h.bytes ++ msg) source).state.registry = r' := by
  rw [handleIncoming_framed hv, if_pos ht]
  rcases hr : st.rateLimiter.tryAdmit source.ip env.nowMs with ⟨granted, rl⟩
  obtain rfl : granted = true := by simpa [hr] using hrate
  simp only [handleHandshake, hr, hacc]
  exact ⟨⟨hacc, rfl, rfl, rfl⟩, trivial⟩

/-- Every handshake is charged to its source, accepted or not. -/
theorem handleHandshake_rateLimiter :
    (handleHandshake P udp env st msg source).state.rateLimiter =
      (st.rateLimiter.tryAdmit source.ip env.nowMs).2 := by
  unfold handleHandshake
  split
  · next h => rw [h]
  · next h =>
    rw [h]
    split <;> rfl

theorem handleHandshake_cases :
    let out := handleHandshake P udp env st msg source
    out.Ignored st ∨ ∃ sid msg2, out.Accepted P udp env st msg source sid msg2 := by
  intro out
  simp only [out, handleHandshake]
  split
  · exact Or.inl ⟨rfl, rfl, rfl, rfl⟩
  · split
    · next sid msg2 r ha => exact Or.inr ⟨sid, msg2, ha, rfl, rfl, rfl⟩
    · next e r ha =>
      obtain ⟨cursor, rfl⟩ := ClientRegistry.acceptClientMsg1_error ha
      exact Or.inl ⟨rfl, rfl, rfl, rfl⟩

/-- Everything one turn can do. -/
theorem handleIncoming_cases (P : Primitives) (udp : UdpSocket) (env : IncomingEnv)
    (st : ServerState) (data : Bytes) (source : SocketAddr) :
    let out := handleIncoming P udp env st data source
    out.Ignored st ∨ (∃ header s, out.Opened P st data source header s) ∨
      ∃ sid msg2, out.Accepted P udp env st (data.drop headerLen) source sid msg2 := by
  intro out
  simp only [out, handleIncoming]
  split
  · exact Or.inl ⟨rfl, rfl, rfl, rfl⟩
  split
  · exact Or.inl ⟨rfl, rfl, rfl, rfl⟩
  next header hd =>
  split
  · rcases handleHandshake_cases with h | ⟨sid, msg2, h⟩
    · exact Or.inl ⟨h.sent, h.tun, h.addrMap, h.table⟩
    · exact Or.inr (Or.inr ⟨sid, msg2, h.accept, h.sent, h.tun, h.addrMap⟩)
  · next ht =>
    cases hs : ServerState.sessionOf
        { st with metrics := st.metrics.recordReceived data.length } source with
    | none =>
      rw [handleData_of_none P header _ hs]
      exact Or.inl ⟨rfl, rfl, rfl, rfl⟩
    | some s =>
      obtain ⟨h1, h2, h3, h4⟩ := handleData_of_session P header (data.drop headerLen) hs
      exact Or.inr (Or.inl ⟨header, s, hd, ht, hs, h1, h2, h3, congrArg ClientRegistry.table h4⟩)

theorem handleIncoming_registry (P : Primitives) (udp : UdpSocket) (env : IncomingEnv)
    (st : ServerState) (data : Bytes) (source : SocketAddr) :
    ∃ cursor table, (handleIncoming P udp env st data source).state.registry =
      { st.registry with nextId := cursor, table := table } := by
  cases hd : Header.decode (data.take headerLen) with
  | error e =>
    refine ⟨st.registry.nextId, st.registry.table, ?_⟩
    simp only [handleIncoming, hd]
    split <;> rfl
  | ok header =>
    rw [handleIncoming_of_decode hd]
    split
    · simp only [handleHandshake]
      split
      · exact ⟨_, _, rfl⟩
      · split
        · next sid msg2 r ha =>
          obtain ⟨-, cursor, session, -, -, rfl⟩ := ClientRegistry.acceptClientMsg1_ok_iff.mp ha
          exact ⟨_, _, rfl⟩
        · next e r ha =>
          obtain ⟨cursor, rfl⟩ := ClientRegistry.acceptClientMsg1_error ha
          exact ⟨_, _, rfl⟩
    · cases hs : ServerState.sessionOf
          { st with metrics := st.metrics.recordReceived data.length } source with
      | none =>
        rw [handleData_of_none P header _ hs]
        exact ⟨_, _, rfl⟩
      | some s => exact ⟨_, _, (handleData_of_session P header (data.drop headerLen) hs).2.2.2⟩

/-- What a datagram brings to the TUN depends on the server only through the session its
source address leads to. -/
theorem handleIncoming_tun_congr {st' : ServerState} (env' : IncomingEnv)
    (h : st.sessionOf source = st'.sessionOf source) (data : Bytes) :
    (handleIncoming P udp env st data source).tun =
      (handleIncoming P udp env' st' data source).tun := by
  cases hd : Header.decode (data.take headerLen) with
  | error e =>
    simp only [handleIncoming, hd]
    split <;> rfl
  | ok header =>
    rw [handleIncoming_of_decode hd, handleIncoming_of_decode hd]
    split
    · have hno : ∀ env st msg, (handleHandshake P udp env st msg source).tun = [] := by
        intro env st msg
        rcases @handleHandshake_cases P udp env st msg source with h | ⟨sid, msg2, h⟩ <;> exact h.tun
      rw [hno, hno]
    · have h' : ServerState.sessionOf
          { st with metrics := st.metrics.recordReceived data.length } source =
        ServerState.sessionOf
          { st' with metrics := st'.metrics.recordReceived data.length } source := h
      cases hs : ServerState.sessionOf
          { st with metrics := st.metrics.recordReceived data.length } source with
      | none =>
        rw [handleData_of_none P header _ hs, handleData_of_none P header _ (h'.symm.trans hs)]
      | some s =>
        rw [(handleData_of_session P header _ hs).2.1,
          (handleData_of_session P header _ (h'.symm.trans hs)).2.1]

end Turn

/-- A turn that answers nothing, maps no address and installs no session. -/
structure IncomingOutcome.Silent (st : ServerState) (out : IncomingOutcome) : Prop where
  sent : out.sent = []
  addrMap : out.state.addrMap = st.addrMap
  sessions : ∀ id, out.state.registry.table.get id = none ↔ st.registry.table.get id = none

theorem IncomingOutcome.Ignored.silent (h : out.Ignored st) : out.Silent st :=
  ⟨h.sent, h.addrMap, fun id => by rw [h.table]⟩

/-- The session goes back into the slot it came from. -/
theorem IncomingOutcome.Opened.silent {data : Bytes} {header : Header}
    (h : out.Opened P st data source header s) : out.Silent st := by
  obtain ⟨sid, -, hs⟩ := ServerState.sessionOf_eq_some_iff.mp h.session
  refine ⟨h.sent, h.addrMap, fun id => ?_⟩
  rw [h.table]
  exact SessionTable.get_set_eq_none_iff hs (by rfl) id

theorem handleIncoming_silent_or_accepted (P : Primitives) (udp : UdpSocket) (env : IncomingEnv)
    (st : ServerState) (data : Bytes) (source : SocketAddr) :
    (handleIncoming P udp env st data source).Silent st ∨
      ∃ sid msg2, (handleIncoming P udp env st data source).Accepted P udp env st
        (data.drop headerLen) source sid msg2 := by
  rcases handleIncoming_cases P udp env st data source with h | ⟨header, s, h⟩ | h
  · exact Or.inl h.silent
  · exact Or.inl h.silent
  · exact Or.inr h

/-- The server's keys, prologue and cap are those of its start. -/
def KeepsIdentity (registry : ClientRegistry) (st : ServerState) : Prop :=
  ∃ cursor table, st.registry = { registry with nextId := cursor, table := table }

theorem KeepsIdentity.step {udp : UdpSocket} {registry : ClientRegistry}
    (h : KeepsIdentity registry st) (arrival : Arrival) :
    KeepsIdentity registry (serverLoop P udp st arrival).2 := by
  obtain ⟨cursor, table, hreg⟩ := h
  obtain ⟨cursor', table', hreg'⟩ := handleIncoming_registry P udp arrival.env st arrival.data
    arrival.source
  refine ⟨cursor', table', ?_⟩
  rw [hreg] at hreg'
  exact hreg'

theorem serverLoop_keepsIdentity (P : Primitives) (udp : UdpSocket) (registry : ClientRegistry)
    (metrics : PipelineMetrics) (run : List Arrival) :
    KeepsIdentity registry ((serverLoop P udp).final (.init registry metrics) run) :=
  Machine.final_invariant (I := KeepsIdentity registry) (fun _ arrival h => h.step arrival)
    ⟨registry.nextId, registry.table, rfl⟩ run

end Desmos.Core
