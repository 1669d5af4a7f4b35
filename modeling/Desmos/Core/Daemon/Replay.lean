import Desmos.Core.Daemon.Links
import Desmos.Core.Daemon.SessionIds

/-! # Datagrams that come a second time

Message 1 carries nothing that is good for one use only, so a copy of a handshake moves the address
of a connected client to a session the client knows nothing of. A copy of a data frame goes through
the window of the session it is handed to.
-/
namespace Desmos.Core
open Library Proto

section Replay
variable {P : Primitives} {udp : UdpSocket} {env : IncomingEnv} {st : ServerState}
  {source : SocketAddr} {s : Session Established} {data : Bytes} {out : IncomingOutcome}
  {sid : SessionId}

/-- The server would take in one more handshake from `source`. -/
structure HasRoom (env : IncomingEnv) (st : ServerState) (source : SocketAddr) : Prop where
  rateLimit : (st.rateLimiter.tryAdmit source.ip env.nowMs).1 = true
  capacity : st.registry.atCapacity = false
  freeId : ∃ id, ClientRegistry.Free st.registry.table id
  entropy : env.entropy ≠ none

/-- The datagram went somewhere: it was answered, or written to the TUN. -/
def TakenIn (P : Primitives) (udp : UdpSocket) (st : ServerState) (run : List Arrival)
    (data : Bytes) : Prop :=
  ∃ e ∈ (serverLoop P udp).trace st run, e.1.data = data ∧ (e.2.1 ≠ [] ∨ e.2.2 ≠ [])

/-- A turn that leaves a client alone: the map and the client's session are what they
were, and every later frame of the client brings to the TUN what it would have brought. -/
structure IncomingOutcome.Undisturbed (P : Primitives) (udp : UdpSocket) (st : ServerState)
    (source : SocketAddr) (out : IncomingOutcome) : Prop where
  addrMap : out.state.addrMap = st.addrMap
  session : out.state.sessionOf source = st.sessionOf source
  delivers : ∀ env data, (handleIncoming P udp env out.state data source).tun =
    (handleIncoming P udp env st data source).tun

/-- What the server does not act on: a handshake it has no room for, and a data frame
whose number the window of the session refuses. -/
def NotActedOn (env : IncomingEnv) (st : ServerState) (source : SocketAddr)
    (s : Session Established) (data : Bytes) : Prop :=
  match Header.decode (data.take headerLen) with
  | .error _ => True
  | .ok header =>
    if header.packetType = .handshake then ¬ HasRoom env st source
    else s.state.recvWindow.wouldAccept header.sequence.toUInt64 = false

theorem IncomingOutcome.undisturbed_iff : out.Undisturbed P udp st source ↔
      out.state.addrMap = st.addrMap ∧ out.state.sessionOf source = st.sessionOf source :=
  ⟨fun h => ⟨h.addrMap, h.session⟩,
    fun ⟨hm, hs⟩ => ⟨hm, hs, fun env data => handleIncoming_tun_congr env hs data⟩⟩

theorem IncomingOutcome.undisturbed_metrics (m : PipelineMetrics) :
    out.Undisturbed P udp { st with metrics := m } source ↔ out.Undisturbed P udp st source := by
  rw [undisturbed_iff, undisturbed_iff]
  exact Iff.rfl

theorem IncomingOutcome.Ignored.undisturbed (h : out.Ignored st) :
    out.Undisturbed P udp st source := by
  rw [undisturbed_iff]
  refine ⟨h.addrMap, ?_⟩
  simp only [ServerState.sessionOf, h.addrMap, h.table]

theorem IncomingOutcome.Accepted.not_undisturbed {msg1 msg2 : Bytes}
    (h : out.Accepted P udp env st msg1 source sid msg2)
    (hs : st.sessionOf source = some s) : ¬ out.Undisturbed P udp st source := by
  intro hun
  obtain ⟨old, hm, hget⟩ := ServerState.sessionOf_eq_some_iff.mp hs
  obtain ⟨⟨-, hfree⟩, -⟩ := ClientRegistry.acceptClientMsg1_installs h.accept
  have hnew : out.state.addrMap.lookup source = some sid := by
    rw [h.addrMap]
    exact AList.lookup_insert _
  rw [hun.addrMap, hm, Option.some.injEq] at hnew
  subst hnew
  rw [hfree] at hget
  cases hget

theorem IncomingOutcome.Accepted.hasRoom {msg1 msg2 : Bytes}
    (h : (handleHandshake P udp env st msg1 source).Accepted P udp env st msg1 source sid msg2) :
    HasRoom env st source := by
  obtain ⟨hcap, cursor, session, -, hr, -⟩ := ClientRegistry.acceptClientMsg1_ok_iff.mp h.accept
  obtain ⟨hfree, -⟩ := ClientRegistry.acceptClientMsg1_installs h.accept
  refine ⟨?_, hcap, ⟨sid, hfree⟩, ?_⟩
  · -- a refused source gets no answer
    by_contra hrate
    have hsent := h.sent
    rcases hrl : st.rateLimiter.tryAdmit source.ip env.nowMs with ⟨granted, rl⟩
    obtain rfl : granted = false := by simpa [hrl] using hrate
    simp [handleHandshake, hrl] at hsent
  · intro hent
    obtain ⟨res1, keys, res2, -, hwrite, -⟩ := ClientRegistry.respond_ok_iff.mp hr
    rw [hent] at hwrite
    rcases hre : res1.re with _ | re <;> rcases hrs : res1.rs with _ | rs <;>
      simp [Responder.writeMessage2, hre, hrs, X25519PrivateKey.generate] at hwrite

theorem HasRoom.accepted (hroom : HasRoom env st source) (hP : P.LawfulAead) {msg1 : Bytes}
    (hread : st.registry.Reads P msg1) : ∃ sid msg2,
      (handleHandshake P udp env st msg1 source).Accepted P udp env st msg1 source sid msg2 := by
  obtain ⟨id, hid⟩ := hroom.freeId
  obtain ⟨rk, hrk⟩ := Option.ne_none_iff_exists'.mp hroom.entropy
  have hsome : (ClientRegistry.findId st.registry.table 65536 st.registry.nextId).1 ≠ none :=
    fun hnone => ClientRegistry.findId_full_iff.mp hnone id hid.1 hid.2
  rcases hf : ClientRegistry.findId st.registry.table 65536 st.registry.nextId with
    ⟨_ | sid, cursor⟩
  · simp [hf] at hsome
  · obtain ⟨msg2, r', hacc⟩ := hread.accept hP hroom.capacity hf rk env.nowMs
    rw [← hrk] at hacc
    rcases hrl : st.rateLimiter.tryAdmit source.ip env.nowMs with ⟨granted, rl⟩
    obtain rfl : granted = true := by simpa [hrl] using hroom.rateLimit
    refine ⟨sid, msg2, ?_⟩
    simp only [handleHandshake, hrl, hacc]
    exact ⟨hacc, rfl, rfl, rfl⟩

theorem handleHandshake_accepts_iff (hP : P.LawfulAead) {msg1 : Bytes}
    (hread : st.registry.Reads P msg1) :
    (∃ sid msg2, (handleHandshake P udp env st msg1 source).Accepted P udp env st msg1 source sid
      msg2) ↔ HasRoom env st source := by
  constructor
  · rintro ⟨sid, msg2, h⟩
    exact h.hasRoom
  · intro hroom
    exact hroom.accepted hP hread

theorem handleHandshake_undisturbed_iff (hP : P.LawfulAead) {msg1 : Bytes}
    (hread : st.registry.Reads P msg1) (hs : st.sessionOf source = some s) :
    (handleHandshake P udp env st msg1 source).Undisturbed P udp st source ↔
      ¬ HasRoom env st source := by
  rw [← @handleHandshake_accepts_iff P udp env st source hP msg1 hread]
  constructor
  · rintro hun ⟨sid, msg2, h⟩
    exact h.not_undisturbed hs hun
  · intro hno
    rcases @handleHandshake_cases P udp env st msg1 source with h | h
    · exact h.undisturbed
    · exact absurd h hno

theorem handleData_undisturbed_iff (header : Header) (payload : Bytes)
    (hs : st.sessionOf source = some s) :
    (handleData P st header payload source).Undisturbed P udp st source ↔
      s.state.recvWindow.wouldAccept header.sequence.toUInt64 = false := by
  obtain ⟨-, -, hmap, hreg⟩ := handleData_of_session P header payload hs
  obtain ⟨sid, hm, hget⟩ := ServerState.sessionOf_eq_some_iff.mp hs
  have hid : s.id = sid := st.registry.table.filed sid (.established s) hget
  have hnew : (handleData P st header payload source).state.sessionOf source =
      some (s.decryptData P header.sequence.toUInt64 payload).2 := by
    refine ServerState.sessionOf_eq_some_iff.mpr ⟨sid, by rw [hmap, hm], ?_⟩
    rw [hreg, Session.decryptData_state, ← hid]
    exact SessionTable.get_set_self _ _
  rw [IncomingOutcome.undisturbed_iff, hnew, hs, Option.some.injEq,
    ← AntiReplayWindow.checkAndUpdate_unchanged_iff, Session.decryptData_state]
  constructor
  · rintro ⟨-, h⟩
    exact congrArg (fun s : Session Established => s.state.recvWindow) h
  · intro h
    rw [h]
    exact ⟨hmap, rfl⟩

end Replay

section Run
variable {P : Primitives} {udp : UdpSocket} {registry : ClientRegistry} {metrics : PipelineMetrics}
  {run : List Arrival} {data : Bytes} {header : Header}

theorem KeepsIdentity.reads_iff {st : ServerState} (h : KeepsIdentity registry st) (msg1 : Bytes) :
    st.registry.Reads P msg1 ↔ registry.Reads P msg1 := by
  obtain ⟨cursor, table, hreg⟩ := h
  rw [hreg]
  exact Iff.rfl

/-- What the server answered once, its registry reads for good. -/
theorem TakenIn.reads (h : TakenIn P udp (.init registry metrics) run data)
    (hd : Header.decode (data.take headerLen) = .ok header) (ht : header.packetType = .handshake) :
    registry.Reads P (data.drop headerLen) := by
  obtain ⟨e, he, rfl, htaken⟩ := h
  refine Machine.trace_invariant (I := KeepsIdentity registry)
    (p := fun e : Arrival × (List Datagram × List Bytes) =>
      Header.decode (e.1.data.take headerLen) = .ok header → e.2.1 ≠ [] ∨ e.2.2 ≠ [] →
        registry.Reads P (e.1.data.drop headerLen))
    (fun _ arrival h => h.step arrival) ?_ ⟨registry.nextId, registry.table, rfl⟩ e he hd htaken
  intro st arrival hst hd htaken
  rcases handleIncoming_cases P udp arrival.env st arrival.data arrival.source with
    hi | ⟨header', s, ho⟩ | ⟨sid, msg2, ha⟩
  · simp [serverLoop, hi.sent, hi.tun] at htaken
  · obtain rfl : header = header' := by simpa [hd] using ho.decode
    exact absurd ht ho.packetType
  · exact (hst.reads_iff _).mp (ClientRegistry.reads_of_accept ha.accept)

/-- In every reachable state, a datagram that the server took in before leaves a connected
client alone if and only if the server does not act on it now. -/
theorem replay_undisturbed_iff (P : Primitives) (hP : P.LawfulAead) (udp : UdpSocket)
    (registry : ClientRegistry) (metrics : PipelineMetrics) (run : List Arrival)
    (st : ServerState) (hst : (serverLoop P udp).final (.init registry metrics) run = st)
    (source : SocketAddr) (s : Session Established) (hs : st.sessionOf source = some s)
    (data : Bytes) (hdata : TakenIn P udp (.init registry metrics) run data) (env : IncomingEnv) :
    (handleIncoming P udp env st data source).Undisturbed P udp st source ↔
      NotActedOn env st source s data := by
  subst hst
  have hid := serverLoop_keepsIdentity P udp registry metrics run
  generalize (serverLoop P udp).final (.init registry metrics) run = st at hs hid ⊢
  unfold NotActedOn
  split
  · next e hd =>
    refine iff_of_true ?_ trivial
    have hi : (handleIncoming P udp env st data source).Ignored st := by
      simp only [handleIncoming, hd]
      split <;> exact ⟨rfl, rfl, rfl, rfl⟩
    exact hi.undisturbed
  · next header hd =>
    rw [handleIncoming_of_decode hd,
      ← IncomingOutcome.undisturbed_metrics (st.metrics.recordReceived data.length)]
    split
    · next ht =>
      have hread : st.registry.Reads P (data.drop headerLen) :=
        (hid.reads_iff _).mpr (hdata.reads hd ht)
      have hiff := @handleHandshake_undisturbed_iff P udp env
        { st with metrics := st.metrics.recordReceived data.length } source s hP _ hread hs
      refine hiff.trans ?_
      exact ⟨fun h hr => h ⟨hr.1, hr.2, hr.3, hr.4⟩, fun h hr => h ⟨hr.1, hr.2, hr.3, hr.4⟩⟩
    · exact handleData_undisturbed_iff header (data.drop headerLen) hs

end Run

namespace Sample

def server2 : ServerState := (handleIncoming .transparent udp turn server1 hello (addr 1)).state

theorem server1_registry : server1.registry = registry1 := by
  obtain ⟨hacc, -⟩ := registry1_accepted
  exact (handleIncoming_accepts udp (h := Header.new .handshake clientSessionId) rfl rfl
    (server_admits 1).rateLimit hacc).2

theorem server1_admits : (server1.rateLimiter.tryAdmit (addr 1).ip turn.nowMs).1 = true := by
  have hrl : server1.rateLimiter = (server.rateLimiter.tryAdmit (addr 1).ip turn.nowMs).2 := by
    rw [server1, hello, handleIncoming_framed rfl,
      if_pos (show (Header.new .handshake clientSessionId).packetType = .handshake from rfl)]
    exact handleHandshake_rateLimiter
  rw [hrl]
  rfl

theorem replay_accepted :
    (handleIncoming .transparent udp turn server1 hello (addr 1)).Accepted .transparent udp turn
      server1 (msg1 clientKey) (addr 1) 2 (msg2 registry1 clientKey) ∧
    ∃ keys, server2.registry.table = registry1.table.set (.established (freshSession 2 keys 0)) := by
  obtain ⟨-, keys1, hreg⟩ := registry1_accepted
  have hfree : ClientRegistry.findId
      (server.registry.table.set (.established (freshSession 1 keys1 0))) 65536 2 = (some 2, 3) :=
    ClientRegistry.findId_of_free ⟨by decide, rfl⟩
  have hfind : ClientRegistry.findId registry1.table 65536 registry1.nextId = (some 2, 3) := by
    rw [hreg]
    exact hfree
  obtain ⟨r2, -, keys, hacc, -, htable⟩ := accepts (r := registry1) clientKey (by rw [hreg]; rfl)
    (by rw [hreg]; rfl) (by rw [hreg]; rfl) (by rw [hreg]; rfl) hfind
  rw [← server1_registry] at hacc
  obtain ⟨hout, hr⟩ := handleIncoming_accepts udp (h := Header.new .handshake clientSessionId) rfl
    rfl server1_admits hacc
  rw [server1_registry] at hout
  refine ⟨hout, keys, ?_⟩
  rw [server2, hello, hr, htable]
  rfl

def connected : List Arrival := [⟨turn, hello, addr 1⟩]

theorem hello_takenIn : TakenIn .transparent udp server connected hello := by
  obtain ⟨hacc, -⟩ := hello_accepted
  refine ⟨_, List.mem_singleton_self _, rfl, Or.inl ?_⟩
  simp [serverLoop, hacc.sent]

theorem server1_session : ∃ s, server1.sessionOf (addr 1) = some s ∧
    AuthenticFrame .transparent server1 1 s header ciphertext [69, 0, 0] := by
  obtain ⟨s, hf⟩ := authentic_frame
  obtain ⟨hacc, -⟩ := hello_accepted
  refine ⟨s, ServerState.sessionOf_eq_some_iff.mpr ⟨1, ?_, hf.session⟩, hf⟩
  rw [server1, hacc.addrMap]
  exact AList.lookup_insert _

theorem authentic_frame_after_replay : ∃ s,
    AuthenticFrame .transparent server2 1 s header ciphertext [69, 0, 0] := by
  obtain ⟨s, hf⟩ := authentic_frame
  obtain ⟨-, keys, htable⟩ := replay_accepted
  rw [← server1_registry] at htable
  refine ⟨s, ?_, hf.version, hf.packetType, hf.unseen, hf.opens, ?_⟩
  · have hne : (1 : SessionId) ≠ 2 := by decide
    have hother : (server1.registry.table.set (.established (freshSession 2 keys 0))).get 1 =
        server1.registry.table.get 1 := SessionTable.get_set_of_ne _ hne
    rw [htable, hother, hf.session]
  · intro sid' s' hne hget pt' hopen
    by_cases hsid : sid' = 2
    · subst hsid
      have hset : (server1.registry.table.set (.established (freshSession 2 keys 0))).get 2 =
          some (.established (freshSession 2 keys 0)) := SessionTable.get_set_self _ _
      rw [htable, hset, Option.some.injEq, AnySession.established.injEq] at hget
      subst hget
      obtain ⟨-, hopen⟩ := AeadKey.openInPlace_ok_iff.mp hopen
      have hseal : Primitives.transparent.aeadSeal keys.recv (buildNonce 0) (buildAad 1 0)
          [69, 0, 0] = some ciphertext := Primitives.transparent_seal_iff.mpr ⟨by decide, rfl⟩
      have hnone : Primitives.transparent.aeadOpen keys.recv (buildNonce 0) (buildAad 2 0)
          ciphertext = none := transparent_bindsSessionId hseal (by decide)
      exact absurd (hnone.symm.trans hopen) (by simp)
    · rw [htable, SessionTable.get_set_of_ne _ hsid] at hget
      exact hf.others sid' s' hne hget pt' hopen

end Sample

theorem replay_undisturbed_first_client : ∃ s,
    Sample.server1.sessionOf (Sample.addr 1) = some s ∧
    TakenIn .transparent Sample.udp Sample.server Sample.connected Sample.hello ∧
    ((handleIncoming .transparent Sample.udp Sample.turn Sample.server1 Sample.hello
        (Sample.addr 1)).Undisturbed .transparent Sample.udp Sample.server1 (Sample.addr 1) ↔
      NotActedOn Sample.turn Sample.server1 (Sample.addr 1) s Sample.hello) := by
  obtain ⟨s, hs, -⟩ := Sample.server1_session
  exact ⟨s, hs, Sample.hello_takenIn, replay_undisturbed_iff .transparent
    Primitives.transparent_lawfulAead Sample.udp _ _ Sample.connected Sample.server1 rfl
    (Sample.addr 1) s hs Sample.hello Sample.hello_takenIn Sample.turn⟩

/-- The handshake of the first client, sent once more from its address: the next frame of
the client, which the server would have delivered, is lost. -/
theorem replayed_handshake_cuts_off :
    (∃ s, Sample.server1.sessionOf (Sample.addr 1) = some s) ∧
    TakenIn .transparent Sample.udp Sample.server Sample.connected Sample.hello ∧
    ¬ (handleIncoming .transparent Sample.udp Sample.turn Sample.server1 Sample.hello
      (Sample.addr 1)).Undisturbed .transparent Sample.udp Sample.server1 (Sample.addr 1) ∧
    (handleIncoming .transparent Sample.udp Sample.turn Sample.server1
      (Sample.header.bytes ++ Sample.ciphertext) (Sample.addr 1)).tun = [[69, 0, 0]] ∧
    (handleIncoming .transparent Sample.udp Sample.turn Sample.server2
      (Sample.header.bytes ++ Sample.ciphertext) (Sample.addr 1)).tun ≠ [[69, 0, 0]] := by
  obtain ⟨s, hs, hf⟩ := Sample.server1_session
  obtain ⟨s', hf'⟩ := Sample.authentic_frame_after_replay
  obtain ⟨hacc, -⟩ := Sample.replay_accepted
  refine ⟨⟨s, hs⟩, Sample.hello_takenIn, hacc.not_undisturbed hs, ?_, ?_⟩
  · obtain ⟨sid, hm, hget⟩ := ServerState.sessionOf_eq_some_iff.mp hs
    have hid : s.id = sid := Sample.server1.registry.table.filed sid (.established s) hget
    have hid1 : s.id = 1 := Sample.server1.registry.table.filed 1 (.established s) hf.session
    rw [hf.delivered_iff, hm, ← hid, hid1]
  · rw [ne_eq, hf'.delivered_iff, Sample.server2, hacc.addrMap, AList.lookup_insert]
    decide

end Desmos.Core
