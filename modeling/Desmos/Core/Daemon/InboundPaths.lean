import Desmos.Core.Daemon.Framing
import Desmos.Core.Pipeline.FanOut

/-! # The two inbound paths

The server and the client each have a copy of the inbound step. The client's copy takes data packets
only, looks at the declared length and tells a replay from a packet that does not open. The server's
copy does none of this.
-/
namespace Desmos.Core
open Library Proto

/-- What can be seen of one inbound step: what went to the TUN, the receive window of the session,
and the counters. -/
structure InboundEffect where
  written : List Bytes
  window : Option AntiReplayWindow
  metrics : PipelineMetrics

/-- The step of the server, for the session of an address. -/
def serverEffect (P : Primitives) (udp : UdpSocket) (env : IncomingEnv) (st : ServerState)
    (data : Bytes) (source : SocketAddr) : InboundEffect :=
  let out := handleIncoming P udp env st data source
  ⟨out.tun, (out.state.sessionOf source).map fun s => s.state.recvWindow, out.state.metrics⟩

/-- The step of the client, for a datagram that its buffer holds and a TUN that takes the packet. -/
def clientEffect (P : Primitives) (scratchLen : ℕ) (data : Bytes) (source : SocketAddr)
    (s : Session Established) (metrics : PipelineMetrics) : InboundEffect :=
  let out := forwardUdpToTunEncrypted P ⟨scratchLen, .ok (data, source), .ok ()⟩ s metrics
  ⟨out.written, some out.session.state.recvWindow, out.metrics⟩

namespace PipelineMetrics

theorem recordDecryptFailure_ne {m m' : PipelineMetrics}
    (h : m'.decryptFailures = m.decryptFailures) : m.recordDecryptFailure ≠ m' := by
  rintro rfl
  change m.decryptFailures + 1 = m.decryptFailures at h
  exact absurd h (by simp)

end PipelineMetrics

section Effects
variable {P : Primitives} {udp : UdpSocket} {env : IncomingEnv} {st : ServerState} {data : Bytes}
  {source : SocketAddr} {s : Session Established} {header : Header} {scratchLen : ℕ}
  {metrics : PipelineMetrics}

def serverCount (metrics : PipelineMetrics) : Except SessionError Bytes → PipelineMetrics
  | .ok _ => metrics
  | .error _ => metrics.recordDecryptFailure

theorem serverEffect_of_undecodable (hsession : st.sessionOf source = some s)
    (h : ∀ header, Header.decode (data.take headerLen) ≠ .ok header) :
    serverEffect P udp env st data source = ⟨[], some s.state.recvWindow,
      (st.metrics.recordReceived data.length).recordBadHeader⟩ := by
  have hout : handleIncoming P udp env st data source = ⟨{ st with
      metrics := (st.metrics.recordReceived data.length).recordBadHeader }, [], []⟩ := by
    cases hd : Header.decode (data.take headerLen) with
    | ok header => exact absurd hd (h header)
    | error e =>
      simp only [handleIncoming, hd]
      split <;> rfl
  have hsame : ServerState.sessionOf { st with
      metrics := (st.metrics.recordReceived data.length).recordBadHeader } source = some s :=
    hsession
  rw [serverEffect, hout, hsame]
  rfl

theorem sessionOf_set (hsession : st.sessionOf source = some s) {s' : Session Established}
    (hid : s'.id = s.id) (metrics : PipelineMetrics) :
    ServerState.sessionOf { st with
      registry := { st.registry with table := st.registry.table.set (.established s') }
      metrics := metrics } source = some s' := by
  obtain ⟨sid, hmap, hget⟩ := ServerState.sessionOf_eq_some_iff.mp hsession
  refine ServerState.sessionOf_eq_some_iff.mpr ⟨sid, hmap, ?_⟩
  have hfiled : AnySession.id (.established s') = sid :=
    hid.trans (st.registry.table.filed sid _ hget)
  rw [← hfiled]
  exact SessionTable.get_set_self _ _

theorem serverEffect_of_decode (hsession : st.sessionOf source = some s)
    (hd : Header.decode (data.take headerLen) = .ok header)
    (ht : header.packetType ≠ .handshake) :
    let r := s.decryptData P header.sequence.toUInt64 (data.drop headerLen)
    serverEffect P udp env st data source = ⟨r.1.toOption.toList,
      some (s.state.recvWindow.checkAndUpdate header.sequence.toUInt64).2,
      serverCount (st.metrics.recordReceived data.length) r.1⟩ := by
  have hid := Session.decryptData_id P s header.sequence.toUInt64 (data.drop headerLen)
  have hwindow := Session.decryptData_recvWindow P s header.sequence.toUInt64 (data.drop headerLen)
  rcases hr : s.decryptData P header.sequence.toUInt64 (data.drop headerLen) with ⟨result, next⟩
  rw [hr] at hid hwindow
  obtain ⟨sid, hmap, hget⟩ := ServerState.sessionOf_eq_some_iff.mp hsession
  rw [serverEffect, handleIncoming_of_decode hd, if_neg ht, ← hwindow]
  cases result with
  | ok plaintext =>
    simp only [handleData, hmap, hget, hr, sessionOf_set hsession hid, Option.map_some]
    rfl
  | error e =>
    simp only [handleData, hmap, hget, hr, sessionOf_set hsession hid, Option.map_some]
    rfl

def clientCount (metrics : PipelineMetrics) : Except SessionError Bytes → PipelineMetrics
  | .error (.replay _) => metrics.recordReplayDrop
  | .error (.crypto _) => metrics.recordDecryptFailure
  | _ => metrics

theorem clientEffect_of_undecodable (hscratch : headerLen ≤ scratchLen)
    (hfit : data.length ≤ scratchLen)
    (h : ∀ header, Header.decode (data.take headerLen) ≠ .ok header) :
    clientEffect P scratchLen data source s metrics = ⟨[], some s.state.recvWindow,
      (metrics.recordReceived data.length).recordBadHeader⟩ := by
  have htake : data.take scratchLen = data := List.take_of_length_le hfit
  cases hd : Header.decode (data.take headerLen) with
  | ok header => exact absurd hd (h header)
  | error e =>
    simp only [clientEffect, forwardUdpToTunEncrypted, not_lt.mpr hscratch, if_false, htake, hd]
    split <;> rfl

theorem clientEffect_of_decode (hscratch : headerLen ≤ scratchLen) (hfit : data.length ≤ scratchLen)
    (hd : Header.decode (data.take headerLen) = .ok header) :
    let r := s.decryptData P header.sequence.toUInt64 (slice data headerLen header.payloadLen.toNat)
    clientEffect P scratchLen data source s metrics =
      if header.packetType ≠ .data then
        ⟨[], some s.state.recvWindow, metrics.recordReceived data.length⟩
      else if data.length - headerLen < header.payloadLen.toNat then
        ⟨[], some s.state.recvWindow, (metrics.recordReceived data.length).recordBadHeader⟩
      else ⟨r.1.toOption.toList,
        some (s.state.recvWindow.checkAndUpdate header.sequence.toUInt64).2,
        clientCount (metrics.recordReceived data.length) r.1⟩ := by
  intro r
  have htake : data.take scratchLen = data := List.take_of_length_le hfit
  have hlen : ¬ data.length < headerLen := by
    intro hl
    simp [Header.decode, hl] at hd
  have hwindow : r.2.state.recvWindow =
      (s.state.recvWindow.checkAndUpdate header.sequence.toUInt64).2 :=
    Session.decryptData_recvWindow P s header.sequence.toUInt64 _
  simp only [clientEffect, forwardUdpToTunEncrypted, not_lt.mpr hscratch, if_false, htake, hlen, hd]
  by_cases ht : header.packetType ≠ .data
  · simp only [if_pos ht]
  by_cases hshort : data.length - headerLen < header.payloadLen.toNat
  · simp only [if_neg ht, gt_iff_lt, if_pos hshort]
  simp only [if_neg ht, gt_iff_lt, if_neg hshort]
  rw [← hwindow]
  rcases hr : r with ⟨result, next⟩
  have hr' : s.decryptData P header.sequence.toUInt64
      (slice data headerLen header.payloadLen.toNat) = (result, next) := hr
  rw [hr']
  cases result with
  | ok plaintext => rfl
  | error e => cases e <;> rfl

end Effects

/-- What the keys of the session make of a payload. -/
def opensTo (P : Primitives) (s : Session Established) (seq : UInt64) (ct : Bytes) : Option Bytes :=
  (s.state.recvKey.openInPlace P (buildNonce seq) (buildAad s.id seq) ct).toOption

/-- A datagram on which the missing checks of the server make no difference: a data packet, with
a number that is new to the window, that holds what it declares and whose declared part opens to
what all of it opens to. -/
structure TreatedAlike (P : Primitives) (s : Session Established) (data : Bytes) (header : Header) :
    Prop where
  packetType : header.packetType = .data
  declared : header.payloadLen.toNat ≤ data.length - headerLen
  fresh : s.state.recvWindow.wouldAccept header.sequence.toUInt64 = true
  opens : opensTo P s header.sequence.toUInt64 (data.drop headerLen) =
    opensTo P s header.sequence.toUInt64 (slice data headerLen header.payloadLen.toNat)

section Compare
variable {P : Primitives} {s : Session Established} {seq : UInt64} {ct : Bytes}

theorem decryptData_of_replay (P : Primitives) (h : s.state.recvWindow.wouldAccept seq ≠ true)
    (ct : Bytes) :
    ∃ e, (s.decryptData P seq ct).1 = .error (.replay e) := by
  rw [ne_eq, AntiReplayWindow.wouldAccept_iff] at h
  rcases hw : s.state.recvWindow.checkAndUpdate seq with ⟨e | u, window⟩
  · exact ⟨e, by simp [Session.decryptData, Established.receive, hw]⟩
  · rw [hw] at h
    exact absurd rfl h

theorem decryptData_of_fresh (P : Primitives) (h : s.state.recvWindow.wouldAccept seq = true)
    (ct : Bytes) :
    (∃ pt, opensTo P s seq ct = some pt ∧ (s.decryptData P seq ct).1 = .ok pt) ∨
      opensTo P s seq ct = none ∧ ∃ e, (s.decryptData P seq ct).1 = .error (.crypto e) := by
  rw [AntiReplayWindow.wouldAccept_iff] at h
  rcases hw : s.state.recvWindow.checkAndUpdate seq with ⟨e | u, window⟩
  · rw [hw] at h
    cases h
  · cases ho : s.state.recvKey.openInPlace P (buildNonce seq) (buildAad s.id seq) ct with
    | ok pt =>
      refine Or.inl ⟨pt, by rw [opensTo, ho]; rfl, ?_⟩
      simp [Session.decryptData, Established.receive, hw, ho]
    | error e =>
      refine Or.inr ⟨by rw [opensTo, ho]; rfl, e, ?_⟩
      simp [Session.decryptData, Established.receive, hw, ho]

theorem serverCount_ne_silent (metrics metrics' : PipelineMetrics)
    (h : metrics'.decryptFailures = metrics.decryptFailures) (r : Except SessionError Bytes)
    (window window' : Option AntiReplayWindow) :
    (⟨r.toOption.toList, window, serverCount metrics r⟩ : InboundEffect) ≠
      ⟨[], window', metrics'⟩ := by
  intro heq
  obtain ⟨hwritten, -, hmetrics⟩ := InboundEffect.mk.inj heq
  cases r with
  | ok plaintext => exact absurd hwritten (List.cons_ne_nil _ _)
  | error e => exact PipelineMetrics.recordDecryptFailure_ne h hmetrics

theorem effect_eq_iff (P : Primitives) (h : s.state.recvWindow.wouldAccept seq = true)
    (ct ct' : Bytes) (window : Option AntiReplayWindow) (metrics : PipelineMetrics) :
    (⟨(s.decryptData P seq ct).1.toOption.toList, window,
        serverCount metrics (s.decryptData P seq ct).1⟩ : InboundEffect) =
      ⟨(s.decryptData P seq ct').1.toOption.toList, window,
        clientCount metrics (s.decryptData P seq ct').1⟩ ↔
      opensTo P s seq ct = opensTo P s seq ct' := by
  rcases decryptData_of_fresh P h ct with ⟨pt, ho, hr⟩ | ⟨ho, e, hr⟩
  · rcases decryptData_of_fresh P h ct' with ⟨pt', ho', hr'⟩ | ⟨ho', e', hr'⟩
    · rw [hr, hr', ho, ho']
      simp [serverCount, clientCount, Except.toOption]
    · rw [hr, hr', ho, ho']
      simp [Except.toOption]
  · rcases decryptData_of_fresh P h ct' with ⟨pt', ho', hr'⟩ | ⟨ho', e', hr'⟩
    · rw [hr, hr', ho, ho']
      simp [Except.toOption]
    · rw [hr, hr', ho, ho']
      simp [serverCount, clientCount, Except.toOption]

end Compare

/-- The server and the client treat a datagram of the session's peer alike, in what they write, in
the receive window and in what they count, exactly when its header is bad, or the checks that only
the client makes would let it pass. -/
theorem inboundPaths_agree_iff (P : Primitives) (udp : UdpSocket) (env : IncomingEnv)
    (st : ServerState) (source : SocketAddr) (s : Session Established)
    (hsession : st.sessionOf source = some s) (data : Bytes)
    (hdata : ∀ header, Header.decode (data.take headerLen) = .ok header →
      header.packetType ≠ .handshake)
    (scratchLen : ℕ) (hscratch : headerLen ≤ scratchLen) (hfit : data.length ≤ scratchLen) :
    serverEffect P udp env st data source =
        clientEffect P scratchLen data source s st.metrics ↔
      ∀ header, Header.decode (data.take headerLen) = .ok header →
        TreatedAlike P s data header := by
  cases hd : Header.decode (data.take headerLen) with
  | error e =>
    have hbad : ∀ header, Header.decode (data.take headerLen) ≠ .ok header := by simp [hd]
    rw [serverEffect_of_undecodable hsession hbad, clientEffect_of_undecodable hscratch hfit hbad]
    simp
  | ok header =>
    simp only [Except.ok.injEq, forall_eq']
    rw [serverEffect_of_decode hsession hd (hdata header hd),
      clientEffect_of_decode hscratch hfit hd]
    set metrics := st.metrics.recordReceived data.length
    by_cases ht : header.packetType = .data
    · rw [if_neg (not_not.mpr ht)]
      by_cases hdeclared : data.length - headerLen < header.payloadLen.toNat
      · rw [if_pos hdeclared]
        apply iff_of_false
        · exact serverCount_ne_silent metrics metrics.recordBadHeader rfl _ _ _
        · exact fun h => absurd h.declared (not_le.mpr hdeclared)
      · rw [if_neg hdeclared]
        by_cases hfresh : s.state.recvWindow.wouldAccept header.sequence.toUInt64 = true
        · rw [effect_eq_iff P hfresh]
          exact ⟨fun h => ⟨ht, not_lt.mp hdeclared, hfresh, h⟩, TreatedAlike.opens⟩
        · obtain ⟨e, hreplay⟩ := decryptData_of_replay P hfresh
            (slice data headerLen header.payloadLen.toNat)
          rw [hreplay]
          apply iff_of_false
          · exact serverCount_ne_silent metrics metrics.recordReplayDrop rfl _ _ _
          · exact fun h => hfresh h.fresh
    · rw [if_pos ht]
      apply iff_of_false
      · exact serverCount_ne_silent metrics metrics rfl _ _ _
      · exact fun h => ht h.packetType

namespace Sample

/-- A server that maps one address to an established session. -/
def onePeer : ServerState :=
  { server with
    registry := { server.registry with
      table := server.registry.table.set (.established (freshSession 7 keys 0)) }
    addrMap := server.addrMap.insert (addr 1) 7 }

/-- The sealed packet behind a header of some type. -/
def behind (packetType : PacketType) : Bytes :=
  { (Header.new packetType 7) with payloadLen := 18 }.bytes ++ sealedPacket

theorem onePeer_session : onePeer.sessionOf (addr 1) = some (freshSession 7 keys 0) :=
  rfl

end Sample

/-- A packet behind a data header is opened and written by both. -/
theorem inboundPaths_agree_data :
    serverEffect .transparent Sample.udp Sample.turn Sample.onePeer (Sample.behind .data)
        (Sample.addr 1) =
      clientEffect .transparent 64 (Sample.behind .data) (Sample.addr 1)
        (freshSession 7 Sample.keys 0) Sample.onePeer.metrics := by
  have hdecode : Header.decode ((Sample.behind .data).take headerLen) =
      .ok { (Header.new .data 7) with payloadLen := 18 } := by decide
  apply (inboundPaths_agree_iff .transparent Sample.udp Sample.turn Sample.onePeer
    (Sample.addr 1) (freshSession 7 Sample.keys 0) Sample.onePeer_session (Sample.behind .data)
    ?_ 64 (by decide) (by decide)).mpr
  · rintro header heq
    cases heq
    exact ⟨rfl, by decide, by decide, rfl⟩
  · rintro header heq
    cases heq
    decide

/-- The same packet behind a keepalive header: the server writes it to the TUN and moves its
window, the client ignores it. -/
theorem inboundPaths_differ_keepalive :
    Header.decode ((Sample.behind .keepalive).take headerLen) =
      .ok { (Header.new .keepalive 7) with payloadLen := 18 } ∧
    (serverEffect .transparent Sample.udp Sample.turn Sample.onePeer (Sample.behind .keepalive)
      (Sample.addr 1)).written = [[104, 105]] ∧
    (clientEffect .transparent 64 (Sample.behind .keepalive) (Sample.addr 1)
      (freshSession 7 Sample.keys 0) Sample.onePeer.metrics).written = [] := by
  decide

end Desmos.Core
