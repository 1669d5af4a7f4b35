import Desmos.Core.Daemon.Framing
import Desmos.Core.Session.Peers

/-! # The links of one client at the server

The client spreads its data over all of its links. The server finds the session of a datagram by the
source address, and only the handshake puts an address into its map.
-/
namespace Desmos.Core
open Library Proto

section Delivery
variable {P : Primitives} {udp : UdpSocket} {env : IncomingEnv} {st : ServerState}
  {sid : SessionId} {s : Session Established} {h : Header} {ct pt : Bytes} {source : SocketAddr}

/-- A data frame of session `sid` that its window has not seen: the session opens it, and
no other session of the table does. -/
structure AuthenticFrame (P : Primitives) (st : ServerState) (sid : SessionId)
    (s : Session Established) (h : Header) (ct pt : Bytes) : Prop where
  session : st.registry.table.get sid = some (.established s)
  version : h.version = wireVersion
  packetType : h.packetType = .data
  unseen : s.state.recvWindow.wouldAccept h.sequence.toUInt64 = true
  opens : s.state.recvKey.openInPlace P (buildNonce h.sequence.toUInt64)
    (buildAad s.id h.sequence.toUInt64) ct = .ok pt
  others : ∀ sid' s', sid' ≠ sid → st.registry.table.get sid' = some (.established s') → ∀ pt',
    s'.state.recvKey.openInPlace P (buildNonce h.sequence.toUInt64)
      (buildAad s'.id h.sequence.toUInt64) ct ≠ .ok pt'

theorem toOption_toList_eq_singleton {ε α : Type} {r : Except ε α} {a : α} :
    r.toOption.toList = [a] ↔ r = .ok a := by
  cases r <;> simp [Except.toOption]

/-- A frame gets to the TUN exactly if its source address is mapped to its session. -/
theorem AuthenticFrame.delivered_iff (hf : AuthenticFrame P st sid s h ct pt) :
    (handleIncoming P udp env st (h.bytes ++ ct) source).tun = [pt] ↔
      st.addrMap.lookup source = some sid := by
  have hne : ¬ h.packetType = .handshake := by simp [hf.packetType]
  rw [handleIncoming_framed hf.version, if_neg hne]
  cases hs : ServerState.sessionOf
      { st with metrics := st.metrics.recordReceived (h.bytes ++ ct).length } source with
  | none =>
    rw [handleData_of_none P h ct hs]
    constructor
    · intro ht
      simp at ht
    · intro hm
      have hsome := ServerState.sessionOf_eq_some_iff.mpr ⟨sid, hm, hf.session⟩
      exact absurd (hs.symm.trans hsome) (by simp)
  | some s' =>
    obtain ⟨sid', hm, hget⟩ := ServerState.sessionOf_eq_some_iff.mp hs
    rw [(handleData_of_session P h ct hs).2.1, toOption_toList_eq_singleton,
      Session.decryptData_ok_iff]
    rw [hm, Option.some.injEq]
    constructor
    · rintro ⟨-, hopen⟩
      by_contra hsid
      exact hf.others sid' s' hsid hget pt hopen
    · rintro rfl
      obtain rfl : s' = s := by simpa [hf.session] using hget.symm
      exact ⟨hf.unseen, hf.opens⟩

end Delivery

section Run
variable {P : Primitives} {udp : UdpSocket} {st : ServerState} {sid : SessionId}

theorem serverLoop_addrMap {a : SocketAddr} {arrivals : List Arrival}
    (hquiet : ∀ e ∈ (serverLoop P udp).trace st arrivals, e.1.source = a → e.2.1 = []) :
    ((serverLoop P udp).final st arrivals).addrMap.lookup a = st.addrMap.lookup a := by
  refine Machine.final_invariant_of_trace (I := fun t => t.addrMap.lookup a = st.addrMap.lookup a)
    ?_ rfl hquiet
  intro t arrival ht hq
  rcases handleIncoming_silent_or_accepted P udp arrival.env t arrival.data arrival.source with
    hs | ⟨sid, msg2, ha⟩
  · exact (congrArg (AList.lookup a) hs.addrMap).trans ht
  · have hne : a ≠ arrival.source := by
      rintro rfl
      have hnil := hq rfl
      simp [serverLoop, ha.sent] at hnil
    have hmap := congrArg (AList.lookup a) ha.addrMap
    rw [AList.lookup_insert_ne hne, ht] at hmap
    exact hmap

theorem serverLoop_session {s : Session Established}
    (hs : st.registry.table.get sid = some (.established s)) (arrivals : List Arrival) :
    ∃ s', ((serverLoop P udp).final st arrivals).registry.table.get sid =
      some (.established s') ∧ SameKeys s s' := by
  refine Machine.final_invariant (I := fun t : ServerState => ∃ s', t.registry.table.get sid =
    some (.established s') ∧ SameKeys s s') ?_ ⟨s, hs, rfl, rfl, rfl⟩ arrivals
  rintro t arrival ⟨s', hs', hk⟩
  change ∃ s'', (handleIncoming P udp arrival.env t arrival.data
    arrival.source).state.registry.table.get sid = some (.established s'') ∧ SameKeys s s''
  rcases handleIncoming_cases P udp arrival.env t arrival.data arrival.source with
    hi | ⟨header, x, ho⟩ | ⟨sid', msg2, ha⟩
  · exact ⟨s', hi.table ▸ hs', hk⟩
  · obtain ⟨sidx, -, hx⟩ := ServerState.sessionOf_eq_some_iff.mp ho.session
    have hid : x.id = sidx := t.registry.table.filed sidx (.established x) hx
    rw [ho.table, Session.decryptData_state]
    by_cases he : sid = sidx
    · subst he hid
      obtain rfl : s' = x := by simpa [hs'] using hx
      exact ⟨_, SessionTable.get_set_self _ _, hk.id, hk.sendKey, hk.recvKey⟩
    · refine ⟨s', ?_, hk⟩
      rw [SessionTable.get_set_of_ne _ (hid ▸ he), hs']
  · obtain ⟨⟨-, hfree⟩, keys, htable⟩ := ClientRegistry.acceptClientMsg1_installs ha.accept
    refine ⟨s', ?_, hk⟩
    rw [htable, SessionTable.get_set_of_ne, hs']
    rintro rfl
    exact absurd (hfree.symm.trans hs') (by simp)

end Run

/-- After its handshake was accepted over the first of its links, and after traffic in which no
further one was accepted from its links, a client has its session, and an authentic unseen frame of
it is delivered over the first link, and over another only if the address of that link had led to
the same id before. -/
theorem link_delivers_iff (P : Primitives) (udp : UdpSocket) {n : ℕ}
    (addrs : Fin (n + 1) → SocketAddr) (hinj : Function.Injective addrs) (st : ServerState)
    (env : IncomingEnv) (hello : Bytes) (out : IncomingOutcome)
    (hout : handleIncoming P udp env st hello (addrs 0) = out) (sid : SessionId) (msg2 : Bytes)
    (hacc : out.Accepted P udp env st (hello.drop headerLen) (addrs 0) sid msg2)
    (arrivals : List Arrival)
    (hquiet : ∀ e ∈ (serverLoop P udp).trace out.state arrivals,
      (∃ i, e.1.source = addrs i) → e.2.1 = [])
    (st' : ServerState) (hrun : (serverLoop P udp).final out.state arrivals = st') :
    ∃ s₀ s, out.state.registry.table.get sid = some (.established s₀) ∧
      st'.registry.table.get sid = some (.established s) ∧ SameKeys s₀ s ∧
      ∀ h ct pt, AuthenticFrame P st' sid s h ct pt → ∀ i env',
        (handleIncoming P udp env' st' (h.bytes ++ ct) (addrs i)).tun = [pt] ↔
          i = 0 ∨ st.addrMap.lookup (addrs i) = some sid := by
  subst hout hrun
  obtain ⟨-, keys, htable⟩ := ClientRegistry.acceptClientMsg1_installs hacc.accept
  have hs₀ : (handleIncoming P udp env st hello (addrs 0)).state.registry.table.get sid =
      some (.established (freshSession sid keys env.nowMs)) := by
    rw [htable]
    exact SessionTable.get_set_self _ _
  obtain ⟨s, hs, hk⟩ := serverLoop_session (P := P) hs₀ arrivals
  refine ⟨_, s, hs₀, hs, hk, fun h ct pt hf i env' => ?_⟩
  rw [hf.delivered_iff, serverLoop_addrMap fun e he hi => hquiet e he ⟨i, hi⟩, hacc.addrMap]
  by_cases hi : i = 0
  · subst hi
    simp
  · rw [AList.lookup_insert_ne (hinj.ne hi)]
    simp [hi]

namespace Sample

/-- The datagram that opens the first session of the server. -/
def hello : Bytes := (Header.new .handshake clientSessionId).bytes ++ msg1 clientKey

def server1 : ServerState := (handleIncoming .transparent udp turn server hello (addr 1)).state

def ciphertext : Bytes := [69, 0, 0] ++ (ByteArr.ofBytes 16 (buildAad clientSessionId 0)).toList

def header : Header := dataHeader clientSessionId 0 ciphertext.length

theorem hello_accepted :
    (handleIncoming .transparent udp turn server hello (addr 1)).Accepted .transparent udp turn server
      (hello.drop headerLen) (addr 1) 1 (msg2 server.registry clientKey) ∧
    ∃ keysR, server1.registry.table =
      server.registry.table.set (.established (freshSession 1 keysR 0)) := by
  obtain ⟨r', -, keysR, hacc, -, htable⟩ := accepts clientKey rfl rfl rfl rfl server_finds_one
  obtain ⟨hout, hr⟩ := handleIncoming_accepts udp (h := Header.new .handshake clientSessionId) rfl
    rfl (server_admits 1).rateLimit hacc
  have hdrop : hello.drop headerLen = msg1 clientKey := List.drop_left' (Header.bytes_length _)
  refine ⟨hout, keysR, ?_⟩
  rw [server1, hello, hr, htable]
  rfl

theorem authentic_frame :
    ∃ s, AuthenticFrame .transparent server1 1 s header ciphertext [69, 0, 0] := by
  obtain ⟨-, keysR, htable⟩ := hello_accepted
  refine ⟨freshSession 1 keysR 0, ?_, rfl, rfl, rfl, ?_, ?_⟩
  · rw [htable]
    exact SessionTable.get_set_self _ _
  · exact AeadKey.open_seal Primitives.transparent_lawfulAead (AeadKey.sealInPlace_ok_iff.mpr
      (Primitives.transparent_seal_iff.mpr ⟨by decide, rfl⟩))
  · intro sid' s' hne hget
    rw [htable, SessionTable.get_set_of_ne _ hne] at hget
    cases hget

end Sample

theorem link_delivers_two_links :
    (handleIncoming .transparent Sample.udp Sample.turn Sample.server Sample.hello
      (Sample.addr 1)).Accepted .transparent Sample.udp Sample.turn Sample.server
        (Sample.hello.drop headerLen) (Sample.addr 1) 1
        (Sample.msg2 Sample.server.registry Sample.clientKey) ∧
    ∃ s₀ s, SameKeys s₀ s ∧
      AuthenticFrame .transparent Sample.server1 1 s Sample.header Sample.ciphertext [69, 0, 0] ∧
      ∀ i : Fin 2, (handleIncoming .transparent Sample.udp Sample.turn Sample.server1
          (Sample.header.bytes ++ Sample.ciphertext) (Sample.addr (UInt16.ofNat i + 1))).tun =
            [[69, 0, 0]] ↔
        i = 0 ∨ Sample.server.addrMap.lookup (Sample.addr (UInt16.ofNat i + 1)) = some 1 := by
  obtain ⟨hacc, -⟩ := Sample.hello_accepted
  obtain ⟨x, hf⟩ := Sample.authentic_frame
  obtain ⟨s₀, s, -, hs, hk, hlinks⟩ := link_delivers_iff .transparent Sample.udp
    (fun i : Fin 2 => Sample.addr (UInt16.ofNat i + 1)) (by decide) Sample.server Sample.turn
    Sample.hello _ rfl 1 _ hacc [] (by simp [Machine.trace]) Sample.server1 rfl
  obtain rfl : s = x := by simpa [hf.session] using hs.symm
  exact ⟨hacc, s₀, s, hk, hf, fun i => hlinks _ _ _ hf i Sample.turn⟩

/-- A frame of the first session that gets through over the link of the handshake and is
dropped on a second link. -/
theorem second_link_dropped :
    (handleIncoming .transparent Sample.udp Sample.turn Sample.server Sample.hello
      (Sample.addr 1)).Accepted .transparent Sample.udp Sample.turn Sample.server
        (Sample.hello.drop headerLen) (Sample.addr 1) 1
        (Sample.msg2 Sample.server.registry Sample.clientKey) ∧
    (∃ s, AuthenticFrame .transparent Sample.server1 1 s Sample.header Sample.ciphertext
      [69, 0, 0]) ∧
    (handleIncoming .transparent Sample.udp Sample.turn Sample.server1
      (Sample.header.bytes ++ Sample.ciphertext) (Sample.addr 1)).tun = [[69, 0, 0]] ∧
    (handleIncoming .transparent Sample.udp Sample.turn Sample.server1
      (Sample.header.bytes ++ Sample.ciphertext) (Sample.addr 2)).tun ≠ [[69, 0, 0]] := by
  obtain ⟨hacc, -⟩ := Sample.hello_accepted
  obtain ⟨s, hf⟩ := Sample.authentic_frame
  have hmap : Sample.server1.addrMap = Sample.server.addrMap.insert (Sample.addr 1) 1 := by
    rw [Sample.server1, hacc.addrMap]
  refine ⟨hacc, ⟨s, hf⟩, ?_, ?_⟩
  · rw [hf.delivered_iff, hmap]
    exact AList.lookup_insert _
  · rw [ne_eq, hf.delivered_iff, hmap, AList.lookup_insert_ne (by decide)]
    decide

end Desmos.Core
