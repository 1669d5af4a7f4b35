import Desmos.Core.Pipeline

/-! # At-most-once delivery through the tunnel

The sender logs the number it drew for each packet. Every frame on the wire
comes from one entry of that log, and the receiver's window lets each number
through once, so what reaches the far TUN is a sub-multiset of what was sent,
whatever the network does with the frames.
-/
namespace Desmos.Core
open Library Proto

section
variable (P : Primitives)

def sender : Machine (Session Established × PipelineMetrics) OutboundEnv OutboundOutcome :=
  fun s env =>
    let o := forwardTunToUdpBonded P env s.1 s.2
    (o, (o.session, o.metrics))

def receiver : Machine (Session Established × PipelineMetrics) InboundEnv InboundOutcome :=
  fun s env =>
    let o := forwardUdpToTunEncrypted P env s.1 s.2
    (o, (o.session, o.metrics))

def onWire (s : Session Established × PipelineMetrics) (sends : List OutboundEnv) : List Datagram :=
  ((sender P).trace s sends).flatMap fun e => e.2.sent

def delivered (s : Session Established × PipelineMetrics) (recvs : List InboundEnv) : List Bytes :=
  ((receiver P).trace s recvs).flatMap fun e => e.2.written

/-- The packets of a run, each with the number the counter showed. -/
def sendLog (P : Primitives) :
    Session Established × PipelineMetrics → List OutboundEnv → List (UInt64 × Bytes)
  | _, [] => []
  | s, env :: envs => (s.1.state.sendCounter, env.packet) :: sendLog P (sender P s env).2 envs

theorem sendLog_packets (s : Session Established × PipelineMetrics) (sends : List OutboundEnv) :
    (sendLog P s sends).map Prod.snd = sends.map OutboundEnv.packet := by
  induction sends generalizing s with
  | nil => rfl
  | cons env envs ih => rw [sendLog, List.map_cons, List.map_cons, ih]

end

/-- A frame that seals the packet of a log entry under the entry's number. -/
structure SealsEntry (P : Primitives) (tx : Session Established) (e : UInt64 × Bytes)
    (frame : Bytes) : Prop where
  sealed : ∃ ct, tx.sealWith P e.1 e.2 = .ok (e.1, ct) ∧ ct.length ≤ 0xFFFF ∧
    frame = dataFrame tx.id e.1 ct
  narrow : e.1 ≤ 0xFFFFFFFF
  nonempty : e.2 ≠ []

variable {P : Primitives}

theorem forwardTunToUdpBonded_seals {env : OutboundEnv}
    {s : Session Established} {m : PipelineMetrics} {d : Datagram}
    (hd : d ∈ (forwardTunToUdpBonded P env s m).sent) :
    SealsEntry P s (s.state.sendCounter, env.packet) d.payload := by
  rcases forwardTunToUdpBonded_cases P env s m with
    ⟨he, -⟩ | ⟨-, hne, ct, hs, hct, hseq, he⟩
  · simp [he] at hd
  · rw [he] at hd
    exact ⟨⟨ct, hs, hct, fanOut_sent _ _ _ _ _ _ _ (by simp) d hd⟩, hseq, hne⟩

/-- Sending moves the counter and nothing else. -/
theorem forwardTunToUdpBonded_frame (P : Primitives) (env : OutboundEnv)
    (s : Session Established) (m : PipelineMetrics) :
    let s' := (forwardTunToUdpBonded P env s m).session
    s'.id = s.id ∧ s'.state.sendKey = s.state.sendKey := by
  rcases forwardTunToUdpBonded_cases P env s m with ⟨-, h | h⟩ | ⟨h, -⟩
  · exact ⟨by rw [h], by rw [h]⟩
  · exact ⟨by rw [h]; rfl, by rw [h]; rfl⟩
  · exact ⟨by rw [h]; rfl, by rw [h]; rfl⟩

/-- A call that asks for links leaves the engine one packet further, the others leave it alone. -/
theorem forwardTunToUdpBonded_engine (P : Primitives) (env : OutboundEnv)
    (s : Session Established) (m : PipelineMetrics) :
    let e := (forwardTunToUdpBonded P env s m).engine
    e = env.engine ∨ e = (env.engine.schedule (PacketMeta.outbound 0 0)).2 := by
  intro e
  simp only [e, forwardTunToUdpBonded]
  repeat' split
  all_goals first | exact Or.inl rfl | exact Or.inr rfl

theorem SealsEntry.congr {tx tx' : Session Established} {e : UInt64 × Bytes}
    {frame : Bytes} (h : SealsEntry P tx' e frame) (hid : tx'.id = tx.id)
    (hkey : tx'.state.sendKey = tx.state.sendKey) : SealsEntry P tx e frame := by
  obtain ⟨⟨ct, hs, hct, hf⟩, hn, hne⟩ := h
  refine ⟨⟨ct, ?_, hct, by rw [hf, hid]⟩, hn, hne⟩
  rwa [Session.sealWith, hid, hkey] at hs

theorem onWire_seals {s : Session Established × PipelineMetrics}
    {sends : List OutboundEnv} {d : Datagram} (hd : d ∈ onWire P s sends) :
    ∃ e ∈ sendLog P s sends, SealsEntry P s.1 e d.payload := by
  induction sends generalizing s with
  | nil => simp [onWire, Machine.trace] at hd
  | cons env envs ih =>
    rw [onWire, Machine.trace_cons, List.flatMap_cons, List.mem_append] at hd
    rcases hd with hd | hd
    · exact ⟨_, List.mem_cons_self, forwardTunToUdpBonded_seals hd⟩
    · obtain ⟨e, he, hs⟩ := ih hd
      obtain ⟨hid, hkey⟩ := forwardTunToUdpBonded_frame P env s.1 s.2
      exact ⟨e, List.mem_cons_of_mem _ he, hs.congr hid hkey⟩

section Receiver
variable {P : Primitives} {tx rx : Session Established} {m : PipelineMetrics} {env : InboundEnv}
  {log : List (UInt64 × Bytes)}

/-- What one inbound call does to the numbers the window still lets through. -/
structure ReceiveStep (log : List (UInt64 × Bytes)) (rx : Session Established) (o : InboundOutcome) :
    Prop where
  id : o.session.id = rx.id
  key : o.session.state.recvKey = rx.state.recvKey
  shrinks : ∀ q, o.session.state.recvWindow.wouldAccept q = true →
    rx.state.recvWindow.wouldAccept q = true
  written : o.written = [] ∨ ∃ e ∈ log, e.2 ≠ [] ∧ o.written = [e.2] ∧
    rx.state.recvWindow.wouldAccept e.1 = true ∧
    o.session.state.recvWindow.wouldAccept e.1 = false

theorem decryptData_shrinks (P : Primitives) (rx : Session Established) (seq : UInt64) (ct : Bytes)
    (q : UInt64) (h : (rx.decryptData P seq ct).2.state.recvWindow.wouldAccept q = true) :
    rx.state.recvWindow.wouldAccept q = true := by
  by_contra hn
  rw [Session.decryptData_state] at h
  have htrue := h.symm.trans (AntiReplayWindow.wouldAccept_antitone (by simpa using hn) seq)
  exact absurd htrue (by simp)

theorem written_cases {ε : Type} {r : Except ε Bytes} {sent : Bool} {written : List Bytes}
    (h : written = if sent then r.toOption.toList else []) :
    written = [] ∨ ∃ pt, r = .ok pt ∧ written = [pt] := by
  cases sent <;> cases r <;> simp_all [Except.toOption]

theorem forwardUdpToTunEncrypted_step
    (hopen : ∀ {k n ad pt ct}, P.aeadSeal k n ad pt = some ct → P.aeadOpen k n ad ct = some pt)
    (hkey : tx.state.sendKey = rx.state.recvKey) (hid : tx.id = rx.id)
    (hnet : ∀ datagram src, env.recvFrom = .ok (datagram, src) →
      ∃ e ∈ log, SealsEntry P tx e datagram) :
    ReceiveStep log rx (forwardUdpToTunEncrypted P env rx m) := by
  rcases forwardUdpToTunEncrypted_cases P env rx m with
    ⟨-, hs, hw⟩ | ⟨datagram, src, header, hrecv, hsc, hdec, hlen, -, hs, hw⟩
  · exact ⟨by rw [hs], by rw [hs], fun q h => by rwa [hs] at h, Or.inl hw⟩
  · obtain ⟨e, he, ⟨ct, hseal, hct, rfl⟩, hn, hne⟩ := hnet datagram src hrecv
    rw [dataFrame_decode hsc] at hdec
    cases hdec
    rw [dataFrame_payload hct hlen, dataHeader_sequence hn] at hs hw
    refine ⟨by rw [hs]; rfl, ?_, ?_, ?_⟩
    · rw [hs, Session.decryptData_state]
    · intro q h
      rw [hs] at h
      exact decryptData_shrinks P rx e.1 ct q h
    · rcases written_cases hw with hw | ⟨pt, hr, hw⟩
      · exact Or.inl hw
      · obtain ⟨hacc, ho⟩ := Session.decryptData_ok_iff.mp hr
        have hsome := hopen (AeadKey.sealInPlace_ok_iff.mp (Session.sealWith_ok_iff.mp hseal).2.2)
        rw [hkey, hid, (AeadKey.openInPlace_ok_iff.mp ho).2] at hsome
        cases hsome
        refine Or.inr ⟨e, he, hne, hw, hacc, ?_⟩
        rw [hs, Session.decryptData_state]
        exact AntiReplayWindow.wouldAccept_self _ _

theorem delivered_entries
    (hopen : ∀ {k n ad pt ct}, P.aeadSeal k n ad pt = some ct → P.aeadOpen k n ad ct = some pt)
    {s : Session Established × PipelineMetrics} (hkey : tx.state.sendKey = s.1.state.recvKey)
    (hid : tx.id = s.1.id) {recvs : List InboundEnv}
    (hnet : ∀ r ∈ recvs, ∀ datagram src, r.recvFrom = .ok (datagram, src) →
      ∃ e ∈ log, SealsEntry P tx e datagram) :
    ∃ D : List (UInt64 × Bytes), delivered P s recvs = D.map Prod.snd ∧ (D.map Prod.fst).Nodup ∧
      ∀ e ∈ D, (e ∈ log ∧ e.2 ≠ []) ∧ s.1.state.recvWindow.wouldAccept e.1 = true := by
  induction recvs generalizing s with
  | nil => exact ⟨[], rfl, List.nodup_nil, by simp⟩
  | cons env envs ih =>
    have hstep : ReceiveStep log s.1 (forwardUdpToTunEncrypted P env s.1 s.2) :=
      forwardUdpToTunEncrypted_step hopen hkey hid (hnet env List.mem_cons_self)
    obtain ⟨D, hD, hnd, hmem⟩ := ih (s := (receiver P s env).2) (hkey.trans hstep.key.symm)
      (hid.trans hstep.id.symm) fun r hr => hnet r (List.mem_cons_of_mem _ hr)
    have hcons : delivered P s (env :: envs) =
        (forwardUdpToTunEncrypted P env s.1 s.2).written ++ D.map Prod.snd := by
      rw [← hD]
      rfl
    rcases hstep.written with hw | ⟨e, he, hne, hw, hacc, hgone⟩
    · refine ⟨D, by rw [hcons, hw, List.nil_append], hnd, fun e he => ?_⟩
      exact ⟨(hmem e he).1, hstep.shrinks _ (hmem e he).2⟩
    · refine ⟨e :: D, by rw [hcons, hw]; rfl, ?_, ?_⟩
      · refine List.nodup_cons.mpr ⟨fun hin => ?_, hnd⟩
        obtain ⟨e', he', heq⟩ := List.mem_map.mp hin
        have := (hmem e' he').2
        rw [heq] at this
        exact absurd (hgone.symm.trans this) (by simp)
      · intro e' he'
        rcases List.mem_cons.mp he' with rfl | he'
        · exact ⟨⟨he, hne⟩, hacc⟩
        · exact ⟨(hmem e' he').1, hstep.shrinks _ (hmem e' he').2⟩

end Receiver

/-- What arrives from the wire seals an entry of the sender's log. -/
theorem received_seals {tx : Session Established × PipelineMetrics}
    {sends : List OutboundEnv} {recvs : List InboundEnv}
    (hnet : ∀ r ∈ recvs, ∀ datagram src, r.recvFrom = .ok (datagram, src) →
      ∃ d ∈ onWire P tx sends, d.payload = datagram) :
    ∀ r ∈ recvs, ∀ datagram src, r.recvFrom = .ok (datagram, src) →
      ∃ e ∈ sendLog P tx sends, SealsEntry P tx.1 e datagram := by
  intro r hr datagram src h
  obtain ⟨d, hd, rfl⟩ := hnet r hr datagram src h
  exact onWire_seals hd

/-- Every packet list, every strategy and link set, every loss, duplication and
reordering of the frames: what the receiver writes to its TUN is a sub-multiset
of what the sender read from its own. -/
theorem tunnel_delivers_at_most_once (P : Primitives)
    (hopen : ∀ {k n ad pt ct}, P.aeadSeal k n ad pt = some ct → P.aeadOpen k n ad ct = some pt)
    (tx rx : Session Established × PipelineMetrics)
    (hkey : tx.1.state.sendKey = rx.1.state.recvKey) (hid : tx.1.id = rx.1.id)
    (sends : List OutboundEnv) (recvs : List InboundEnv)
    (hnet : ∀ r ∈ recvs, ∀ datagram src, r.recvFrom = .ok (datagram, src) →
      ∃ d ∈ onWire P tx sends, d.payload = datagram) :
    (delivered P rx recvs).Subperm ((sends.map OutboundEnv.packet).filter (· ≠ [])) := by
  obtain ⟨D, hD, hnd, hmem⟩ := delivered_entries hopen hkey hid (received_seals hnet)
  have hsub : D.Subperm ((sendLog P tx sends).filter fun e => e.2 ≠ []) := by
    refine (List.Nodup.of_map _ hnd).subperm fun e he => ?_
    simpa using (hmem e he).1
  obtain ⟨l, hl, hs⟩ := hsub
  rw [hD, ← sendLog_packets P tx sends, List.filter_map]
  exact ⟨l.map Prod.snd, hl.map _, hs.map _⟩

/-- One packet fanned out over two links and received twice, the second copy
first. -/
theorem tunnel_delivers_at_most_once_redundant :
    let P := Primitives.transparent
    let keys : TransportKeys := ⟨Vector.replicate 32 1, Vector.replicate 32 2, Vector.replicate 32 3⟩
    let addr (n : UInt16) : SocketAddr := ⟨.v4 (Vector.replicate 4 127), n⟩
    let links : LinkTable := ⟨[.new 1 "eth0" (addr 9) 1, .new 2 "eth1" (addr 9) 1]⟩
    let tx := (freshSession 7 keys 0, PipelineMetrics.new)
    let rx := (freshSession 7 ⟨keys.recv, keys.send, keys.handshakeHash⟩ 0, PipelineMetrics.new)
    let sends : List OutboundEnv := [{
      scratchLen := 64, tunRecv := .ok [104, 105], engine := .new redundant links
      getSock := fun id => some ⟨addr id.toUInt16, none⟩, sendTo := fun _ => .ok () }]
    let recvs := (onWire P tx sends).reverse.map fun d =>
      (⟨64, .ok (d.payload, d.src), .ok ()⟩ : InboundEnv)
    (onWire P tx sends).length = 2 ∧ delivered P rx recvs = [[104, 105]] ∧
      (delivered P rx recvs).Subperm ((sends.map OutboundEnv.packet).filter (· ≠ [])) := by
  intro P keys addr links tx rx sends recvs
  refine ⟨by decide, by decide, tunnel_delivers_at_most_once P
    (fun h => Primitives.transparent_lawfulAead.open_seal h) tx rx rfl rfl sends recvs ?_⟩
  intro r hr datagram src h
  obtain ⟨d, hd, rfl⟩ := List.mem_map.mp hr
  cases h
  exact ⟨d, List.mem_reverse.mp hd, rfl⟩

end Desmos.Core
