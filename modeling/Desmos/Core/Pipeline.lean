import Desmos.Core.Session
import Desmos.Core.Bonding

/-! # The encrypted packet pipeline

One call of an outbound stage reads one packet from the TUN and puts zero or
more datagrams on the wire; one call of the inbound stage takes one datagram
and writes zero or one packet to the TUN. The scratch buffer is overwritten
before it is read, so only its length matters.
-/
namespace Desmos.Core
open Library Proto

structure PipelineMetrics where
  packetsSent : UInt64
  packetsReceived : UInt64
  bytesSent : UInt64
  bytesReceived : UInt64
  badHeader : UInt64
  decryptFailures : UInt64
  replayDrops : UInt64
  deriving DecidableEq

namespace PipelineMetrics

def new : PipelineMetrics :=
  { packetsSent := 0, packetsReceived := 0, bytesSent := 0, bytesReceived := 0
    badHeader := 0, decryptFailures := 0, replayDrops := 0 }

variable (m : PipelineMetrics)

def recordSent (bytes : ℕ) : PipelineMetrics :=
  { m with packetsSent := m.packetsSent + 1, bytesSent := m.bytesSent + UInt64.ofNat bytes }

def recordReceived (bytes : ℕ) : PipelineMetrics :=
  { m with
    packetsReceived := m.packetsReceived + 1, bytesReceived := m.bytesReceived + UInt64.ofNat bytes }

def recordBadHeader : PipelineMetrics :=
  { m with badHeader := m.badHeader + 1 }

def recordDecryptFailure : PipelineMetrics :=
  { m with decryptFailures := m.decryptFailures + 1 }

def recordReplayDrop : PipelineMetrics :=
  { m with replayDrops := m.replayDrops + 1 }

end PipelineMetrics

/-- What the environment contributes to one outbound call: the packet the TUN
read returns, the engine and sockets in force, and the outcome of the `i`-th
`sendto` of the call. -/
structure OutboundEnv where
  scratchLen : ℕ
  tunRecv : Except IoError Bytes
  engine : Engine
  getSock : LinkId → Option UdpSocket
  sendTo : ℕ → Except IoError Unit

/-- The bytes of the TUN packet that fit behind the header space. -/
def OutboundEnv.packet (env : OutboundEnv) : Bytes :=
  match env.tunRecv with
  | .ok pkt => pkt.take (env.scratchLen - headerLen)
  | .error _ => []

structure OutboundOutcome where
  result : Except IoError ℕ
  session : Session Established
  engine : Engine
  metrics : PipelineMetrics
  sent : List Datagram

def dataHeader (id : SessionId) (seq : UInt64) (ctLen : ℕ) : Header :=
  { version := wireVersion
    packetType := .data
    flags := .empty
    sessionId := id
    sequence := seq.toUInt32
    timestampUs := 0
    payloadLen := UInt16.ofNat ctLen
    interfaceId := 0 }

/-- The send loop over the selected links: a link without a socket is skipped,
the first failing send ends the loop. -/
def fanOut (env : OutboundEnv) (frame : Bytes) :
    (i : ℕ) → List Link → PipelineMetrics → (total : ℕ) → List Datagram →
      Except IoError ℕ × PipelineMetrics × List Datagram
  | _, [], metrics, total, sent => (.ok total, metrics, sent)
  | i, link :: links, metrics, total, sent =>
    match env.getSock link.id with
    | none => fanOut env frame i links metrics total sent
    | some sock =>
      match env.sendTo i with
      | .error e => (.error e, metrics, sent)
      | .ok _ => fanOut env frame (i + 1) links (metrics.recordSent frame.length)
          (total + frame.length) (sent ++ [⟨sock.localAddr, link.peer, frame⟩])

def forwardTunToUdpBonded (P : Primitives) (env : OutboundEnv) (session : Session Established)
    (metrics : PipelineMetrics) : OutboundOutcome :=
  let stop (result : Except IoError ℕ) (session : Session Established) (engine : Engine) :
      OutboundOutcome := ⟨result, session, engine, metrics, []⟩
  if env.scratchLen < headerLen + 1 then
    stop (.error ⟨.invalidInput, "forward_tun_to_udp_bonded: scratch buffer too small"⟩)
      session env.engine
  else match env.tunRecv with
  | .error e => stop (.error e) session env.engine
  | .ok _ =>
    if env.packet.length = 0 then stop (.ok 0) session env.engine
    else match session.encryptPacket P env.packet with
    | (.error e, session) =>
      stop (.error ⟨.other, "session encrypt: " ++ e.display⟩) session env.engine
    | (.ok (seq, ciphertext), session) =>
      let ctLen := ciphertext.length
      if ctLen > 0xFFFF then
        stop (.error ⟨.invalidData, "forward_tun_to_udp_bonded: ciphertext > 65535 bytes"⟩)
          session env.engine
      else if headerLen + ctLen > env.scratchLen then
        stop (.error ⟨.invalidInput,
          "forward_tun_to_udp_bonded: scratch buffer too small for ciphertext"⟩) session env.engine
      else if seq > 0xFFFFFFFF then
        stop (.error ⟨.other,
          "forward_tun_to_udp_bonded: seq exceeds 32 bits; rekey overdue"⟩) session env.engine
      else
        let (selection, engine) := env.engine.schedule (PacketMeta.outbound 0 0)
        match selection with
        | .none => stop (.ok 0) session engine
        | selection =>
          match (dataHeader session.id seq ctLen).encode (List.replicate headerLen 0) with
          | (.error e, _) => stop (.error ⟨.other, "wire encode: " ++ e.display⟩) session engine
          | (.ok _, header) =>
            let (result, metrics, sent) :=
              fanOut env (header ++ ciphertext) 0 selection.links metrics 0 []
            ⟨result, session, engine, metrics, sent⟩

/-- What the environment contributes to one inbound call: the datagram and its
source, and the outcome of the TUN write. -/
structure InboundEnv where
  scratchLen : ℕ
  recvFrom : Except IoError (Bytes × SocketAddr)
  tunSend : Except IoError Unit

structure InboundOutcome where
  result : Except IoError ℕ
  session : Session Established
  metrics : PipelineMetrics
  written : List Bytes

def forwardUdpToTunEncrypted (P : Primitives) (env : InboundEnv) (session : Session Established)
    (metrics : PipelineMetrics) : InboundOutcome :=
  if env.scratchLen < headerLen then
    ⟨.error ⟨.invalidInput, "forward_udp_to_tun_encrypted: scratch buffer too small"⟩,
      session, metrics, []⟩
  else match env.recvFrom with
  | .error e => ⟨.error e, session, metrics, []⟩
  | .ok (datagram, _) =>
    let data := datagram.take env.scratchLen
    let metrics := metrics.recordReceived data.length
    if data.length < headerLen then
      ⟨.error ⟨.invalidData, "forward_udp_to_tun_encrypted: datagram shorter than DWP header"⟩,
        session, metrics.recordBadHeader, []⟩
    else match Header.decode (data.take headerLen) with
    | .error e =>
      ⟨.error ⟨.invalidData, "wire decode: " ++ e.display⟩, session, metrics.recordBadHeader, []⟩
    | .ok header =>
      if header.packetType ≠ .data then ⟨.ok 0, session, metrics, []⟩
      else
        let declared := header.payloadLen.toNat
        let available := data.length - headerLen
        if declared > available then
          ⟨.error ⟨.invalidData, "payload truncated: declared " ++ toString declared ++
            ", available " ++ toString available⟩, session, metrics.recordBadHeader, []⟩
        else
          match session.decryptData P header.sequence.toUInt64 (slice data headerLen declared) with
          | (.error (.replay _), session) => ⟨.ok 0, session, metrics.recordReplayDrop, []⟩
          | (.error (.crypto _), session) => ⟨.ok 0, session, metrics.recordDecryptFailure, []⟩
          | (.error e, session) =>
            ⟨.error ⟨.other, "session decrypt: " ++ e.display⟩, session, metrics, []⟩
          | (.ok plaintext, session) =>
            match env.tunSend with
            | .error e => ⟨.error e, session, metrics, []⟩
            | .ok _ => ⟨.ok plaintext.length, session, metrics, [plaintext]⟩

def dataFrame (id : SessionId) (seq : UInt64) (ct : Bytes) : Bytes :=
  (dataHeader id seq ct.length).bytes ++ ct

theorem fanOut_sent (env : OutboundEnv) (frame : Bytes) (i : ℕ) (links : List Link)
    (metrics : PipelineMetrics) (total : ℕ) (sent : List Datagram)
    (hs : ∀ d ∈ sent, d.payload = frame) :
    ∀ d ∈ (fanOut env frame i links metrics total sent).2.2, d.payload = frame := by
  induction links generalizing i metrics total sent with
  | nil => exact hs
  | cons link links ih =>
    unfold fanOut
    split
    · exact ih _ _ _ _ hs
    · split
      · exact hs
      · refine ih _ _ _ _ ?_
        intro d hd
        rcases List.mem_append.mp hd with hd | hd
        · exact hs d hd
        · rw [List.mem_singleton.mp hd]

section Outbound
variable {P : Primitives} {env : OutboundEnv} {session : Session Established}
  {metrics : PipelineMetrics}

/-- A call puts nothing on the wire, or it draws a number and fans out the frame
that was sealed under it. -/
theorem forwardTunToUdpBonded_cases (P : Primitives) (env : OutboundEnv)
    (session : Session Established) (metrics : PipelineMetrics) :
    let o := forwardTunToUdpBonded P env session metrics
    let seq := session.state.sendCounter
    (o.sent = [] ∧ (o.session = session ∨ o.session = session.fetchAdd.2)) ∨
    (o.session = session.fetchAdd.2 ∧ env.packet ≠ [] ∧ ∃ ct,
      session.sealWith P seq env.packet = .ok (seq, ct) ∧ ct.length ≤ 0xFFFF ∧ seq ≤ 0xFFFFFFFF ∧
      o.sent = (fanOut env (dataFrame session.id seq ct) 0
        (env.engine.schedule (PacketMeta.outbound 0 0)).1.links metrics 0 []).2.2) := by
  intro o seq
  simp only [o, forwardTunToUdpBonded]
  split
  · exact Or.inl ⟨rfl, Or.inl rfl⟩
  split
  · exact Or.inl ⟨rfl, Or.inl rfl⟩
  split
  · exact Or.inl ⟨rfl, Or.inl rfl⟩
  next hpkt =>
  split
  · next e s' he =>
    exact Or.inl ⟨rfl, Or.inr (congrArg Prod.snd he).symm⟩
  · next n ct s' he =>
    have hseal : session.sealWith P seq env.packet = .ok (n, ct) := congrArg Prod.fst he
    have hs' : s' = session.fetchAdd.2 := (congrArg Prod.snd he).symm
    obtain rfl : n = seq := (Session.sealWith_ok_iff.mp hseal).1
    split
    · exact Or.inl ⟨rfl, Or.inr hs'⟩
    split
    · exact Or.inl ⟨rfl, Or.inr hs'⟩
    split
    · exact Or.inl ⟨rfl, Or.inr hs'⟩
    · next hct _ hseq =>
      split
      · exact Or.inl ⟨rfl, Or.inr hs'⟩
      · rw [Header.encode_ok _ (by simp)]
        refine Or.inr ⟨hs', mt List.length_eq_zero_iff.mpr hpkt, ct, hseal, Nat.le_of_not_gt hct,
          UInt64.not_lt.mp hseq, ?_⟩
        simp [dataFrame, hs', Session.fetchAdd]

end Outbound

/-- The number of the data frame that a call receives in whole. -/
def InboundEnv.number (env : InboundEnv) : Option UInt64 :=
  match env.recvFrom with
  | .error _ => none
  | .ok (datagram, _) =>
    let data := datagram.take env.scratchLen
    if env.scratchLen < headerLen ∨ data.length < headerLen then none
    else match Header.decode (data.take headerLen) with
    | .error _ => none
    | .ok header =>
      if header.packetType ≠ .data ∨ header.payloadLen.toNat > data.length - headerLen then none
      else some header.sequence.toUInt64

section Inbound

/-- A call without a whole data frame does nothing; with one, it writes what the session opens, if
the TUN takes it. -/
theorem forwardUdpToTunEncrypted_cases (P : Primitives) (env : InboundEnv)
    (session : Session Established) (metrics : PipelineMetrics) :
    let o := forwardUdpToTunEncrypted P env session metrics
    (env.number = none ∧ o.session = session ∧ o.written = []) ∨
    ∃ datagram src header, env.recvFrom = .ok (datagram, src) ∧ headerLen ≤ env.scratchLen ∧
      Header.decode ((datagram.take env.scratchLen).take headerLen) = .ok header ∧
      header.payloadLen.toNat ≤ (datagram.take env.scratchLen).length - headerLen ∧
      env.number = some header.sequence.toUInt64 ∧
      let r := session.decryptData P header.sequence.toUInt64
        (slice (datagram.take env.scratchLen) headerLen header.payloadLen.toNat)
      o.session = r.2 ∧ o.written = if env.tunSend.isOk then r.1.toOption.toList else [] := by
  intro o
  simp only [o, forwardUdpToTunEncrypted]
  split
  · next hscratch => exact Or.inl ⟨by unfold InboundEnv.number; split <;> simp [hscratch], rfl, rfl⟩
  next hscratch =>
  split
  · next e hrecv => exact Or.inl ⟨by rw [InboundEnv.number, hrecv], rfl, rfl⟩
  next _ datagram src hrecv =>
  split
  · next hshort =>
    exact Or.inl ⟨by simp only [InboundEnv.number, hrecv, if_pos (Or.inr hshort)], rfl, rfl⟩
  next hshort =>
  have hwhole := not_or_intro hscratch hshort
  split
  · next e hdec =>
    exact Or.inl ⟨by simp only [InboundEnv.number, hrecv, if_neg hwhole, hdec], rfl, rfl⟩
  next header hdec =>
  have hnumber := InboundEnv.number.eq_def env
  simp only [hrecv, if_neg hwhole, hdec] at hnumber
  split
  · next htype => exact Or.inl ⟨hnumber.trans (if_pos (Or.inl htype)), rfl, rfl⟩
  next htype =>
  split
  · next hlong => exact Or.inl ⟨hnumber.trans (if_pos (Or.inr hlong)), rfl, rfl⟩
  next hlong =>
  refine Or.inr ⟨datagram, src, header, hrecv, Nat.le_of_not_lt hscratch, hdec,
    Nat.le_of_not_lt hlong, hnumber.trans (if_neg (not_or_intro htype hlong)), ?_⟩
  split
  · next hr => exact ⟨by rw [hr], by rw [hr]; simp [Except.toOption]⟩
  · next hr => exact ⟨by rw [hr], by rw [hr]; simp [Except.toOption]⟩
  · next hr => exact ⟨by rw [hr], by rw [hr]; simp [Except.toOption]⟩
  · next pt s' hr =>
    rw [hr]
    cases env.tunSend with
    | error e => exact ⟨rfl, rfl⟩
    | ok u => exact ⟨rfl, rfl⟩

variable {id : SessionId} {seq : UInt64} {ct : Bytes} {n : ℕ}

theorem dataFrame_take_header (hn : headerLen ≤ n) :
    ((dataFrame id seq ct).take n).take headerLen = (dataHeader id seq ct.length).bytes := by
  rw [List.take_take, Nat.min_eq_left hn, dataFrame, List.take_left' (Header.bytes_length _)]

theorem dataFrame_decode (hn : headerLen ≤ n) :
    Header.decode (((dataFrame id seq ct).take n).take headerLen) =
      .ok (dataHeader id seq ct.length) := by
  have h := Header.decode_bytes_append (dataHeader id seq ct.length) rfl []
  rwa [List.append_nil, ← dataFrame_take_header hn] at h

/-- A frame that was cut off behind its header declares more than it has. -/
theorem dataFrame_payload (hct : ct.length ≤ 0xFFFF)
    (hl : (dataHeader id seq ct.length).payloadLen.toNat ≤
      ((dataFrame id seq ct).take n).length - headerLen) :
    slice ((dataFrame id seq ct).take n) headerLen
      (dataHeader id seq ct.length).payloadLen.toNat = ct := by
  have hp : (dataHeader id seq ct.length).payloadLen.toNat = ct.length := by
    simp only [dataHeader, UInt16.toNat_ofNat']
    omega
  rw [hp] at hl ⊢
  by_cases hz : ct.length = 0
  · simp [slice, List.length_eq_zero_iff.mp hz]
  · have hfull : (dataFrame id seq ct).take n = dataFrame id seq ct := by
      apply List.take_of_length_le
      simp only [List.length_take, dataFrame, List.length_append, Header.bytes_length] at hl ⊢
      omega
    rw [hfull, dataFrame, slice_skip (by simp)]
    simp [slice]

theorem dataHeader_sequence (hs : seq ≤ 0xFFFFFFFF) (len : ℕ) :
    (dataHeader id seq len).sequence.toUInt64 = seq := by
  apply UInt64.toNat_inj.mp
  have hle : seq.toNat ≤ 0xFFFFFFFF := UInt64.le_iff_toNat_le.mp hs
  simp only [dataHeader, UInt32.toNat_toUInt64, UInt64.toNat_toUInt32]
  omega

end Inbound

end Desmos.Core
