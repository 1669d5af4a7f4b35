import Desmos.Core.Bonding.Strategy
import Desmos.Core.Daemon.Client
import Desmos.Core.Pipeline.Delivery
import Desmos.Core.Pipeline.FanOut

/-! # The two loops of the client

On Unix the loop calls the outbound stage until it answers with nothing or an error. On Windows it
reads a packet of its own to find out whether there is one, and then calls the outbound stage, which
reads the next. The device is the list of the answers to the calls of `recv` that are still to come.
-/
namespace Desmos.Core
open Library Proto

/-- The room a buffer has beyond the MTU. -/
def packetOverhead : ℕ := 256

/-- What stays the same for a whole run. The outcomes of the sends are given for each number and
each target of the frame with that number. -/
structure LoopEnv where
  mtu : ℕ
  sockets : List SocketEntry
  sendTo : UInt64 → ℕ → Except IoError Unit

namespace LoopEnv

def scratchLen (env : LoopEnv) : ℕ := env.mtu + packetOverhead

def getSock (env : LoopEnv) (id : LinkId) : Option UdpSocket :=
  (env.sockets.find? fun e => e.linkId == id).map SocketEntry.sock

end LoopEnv

/-- What the loop hands from one call to the next. -/
structure Tunnel where
  session : Session Established
  engine : Engine
  metrics : PipelineMetrics

def wouldBlock : IoError := ⟨.wouldBlock, "Resource temporarily unavailable"⟩

/-- The answers of the TUN to come. -/
abbrev TunAnswers := List (Except IoError Bytes)

def TunAnswers.recv : TunAnswers → Except IoError Bytes × TunAnswers
  | [] => (.error wouldBlock, [])
  | answer :: tun => (answer, tun)

/-- What goes through a loop: the packets it takes from the TUN, and the datagrams it sends, those
of one call together. -/
structure Traffic where
  read : List Bytes
  sent : List (List Datagram)
  deriving DecidableEq

namespace Traffic

def none : Traffic := ⟨[], []⟩

def append (a b : Traffic) : Traffic := ⟨a.read ++ b.read, a.sent ++ b.sent⟩

/-- The traffic of a single call, which may read or send nothing. -/
def ofCall (packet : Bytes) (sent : List Datagram) : Traffic :=
  ⟨if packet = [] then [] else [packet], if sent = [] then [] else [sent]⟩

end Traffic

section Loops
variable (P : Primitives) (env : LoopEnv)

def LoopEnv.call (answer : Except IoError Bytes) (t : Tunnel) : OutboundEnv where
  scratchLen := env.scratchLen
  tunRecv := answer
  engine := t.engine
  getSock := env.getSock
  sendTo := env.sendTo t.session.state.sendCounter

def outboundCall (answer : Except IoError Bytes) (t : Tunnel) :
    Except IoError ℕ × Traffic × Tunnel :=
  let call := env.call answer t
  let o := forwardTunToUdpBonded P call t.session t.metrics
  (o.result, .ofCall call.packet o.sent, ⟨o.session, o.engine, o.metrics⟩)

/-- The inner loop of the reactor over the TUN. -/
def drainTun : TunAnswers → Tunnel → Traffic × TunAnswers × Tunnel
  | [], t =>
    let (_, traffic, t) := outboundCall P env (.error wouldBlock) t
    (traffic, [], t)
  | answer :: tun, t =>
    match outboundCall P env answer t with
    | (.ok 0, traffic, t) => (traffic, tun, t)
    | (.ok _, traffic, t) =>
      let (rest, tun, t) := drainTun tun t
      (traffic.append rest, tun, t)
    | (.error _, traffic, t) => (traffic, tun, t)

/-- The answers to one call of the inbound stage. -/
structure InboundAnswer where
  recvFrom : Except IoError (Bytes × SocketAddr)
  tunSend : Except IoError Unit

def inboundCall (answer : InboundAnswer) (t : Tunnel) : Except IoError ℕ × Tunnel :=
  let o := forwardUdpToTunEncrypted P ⟨env.scratchLen, answer.recvFrom, answer.tunSend⟩ t.session
    t.metrics
  (o.result, { t with session := o.session, metrics := o.metrics })

/-- The inner loop of the reactor over a socket. -/
def drainSocket : List InboundAnswer → Tunnel → Tunnel
  | [], t => (inboundCall P env ⟨.error wouldBlock, .ok ()⟩ t).2
  | answer :: answers, t =>
    match inboundCall P env answer t with
    | (.ok _, t) => drainSocket answers t
    | (.error _, t) => t

/-- A readiness event, with what the socket would answer. -/
inductive LoopEvent where
  | tun
  | socket (index : ℕ) (answers : List InboundAnswer)

/-- The body of the loop over the events of `run_reactor_loop`. Between two polls the loop does
nothing to packets, so a run is the sequence of its events. -/
def reactorLoop : Machine (TunAnswers × Tunnel) LoopEvent Traffic
  | (tun, t), .tun => drainTun P env tun t
  | (tun, t), .socket index answers =>
    match env.sockets[index]? with
    | some _ => (.none, tun, drainSocket P env answers t)
    | none => (.none, tun, t)

/-- One turn of `run_client_windows`; the input holds the answers of the sockets. -/
def windowsLoop : Machine (TunAnswers × Tunnel) (ℕ → InboundAnswer) Traffic :=
  fun (tun, t) inbound =>
    let (found, tun) := TunAnswers.recv tun
    let packet := (env.call found t).packet
    let (traffic, tun, t) :=
      if packet = [] then (.none, tun, t)
      else
        let (answer, tun) := TunAnswers.recv tun
        let (_, traffic, t) := outboundCall P env answer t
        (Traffic.append ⟨[packet], []⟩ traffic, tun, t)
    (traffic, tun, env.sockets.zipIdx.foldl (fun t e => (inboundCall P env (inbound e.2) t).2) t)

end Loops

def trafficOf {ι : Type*} (loop : Machine (TunAnswers × Tunnel) ι Traffic)
    (s : TunAnswers × Tunnel) (inputs : List ι) : Traffic :=
  ((loop.trace s inputs).map Prod.snd).foldr Traffic.append .none

/-- What holds of the traffic of each step and of traffic put together holds of a whole run. -/
theorem trafficOf_induct {ι : Type*} {loop : Machine (TunAnswers × Tunnel) ι Traffic}
    {I : TunAnswers × Tunnel → Prop} {p : Traffic → Prop} (hnone : p .none)
    (happend : ∀ a b : Traffic, p a → p b → p (a.append b))
    (hstep : ∀ s i, I s → I (loop s i).2 ∧ p (loop s i).1) {s : TunAnswers × Tunnel} (hs : I s)
    (inputs : List ι) : p (trafficOf loop s inputs) := by
  induction inputs generalizing s with
  | nil => exact hnone
  | cons i inputs ih =>
    obtain ⟨hnext, hfirst⟩ := hstep s i hs
    exact happend _ _ hfirst (ih hnext)

/-- The datagrams of a call carry a packet: there are some, and each of them seals the packet under
the number of the call. -/
def SentAs (P : Primitives) (tx : Session Established) (packet : Bytes) (sent : List Datagram) :
    Prop :=
  sent ≠ [] ∧ ∃ seq, ∀ d ∈ sent, SealsEntry P tx (seq, packet) d.payload

/-- Every packet that was read went out, in the order in which they were read. -/
def Traffic.ForwardsAll (P : Primitives) (tx : Session Established) (traffic : Traffic) : Prop :=
  List.Forall₂ (SentAs P tx) traffic.read traffic.sent

/-- Packets can be forwarded at all: a strategy of the source with a healthy link, a socket for each
healthy link, sends that succeed, packets within the MTU, frames that the length field can describe,
and numbers that the sequence field can hold. -/
structure Forwardable (env : LoopEnv) (tun : TunAnswers) (t : Tunnel) : Prop where
  strategy : t.engine.strategy.OfSource
  healthy : t.engine.links.healthy ≠ []
  sockets : ∀ l ∈ t.engine.links.healthy, (env.getSock l.id).isSome = true
  sends : ∀ seq i, env.sendTo seq i = .ok ()
  packets : ∀ p, .ok p ∈ tun → p.length ≤ env.mtu
  mtu : env.mtu + tagLen ≤ 0xFFFF
  counter : t.session.state.sendCounter.toNat + tun.length ≤ 2 ^ 32

section Call
variable {P : Primitives} {env : LoopEnv} {answer : Except IoError Bytes} {tun : TunAnswers}
  {t : Tunnel}

theorem LoopEnv.room (env : LoopEnv) : env.mtu + headerLen + tagLen + 1 ≤ env.scratchLen := by
  simp only [LoopEnv.scratchLen, packetOverhead, headerLen, tagLen]
  omega

theorem LoopEnv.headerLen_lt (env : LoopEnv) : headerLen + 1 ≤ env.scratchLen := by
  have := env.room
  omega

theorem packet_eq_nil_iff : (env.call answer t).packet = [] ↔ ∀ p, answer = .ok p → p = [] := by
  have hroom : env.scratchLen - headerLen ≠ 0 := by
    have := env.headerLen_lt
    omega
  cases answer with
  | error e => simp [OutboundEnv.packet, LoopEnv.call]
  | ok p => simp [OutboundEnv.packet, LoopEnv.call, hroom]

theorem outboundCall_error (P : Primitives) (env : LoopEnv) (e : IoError) (t : Tunnel) :
    outboundCall P env (.error e) t = (.error e, .none, t) := by
  have hroom : ¬ env.scratchLen < headerLen + 1 := not_lt.mpr env.headerLen_lt
  simp [outboundCall, LoopEnv.call, forwardTunToUdpBonded, hroom, Traffic.ofCall, Traffic.none,
    OutboundEnv.packet]

theorem outboundCall_sent_le (P : Primitives) (env : LoopEnv) (answer : Except IoError Bytes)
    (t : Tunnel) : (outboundCall P env answer t).2.1.sent.length ≤
      (outboundCall P env answer t).2.1.read.length := by
  simp only [outboundCall, Traffic.ofCall]
  rcases forwardTunToUdpBonded_cases P (env.call answer t) t.session t.metrics with
    ⟨hsent, -⟩ | ⟨-, hpacket, -⟩
  · rw [hsent, if_pos rfl]
    exact Nat.zero_le _
  · split
    · exact Nat.zero_le _
    · exact le_rfl

theorem Forwardable.seals (hP : P.LawfulAead) (h : Forwardable env (answer :: tun) t)
    (hpacket : (env.call answer t).packet ≠ []) :
    ∃ ct, SealsPacket P (env.call answer t) t.session ct := by
  cases answer with
  | error e => exact absurd rfl hpacket
  | ok p =>
    have hlen : p.length ≤ env.mtu := h.packets p List.mem_cons_self
    have hmtu := h.mtu
    have hroom := env.room
    have hcounter := h.counter
    rw [List.length_cons] at hcounter
    have hpkt : (env.call (.ok p) t).packet = p := by
      apply List.take_of_length_le
      change p.length ≤ env.scratchLen - headerLen
      omega
    obtain ⟨ct, hct⟩ := hP.seal_accepts t.session.state.sendKey.key
      (buildNonce t.session.state.sendCounter) (buildAad t.session.id t.session.state.sendCounter) p
      (by rw [Primitives.maxInputLen]; omega)
    have hlength : ct.length = p.length + tagLen := hP.seal_length hct
    have hnarrow : t.session.state.sendCounter ≤ 0xFFFFFFFF := by
      apply UInt64.le_iff_toNat_le.mpr
      change _ ≤ 4294967295
      omega
    have hfits : headerLen + ct.length ≤ env.scratchLen := by omega
    refine ⟨ct, env.headerLen_lt, ⟨p, rfl⟩, hpacket, ?_, by omega, hfits, hnarrow⟩
    rw [Session.encryptPacket_ok_iff, hpkt]
    refine ⟨rfl, ?_, AeadKey.sealInPlace_ok_iff.mpr hct⟩
    intro hmax
    rw [hmax] at hnarrow
    exact absurd hnarrow (by decide)

theorem Forwardable.targets_ne_nil (h : Forwardable env tun t) (answer : Except IoError Bytes) :
    (env.call answer t).targets (selectedLinks (env.call answer t)) ≠ [] := by
  obtain ⟨link, hlink⟩ := List.exists_mem_of_ne_nil _
    (h.strategy.links_ne_nil t.engine.strategy.state (PacketMeta.outbound 0 0) t.engine.links
      h.healthy)
  have hhealthy : link ∈ t.engine.links.healthy :=
    (h.strategy.healthyOnly t.engine.strategy.state (PacketMeta.outbound 0 0) t.engine.links).mem
      link hlink
  obtain ⟨sock, hsock⟩ := Option.isSome_iff_exists.mp (h.sockets link hhealthy)
  apply List.ne_nil_of_mem (a := (sock, link))
  rw [OutboundEnv.targets, List.mem_filterMap]
  exact ⟨link, hlink, congrArg (Option.map fun sock => (sock, link)) hsock⟩

theorem Forwardable.sent_ne_nil (hP : P.LawfulAead) (h : Forwardable env (answer :: tun) t)
    (hpacket : (env.call answer t).packet ≠ []) :
    (forwardTunToUdpBonded P (env.call answer t) t.session t.metrics).sent ≠ [] := by
  obtain ⟨ct, hseals⟩ := h.seals hP hpacket
  have hall : ∀ target, (env.call answer t).sends target = true := by
    intro target
    change (env.sendTo t.session.state.sendCounter target.2).isOk = true
    rw [h.sends]
    rfl
  rw [hseals.sent_eq, List.takeWhile_eq_self_iff.mpr fun target _ => hall target]
  simpa using h.targets_ne_nil answer

theorem outboundCall_forwardsAll (hP : P.LawfulAead) (h : Forwardable env (answer :: tun) t) :
    (outboundCall P env answer t).2.1.ForwardsAll P t.session := by
  by_cases hpacket : (env.call answer t).packet = []
  · have hle := outboundCall_sent_le P env answer t
    have hread : (outboundCall P env answer t).2.1.read = [] := if_pos hpacket
    rw [hread, List.length_nil, Nat.le_zero, List.length_eq_zero_iff] at hle
    rw [Traffic.ForwardsAll, hread, hle]
    exact List.Forall₂.nil
  · have hsent := h.sent_ne_nil hP hpacket
    simp only [Traffic.ForwardsAll, outboundCall, Traffic.ofCall, if_neg hpacket, if_neg hsent]
    apply List.Forall₂.cons _ List.Forall₂.nil
    exact ⟨hsent, _, fun d hd => forwardTunToUdpBonded_seals hd⟩

end Call

/-- The loop can forward what is to come, and its packets are sealed as those of the session. -/
structure Carries (tx : Session Established) (env : LoopEnv) (tun : TunAnswers) (t : Tunnel) : Prop
    extends Forwardable env tun t where
  id : t.session.id = tx.id
  key : t.session.state.sendKey = tx.state.sendKey

theorem Traffic.ForwardsAll.congr {P : Primitives} {tx tx' : Session Established}
    {traffic : Traffic} (h : traffic.ForwardsAll P tx') (hid : tx'.id = tx.id)
    (hkey : tx'.state.sendKey = tx.state.sendKey) : traffic.ForwardsAll P tx := by
  apply List.Forall₂.imp _ h
  rintro packet sent ⟨hne, seq, hseals⟩
  exact ⟨hne, seq, fun d hd => (hseals d hd).congr hid hkey⟩

theorem BondingStrategy.OfSource.next {s : BondingStrategy} (h : s.OfSource) (st : s.σ) :
    OfSource { s with state := st } := by
  cases h with
  | roundRobin next => exact .roundRobin st
  | weighted rngState => exact .weighted st
  | redundant => exact .redundant
  | latencyAdaptive init => exact .latencyAdaptive st

section Run
variable {P : Primitives} {tx : Session Established} {env : LoopEnv}
  {answer : Except IoError Bytes} {tun : TunAnswers} {t : Tunnel}

/-- A step keeps the loop able to forward if it leaves the links, the identity and the key of the
session alone and counts no further than the packets to come allow. -/
theorem Carries.moves (h : Carries tx env tun t) {tun' : TunAnswers} {t' : Tunnel}
    (hrest : tun' ⊆ tun) (hstrategy : t'.engine.strategy.OfSource)
    (hlinks : t'.engine.links = t.engine.links)
    (hcounter : t'.session.state.sendCounter.toNat + tun'.length ≤ 2 ^ 32)
    (hid : t'.session.id = t.session.id)
    (hkey : t'.session.state.sendKey = t.session.state.sendKey) : Carries tx env tun' t' where
  strategy := hstrategy
  healthy := by rw [hlinks]; exact h.healthy
  sockets := by rw [hlinks]; exact h.sockets
  sends := h.sends
  packets p hp := h.packets p (hrest hp)
  mtu := h.mtu
  counter := hcounter
  id := hid.trans h.id
  key := hkey.trans h.key

theorem Carries.outboundCall (h : Carries tx env (answer :: tun) t) (P : Primitives) :
    Carries tx env tun (outboundCall P env answer t).2.2 := by
  have hframe := forwardTunToUdpBonded_frame P (env.call answer t) t.session t.metrics
  have hcount := forwardTunToUdpBonded_cases P (env.call answer t) t.session t.metrics
  have hengine := forwardTunToUdpBonded_engine P (env.call answer t) t.session t.metrics
  simp only [Core.outboundCall]
  generalize forwardTunToUdpBonded P (env.call answer t) t.session t.metrics = o at *
  have hlinks : o.engine.links = t.engine.links := by
    rcases hengine with he | he <;> rw [he] <;> rfl
  have hstrategy : o.engine.strategy.OfSource := by
    rcases hengine with he | he
    · rw [he]
      exact h.strategy
    · rw [he]
      exact h.strategy.next _
  have hcounter : o.session.state.sendCounter.toNat ≤ t.session.state.sendCounter.toNat + 1 := by
    have hadd : (t.session.state.sendCounter + 1).toNat ≤
        t.session.state.sendCounter.toNat + 1 := by
      exact Nat.mod_le _ _
    rcases hcount with ⟨-, hs | hs⟩ | ⟨hs, -⟩
    · rw [hs]
      exact Nat.le_succ _
    · rw [hs]
      exact hadd
    · rw [hs]
      exact hadd
  have hleft := h.counter
  rw [List.length_cons] at hleft
  exact h.moves (List.subset_cons_self _ _) hstrategy hlinks (by dsimp only; omega) hframe.1 hframe.2

theorem drainTun_forwardsAll (hP : P.LawfulAead) (h : Carries tx env tun t) :
    (drainTun P env tun t).1.ForwardsAll P tx ∧
      Carries tx env (drainTun P env tun t).2.1 (drainTun P env tun t).2.2 := by
  induction tun generalizing t with
  | nil =>
    exact ⟨List.Forall₂.nil, h⟩
  | cons answer tun ih =>
    have hsent := (outboundCall_forwardsAll hP h.toForwardable).congr h.id h.key
    have hnext := h.outboundCall P
    rw [drainTun]
    rcases hcall : outboundCall P env answer t with ⟨result, traffic, t'⟩
    rw [hcall] at hsent hnext
    split
    · next heq =>
      cases heq
      exact ⟨hsent, hnext⟩
    · next heq =>
      cases heq
      obtain ⟨hrest, hfinal⟩ := ih hnext
      exact ⟨List.rel_append hsent hrest, hfinal⟩
    · next heq =>
      cases heq
      exact ⟨hsent, hnext⟩

theorem Carries.inboundCall (h : Carries tx env tun t) (P : Primitives) (answer : InboundAnswer) :
    Carries tx env tun (inboundCall P env answer t).2 := by
  have hsame : ∃ window, (Core.inboundCall P env answer t).2.session = { t.session with
      state := { t.session.state with recvWindow := window } } := by
    rcases forwardUdpToTunEncrypted_cases P ⟨env.scratchLen, answer.recvFrom, answer.tunSend⟩
        t.session t.metrics with ⟨-, hs, -⟩ | ⟨_, _, _, -, -, -, -, -, hs, -⟩
    · exact ⟨_, hs⟩
    · exact ⟨_, hs.trans (Session.decryptData_state P _ _ _)⟩
  obtain ⟨window, hs⟩ := hsame
  exact h.moves (List.Subset.refl _) h.strategy rfl (by rw [hs]; exact h.counter) (by rw [hs])
    (by rw [hs])

theorem Carries.drainSocket (h : Carries tx env tun t) (P : Primitives)
    (answers : List InboundAnswer) : Carries tx env tun (drainSocket P env answers t) := by
  induction answers generalizing t with
  | nil => exact h.inboundCall P _
  | cons answer answers ih =>
    have hnext := h.inboundCall P answer
    rw [Core.drainSocket]
    split
    · next heq =>
      rw [heq] at hnext
      exact ih hnext
    · next heq =>
      rw [heq] at hnext
      exact hnext

/-- The Unix loop forwards every packet it reads. -/
theorem reactorLoop_forwardsAll (hP : P.LawfulAead) (h : Carries tx env tun t)
    (events : List LoopEvent) :
    (trafficOf (reactorLoop P env) (tun, t) events).ForwardsAll P tx := by
  apply trafficOf_induct (I := fun s => Carries tx env s.1 s.2)
    (p := Traffic.ForwardsAll P tx) List.Forall₂.nil (fun a b ha hb => List.rel_append ha hb) _ h
  rintro ⟨tun, t⟩ event hs
  cases event with
  | tun => exact (drainTun_forwardsAll hP hs).symm
  | socket index answers =>
    rw [reactorLoop]
    split
    · exact ⟨hs.drainSocket P answers, List.Forall₂.nil⟩
    · exact ⟨hs, List.Forall₂.nil⟩

end Run

/-- More is read than sent, unless nothing is read. -/
structure Traffic.Loses (traffic : Traffic) : Prop where
  le : traffic.sent.length ≤ traffic.read.length
  eq : traffic.sent.length = traffic.read.length → traffic.read = []

theorem Traffic.Loses.append {a b : Traffic} (ha : a.Loses) (hb : b.Loses) :
    (a.append b).Loses := by
  have hale := ha.le
  have hble := hb.le
  refine ⟨?_, ?_⟩
  · simp only [Traffic.append, List.length_append]
    omega
  · intro heq
    simp only [Traffic.append, List.length_append] at heq
    rw [Traffic.append, ha.eq (by omega), hb.eq (by omega), List.append_nil]

section Windows
variable (P : Primitives) {env : LoopEnv} {tun : TunAnswers} {t : Tunnel}
  (inbound : ℕ → InboundAnswer)

theorem windowsLoop_of_empty (h : (env.call tun.recv.1 t).packet = []) :
    (windowsLoop P env (tun, t) inbound).1 = .none ∧
      (windowsLoop P env (tun, t) inbound).2.1 = tun.recv.2 := by
  simp [windowsLoop, if_pos h]

theorem windowsLoop_of_packet (h : (env.call tun.recv.1 t).packet ≠ []) :
    (windowsLoop P env (tun, t) inbound).1 =
      Traffic.append ⟨[(env.call tun.recv.1 t).packet], []⟩
        (outboundCall P env tun.recv.2.recv.1 t).2.1 := by
  simp only [windowsLoop, if_neg h]

end Windows

theorem windowsLoop_loses (P : Primitives) (env : LoopEnv) (s : TunAnswers × Tunnel)
    (inbound : ℕ → InboundAnswer) : (windowsLoop P env s inbound).1.Loses := by
  obtain ⟨tun, t⟩ := s
  by_cases h : (env.call tun.recv.1 t).packet = []
  · rw [(windowsLoop_of_empty P inbound h).1]
    exact ⟨le_rfl, fun _ => rfl⟩
  · -- The packet that was found is read and not sent.
    have hle := outboundCall_sent_le P env tun.recv.2.recv.1 t
    have hlt : (windowsLoop P env (tun, t) inbound).1.sent.length <
        (windowsLoop P env (tun, t) inbound).1.read.length := by
      rw [windowsLoop_of_packet P inbound h]
      simp only [Traffic.append, List.nil_append, List.length_append, List.length_singleton]
      omega
    exact ⟨hlt.le, fun heq => absurd heq hlt.ne⟩

theorem windowsRun_loses (P : Primitives) (env : LoopEnv) (s : TunAnswers × Tunnel)
    (turns : List (ℕ → InboundAnswer)) : (trafficOf (windowsLoop P env) s turns).Loses :=
  trafficOf_induct (I := fun _ => True) ⟨le_rfl, fun _ => rfl⟩ (fun _ _ ha hb => ha.append hb)
    (fun s inbound _ => ⟨trivial, windowsLoop_loses P env s inbound⟩) trivial turns

theorem windowsRun_read_eq_nil_iff (P : Primitives) (env : LoopEnv) (tun : TunAnswers) (t : Tunnel)
    (turns : List (ℕ → InboundAnswer)) :
    (trafficOf (windowsLoop P env) (tun, t) turns).read = [] ↔
      ∀ p, .ok p ∈ tun.take turns.length → p = [] := by
  induction turns generalizing tun t with
  | nil => simp [trafficOf, Machine.trace, Traffic.none]
  | cons inbound turns ih =>
    change (Traffic.append (windowsLoop P env (tun, t) inbound).1 (trafficOf (windowsLoop P env)
      (windowsLoop P env (tun, t) inbound).2 turns)).read = [] ↔ _
    have htake : ∀ x, x ∈ tun.take (turns.length + 1) ↔
        tun.head? = some x ∨ x ∈ tun.recv.2.take turns.length := by
      cases tun with
      | nil => simp [TunAnswers.recv]
      | cons answer tun => simp [TunAnswers.recv, eq_comm]
    have hhead : ∀ p, tun.recv.1 = .ok p ↔ tun.head? = some (.ok p) := by
      cases tun with
      | nil => simp [TunAnswers.recv]
      | cons answer tun => simp [TunAnswers.recv]
    by_cases h : (env.call tun.recv.1 t).packet = []
    · obtain ⟨hnone, hrest⟩ := windowsLoop_of_empty P inbound h
      rw [hnone, ← Prod.mk.eta (p := (windowsLoop P env (tun, t) inbound).2), hrest]
      change (trafficOf _ _ _).read = [] ↔ _
      rw [ih]
      rw [packet_eq_nil_iff] at h
      simp only [List.length_cons, htake, ← hhead]
      exact ⟨fun hall p hp => hp.elim (h p) (hall p), fun hall p hp => hall p (Or.inr hp)⟩
    · rw [windowsLoop_of_packet P inbound h]
      apply iff_of_false (List.cons_ne_nil _ _)
      intro hall
      refine h (packet_eq_nil_iff.mpr fun p hp => hall p ?_)
      exact (htake _).mpr (Or.inl ((hhead p).mp hp))

/-- The Unix loop seals and sends every packet it reads, in order. The Windows loop does so only if
it finds no packet: none of the answers it gets, one for each turn, is one. -/
theorem windowsLoop_forwards_iff {P : Primitives} (hP : P.LawfulAead) {env : LoopEnv}
    {tun : TunAnswers} {t : Tunnel} (h : Forwardable env tun t) (events : List LoopEvent)
    (turns : List (ℕ → InboundAnswer)) :
    (trafficOf (reactorLoop P env) (tun, t) events).ForwardsAll P t.session ∧
    ((trafficOf (windowsLoop P env) (tun, t) turns).ForwardsAll P t.session ↔
      ∀ p, .ok p ∈ tun.take turns.length → p = []) := by
  refine ⟨reactorLoop_forwardsAll hP { h with id := rfl, key := rfl } events, ?_⟩
  rw [← windowsRun_read_eq_nil_iff P env tun t turns]
  have hloses := windowsRun_loses P env (tun, t) turns
  constructor
  · exact fun hall => hloses.eq hall.length_eq.symm
  · intro hread
    have hle := hloses.le
    rw [hread, List.length_nil, Nat.le_zero, List.length_eq_zero_iff] at hle
    rw [Traffic.ForwardsAll, hread, hle]
    exact List.Forall₂.nil

namespace Sample

def loopEnv : LoopEnv where
  mtu := 1400
  sockets := [⟨1, ⟨port 1, none⟩⟩]
  sendTo _ _ := .ok ()

def tunnel : Tunnel where
  session := freshSession 7 keys 0
  engine := .newWithRoundRobin ⟨[.new 1 "eth0" (port 9) 1]⟩
  metrics := .new

def idle : InboundAnswer := ⟨.error wouldBlock, .ok ()⟩

def late : TunAnswers := [.error wouldBlock, .ok [104, 105]]

theorem late_forwardable : Forwardable loopEnv late tunnel where
  strategy := .roundRobin 0
  healthy := by decide
  sockets := by decide
  sends _ _ := rfl
  packets := by simp [late, loopEnv]
  mtu := by decide
  counter := by decide

end Sample

/-- The Unix loop sends the packet when it is there, and the Windows loop does not get to it in its
only turn. -/
theorem windowsLoop_forwards_late :
    (trafficOf (reactorLoop .transparent Sample.loopEnv) (Sample.late, Sample.tunnel)
      [.tun, .tun]).ForwardsAll .transparent Sample.tunnel.session ∧
    (trafficOf (windowsLoop .transparent Sample.loopEnv) (Sample.late, Sample.tunnel)
      [fun _ => Sample.idle]).ForwardsAll .transparent Sample.tunnel.session := by
  obtain ⟨hunix, hwindows⟩ := windowsLoop_forwards_iff Primitives.transparent_lawfulAead
    Sample.late_forwardable [.tun, .tun] [fun _ => Sample.idle]
  exact ⟨hunix, hwindows.mpr (by simp [Sample.late])⟩

/-- A device with two packets. The Unix loop sends both, the Windows loop the second one only. -/
theorem windowsLoop_drops_found :
    (trafficOf (reactorLoop .transparent Sample.loopEnv)
      ([.ok [104, 105], .ok [106]], Sample.tunnel) [.tun]).sent.length = 2 ∧
    trafficOf (windowsLoop .transparent Sample.loopEnv)
        ([.ok [104, 105], .ok [106]], Sample.tunnel) [fun _ => Sample.idle] =
      ⟨[[104, 105], [106]], [[⟨Sample.port 1, Sample.port 9,
        dataFrame 7 0 ([106] ++ (ByteArr.ofBytes 16 (buildAad 7 0)).toList)⟩]]⟩ := by
  decide

end Desmos.Core
