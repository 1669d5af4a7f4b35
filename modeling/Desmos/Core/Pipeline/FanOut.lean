import Desmos.Core.Pipeline
import Mathlib.Data.List.TakeWhile

/-! # The fan-out over the selected links

The frame goes out link by link, and the first send that fails ends the loop. So the links that
get the frame are those in front of the first failure, and the others are served just if every
failure comes behind the last of them.
-/
namespace Desmos.Core
open Library Proto

/-- The elements in front of the first one outside `p` are all those in `p` just if none of them
comes behind one outside. -/
theorem length_takeWhile_eq_filter_iff {α : Type*} {p : α → Bool} {l : List α} :
    (l.takeWhile p).length = (l.filter p).length ↔ l.Pairwise fun a b => p b = true → p a = true := by
  induction l with
  | nil => simp
  | cons a l ih =>
    cases ha : p a with
    | true => simp [ha, ih]
    | false =>
      have hnone : (l.filter p).length = 0 ↔ ∀ b ∈ l, p b = false := by simp
      have hlater : (∀ b ∈ l, p b = false) → l.Pairwise fun a b => p b = true → p a = true :=
        fun hall => List.pairwise_of_forall_mem_list fun _ _ b hb hpb => by simp [hall b hb] at hpb
      rw [List.takeWhile_cons_of_neg (by simp [ha]), List.filter_cons_of_neg (by simp [ha]),
        List.length_nil, eq_comm, hnone, List.pairwise_cons]
      constructor
      · exact fun hall => ⟨fun b hb hpb => by simp [hall b hb] at hpb, hlater hall⟩
      · exact fun hpair b hb => Bool.eq_false_iff.mpr fun hpb => by simpa [ha] using hpair.1 b hb hpb

theorem takeWhile_eq_filter_of_length {α : Type*} {p : α → Bool} {l : List α}
    (h : (l.takeWhile p).length = (l.filter p).length) : l.takeWhile p = l.filter p := by
  have hself : (l.takeWhile p).filter p = l.takeWhile p :=
    List.filter_eq_self.mpr fun _ ha => List.mem_takeWhile_imp ha
  have hsub : ((l.takeWhile p).filter p).Sublist (l.filter p) := (List.takeWhile_sublist p).filter p
  rw [hself] at hsub
  exact hsub.eq_of_length h

namespace OutboundEnv

/-- The selected links that have a socket, with the socket. -/
def targets (env : OutboundEnv) (links : List Link) : List (UdpSocket × Link) :=
  links.filterMap fun link => (env.getSock link.id).map fun sock => (sock, link)

/-- The send to the target at this position goes through. -/
def sends (env : OutboundEnv) (t : (UdpSocket × Link) × ℕ) : Bool := (env.sendTo t.2).isOk

end OutboundEnv

def frameTo (frame : Bytes) (t : (UdpSocket × Link) × ℕ) : Datagram :=
  ⟨t.1.1.localAddr, t.1.2.peer, frame⟩

theorem fanOut_sent_eq (env : OutboundEnv) (frame : Bytes) (i : ℕ) (links : List Link)
    (metrics : PipelineMetrics) (total : ℕ) (sent : List Datagram) :
    (fanOut env frame i links metrics total sent).2.2 =
      sent ++ (((env.targets links).zipIdx i).takeWhile env.sends).map (frameTo frame) := by
  induction links generalizing i metrics total sent with
  | nil => simp [fanOut, OutboundEnv.targets]
  | cons link links ih =>
    rw [fanOut]
    cases hsock : env.getSock link.id with
    | none =>
      have hskip : env.targets (link :: links) = env.targets links :=
        List.filterMap_cons_none (by rw [hsock, Option.map_none])
      rw [hskip]
      exact ih i metrics total sent
    | some sock =>
      have htarget : env.targets (link :: links) = (sock, link) :: env.targets links :=
        List.filterMap_cons_some (by rw [hsock, Option.map_some])
      rw [htarget, List.zipIdx_cons]
      cases hsend : env.sendTo i with
      | error e =>
        have hstop : ¬ env.sends ((sock, link), i) = true := by
          simp [OutboundEnv.sends, hsend, Except.isOk, Except.toBool]
        rw [List.takeWhile_cons_of_neg hstop, List.map_nil, List.append_nil]
      | ok u =>
        have hgo : env.sends ((sock, link), i) = true := by
          simp [OutboundEnv.sends, hsend, Except.isOk, Except.toBool]
        rw [List.takeWhile_cons_of_pos hgo, List.map_cons, ← List.singleton_append,
          ← List.append_assoc]
        exact ih (i + 1) _ _ _

/-- The call gets as far as the loop, with this ciphertext under the number it drew. -/
structure SealsPacket (P : Primitives) (env : OutboundEnv) (session : Session Established)
    (ciphertext : Bytes) : Prop where
  scratch : headerLen + 1 ≤ env.scratchLen
  received : ∃ packet, env.tunRecv = .ok packet
  nonempty : env.packet ≠ []
  sealed : (session.encryptPacket P env.packet).1 = .ok (session.state.sendCounter, ciphertext)
  short : ciphertext.length ≤ 0xFFFF
  fits : headerLen + ciphertext.length ≤ env.scratchLen
  narrow : session.state.sendCounter ≤ 0xFFFFFFFF

section Bonded
variable {P : Primitives} {env : OutboundEnv} {session : Session Established} {ciphertext : Bytes}

def selectedLinks (env : OutboundEnv) : List Link :=
  (env.engine.schedule (PacketMeta.outbound 0 0)).1.links

theorem SealsPacket.sent_eq (h : SealsPacket P env session ciphertext) (metrics : PipelineMetrics) :
    (forwardTunToUdpBonded P env session metrics).sent =
      (((env.targets (selectedLinks env)).zipIdx).takeWhile env.sends).map
        (frameTo (dataFrame session.id session.state.sendCounter ciphertext)) := by
  obtain ⟨packet, hreceived⟩ := h.received
  have hencrypt : session.encryptPacket P env.packet =
      (.ok (session.state.sendCounter, ciphertext), session.fetchAdd.2) :=
    Prod.ext h.sealed rfl
  have hlen : ¬ env.packet.length = 0 := mt List.length_eq_zero_iff.mp h.nonempty
  have hnarrow : ¬ session.state.sendCounter > 0xFFFFFFFF := UInt64.not_lt.mpr h.narrow
  unfold forwardTunToUdpBonded selectedLinks
  simp only [if_neg (Nat.not_lt.mpr h.scratch), hreceived, if_neg hlen, hencrypt,
    if_neg (Nat.not_lt.mpr h.short), gt_iff_lt, if_neg (Nat.not_lt.mpr h.fits)]
  rw [if_neg hnarrow]
  cases hselect : (env.engine.schedule (PacketMeta.outbound 0 0)).1 with
  | none => rfl
  | one link =>
    exact fanOut_sent_eq env _ 0 _ _ 0 []
  | many links =>
    exact fanOut_sent_eq env _ 0 _ _ 0 []

/-- Every selected link with a socket gets the frame, but for those whose send fails, just if no
send fails in front of one that goes through. -/
theorem fan_out_survives_iff (h : SealsPacket P env session ciphertext)
    (metrics : PipelineMetrics) :
    (forwardTunToUdpBonded P env session metrics).sent =
        (((env.targets (selectedLinks env)).zipIdx).filter env.sends).map
          (frameTo (dataFrame session.id session.state.sendCounter ciphertext)) ↔
      ∀ i k, i < k → k < (env.targets (selectedLinks env)).length →
        (env.sendTo k).isOk = true → (env.sendTo i).isOk = true := by
  have hindex : (∀ i k, i < k → k < (env.targets (selectedLinks env)).length →
      (env.sendTo k).isOk = true → (env.sendTo i).isOk = true) ↔
      ((env.targets (selectedLinks env)).zipIdx).Pairwise fun a b =>
        env.sends b = true → env.sends a = true := by
    rw [List.pairwise_iff_getElem]
    simp only [List.length_zipIdx, List.getElem_zipIdx, OutboundEnv.sends, Nat.zero_add]
    exact ⟨fun hall i k _ hk hik => hall i k hik hk, fun hall i k hik hk =>
      hall i k (hik.trans hk) hk hik⟩
  rw [h.sent_eq, hindex, ← length_takeWhile_eq_filter_iff]
  constructor
  · intro heq
    simpa using congrArg List.length heq
  · intro hlength
    rw [takeWhile_eq_filter_of_length hlength]

end Bonded

namespace Sample

def keys : TransportKeys :=
  ⟨Vector.replicate 32 1, Vector.replicate 32 2, Vector.replicate 32 3⟩

def port (n : UInt16) : SocketAddr := ⟨.v4 (Vector.replicate 4 127), n⟩

/-- A packet for two links, of which the sends at the positions in `failing` fail. -/
def twoLinks (failing : List ℕ) : OutboundEnv where
  scratchLen := 64
  tunRecv := .ok [104, 105]
  engine := .new redundant ⟨[.new 1 "eth0" (port 9) 1, .new 2 "eth1" (port 9) 1]⟩
  getSock id := some ⟨port id.toUInt16, none⟩
  sendTo i := if i ∈ failing then .error ⟨.other, "Network is unreachable"⟩ else .ok ()

def sealedPacket : Bytes := [104, 105] ++ (ByteArr.ofBytes 16 (buildAad 7 0)).toList

theorem twoLinks_seals (failing : List ℕ) : SealsPacket .transparent (twoLinks failing)
    (freshSession 7 keys 0) sealedPacket where
  scratch := (by decide : headerLen + 1 ≤ 64)
  received := ⟨_, rfl⟩
  nonempty := List.cons_ne_nil _ _
  sealed := rfl
  short := by decide
  fits := (by decide : headerLen + sealedPacket.length ≤ 64)
  narrow := by decide

end Sample

open Sample in
/-- The second send fails behind the first one. -/
theorem last_link_may_fail :
    (forwardTunToUdpBonded .transparent (twoLinks [1]) (freshSession 7 keys 0) .new).sent =
      [⟨port 1, port 9, dataFrame 7 0 sealedPacket⟩] := by
  refine (fan_out_survives_iff (twoLinks_seals [1]) .new).mpr fun i k hik hk hok => ?_
  have hlength : ((twoLinks [1]).targets (selectedLinks (twoLinks [1]))).length = 2 := by decide
  obtain rfl : i = 0 := by omega
  rfl

open Sample in
/-- The first send fails, and nothing is sent on the second link. -/
theorem first_link_stops_all :
    selectedLinks (twoLinks [0]) = [.new 1 "eth0" (port 9) 1, .new 2 "eth1" (port 9) 1] ∧
    (twoLinks [0]).sendTo 1 = .ok () ∧
    (forwardTunToUdpBonded .transparent (twoLinks [0]) (freshSession 7 keys 0) .new).sent = [] := by
  decide

end Desmos.Core
