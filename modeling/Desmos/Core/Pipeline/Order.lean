import Desmos.Proto.AntiReplay.AcceptedSet
import Desmos.Core.Pipeline.Delivery
import Desmos.Core.Pipeline.FanOut

/-! # The order in which packets reach the TUN

What keeps an order is the replay window alone: it refuses a number that it has accepted and one
that is far behind, and lets every other late number through.
-/
namespace Desmos.Core
open Library Proto

/-- What a run of the receiver writes to its TUN, under the numbers of the frames. -/
def writes (P : Primitives) (s : Session Established × PipelineMetrics) :
    List InboundEnv → List (UInt64 × Bytes) :=
  (receiver P).along s fun _ s env =>
    env.number.toList.flatMap fun q =>
      (forwardUdpToTunEncrypted P env s.1 s.2).written.map fun pt => (q, pt)

/-- Behind these frames the window refuses the number: it was accepted before, or is 128 or more
behind the highest that was. -/
def Refused (frames : List InboundEnv) (q : UInt64) : Prop :=
  q.toNat ∈ AntiReplayWindow.acceptedIn (frames.filterMap InboundEnv.number) ∨
    128 ≤ (AntiReplayWindow.acceptedIn (frames.filterMap InboundEnv.number)).highest - q.toNat

/-- One of these frames gets its number through the window and to a TUN that takes it. -/
def Brings (frames : List InboundEnv) (q : UInt64) : Prop :=
  ∃ front r back, frames = front ++ r :: back ∧ r.number = some q ∧ r.tunSend.isOk = true ∧
    ¬ Refused front q

theorem wouldAccept_iff_not_refused {frames : List InboundEnv} {q : UInt64} :
    (AntiReplayWindow.after (frames.filterMap InboundEnv.number)).wouldAccept q = true ↔
      ¬ Refused frames q := by
  rw [AntiReplayWindow.wouldAccept_after_iff, Refused, not_or, not_le]
  refine and_congr_right fun _ => ⟨?_, fun h => Or.inr (Or.inr h)⟩
  rintro (hempty | hlt | hlt)
  · rw [hempty]
    simp [AcceptedSet.highest]
  · omega
  · exact hlt

section Authentic
variable {P : Primitives} {tx rx : Session Established} {m : PipelineMetrics} {env : InboundEnv}
  {log : List (UInt64 × Bytes)}

/-- What a call does with an authentic frame that it receives in whole, or without one. -/
structure AuthenticStep (rx : Session Established) (env : InboundEnv) (o : InboundOutcome) :
    Prop where
  id : o.session.id = rx.id
  key : o.session.state.recvKey = rx.state.recvKey
  window : o.session.state.recvWindow =
    Machine.final AntiReplayWindow.checkAndUpdate rx.state.recvWindow env.number.toList
  written : ∀ q, env.number = some q → ∃ pt, o.written =
    if env.tunSend.isOk = true ∧ rx.state.recvWindow.wouldAccept q = true then [pt] else []
  silent : env.number = none → o.written = []

theorem forwardUdpToTunEncrypted_authentic (hP : P.LawfulAead)
    (hkey : tx.state.sendKey = rx.state.recvKey) (hid : tx.id = rx.id)
    (hnet : ∀ datagram src, env.recvFrom = .ok (datagram, src) →
      ∃ e ∈ log, SealsEntry P tx e datagram) :
    AuthenticStep rx env (forwardUdpToTunEncrypted P env rx m) := by
  rcases forwardUdpToTunEncrypted_cases P env rx m with
    ⟨hnumber, hs, hw⟩ | ⟨datagram, src, header, hrecv, hsc, hdec, hlen, hnumber, hs, hw⟩
  · refine ⟨by rw [hs], by rw [hs], by rw [hs, hnumber]; rfl, fun q hq => ?_, fun _ => hw⟩
    rw [hnumber] at hq
    cases hq
  · obtain ⟨e, he, ⟨ct, hseal, hct, rfl⟩, hn, hne⟩ := hnet datagram src hrecv
    rw [dataFrame_decode hsc] at hdec
    cases hdec
    rw [dataFrame_payload hct hlen, dataHeader_sequence hn] at hs hw
    rw [dataHeader_sequence hn] at hnumber
    have hopen := AeadKey.open_seal hP (Session.sealWith_ok_iff.mp hseal).2.2
    rw [hkey, hid] at hopen
    rw [Session.decryptData_state] at hs
    refine ⟨by rw [hs], by rw [hs], by rw [hs, hnumber]; rfl, fun q hq => ⟨e.2, ?_⟩,
      fun hnone => ?_⟩
    · obtain rfl : e.1 = q := Option.some.inj (hnumber.symm.trans hq)
      rw [hw]
      by_cases hacc : rx.state.recvWindow.wouldAccept e.1 = true
      · rw [Session.decryptData_ok_iff.mpr ⟨hacc, hopen⟩]
        simp [hacc, Except.toOption]
      · cases hr : (rx.decryptData P e.1 ct).1 with
        | error err => simp [hacc, Except.toOption]
        | ok pt => exact absurd (Session.decryptData_ok_iff.mp hr).1 hacc
    · rw [hnumber] at hnone
      cases hnone

end Authentic

section Runs
variable {P : Primitives} {tx : Session Established} {rx : Session Established × PipelineMetrics}
  {recvs : List InboundEnv} {log : List (UInt64 × Bytes)}

theorem delivered_eq_writes (P : Primitives) (rx : Session Established × PipelineMetrics)
    (recvs : List InboundEnv) : delivered P rx recvs = (writes P rx recvs).map Prod.snd := by
  induction recvs using List.reverseRecOn with
  | nil => rfl
  | append_singleton recvs r ih =>
    have hcall : ∀ s : Session Established × PipelineMetrics,
        ((r.number.toList.flatMap fun q =>
          (forwardUdpToTunEncrypted P r s.1 s.2).written.map fun pt => (q, pt)).map Prod.snd) =
          (forwardUdpToTunEncrypted P r s.1 s.2).written := by
      intro s
      rcases forwardUdpToTunEncrypted_cases P r s.1 s.2 with
        ⟨hnumber, -, hw⟩ | ⟨_, _, _, -, -, -, -, hnumber, -⟩
      · rw [hnumber, hw]
        rfl
      · rw [hnumber, Option.toList_some, List.flatMap_singleton, List.map_map]
        exact List.map_id _
    rw [writes, Machine.along_concat, List.map_append, hcall, ← writes, ← ih, delivered,
      Machine.trace_append, List.flatMap_append]
    simp [Machine.trace, receiver, delivered]

theorem receiver_final (hP : P.LawfulAead) (hkey : tx.state.sendKey = rx.1.state.recvKey)
    (hid : tx.id = rx.1.id)
    (hnet : ∀ r ∈ recvs, ∀ datagram src, r.recvFrom = .ok (datagram, src) →
      ∃ e ∈ log, SealsEntry P tx e datagram) :
    let s := ((receiver P).final rx recvs).1
    s.id = rx.1.id ∧ s.state.recvKey = rx.1.state.recvKey ∧
      s.state.recvWindow = Machine.final AntiReplayWindow.checkAndUpdate rx.1.state.recvWindow
        (recvs.filterMap InboundEnv.number) := by
  induction recvs using List.reverseRecOn with
  | nil => exact ⟨rfl, rfl, rfl⟩
  | append_singleton recvs r ih =>
    obtain ⟨hid', hkey', hwindow⟩ := ih fun r' hr' => hnet r' (List.mem_append_left _ hr')
    have hstep := forwardUdpToTunEncrypted_authentic (m := ((receiver P).final rx recvs).2) hP
      (hkey.trans hkey'.symm) (hid.trans hid'.symm) (hnet r (by simp))
    have hlast : [r].filterMap InboundEnv.number = r.number.toList := by
      cases hq : r.number <;> simp [hq]
    rw [Machine.final_concat, List.filterMap_append, Machine.final_append, hlast, ← hwindow]
    exact ⟨hstep.id.trans hid', hstep.key.trans hkey', hstep.window⟩

theorem writes_step (hP : P.LawfulAead) (hkey : tx.state.sendKey = rx.1.state.recvKey)
    (hid : tx.id = rx.1.id) (hnew : rx.1.state.recvWindow = .new) {early late : List InboundEnv}
    {r : InboundEnv} (hnet : ∀ r' ∈ early ++ r :: late, ∀ datagram src,
      r'.recvFrom = .ok (datagram, src) → ∃ e ∈ log, SealsEntry P tx e datagram) :
    let s := (receiver P).final rx early
    ∀ q, r.number = some q → ∃ pt, (forwardUdpToTunEncrypted P r s.1 s.2).written =
      if r.tunSend.isOk = true ∧ (AntiReplayWindow.after
        (early.filterMap InboundEnv.number)).wouldAccept q = true then [pt] else [] := by
  intro s q hq
  obtain ⟨hid', hkey', hwindow⟩ := receiver_final hP hkey hid fun r' hr' =>
    hnet r' (List.mem_append_left _ hr')
  have hstep := forwardUdpToTunEncrypted_authentic (m := s.2) hP (hkey.trans hkey'.symm)
    (hid.trans hid'.symm) (hnet r (by simp))
  obtain ⟨pt, hw⟩ := hstep.written q hq
  refine ⟨pt, ?_⟩
  rw [hw, hwindow, hnew]
  rfl

theorem written_iff_brings (hP : P.LawfulAead) (hkey : tx.state.sendKey = rx.1.state.recvKey)
    (hid : tx.id = rx.1.id) (hnew : rx.1.state.recvWindow = .new)
    (hnet : ∀ r ∈ recvs, ∀ datagram src, r.recvFrom = .ok (datagram, src) →
      ∃ e ∈ log, SealsEntry P tx e datagram) {q : UInt64} :
    (∃ pt, (q, pt) ∈ writes P rx recvs) ↔ Brings recvs q := by
  unfold writes
  simp only [Machine.mem_along]
  constructor
  · rintro ⟨pt, front, r, back, rfl, hmem⟩
    obtain ⟨q', hq, hwritten⟩ := List.mem_flatMap.mp hmem
    obtain ⟨pt', hwritten, heq⟩ := List.mem_map.mp hwritten
    cases heq
    have hnumber : r.number = some q := Option.mem_toList.mp hq
    obtain ⟨pt', hstep⟩ := writes_step hP hkey hid hnew hnet q hnumber
    rw [hstep] at hwritten
    split at hwritten
    · next hok =>
      exact ⟨front, r, back, rfl, hnumber, hok.1, wouldAccept_iff_not_refused.mp hok.2⟩
    · cases hwritten
  · rintro ⟨front, r, back, rfl, hnumber, htun, hfresh⟩
    obtain ⟨pt, hstep⟩ := writes_step hP hkey hid hnew hnet q hnumber
    rw [if_pos ⟨htun, wouldAccept_iff_not_refused.mpr hfresh⟩] at hstep
    exact ⟨pt, front, r, back, rfl, by rw [hnumber, hstep]; simp⟩

end Runs

/-- The packets reach the TUN in the order of their numbers exactly when every frame that comes
after one that brought a number at least as high is refused by the window. -/
theorem tun_writes_in_order_iff (P : Primitives) (hP : P.LawfulAead)
    (tx rx : Session Established × PipelineMetrics)
    (hkey : tx.1.state.sendKey = rx.1.state.recvKey) (hid : tx.1.id = rx.1.id)
    (hnew : rx.1.state.recvWindow = .new) (sends : List OutboundEnv) (recvs : List InboundEnv)
    (hnet : ∀ r ∈ recvs, ∀ datagram src, r.recvFrom = .ok (datagram, src) →
      ∃ d ∈ onWire P tx sends, d.payload = datagram) :
    delivered P rx recvs = (writes P rx recvs).map Prod.snd ∧
    ((writes P rx recvs).Pairwise (fun a b => a.1 < b.1) ↔
      ∀ early r late q, recvs = early ++ r :: late → r.number = some q → r.tunSend.isOk = true →
        (∃ q', Brings early q' ∧ q ≤ q') → Refused early q) := by
  refine ⟨delivered_eq_writes P rx recvs, ?_⟩
  have hlog := received_seals hnet
  rw [writes, Machine.along_pairwise_iff, ← writes]
  constructor
  · rintro h early r late q rfl hq htun ⟨q', hbrings, hle⟩
    obtain ⟨pt', hw⟩ := (written_iff_brings hP hkey hid hnew fun r' hr' =>
      hlog r' (List.mem_append_left _ hr')).mpr hbrings
    obtain ⟨pt, hwritten⟩ := writes_step hP hkey hid hnew hlog q hq
    by_contra hfresh
    rw [if_pos ⟨htun, wouldAccept_iff_not_refused.mpr hfresh⟩] at hwritten
    have hlt := (h early r late rfl).2 (q', pt') hw (q, pt) (by rw [hq, hwritten]; simp)
    exact absurd hlt (UInt64.not_lt.mpr hle)
  · rintro h early r late rfl
    cases hq : r.number with
    | none => simp
    | some q =>
      obtain ⟨pt, hwritten⟩ := writes_step hP hkey hid hnew hlog q hq
      rw [hwritten]
      split
      · next hok =>
        refine ⟨by simp, fun w hw b hb => ?_⟩
        obtain rfl : b = (q, pt) := by simpa using hb
        by_contra hge
        have hbrings := (written_iff_brings hP hkey hid hnew fun r' hr' =>
          hlog r' (List.mem_append_left _ hr')).mp ⟨w.2, hw⟩
        exact wouldAccept_iff_not_refused.mp hok.2
          (h early r late q rfl hq hok.1 ⟨w.1, hbrings, UInt64.not_lt.mp hge⟩)
      · simp

namespace Sample

def nearEnd : Session Established × PipelineMetrics := (freshSession 7 keys 0, .new)

def farEnd : Session Established × PipelineMetrics :=
  (freshSession 7 ⟨keys.recv, keys.send, keys.handshakeHash⟩ 0, .new)

def twoPackets : List OutboundEnv :=
  [[104], [105]].map fun packet => {
    scratchLen := 64, tunRecv := .ok packet
    engine := .new redundant ⟨[.new 1 "eth0" (port 9) 1]⟩
    getSock := fun id => some ⟨port id.toUInt16, none⟩, sendTo := fun _ => .ok () }

/-- Their frames, the second one first. -/
def swapped : List InboundEnv :=
  (onWire .transparent nearEnd twoPackets).reverse.map fun d => ⟨64, .ok (d.payload, d.src), .ok ()⟩

theorem swapped_onWire : ∀ r ∈ swapped, ∀ datagram src, r.recvFrom = .ok (datagram, src) →
    ∃ d ∈ onWire .transparent nearEnd twoPackets, d.payload = datagram := by
  intro r hr datagram src h
  obtain ⟨d, hd, rfl⟩ := List.mem_map.mp hr
  cases h
  exact ⟨d, List.mem_reverse.mp hd, rfl⟩

end Sample

open Sample in
theorem tun_writes_in_order_iff_swapped :
    delivered .transparent farEnd swapped = (writes .transparent farEnd swapped).map Prod.snd ∧
    ((writes .transparent farEnd swapped).Pairwise (fun a b => a.1 < b.1) ↔
      ∀ early r late q, swapped = early ++ r :: late → r.number = some q → r.tunSend.isOk = true →
        (∃ q', Brings early q' ∧ q ≤ q') → Refused early q) :=
  tun_writes_in_order_iff .transparent Primitives.transparent_lawfulAead nearEnd farEnd rfl rfl rfl
    twoPackets swapped swapped_onWire

open Sample in
/-- Two frames that overtake each other on the way reach the TUN in the order they arrive in. -/
theorem swapped_frames_stay_swapped :
    (∀ r ∈ swapped, ∀ datagram src, r.recvFrom = .ok (datagram, src) →
      ∃ d ∈ onWire .transparent nearEnd twoPackets, d.payload = datagram) ∧
    writes .transparent farEnd swapped = [(1, [105]), (0, [104])] ∧
    delivered .transparent farEnd swapped = [[105], [104]] :=
  ⟨swapped_onWire, by decide, by decide⟩

end Desmos.Core
