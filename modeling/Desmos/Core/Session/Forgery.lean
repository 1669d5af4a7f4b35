import Desmos.Core.Session

/-! # What a forged packet does to a session

The window is updated before the tag is checked, so a packet that fails to open still spends its
sequence number.
-/
namespace Desmos.Core
open Library Proto

/-- A packet as the data path hands it over: sequence number and ciphertext. -/
structure Packet where
  seq : UInt64
  ciphertext : Bytes
  deriving DecidableEq

/-- Whether the AEAD opens a packet under one epoch's receive key. -/
def Established.authentic (P : Primitives) (id : SessionId) (st : Established) (p : Packet) : Bool :=
  match st.recvKey.openInPlace P (buildNonce p.seq) (buildAad id p.seq) p.ciphertext with
  | .ok _ => true
  | .error _ => false

/-- In the run of one epoch on `ps`, every forged packet meets a window that
refuses its number. -/
def Established.ForgeriesRefused (P : Primitives) (id : SessionId) (st : Established) :
    List Packet → Prop
  | [] => True
  | p :: ps => (st.authentic P id p = false → st.recvWindow.wouldAccept p.seq = false) ∧
      ForgeriesRefused P id (st.receive P id p.seq p.ciphertext).2 ps

namespace Established

/-- One epoch's receiving side as a machine over packets. -/
def receiver (P : Primitives) (id : SessionId) :
    Machine Established Packet (Except SessionError Bytes) :=
  fun st p => st.receive P id p.seq p.ciphertext

variable {P : Primitives} {id : SessionId} {st : Established}

theorem receive_authentic (p : Packet) :
    (st.receive P id p.seq p.ciphertext).2.authentic P id = st.authentic P id := by
  rw [receive_state]
  rfl

theorem receive_unchanged_iff (P : Primitives) (id : SessionId) (st : Established) (p : Packet) :
    (st.receive P id p.seq p.ciphertext).2 = st ↔ st.recvWindow.wouldAccept p.seq = false := by
  rw [receive_state, ← AntiReplayWindow.checkAndUpdate_unchanged_iff]
  constructor
  · exact fun h => congrArg Established.recvWindow h
  · exact fun h => by rw [h]

theorem receiver_quiet {ps : List Packet} (h : st.ForgeriesRefused P id ps) :
    (receiver P id).QuietOutside (st.authentic P id) st ps := by
  induction ps generalizing st with
  | nil => trivial
  | cons p ps ih =>
    refine ⟨fun hf => (receive_unchanged_iff P id st p).mpr (h.1 hf), ?_⟩
    have hq := ih h.2
    rwa [receive_authentic] at hq

end Established

namespace Session
variable {P : Primitives}

/-- The receiving side of an established session as a machine over packets. -/
def receiver (P : Primitives) : Machine (Session Established) Packet (Except SessionError Bytes) :=
  fun s p => s.decryptData P p.seq p.ciphertext

/-- The same while a rekey is in flight: the old epoch still receives. -/
def oldReceiver (P : Primitives) : Machine (Session Rekeying) Packet (Except SessionError Bytes) :=
  fun s p => s.decryptWithOld P p.seq p.ciphertext

theorem receiver_trace (s : Session Established) (ps : List Packet) :
    (receiver P).trace s ps = (Established.receiver P s.id).trace s.state ps := by
  have hsim : (receiver P).Simulates (Established.receiver P s.id)
      (fun t st => t.id = s.id ∧ t.state = st) := by
    rintro t _ p ⟨hid, rfl⟩
    simp [receiver, decryptData, Established.receiver, hid]
  exact hsim.trace ⟨rfl, rfl⟩ ps

theorem oldReceiver_trace (s : Session Rekeying) (ps : List Packet) :
    (oldReceiver P).trace s ps = (Established.receiver P s.id).trace s.state.old ps := by
  have hsim : (oldReceiver P).Simulates (Established.receiver P s.id)
      (fun t st => t.id = s.id ∧ t.state.old = st) := by
    rintro t _ p ⟨hid, rfl⟩
    simp [oldReceiver, decryptWithOld, Established.receiver, hid]
  exact hsim.trace ⟨rfl, rfl⟩ ps

end Session

/-- A forged packet leaves the window unchanged exactly when the window refused its number before;
while that holds for every forgery of a run, the authentic packets get the answers they would get
without them. The same holds for the old epoch during a rekey. -/
theorem forged_packet_noop_iff (P : Primitives) (s : Session Established) (r : Session Rekeying) :
    (∀ p : Packet, s.state.authentic P s.id p = false →
      ((s.decryptData P p.seq p.ciphertext).2.state.recvWindow = s.state.recvWindow ↔
        s.state.recvWindow.wouldAccept p.seq = false)) ∧
    (∀ p : Packet, r.state.old.authentic P r.id p = false →
      ((r.decryptWithOld P p.seq p.ciphertext).2.state.old.recvWindow = r.state.old.recvWindow ↔
        r.state.old.recvWindow.wouldAccept p.seq = false)) ∧
    (∀ ps : List Packet, s.state.ForgeriesRefused P s.id ps →
      ((Session.receiver P).trace s ps).filter (fun e => s.state.authentic P s.id e.1) =
        (Session.receiver P).trace s (ps.filter (s.state.authentic P s.id))) ∧
    (∀ ps : List Packet, r.state.old.ForgeriesRefused P r.id ps →
      ((Session.oldReceiver P).trace r ps).filter (fun e => r.state.old.authentic P r.id e.1) =
        (Session.oldReceiver P).trace r (ps.filter (r.state.old.authentic P r.id))) := by
  refine ⟨fun p _ => ?_, fun p _ => ?_, fun ps h => ?_, fun ps h => ?_⟩
  · rw [← AntiReplayWindow.checkAndUpdate_unchanged_iff]
    simp only [Session.decryptData, Established.receive_state]
  · rw [← AntiReplayWindow.checkAndUpdate_unchanged_iff]
    simp only [Session.decryptWithOld, Established.receive_state]
  · rw [Session.receiver_trace, Session.receiver_trace]
    exact Machine.trace_filter (Established.receiver_quiet h)
  · rw [Session.oldReceiver_trace, Session.oldReceiver_trace]
    exact Machine.trace_filter (Established.receiver_quiet h)

theorem forged_packet_noop_replayed :
    let P := Primitives.transparent
    let keys : TransportKeys := ⟨Vector.replicate 32 1, Vector.replicate 32 2, Vector.replicate 32 3⟩
    let s := freshSession 7 keys 0
    let authentic : Packet := ⟨0, [104, 105] ++ (ByteArr.ofBytes 16 (buildAad 7 0)).toList⟩
    let forged : Packet := ⟨0, List.replicate 16 255⟩
    ((Session.receiver P).trace s [authentic, forged]).filter (fun e => s.state.authentic P 7 e.1) =
      (Session.receiver P).trace s ([authentic, forged].filter (s.state.authentic P 7)) := by
  intro P keys s authentic forged
  exact (forged_packet_noop_iff P s (s.beginRekey P ⟨keys.send⟩ ⟨keys.recv⟩ [])).2.2.1 _
    ⟨by decide, by decide, trivial⟩

/-- A new session and a forged packet far ahead: the authentic packet that
follows opens, but the window has already moved past it. -/
theorem forged_packet_shuts_out_authentic :
    let P := Primitives.transparent
    let keys : TransportKeys := ⟨Vector.replicate 32 1, Vector.replicate 32 2, Vector.replicate 32 3⟩
    let s := freshSession 7 keys 0
    let forged : Packet := ⟨200, List.replicate 16 255⟩
    let authentic : Packet := ⟨0, [104, 105] ++ (ByteArr.ofBytes 16 (buildAad 7 0)).toList⟩
    s.state.authentic P 7 forged = false ∧ s.state.authentic P 7 authentic = true ∧
    (s.decryptData P forged.seq forged.ciphertext).2.state.recvWindow ≠ s.state.recvWindow ∧
    (Session.receiver P).trace s [authentic] = [(authentic, .ok [104, 105])] ∧
    (Session.receiver P).trace s [forged, authentic] =
      [(forged, .error (.crypto .aeadFailed)), (authentic, .error (.replay .outOfWindow))] := by
  decide

end Desmos.Core
