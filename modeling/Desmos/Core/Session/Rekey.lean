import Desmos.Core.Session

/-! # A rekey that fails

`advance_rekey` takes the session by value, so an error leaves the caller with nothing. What the
caller holds between its calls is an optional session.
-/
namespace Desmos.Core
open Library Proto

inductive RekeyCall where
  | decryptWithOld (seq : UInt64) (ciphertext : Bytes)
  | advanceRekey (entropy : Option Key32) (peerMsg : Option Bytes) (nowMs : UInt64)

inductive RekeyAnswer where
  | opened (result : Except SessionError Bytes)
  | advanced (result : Except SessionError RekeyOutcome)
  /-- There is no rekeying session to call. -/
  | gone
  deriving DecidableEq

/-- What is left of a rekeying session after the call that consumed it. -/
def heldAfter : Except SessionError RekeyOutcome → Option (Session Rekeying)
  | .ok (.needsMore _ next) => some next
  | .ok (.finished _) => none
  | .error _ => none

/-- The caller of a rekeying session, as long as it holds one. -/
def rekeyRun (P : Primitives) : Machine (Option (Session Rekeying)) RekeyCall RekeyAnswer
  | none, _ => (.gone, none)
  | some s, .decryptWithOld seq ciphertext =>
    (.opened (s.decryptWithOld P seq ciphertext).1, some (s.decryptWithOld P seq ciphertext).2)
  | some s, .advanceRekey entropy peerMsg nowMs =>
    (.advanced (s.advanceRekey P entropy peerMsg nowMs),
      heldAfter (s.advanceRekey P entropy peerMsg nowMs))

/-- The call neither failed nor ended the rekey. -/
def RekeyAnswer.goesOn : RekeyAnswer → Bool
  | .opened _ => true
  | .advanced (.ok (.needsMore _ _)) => true
  | _ => false

section Rekey
variable {P : Primitives} {s t : Session Rekeying} {seq : UInt64} {pt ct : Bytes}

/-- A packet that the peer sealed for the old epoch. -/
def SealedForOld (P : Primitives) (s : Session Rekeying) (seq : UInt64) (pt ct : Bytes) : Prop :=
  s.state.old.recvKey.sealInPlace P (buildNonce seq) (buildAad s.id seq) pt = .ok ct

/-- What no call on a rekeying session changes. -/
structure SameOldEpoch (s t : Session Rekeying) : Prop where
  id : t.id = s.id
  recvKey : t.state.old.recvKey = s.state.old.recvKey

theorem SealedForOld.opens (hP : P.LawfulAead) (hsame : SameOldEpoch s t)
    (hsealed : SealedForOld P s seq pt ct)
    (hwindow : t.state.old.recvWindow.wouldAccept seq = true) :
    (t.decryptWithOld P seq ct).1 = .ok pt := by
  apply Established.receive_ok_iff.mpr
  rw [hsame.recvKey, hsame.id]
  exact ⟨hwindow, AeadKey.open_seal hP hsealed⟩

theorem Session.decryptWithOld_sameOldEpoch (P : Primitives) (s : Session Rekeying) (seq : UInt64)
    (ct : Bytes) : SameOldEpoch s (s.decryptWithOld P seq ct).2 := by
  constructor
  · rfl
  · simp only [decryptWithOld, Established.receive_state]

theorem Session.advanceRekey_sameOldEpoch {entropy : Option Key32} {peerMsg : Option Bytes}
    {nowMs : UInt64} {outbound : Bytes}
    (h : s.advanceRekey P entropy peerMsg nowMs = .ok (.needsMore outbound t)) :
    SameOldEpoch s t := by
  unfold advanceRekey at h
  split at h
  · cases h
  · cases h
    exact ⟨rfl, rfl⟩
  · cases h

theorem SameOldEpoch.trans {u : Session Rekeying} (h : SameOldEpoch s t) (h' : SameOldEpoch t u) :
    SameOldEpoch s u :=
  ⟨h'.id.trans h.id, h'.recvKey.trans h.recvKey⟩

theorem rekeyRun_step (call : RekeyCall) (hgoes : (rekeyRun P (some s) call).1.goesOn) :
    ∃ t, (rekeyRun P (some s) call).2 = some t ∧ SameOldEpoch s t := by
  cases call with
  | decryptWithOld seq ct => exact ⟨_, rfl, Session.decryptWithOld_sameOldEpoch P s seq ct⟩
  | advanceRekey entropy peerMsg nowMs =>
    simp only [rekeyRun] at hgoes ⊢
    match h : s.advanceRekey P entropy peerMsg nowMs with
    | .ok (.needsMore outbound next) => exact ⟨next, rfl, Session.advanceRekey_sameOldEpoch h⟩
    | .ok (.finished session) => simp [h, RekeyAnswer.goesOn] at hgoes
    | .error e => simp [h, RekeyAnswer.goesOn] at hgoes

theorem rekeyRun_held {run : List RekeyCall}
    (hgoes : ∀ e ∈ (rekeyRun P).trace (some s) run, e.2.goesOn) :
    ∃ t, (rekeyRun P).final (some s) run = some t ∧ SameOldEpoch s t := by
  apply Machine.final_invariant_of_trace (I := fun held => ∃ t, held = some t ∧ SameOldEpoch s t)
    (p := fun e => e.2.goesOn) ?_ ⟨s, rfl, rfl, rfl⟩ hgoes
  rintro _ call ⟨t, rfl, hsame⟩ hgoes
  obtain ⟨u, hheld, hnext⟩ := rekeyRun_step call hgoes
  exact ⟨u, hheld, hsame.trans hnext⟩

theorem rekeyRun_gone (run : List RekeyCall) :
    ∀ e ∈ (rekeyRun P).trace none run, e.2 = RekeyAnswer.gone := by
  refine Machine.trace_invariant (I := fun held => held = none) ?_ ?_ rfl
  · rintro _ call rfl
    rfl
  · rintro _ call rfl
    rfl

end Rekey

/-- After a failed call, the packets for the old epoch whose number has not been used open, and a
reply that would have finished the rekey finishes it. -/
def FailureLosesNothing (P : Primitives) (s : Session Rekeying) (entropy : Option Key32)
    (peerMsg : Option Bytes) (nowMs : UInt64) : Prop :=
  ∀ e, s.advanceRekey P entropy peerMsg nowMs = .error e →
    let left := (rekeyRun P).final (some s) [.advanceRekey entropy peerMsg nowMs]
    (∀ seq pt ct, SealedForOld P s seq pt ct → s.state.old.recvWindow.wouldAccept seq = true →
      (rekeyRun P left (.decryptWithOld seq ct)).1 = .opened (.ok pt)) ∧
    ∀ entropy' reply nowMs' session,
      s.advanceRekey P entropy' (some reply) nowMs' = .ok (.finished session) →
      (rekeyRun P left (.advanceRekey entropy' (some reply) nowMs')).1 =
        .advanced (.ok (.finished session))

/-- Every call that fails loses the session: neither the packets of the old epoch nor a genuine
reply find one afterwards. A run of calls that go on keeps the old epoch. -/
theorem failed_rekey_loses_session {P : Primitives} (hP : P.LawfulAead) {s : Session Rekeying}
    {seq : UInt64} (hroom : s.state.old.recvWindow.wouldAccept seq = true)
    {entropy : Option Key32} {peerMsg : Option Bytes} {nowMs : UInt64} {e : SessionError}
    (hfail : s.advanceRekey P entropy peerMsg nowMs = .error e) :
    ¬ FailureLosesNothing P s entropy peerMsg nowMs ∧
    (∀ later, ∀ a ∈ (rekeyRun P).trace (some s) (.advanceRekey entropy peerMsg nowMs :: later),
      a.2 = .advanced (.error e) ∨ a.2 = .gone) ∧
    ∀ run, (∀ e ∈ (rekeyRun P).trace (some s) run, e.2.goesOn) →
      ∃ t, (rekeyRun P).final (some s) run = some t ∧
        ∀ seq pt ct, SealedForOld P s seq pt ct → t.state.old.recvWindow.wouldAccept seq = true →
          (t.decryptWithOld P seq ct).1 = .ok pt := by
  have hleft : rekeyRun P (some s) (.advanceRekey entropy peerMsg nowMs) =
      (.advanced (.error e), none) := by
    simp only [rekeyRun, hfail, heldAfter]
  refine ⟨?_, ?_, ?_⟩
  · intro hloses
    obtain ⟨ct, hsealed⟩ := hP.seal_accepts s.state.old.recvKey.key (buildNonce seq)
      (buildAad s.id seq) [] (Nat.zero_le _)
    have hopened := (hloses e hfail).1 seq [] ct (AeadKey.sealInPlace_ok_iff.mpr hsealed) hroom
    rw [Machine.final_cons, hleft] at hopened
    cases hopened
  · intro later a ha
    rw [Machine.trace_cons, hleft, List.mem_cons] at ha
    rcases ha with rfl | hlater
    · exact Or.inl rfl
    · exact Or.inr (rekeyRun_gone later a hlater)
  · intro run hgoes
    obtain ⟨t, hheld, hsame⟩ := rekeyRun_held hgoes
    exact ⟨t, hheld, fun seq pt ct hsealed hwindow => hsealed.opens hP hsame hwindow⟩

namespace Sample

def oldKeys : TransportKeys := ⟨Vector.replicate 32 1, Vector.replicate 32 2, Vector.replicate 32 3⟩

def begunRekey : Session Rekeying :=
  (freshSession 7 oldKeys 0).beginRekey .transparent ⟨Vector.replicate 32 1⟩
    (X25519PrivateKey.publicKey .transparent ⟨Vector.replicate 32 2⟩) []

/-- The first message of the rekey, and the session that waits for the reply. -/
def firstFlight : Bytes × Session Rekeying :=
  match begunRekey.advanceRekey .transparent (some (Vector.replicate 32 3)) none 0 with
  | .ok (.needsMore outbound next) => (outbound, next)
  | _ => ([], begunRekey)

def genuineReply : Bytes :=
  match (Session.newResponder .transparent 7 ⟨Vector.replicate 32 2⟩ [] []).advance .transparent
    (some (Vector.replicate 32 4)) (some firstFlight.1) 0 with
  | .ok (.established (some outbound) _) => outbound
  | _ => []

def oldPacket : Bytes := [104, 105] ++ (ByteArr.ofBytes 16 (buildAad 7 0)).toList

def RekeyAnswer.isFinished : RekeyAnswer → Bool
  | .advanced (.ok (.finished _)) => true
  | _ => false

end Sample

open Sample in
/-- The random source fails where the first message is written. -/
theorem rekey_lost_without_entropy :
    ¬ FailureLosesNothing .transparent begunRekey none none 0 := by
  have hroom : begunRekey.state.old.recvWindow.wouldAccept 0 = true := by decide
  have hfail : begunRekey.advanceRekey .transparent none none 0 =
      .error (.handshake (.crypto .x25519Failed)) := rfl
  exact (failed_rekey_loses_session Primitives.transparent_lawfulAead hroom hfail).1

open Sample in
/-- An empty datagram in the place of the reply: the packet that the old epoch opens and the reply
that finishes the rekey both come too late. -/
theorem rekey_lost_to_an_empty_reply :
    let s := firstFlight.2
    let opens := RekeyCall.decryptWithOld 0 oldPacket
    let finishes := RekeyCall.advanceRekey none (some genuineReply) 0
    (rekeyRun .transparent (some s) opens).1 = .opened (.ok [104, 105]) ∧
    (RekeyAnswer.isFinished (rekeyRun .transparent (some s) finishes).1) ∧
    ((rekeyRun .transparent).trace (some s)
      [.advanceRekey none (some []) 0, opens, finishes]).map Prod.snd =
        [.advanced (.error (.handshake .badMessage)), .gone, .gone] := by
  decide +kernel

end Desmos.Core
