import Desmos.Core.Session

/-! # Two sessions as the ends of one tunnel

The id of a session goes into the associated data of every packet. Two ends with crossed keys
understand each other exactly when they agree on it.
-/
namespace Desmos.Core
open Library Proto

section
variable (P : Primitives)

/-- Opening fails under another session id than the one a packet was sealed under.
Stated for the associated data of sessions, which have one length. -/
def BindsSessionId : Prop :=
  ∀ {k n id id' seq pt ct}, P.aeadSeal k n (buildAad id seq) pt = some ct → id ≠ id' →
    P.aeadOpen k n (buildAad id' seq) ct = none

inductive SessionCall where
  | encrypt (plaintext : Bytes)
  | decrypt (seq : UInt64) (ciphertext : Bytes)

def Session.use : Machine (Session Established) SessionCall (Except SessionError Bytes)
  | s, .encrypt plaintext => s.encryptData P plaintext
  | s, .decrypt seq ciphertext => s.decryptData P seq ciphertext

/-- Every packet that `a` seals, at any time, is opened by `b` at any time that its
window takes the number. -/
def Opens (a b : Session Established) : Prop :=
  ∀ callsA callsB pt seq ct,
    (((Session.use P).final a callsA).encryptPacket P pt).1 = .ok (seq, ct) →
    ((Session.use P).final b callsB).state.recvWindow.wouldAccept seq = true →
    (((Session.use P).final b callsB).decryptData P seq ct).1 = .ok pt

def CanTalk (a b : Session Established) : Prop := Opens P a b ∧ Opens P b a

end

section Keys
variable {P : Primitives} {a b : Session Established}

/-- What no call on a session changes. -/
structure SameKeys (a b : Session Established) : Prop where
  id : b.id = a.id
  sendKey : b.state.sendKey = a.state.sendKey
  recvKey : b.state.recvKey = a.state.recvKey

theorem Session.use_sameKeys (P : Primitives) (s : Session Established) (calls : List SessionCall) :
    SameKeys s ((Session.use P).final s calls) := by
  refine Machine.final_invariant (I := SameKeys s) ?_ ⟨rfl, rfl, rfl⟩ calls
  intro t call h
  cases call with
  | encrypt pt => exact ⟨h.id, h.sendKey, h.recvKey⟩
  | decrypt seq ct =>
    simp only [Session.use, Session.decryptData_state]
    exact ⟨h.id, h.sendKey, h.recvKey⟩

theorem opens_of_id_eq (hP : P.LawfulAead) (hk : a.state.sendKey = b.state.recvKey)
    (hid : a.id = b.id) : Opens P a b := by
  intro callsA callsB pt seq ct hseal hwin
  have ha := Session.use_sameKeys P a callsA
  have hb := Session.use_sameKeys P b callsB
  obtain ⟨-, -, hct⟩ := Session.encryptPacket_ok_iff.mp hseal
  refine Session.decryptData_ok_iff.mpr ⟨hwin, AeadKey.open_seal hP ?_⟩
  rwa [hb.recvKey, hb.id, ← hk, ← hid, ← ha.sendKey, ← ha.id]

theorem never_opens_of_id_ne (callsA callsB : List SessionCall) (hA : BindsSessionId P)
    (hk : a.state.sendKey = b.state.recvKey) (hid : a.id ≠ b.id) {pt ct : Bytes} {seq : UInt64}
    (hseal : (((Session.use P).final a callsA).encryptPacket P pt).1 = .ok (seq, ct))
    (pt' : Bytes) :
    (((Session.use P).final b callsB).decryptData P seq ct).1 ≠ .ok pt' := by
  intro hopen
  have ha := Session.use_sameKeys P a callsA
  have hb := Session.use_sameKeys P b callsB
  obtain ⟨-, -, hct⟩ := Session.encryptPacket_ok_iff.mp hseal
  obtain ⟨-, ho⟩ := Session.decryptData_ok_iff.mp hopen
  rw [AeadKey.openInPlace_ok_iff, hb.recvKey, hb.id, ← hk, ← ha.sendKey] at ho
  rw [AeadKey.sealInPlace_ok_iff, ha.id] at hct
  rw [hA hct hid] at ho
  exact absurd ho.2 (by simp)

end Keys

section Fresh
variable {P : Primitives} {idA idB : SessionId} {keysA keysB : TransportKeys} {nowA nowB : UInt64}

theorem freshSession_seals (hP : P.LawfulAead) (id : SessionId) (keys : TransportKeys)
    (nowMs : UInt64) (pt : Bytes) (hpt : pt.length ≤ Primitives.maxInputLen) :
    ∃ ct, ((freshSession id keys nowMs).encryptPacket P pt).1 = .ok (0, ct) := by
  obtain ⟨ct, hct⟩ := hP.seal_accepts keys.send (buildNonce 0) (buildAad id 0) pt hpt
  exact ⟨ct, Session.encryptPacket_ok_iff.mpr ⟨rfl, by decide, AeadKey.sealInPlace_ok_iff.mpr hct⟩⟩

theorem freshSession_opens_iff (hP : P.LawfulAead) (hA : BindsSessionId P)
    (hk : keysA.send = keysB.recv) :
    Opens P (freshSession idA keysA nowA) (freshSession idB keysB nowB) ↔ idA = idB := by
  have hkey : (freshSession idA keysA nowA).state.sendKey =
      (freshSession idB keysB nowB).state.recvKey := congrArg AeadKey.mk hk
  constructor
  · intro h
    by_contra hne
    obtain ⟨ct, hct⟩ := freshSession_seals hP idA keysA nowA [] (by simp)
    exact never_opens_of_id_ne [] [] hA hkey hne hct [] (h [] [] [] 0 ct hct rfl)
  · exact opens_of_id_eq hP hkey

/-- Two ends that start from crossed keys can talk exactly if they use the same id. -/
theorem freshSession_canTalk_iff (hP : P.LawfulAead) (hA : BindsSessionId P)
    (hs : keysA.send = keysB.recv) (hr : keysA.recv = keysB.send) :
    CanTalk P (freshSession idA keysA nowA) (freshSession idB keysB nowB) ↔ idA = idB := by
  rw [CanTalk, freshSession_opens_iff hP hA hs, freshSession_opens_iff hP hA hr.symm,
    @eq_comm _ idB, and_self]

end Fresh

theorem transparent_bindsSessionId : BindsSessionId .transparent := by
  intro k n id id' seq pt ct hseal hne
  obtain ⟨-, rfl⟩ := Primitives.transparent_seal_iff.mp hseal
  rw [Primitives.transparent_open_append, if_neg]
  intro h
  have haad := ByteArr.ofBytes_inj (by simp [buildAad]) (by simp [buildAad]) h
  exact hne (buildAad_inj haad).1

end Desmos.Core
