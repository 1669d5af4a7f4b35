import Desmos.Core.Session

/-! # Client authentication

What an authentication backend is asked and what it answers, and the purpose of asking:
a log of admissions in which no session is installed before the backend let its client in.
-/
namespace Desmos.Core
open Library Proto

structure AuthContext where
  initiatorStatic : PublicKey
  handshakeHash : Key32
  presentedCredential : Bytes
  deriving DecidableEq

inductive AuthError where
  | rejected
  | misconfigured (reason : String)
  deriving DecidableEq, Repr

/-- Byte-string equality in a time that does not depend on where they differ. -/
def constantTimeEq (a b : Bytes) : Bool :=
  if a.length ≠ b.length then false else xorDiff a b == 0

theorem constantTimeEq_iff {a b : Bytes} : constantTimeEq a b = true ↔ a = b := by
  unfold constantTimeEq
  by_cases hl : a.length = b.length
  · rw [if_neg (not_not_intro hl), beq_iff_eq]
    exact xorDiff_eq_zero_iff hl
  · rw [if_pos hl]
    exact ⟨nofun, fun h => absurd (congrArg _ h) hl⟩

/-- One step on a client's way into the session table. -/
inductive AdmissionEvent where
  | authenticated (ctx : AuthContext) (verdict : Except AuthError Unit)
  | installed (id : SessionId) (client : PublicKey) (handshakeHash : Key32)
  deriving DecidableEq

/-- The log shows the session's installation, and before it the authenticator's consent to
its client, for this very handshake and some credential. -/
def Authorized (log : List AdmissionEvent) (id : SessionId) (session : Session Established) :
    Prop :=
  ∃ before after client credential,
    log = before ++ .installed id client session.handshakeHash :: after ∧
    .authenticated ⟨client, session.handshakeHash, credential⟩ (.ok ()) ∈ before

end Desmos.Core
