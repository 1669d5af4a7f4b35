import Desmos.Core.Auth

/-! # Authentication by pre-shared key

The key is kept as a digest, and a presented key is compared digest to digest. The hash function
is a parameter.
-/
namespace Desmos.Core
open Library Proto

def pskMinLen : ℕ := 16
def pskMaxLen : ℕ := 4096

/-- The bytes of `desmos-psk-auth-v1`. -/
def pskContext : Bytes :=
  [100, 101, 115, 109, 111, 115, 45, 112, 115, 107, 45, 97, 117, 116, 104, 45, 118, 49]

structure PresharedKey where
  pskDigest : Key32
  deriving DecidableEq

namespace PresharedKey
variable (blake3 : Bytes → Key32)

def new (psk : Bytes) : Except AuthError PresharedKey :=
  if psk.length < pskMinLen then .error (.misconfigured "PSK shorter than 16 bytes")
  else if pskMaxLen < psk.length then .error (.misconfigured "PSK longer than 4096 bytes")
  else .ok { pskDigest := blake3 (pskContext ++ psk) }

def authenticate (k : PresharedKey) (ctx : AuthContext) : Except AuthError Unit :=
  if ctx.presentedCredential.isEmpty then .error .rejected
  else if constantTimeEq (blake3 (pskContext ++ ctx.presentedCredential)).toList
      k.pskDigest.toList then .ok ()
  else .error .rejected

variable {blake3} {psk : Bytes} {k : PresharedKey} {ctx : AuthContext}

theorem new_ok_iff : (∃ k, new blake3 psk = .ok k) ↔
    pskMinLen ≤ psk.length ∧ psk.length ≤ pskMaxLen := by
  unfold new
  constructor
  · rintro ⟨k, h⟩
    split at h; · cases h
    next hmin =>
    split at h; · cases h
    next hmax => exact ⟨Nat.not_lt.mp hmin, Nat.not_lt.mp hmax⟩
  · rintro ⟨hmin, hmax⟩
    rw [if_neg (Nat.not_lt.mpr hmin), if_neg (Nat.not_lt.mpr hmax)]
    exact ⟨_, rfl⟩

theorem authenticate_ok_iff (hk : new blake3 psk = .ok k) : k.authenticate blake3 ctx = .ok () ↔
      ctx.presentedCredential ≠ [] ∧
        blake3 (pskContext ++ ctx.presentedCredential) = blake3 (pskContext ++ psk) := by
  have hdigest : k.pskDigest = blake3 (pskContext ++ psk) := by
    unfold new at hk
    split_ifs at hk
    cases hk
    rfl
  unfold authenticate
  rw [hdigest]
  by_cases hempty : ctx.presentedCredential = []
  · simp [hempty]
  · simp [hempty, constantTimeEq_iff, Vector.toList_inj]

theorem authenticate_own (hk : new blake3 psk = .ok k) (hctx : ctx.presentedCredential = psk) :
    k.authenticate blake3 ctx = .ok () := by
  have hlen := (new_ok_iff.mp ⟨k, hk⟩).1
  rw [authenticate_ok_iff hk, hctx]
  refine ⟨?_, rfl⟩
  rintro rfl
  exact absurd hlen (by decide)

/-- No credential that is accepted in the handshake with the one hash is accepted in that with
the other. -/
def BoundToHandshake (blake3 : Bytes → Key32) (k : PresharedKey) (h1 h2 : Key32) : Prop :=
  ∀ credential initiator initiator',
    k.authenticate blake3 ⟨initiator, h1, credential⟩ = .ok () →
      k.authenticate blake3 ⟨initiator', h2, credential⟩ ≠ .ok ()

end PresharedKey

/-- The verdict on a credential is the same in all handshakes and for all clients, and the secret
itself is accepted in each: no key binds its credentials to a handshake. If only the secret has
its digest, nothing else is accepted. -/
theorem psk_credential_replays {blake3 : Bytes → Key32} {psk : Bytes} {k : PresharedKey}
    (hk : PresharedKey.new blake3 psk = .ok k) :
    (∀ credential initiator initiator' h1 h2,
      k.authenticate blake3 ⟨initiator, h1, credential⟩ =
        k.authenticate blake3 ⟨initiator', h2, credential⟩) ∧
    (∀ initiator h, k.authenticate blake3 ⟨initiator, h, psk⟩ = .ok ()) ∧
    (∀ h1 h2, ¬ k.BoundToHandshake blake3 h1 h2) ∧
    ((∀ c, blake3 (pskContext ++ c) = blake3 (pskContext ++ psk) → c = psk) →
      ∀ ctx, k.authenticate blake3 ctx = .ok () ↔ ctx.presentedCredential = psk) := by
  have hown : ∀ initiator h, k.authenticate blake3 ⟨initiator, h, psk⟩ = .ok () := by
    intro initiator h
    exact PresharedKey.authenticate_own hk rfl
  refine ⟨fun _ _ _ _ _ => rfl, hown, ?_, ?_⟩
  · intro h1 h2 hbound
    exact hbound psk ⟨h1⟩ ⟨h2⟩ (hown _ _) (hown _ _)
  · intro hinjective ctx
    constructor
    · intro hok
      exact hinjective _ ((PresharedKey.authenticate_ok_iff hk).mp hok).2
    · exact PresharedKey.authenticate_own hk

namespace Sample

/-- A digest that tells keys of sixteen bytes apart. -/
def pskDigest16 (input : Bytes) : Key32 := ByteArr.ofBytes 32 (input.drop pskContext.length)

def psk16 : Bytes := [3, 1, 4, 1, 5, 9, 2, 6, 5, 3, 5, 8, 9, 7, 9, 3]

end Sample

open Sample in
theorem psk_of_sixteen_bytes_replays :
    ∃ k, PresharedKey.new pskDigest16 psk16 = .ok k ∧
      ¬ k.BoundToHandshake pskDigest16 (Vector.replicate 32 1) (Vector.replicate 32 2) := by
  have hnew : PresharedKey.new pskDigest16 psk16 =
    .ok ⟨pskDigest16 (pskContext ++ psk16)⟩ := rfl
  exact ⟨_, hnew, (psk_credential_replays hnew).2.2.1 _ _⟩

open Sample in
/-- The captured key opens another handshake, by another client. -/
theorem psk_accepted_in_two_handshakes :
    ∃ k, PresharedKey.new pskDigest16 psk16 = .ok k ∧
      k.authenticate pskDigest16 ⟨⟨Vector.replicate 32 7⟩, Vector.replicate 32 1, psk16⟩ = .ok () ∧
      k.authenticate pskDigest16 ⟨⟨Vector.replicate 32 8⟩, Vector.replicate 32 2, psk16⟩ = .ok () :=
  ⟨_, rfl, by decide, by decide⟩

end Desmos.Core
