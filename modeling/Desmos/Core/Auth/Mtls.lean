import Desmos.Core.Auth
import Desmos.Core.Auth.Crl

/-! # Authentication by certificate

A client presents a certificate and a signature over the handshake transcript. What an accepted
client is to have shown is stated apart from the order of the checks.
-/
namespace Desmos.Core
open Library Proto

def ed25519SigLen : ℕ := 64

structure MtlsConfig where
  caDer : Bytes
  crlDer : Option Bytes

inductive MtlsInitError where
  | ca (e : X509Error)
  | crl (e : CrlError)
  | unsupportedCa
  deriving DecidableEq, Repr

def splitCredential (cred : Bytes) : Option (Bytes × Bytes) :=
  if cred.length < 2 then none
  else
    let leafLen := ofBe (slice cred 0 2)
    if cred.length < 2 + leafLen + ed25519SigLen then none
    else some (slice cred 2 leafLen, slice cred (2 + leafLen) ed25519SigLen)

/-- The clock is read once in a call, so its reading is an input of the call. -/
structure MtlsAuthenticator where
  caDer : Bytes
  crlDer : Option Bytes
  deriving DecidableEq

namespace MtlsAuthenticator

def new (V : Verifier) (cfg : MtlsConfig) : Except MtlsInitError MtlsAuthenticator :=
  match Certificate.parse cfg.caDer with
  | .error e => .error (.ca e)
  | .ok ca =>
    match cfg.crlDer with
    | none => .ok { caDer := cfg.caDer, crlDer := cfg.crlDer }
    | some crl =>
      match CertificateList.parse crl with
      | .error e => .error (.crl e)
      | .ok list =>
        match list.verifySignedBy V ca with
        | .error e => .error (.crl e)
        | .ok () => .ok { caDer := cfg.caDer, crlDer := cfg.crlDer }

/-- The end of `authenticate`. -/
def checkRevocation (V : Verifier) (m : MtlsAuthenticator) (ca leaf : Certificate) :
    Except AuthError Unit :=
  match m.crlDer with
  | none => .ok ()
  | some crlDer =>
    match CertificateList.parse crlDer with
    | .error _ => .error (.misconfigured "mtls: crl reparse failed")
    | .ok crl =>
      match crl.verifySignedBy V ca with
      | .error _ => .error (.misconfigured "mtls: crl signature")
      | .ok () => if crl.isRevoked leaf.serial then .error .rejected else .ok ()

/-- What `authenticate` checks between the certificates and the revocation list. -/
def checkLeaf (V : Verifier) (now : UInt64) (ctx : AuthContext) (transcriptSig : Bytes)
    (ca leaf : Certificate) : Except AuthError Unit :=
  if leaf.verifySignedBy V ca ≠ .ok () then .error .rejected
  else if leaf.spkiAlgorithmOid ≠ oidEd25519 then .error .rejected
  else if leaf.spkiKeyBytes.length ≠ 32 then .error .rejected
  else if ¬ V .ed25519 leaf.spkiKeyBytes ctx.handshakeHash.toList transcriptSig then .error .rejected
  else if ¬ leaf.isValidAt now then .error .rejected
  else if ¬ ca.isValidAt now then .error (.misconfigured "mtls: ca cert expired")
  else .ok ()

def authenticate (V : Verifier) (m : MtlsAuthenticator) (now : UInt64) (ctx : AuthContext) :
    Except AuthError Unit :=
  match splitCredential ctx.presentedCredential with
  | none => .error .rejected
  | some (leafDer, transcriptSig) =>
    match Certificate.parse leafDer with
    | .error _ => .error .rejected
    | .ok leaf =>
      match Certificate.parse m.caDer with
      | .error _ => .error (.misconfigured "mtls: ca cert reparse failed")
      | .ok ca =>
        match checkLeaf V now ctx transcriptSig ca leaf with
        | .error e => .error e
        | .ok () => m.checkRevocation V ca leaf

end MtlsAuthenticator

def Presented (ctx : AuthContext) (leaf : Certificate) (transcriptSig : Bytes) : Prop :=
  ∃ leafDer, splitCredential ctx.presentedCredential = some (leafDer, transcriptSig) ∧
    Certificate.parse leafDer = .ok leaf

def Certificate.SignedBy (V : Verifier) (c issuer : Certificate) : Prop :=
  V c.signatureAlgorithm issuer.spkiKeyBytes c.rawTbs c.signatureValue = true

def Certificate.ValidAt (c : Certificate) (now : UInt64) : Prop :=
  c.validity.notBefore ≤ now ∧ now ≤ c.validity.notAfter

namespace CertificateList

def SignedBy (V : Verifier) (l : CertificateList) (issuer : Certificate) : Prop :=
  V l.signatureAlgorithm issuer.spkiKeyBytes l.rawTbs l.signatureValue = true

/-- The next list is not due yet. -/
def CurrentAt (l : CertificateList) (now : UInt64) : Prop :=
  ∀ nextUpdate, l.nextUpdate = some nextUpdate → now ≤ nextUpdate

def Lists (l : CertificateList) (serial : Bytes) : Prop :=
  ∃ raw, l.revokedRaw = some raw ∧ Listed serial raw

def Hides (l : CertificateList) (serial : Bytes) : Prop :=
  ∃ raw, l.revokedRaw = some raw ∧ Hidden serial raw

end CertificateList

/-- What an accepted client has shown. -/
structure Proven (V : Verifier) (m : MtlsAuthenticator) (now : UInt64) (ctx : AuthContext)
    (leaf ca : Certificate) : Prop where
  trusted : Certificate.parse m.caDer = .ok ca
  chained : leaf.SignedBy V ca
  possession : ∃ transcriptSig, Presented ctx leaf transcriptSig ∧
    V .ed25519 leaf.spkiKeyBytes ctx.handshakeHash.toList transcriptSig = true
  leafValid : leaf.ValidAt now
  caValid : ca.ValidAt now

/-- The revocation list, if there is one, is the CA's, is current, and does not list the
client's certificate. -/
def Unrevoked (V : Verifier) (m : MtlsAuthenticator) (now : UInt64) (leaf ca : Certificate) : Prop :=
  ∀ crlDer, m.crlDer = some crlDer → ∃ crl, CertificateList.parse crlDer = .ok crl ∧
    crl.SignedBy V ca ∧ crl.CurrentAt now ∧ ¬ crl.Lists leaf.serial

theorem Presented.unique {ctx : AuthContext} {leaf leaf' : Certificate} {sig sig' : Bytes}
    (h : Presented ctx leaf sig) (h' : Presented ctx leaf' sig') : leaf = leaf' := by
  obtain ⟨der, hsplit, hparse⟩ := h
  obtain ⟨der', hsplit', hparse'⟩ := h'
  rw [hsplit] at hsplit'
  cases hsplit'
  rw [hparse] at hparse'
  cases hparse'
  rfl

namespace MtlsAuthenticator
variable {V : Verifier} {m : MtlsAuthenticator} {now : UInt64} {ctx : AuthContext}

theorem checkLeaf_ok_iff {transcriptSig : Bytes} {ca leaf : Certificate} :
    checkLeaf V now ctx transcriptSig ca leaf = .ok () ↔
      leaf.SignedBy V ca ∧ leaf.spkiAlgorithmOid = oidEd25519 ∧ leaf.spkiKeyBytes.length = 32 ∧
      V .ed25519 leaf.spkiKeyBytes ctx.handshakeHash.toList transcriptSig = true ∧
      leaf.ValidAt now ∧ ca.ValidAt now := by
  simp only [checkLeaf, ite_error_eq_ok, not_not, Certificate.verifySignedBy_ok_iff,
    Certificate.isValidAt_iff, and_true]
  rfl

theorem checkRevocation_ok_iff {ca leaf : Certificate} :
    m.checkRevocation V ca leaf = .ok () ↔ ∀ crlDer, m.crlDer = some crlDer →
      ∃ crl, CertificateList.parse crlDer = .ok crl ∧ crl.SignedBy V ca ∧
        crl.isRevoked leaf.serial = false := by
  unfold checkRevocation
  cases m.crlDer with
  | none => simp
  | some crlDer =>
    simp only [Option.some.injEq, forall_eq']
    cases CertificateList.parse crlDer with
    | error e => simp
    | ok crl =>
      simp only [Except.ok.injEq, exists_eq_left']
      cases hsigned : crl.verifySignedBy V ca with
      | error e =>
        have hnot : ¬ crl.SignedBy V ca := fun h => by
          rw [CertificateList.verifySignedBy_ok_iff.mpr h] at hsigned
          cases hsigned
        simp [hnot]
      | ok u =>
        have hyes : crl.SignedBy V ca := CertificateList.verifySignedBy_ok_iff.mp hsigned
        simp [hyes]

theorem authenticate_ok_iff : m.authenticate V now ctx = .ok () ↔
    ∃ leaf ca, Proven V m now ctx leaf ca ∧ leaf.spkiAlgorithmOid = oidEd25519 ∧
      leaf.spkiKeyBytes.length = 32 ∧ ∀ crlDer, m.crlDer = some crlDer →
        ∃ crl, CertificateList.parse crlDer = .ok crl ∧ crl.SignedBy V ca ∧
          crl.isRevoked leaf.serial = false := by
  constructor
  · intro h
    unfold authenticate at h
    split at h; · cases h
    next leafDer transcriptSig hsplit =>
    split at h; · cases h
    next leaf hleaf =>
    split at h; · cases h
    next ca hca =>
    split at h; · cases h
    next hcheck =>
    obtain ⟨hsigned, hoid, hkey, hsig, hvalid, hcaValid⟩ := checkLeaf_ok_iff.mp hcheck
    exact ⟨leaf, ca, ⟨hca, hsigned, ⟨transcriptSig, ⟨leafDer, hsplit, hleaf⟩, hsig⟩, hvalid, hcaValid⟩,
      hoid, hkey, checkRevocation_ok_iff.mp h⟩
  · rintro ⟨leaf, ca, ⟨hca, hsigned, ⟨transcriptSig, ⟨leafDer, hsplit, hleaf⟩, hsig⟩, hvalid, hcaValid⟩,
      hoid, hkey, hcrl⟩
    have hcheck := checkLeaf_ok_iff.mpr ⟨hsigned, hoid, hkey, hsig, hvalid, hcaValid⟩
    simp only [authenticate, hsplit, hleaf, hca, hcheck]
    exact checkRevocation_ok_iff.mpr hcrl

theorem clear_iff {crl : CertificateList} {serial : Bytes} (h : crl.isRevoked serial = false) :
    ¬ crl.Lists serial ↔ ¬ crl.Hides serial := by
  have hnamed : ∀ raw, crl.revokedRaw = some raw → ¬ NamedInFront serial raw := by
    intro raw hraw hnamed
    rw [CertificateList.isRevoked_iff.mpr ⟨raw, hraw, hnamed⟩] at h
    cases h
  refine not_congr ⟨fun ⟨raw, hraw, hlisted⟩ => ?_, fun ⟨raw, hraw, hhidden⟩ => ?_⟩
  · exact ⟨raw, hraw, (listed_iff.mp hlisted).resolve_left (hnamed raw hraw)⟩
  · exact ⟨raw, hraw, listed_iff.mpr (.inr hhidden)⟩

end MtlsAuthenticator

namespace Sample

/-- A list that names serial 43, from 2020 and due again in a later year. -/
def crl (nextYear : Bytes) : Bytes :=
  tlv Tag.sequence [
    tlv Tag.sequence [ed25519Id, tlv Tag.sequence [], newYear [0x32, 0x30], newYear nextYear,
      tlv Tag.sequence [revokedEntry 0x2B]],
    ed25519Id, tlv Tag.bitString [[0x00, 0x01]]]

def mtlsConfig (nextYear : Bytes) : MtlsConfig :=
  { caDer := certificate 0x01, crlDer := some (crl nextYear) }

def mtls (nextYear : Bytes) : MtlsAuthenticator :=
  { caDer := certificate 0x01, crlDer := some (crl nextYear) }

def mtlsClient : AuthContext :=
  { initiatorStatic := ⟨.replicate 32 0⟩, handshakeHash := .replicate 32 0
    presentedCredential := toBe 2 (certificate 0x2A).length ++ certificate 0x2A ++
      List.replicate 64 0 }

def year2024 : UInt64 := 1704067200

/-- A verifier to whom every signature is good. -/
def trusting : Verifier := fun _ _ _ _ => true

end Sample

namespace MtlsAuthenticator

/-- An accepted client has shown everything it is to show, except that nobody compares the
revocation list with the clock, and that the walk over the list stops at what is no entry. -/
theorem mtls_acceptance_sound_iff (V : Verifier) (m : MtlsAuthenticator) (now : UInt64)
    (ctx : AuthContext) (h : m.authenticate V now ctx = .ok ()) :
    (∃ leaf ca, Proven V m now ctx leaf ca ∧ Unrevoked V m now leaf ca) ↔
    ∀ crlDer crl leaf sig, m.crlDer = some crlDer → CertificateList.parse crlDer = .ok crl →
      Presented ctx leaf sig → crl.CurrentAt now ∧ ¬ crl.Hides leaf.serial := by
  obtain ⟨leaf, ca, hproven, _, _, hcrl⟩ := authenticate_ok_iff.mp h
  obtain ⟨sig, hpresented, _⟩ := hproven.possession
  constructor
  · rintro ⟨leaf', ca', hproven', hunrevoked⟩ crlDer crl leaf₁ sig₁ hder hparse hpresented₁
    obtain ⟨sig', hpresented', _⟩ := hproven'.possession
    obtain rfl := hpresented.unique hpresented'
    obtain rfl := hpresented.unique hpresented₁
    obtain ⟨crl', hparse', _, hcurrent, hlists⟩ := hunrevoked crlDer hder
    obtain ⟨crl'', hparse'', _, hclear⟩ := hcrl crlDer hder
    rw [hparse] at hparse' hparse''
    cases hparse'
    cases hparse''
    exact ⟨hcurrent, (clear_iff hclear).mp hlists⟩
  · intro hcond
    refine ⟨leaf, ca, hproven, fun crlDer hder => ?_⟩
    obtain ⟨crl, hparse, hsigned, hclear⟩ := hcrl crlDer hder
    obtain ⟨hcurrent, hhides⟩ := hcond crlDer crl leaf sig hder hparse hpresented
    exact ⟨crl, hparse, hsigned, hcurrent, (clear_iff hclear).mpr hhides⟩

/-- In 2024 a client is let in on a list that is due again in 2030 and names another serial. -/
theorem current_list_accepted :
    (Sample.mtls [0x33, 0x30]).authenticate Sample.trusting Sample.year2024 Sample.mtlsClient =
      .ok () ∧
    ∃ leaf ca,
      Proven Sample.trusting (Sample.mtls [0x33, 0x30]) Sample.year2024 Sample.mtlsClient leaf ca ∧
      Unrevoked Sample.trusting (Sample.mtls [0x33, 0x30]) Sample.year2024 leaf ca := by
  have haccept : (Sample.mtls [0x33, 0x30]).authenticate Sample.trusting Sample.year2024
      Sample.mtlsClient = .ok () := by decide +kernel
  refine ⟨haccept, (mtls_acceptance_sound_iff _ _ _ _ haccept).mpr ?_⟩
  intro crlDer crl leaf sig hder hparse _
  cases hder
  have hfields : (CertificateList.parse (Sample.crl [0x33, 0x30])).toOption.map
      (fun l => (l.nextUpdate, l.revokedRaw)) =
        some (some 1893456000, some (Sample.revokedEntry 0x2B)) := by decide +kernel
  rw [hparse] at hfields
  obtain ⟨hnext, hraw⟩ := Prod.ext_iff.mp (Option.some.inj hfields)
  constructor
  · intro nextUpdate hsome
    cases hnext.symm.trans hsome
    decide
  · rintro ⟨raw, hsome, hhidden⟩
    cases hraw.symm.trans hsome
    exact not_hidden_of_list (.singleton (Sample.revokedEntry_entry 0x2B)) hhidden

/-- In 2024 a client is let in on a list that was due again in 2021. -/
theorem outdated_list_accepted :
    new Sample.trusting (Sample.mtlsConfig [0x32, 0x31]) = .ok (Sample.mtls [0x32, 0x31]) ∧
    (Sample.mtls [0x32, 0x31]).authenticate Sample.trusting Sample.year2024 Sample.mtlsClient =
      .ok () ∧
    ¬ ∃ leaf ca,
      Proven Sample.trusting (Sample.mtls [0x32, 0x31]) Sample.year2024 Sample.mtlsClient leaf ca ∧
      Unrevoked Sample.trusting (Sample.mtls [0x32, 0x31]) Sample.year2024 leaf ca := by
  refine ⟨by decide +kernel, by decide +kernel, ?_⟩
  rintro ⟨leaf, ca, _, hunrevoked⟩
  obtain ⟨crl, hparse, _, hcurrent, _⟩ := hunrevoked _ rfl
  have hnext : (CertificateList.parse (Sample.crl [0x32, 0x31])).toOption.bind
      CertificateList.nextUpdate = some 1609459200 := by decide +kernel
  rw [hparse] at hnext
  exact absurd (hcurrent _ hnext) (by decide)

end MtlsAuthenticator

end Desmos.Core
