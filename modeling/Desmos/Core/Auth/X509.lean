import Desmos.Core.Auth.Asn1
import Desmos.Library.Text

/-! # X.509 certificates

The certificate parser, the times in certificates, and the signature check. Verifying a
signature is left to a predicate.
-/
namespace Desmos.Core
open Library DerReader

inductive SignatureAlgorithm where
  | ecdsaP256Sha256
  | ecdsaP384Sha384
  | rsaPkcs1Sha256
  | ed25519
  deriving DecidableEq, Repr

/-- Whether a signature over a message is good under a public key. -/
abbrev Verifier := SignatureAlgorithm → (publicKey message signature : Bytes) → Bool

inductive X509Error where
  | asn1 (e : Asn1Error)
  | algorithmMismatch
  | unsupportedAlgorithm
  | unsupportedVersion
  | invalidTime
  | invalidValidityOrder
  | signatureInvalid
  deriving DecidableEq, Repr

inductive Version where
  | v1
  | v2
  | v3
  deriving DecidableEq, Repr

/-- The loop of `parse_u32`. At most four digits come in, so nothing overflows. -/
def parseU32From : (out : ℕ) → Bytes → Except X509Error ℕ
  | out, [] => .ok out
  | out, b :: digits =>
    if ¬ Text.isAsciiDigit b then .error .invalidTime
    else parseU32From (out * 10 + (b - 0x30).toNat) digits

def parseU32 (digits : Bytes) : Except X509Error ℕ := parseU32From 0 digits

/-- Days from 1970-01-01 to a date of the Gregorian calendar. -/
def daysFromCivil (y : ℤ) (m d : ℕ) : ℤ :=
  let y := if m ≤ 2 then y - 1 else y
  let era := (if 0 ≤ y then y else y - 399).tdiv 400
  let yoe := (y - era * 400).toNat
  let mShifted := if 2 < m then m - 3 else m + 9
  let doy := (153 * mShifted + 2) / 5 + d - 1
  let doe := yoe * 365 + yoe / 4 - yoe / 100 + doy
  era * 146097 + doe - 719468

def gregorianToUnix (year month day hour minute second : ℕ) : Except X509Error UInt64 :=
  if ¬ (1 ≤ month ∧ month ≤ 12) ∨ ¬ (1 ≤ day ∧ day ≤ 31) ∨ 24 ≤ hour ∨ 60 ≤ minute ∨ 60 ≤ second then
    .error .invalidTime
  else
    let days := daysFromCivil year month day
    if days < 0 then .error .invalidTime
    else .ok (UInt64.ofNat (days.toNat * 86400 + hour * 3600 + minute * 60 + second))

/-- Month, day and time of day in ten digits, for a year that has been read. -/
def parseWithinYear (year : ℕ) (digits : Bytes) : Except X509Error UInt64 := do
  let month ← parseU32 (slice digits 0 2)
  let day ← parseU32 (slice digits 2 2)
  let hour ← parseU32 (slice digits 4 2)
  let minute ← parseU32 (slice digits 6 2)
  let second ← parseU32 (slice digits 8 2)
  gregorianToUnix year month day hour minute second

def parseUtcTime (bytes : Bytes) : Except X509Error UInt64 :=
  if bytes.length ≠ 13 ∨ bytes.getLast? ≠ some 0x5A then .error .invalidTime
  else
    let digits := bytes.take 12
    if ¬ digits.all Text.isAsciiDigit then .error .invalidTime
    else do
      let yy ← parseU32 (slice digits 0 2)
      parseWithinYear (if yy < 50 then 2000 + yy else 1900 + yy) (digits.drop 2)

def parseGeneralizedTime (bytes : Bytes) : Except X509Error UInt64 :=
  if bytes.length ≠ 15 ∨ bytes.getLast? ≠ some 0x5A then .error .invalidTime
  else
    let digits := bytes.take 14
    if ¬ digits.all Text.isAsciiDigit then .error .invalidTime
    else do
      let year ← parseU32 (slice digits 0 4)
      parseWithinYear year (digits.drop 4)

def readTime (r : DerReader) : Except X509Error (UInt64 × DerReader) := do
  let ((tag, value), r) ← propagate .asn1 (readTlv r)
  let time ←
    if tag = Tag.utcTime then parseUtcTime value
    else if tag = Tag.generalizedTime then parseGeneralizedTime value
    else .error .invalidTime
  .ok (time, r)

def oidEcdsaWithSha256 : Bytes := [0x2A, 0x86, 0x48, 0xCE, 0x3D, 0x04, 0x03, 0x02]
def oidEcdsaWithSha384 : Bytes := [0x2A, 0x86, 0x48, 0xCE, 0x3D, 0x04, 0x03, 0x03]
def oidRsaSha256 : Bytes := [0x2A, 0x86, 0x48, 0x86, 0xF7, 0x0D, 0x01, 0x01, 0x0B]
def oidEd25519 : Bytes := [0x2B, 0x65, 0x70]

def oidToSignatureAlgorithm (oid : Bytes) : Option SignatureAlgorithm :=
  if oid = oidEcdsaWithSha256 then some .ecdsaP256Sha256
  else if oid = oidEcdsaWithSha384 then some .ecdsaP384Sha384
  else if oid = oidRsaSha256 then some .rsaPkcs1Sha256
  else if oid = oidEd25519 then some .ed25519
  else none

def readAlgorithmIdentifier (r : DerReader) : Except X509Error ((Bytes × Bytes) × DerReader) := do
  let (ai, r) ← propagate .asn1 (readSequence r)
  let (oid, ai) ← propagate .asn1 (readOid ai)
  .ok ((oid, remaining ai), r)

structure Validity where
  notBefore : UInt64
  notAfter : UInt64
  ordered : notBefore ≤ notAfter

structure Certificate where
  version : Version
  rawTbs : Bytes
  serial : Bytes
  issuerRaw : Bytes
  subjectRaw : Bytes
  validity : Validity
  spkiAlgorithmOid : Bytes
  spkiKeyBytes : Bytes
  rawSpki : Bytes
  signatureAlgorithm : SignatureAlgorithm
  signatureValue : Bytes

section
variable (tbs : DerReader)

/-- `version [0] EXPLICIT Version DEFAULT v1`. -/
def readVersion : Except X509Error (Version × DerReader) := do
  let (field, tbs) ← propagate .asn1 (maybeTagged (Tag.contextTagExplicit 0) tbs)
  match field with
  | none => .ok (.v1, tbs)
  | some inner =>
    let (v, _) ← propagate .asn1 (readU64 (DerReader.new inner))
    if v = 0 then .ok (.v1, tbs)
    else if v = 1 then .ok (.v2, tbs)
    else if v = 2 then .ok (.v3, tbs)
    else .error .unsupportedVersion

def readValidity : Except X509Error (Validity × DerReader) := do
  let (validity, tbs) ← propagate .asn1 (readSequence tbs)
  let (notBefore, validity) ← readTime validity
  let (notAfter, _) ← readTime validity
  if h : notAfter < notBefore then .error .invalidValidityOrder
  else .ok ({ notBefore, notAfter, ordered := UInt64.not_lt.mp h }, tbs)

/-- The size of a header with the shortest length field. -/
def derHeaderLen (len : ℕ) : ℕ :=
  let lengthBytes :=
    if len < 0x80 then 1
    else if len < 0x100 then 2
    else if len < 0x10000 then 3
    else if len < 0x1000000 then 4
    else 5
  1 + lengthBytes

/-- The subject's public key: the raw field, the OID of its algorithm and the key. -/
def readSpki : Except X509Error ((Bytes × Bytes × Bytes) × DerReader) := do
  let spkiStart := remaining tbs
  let (spki, tbs) ← propagate .asn1 (readTagged Tag.sequence tbs)
  let rawSpki := spkiStart.take (spkiStart.length - (remaining tbs).length)
  -- the field is read a second time from where its header would start if it were the shortest
  let spkiReader := DerReader.new
    (rawSpki.drop (rawSpki.length - spki.length - derHeaderLen spki.length))
  let _ ← propagate .asn1 (readSequence spkiReader)
  let ((algorithmOid, _), spki) ← readAlgorithmIdentifier (DerReader.new spki)
  let (keyBytes, _) ← propagate .asn1 (readBitString spki)
  .ok ((rawSpki, algorithmOid, keyBytes), tbs)

/-- One round of the loop over the fields that are not interpreted. -/
def skipRound : Except X509Error DerReader := do
  let (_, tbs) ← propagate .asn1 (skipOne tbs)
  .ok tbs

def skipRest : Except X509Error Unit := whileLeft remainingLen skipRound tbs

end

/-- The outer signature algorithm, which must be the inner one, and the signature. -/
def readSignature (tbsSigAlgOid : Bytes) (cert : DerReader) :
    Except X509Error (SignatureAlgorithm × Bytes) := do
  let ((outerSigAlgOid, _), cert) ← readAlgorithmIdentifier cert
  if outerSigAlgOid ≠ tbsSigAlgOid then .error .algorithmMismatch
  else
    match oidToSignatureAlgorithm outerSigAlgOid with
    | none => .error .unsupportedAlgorithm
    | some signatureAlgorithm =>
      let (signatureValue, _) ← propagate .asn1 (readBitString cert)
      .ok (signatureAlgorithm, signatureValue)

/-- The signed part of a certificate or a revocation list: its exact bytes, a reader over its
content, and the reader behind it. -/
def readTbs (der : Bytes) : Except X509Error (Bytes × DerReader × DerReader) := do
  let (cert, _) ← propagate .asn1 (readSequence (DerReader.new der))
  let tbsStart := remaining cert
  let (tbs, cert) ← propagate .asn1 (readSequence cert)
  .ok (tbsStart.take (tbsStart.length - (remaining cert).length), tbs, cert)

namespace Certificate

def parse (der : Bytes) : Except X509Error Certificate := do
  let (rawTbs, tbs, cert) ← readTbs der
  let (version, tbs) ← readVersion tbs
  let (serial, tbs) ← propagate .asn1 (readIntegerBytes tbs)
  let ((tbsSigAlgOid, _), tbs) ← readAlgorithmIdentifier tbs
  let (issuerRaw, tbs) ← propagate .asn1 (readTagged Tag.sequence tbs)
  let (validity, tbs) ← readValidity tbs
  let (subjectRaw, tbs) ← propagate .asn1 (readTagged Tag.sequence tbs)
  let ((rawSpki, spkiAlgorithmOid, spkiKeyBytes), tbs) ← readSpki tbs
  skipRest tbs
  let (signatureAlgorithm, signatureValue) ← readSignature tbsSigAlgOid cert
  .ok { version, rawTbs, serial, issuerRaw, subjectRaw, validity, spkiAlgorithmOid, spkiKeyBytes
        rawSpki, signatureAlgorithm, signatureValue }

def isValidAt (c : Certificate) (nowUnixS : UInt64) : Bool :=
  c.validity.notBefore ≤ nowUnixS && nowUnixS ≤ c.validity.notAfter

def verifySignedBy (V : Verifier) (c issuer : Certificate) : Except X509Error Unit :=
  if V c.signatureAlgorithm issuer.spkiKeyBytes c.rawTbs c.signatureValue then .ok ()
  else .error .signatureInvalid

theorem isValidAt_iff {c : Certificate} {now : UInt64} : c.isValidAt now = true ↔
    c.validity.notBefore ≤ now ∧ now ≤ c.validity.notAfter := by
  simp [isValidAt]

theorem verifySignedBy_ok_iff {V : Verifier} {c issuer : Certificate} :
    c.verifySignedBy V issuer = .ok () ↔
      V c.signatureAlgorithm issuer.spkiKeyBytes c.rawTbs c.signatureValue = true := by
  unfold verifySignedBy
  split
  · next h => exact iff_of_true rfl h
  · next h => exact iff_of_false nofun h

end Certificate

namespace Sample

def ed25519Id : Bytes := tlv Tag.sequence [tlv Tag.oid [oidEd25519]]

def newYear (yy : Bytes) : Bytes := tlv Tag.utcTime [yy, Text.asBytes "0101000000Z".toList]

/-- A certificate for some Ed25519 key, good from 2020 until 2030. -/
def certificate (serial : UInt8) : Bytes :=
  tlv Tag.sequence [
    tlv Tag.sequence [tlv Tag.integer [[serial]], ed25519Id, tlv Tag.sequence [],
      tlv Tag.sequence [newYear [0x32, 0x30], newYear [0x33, 0x30]], tlv Tag.sequence [],
      tlv Tag.sequence [ed25519Id, tlv Tag.bitString [0x00 :: List.replicate 32 0x07]]],
    ed25519Id, tlv Tag.bitString [[0x00, 0x01]]]

end Sample

end Desmos.Core
