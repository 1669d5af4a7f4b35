import Desmos.Core.Auth.X509

/-! # Certificate revocation lists

The parser of a revocation list and the walk over its entries. What a list says is defined by
its bytes alone: the entries that stand in it, and whether it is made of entries throughout.
-/
namespace Desmos.Core
open Library DerReader

inductive CrlError where
  | asn1 (e : Asn1Error)
  | algorithmMismatch
  | unsupportedAlgorithm
  | unsupportedVersion
  | invalidTime
  | signatureInvalid
  deriving DecidableEq, Repr

namespace CrlError

def ofX509 : X509Error → CrlError
  | .asn1 a => asn1 a
  | .invalidTime => invalidTime
  | .unsupportedAlgorithm => unsupportedAlgorithm
  | .algorithmMismatch => algorithmMismatch
  | .signatureInvalid => signatureInvalid
  | .unsupportedVersion | .invalidValidityOrder => asn1 (.invalidValue "crl: x509 helper error")

end CrlError

structure CertificateList where
  rawTbs : Bytes
  issuerRaw : Bytes
  thisUpdate : UInt64
  nextUpdate : Option UInt64
  signatureAlgorithm : SignatureAlgorithm
  signatureValue : Bytes
  revokedRaw : Option Bytes
  deriving DecidableEq

namespace CertificateList

/-- The optional version, which must be v2. -/
def readVersion (tbs : DerReader) : Except CrlError DerReader :=
  if peekTag tbs = some Tag.integer then do
    let (v, tbs) ← propagate .asn1 (readU64 tbs)
    if v ≠ 1 then .error .unsupportedVersion else .ok tbs
  else .ok tbs

def readNextUpdate (tbs : DerReader) : Except CrlError (Option UInt64 × DerReader) :=
  if peekTag tbs = some Tag.utcTime ∨ peekTag tbs = some Tag.generalizedTime then do
    let (time, tbs) ← (readTime tbs).mapError .ofX509
    .ok (some time, tbs)
  else .ok (none, tbs)

def readRevoked (tbs : DerReader) : Except CrlError (Option Bytes × DerReader) :=
  if peekTag tbs = some Tag.sequence then do
    let (raw, tbs) ← propagate .asn1 (readTagged Tag.sequence tbs)
    .ok (some raw, tbs)
  else .ok (none, tbs)

def parse (der : Bytes) : Except CrlError CertificateList := do
  let (rawTbs, tbs, list) ← (readTbs der).mapError .ofX509
  let tbs ← readVersion tbs
  let ((tbsSigAlgOid, _), tbs) ← (readAlgorithmIdentifier tbs).mapError .ofX509
  let (issuerRaw, tbs) ← propagate .asn1 (readTagged Tag.sequence tbs)
  let (thisUpdate, tbs) ← (readTime tbs).mapError .ofX509
  let (nextUpdate, tbs) ← readNextUpdate tbs
  let (revokedRaw, tbs) ← readRevoked tbs
  (skipRest tbs).mapError .ofX509
  let (signatureAlgorithm, signatureValue) ← (readSignature tbsSigAlgOid list).mapError .ofX509
  .ok { rawTbs, issuerRaw, thisUpdate, nextUpdate, signatureAlgorithm, signatureValue, revokedRaw }

def verifySignedBy (V : Verifier) (l : CertificateList) (issuer : Certificate) :
    Except CrlError Unit :=
  if V l.signatureAlgorithm issuer.spkiKeyBytes l.rawTbs l.signatureValue then .ok ()
  else .error .signatureInvalid

def readEntry (reader : DerReader) : Except Asn1Error Bytes × DerReader :=
  match readSequence reader with
  | (.error e, reader) => (.error e, reader)
  | (.ok entry, reader) => ((readIntegerBytes entry).1, reader)

/-- One round of the walk over the entries. A round that leaves the walk gives its answer. -/
def isRevokedRound (serial : Bytes) (reader : DerReader) : Except Bool DerReader :=
  match readEntry reader with
  | (.error _, _) => .error false
  | (.ok entrySerial, reader) => if entrySerial = serial then .error true else .ok reader

/-- The walk over the content of a `revokedCertificates` field. -/
def walkRevoked (serial : Bytes) (reader : DerReader) : Bool :=
  match whileLeft remainingLen (isRevokedRound serial) reader with
  | .error answer => answer
  | .ok () => false

def isRevoked (l : CertificateList) (serial : Bytes) : Bool :=
  match l.revokedRaw with
  | none => false
  | some raw => walkRevoked serial (DerReader.new raw)

theorem verifySignedBy_ok_iff {V : Verifier} {l : CertificateList} {issuer : Certificate} :
    l.verifySignedBy V issuer = .ok () ↔
      V l.signatureAlgorithm issuer.spkiKeyBytes l.rawTbs l.signatureValue = true := by
  unfold verifySignedBy
  split
  · next h => exact iff_of_true rfl h
  · next h => exact iff_of_false nofun h

end CertificateList

/-- The encodings of an entry for a serial: a SEQUENCE that starts with the INTEGER. -/
def RevokedEntry (serial word : Bytes) : Prop :=
  ∃ content integer more, Tlv Tag.sequence content word ∧ Tlv Tag.integer serial integer ∧
    content = integer ++ more

/-- The bytes are entries throughout, for these serials. -/
abbrev RevokedList (serials : List Bytes) (raw : Bytes) : Prop := Concat RevokedEntry serials raw

/-- The serial has an entry in front of which there are only entries. -/
def NamedInFront (serial raw : Bytes) : Prop :=
  ∃ front back serials, raw = front ++ back ∧ RevokedList serials front ∧ serial ∈ serials

variable {serial : Bytes}

namespace NamedInFront

theorem of_entry {word rest : Bytes} (h : RevokedEntry serial word) :
    NamedInFront serial (word ++ rest) :=
  ⟨word, rest, [serial], rfl, .singleton h, List.mem_singleton_self serial⟩

theorem behind_entry {other word rest : Bytes} (hword : RevokedEntry other word)
    (h : NamedInFront serial rest) : NamedInFront serial (word ++ rest) := by
  obtain ⟨front, back, serials, rfl, hlist, hmem⟩ := h
  exact ⟨word ++ front, back, other :: serials, (List.append_assoc _ _ _).symm, .cons hword hlist,
    List.mem_cons_of_mem other hmem⟩

theorem starts {raw : Bytes} (h : NamedInFront serial raw) :
    ∃ first word rest, RevokedEntry first word ∧ raw = word ++ rest ∧
      (first = serial ∨ NamedInFront serial rest) := by
  obtain ⟨front, back, serials, rfl, hlist, hmem⟩ := h
  cases hlist with
  | nil => cases hmem
  | @cons first serials word words hword hwords =>
    refine ⟨first, word, words ++ back, hword, List.append_assoc _ _ _, ?_⟩
    cases hmem with
    | head => exact .inl rfl
    | tail _ hmem => exact .inr ⟨words, back, serials, rfl, hwords, hmem⟩

end NamedInFront

theorem RevokedEntry.ne_nil {word : Bytes} (h : RevokedEntry serial word) : word ≠ [] := by
  obtain ⟨_, _, _, hseq, _, _⟩ := h
  exact hseq.ne_nil

/-- The serial has an entry among the elements of a list. -/
def Listed (serial raw : Bytes) : Prop :=
  ∃ front elements word back, raw = front ++ (word ++ back) ∧ Elements elements front ∧
    RevokedEntry serial word

/-- The serial has an entry behind elements not all of which are entries. -/
def Hidden (serial raw : Bytes) : Prop :=
  ∃ front elements word back, raw = front ++ (word ++ back) ∧ Elements elements front ∧
    RevokedEntry serial word ∧ ¬ ∃ serials, RevokedList serials front

theorem listed_iff {raw : Bytes} :
    Listed serial raw ↔ NamedInFront serial raw ∨ Hidden serial raw := by
  constructor
  · rintro ⟨front, elements, word, back, rfl, helements, hword⟩
    by_cases hlist : ∃ serials, RevokedList serials front
    · obtain ⟨serials, hlist⟩ := hlist
      exact .inl ⟨front ++ word, back, serials ++ [serial], (List.append_assoc _ _ _).symm,
        hlist.append (.singleton hword), List.mem_append_right _ (List.mem_singleton_self serial)⟩
    · exact .inr ⟨front, elements, word, back, rfl, helements, hword, hlist⟩
  · rintro (⟨front, back, serials, rfl, hlist, hmem⟩ |
      ⟨front, elements, word, back, hraw, helements, hword, _⟩)
    · obtain ⟨before, front, word, rest, rfl, hfront, hword⟩ := hlist.split hmem
      have helement : ∀ s w, RevokedEntry s w → ∃ e : UInt8 × Bytes, Tlv e.1 e.2 w :=
        fun s w ⟨content, _, _, hseq, _, _⟩ => ⟨(Tag.sequence, content), hseq⟩
      obtain ⟨elements, helements⟩ := hfront.of_imp helement
      exact ⟨front, elements, word, rest ++ back, by simp, helements, hword⟩
    · exact ⟨front, elements, word, back, hraw, helements, hword⟩

variable {serials : List Bytes}

theorem list_of_elements {elements : List (UInt8 × Bytes)} {front back : Bytes}
    (hfront : Elements elements front) (hlist : RevokedList serials (front ++ back)) :
    ∃ serials, RevokedList serials front := by
  induction hfront generalizing serials with
  | nil => exact ⟨[], .nil⟩
  | @cons element elements word words hword _ ih =>
    generalize hraw : word ++ words ++ back = raw at hlist
    rw [List.append_assoc] at hraw
    cases hlist with
    | nil => exact absurd (List.append_eq_nil_iff.mp hraw).1 hword.ne_nil
    | @cons first serials entry entries hentry hentries =>
      -- the first element and the first entry are read off the same bytes
      obtain ⟨content, integer, more, hseq, _⟩ := hentry
      obtain ⟨_, rfl⟩ := readTlv_reads.unique (b := (Tag.sequence, content)) hword hseq hraw
      obtain ⟨serials', hwords⟩ := ih hentries
      rw [List.append_cancel_right hraw]
      exact ⟨first :: serials', .cons ⟨content, integer, more, hseq, ‹_›⟩ hwords⟩

theorem not_hidden_of_list {raw : Bytes} (h : RevokedList serials raw) :
    ¬ Hidden serial raw := by
  rintro ⟨front, elements, word, back, rfl, helements, _, hlist⟩
  exact hlist (list_of_elements helements h)

namespace Sample

def revokedEntry (serial : UInt8) : Bytes := tlv Tag.sequence [tlv Tag.integer [[serial]]]

theorem revokedEntry_entry (serial : UInt8) : RevokedEntry [serial] (revokedEntry serial) :=
  ⟨tlv Tag.integer [[serial]], _, [], ⟨by decide, [3], LengthField.short (b := 3) (by decide), rfl⟩,
    ⟨by decide, [1], LengthField.short (b := 1) (by decide), rfl⟩, rfl⟩

/-- A NULL, and behind it the entry of serial 42. -/
def brokenEntries : Bytes := tlv 0x05 [] ++ revokedEntry 0x2A

def brokenCrl : Bytes :=
  tlv Tag.sequence [
    tlv Tag.sequence [ed25519Id, tlv Tag.sequence [], newYear [0x32, 0x34],
      tlv Tag.sequence [brokenEntries]],
    ed25519Id, tlv Tag.bitString [[0x00, 0x01]]]

end Sample

namespace CertificateList

theorem readEntry_reads : Reads readEntry RevokedEntry := by
  have hcheck : Reads readEntry _ := readSequence_reads.check
    (f := fun entry => (readIntegerBytes entry).1)
    (fun r entry r' h serial r'' => by simp [readEntry, h, eq_comm])
    (fun r e r' h => by simp [readEntry, h])
  apply hcheck.congr
  intro serial word
  constructor
  · rintro ⟨_, ⟨content, hseq, rfl⟩, hserial⟩
    obtain ⟨integer, more, hint, hcontent⟩ := (readTagged_reads Tag.integer).fst_eq_ok_iff.mp hserial
    exact ⟨content, integer, more, hseq, hint, hcontent⟩
  · rintro ⟨content, integer, more, hseq, hint, hcontent⟩
    exact ⟨new content, ⟨content, hseq, rfl⟩,
      (readTagged_reads Tag.integer).fst_eq_ok_iff.mpr ⟨integer, more, hint, hcontent⟩⟩

theorem isRevokedRound_shrinks (serial : Bytes) : Shrinks remainingLen (isRevokedRound serial) := by
  apply readEntry_reads.shrinks fun _ _ => RevokedEntry.ne_nil
  intro r r' h
  unfold isRevokedRound at h
  split at h; · cases h
  next entrySerial r₁ hentry =>
  split at h
  · cases h
  · cases h
    exact ⟨entrySerial, hentry⟩

theorem isRevokedRound_of_entry {entrySerial : Bytes} {r r' : DerReader}
    (h : readEntry r = (.ok entrySerial, r')) :
    isRevokedRound serial r = if entrySerial = serial then .error true else .ok r' := by
  rw [isRevokedRound, h]

theorem walkRevoked_iff {r : DerReader} :
    walkRevoked serial r = true ↔ NamedInFront serial r.unread := by
  induction r using whileLeft_induction (isRevokedRound_shrinks serial) with
  | done r hleft =>
    have hnil : r.unread = [] := List.length_eq_zero_iff.mp (r.length_unread.trans hleft)
    rw [walkRevoked, whileLeft_of_end hleft, hnil]
    refine iff_of_false nofun fun h => ?_
    obtain ⟨first, word, rest, hword, heq, _⟩ := h.starts
    exact hword.ne_nil (List.append_eq_nil_iff.mp heq.symm).1
  | leave r answer hleft hround =>
    have hr : r.Valid := Cursor.valid_of_left hleft
    rw [walkRevoked, whileLeft_of_error hleft hround]
    rcases hentry : readEntry r with ⟨e | entrySerial, r'⟩
    · -- no entry is next, so none is in front of anything
      simp only [isRevokedRound, hentry, Except.error.injEq] at hround
      refine iff_of_false (by simp [← hround]) fun h => ?_
      obtain ⟨first, word, rest, hword, heq, _⟩ := h.starts
      rw [readEntry_reads.ok hr hword heq] at hentry
      cases hentry
    · rw [isRevokedRound_of_entry hentry] at hround
      split at hround
      · next hserial =>
        cases hround
        obtain ⟨word, hword, hunread, _, _⟩ := readEntry_reads.word hr hentry
        rw [hunread, ← hserial]
        exact iff_of_true rfl (.of_entry hword)
      · cases hround
  | goOn r r' hleft hround ih =>
    have hr : r.Valid := Cursor.valid_of_left hleft
    rw [walkRevoked, whileLeft_of_ok (isRevokedRound_shrinks serial) hleft hround]
    rcases hentry : readEntry r with ⟨e | entrySerial, r₁⟩
    · simp [isRevokedRound, hentry] at hround
    · rw [isRevokedRound_of_entry hentry] at hround
      split at hround
      · cases hround
      · next hserial =>
        cases hround
        obtain ⟨word, hword, hunread, _, _⟩ := readEntry_reads.word hr hentry
        rw [hunread]
        refine ih.trans ⟨.behind_entry hword, fun h => ?_⟩
        obtain ⟨first, word', rest, hword', heq, hrest⟩ := h.starts
        obtain ⟨rfl, rfl⟩ := readEntry_reads.unique hword hword' heq
        exact hrest.resolve_left hserial

theorem isRevoked_iff {l : CertificateList} :
    l.isRevoked serial = true ↔ ∃ raw, l.revokedRaw = some raw ∧ NamedInFront serial raw := by
  unfold isRevoked
  cases l.revokedRaw with
  | none => simp
  | some raw =>
    rw [walkRevoked_iff]
    simp [DerReader.new]

theorem readEntry_of_list {raw : Bytes} (h : RevokedList serials raw)
    (hne : raw ≠ []) : ∃ serial, (readEntry (DerReader.new raw)).1 = .ok serial := by
  cases h with
  | nil => exact absurd rfl hne
  | cons head _ => exact ⟨_, readEntry_reads.fst_eq_ok_iff.mpr ⟨_, _, head, rfl⟩⟩

/-- `is_revoked` clears a serial only on a list of entries throughout that does not name it,
exactly for these lists and for serials it finds before the first thing that is no entry. -/
theorem revocation_fails_closed_iff (l : CertificateList) (raw serial : Bytes) :
    (isRevoked { l with revokedRaw := some raw } serial = false →
      ∃ serials, RevokedList serials raw ∧ serial ∉ serials) ↔
    (∃ serials, RevokedList serials raw) ∨ NamedInFront serial raw := by
  have hrevoked : isRevoked { l with revokedRaw := some raw } serial = true ↔
      NamedInFront serial raw := by
    rw [isRevoked_iff]
    simp
  constructor
  · intro h
    by_cases hnamed : NamedInFront serial raw
    · exact .inr hnamed
    · obtain ⟨serials, hlist, _⟩ := h (Bool.eq_false_iff.mpr (mt hrevoked.mp hnamed))
      exact .inl ⟨serials, hlist⟩
  · rintro (⟨serials, hlist⟩ | hnamed) hclear
    · refine ⟨serials, hlist, fun hmem => ?_⟩
      have hnamed : NamedInFront serial raw := ⟨raw, [], serials, by simp, hlist, hmem⟩
      rw [hrevoked.mpr hnamed] at hclear
      cases hclear
    · rw [hrevoked.mpr hnamed] at hclear
      cases hclear

/-- The entry of a revoked serial is hidden behind a NULL. -/
theorem revoked_behind_null_cleared : ∃ l, parse Sample.brokenCrl = .ok l ∧
    l.revokedRaw = some Sample.brokenEntries ∧ l.isRevoked [0x2A] = false ∧
    Listed [0x2A] Sample.brokenEntries ∧
    ¬ ∃ serials, RevokedList serials Sample.brokenEntries ∧ [0x2A] ∉ serials := by
  refine ⟨_, rfl, rfl, rfl, ?_, ?_⟩
  · exact ⟨Sample.tlv 0x05 [], [(0x05, [])], Sample.revokedEntry 0x2A, [], rfl,
      .singleton ⟨by decide, [0], LengthField.short (b := 0) (by decide), rfl⟩,
      Sample.revokedEntry_entry 0x2A⟩
  · rintro ⟨serials, hlist, _⟩
    obtain ⟨serial, hserial⟩ := readEntry_of_list hlist nofun
    cases hserial

end CertificateList

end Desmos.Core
