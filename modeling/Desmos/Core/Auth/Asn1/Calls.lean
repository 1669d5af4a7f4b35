import Desmos.Core.Auth.Asn1

/-! # Calls on a DER reader

What a failed call of the reader leaves behind. The cursor goes back when the value is cut short or
the tag is another one. It does not when the header itself is bad, or when the content is refused.
-/
namespace Desmos.Core
open Library

inductive DerCall where
  | isEmpty
  | remainingLen
  | consumed
  | remaining
  | peekTag
  | readTlv
  | readTagged (expected : UInt8)
  | readSequence
  | readSet
  | readIntegerBytes
  | readU64
  | readOid
  | readBitString
  | readOctetString
  | readNull
  | readBool
  | skipOne
  | maybeTagged (expected : UInt8)
  deriving DecidableEq

inductive DerAnswer where
  | flag (b : Bool)
  | count (n : ℕ)
  | tag (t : Option UInt8)
  | bytes (value : Bytes)
  | element (tag : UInt8) (value : Bytes)
  | child (reader : DerReader)
  | number (n : UInt64)
  | done
  | optional (value : Option Bytes)
  | failed (e : Asn1Error)
  deriving DecidableEq

namespace DerReader

def answerOf {α : Type} (f : α → DerAnswer) :
    Except Asn1Error α × DerReader → DerAnswer × DerReader
  | (.error e, r) => (.failed e, r)
  | (.ok a, r) => (f a, r)

def call : DerCall → DerReader → DerAnswer × DerReader
  | .isEmpty, r => (.flag (isEmpty r), r)
  | .remainingLen, r => (.count (remainingLen r), r)
  | .consumed, r => (.bytes (consumed r), r)
  | .remaining, r => (.bytes (remaining r), r)
  | .peekTag, r => (.tag (peekTag r), r)
  | .readTlv, r => answerOf (fun tlv => .element tlv.1 tlv.2) (readTlv r)
  | .readTagged expected, r => answerOf .bytes (readTagged expected r)
  | .readSequence, r => answerOf .child (readSequence r)
  | .readSet, r => answerOf .child (readSet r)
  | .readIntegerBytes, r => answerOf .bytes (readIntegerBytes r)
  | .readU64, r => answerOf .number (readU64 r)
  | .readOid, r => answerOf .bytes (readOid r)
  | .readBitString, r => answerOf .bytes (readBitString r)
  | .readOctetString, r => answerOf .bytes (readOctetString r)
  | .readNull, r => answerOf (fun _ => .done) (readNull r)
  | .readBool, r => answerOf .flag (readBool r)
  | .skipOne, r => answerOf (fun _ => .done) (skipOne r)
  | .maybeTagged expected, r => answerOf .optional (maybeTagged expected r)

end DerReader

/-- The call reads an element from where the reader stands. -/
def DerCall.Attempts : DerCall → DerReader → Prop
  | .isEmpty, _ | .remainingLen, _ | .consumed, _ | .remaining, _ | .peekTag, _ => False
  | .maybeTagged expected, r => DerReader.peekTag r = some expected
  | _, _ => True

/-- The call refuses the content of an element under the tag that it asks for: an integer that is
empty, negative or longer than eight bytes behind a leading zero, bits that do not fill their last
byte, a null that is not empty, a truth value that is not one of the two bytes. -/
def DerCall.Refuses : DerCall → (tag : UInt8) → (value : Bytes) → Prop
  | .readU64, tag, value => tag = Tag.integer ∧ ((∀ b ∈ value.head?, 0x80 ≤ b) ∨
      8 < value.length ∧ ¬ (value.head? = some 0 ∧ value.length = 9))
  | .readBitString, tag, value => tag = Tag.bitString ∧ value.head? ≠ some 0
  | .readNull, tag, value => tag = Tag.null ∧ value ≠ []
  | .readBool, tag, value => tag = Tag.boolean ∧ value ≠ [0x00] ∧ value ≠ [0xFF]
  | _, _, _ => False

/-- A whole header is in front: a tag in its short form and a length field. -/
def HeaderAhead (input : Bytes) : Prop :=
  ∃ tag field len rest, tag &&& 0x1F ≠ 0x1F ∧ LengthField len field ∧ input = tag :: (field ++ rest)

variable {α : Type} {read : DerReader → Except Asn1Error α × DerReader}

namespace DerReader
variable {r r' : DerReader} {tag t : UInt8} {f : Bytes → Except Asn1Error α}

theorem valid_of_unread (h : r.unread ≠ []) : r.Valid := by
  apply Cursor.valid_of_left
  rw [← r.length_unread]
  exact fun hlen => h (List.length_eq_zero_iff.mp hlen)

theorem readByte_nil (h : r.unread = []) : readByte r = (.error .truncated, r) := by
  have hnone : r.buf[r.pos]? = none :=
    List.getElem?_eq_none (List.drop_eq_nil_iff.mp h)
  rw [readByte, hnone]

theorem readByte_cons {b : UInt8} {rest : Bytes} (h : r.unread = b :: rest) :
    readByte r = (.ok b, r.advance 1) :=
  readByte_reads.ok (valid_of_unread (h ▸ List.cons_ne_nil b rest)) rfl h

/-- The second reader is the first one further on in the buffer. -/
structure Onward (r r' : DerReader) : Prop where
  buf : r'.buf = r.buf
  pos : r.pos ≤ r'.pos
  valid : r'.Valid

theorem Onward.refl (hv : r.Valid) : Onward r r := ⟨rfl, le_rfl, hv⟩

theorem Onward.trans {r₁ r₂ : DerReader} (h : Onward r r₁) (h' : Onward r₁ r₂) : Onward r r₂ :=
  ⟨h'.buf.trans h.buf, h.pos.trans h'.pos, h'.valid⟩

theorem readByte_onward (hv : r.Valid) : Onward r (readByte r).2 := by
  rcases hu : r.unread with _ | ⟨b, rest⟩
  · rw [readByte_nil hu]
    exact .refl hv
  · rw [readByte_cons hu]
    exact ⟨rfl, Nat.le_add_right _ _, hv.advance (show r.unread = [b] ++ rest from hu)⟩

theorem readLengthBytes_onward (hv : r.Valid) (n len : ℕ) :
    Onward r (readLengthBytes n len r).2 := by
  induction n generalizing len r with
  | zero => exact .refl hv
  | succ n ih =>
    have hbyte := readByte_onward hv
    rcases h : readByte r with ⟨e | b, r₁⟩
    · simpa [readLengthBytes, h] using hbyte
    · simpa [readLengthBytes, h] using hbyte.trans (ih hbyte.valid _)

theorem readLengthFrom_onward (hv : r.Valid) (first : UInt8) :
    Onward r (readLengthFrom first r).2 := by
  unfold readLengthFrom
  split
  · exact .refl hv
  split
  · exact .refl hv
  dsimp only
  split
  · exact .refl hv
  · exact readLengthBytes_onward hv _ _

theorem readLength_onward (hv : r.Valid) : Onward r (readLength r).2 := by
  have hbyte := readByte_onward hv
  rcases h : readByte r with ⟨e | first, r₁⟩
  · simpa [readLength, h] using hbyte
  · simpa [readLength, h] using hbyte.trans (readLengthFrom_onward hbyte.valid first)

inductive TlvOutcome (r : DerReader) : Except Asn1Error (UInt8 × Bytes) × DerReader → Prop
  | atEnd (hend : r.unread = []) : TlvOutcome r (.error .truncated, r)
  | badHeader {e : Asn1Error} {r' : DerReader} (hne : r.unread ≠ []) (hbad : ¬ HeaderAhead r.unread)
      (hmoved : Onward (r.advance 1) r') : TlvOutcome r (.error e, r')
  | cutShort {tag : UInt8} {field rest : Bytes} {len : ℕ} (hshort : tag &&& 0x1F ≠ 0x1F)
      (hfield : LengthField len field) (hrest : r.unread = tag :: (field ++ rest))
      (hcut : rest.length < len) : TlvOutcome r (.error .truncated, r)
  | element {tag : UInt8} {value word rest : Bytes} (htlv : Tlv tag value word)
      (hrest : r.unread = word ++ rest) :
      TlvOutcome r (.ok (tag, value), r.advance word.length)

theorem readLength_of_header {field rest : Bytes} {len : ℕ}
    (hfield : LengthField len field) (hrest : r.unread = tag :: (field ++ rest)) :
    readLength (r.advance 1) = (.ok len, r.advance (1 + field.length)) := by
  have hu : r.unread = [tag] ++ (field ++ rest) := hrest
  have hv := valid_of_unread (hrest ▸ List.cons_ne_nil _ _)
  have hread := readLength_reads.ok (c := r.advance 1) (hv.advance hu) hfield
    (Cursor.unread_advance hu)
  rwa [Cursor.advance_advance] at hread

theorem readTlv_outcome (r : DerReader) : TlvOutcome r (readTlv r) := by
  rcases hu : r.unread with _ | ⟨tag, rest₀⟩
  · rw [readTlv, readByte_nil hu]
    exact .atEnd hu
  have hne : r.unread ≠ [] := hu ▸ List.cons_ne_nil tag rest₀
  have hbyte := readByte_cons hu
  have hv₁ : (r.advance 1).Valid := (valid_of_unread hne).advance (show r.unread = [tag] ++ rest₀ from hu)
  have hhead : ∀ {tag' : UInt8} {rest' : Bytes}, r.unread = tag' :: rest' → tag' = tag :=
    fun h => (List.cons.inj (h.symm.trans hu)).1
  by_cases hshort : tag &&& 0x1F = 0x1F
  · have hread : readTlv r = (.error (.unsupported "long-form tag"), r.advance 1) := by
      simp only [readTlv, hbyte, if_pos hshort]
    rw [hread]
    refine .badHeader hne ?_ (.refl hv₁)
    rintro ⟨tag', field, len, rest, htag, _, hrest⟩
    exact htag (hhead hrest ▸ hshort)
  rcases hlength : readLength (r.advance 1) with ⟨e | len, r₂⟩
  · have hread : readTlv r = (.error e, r₂) := by
      simp only [readTlv, hbyte, if_neg hshort, hlength]
    rw [hread]
    refine .badHeader hne ?_ ?_
    · rintro ⟨tag', field, len, rest, _, hfield, hrest⟩
      have hok := readLength_of_header hfield hrest
      rw [hlength] at hok
      cases hok
    · have hmoved := readLength_onward hv₁
      rw [hlength] at hmoved
      exact hmoved
  -- a whole header: what is left decides
  obtain ⟨field, hfield, hu₁, rfl, hv₂⟩ := readLength_reads.word hv₁ hlength
  have hrest : r.unread = tag :: (field ++ ((r.advance 1).advance field.length).unread) := by
    rw [← hu₁]
    exact hu.trans (congrArg (tag :: ·) (Cursor.unread_advance (show r.unread = [tag] ++ rest₀ from hu)).symm)
  generalize hr₂ : (r.advance 1).advance field.length = r₂ at *
  rcases hvalue : readValue len r₂ with ⟨e | value, r₃⟩
  · have hread : readTlv r = (.error e, r) := by
      simp only [readTlv, hbyte, if_neg hshort, hlength, hvalue]
    have hlen := r₂.length_unread
    unfold readValue at hvalue
    split at hvalue
    · next hcut =>
      cases hvalue
      rw [hread]
      exact .cutShort hshort hfield hrest (by unfold Cursor.Valid at hv₂; omega)
    · cases hvalue
  · have hread : readTlv r = (.ok (tag, value), r₃) := by
      simp only [readTlv, hbyte, if_neg hshort, hlength, hvalue]
    obtain ⟨word, hword, hu', hr₃, _⟩ := readTlv_reads.word (valid_of_unread hne) hread
    rw [hread, hr₃]
    exact .element hword hu'

/-- A failed call leaves the reader as it was. -/
def FailsInPlace {α : Type} (read : DerReader → Except Asn1Error α × DerReader)
    (r : DerReader) : Prop :=
  ∀ e r', read r = (.error e, r') → r' = r

/-- The reader is at its end or in front of a whole header. -/
def AtElement (r : DerReader) : Prop := r.unread = [] ∨ HeaderAhead r.unread

theorem headerAhead_of_tlv {value word rest : Bytes} (h : Tlv tag value word)
    (hrest : r.unread = word ++ rest) : HeaderAhead r.unread := by
  obtain ⟨field, hfield, rfl⟩ := h.encoded
  exact ⟨tag, field, value.length, value ++ rest, h.shortForm, hfield, by rw [hrest]; simp⟩

theorem failsInPlace_readTlv_iff : FailsInPlace readTlv r ↔ AtElement r := by
  unfold FailsInPlace AtElement
  have hout := readTlv_outcome r
  generalize readTlv r = out at hout
  cases hout with
  | atEnd hend =>
    refine iff_of_true (fun e r' h => ?_) (Or.inl hend)
    cases h
    rfl
  | badHeader hne hbad hmoved =>
    refine iff_of_false (fun h => ?_) (not_or.mpr ⟨hne, hbad⟩)
    have hpos := hmoved.pos
    rw [h _ _ rfl] at hpos
    exact absurd hpos (Nat.not_succ_le_self r.pos)
  | cutShort hshort hfield hrest _ =>
    refine iff_of_true (fun e r' h => ?_) (Or.inr ⟨_, _, _, _, hshort, hfield, hrest⟩)
    cases h
    rfl
  | element htlv hrest =>
    exact iff_of_true (fun e r' h => by cases h) (Or.inr (headerAhead_of_tlv htlv hrest))

theorem failsInPlace_readTagged_iff (expected : UInt8) :
    FailsInPlace (readTagged expected) r ↔ AtElement r := by
  rw [← failsInPlace_readTlv_iff]
  unfold FailsInPlace
  rcases h : readTlv r with ⟨e | ⟨tag, value⟩, r'⟩
  · simp [readTagged, h]
  · by_cases ht : tag = expected
    · simp [readTagged, h, ht]
    · simp [readTagged, h, ht]

theorem ne_of_readTagged {expected : UInt8} {value : Bytes}
    (h : readTagged expected r = (.ok value, r')) : r' ≠ r := by
  have hne : r.unread ≠ [] := by
    intro hend
    rw [readTagged, readTlv, readByte_nil hend] at h
    cases h
  obtain ⟨word, hword, _, rfl, _⟩ := (readTagged_reads expected).word (valid_of_unread hne) h
  intro heq
  have hpos := congrArg Cursor.pos heq
  change r.pos + word.length = r.pos at hpos
  have := List.length_pos_iff.mpr hword.ne_nil
  omega

theorem failsInPlace_check_iff
    (herror : ∀ e r', readTagged t r = (.error e, r') → read r = (.error e, r'))
    (hok : ∀ value r', readTagged t r = (.ok value, r') → read r = (f value, r')) :
    FailsInPlace read r ↔ AtElement r ∧ ∀ tag value word rest, Tlv tag value word →
      r.unread = word ++ rest → ¬ (tag = t ∧ (f value).isOk = false) := by
  rw [← failsInPlace_readTagged_iff t]
  unfold FailsInPlace
  rcases h : readTagged t r with ⟨e | value, r'⟩
  · rw [herror e r' h]
    have hno : ∀ tag value word rest, Tlv tag value word → r.unread = word ++ rest →
        ¬ (tag = t ∧ (f value).isOk = false) := by
      rintro tag value word rest htlv hrest ⟨rfl, _⟩
      have hne : r.unread ≠ [] := by
        rw [hrest]
        exact List.append_ne_nil_of_left_ne_nil htlv.ne_nil _
      have hread := (readTagged_reads tag).ok (valid_of_unread hne) htlv hrest
      rw [h] at hread
      cases hread
    refine ⟨fun hplace => ⟨fun e' r₁ he => ?_, hno⟩, fun hplace e' r₁ he => ?_⟩
    · cases he
      exact hplace e r' rfl
    · cases he
      exact hplace.1 e r' rfl
  · rw [hok value r' h]
    have hne : r.unread ≠ [] := by
      intro hend
      rw [readTagged, readTlv, readByte_nil hend] at h
      cases h
    obtain ⟨word, hword, hrest, _, _⟩ :=
      (readTagged_reads t).word (valid_of_unread hne) h
    constructor
    · refine fun hplace => ⟨fun e' r₁ he => ?_, ?_⟩
      · cases he
      · rintro tag value' word' rest' htlv hrest' ⟨rfl, hbad⟩
        obtain ⟨rfl, _⟩ := (readTagged_reads tag).unique hword htlv (hrest.symm.trans hrest')
        cases hf : f value with
        | ok a =>
          rw [hf] at hbad
          cases hbad
        | error e => exact ne_of_readTagged h (hplace e r' (by rw [hf]))
    · rintro ⟨_, haccepts⟩ e r₁ he
      have hbad : (f value).isOk = false := by
        rw [(Prod.mk.inj he).1]
        rfl
      exact absurd ⟨rfl, hbad⟩ (haccepts t value word _ hword hrest)

theorem answerOf_failed {f : α → DerAnswer} (hf : ∀ a e, f a ≠ .failed e)
    (read : DerReader → Except Asn1Error α × DerReader) (r : DerReader) :
    (∀ e, (answerOf f (read r)).1 = .failed e → (answerOf f (read r)).2 = r) ↔
      FailsInPlace read r := by
  unfold FailsInPlace
  rcases h : read r with ⟨e | a, r'⟩
  · simp [answerOf]
  · simp [answerOf, hf]

theorem failsInPlace_convert_iff {f : Bytes → α}
    (herror : ∀ e r', readTagged t r = (.error e, r') → read r = (.error e, r'))
    (hok : ∀ value r', readTagged t r = (.ok value, r') → read r = (.ok (f value), r')) :
    FailsInPlace read r ↔ AtElement r := by
  rw [failsInPlace_check_iff (f := fun value => .ok (f value)) herror hok]
  exact and_iff_left fun _ _ _ _ _ _ h => Bool.noConfusion h.2

theorem failsInPlace_readSequence_iff : FailsInPlace readSequence r ↔ AtElement r :=
  failsInPlace_convert_iff (t := Tag.sequence) (f := new)
    (fun _ _ h => by simp [readSequence, h]) fun _ _ h => by simp [readSequence, h]

theorem failsInPlace_readSet_iff : FailsInPlace readSet r ↔ AtElement r :=
  failsInPlace_convert_iff (t := Tag.set) (f := new)
    (fun _ _ h => by simp [readSet, h]) fun _ _ h => by simp [readSet, h]

theorem failsInPlace_skipOne_iff : FailsInPlace skipOne r ↔ AtElement r := by
  rw [← failsInPlace_readTlv_iff]
  unfold FailsInPlace
  rcases h : readTlv r with ⟨e | tlv, r'⟩
  · simp [skipOne, h]
  · simp [skipOne, h]

theorem failsInPlace_maybeTagged_iff (expected : UInt8) :
    FailsInPlace (maybeTagged expected) r ↔ (peekTag r = some expected → AtElement r) := by
  by_cases hpeek : peekTag r = some expected
  · rw [← failsInPlace_readTagged_iff expected]
    unfold FailsInPlace
    rcases h : readTagged expected r with ⟨e | value, r'⟩
    · simp [maybeTagged, hpeek, h]
    · simp [maybeTagged, hpeek, h]
  · refine iff_of_true (fun e r' h => ?_) fun h => absurd h hpeek
    rw [maybeTagged, if_neg hpeek] at h
    cases h

theorem plainCall_iff {f : α → DerAnswer} (hf : ∀ a e, f a ≠ .failed e)
    (hplace : FailsInPlace read r ↔ AtElement r) :
    (∀ e, (answerOf f (read r)).1 = .failed e → (answerOf f (read r)).2 = r) ↔
      (True → r.unread = [] ∨ HeaderAhead r.unread) ∧
        ∀ (tag : UInt8) (value word rest : Bytes), Tlv tag value word → r.unread = word ++ rest →
          ¬ False := by
  rw [answerOf_failed hf, hplace, true_imp_iff]
  exact (and_iff_left fun _ _ _ _ _ _ h => h).symm

theorem isOk_ite_error {c : Prop} [Decidable c] {e : Asn1Error} {a : α} :
    (if c then .error e else .ok a : Except Asn1Error α).isOk = false ↔ c := by
  split_ifs with h
  · exact iff_of_true rfl h
  · exact iff_of_false Bool.noConfusion h

theorem integerToU64_refuses (value : Bytes) : (integerToU64 value).isOk = false ↔
    (∀ b ∈ value.head?, 0x80 ≤ b) ∨
      8 < value.length ∧ ¬ (value.head? = some 0 ∧ value.length = 9) := by
  cases value with
  | nil => exact iff_of_true rfl (Or.inl nofun)
  | cons b bytes =>
    have hsign : b &&& 0x80 ≠ 0 ↔ 0x80 ≤ b := by
      have hbytes : ∀ n < 256, UInt8.ofNat n &&& 0x80 ≠ 0 ↔ 0x80 ≤ UInt8.ofNat n := by
        decide +kernel
      simpa using hbytes b.toNat b.toNat_lt
    by_cases hnegative : 0x80 ≤ b
    · rw [integerToU64, if_pos (hsign.mpr hnegative)]
      exact iff_of_true rfl (Or.inl (by simpa using hnegative))
    · rw [integerToU64, if_neg (mt hsign.mp hnegative), isOk_ite_error]
      simp only [List.head?_cons, Option.mem_some_iff, forall_eq', hnegative, false_or,
        Option.some.injEq, List.length_cons]
      split_ifs with hzero
      · simp only [hzero.2, true_and]
        omega
      · have hlen : bytes = [] ∨ b ≠ 0 := by grind
        rcases hlen with rfl | hlen
        · simp
        · simp [hlen]

theorem bitStringContent_refuses (value : Bytes) :
    (bitStringContent value).isOk = false ↔ value.head? ≠ some 0 := by
  cases value with
  | nil => exact iff_of_true rfl nofun
  | cons b bytes =>
    rw [bitStringContent, isOk_ite_error]
    simp

theorem nullContent_refuses (value : Bytes) :
    (nullContent value).isOk = false ↔ value ≠ [] := by
  cases value <;> simp [nullContent, Except.isOk, Except.toBool]

theorem boolContent_refuses (value : Bytes) :
    (boolContent value).isOk = false ↔ value ≠ [0x00] ∧ value ≠ [0xFF] := by
  unfold boolContent
  split <;> simp_all [Except.isOk, Except.toBool]

theorem checkedCall_iff {g : α → DerAnswer} (hg : ∀ a e, g a ≠ .failed e) {bad : Bytes → Prop}
    (hbad : ∀ value, (f value).isOk = false ↔ bad value)
    (herror : ∀ e r', readTagged t r = (.error e, r') → read r = (.error e, r'))
    (hok : ∀ value r', readTagged t r = (.ok value, r') → read r = (f value, r')) :
    (∀ e, (answerOf g (read r)).1 = .failed e → (answerOf g (read r)).2 = r) ↔
      (True → r.unread = [] ∨ HeaderAhead r.unread) ∧ ∀ tag value word rest, Tlv tag value word →
        r.unread = word ++ rest → ¬ (tag = t ∧ bad value) := by
  rw [answerOf_failed hg, failsInPlace_check_iff herror hok, true_imp_iff]
  simp only [hbad]
  rfl

/-- A failed call leaves the cursor where it was exactly if it stood at the end of its input or in
front of a whole header, and did not refuse the content of a whole element. -/
theorem failed_call_moves_nothing_iff (c : DerCall) (r : DerReader) :
    (∀ e, (call c r).1 = .failed e → (call c r).2 = r) ↔
      (c.Attempts r → r.unread = [] ∨ HeaderAhead r.unread) ∧
        ∀ tag value word rest, Tlv tag value word → r.unread = word ++ rest →
          ¬ c.Refuses tag value := by
  cases c with
  | isEmpty | remainingLen | consumed | remaining | peekTag =>
    exact iff_of_true (fun e h => DerAnswer.noConfusion h) ⟨False.elim, fun _ _ _ _ _ _ h => h⟩
  | readTlv => exact plainCall_iff nofun failsInPlace_readTlv_iff
  | readTagged expected => exact plainCall_iff nofun (failsInPlace_readTagged_iff expected)
  | readSequence => exact plainCall_iff nofun failsInPlace_readSequence_iff
  | readSet => exact plainCall_iff nofun failsInPlace_readSet_iff
  | readIntegerBytes => exact plainCall_iff nofun (failsInPlace_readTagged_iff Tag.integer)
  | readOid => exact plainCall_iff nofun (failsInPlace_readTagged_iff Tag.oid)
  | readOctetString => exact plainCall_iff nofun (failsInPlace_readTagged_iff Tag.octetString)
  | skipOne => exact plainCall_iff nofun failsInPlace_skipOne_iff
  | maybeTagged expected =>
    refine (answerOf_failed nofun (maybeTagged expected) r).trans ?_
    rw [failsInPlace_maybeTagged_iff]
    exact (and_iff_left fun _ _ _ _ _ _ h => h).symm
  | readU64 =>
    exact checkedCall_iff nofun integerToU64_refuses
      (fun _ _ h => by simp [readU64, readIntegerBytes, h])
      fun _ _ h => by simp [readU64, readIntegerBytes, h]
  | readBitString =>
    exact checkedCall_iff nofun bitStringContent_refuses
      (fun _ _ h => by simp [readBitString, h]) fun _ _ h => by simp [readBitString, h]
  | readNull =>
    exact checkedCall_iff nofun nullContent_refuses
      (fun _ _ h => by simp [readNull, h]) fun _ _ h => by simp [readNull, h]
  | readBool =>
    exact checkedCall_iff nofun boolContent_refuses
      (fun _ _ h => by simp [readBool, h]) fun _ _ h => by simp [readBool, h]

/-- A lone tag is taken before the missing length is noticed. -/
theorem lone_tag_is_taken : call .readTlv (new [0x30]) = (.failed .truncated, ⟨[0x30], 1⟩) := by
  decide

end DerReader

end Desmos.Core
