import Desmos.Library.Bytes
import Desmos.Library.Reader

/-! # Reading DER

The reader of tagged values under the certificate and revocation-list parsers, and the language
it accepts. Offsets are exact: a length field has at most four bytes, so no sum with an offset
into a buffer leaves 64 bits.
-/
namespace Desmos.Core
open Library

namespace Tag

def boolean : UInt8 := 0x01
def integer : UInt8 := 0x02
def bitString : UInt8 := 0x03
def octetString : UInt8 := 0x04
def null : UInt8 := 0x05
def oid : UInt8 := 0x06
def utcTime : UInt8 := 0x17
def generalizedTime : UInt8 := 0x18
def sequence : UInt8 := 0x30
def set : UInt8 := 0x31

def contextTagExplicit (n : UInt8) : UInt8 := 0xA0 ||| n

end Tag

inductive Asn1Error where
  | truncated
  | badLength
  | unexpectedTag (expected got : UInt8)
  | unsupportedBitString
  | invalidValue (reason : String)
  | unsupported (reason : String)
  deriving DecidableEq, Repr

abbrev DerReader := Cursor UInt8

namespace DerReader

def new (buf : Bytes) : DerReader := Cursor.start buf

section
variable (r : DerReader)

def isEmpty : Bool := r.buf.length ≤ r.pos

def remainingLen : ℕ := r.left

def consumed : Bytes := r.buf.take r.pos

def remaining : Bytes := r.unread

def readByte : Except Asn1Error UInt8 × DerReader :=
  match r.buf[r.pos]? with
  | none => (.error .truncated, r)
  | some b => (.ok b, r.advance 1)

end

/-- The loop of `read_length`, over the `n` bytes that are still to come. -/
def readLengthBytes : (n len : ℕ) → DerReader → Except Asn1Error ℕ × DerReader
  | 0, len, r => (.ok len, r)
  | n + 1, len, r =>
    match readByte r with
    | (.error e, r) => (.error e, r)
    | (.ok b, r) => readLengthBytes n (len <<< 8 ||| b.toNat) r

/-- What `read_length` does behind the first byte. -/
def readLengthFrom (first : UInt8) (r : DerReader) : Except Asn1Error ℕ × DerReader :=
  if first < 0x80 then (.ok first.toNat, r)
  else if first = 0x80 then (.error .badLength, r)
  else
    let n := (first &&& 0x7F).toNat
    if n = 0 ∨ 4 < n then (.error .badLength, r) else readLengthBytes n 0 r

section
variable (r : DerReader)

def readLength : Except Asn1Error ℕ × DerReader :=
  match readByte r with
  | (.error e, r) => (.error e, r)
  | (.ok first, r) => readLengthFrom first r

def readValue (len : ℕ) (r : DerReader) : Except Asn1Error Bytes × DerReader :=
  if r.buf.length < r.pos + len then (.error .truncated, r)
  else (.ok (slice r.buf r.pos len), r.advance len)

def readTlv : Except Asn1Error (UInt8 × Bytes) × DerReader :=
  match readByte r with
  | (.error e, r₁) => (.error e, r₁)
  | (.ok tag, r₁) =>
    if tag &&& 0x1F = 0x1F then (.error (.unsupported "long-form tag"), r₁)
    else
      match readLength r₁ with
      | (.error e, r₂) => (.error e, r₂)
      | (.ok len, r₂) =>
        match readValue len r₂ with
        -- of all errors only this one rewinds
        | (.error e, _) => (.error e, r)
        | (.ok value, r₃) => (.ok (tag, value), r₃)

def readTagged (expected : UInt8) (r : DerReader) : Except Asn1Error Bytes × DerReader :=
  match readTlv r with
  | (.error e, r') => (.error e, r')
  | (.ok (tag, value), r') =>
    if tag ≠ expected then (.error (.unexpectedTag expected tag), r) else (.ok value, r')

def peekTag : Option UInt8 := r.buf[r.pos]?

def readSequence : Except Asn1Error DerReader × DerReader :=
  match readTagged Tag.sequence r with
  | (.error e, r) => (.error e, r)
  | (.ok value, r) => (.ok (new value), r)

def readSet : Except Asn1Error DerReader × DerReader :=
  match readTagged Tag.set r with
  | (.error e, r) => (.error e, r)
  | (.ok value, r) => (.ok (new value), r)

def readIntegerBytes : Except Asn1Error Bytes × DerReader :=
  readTagged Tag.integer r

/-- The checks of `read_u64` on the content of an INTEGER. -/
def integerToU64 : Bytes → Except Asn1Error UInt64
  | [] => .error (.invalidValue "empty INTEGER")
  | b :: bytes =>
    if b &&& 0x80 ≠ 0 then .error (.invalidValue "negative INTEGER")
    else
      let significant := if bytes ≠ [] ∧ b = 0 then bytes else b :: bytes
      if 8 < significant.length then .error (.invalidValue "INTEGER > u64")
      else .ok (significant.foldl (fun out b => out <<< 8 ||| b.toUInt64) 0)

def readU64 : Except Asn1Error UInt64 × DerReader :=
  match readIntegerBytes r with
  | (.error e, r) => (.error e, r)
  | (.ok bytes, r) => (integerToU64 bytes, r)

def readOid : Except Asn1Error Bytes × DerReader := readTagged Tag.oid r

/-- The checks of `read_bit_string` on its body. -/
def bitStringContent : Bytes → Except Asn1Error Bytes
  | [] => .error (.invalidValue "empty BIT STRING")
  | unused :: content => if unused ≠ 0 then .error .unsupportedBitString else .ok content

def readBitString : Except Asn1Error Bytes × DerReader :=
  match readTagged Tag.bitString r with
  | (.error e, r) => (.error e, r)
  | (.ok body, r) => (bitStringContent body, r)

def readOctetString : Except Asn1Error Bytes × DerReader :=
  readTagged Tag.octetString r

/-- The check of `read_null` on its value. -/
def nullContent (value : Bytes) : Except Asn1Error Unit :=
  if value.isEmpty then .ok () else .error (.invalidValue "NULL with non-empty value")

def readNull : Except Asn1Error Unit × DerReader :=
  match readTagged Tag.null r with
  | (.error e, r) => (.error e, r)
  | (.ok value, r) => (nullContent value, r)

/-- The checks of `read_bool` on its body. -/
def boolContent : Bytes → Except Asn1Error Bool
  | [0x00] => .ok false
  | [0xFF] => .ok true
  | [_] => .error (.invalidValue "BOOLEAN non-DER value")
  | _ => .error (.invalidValue "BOOLEAN length != 1")

def readBool : Except Asn1Error Bool × DerReader :=
  match readTagged Tag.boolean r with
  | (.error e, r) => (.error e, r)
  | (.ok body, r) => (boolContent body, r)

def skipOne : Except Asn1Error Unit × DerReader :=
  match readTlv r with
  | (.error e, r) => (.error e, r)
  | (.ok _, r) => (.ok (), r)

end

def maybeTagged (expected : UInt8) (r : DerReader) : Except Asn1Error (Option Bytes) × DerReader :=
  if peekTag r = some expected then
    match readTagged expected r with
    | (.error e, r) => (.error e, r)
    | (.ok value, r) => (.ok (some value), r)
  else (.ok none, r)

/-- The `?` operator on a call: the error is converted, and nobody uses the reader again. -/
def propagate {α ε : Type} (convert : Asn1Error → ε) :
    Except Asn1Error α × DerReader → Except ε (α × DerReader)
  | (.error e, _) => .error (convert e)
  | (.ok a, r) => .ok (a, r)

end DerReader

/-- The length fields, each with the length it stands for. The long form need not be the
shortest. -/
inductive LengthField : ℕ → Bytes → Prop
  | short {b : UInt8} (h : b < 0x80) : LengthField b.toNat [b]
  | long {first : UInt8} {digits : Bytes} (hfirst : first.toNat = 0x80 + digits.length)
      (hpos : 0 < digits.length) (hmax : digits.length ≤ 4) :
      LengthField (ofBe digits) (first :: digits)

namespace LengthField
variable {len : ℕ} {first : UInt8} {digits : Bytes}

theorem short_iff (h : first < 0x80) :
    LengthField len (first :: digits) ↔ digits = [] ∧ len = first.toNat := by
  constructor
  · intro hfield
    cases hfield with
    | short => exact ⟨rfl, rfl⟩
    | long hfirst =>
      have hlt : first.toNat < 128 := UInt8.lt_iff_toNat_lt.mp h
      omega
  · rintro ⟨rfl, rfl⟩
    exact .short h

theorem long_iff (h : ¬ first < 0x80) : LengthField len (first :: digits) ↔
    first.toNat = 0x80 + digits.length ∧ 0 < digits.length ∧ digits.length ≤ 4 ∧
      len = ofBe digits := by
  constructor
  · intro hfield
    cases hfield with
    | short hb => exact absurd hb h
    | long hfirst hpos hmax => exact ⟨hfirst, hpos, hmax, rfl⟩
  · rintro ⟨hfirst, hpos, hmax, rfl⟩
    exact .long hfirst hpos hmax

end LengthField

/-- The encodings of a value under a tag. -/
structure Tlv (tag : UInt8) (value word : Bytes) : Prop where
  shortForm : tag &&& 0x1F ≠ 0x1F
  encoded : ∃ field, LengthField value.length field ∧ word = tag :: field ++ value

theorem Tlv.ne_nil {tag : UInt8} {value word : Bytes} (h : Tlv tag value word) : word ≠ [] := by
  obtain ⟨field, _, rfl⟩ := h.encoded
  exact List.cons_ne_nil _ _

/-- The bytes are tagged values one behind the other, whatever they are. -/
abbrev Elements (elements : List (UInt8 × Bytes)) (raw : Bytes) : Prop :=
  Concat (fun element word => Tlv element.1 element.2 word) elements raw

namespace DerReader

theorem readByte_reads : Reads readByte fun b word => word = [b] := by
  intro r _ b r'
  have hhead : r.buf[r.pos]? = r.unread[0]? := by simp [Cursor.unread]
  unfold readByte
  rw [hhead]
  cases hu : r.unread with
  | nil => simp
  | cons x rest =>
    constructor
    · intro h
      cases h
      exact ⟨[b], rest, rfl, rfl, rfl⟩
    · rintro ⟨_, rest', rfl, heq, rfl⟩
      cases heq
      rfl

theorem shiftLeft_or_toNat (len : ℕ) (b : UInt8) : len <<< 8 ||| b.toNat = len * 256 + b.toNat := by
  rw [← Nat.shiftLeft_add_eq_or_of_lt b.toNat_lt, Nat.shiftLeft_eq]

theorem readLengthBytes_reads (n len : ℕ) : Reads (readLengthBytes n len) fun out digits =>
    digits.length = n ∧ out = digits.foldl (fun acc b => acc * 256 + b.toNat) len := by
  induction n generalizing len with
  | zero =>
    intro r _ out r'
    constructor
    · intro h
      cases h
      exact ⟨[], r.unread, ⟨rfl, rfl⟩, rfl, rfl⟩
    · rintro ⟨digits, _, ⟨hlen, rfl⟩, _, rfl⟩
      rw [List.length_eq_zero_iff.mp hlen]
      rfl
  | succ n ih =>
    have hseq : Reads (readLengthBytes (n + 1) len) _ :=
      readByte_reads.seq (fun b => ih (len <<< 8 ||| b.toNat))
        (fun r b r' h => by simp [readLengthBytes, h])
        (fun r e r' h => by simp [readLengthBytes, h])
    apply hseq.congr
    intro out word
    constructor
    · rintro ⟨b, _, digits, rfl, ⟨hlen, hout⟩, rfl⟩
      rw [hout, shiftLeft_or_toNat]
      exact ⟨congrArg Nat.succ hlen, rfl⟩
    · rintro ⟨hlen, hout⟩
      cases word with
      | nil => cases hlen
      | cons b digits =>
        refine ⟨b, [b], digits, rfl, ⟨Nat.succ.inj hlen, ?_⟩, rfl⟩
        rw [hout, shiftLeft_or_toNat]
        rfl

theorem and_7F_toNat {first : UInt8} (h : ¬ first < 0x80) :
    (first &&& 0x7F).toNat = first.toNat - 0x80 := by
  have hge : 128 ≤ first.toNat := UInt8.le_iff_toNat_le.mp (UInt8.not_lt.mp h)
  have hlt := first.toNat_lt
  rw [UInt8.toNat_and, show (0x7F : UInt8).toNat = 2 ^ 7 - 1 from rfl, Nat.and_two_pow_sub_one_eq_mod]
  omega

theorem readLengthFrom_reads (first : UInt8) :
    Reads (readLengthFrom first) fun len digits => LengthField len (first :: digits) := by
  by_cases hshort : first < 0x80
  · intro r _ len r'
    simp only [readLengthFrom, if_pos hshort, LengthField.short_iff hshort]
    constructor
    · intro h
      cases h
      exact ⟨[], r.unread, ⟨rfl, rfl⟩, rfl, rfl⟩
    · rintro ⟨_, _, ⟨rfl, rfl⟩, _, rfl⟩
      rfl
  · have hn := and_7F_toNat hshort
    by_cases hbad : (first &&& 0x7F).toNat = 0 ∨ 4 < (first &&& 0x7F).toNat
    · -- the reserved form and the long fields fail, and no field starts like that
      intro r _ len r'
      have herror : readLengthFrom first r = (.error .badLength, r) := by
        simp only [readLengthFrom, if_neg hshort, if_pos hbad, ite_self]
      rw [herror]
      constructor
      · nofun
      · rintro ⟨digits, _, hfield, _, _⟩
        obtain ⟨hfirst, _, _, _⟩ := (LengthField.long_iff hshort).mp hfield
        omega
    · have heq : readLengthFrom first = readLengthBytes (first &&& 0x7F).toNat 0 := by
        funext r
        have h80 : first ≠ 0x80 := fun h => hbad (.inl (by rw [h]; rfl))
        simp only [readLengthFrom, if_neg hshort, if_neg h80, if_neg hbad]
      rw [heq]
      apply (readLengthBytes_reads _ 0).congr
      intro len digits
      rw [LengthField.long_iff hshort, hn]
      have hge : 128 ≤ first.toNat := UInt8.le_iff_toNat_le.mp (UInt8.not_lt.mp hshort)
      constructor
      · rintro ⟨hlen, hout⟩
        exact ⟨by omega, by omega, by omega, hout⟩
      · rintro ⟨hfirst, _, _, hout⟩
        exact ⟨by omega, hout⟩

theorem readLength_reads : Reads readLength LengthField := by
  have hseq : Reads readLength _ := readByte_reads.seq readLengthFrom_reads
    (fun r first r' h => by simp [readLength, h]) (fun r e r' h => by simp [readLength, h])
  apply hseq.congr
  intro len field
  constructor
  · rintro ⟨first, _, digits, rfl, hfield, rfl⟩
    exact hfield
  · intro hfield
    cases field with
    | nil => cases hfield
    | cons first digits => exact ⟨first, [first], digits, rfl, hfield, rfl⟩

theorem readValue_reads (len : ℕ) :
    Reads (readValue len) fun value word => word = value ∧ value.length = len := by
  intro r hr value r'
  unfold Cursor.Valid at hr
  have hlen := r.length_unread
  unfold readValue
  constructor
  · intro h
    split at h
    · cases h
    · next hfits =>
      cases h
      have hslice : (slice r.buf r.pos len).length = len := by
        rw [slice, List.length_take, List.length_drop]
        omega
      exact ⟨_, r.unread.drop len, ⟨rfl, hslice⟩, (List.take_append_drop len r.unread).symm,
        by rw [hslice]⟩
  · rintro ⟨word, rest, ⟨rfl, hword⟩, hrest, rfl⟩
    have htake : slice r.buf r.pos len = word := by
      change r.unread.take len = word
      rw [hrest, List.take_left' hword]
    rw [hrest, List.length_append] at hlen
    rw [if_neg (by omega), htake, hword]

theorem readTlv_reads : Reads readTlv fun tlv word => Tlv tlv.1 tlv.2 word := by
  intro r hr ⟨tag, value⟩ r'
  constructor
  · intro h
    unfold readTlv at h
    split at h; · cases h
    next _ r₁ hbyte =>
    split at h; · cases h
    next hshort =>
    split at h; · cases h
    next len r₂ hlength =>
    split at h; · cases h
    next _ r₃ hvalue =>
    cases h
    obtain ⟨_, rfl, hu, rfl, hr₁⟩ := readByte_reads.word hr hbyte
    obtain ⟨field, hfield, hu₁, rfl, hr₂⟩ := readLength_reads.word hr₁ hlength
    obtain ⟨v, ⟨rfl, rfl⟩, hu₂, hr', _⟩ := (readValue_reads len).word hr₂ hvalue
    have hall : r.unread = tag :: field ++ v ++ r'.unread := by
      rw [hu, hu₁, hu₂]
      simp
    refine ⟨tag :: field ++ v, r'.unread, ⟨hshort, field, hfield, rfl⟩, hall, ?_⟩
    rw [hr', Cursor.advance_advance, Cursor.advance_advance]
    congr 1
    simp
    omega
  · rintro ⟨_, rest, ⟨hshort, field, hfield, rfl⟩, hrest, rfl⟩
    have hu : r.unread = [tag] ++ (field ++ (value ++ rest)) := by rw [hrest]; simp
    have hbyte := readByte_reads.ok hr rfl hu
    have hr₁ := hr.advance hu
    have hu₁ := Cursor.unread_advance hu
    have hlength := readLength_reads.ok hr₁ hfield hu₁
    have hvalue := (readValue_reads value.length).ok (hr₁.advance hu₁) ⟨rfl, rfl⟩
      (Cursor.unread_advance hu₁)
    simp only [readTlv, hbyte, if_neg hshort, hlength, hvalue]
    rw [Cursor.advance_advance, Cursor.advance_advance]
    congr 2
    simp
    omega

theorem readTagged_reads (tag : UInt8) : Reads (readTagged tag) (Tlv tag) := by
  have hcheck : Reads (readTagged tag) _ := readTlv_reads.check
    (f := fun tlv => if tlv.1 ≠ tag then .error (.unexpectedTag tag tlv.1) else .ok tlv.2)
    (fun r tlv r' h value r'' => by
      by_cases ht : tlv.1 = tag
      · simp [readTagged, h, ht, eq_comm]
      · simp [readTagged, h, ht])
    (fun r e r' h => by simp [readTagged, h])
  apply hcheck.congr
  intro value word
  constructor
  · rintro ⟨⟨tag', value'⟩, htlv, hvalue⟩
    split at hvalue
    · cases hvalue
    · next htag =>
      cases hvalue
      cases not_not.mp htag
      exact htlv
  · intro htlv
    exact ⟨(tag, value), htlv, if_neg (not_not_intro rfl)⟩

theorem readSequence_reads :
    Reads readSequence fun content word => ∃ value, Tlv Tag.sequence value word ∧
      content = new value := by
  have hcheck : Reads readSequence _ := (readTagged_reads Tag.sequence).check
    (f := fun value => .ok (new value))
    (fun r value r' h content r'' => by simp [readSequence, h, eq_comm])
    (fun r e r' h => by simp [readSequence, h])
  apply hcheck.congr
  intro content word
  simp [eq_comm]

end DerReader

/-- A value of less than 128 bytes, given in parts, under a tag. -/
def Sample.tlv (tag : UInt8) (parts : List Bytes) : Bytes :=
  tag :: UInt8.ofNat parts.flatten.length :: parts.flatten

end Desmos.Core
