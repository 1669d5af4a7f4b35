import Desmos.Core.Auth.X509

/-! # Headers of DER elements

The reader takes a length in more bytes than it needs. Of the encodings of a value that it takes,
one has the shortest length field, and only that one has the header that `der_header_len` counts.
-/
namespace Desmos.Core
open Library DerReader

def derLength (len : ℕ) : Bytes :=
  if len < 0x80 then [UInt8.ofNat len]
  else UInt8.ofNat (0x80 + (derHeaderLen len - 2)) :: toBe (derHeaderLen len - 2) len

theorem two_le_derHeaderLen (len : ℕ) : 2 ≤ derHeaderLen len := by
  unfold derHeaderLen
  dsimp only
  split_ifs <;> omega

theorem derHeaderLen_of_short {len : ℕ} (h : len < 0x80) : derHeaderLen len = 2 := by
  simp [derHeaderLen, h]

theorem length_derLength (len : ℕ) : 1 + (derLength len).length = derHeaderLen len := by
  unfold derLength
  split
  · next h => rw [derHeaderLen_of_short h, List.length_singleton]
  · have hle := two_le_derHeaderLen len
    rw [List.length_cons, toBe_length]
    omega

namespace LengthField
variable {len : ℕ} {field : Bytes}

theorem eq_derLength (h : LengthField len field) (hlen : 1 + field.length = derHeaderLen len) :
    field = derLength len := by
  cases h with
  | @short b hb =>
    have hshort : b.toNat < 0x80 := UInt8.lt_iff_toNat_lt.mp hb
    rw [derLength, if_pos hshort, UInt8.ofNat_toNat]
  | @long first digits hfirst hpos _ =>
    rw [List.length_cons] at hlen
    have hlong : ¬ ofBe digits < 0x80 := by
      intro hshort
      rw [derHeaderLen_of_short hshort] at hlen
      omega
    have hcount : derHeaderLen (ofBe digits) - 2 = digits.length := by omega
    rw [derLength, if_neg hlong, hcount, toBe_ofBe, ← hfirst, UInt8.ofNat_toNat]

end LengthField

/-- The reader takes the byte string as one element and is at its end. -/
def ReadsWhole (tag : UInt8) (value word : Bytes) : Prop :=
  readTlv (DerReader.new word) = (.ok (tag, value), ⟨word, word.length⟩)

theorem readsWhole_iff {tag : UInt8} {value word : Bytes} :
    ReadsWhole tag value word ↔ Tlv tag value word := by
  have hread := readTlv_reads (.start word) (Cursor.valid_start word) (tag, value)
    ⟨word, word.length⟩
  refine hread.trans ⟨?_, fun h => ⟨word, [], h, (List.append_nil word).symm, ?_⟩⟩
  · rintro ⟨front, rest, htlv, hword, hpos⟩
    have hlen : word.length = front.length := by
      simpa [Cursor.advance, Cursor.start] using congrArg Cursor.pos hpos
    rw [Cursor.unread_start] at hword
    have hrest : rest = [] := by
      have := congrArg List.length hword
      rw [List.length_append] at this
      exact List.length_eq_zero_iff.mp (by omega)
    rwa [hword, hrest, List.append_nil]
  · simp [Cursor.advance, Cursor.start]

theorem Tlv.eq_shortest_iff {tag : UInt8} {value word : Bytes} (h : Tlv tag value word) :
    word = tag :: derLength value.length ++ value ↔
      word.length = derHeaderLen value.length + value.length := by
  obtain ⟨field, hfield, rfl⟩ := h.encoded
  have hlen : (tag :: field ++ value).length = derHeaderLen value.length + value.length ↔
      1 + field.length = derHeaderLen value.length := by
    rw [List.length_append, List.length_cons]
    omega
  rw [hlen]
  constructor
  · intro heq
    have hfields : field = derLength value.length :=
      List.append_cancel_right (List.cons.inj heq).2
    rw [hfields, length_derLength]
  · intro hcount
    rw [hfield.eq_derLength hcount]

/-- Two strings that are accepted for one tag and value are equal and in the shortest form exactly
if their headers have the length that `der_header_len` counts. -/
theorem der_encodings_unique_iff (tag : UInt8) (value word₁ word₂ : Bytes)
    (h₁ : ReadsWhole tag value word₁) (h₂ : ReadsWhole tag value word₂) :
    (word₁ = word₂ ∧ word₁ = tag :: derLength value.length ++ value) ↔
      word₁.length = derHeaderLen value.length + value.length ∧
        word₂.length = derHeaderLen value.length + value.length := by
  rw [← (readsWhole_iff.mp h₁).eq_shortest_iff, ← (readsWhole_iff.mp h₂).eq_shortest_iff]
  constructor
  · rintro ⟨rfl, heq⟩
    exact ⟨heq, heq⟩
  · rintro ⟨heq₁, heq₂⟩
    exact ⟨heq₁.trans heq₂.symm, heq₁⟩

theorem shortest_octet_string : ([0x04, 0x01, 0x00] : Bytes) = 0x04 :: derLength 1 ++ [0x00] :=
  ((der_encodings_unique_iff 0x04 [0x00] [0x04, 0x01, 0x00] [0x04, 0x01, 0x00] rfl rfl).mpr
    (by decide)).2

/-- A length below 128 in two bytes, where one would do. -/
theorem long_length_accepted :
    ReadsWhole 0x04 [0x00] [0x04, 0x01, 0x00] ∧ ReadsWhole 0x04 [0x00] [0x04, 0x81, 0x01, 0x00] :=
  ⟨rfl, rfl⟩

end Desmos.Core
