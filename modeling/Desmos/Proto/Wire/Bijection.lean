import Desmos.Proto.Wire

/-! # The header codec is a bijection up to the reserved byte

A byte string is accepted by its length and its first byte alone. The bytes of an accepted header
are those it was read from, with the reserved byte cleared.
-/
namespace Desmos.Proto
open Library

namespace PacketType

theorem asNibble_of_fromNibble {n : UInt8} {t : PacketType} (h : fromNibble n = .ok t) :
    t.asNibble = n := by
  unfold fromNibble at h
  split_ifs at h with h0 h1 h2 h3 h4
  all_goals
    cases h
    symm
    assumption

theorem fromNibble_error_iff {n : UInt8} : (∃ e, fromNibble n = .error e) ↔ 4 < n := by
  unfold fromNibble
  split_ifs with h0 h1 h2 h3 h4
  · simp [h0]
  · simp [h1]
  · simp [h2]
  · simp [h3]
  · simp [h4]
  · have hlarge : 4 < n := by grind
    simp [hlarge]

end PacketType

theorem join_nibbles (b : UInt8) :
    ((((b >>> 4) &&& 0x0f) &&& 0x0f) <<< 4) ||| ((b &&& 0x0f) &&& 0x0f) = b := by
  have hall : ∀ n < 256, ((((UInt8.ofNat n >>> 4) &&& 0x0f) &&& 0x0f) <<< 4) |||
      ((UInt8.ofNat n &&& 0x0f) &&& 0x0f) = UInt8.ofNat n := by
    decide +kernel
  have hb := hall b.toNat b.toNat_lt
  rwa [UInt8.ofNat_toNat] at hb

namespace Header

theorem bytes_of_decode {bs : Bytes} {h : Header} (hok : decode bs = .ok h) :
    h.bytes = bs.take 15 ++ [0] := by
  unfold decode at hok
  split at hok
  · cases hok
  · next hlen =>
    match bs, Nat.le_of_not_lt hlen with
    | b0 :: b1 :: b2 :: b3 :: b4 :: b5 :: b6 :: b7 :: b8 :: b9 :: b10 :: b11 :: b12 :: b13 ::
        b14 :: b15 :: rest, _ =>
      simp only [List.getD_cons_zero, List.getD_cons_succ] at hok
      split at hok
      · cases hok
      split at hok
      · cases hok
      · next t htype =>
        cases hok
        have hnibble := PacketType.asNibble_of_fromNibble htype
        simp only [bytes, hnibble, join_nibbles, slice, List.drop_succ_cons, List.drop_zero,
          List.take_succ_cons, List.take_zero]
        rw [toBe_ofBe_uint16 rfl, toBe_ofBe_uint32 rfl, toBe_ofBe_uint32 rfl, toBe_ofBe_uint16 rfl]
        rfl

theorem decode_error_iff (bs : Bytes) : (∃ e, decode bs = .error e) ↔
    bs.length < headerLen ∨ (bs.getD 0 0 >>> 4) &&& 0x0f ≠ wireVersion ∨
      4 < bs.getD 0 0 &&& 0x0f := by
  unfold decode
  by_cases hlen : bs.length < headerLen
  · simp [hlen]
  by_cases hversion : (bs.getD 0 0 >>> 4) &&& 0x0f = wireVersion
  · have htype := @PacketType.fromNibble_error_iff (bs.getD 0 0 &&& 0x0f)
    simp only [hversion, ne_eq, not_true, if_false, hlen, false_or, ← htype]
    cases PacketType.fromNibble (bs.getD 0 0 &&& 0x0f) with
    | error e => simp
    | ok t => simp
  · simp only [if_neg hlen, ne_eq, hversion, not_false_eq_true, if_true, true_or, or_true, iff_true]
    exact ⟨_, rfl⟩

/-- What is written of a header of this version is read back, whatever was in the buffer and is
left behind it; what is read is written back, with the reserved byte cleared; and no string is
refused but for its length, its version or its type. -/
theorem codec_bijective :
    (∀ (h : Header) (out : Bytes), h.version = wireVersion → headerLen ≤ out.length →
      ∃ written : Bytes, written.length = headerLen ∧
        h.encode out = (.ok headerLen, written ++ out.drop headerLen) ∧
        decode (h.encode out).2 = .ok h) ∧
    (∀ (bs : Bytes) (h : Header) (out : Bytes), decode bs = .ok h → headerLen ≤ out.length →
      (h.encode out).2.take headerLen = bs.take 15 ++ [0]) ∧
    (∀ bs : Bytes, (∃ e, decode bs = .error e) ↔
      bs.length < headerLen ∨ (bs.getD 0 0 >>> 4) &&& 0x0f ≠ wireVersion ∨
        4 < bs.getD 0 0 &&& 0x0f) := by
  refine ⟨fun h out hversion hout => ?_, fun bs h out hok hout => ?_, decode_error_iff⟩
  · rw [encode_ok h hout]
    exact ⟨h.bytes, bytes_length h, rfl, decode_bytes_append h hversion _⟩
  · rw [encode_ok h hout, List.take_left' (bytes_length h), bytes_of_decode hok]

end Header

end Desmos.Proto
