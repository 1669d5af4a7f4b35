import Mathlib.Data.List.TakeWhile
import Desmos.Library.Bytes

/-! # UTF-8 text

A string is the list of its characters, and its bytes are their UTF-8 encodings in
order. Decoding is the core library's; it answers on exactly the encodings.
-/
namespace Desmos.Library

abbrev Text := List Char

namespace Text

def asBytes (s : Text) : Bytes := s.flatMap String.utf8EncodeChar

def fromUtf8 (bs : Bytes) : Option Text := (ByteArray.utf8Decode? bs.toByteArray).map Array.toList

/-- The Unicode property `White_Space`. -/
def isWhitespace (c : Char) : Bool :=
  let n := c.toNat
  (0x09 ≤ n && n ≤ 0x0D) || n == 0x20 || n == 0x85 || n == 0xA0 || n == 0x1680 ||
    (0x2000 ≤ n && n ≤ 0x200A) || n == 0x2028 || n == 0x2029 || n == 0x202F || n == 0x205F ||
    n == 0x3000

def trim (s : Text) : Text := ((s.dropWhile isWhitespace).reverse.dropWhile isWhitespace).reverse

@[simp] theorem asBytes_append (s t : Text) : asBytes (s ++ t) = asBytes s ++ asBytes t := by
  simp [asBytes]

variable {bs : Bytes} {s : Text} {b : UInt8} {c : Char} {width n : ℕ}

theorem fromUtf8_eq_some_iff : fromUtf8 bs = some s ↔ bs = asBytes s := by
  constructor
  · intro h
    obtain ⟨chars, hd, rfl⟩ := Option.map_eq_some_iff.mp h
    have hdec : (ByteArray.utf8Decode? bs.toByteArray).isSome = true := by simp [hd]
    have henc := ByteArray.utf8Encode_get_utf8Decode? (h := hdec)
    simp only [hd, Option.get_some] at henc
    have hl := congrArg (fun b : ByteArray => b.data.toList) henc
    simpa [List.utf8Encode, asBytes] using hl.symm
  · rintro rfl
    have h : (asBytes s).toByteArray = List.utf8Encode s := rfl
    rw [fromUtf8, h, List.utf8Decode?_utf8Encode]
    simp

/-- Trimming takes white space off both ends. -/
theorem eq_append_trim (s : Text) : ∃ before after, s = before ++ trim s ++ after ∧
    (∀ c ∈ before, isWhitespace c = true) ∧ ∀ c ∈ after, isWhitespace c = true := by
  set rest := s.dropWhile isWhitespace with hrest
  refine ⟨s.takeWhile isWhitespace, (rest.reverse.takeWhile isWhitespace).reverse, ?_, ?_, ?_⟩
  · have hends : rest = trim s ++ (rest.reverse.takeWhile isWhitespace).reverse := by
      rw [trim, ← List.reverse_append, List.takeWhile_append_dropWhile, List.reverse_reverse]
    rw [List.append_assoc, ← hends, List.takeWhile_append_dropWhile]
  · intro c hc
    exact List.mem_takeWhile_imp hc
  · intro c hc
    exact List.mem_takeWhile_imp (List.mem_reverse.mp hc)

/-- Text without white space is what trimming leaves of it. -/
theorem trim_append {before after : Text} (hb : ∀ c ∈ before, isWhitespace c = true)
    (hs : ∀ c ∈ s, isWhitespace c = false) (ha : ∀ c ∈ after, isWhitespace c = true) :
    trim (before ++ s ++ after) = s := by
  have hkeep : ∀ t : Text, (∀ c ∈ t, isWhitespace c = false) → t.dropWhile isWhitespace = t := by
    intro t ht
    cases t with
    | nil => rfl
    | cons c t => simp [ht c List.mem_cons_self]
  cases s with
  | nil =>
    have hall : ∀ c ∈ before ++ [] ++ after, isWhitespace c = true := by
      intro c hc
      rcases List.mem_append.mp hc with hc | hc
      · exact hb c (by simpa using hc)
      · exact ha c hc
    rw [trim, List.dropWhile_eq_nil_iff.mpr hall]
    rfl
  | cons c s =>
    have hfront : (before ++ (c :: s) ++ after).dropWhile isWhitespace = c :: s ++ after := by
      rw [List.append_assoc, List.dropWhile_append_of_pos hb, List.cons_append,
        List.dropWhile_cons_of_neg (by simp [hs c List.mem_cons_self])]
    have hback : ((c :: s) ++ after).reverse.dropWhile isWhitespace = (c :: s).reverse := by
      rw [List.reverse_append, List.dropWhile_append_of_pos (fun d hd => ha d (by simpa using hd))]
      exact hkeep _ fun d hd => hs d (List.mem_reverse.mp hd)
    rw [trim, hfront, hback, List.reverse_reverse]

/-- The text of ASCII bytes. -/
def ofAscii (bs : Bytes) : Text := bs.map Char.ofUInt8

theorem toNat_ofUInt8 (b : UInt8) : (Char.ofUInt8 b).toNat = b.toNat := UInt8.toNat_toUInt32 b

theorem ofUInt8_injective : Function.Injective Char.ofUInt8 := by
  intro a b h
  have hval := congrArg Char.toNat h
  exact UInt8.toNat_inj.mp hval

theorem utf8EncodeChar_ofUInt8 (h : b < 128) : String.utf8EncodeChar (Char.ofUInt8 b) = [b] := by
  have hv : (Char.ofUInt8 b).val.toNat = b.toNat := toNat_ofUInt8 b
  have hb : b.toNat ≤ 127 := by
    have := UInt8.lt_iff_toNat_lt.mp h
    simp at this
    omega
  simp [String.utf8EncodeChar, hv, hb]

theorem asBytes_ofAscii (h : ∀ b ∈ bs, b < 128) : asBytes (ofAscii bs) = bs := by
  induction bs with
  | nil => rfl
  | cons b bs ih =>
    have hrest := ih fun c hc => h c (List.mem_cons_of_mem _ hc)
    simp only [asBytes, ofAscii, List.map_cons, List.flatMap_cons] at hrest ⊢
    rw [hrest, utf8EncodeChar_ofUInt8 (h b List.mem_cons_self), List.singleton_append]

theorem utf8EncodeChar_ascii (h : c.toNat < 128) :
    String.utf8EncodeChar c = [UInt8.ofNat c.toNat] := by
  have hle : c.toNat ≤ 127 := Nat.le_of_lt_succ h
  simp [String.utf8EncodeChar, hle]

/-- Every byte of a character beyond ASCII has its high bit set. -/
theorem high_of_mem_utf8EncodeChar (h : 128 ≤ c.toNat)
    (hb : b ∈ String.utf8EncodeChar c) : 128 ≤ b.toNat := by
  have hbyte : ∀ n, 128 ≤ n → n < 256 → 128 ≤ (UInt8.ofNat n).toNat := by
    intro n hlo hhi
    rw [UInt8.toNat_ofNat', Nat.mod_eq_of_lt hhi]
    exact hlo
  have hne : ¬ c.val.toNat ≤ 127 := Nat.not_le.mpr h
  simp only [String.utf8EncodeChar, hne, if_false] at hb
  split at hb
  · simp only [List.mem_cons, List.not_mem_nil, or_false] at hb
    rcases hb with rfl | rfl <;> apply hbyte <;> omega
  split at hb
  · simp only [List.mem_cons, List.not_mem_nil, or_false] at hb
    rcases hb with rfl | rfl | rfl <;> apply hbyte <;> omega
  · simp only [List.mem_cons, List.not_mem_nil, or_false] at hb
    rcases hb with rfl | rfl | rfl | rfl <;> apply hbyte <;> omega

theorem asBytes_injective : Function.Injective asBytes := by
  intro s t h
  have hs := fromUtf8_eq_some_iff.mpr (rfl : asBytes s = asBytes s)
  have ht := fromUtf8_eq_some_iff.mpr h
  exact Option.some.inj (hs.symm.trans ht)

@[simp] theorem asBytes_cons (c : Char) (s : Text) :
    asBytes (c :: s) = String.utf8EncodeChar c ++ asBytes s := rfl

@[simp] theorem asBytes_nil : asBytes [] = [] := rfl

theorem ofAscii_asBytes (h : ∀ c ∈ s, c.toNat < 128) : ofAscii (asBytes s) = s := by
  induction s with
  | nil => rfl
  | cons c s ih =>
    have hc := h c List.mem_cons_self
    have hchar : Char.ofUInt8 (UInt8.ofNat c.toNat) = c := by
      apply Char.toNat_inj.mp
      rw [toNat_ofUInt8, UInt8.toNat_ofNat']
      omega
    rw [asBytes_cons, utf8EncodeChar_ascii hc, List.singleton_append, ofAscii, List.map_cons, hchar]
    exact congrArg _ (ih fun d hd => h d (List.mem_cons_of_mem _ hd))

/-- `n` in decimal, filled up with zeros on the left. -/
def zeroPadded (width n : ℕ) : Text :=
  let digits := Nat.toDigits 10 n
  List.replicate (width - digits.length) '0' ++ digits

theorem isDigit_of_mem_zeroPadded (h : c ∈ zeroPadded width n) : c.isDigit = true := by
  rcases List.mem_append.mp h with h | h
  · rw [List.eq_of_mem_replicate h]
    rfl
  · exact Nat.isDigit_of_mem_toDigits (by decide) (by decide) h

theorem length_zeroPadded (hw : 0 < width) (hn : n < 10 ^ width) :
    (zeroPadded width n).length = width := by
  have hle := (Nat.length_toDigits_le_iff (b := 10) (by decide) hw).mpr hn
  rw [zeroPadded, List.length_append, List.length_replicate]
  omega

/-- `u8::is_ascii_digit`. -/
def isAsciiDigit (b : UInt8) : Bool := 0x30 ≤ b && b ≤ 0x39

theorem utf8EncodeChar_digit (h : c.isDigit = true) :
    ∃ b, String.utf8EncodeChar c = [b] ∧ isAsciiDigit b = true := by
  obtain ⟨hlo, hhi⟩ : 48 ≤ c.val ∧ c.val ≤ 57 := by simpa [Char.isDigit] using h
  have hhi' : c.toNat ≤ 57 := UInt32.le_iff_toNat_le.mp hhi
  have hlo' : 48 ≤ c.toNat := UInt32.le_iff_toNat_le.mp hlo
  have hsmall : c.toNat ≤ 127 := by omega
  refine ⟨UInt8.ofNat c.toNat, by simp [String.utf8EncodeChar, hsmall], ?_⟩
  have hb : (UInt8.ofNat c.toNat).toNat = c.toNat := by
    rw [UInt8.toNat_ofNat']
    omega
  simp only [isAsciiDigit, Bool.and_eq_true, decide_eq_true_eq, UInt8.le_iff_toNat_le, hb]
  exact ⟨hlo', hhi'⟩

/-- Digits take one byte each. -/
theorem asBytes_digits (h : ∀ c ∈ s, c.isDigit = true) :
    (asBytes s).length = s.length ∧ ∀ b ∈ asBytes s, isAsciiDigit b = true := by
  induction s with
  | nil => exact ⟨rfl, by simp [asBytes]⟩
  | cons c s ih =>
    obtain ⟨hlen, hall⟩ := ih fun d hd => h d (List.mem_cons_of_mem _ hd)
    obtain ⟨b, hb, hdigit⟩ := utf8EncodeChar_digit (h c List.mem_cons_self)
    have hcons : asBytes (c :: s) = b :: asBytes s := by
      simp [asBytes, hb]
    rw [hcons]
    refine ⟨by simp [hlen], fun d hd => ?_⟩
    rcases List.mem_cons.mp hd with rfl | hd
    · exact hdigit
    · exact hall d hd

/-- `str::split_once`: what stands before and behind the first separator. -/
def splitOnce (sep : Char) (s : Text) : Option (Text × Text) :=
  match s.dropWhile (· ≠ sep) with
  | [] => none
  | _ :: rest => some (s.takeWhile (· ≠ sep), rest)

/-- `str::trim_end_matches` for a character. -/
def trimEndMatches (c : Char) (s : Text) : Text := (s.reverse.dropWhile (· = c)).reverse

/-- `str::parse::<u32>`: digits, with or without a plus sign in front. -/
def parseU32 (s : Text) : Option UInt32 :=
  let digits := match s with
    | '+' :: digits => digits
    | _ => s
  if digits.isEmpty ∨ ¬ digits.all Char.isDigit then none
  else
    let n := digits.foldl (fun n c => n * 10 + (c.toNat - 48)) 0
    if n < 2 ^ 32 then some (UInt32.ofNat n) else none

end Text
end Desmos.Library
