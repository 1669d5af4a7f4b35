import Desmos.Core.Io
import Desmos.Library.Text
import Desmos.Proto.Crypto.Primitives

/-! # The private key file

A key file holds 32 raw bytes, or the 64 hex digits of the key with white space around
them. The loader accepts exactly these files.
-/
namespace Desmos.Core
open Library Proto

def hexByte (c : UInt8) : Except IoError UInt8 :=
  if 48 ≤ c ∧ c ≤ 57 then .ok (c - 48)
  else if 97 ≤ c ∧ c ≤ 102 then .ok (c - 97 + 10)
  else if 65 ≤ c ∧ c ≤ 70 then .ok (c - 65 + 10)
  else .error ⟨.invalidData, "invalid hex char"⟩

def decodeHexPairs : Bytes → Except IoError Bytes
  | [] => .ok []
  | [_] => .error ⟨.invalidData, "odd hex length"⟩
  | c₁ :: c₂ :: rest =>
    match hexByte c₁ with
    | .error e => .error e
    | .ok hi =>
      match hexByte c₂ with
      | .error e => .error e
      | .ok lo =>
        match decodeHexPairs rest with
        | .error e => .error e
        | .ok bytes => .ok ((hi <<< 4 ||| lo) :: bytes)

/-- The callers pass 64 digits. -/
def decodeHex32 (hex : Text) : Except IoError Key32 :=
  (decodeHexPairs hex.asBytes).map (ByteArr.ofBytes 32)

/-- `read` is what `std::fs::read` returned for the path. -/
def loadPrivateKey (read : Except IoError Bytes) : Except IoError X25519PrivateKey :=
  match read with
  | .error e => .error e
  | .ok data =>
    if data.length = 32 then .ok ⟨ByteArr.ofBytes 32 data⟩
    else match Text.fromUtf8 data with
    | none => .error ⟨.invalidData, "key file is not UTF-8"⟩
    | some text =>
      let hex := text.trim
      if hex.asBytes.length ≠ 64 then
        .error ⟨.invalidData, "expected 64 hex chars or 32 raw bytes, got " ++
          toString hex.asBytes.length ++ " chars"⟩
      else (decodeHex32 hex).map X25519PrivateKey.mk

def parsePublicKeyHex (hexStr : String) : Except IoError PublicKey :=
  let hex := Text.trim hexStr.toList
  if hex.asBytes.length ≠ 64 then
    .error ⟨.invalidData, "expected 64 hex chars for public key, got " ++
      toString hex.asBytes.length⟩
  else (decodeHex32 hex).map PublicKey.mk

def hexDigit (upper : Bool) (v : UInt8) : UInt8 :=
  if v < 10 then 48 + v else if upper = true then 55 + v else 87 + v

/-- `digits` spells `bytes` in hex, high digit first, in either case. -/
inductive SpellsHex : Bytes → Bytes → Prop
  | nil : SpellsHex [] []
  | cons (upper₁ upper₂ : Bool) (b : UInt8) {digits bytes : Bytes} (rest : SpellsHex digits bytes) :
    SpellsHex (hexDigit upper₁ (b / 16) :: hexDigit upper₂ (b % 16) :: digits) (b :: bytes)

/-- What a key file may look like. -/
inductive KeyFile : Bytes → Key32 → Prop
  | raw (key : Key32) : KeyFile key.toList key
  | hex (before after : Text) {digits : Bytes} {key : Key32}
    (hbefore : ∀ c ∈ before, Text.isWhitespace c = true)
    (hafter : ∀ c ∈ after, Text.isWhitespace c = true) (hdigits : SpellsHex digits key.toList) :
    KeyFile (before.asBytes ++ digits ++ after.asBytes) key

variable {v : UInt8} {digits bytes : Bytes} {key : Key32} {file : Bytes}

theorem hexByte_hexDigit (upper : Bool) (h : v < 16) : hexByte (hexDigit upper v) = .ok v := by
  have hall : ∀ n : Fin 16, ∀ upper, hexByte (hexDigit upper (UInt8.ofNat n)) =
      .ok (UInt8.ofNat n) := by decide
  have hv : v.toNat < 16 := UInt8.lt_iff_toNat_lt.mp h
  simpa using hall ⟨v.toNat, hv⟩ upper

theorem hexByte_ok {c : UInt8} (h : hexByte c = .ok v) :
    v < 16 ∧ ∃ upper, c = hexDigit upper v := by
  unfold hexByte at h
  split at h
  · next hc =>
    cases h
    refine ⟨by grind, false, ?_⟩
    rw [hexDigit, if_pos (by grind)]
    grind
  split at h
  · next hc =>
    cases h
    refine ⟨by grind, false, ?_⟩
    rw [hexDigit, if_neg (by grind), if_neg (by simp)]
    grind
  split at h
  · next hc =>
    cases h
    refine ⟨by grind, true, ?_⟩
    rw [hexDigit, if_neg (by grind), if_pos rfl]
    grind
  · simp at h

theorem hexDigit_ascii (upper : Bool) (h : v < 16) :
    hexDigit upper v < 128 ∧ Text.isWhitespace (Char.ofUInt8 (hexDigit upper v)) = false := by
  have hall : ∀ n : Fin 16, ∀ upper, hexDigit upper (UInt8.ofNat n) < 128 ∧
      Text.isWhitespace (Char.ofUInt8 (hexDigit upper (UInt8.ofNat n))) = false := by decide
  have hv : v.toNat < 16 := UInt8.lt_iff_toNat_lt.mp h
  simpa using hall ⟨v.toNat, hv⟩ upper

theorem nibbles {hi lo : UInt8} (hhi : hi < 16) (hlo : lo < 16) :
    (hi <<< 4 ||| lo) / 16 = hi ∧ (hi <<< 4 ||| lo) % 16 = lo := by
  have hall : ∀ n m : Fin 16, (UInt8.ofNat n <<< 4 ||| UInt8.ofNat m) / 16 = UInt8.ofNat n ∧
      (UInt8.ofNat n <<< 4 ||| UInt8.ofNat m) % 16 = UInt8.ofNat m := by decide
  simpa using hall ⟨hi.toNat, UInt8.lt_iff_toNat_lt.mp hhi⟩ ⟨lo.toNat, UInt8.lt_iff_toNat_lt.mp hlo⟩

theorem nibbles_join (b : UInt8) : b / 16 < 16 ∧ b % 16 < 16 ∧ (b / 16) <<< 4 ||| b % 16 = b := by
  have hb := b.toNat_lt
  have hhi : b / 16 < 16 := by
    change b.toNat / 16 < 16
    omega
  have hlo : b % 16 < 16 := by
    exact Nat.mod_lt _ (by decide)
  refine ⟨hhi, hlo, ?_⟩
  have h := nibbles hhi hlo
  have hd := congrArg UInt8.toNat h.1
  have hm := congrArg UInt8.toNat h.2
  rw [UInt8.toNat_div, UInt8.toNat_div] at hd
  rw [UInt8.toNat_mod, UInt8.toNat_mod] at hm
  apply UInt8.toNat_inj.mp
  calc ((b / 16) <<< 4 ||| b % 16).toNat
      = 16 * (((b / 16) <<< 4 ||| b % 16).toNat / 16) + ((b / 16) <<< 4 ||| b % 16).toNat % 16 :=
        (Nat.div_add_mod _ 16).symm
    _ = 16 * (b.toNat / 16) + b.toNat % 16 := by
        rw [show UInt8.toNat 16 = 16 from rfl] at hd hm
        rw [hd, hm]
    _ = b.toNat := Nat.div_add_mod _ 16

/-- The decoder reads exactly the spellings. -/
theorem decodeHexPairs_ok_iff : decodeHexPairs digits = .ok bytes ↔ SpellsHex digits bytes := by
  constructor
  · intro h
    fun_induction decodeHexPairs digits generalizing bytes with
    | case1 =>
      cases h
      exact .nil
    | case2 => cases h
    | case3 => cases h
    | case4 => cases h
    | case5 => cases h
    | case6 c₁ c₂ rest hi hhi lo hlo tail htail ih =>
      cases h
      obtain ⟨hi16, upper₁, rfl⟩ := hexByte_ok hhi
      obtain ⟨lo16, upper₂, rfl⟩ := hexByte_ok hlo
      have hn := nibbles hi16 lo16
      have hs := SpellsHex.cons upper₁ upper₂ (hi <<< 4 ||| lo) (ih htail)
      rwa [hn.1, hn.2] at hs
  · intro h
    induction h with
    | nil => rfl
    | cons upper₁ upper₂ b rest ih =>
      obtain ⟨hhi, hlo, hj⟩ := nibbles_join b
      simp only [decodeHexPairs, hexByte_hexDigit upper₁ hhi, hexByte_hexDigit upper₂ hlo, ih, hj]

theorem SpellsHex.length (h : SpellsHex digits bytes) : digits.length = 2 * bytes.length := by
  induction h with
  | nil => rfl
  | cons _ _ _ _ ih =>
    simp only [List.length_cons, ih]
    ring

theorem SpellsHex.ascii (h : SpellsHex digits bytes) :
    ∀ c ∈ digits, c < 128 ∧ Text.isWhitespace (Char.ofUInt8 c) = false := by
  induction h with
  | nil => simp
  | cons upper₁ upper₂ b rest ih =>
    obtain ⟨hhi, hlo, -⟩ := nibbles_join b
    intro c hc
    rcases List.mem_cons.mp hc with rfl | hc
    · exact hexDigit_ascii upper₁ hhi
    rcases List.mem_cons.mp hc with rfl | hc
    · exact hexDigit_ascii upper₂ hlo
    · exact ih c hc

theorem decodeHex32_ok_iff {hex : Text} (h : hex.asBytes.length = 64) :
    decodeHex32 hex = .ok key ↔ SpellsHex hex.asBytes key.toList := by
  rw [← decodeHexPairs_ok_iff, decodeHex32]
  cases hd : decodeHexPairs hex.asBytes with
  | error e => simp [Except.map]
  | ok bytes =>
    have hlen : bytes.length = 32 := by
      have := (decodeHexPairs_ok_iff.mp hd).length
      omega
    simp only [Except.map, Except.ok.injEq]
    constructor
    · rintro rfl
      exact (ByteArr.toList_ofBytes hlen).symm
    · rintro rfl
      exact ByteArr.ofBytes_toList key

theorem KeyFile.of_load (h : loadPrivateKey (.ok file) = .ok ⟨key⟩) : KeyFile file key := by
  simp only [loadPrivateKey] at h
  split at h
  · next hlen =>
    obtain rfl : ByteArr.ofBytes 32 file = key := by simpa using h
    have hraw := KeyFile.raw (ByteArr.ofBytes 32 file)
    rwa [ByteArr.toList_ofBytes hlen] at hraw
  · split at h
    · cases h
    next text htext =>
    split at h
    · cases h
    next hlen =>
    obtain ⟨before, after, hs, hbefore, hafter⟩ := text.eq_append_trim
    have hd : decodeHex32 text.trim = .ok key := by
      cases hd : decodeHex32 text.trim with
      | error e => simp [hd, Except.map] at h
      | ok k => simpa [hd, Except.map] using h
    have hspell := (decodeHex32_ok_iff (not_ne_iff.mp hlen)).mp hd
    have hfile := KeyFile.hex before after hbefore hafter hspell
    rwa [← Text.asBytes_append, ← Text.asBytes_append, ← hs,
      ← Text.fromUtf8_eq_some_iff.mp htext] at hfile

theorem KeyFile.load (h : KeyFile file key) : loadPrivateKey (.ok file) = .ok ⟨key⟩ := by
  cases h with
  | raw => simp [loadPrivateKey]
  | @hex before after digits _ hbefore hafter hdigits =>
    have hlen : digits.length = 64 := by simpa using hdigits.length
    have hascii := Text.asBytes_ofAscii fun c hc => (hdigits.ascii c hc).1
    have htrim : Text.trim (before ++ Text.ofAscii digits ++ after) = Text.ofAscii digits := by
      apply Text.trim_append hbefore _ hafter
      intro c hc
      obtain ⟨b, hb, rfl⟩ := List.mem_map.mp hc
      exact (hdigits.ascii b hb).2
    have htext : Text.fromUtf8 (before.asBytes ++ digits ++ after.asBytes) =
        some (before ++ Text.ofAscii digits ++ after) := by
      rw [Text.fromUtf8_eq_some_iff, Text.asBytes_append, Text.asBytes_append, hascii]
    have hd : decodeHex32 (Text.ofAscii digits) = .ok key := by
      rw [decodeHex32_ok_iff (by rw [hascii, hlen]), hascii]
      exact hdigits
    have hne : (before.asBytes ++ digits ++ after.asBytes).length ≠ 32 := by
      simp only [List.length_append]
      omega
    simp only [loadPrivateKey, if_neg hne, htext, htrim, hascii, hlen, hd, ne_eq,
      not_true_eq_false, if_false, Except.map]

/-- The loader accepts a file exactly if it encodes a key, and then it returns that key. -/
theorem loadPrivateKey_ok_iff : loadPrivateKey (.ok file) = .ok ⟨key⟩ ↔ KeyFile file key :=
  ⟨KeyFile.of_load, KeyFile.load⟩

end Desmos.Core
