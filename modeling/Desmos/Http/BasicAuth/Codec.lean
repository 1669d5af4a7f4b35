import Desmos.Http.BasicAuth
import Desmos.Library.TextSearch

/-! # Credentials as text

The login reads back what it writes: bytes in Base64, password hashes, and the user name and
password of a Basic header.
-/
namespace Desmos.Http
open Library

def decodeBasicAuth (headerValue : String) : Option (String × String) := do
  let rest ← headerValue.toList.dropPrefix? "Basic ".toList
  let encoded := Text.trim rest
  let decoded ← base64Decode encoded
  let text ← Text.fromUtf8 decoded
  let (user, pass) ← Text.splitOnce ':' text
  some (String.ofList user, String.ofList pass)

/-- The header with which a client names a user and their password. -/
def basicHeader (user pass : String) : String :=
  String.ofList ("Basic ".toList ++ base64Encode (Text.asBytes (user.toList ++ ':' :: pass.toList)))

theorem base64Digit_spec (n : ℕ) : (base64Digit n).toNat < 128 ∧
    base64Val (UInt8.ofNat (base64Digit n).toNat) = some (n % 64) ∧
    Text.isWhitespace (base64Digit n) = false := by
  have hdigits : ∀ k < 64, (alphabet.getD k 'A').toNat < 128 ∧
      base64Val (UInt8.ofNat (alphabet.getD k 'A').toNat) = some k ∧
      Text.isWhitespace (alphabet.getD k 'A') = false := by decide +kernel
  have hmask : n &&& 0x3F = n % 64 := Nat.and_two_pow_sub_one_eq_mod n 6
  rw [base64Digit, hmask]
  exact hdigits _ (Nat.mod_lt n (by decide))

theorem base64Digit_ne {c : Char} (h : base64Val (UInt8.ofNat c.toNat) = none) (n : ℕ) :
    base64Digit n ≠ c := by
  rintro rfl
  rw [(base64Digit_spec n).2.1] at h
  cases h

theorem decodeLoop_digit (buf bits n : ℕ) (s : Text) :
    base64DecodeLoop buf bits (Text.asBytes (base64Digit n :: s)) =
      if 2 ≤ bits then
        (base64DecodeLoop ((buf * 64 + n % 64) % 2 ^ (bits - 2)) (bits - 2) (Text.asBytes s)).map
          (UInt8.ofNat ((buf * 64 + n % 64) / 2 ^ (bits - 2)) :: ·)
      else base64DecodeLoop (buf * 64 + n % 64) (bits + 6) (Text.asBytes s) := by
  obtain ⟨hascii, hval, -⟩ := base64Digit_spec n
  have hbuf : buf <<< 6 ||| n % 64 = buf * 64 + n % 64 := by
    rw [← Nat.shiftLeft_add_eq_or_of_lt (Nat.mod_lt n (by decide)) buf, Nat.shiftLeft_eq]
  rw [Text.asBytes_cons, Text.utf8EncodeChar_ascii hascii, List.singleton_append,
    base64DecodeLoop, hval]
  dsimp only
  rw [hbuf, Nat.shiftLeft_eq, one_mul, Nat.and_two_pow_sub_one_eq_mod, Nat.shiftRight_eq_div_pow,
    show bits + 6 - 8 = bits - 2 by omega]
  exact if_congr (by omega) rfl rfl

theorem decodeLoop_byte {buf bits n rest : ℕ} {b : UInt8} (s : Text)
    (h : buf * 64 + n % 64 = b.toNat * 2 ^ bits + rest) (hrest : rest < 2 ^ bits) :
    base64DecodeLoop buf (bits + 2) (Text.asBytes (base64Digit n :: s)) =
      (base64DecodeLoop rest bits (Text.asBytes s)).map (b :: ·) := by
  have hbyte : (b.toNat * 2 ^ bits + rest) / 2 ^ bits = b.toNat := by
    rw [Nat.mul_comm, Nat.mul_add_div (Nat.two_pow_pos bits), Nat.div_eq_of_lt hrest, Nat.add_zero]
  rw [decodeLoop_digit, if_pos (Nat.le_add_left 2 bits), Nat.add_sub_cancel, h,
    Nat.mul_add_mod_of_lt hrest, hbyte, UInt8.ofNat_toNat]

section Chunk
variable (a b c : UInt8) (s : Text)

/-- The number that the digits of a chunk spell. -/
def triple : ℕ := a.toNat <<< 16 ||| b.toNat <<< 8 ||| c.toNat

theorem triple_eq : triple a b c = a.toNat * 65536 + b.toNat * 256 + c.toNat := by
  have hc : c.toNat < 2 ^ 8 := c.toNat_lt
  have hbc : b.toNat <<< 8 + c.toNat < 2 ^ 16 := by
    have := b.toNat_lt
    omega
  rw [triple, Nat.or_assoc, ← Nat.shiftLeft_add_eq_or_of_lt hc,
    ← Nat.shiftLeft_add_eq_or_of_lt hbc, Nat.shiftLeft_eq, Nat.shiftLeft_eq]
  omega

theorem decodeLoop_first :
    base64DecodeLoop 0 0 (Text.asBytes
      (base64Digit (triple a b c >>> 18) :: base64Digit (triple a b c >>> 12) :: s)) =
    (base64DecodeLoop (b.toNat / 16) 4 (Text.asBytes s)).map (a :: ·) := by
  have hb := b.toNat_lt
  rw [decodeLoop_digit, if_neg (by decide)]
  apply decodeLoop_byte s
  · rw [triple_eq, Nat.shiftRight_eq_div_pow, Nat.shiftRight_eq_div_pow]
    have := a.toNat_lt
    have := c.toNat_lt
    omega
  · omega

theorem decodeLoop_second :
    base64DecodeLoop (b.toNat / 16) 4 (Text.asBytes (base64Digit (triple a b c >>> 6) :: s)) =
    (base64DecodeLoop (c.toNat / 64) 2 (Text.asBytes s)).map (b :: ·) := by
  have hc := c.toNat_lt
  apply decodeLoop_byte s
  · rw [triple_eq, Nat.shiftRight_eq_div_pow]
    omega
  · omega

theorem decodeLoop_third :
    base64DecodeLoop (c.toNat / 64) 2 (Text.asBytes (base64Digit (triple a b c) :: s)) =
    (base64DecodeLoop 0 0 (Text.asBytes s)).map (c :: ·) := by
  apply decodeLoop_byte s
  · rw [triple_eq]
    omega
  · decide

end Chunk

theorem base64Encode_digits (data : Bytes) : ∃ digits k,
    base64Encode data = digits ++ List.replicate k '=' ∧ (∀ c ∈ digits, ∃ n, c = base64Digit n) ∧
    base64DecodeLoop 0 0 (Text.asBytes digits) = some data := by
  unfold base64Encode
  induction data using chunks_induction (n := 3) (by decide) with
  | nil => exact ⟨[], 0, by simp, by simp, rfl⟩
  | cons l hl ih =>
    rw [chunks_of_pos (by decide) hl, List.flatMap_cons]
    match l, ih with
    | [a], _ =>
      let digits := [base64Digit (triple a 0 0 >>> 18), base64Digit (triple a 0 0 >>> 12)]
      have hlast : (chunks 3 (List.drop 3 [a])).flatMap encodeChunk = [] := by simp
      have hdigits : encodeChunk [a] = digits ++ List.replicate 2 '=' := rfl
      refine ⟨digits, 2, ?_, by simp [digits], ?_⟩
      · rw [hlast, List.append_nil]
        exact hdigits
      · rw [decodeLoop_first]
        rfl
    | [a, b], _ =>
      let digits := [base64Digit (triple a b 0 >>> 18), base64Digit (triple a b 0 >>> 12),
        base64Digit (triple a b 0 >>> 6)]
      have hlast : (chunks 3 (List.drop 3 [a, b])).flatMap encodeChunk = [] := by simp
      have hdigits : encodeChunk [a, b] = digits ++ List.replicate 1 '=' := rfl
      refine ⟨digits, 1, ?_, by simp [digits], ?_⟩
      · rw [hlast, List.append_nil]
        exact hdigits
      · rw [decodeLoop_first, decodeLoop_second]
        rfl
    | a :: b :: c :: l, ⟨rest, k, henc, hrest, hdec⟩ =>
      let digits := [base64Digit (triple a b c >>> 18), base64Digit (triple a b c >>> 12),
        base64Digit (triple a b c >>> 6), base64Digit (triple a b c)]
      refine ⟨digits ++ rest, k, ?_, ?_, ?_⟩
      · rw [henc, List.append_assoc]
        rfl
      · rw [List.forall_mem_append]
        exact ⟨by simp [digits], hrest⟩
      · change base64DecodeLoop 0 0 (Text.asBytes (_ :: _ :: _ :: _ :: rest)) = _
        rw [decodeLoop_first, decodeLoop_second, decodeLoop_third, hdec]
        rfl

theorem base64Decode_encode (data : Bytes) : base64Decode (base64Encode data) = some data := by
  obtain ⟨digits, k, henc, hdigit, hdec⟩ := base64Encode_digits data
  have hpad : '=' ∉ digits := by
    intro hmem
    obtain ⟨n, hn⟩ := hdigit _ hmem
    exact base64Digit_ne (by decide) n hn.symm
  rw [base64Decode, henc, Text.trimEndMatches_append_replicate hpad, hdec]

theorem not_mem_base64Encode {c : Char} (hc : base64Val (UInt8.ofNat c.toNat) = none)
    (hpad : c ≠ '=') (data : Bytes) : c ∉ base64Encode data := by
  obtain ⟨digits, k, henc, hdigit, -⟩ := base64Encode_digits data
  rw [henc, List.mem_append]
  rintro (hmem | hmem)
  · obtain ⟨n, rfl⟩ := hdigit _ hmem
    exact base64Digit_ne hc n rfl
  · exact hpad (List.eq_of_mem_replicate hmem)

theorem isWhitespace_base64Encode (data : Bytes) :
    ∀ c ∈ base64Encode data, Text.isWhitespace c = false := by
  obtain ⟨digits, k, henc, hdigit, -⟩ := base64Encode_digits data
  intro c hc
  rw [henc, List.mem_append] at hc
  rcases hc with hc | hc
  · obtain ⟨n, rfl⟩ := hdigit _ hc
    exact (base64Digit_spec n).2.2
  · rw [List.eq_of_mem_replicate hc]
    decide

theorem parsePhc_formatPhc (iterations : UInt32) (salt hash : Bytes) :
    parsePhc (String.ofList (formatPhc iterations salt hash)) = some (iterations, salt, hash) := by
  have hdollar : ∀ data, '$' ∉ base64Encode data := not_mem_base64Encode (by decide) (by decide)
  have hcount : '$' ∉ Nat.toDigits 10 iterations.toNat := by
    intro h
    cases Nat.isDigit_of_mem_toDigits (by decide) (by decide) h
  have hlead : "$pbkdf2-sha256$i=".toList = "$pbkdf2-sha256$".toList ++ "i=".toList := rfl
  unfold parsePhc formatPhc
  rw [String.toList_ofList, hlead]
  simp only [List.append_assoc, List.cons_append, Text.dropPrefix?_append, Option.bind_eq_bind,
    Option.bind_some]
  rw [Text.splitOnce_of_not_mem hcount]
  simp only [Option.bind_some]
  rw [Text.parseU32_toDigits, Option.bind_some, Text.splitOnce_of_not_mem (hdollar salt)]
  simp [base64Decode_encode]

theorem decodeBasicAuth_basicHeader {user : String} (h : ':' ∉ user.toList) (pass : String) :
    decodeBasicAuth (basicHeader user pass) = some (user, pass) := by
  obtain ⟨text, htext⟩ : ∃ text, text = user.toList ++ ':' :: pass.toList := ⟨_, rfl⟩
  have hutf8 : Text.fromUtf8 (Text.asBytes text) = some text := Text.fromUtf8_eq_some_iff.mpr rfl
  have hsplit : Text.splitOnce ':' text = some (user.toList, pass.toList) := by
    rw [htext, Text.splitOnce_of_not_mem h]
  unfold decodeBasicAuth basicHeader
  rw [String.toList_ofList, Text.dropPrefix?_append, ← htext]
  simp only [Option.bind_eq_bind, Option.bind_some]
  rw [Text.trim_eq_self (isWhitespace_base64Encode _), base64Decode_encode, Option.bind_some,
    hutf8, Option.bind_some, hsplit]
  simp

/-- What is written is read back: bytes, a password hash with its parameters, and the credentials
of a header. -/
theorem credentials_survive_encoding (pbkdf2 : Pbkdf2) :
    (∀ data, base64Decode (base64Encode data) = some data) ∧
    (∀ password salt iterations, iterations ≠ 0 → ∃ encoded,
      hashPassword pbkdf2 password salt iterations = some encoded ∧
      parsePhc encoded = some (iterations, salt, pbkdf2 iterations salt password hashLen)) ∧
    ∀ user pass : String, ':' ∉ user.toList →
      decodeBasicAuth (basicHeader user pass) = some (user, pass) := by
  refine ⟨base64Decode_encode, fun password salt iterations hne => ?_, fun user pass huser => ?_⟩
  · exact ⟨_, if_neg hne, parsePhc_formatPhc iterations salt _⟩
  · exact decodeBasicAuth_basicHeader huser pass

/-- A password may hold colons and characters beyond ASCII. -/
theorem colon_in_password_kept :
    decodeBasicAuth (basicHeader "admin" "é:key") = some ("admin", "é:key") :=
  (credentials_survive_encoding fun _ _ _ _ => []).2.2 "admin" "é:key" (by decide)

end Desmos.Http
