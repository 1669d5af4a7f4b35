import Desmos.Http.Json
import Desmos.Library.TextSearch

/-! # Strings and numbers of JSON

What the decoder makes of an encoded string is a character for each byte of it, however its
characters were written. An encoded integer it reads up to what follows a value.
-/
namespace Desmos.Http.Json
open Library Desmos.Http.Json.Parser

variable {F α : Type}

/-- The parser takes a word for a value, whatever follows in `stop`. -/
def Takes (parse : Parser → Except JsonError (α × Parser)) (a : α) (word : Bytes)
    (stop : Bytes → Prop) : Prop :=
  ∀ p rest, p.unread = word ++ rest → stop rest → parse p = .ok (a, p.advance word.length)

theorem peek_eq (p : Parser) : peek p = p.unread.head? := by
  rw [peek, Cursor.unread, List.head?_drop]

variable {p : Parser} {b : UInt8} {rest : Bytes}

theorem peek_cons (h : p.unread = b :: rest) :
    peek p = some b := by
  rw [peek_eq, h, List.head?_cons]

theorem unread_advance_one (h : p.unread = b :: rest) :
    (p.advance 1).unread = rest := by
  have hword : p.unread = [b] ++ rest := h
  have hbehind := Cursor.unread_advance hword
  exact hbehind

theorem expect_ok (h : p.unread = b :: rest) :
    expect p b = .ok (p.advance 1) := by
  rw [expect, peek_cons h]
  exact if_pos rfl

variable {word : Bytes} {d fuel n : ℕ} {i : ℤ}

theorem skipWhile_append {q : UInt8 → Bool}
    (h : p.unread = word ++ rest) (hword : ∀ b ∈ word, q b = true)
    (hrest : ∀ b, rest.head? = some b → q b = false) :
    skipWhile q p = p.advance word.length := by
  have htake : rest.takeWhile q = [] := by
    cases rest with
    | nil => rfl
    | cons b rest => rw [List.takeWhile_cons_of_neg (by simp [hrest b rfl])]
  rw [skipWhile, h, List.takeWhile_append_of_pos hword, htake, List.append_nil]

theorem skipWhitespace_eq_self (h : ∀ b, p.unread.head? = some b → isSpace b = false) :
    skipWhitespace p = p := by
  have hnone : p.unread = [] ++ p.unread := rfl
  have hskip := skipWhile_append hnone (fun b hb => absurd hb List.not_mem_nil) h
  exact hskip

theorem parseLiteral_ok {value : Value F}
    (h : p.unread = word ++ rest) : parseLiteral value word p = .ok (value, p.advance word.length) := by
  induction word generalizing p with
  | nil => rfl
  | cons b word ih =>
    rw [parseLiteral, expect_ok h]
    have hrest : (p.advance 1).unread = word ++ rest := unread_advance_one h
    exact (ih hrest).trans (by rw [Cursor.advance_advance, List.length_cons, Nat.add_comm])

def bytesAsChars (s : Text) : Text := Text.ofAscii (Text.asBytes s)

def hexByte (d : ℕ) : UInt8 := ascii (Nat.digitChar d)

theorem hexValue_hexByte (h : d < 16) : hexValue (hexByte d) = some d := by
  have hall : ∀ d < 16, hexValue (hexByte d) = some d := by decide
  exact hall d h

variable {c : Char}

theorem asBytes_unicodeEscape (h : c.toNat < 32) :
    Text.asBytes (unicodeEscape c) = [ascii '\x5c', ascii 'u', hexByte 0, hexByte 0,
      hexByte (c.toNat / 16), hexByte (c.toNat % 16)] := by
  have hall : ∀ n < 32, Text.asBytes (unicodeEscape (Char.ofNat n)) = [ascii '\x5c', ascii 'u',
      hexByte 0, hexByte 0, hexByte (n / 16), hexByte (n % 16)] := by decide
  have hc := hall c.toNat h
  rwa [Char.ofNat_toNat] at hc

theorem parseHex_step {start digits val : ℕ} (hd : d < 16) (h : p.unread = hexByte d :: rest) :
    parseHex start (digits + 1) val p = parseHex start digits (val * 16 + d) (p.advance 1) := by
  rw [parseHex, peek_cons h]
  simp only [hexValue_hexByte hd]

theorem parseHex4_ok {d₁ d₂ d₃ d₄ : ℕ} (h₁ : d₁ < 16) (h₂ : d₂ < 16)
    (h₃ : d₃ < 16) (h₄ : d₄ < 16)
    (h : p.unread = hexByte d₁ :: hexByte d₂ :: hexByte d₃ :: hexByte d₄ :: rest) :
    parseHex4 p = .ok ((((0 * 16 + d₁) * 16 + d₂) * 16 + d₃) * 16 + d₄, p.advance 4) := by
  have hp₁ := unread_advance_one h
  have hp₂ := unread_advance_one hp₁
  have hp₃ := unread_advance_one hp₂
  rw [parseHex4, parseHex_step h₁ h, parseHex_step h₂ hp₁, parseHex_step h₃ hp₂,
    parseHex_step h₄ hp₃]
  rfl

variable {s : Text} {p' : Parser}

theorem parseChars_byte
    (h : p.unread = b :: rest) (hquote : b ≠ ascii '\x22') (hback : b ≠ ascii '\x5c')
    (hrest : parseChars fuel (p.advance 1) = .ok (s, p')) :
    parseChars (fuel + 1) p = .ok (Char.ofUInt8 b :: s, p') := by
  simp only [parseChars, peek_cons h, if_neg hquote, if_neg hback, hrest, bind, Except.bind]

theorem parseChars_escape (h : p.unread = ascii '\x5c' :: rest)
    (hescape : parseEscape (p.advance 1) = .ok (c, p.advance n))
    (hrest : parseChars fuel (p.advance n) = .ok (s, p')) :
    parseChars (fuel + 1) p = .ok (c :: s, p') := by
  have hquote : ascii '\x5c' ≠ ascii '\x22' := by decide
  simp only [parseChars, peek_cons h, if_neg hquote, if_true, hescape, hrest, bind, Except.bind]

theorem parseEscape_simple
    (h : p.unread = b :: rest) (hc : simpleEscapes.lookup b = some c) :
    parseEscape p = .ok (c, p.advance 1) := by
  simp only [parseEscape, peek_cons h, hc]

theorem charFromU32_toNat (escPos : ℕ) (c : Char) : charFromU32 escPos c.toNat = .ok c := by
  have hvalid : c.toNat.isValidChar := c.valid
  rw [charFromU32, if_pos hvalid, Char.ofNat_toNat]

theorem parseEscape_unicode (hc : c.toNat < 32)
    (h : p.unread = ascii 'u' :: hexByte 0 :: hexByte 0 :: hexByte (c.toNat / 16) ::
      hexByte (c.toNat % 16) :: rest) : parseEscape p = .ok (c, p.advance 5) := by
  have hlookup : simpleEscapes.lookup (ascii 'u') = none := by decide
  have hhex := parseHex4_ok (by decide) (by decide) (by omega) (by omega) (unread_advance_one h)
  have hvalue : (((0 * 16 + 0) * 16 + 0) * 16 + c.toNat / 16) * 16 + c.toNat % 16 = c.toNat := by
    omega
  have hlow : ¬ (0xD800 ≤ c.toNat ∧ c.toNat ≤ 0xDBFF) := by omega
  rw [hvalue] at hhex
  have hunicode : parseUnicode p.pos (p.advance 1) = .ok (c, p.advance 5) := by
    rw [parseUnicode, hhex]
    change (if 0xD800 ≤ c.toNat ∧ c.toNat ≤ 0xDBFF then _ else _) = _
    rw [if_neg hlow, charFromU32_toNat]
    rfl
  rw [parseEscape, peek_cons h]
  exact hunicode

theorem bytesAsChars_append (s t : Text) :
    bytesAsChars (s ++ t) = bytesAsChars s ++ bytesAsChars t := by
  simp [bytesAsChars, Text.ofAscii]

theorem bytesAsChars_of_ascii (h : ∀ c ∈ s, c.toNat < 128) : bytesAsChars s = s :=
  Text.ofAscii_asBytes h

/-- From `p` on, the rest of a string is read as `s`. -/
def ReadsChars (p : Parser) (s : Text) (p' : Parser) : Prop :=
  ∀ fuel, p.unread.length < fuel → parseChars fuel p = .ok (s, p')

theorem ReadsChars.bytes
    (h : p.unread = word ++ rest) (hword : ∀ b ∈ word, b ≠ ascii '\x22' ∧ b ≠ ascii '\x5c')
    (hrest : ReadsChars (p.advance word.length) s p') :
    ReadsChars p (word.map Char.ofUInt8 ++ s) p' := by
  induction word generalizing p with
  | nil => exact hrest
  | cons b word ih =>
    intro fuel hfuel
    obtain ⟨fuel, rfl⟩ : ∃ n, fuel = n + 1 := ⟨fuel - 1, by omega⟩
    obtain ⟨hb, hword⟩ := List.forall_mem_cons.mp hword
    have hp : (p.advance 1).unread = word ++ rest := unread_advance_one h
    have htail : ReadsChars (p.advance 1) (word.map Char.ofUInt8 ++ s) p' := by
      refine ih hp hword ?_
      rwa [Cursor.advance_advance, Nat.add_comm]
    refine parseChars_byte h hb.1 hb.2 (htail fuel ?_)
    rw [h, List.cons_append, List.length_cons] at hfuel
    rw [hp]
    omega

theorem ReadsChars.escape
    (h : p.unread = ascii '\x5c' :: (word ++ rest))
    (hescape : parseEscape (p.advance 1) = .ok (c, p.advance (word.length + 1)))
    (hrest : ReadsChars (p.advance (word.length + 1)) s p') : ReadsChars p (c :: s) p' := by
  intro fuel hfuel
  obtain ⟨fuel, rfl⟩ : ∃ n, fuel = n + 1 := ⟨fuel - 1, by omega⟩
  refine parseChars_escape h hescape (hrest fuel ?_)
  have hword : p.unread = (ascii '\x5c' :: word) ++ rest := h
  have hp : (p.advance (word.length + 1)).unread = rest := by
    have hbehind := Cursor.unread_advance hword
    exact hbehind
  rw [h, List.length_cons, List.length_append] at hfuel
  rw [hp]
  omega

theorem ReadsChars.simpleEscape
    (h : p.unread = [ascii '\x5c', b] ++ rest) (hc : simpleEscapes.lookup b = some c)
    (hrest : ReadsChars (p.advance 2) s p') : ReadsChars p (c :: s) p' :=
  .escape (h : p.unread = ascii '\x5c' :: ([b] ++ rest)) (parseEscape_simple (unread_advance_one h) hc) hrest

theorem ne_of_mem_utf8EncodeChar (hb : b ∈ String.utf8EncodeChar c)
    (hquote : c ≠ '\x22') (hback : c ≠ '\x5c') : b ≠ ascii '\x22' ∧ b ≠ ascii '\x5c' := by
  by_cases hc : c.toNat < 128
  · rw [Text.utf8EncodeChar_ascii hc, List.mem_singleton] at hb
    have hbyte : ∀ d : Char, d.toNat < 128 → b = ascii d → c = d := by
      intro d hd hbd
      have hnat := congrArg UInt8.toNat (hb.symm.trans hbd)
      simp only [ascii, UInt8.toNat_ofNat'] at hnat
      apply Char.ext
      apply UInt32.toNat_inj.mp
      change c.toNat = d.toNat
      omega
    exact ⟨fun h => hquote (hbyte _ (by decide) h), fun h => hback (hbyte _ (by decide) h)⟩
  · have hhigh := Text.high_of_mem_utf8EncodeChar (Nat.not_lt.mp hc) hb
    constructor
    · rintro rfl
      exact absurd hhigh (by decide)
    · rintro rfl
      exact absurd hhigh (by decide)

theorem ReadsChars.encodeChar
    (h : p.unread = Text.asBytes (encodeChar c) ++ rest)
    (hrest : ReadsChars (p.advance (Text.asBytes (Json.encodeChar c)).length) s p') :
    ReadsChars p (bytesAsChars [c] ++ s) p' := by
  by_cases hsimple : c = '\x22' ∨ c = '\x5c' ∨ c = '\n' ∨ c = '\r' ∨ c = '\t'
  · rcases hsimple with rfl | rfl | rfl | rfl | rfl
    · exact .simpleEscape (b := ascii '\x22') h (by decide) hrest
    · exact .simpleEscape (b := ascii '\x5c') h (by decide) hrest
    · exact .simpleEscape (b := ascii 'n') h (by decide) hrest
    · exact .simpleEscape (b := ascii 'r') h (by decide) hrest
    · exact .simpleEscape (b := ascii 't') h (by decide) hrest
  obtain ⟨hquote, hback, hn, hr, ht⟩ : c ≠ '\x22' ∧ c ≠ '\x5c' ∧ c ≠ '\n' ∧ c ≠ '\r' ∧ c ≠ '\t' := by
    simpa using hsimple
  have hencode : Json.encodeChar c = if c.toNat < 0x20 then unicodeEscape c else [c] := by
    rw [Json.encodeChar, if_neg hquote, if_neg hback, if_neg hn, if_neg hr, if_neg ht]
  by_cases hcontrol : c.toNat < 0x20
  · rw [hencode, if_pos hcontrol, asBytes_unicodeEscape hcontrol] at h hrest
    have hself : bytesAsChars [c] = [c] := bytesAsChars_of_ascii fun d hd => by
      rw [List.mem_singleton.mp hd]
      omega
    rw [hself]
    exact .escape h (parseEscape_unicode hcontrol (unread_advance_one h)) hrest
  · rw [hencode, if_neg hcontrol, Text.asBytes_cons, Text.asBytes_nil, List.append_nil] at h hrest
    have hbytes : bytesAsChars [c] = (String.utf8EncodeChar c).map Char.ofUInt8 := by
      rw [bytesAsChars, Text.asBytes_cons, Text.asBytes_nil, List.append_nil, Text.ofAscii]
    rw [hbytes]
    exact .bytes h (fun b hb => ne_of_mem_utf8EncodeChar hb hquote hback) hrest

theorem readsChars_encode
    (h : p.unread = Text.asBytes (s.flatMap encodeChar) ++ ascii '\x22' :: rest) :
    ReadsChars p (bytesAsChars s) (p.advance ((Text.asBytes (s.flatMap encodeChar)).length + 1)) := by
  induction s generalizing p with
  | nil =>
    intro fuel hfuel
    obtain ⟨fuel, rfl⟩ : ∃ n, fuel = n + 1 := ⟨fuel - 1, by omega⟩
    have hquote : p.unread = ascii '\x22' :: rest := h
    rw [parseChars, peek_cons hquote]
    rfl
  | cons c s ih =>
    rw [List.flatMap_cons, Text.asBytes_append, List.append_assoc] at h
    have hrest := ih (Cursor.unread_advance h)
    rw [Cursor.advance_advance] at hrest
    have hcons : bytesAsChars (c :: s) = bytesAsChars [c] ++ bytesAsChars s :=
      bytesAsChars_append [c] s
    rw [hcons, List.flatMap_cons, Text.asBytes_append, List.length_append, Nat.add_assoc]
    exact .encodeChar h hrest

theorem takes_string (s : Text) :
    Takes parseString (bytesAsChars s) (Text.asBytes (encodeString s)) fun _ => True := by
  intro p rest h _
  have hword : Text.asBytes (encodeString s) =
      ascii '\x22' :: (Text.asBytes (s.flatMap encodeChar) ++ [ascii '\x22']) := by
    rw [encodeString, Text.asBytes_cons, Text.asBytes_append]
    rfl
  rw [hword, List.cons_append] at h
  have hp : (p.advance 1).unread =
      Text.asBytes (s.flatMap encodeChar) ++ ascii '\x22' :: rest := by
    rw [unread_advance_one h, List.append_assoc]
    rfl
  rw [parseString, expect_ok h]
  have hchars := readsChars_encode hp _ (Nat.lt_succ_self _)
  rw [Cursor.advance_advance] at hchars
  rw [hword, List.length_cons, List.length_append, List.length_singleton, Nat.add_comm _ 1]
  exact hchars

/-- What follows a value inside another one, or at the end. -/
def Delimited (rest : Bytes) : Prop :=
  ∀ b, rest.head? = some b → b = ascii ',' ∨ b = ascii ']' ∨ b = ascii '\x7d'

theorem Delimited.nil : Delimited [] := by simp [Delimited]

theorem Delimited.not {q : UInt8 → Prop} (h : Delimited rest)
    (hb : rest.head? = some b) (hcomma : ¬ q (ascii ',')) (hbracket : ¬ q (ascii ']'))
    (hbrace : ¬ q (ascii '\x7d')) : ¬ q b := by
  rcases h b hb with rfl | rfl | rfl
  · exact hcomma
  · exact hbracket
  · exact hbrace

/-- The arithmetic of doubles is exact on the integers it is used with: `ofInt` gives the double,
and printing and parsing are inverse. -/
structure Doubles.Exact (D : Doubles F) (ofInt : ℤ → F) : Prop where
  asInteger : ∀ i, |i| < 2 ^ 53 → D.asInteger (ofInt i) = some i
  parse : ∀ i, |i| < 2 ^ 53 → D.parse (displayInt i) = some (ofInt i)
  finite : ∀ i, |i| < 2 ^ 53 → D.isFinite (ofInt i) = true

theorem head_toDigits_ne_zero (hn : 0 < n) : (Nat.toDigits 10 n).head? ≠ some '0' := by
  induction n using Nat.strong_induction_on with
  | _ n ih =>
    by_cases hlt : n < 10
    · interval_cases n <;> decide
    · rw [Nat.toDigits_of_base_le (by decide) (Nat.not_lt.mp hlt), List.head?_append_of_ne_nil]
      · exact ih (n / 10) (by omega) (by omega)
      · exact Nat.toDigits_ne_nil

theorem isDigit_toNat_lt (h : c.isDigit = true) : c.toNat < 128 := by
  obtain ⟨-, hle⟩ : 48 ≤ c.val ∧ c.val ≤ 57 := by simpa [Char.isDigit] using h
  have hnat : c.toNat ≤ 57 := UInt32.le_iff_toNat_le.mp hle
  omega

theorem displayInt_ascii (i : ℤ) : ∀ c ∈ displayInt i, c.toNat < 128 := by
  intro c hc
  rcases List.mem_append.mp hc with hc | hc
  · split at hc
    · rw [List.mem_singleton.mp hc]
      decide
    · cases hc
  · exact isDigit_toNat_lt (Nat.isDigit_of_mem_toDigits (by decide) (by decide) hc)

/-- The bytes of the digits of a number are digits, and there is a first one. -/
theorem exists_digit_bytes (n : ℕ) : ∃ b ds, Text.asBytes (Nat.toDigits 10 n) = b :: ds ∧
    (∀ d ∈ b :: ds, Text.isAsciiDigit d = true) ∧ (0 < n → b ≠ ascii '0') := by
  have hdigit : ∀ c ∈ Nat.toDigits 10 n, c.isDigit = true := fun c hc =>
    Nat.isDigit_of_mem_toDigits (by decide) (by decide) hc
  obtain ⟨-, hall⟩ := Text.asBytes_digits hdigit
  cases hd : Nat.toDigits 10 n with
  | nil => exact absurd hd Nat.toDigits_ne_nil
  | cons c ds =>
    have hc : c.toNat < 128 := isDigit_toNat_lt (hdigit c (by rw [hd]; exact List.mem_cons_self))
    have hbytes : Text.asBytes (c :: ds) = UInt8.ofNat c.toNat :: Text.asBytes ds := by
      rw [Text.asBytes_cons, Text.utf8EncodeChar_ascii hc, List.singleton_append]
    rw [hd, hbytes] at hall
    refine ⟨_, _, hbytes, hall, fun hn heq => ?_⟩
    have hhead := head_toDigits_ne_zero hn
    have hnat := congrArg UInt8.toNat heq
    have hsmall : '0'.toNat < 128 := by decide
    simp only [ascii, UInt8.toNat_ofNat'] at hnat
    have hval : c.toNat = '0'.toNat := by omega
    rw [hd] at hhead
    exact hhead (congrArg some (Char.ext (UInt32.toNat_inj.mp hval)))

theorem integerPart_ok (h : p.unread = Text.asBytes (Nat.toDigits 10 n) ++ rest)
    (hrest : ∀ b, rest.head? = some b → Text.isAsciiDigit b = false) (start : ℕ) :
    integerPart p start = .ok (p.advance (Text.asBytes (Nat.toDigits 10 n)).length) := by
  rcases Nat.eq_zero_or_pos n with rfl | hn
  · have hzero : p.unread = ascii '0' :: rest := h
    rw [integerPart, peek_cons hzero, if_pos rfl]
    rfl
  · obtain ⟨b, ds, hbytes, hdigits, hb⟩ := exists_digit_bytes n
    rw [hbytes] at h ⊢
    have hpeek : peek p = some b := peek_cons h
    have hfirst : peekDigit p = true := by
      rw [peekDigit, hpeek]
      exact hdigits b List.mem_cons_self
    have hzero : peek p ≠ some (ascii '0') := by
      rw [hpeek]
      exact fun heq => hb hn (Option.some.inj heq)
    rw [integerPart, if_neg hzero, if_pos hfirst, skipDigits, skipWhile_append h hdigits hrest]

theorem exists_sign (h : p.unread = Text.asBytes (displayInt i) ++ rest) : ∃ sign : ℕ,
      (if peek p = some (ascii '-') then p.advance 1 else p) = p.advance sign ∧
      (p.advance sign).unread = Text.asBytes (Nat.toDigits 10 i.natAbs) ++ rest ∧
      sign + (Text.asBytes (Nat.toDigits 10 i.natAbs)).length =
        (Text.asBytes (displayInt i)).length := by
  unfold displayInt at h ⊢
  by_cases hneg : i < 0
  · rw [if_pos hneg] at h ⊢
    have hminus : p.unread = ascii '-' :: (Text.asBytes (Nat.toDigits 10 i.natAbs) ++ rest) := h
    refine ⟨1, by rw [peek_cons hminus, if_pos rfl], unread_advance_one hminus, ?_⟩
    rw [Text.asBytes_append, List.length_append]
    rfl
  · rw [if_neg hneg, List.nil_append] at h ⊢
    obtain ⟨b, ds, hbytes, hdigits, -⟩ := exists_digit_bytes i.natAbs
    have hne : peek p ≠ some (ascii '-') := by
      rw [hbytes] at h
      rw [peek_cons h]
      intro heq
      have hb := hdigits b List.mem_cons_self
      rw [Option.some.inj heq] at hb
      exact absurd hb (by decide)
    exact ⟨0, if_neg hne, h, Nat.zero_add _⟩

theorem takes_number {D : Doubles F} {ofInt : ℤ → F} (hD : D.Exact ofInt) (hi : |i| < 2 ^ 53) :
    Takes (parseNumber D) (.number (ofInt i)) (Text.asBytes (displayInt i)) Delimited := by
  intro p rest h hrest
  obtain ⟨sign, hsign, hdigits, hlen⟩ := exists_sign h
  have hnotDigit : ∀ b, rest.head? = some b → Text.isAsciiDigit b = false := fun b hb =>
    Bool.eq_false_of_not_eq_true
      (hrest.not (q := fun b => Text.isAsciiDigit b = true) hb (by decide) (by decide) (by decide))
  have hint := integerPart_ok hdigits hnotDigit p.pos
  rw [Cursor.advance_advance, hlen] at hint
  have hne : ∀ d, d ≠ ascii ',' → d ≠ ascii ']' → d ≠ ascii '\x7d' →
      peek (p.advance (Text.asBytes (displayInt i)).length) ≠ some d := by
    intro d h₁ h₂ h₃ heq
    rw [peek_eq, Cursor.unread_advance h] at heq
    exact hrest.not (q := fun b => b = d) heq h₁.symm h₂.symm h₃.symm rfl
  have hfrac : fractionalPart (p.advance (Text.asBytes (displayInt i)).length) =
      .ok (p.advance (Text.asBytes (displayInt i)).length) := by
    rw [fractionalPart, if_neg (hne _ (by decide) (by decide) (by decide))]
  have hexp : exponent (p.advance (Text.asBytes (displayInt i)).length) =
      .ok (p.advance (Text.asBytes (displayInt i)).length) := by
    rw [exponent, if_neg]
    exact not_or.mpr ⟨hne _ (by decide) (by decide) (by decide),
      hne _ (by decide) (by decide) (by decide)⟩
  have hpos : (p.advance (Text.asBytes (displayInt i)).length).pos - p.pos =
      (Text.asBytes (displayInt i)).length := Nat.add_sub_cancel_left _ _
  have hword : p.unread.take (Text.asBytes (displayInt i)).length = Text.asBytes (displayInt i) := by
    rw [h, List.take_left]
  simp only [parseNumber, hsign, hint, hfrac, hexp, bind, Except.bind, hpos, hword,
    Text.ofAscii_asBytes (displayInt_ascii i), hD.parse i hi, hD.finite i hi, if_true]

end Desmos.Http.Json
