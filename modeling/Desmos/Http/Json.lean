import Mathlib.Data.String.Basic
import Desmos.Library.Reader
import Desmos.Library.SortedMap
import Desmos.Library.Text

/-! # JSON

The encoder writes characters and the decoder reads bytes. Doubles are the standard library's:
a type with the few operations that the code uses of it.
-/
namespace Desmos.Http.Json
open Library

/-- What is used of `f64`. -/
structure Doubles (F : Type) where
  /-- The number, if it is whole and its absolute value is below `2 ^ 53`. -/
  asInteger : F → Option ℤ
  /-- `fmt::Display`. -/
  display : F → Text
  /-- `str::parse`. -/
  parse : Text → Option F
  isFinite : F → Bool

variable {F : Type}

/-- The entries of an object stand in the order of their keys. -/
inductive Value (F : Type) where
  | null
  | bool (b : Bool)
  | number (n : F)
  | string (s : Text)
  | array (items : List (Value F))
  | object (entries : List (Text × Value F))

def Value.asStr : Value F → Option Text
  | .string s => some s
  | _ => none

/-- `Value::get`. -/
def Value.get (v : Value F) (key : Text) : Option (Value F) :=
  match v with
  | .object entries => entries.lookup key
  | _ => none

/-- `fmt::Display` of an integer. -/
def displayInt (i : ℤ) : Text := (if i < 0 then ['-'] else []) ++ Nat.toDigits 10 i.natAbs

/-- A control character as `\u` and four hexadecimal digits. -/
def unicodeEscape (c : Char) : Text :=
  let digits := Nat.toDigits 16 c.toNat
  '\x5c' :: 'u' :: (List.replicate (4 - digits.length) '0' ++ digits)

def encodeChar (c : Char) : Text :=
  if c = '\x22' then ['\x5c', '\x22']
  else if c = '\x5c' then ['\x5c', '\x5c']
  else if c = '\n' then ['\x5c', 'n']
  else if c = '\r' then ['\x5c', 'r']
  else if c = '\t' then ['\x5c', 't']
  else if c.toNat < 0x20 then unicodeEscape c
  else [c]

def encodeString (s : Text) : Text := '\x22' :: (s.flatMap encodeChar ++ ['\x22'])

mutual

def encodeValue (D : Doubles F) : Value F → Text
  | .null => ['n', 'u', 'l', 'l']
  | .bool true => ['t', 'r', 'u', 'e']
  | .bool false => ['f', 'a', 'l', 's', 'e']
  | .number n =>
    match D.asInteger n with
    | some i => displayInt i
    | none => D.display n
  | .string s => encodeString s
  | .array items => '[' :: (encodeItems D items ++ [']'])
  | .object entries => '\x7b' :: (encodeEntries D entries ++ ['\x7d'])

def encodeItems (D : Doubles F) : List (Value F) → Text
  | [] => []
  | [v] => encodeValue D v
  | v :: w :: vs => encodeValue D v ++ ',' :: encodeItems D (w :: vs)

def encodeEntries (D : Doubles F) : List (Text × Value F) → Text
  | [] => []
  | [(k, v)] => encodeString k ++ ':' :: encodeValue D v
  | (k, v) :: e :: es => encodeString k ++ ':' :: (encodeValue D v ++ ',' :: encodeEntries D (e :: es))

end

def encode (D : Doubles F) (v : Value F) : Text := encodeValue D v

inductive JsonError where
  | unexpectedEof
  | unexpectedChar (pos : ℕ) (ch : Char)
  | invalidNumber (pos : ℕ)
  | unterminatedString
  | invalidEscape (pos : ℕ)
  | depthExceeded
  | trailingContent (pos : ℕ)
  deriving DecidableEq

def JsonError.display : JsonError → String
  | .unexpectedEof => "unexpected end of input"
  | .unexpectedChar pos ch => "unexpected '" ++ ch.toString ++ "' at position " ++ toString pos
  | .invalidNumber pos => "invalid number at position " ++ toString pos
  | .unterminatedString => "unterminated string"
  | .invalidEscape pos => "invalid escape at position " ++ toString pos
  | .depthExceeded => "nesting depth exceeded (max 32)"
  | .trailingContent pos => "trailing content at position " ++ toString pos

def maxDepth : ℕ := 32

abbrev Parser := Cursor UInt8

namespace Parser

def peek (p : Parser) : Option UInt8 := p.buf[p.pos]?

def ascii (c : Char) : UInt8 := UInt8.ofNat c.toNat

def expect (p : Parser) (expected : UInt8) : Except JsonError Parser :=
  match peek p with
  | some b => if b = expected then .ok (p.advance 1)
    else .error (.unexpectedChar p.pos (Char.ofUInt8 b))
  | none => .error .unexpectedEof

/-- Behind the bytes in front that are in a set. -/
def skipWhile (q : UInt8 → Bool) (p : Parser) : Parser := p.advance (p.unread.takeWhile q).length

def isSpace (b : UInt8) : Bool :=
  b == ascii ' ' || b == ascii '\t' || b == ascii '\n' || b == ascii '\r'

def skipWhitespace (p : Parser) : Parser := skipWhile isSpace p

def skipDigits (p : Parser) : Parser := skipWhile Text.isAsciiDigit p

def parseLiteral (value : Value F) : List UInt8 → Parser → Except JsonError (Value F × Parser)
  | [], p => .ok (value, p)
  | b :: expected, p => do
    let p ← expect p b
    parseLiteral value expected p

def peekDigit (p : Parser) : Bool := ((peek p).map Text.isAsciiDigit).getD false

def integerPart (p : Parser) (start : ℕ) : Except JsonError Parser :=
  if peek p = some (ascii '0') then .ok (p.advance 1)
  else if peekDigit p then .ok (skipDigits p)
  else .error (.invalidNumber start)

def fractionalPart (p : Parser) : Except JsonError Parser :=
  if peek p = some (ascii '.') then
    let p := p.advance 1
    if peekDigit p then .ok (skipDigits p) else .error (.invalidNumber p.pos)
  else .ok p

def exponent (p : Parser) : Except JsonError Parser :=
  if peek p = some (ascii 'e') ∨ peek p = some (ascii 'E') then
    let p := p.advance 1
    let p := if peek p = some (ascii '+') ∨ peek p = some (ascii '-') then p.advance 1 else p
    if peekDigit p then .ok (skipDigits p) else .error (.invalidNumber p.pos)
  else .ok p

def parseNumber (D : Doubles F) (p : Parser) : Except JsonError (Value F × Parser) := do
  let q := if peek p = some (ascii '-') then p.advance 1 else p
  let q ← integerPart q p.pos
  let q ← fractionalPart q
  let q ← exponent q
  match D.parse (Text.ofAscii (p.unread.take (q.pos - p.pos))) with
  | none => .error (.invalidNumber p.pos)
  | some n => if D.isFinite n then .ok (.number n, q) else .error (.invalidNumber p.pos)

def hexValue (b : UInt8) : Option ℕ :=
  if ascii '0' ≤ b ∧ b ≤ ascii '9' then some (b.toNat - 48)
  else if ascii 'a' ≤ b ∧ b ≤ ascii 'f' then some (b.toNat - 97 + 10)
  else if ascii 'A' ≤ b ∧ b ≤ ascii 'F' then some (b.toNat - 65 + 10)
  else none

def parseHex (start : ℕ) : (digits : ℕ) → (val : ℕ) → Parser → Except JsonError (ℕ × Parser)
  | 0, val, p => .ok (val, p)
  | digits + 1, val, p =>
    match peek p with
    | none => .error .unexpectedEof
    | some b =>
      match hexValue b with
      | none => .error (.invalidEscape start)
      | some d => parseHex start digits (val * 16 + d) (p.advance 1)

def parseHex4 (p : Parser) : Except JsonError (ℕ × Parser) := parseHex p.pos 4 0 p

/-- `char::from_u32`. -/
def charFromU32 (escPos n : ℕ) : Except JsonError Char :=
  if n.isValidChar then .ok (Char.ofNat n) else .error (.invalidEscape escPos)

/-- Behind `\u`: a code point, or the two halves of a surrogate pair. -/
def parseUnicode (escPos : ℕ) (p : Parser) : Except JsonError (Char × Parser) := do
  let (cp, p) ← parseHex4 p
  if 0xD800 ≤ cp ∧ cp ≤ 0xDBFF then
    let p ← expect p (ascii '\x5c')
    let p ← expect p (ascii 'u')
    let (low, p) ← parseHex4 p
    if 0xDC00 ≤ low ∧ low ≤ 0xDFFF then
      let ch ← charFromU32 escPos (0x10000 + (cp - 0xD800) * 1024 + (low - 0xDC00))
      .ok (ch, p)
    else .error (.invalidEscape escPos)
  else
    let ch ← charFromU32 escPos cp
    .ok (ch, p)

def simpleEscapes : List (UInt8 × Char) :=
  [(ascii '\x22', '\x22'), (ascii '\x5c', '\x5c'), (ascii '/', '/'), (ascii 'n', '\n'),
    (ascii 'r', '\r'), (ascii 't', '\t'), (ascii 'b', '\x08'), (ascii 'f', '\x0c')]

/-- What follows a backslash. -/
def parseEscape (p : Parser) : Except JsonError (Char × Parser) :=
  match peek p with
  | none => .error (.invalidEscape p.pos)
  | some b =>
    match simpleEscapes.lookup b with
    | some c => .ok (c, p.advance 1)
    | none =>
      if b = ascii 'u' then parseUnicode p.pos (p.advance 1) else .error (.invalidEscape p.pos)

/-- The characters of a string behind its opening quote. Every round takes a byte. -/
def parseChars : (fuel : ℕ) → Parser → Except JsonError (Text × Parser)
  | 0, _ => .error .unterminatedString
  | fuel + 1, p =>
    match peek p with
    | none => .error .unterminatedString
    | some b =>
      if b = ascii '\x22' then .ok ([], p.advance 1)
      else do
        let (c, p) ← if b = ascii '\x5c' then parseEscape (p.advance 1)
          else .ok (Char.ofUInt8 b, p.advance 1)
        let (s, p) ← parseChars fuel p
        .ok (c :: s, p)

def parseString (p : Parser) : Except JsonError (Text × Parser) := do
  let p ← expect p (ascii '\x22')
  parseChars (p.unread.length + 1) p

/-- A comma before the next element, or the closing bracket. -/
def parseSeparator (close : UInt8) (p : Parser) : Except JsonError (Bool × Parser) :=
  match peek p with
  | none => .error .unexpectedEof
  | some b =>
    if b = ascii ',' then .ok (true, p.advance 1)
    else if b = close then .ok (false, p.advance 1)
    else .error (.unexpectedChar p.pos (Char.ofUInt8 b))

/-- Every element takes a byte. -/
def parseItems (parseValue : Parser → Except JsonError (Value F × Parser)) :
    (fuel : ℕ) → Parser → Except JsonError (List (Value F) × Parser)
  | 0, _ => .error .unexpectedEof
  | fuel + 1, p => do
    let (v, p) ← parseValue p
    let (more, p) ← parseSeparator (ascii ']') (skipWhitespace p)
    if more then
      let (vs, p) ← parseItems parseValue fuel p
      .ok (v :: vs, p)
    else .ok ([v], p)

def parseArray (parseValue : Parser → Except JsonError (Value F × Parser)) (p : Parser) :
    Except JsonError (Value F × Parser) := do
  let p ← expect p (ascii '[')
  let p := skipWhitespace p
  if peek p = some (ascii ']') then .ok (.array [], p.advance 1)
  else
    let (items, p) ← parseItems parseValue (p.unread.length + 1) p
    .ok (.array items, p)

/-- The members of an object go into the map one by one. -/
def parseEntries (parseValue : Parser → Except JsonError (Value F × Parser)) :
    (fuel : ℕ) → List (Text × Value F) → Parser →
      Except JsonError (List (Text × Value F) × Parser)
  | 0, _, _ => .error .unexpectedEof
  | fuel + 1, obj, p => do
    let (key, p) ← parseString (skipWhitespace p)
    let p ← expect (skipWhitespace p) (ascii ':')
    let (v, p) ← parseValue p
    let obj := SortedMap.insertEntry key v obj
    let (more, p) ← parseSeparator (ascii '\x7d') (skipWhitespace p)
    if more then parseEntries parseValue fuel obj p else .ok (obj, p)

def parseObject (parseValue : Parser → Except JsonError (Value F × Parser)) (p : Parser) :
    Except JsonError (Value F × Parser) := do
  let p ← expect p (ascii '\x7b')
  let p := skipWhitespace p
  if peek p = some (ascii '\x7d') then .ok (.object [], p.advance 1)
  else
    let (entries, p) ← parseEntries parseValue (p.unread.length + 1) [] p
    .ok (.object entries, p)

/-- `parse_value`, by the number of levels that may still be entered, this one included. -/
def parseValue (D : Doubles F) : (levels : ℕ) → Parser → Except JsonError (Value F × Parser)
  | 0, _ => .error .depthExceeded
  | levels + 1, p =>
    let p := skipWhitespace p
    match peek p with
    | none => .error .unexpectedEof
    | some b =>
      if b = ascii '\x22' then (parseString p).map fun s => (.string s.1, s.2)
      else if b = ascii '\x7b' then parseObject (parseValue D levels) p
      else if b = ascii '[' then parseArray (parseValue D levels) p
      else if b = ascii 't' then parseLiteral (.bool true) (Text.asBytes ['t', 'r', 'u', 'e']) p
      else if b = ascii 'f' then
        parseLiteral (.bool false) (Text.asBytes ['f', 'a', 'l', 's', 'e']) p
      else if b = ascii 'n' then parseLiteral .null (Text.asBytes ['n', 'u', 'l', 'l']) p
      else if b = ascii '-' ∨ Text.isAsciiDigit b then parseNumber D p
      else .error (.unexpectedChar p.pos (Char.ofUInt8 b))

end Parser

def decode (D : Doubles F) (input : Text) : Except JsonError (Value F) := do
  let (value, p) ← Parser.parseValue D (maxDepth + 1) (.start (Text.asBytes input))
  let p := Parser.skipWhitespace p
  if p.unread.isEmpty then .ok value else .error (.trailingContent p.pos)

end Desmos.Http.Json
