import Desmos.Core.Config.Value
import Desmos.Library.TextSearch

/-! # The tokens of a configuration file

A document is its characters, and a token carries the line and column it starts at. Reading
a floating-point literal is the standard library's.
-/
namespace Desmos.Core
open Library

/-- `str::parse::<f64>`, as the bits of the result. -/
abbrev ParseF64 := Text → Option UInt64

inductive Token where
  | lBracket
  | rBracket
  | eq
  | comma
  | dot
  | string (s : String)
  | integer (i : Int64)
  | float (bits : UInt64)
  | bool (b : Bool)
  | ident (name : String)
  | newline
  | eof
  deriving DecidableEq

def Token.describe : Token → String
  | lBracket => "`[`"
  | rBracket => "`]`"
  | eq => "`=`"
  | comma => "`,`"
  | dot => "`.`"
  | string _ => "string"
  | integer _ => "integer"
  | float _ => "float"
  | bool _ => "boolean"
  | ident _ => "identifier"
  | newline => "newline"
  | eof => "end of input"

structure Spanned where
  tok : Token
  line : ℕ
  col : ℕ
  deriving DecidableEq

namespace Lexer

def isNumberStart : Text → Bool
  | [] => false
  | c :: rest =>
    c.isDigit || (c == '-' || c == '+') && (rest.head?.map Char.isDigit).getD false

def unescape (c : Char) : Option Char :=
  if c = 'n' then some '\n'
  else if c = 't' then some '\t'
  else if c = 'r' then some '\r'
  else if c = '\x22' ∨ c = '\x5c' then some c
  else none

/-- The characters of a string literal behind its opening quote, and what follows the literal. -/
def readString : Text → Except ParseErrorKind (Text × Text)
  | [] => .error .unterminatedString
  | c :: rest =>
    if c = '\n' then .error .unterminatedString
    else if c = '\x22' then .ok ([], rest)
    else if c = '\x5c' then
      match rest with
      | [] => .error .unterminatedString
      | esc :: rest =>
        match unescape esc with
        | none => .error (.invalidEscape esc)
        | some decoded => (readString rest).map fun s => (decoded :: s.1, s.2)
    else (readString rest).map fun s => (c :: s.1, s.2)

/-- The sign and the digits of a number, whether a fraction follows, and the rest. -/
def numberLexeme (chars : Text) : Text × Bool × Text :=
  let (sign, rest) := match chars with
    | c :: rest => if c = '-' ∨ c = '+' then ([c], rest) else ([], chars)
    | [] => ([], [])
  let digits := rest.takeWhile Char.isDigit
  match rest.dropWhile Char.isDigit with
  | '.' :: d :: rest =>
    if d.isDigit then
      (sign ++ digits ++ '.' :: (d :: rest).takeWhile Char.isDigit, true,
        (d :: rest).dropWhile Char.isDigit)
    else (sign ++ digits, false, '.' :: d :: rest)
  | rest => (sign ++ digits, false, rest)

def readNumber (parseF64 : ParseF64) (chars : Text) : Except ParseErrorKind (Token × Text) :=
  let (lexeme, isFloat, rest) := numberLexeme chars
  if isFloat then
    match parseF64 lexeme with
    | none => .error (.invalidNumber (String.ofList lexeme))
    | some bits => .ok (.float bits, rest)
  else
    match Text.parseI64 lexeme with
    | none => .error (.invalidNumber (String.ofList lexeme))
    | some i => .ok (.integer i, rest)

def isIdentChar (c : Char) : Bool := c.isAlphanum || c == '_' || c == '-'

def readIdent (chars : Text) : Token × Text :=
  let word := String.ofList (chars.takeWhile isIdentChar)
  let tok := if word = "true" then .bool true else if word = "false" then .bool false
    else .ident word
  (tok, chars.dropWhile isIdentChar)

/-- The tokens that are one character. -/
def punctuation : List (Char × Token) :=
  [('[', .lBracket), (']', .rBracket), ('=', .eq), (',', .comma), ('.', .dot)]

/-- One round of the loop: the token if there is one, and where the next round goes on. -/
def round (parseF64 : ParseF64) (c : Char) (rest : Text) (line col : ℕ) :
    Except ParseErrorKind (Option Token × Text × ℕ × ℕ) :=
  if c = ' ' ∨ c = '\t' then .ok (none, rest, line, col + 1)
  else if c = '\r' then .ok (none, rest, line, col)
  else if c = '\n' then .ok (some .newline, rest, line + 1, 1)
  else if c = '#' then .ok (none, rest.dropWhile (· ≠ '\n'), line, col)
  else
    match punctuation.lookup c with
    | some tok => .ok (some tok, rest, line, col + 1)
    | none =>
      if c = '\x22' then
        (readString rest).map fun s =>
          (some (.string (String.ofList s.1)), s.2, line, col + (rest.length + 1 - s.2.length))
      else if isNumberStart (c :: rest) then
        (readNumber parseF64 (c :: rest)).map fun n =>
          (some n.1, n.2, line, col + (rest.length + 1 - n.2.length))
      else if c.isAlpha ∨ c = '_' then
        let (tok, rest') := readIdent (c :: rest)
        .ok (some tok, rest', line, col + (rest.length + 1 - rest'.length))
      else .error (.unexpectedChar c)

/-- Every round takes at least one character, so that there are no more rounds than characters. -/
def tokenizeWithin (parseF64 : ParseF64) :
    (fuel : ℕ) → Text → (line col : ℕ) → Except ParseError (List Spanned)
  | 0, _, line, col => .ok [⟨.eof, line, col⟩]
  | _ + 1, [], line, col => .ok [⟨.eof, line, col⟩]
  | fuel + 1, c :: rest, line, col =>
    match round parseF64 c rest line col with
    | .error kind => .error (.new kind line col)
    | .ok (tok, rest, line', col') =>
      match tokenizeWithin parseF64 fuel rest line' col' with
      | .error e => .error e
      | .ok out =>
        match tok with
        | none => .ok out
        | some tok => .ok (⟨tok, line, col⟩ :: out)

def tokenize (parseF64 : ParseF64) (input : Text) : Except ParseError (List Spanned) :=
  tokenizeWithin parseF64 input.length input 1 1

end Lexer

end Desmos.Core
