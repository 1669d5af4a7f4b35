import Mathlib.Tactic

/-! # Configuration values

The value tree of a configuration file, and the errors that point into it.
-/
namespace Desmos.Core

/-- A floating-point value is kept as its 64 bits. The entries of a table stand in the order of
their keys. -/
inductive Value where
  | string (s : String)
  | integer (i : Int64)
  | float (bits : UInt64)
  | boolean (b : Bool)
  | array (items : List Value)
  | table (entries : List (String × Value))

abbrev Table := List (String × Value)

namespace Value

def typeName : Value → String
  | string _ => "string"
  | integer _ => "integer"
  | float _ => "float"
  | boolean _ => "boolean"
  | array _ => "array"
  | table _ => "table"

def asTable : Value → Option Table
  | table t => some t
  | _ => none

def asString : Value → Option String
  | string s => some s
  | _ => none

def asInteger : Value → Option Int64
  | integer i => some i
  | _ => none

def asBoolean : Value → Option Bool
  | boolean b => some b
  | _ => none

def asArray : Value → Option (List Value)
  | array a => some a
  | _ => none

def get : Value → List String → Option Value
  | v, [] => some v
  | v, key :: path => v.asTable.bind fun t => (t.lookup key).bind fun field => field.get path

def stringAt (v : Value) (path : List String) : Option String := (v.get path).bind asString

end Value

/-- A path through a value tree, outermost key first. -/
abbrev Path := List String

def Path.push (p : Path) (segment : String) : Path := p ++ [segment]

def Path.render (p : Path) : String := if p.isEmpty then "<root>" else ".".intercalate p

inductive ParseErrorKind where
  | unexpectedChar (c : Char)
  | unterminatedString
  | invalidEscape (c : Char)
  | invalidNumber (lexeme : String)
  | unexpectedToken (expected got : String)
  | duplicateKey (key : String)
  | unknownSection (name : String)
  | typeMismatch (expected got : String)
  | missingField (name : String)
  | outOfRange (name : String)
  | eof
  deriving DecidableEq, Repr

structure ParseError where
  kind : ParseErrorKind
  line : ℕ
  col : ℕ
  path : Path
  deriving DecidableEq, Repr

def ParseError.new (kind : ParseErrorKind) (line col : ℕ) : ParseError :=
  { kind, line, col, path := [] }

/-- The text of an error; `debugChar` is the standard library's form of a character in quotes. -/
def ParseError.display (debugChar : Char → String) (e : ParseError) : String :=
  toString e.line ++ ":" ++ toString e.col ++ ": " ++
    match e.kind with
    | .unexpectedChar c => "unexpected_char: " ++ debugChar c
    | .unterminatedString => "unterminated_string"
    | .invalidEscape c => "invalid_escape: \\" ++ c.toString
    | .invalidNumber lexeme => "invalid_number: " ++ lexeme
    | .unexpectedToken expected got => "unexpected_token: expected " ++ expected ++ ", got " ++ got
    | .duplicateKey key => "duplicate_key: " ++ key
    | .unknownSection name => "unknown_section: " ++ name
    | .typeMismatch expected got =>
      "type_mismatch: " ++ e.path.render ++ ": expected " ++ expected ++ ", got " ++ got
    | .missingField name => "missing_field: " ++ e.path.render ++ "." ++ name
    | .outOfRange name => "out_of_range: " ++ e.path.render ++ "." ++ name
    | .eof => "unexpected_eof"

end Desmos.Core
