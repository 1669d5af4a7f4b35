import Mathlib.Data.String.Basic
import Desmos.Core.Config.Lexer
import Desmos.Library.SortedMap

/-! # The parser of configuration files

A document is a sequence of headers and assignments. A header sets the table that the assignments
after it go to, as a path that is walked anew for each of them.
-/
namespace Desmos.Core
open Library

/-- What the parser has before it. The last token is never passed. -/
structure Tokens where
  cur : Spanned
  rest : List Spanned

inductive PathSeg where
  | table (k : String)
  | arrayTail (k : String)
  deriving DecidableEq

inductive Statement where
  | table (path : List String)
  | arrayOfTables (path : List String)
  | assign (key : String) (value : Value)

namespace Tokens

def tok (ts : Tokens) : Token := ts.cur.tok

section
variable (ts : Tokens)

def advance : Tokens :=
  match ts.rest with
  | [] => ts
  | next :: rest => ⟨next, rest⟩

def unexpected (expected : String) : ParseError :=
  .new (.unexpectedToken expected ts.tok.describe) ts.cur.line ts.cur.col

/-- Newlines are skipped up to the first token that is none, or the last one. -/
def skipFrom : Spanned → List Spanned → Tokens
  | cur, [] => ⟨cur, []⟩
  | cur, next :: rest => if cur.tok = .newline then skipFrom next rest else ⟨cur, next :: rest⟩

def skipNewlines : Tokens := skipFrom ts.cur ts.rest

def expectToken (want : Token) (expected : String) : Except ParseError Tokens :=
  if ts.tok = want then .ok ts.advance else .error (ts.unexpected expected)

def expectNewlineOrEof : Except ParseError Tokens :=
  match ts.tok with
  | .newline => .ok ts.advance
  | .eof => .ok ts
  | _ => .error (ts.unexpected "newline")

def parseIdent : Except ParseError (String × Tokens) :=
  match ts.tok with
  | .ident name => .ok (name, ts.advance)
  | _ => .error (ts.unexpected "identifier")

end

def parseDottedRest : (fuel : ℕ) → Tokens → Except ParseError (List String × Tokens)
  | 0, ts => .ok ([], ts)
  | fuel + 1, ts =>
    if ts.tok = .dot then do
      let (part, ts) ← ts.advance.parseIdent
      let (parts, ts) ← parseDottedRest fuel ts
      .ok (part :: parts, ts)
    else .ok ([], ts)

def parseDottedKey (ts : Tokens) : Except ParseError (List String × Tokens) := do
  let (part, ts) ← ts.parseIdent
  let (parts, ts) ← parseDottedRest ts.rest.length ts
  .ok (part :: parts, ts)

/-- The items of an array behind its bracket, or behind a comma. -/
def parseItems (parseValue : Tokens → Except ParseError (Value × Tokens)) :
    (fuel : ℕ) → Tokens → Except ParseError (List Value × Tokens)
  | 0, ts => .error (ts.unexpected "value")
  | fuel + 1, ts => do
    let ts := ts.skipNewlines
    if ts.tok = .rBracket then .ok ([], ts.advance)
    else
      let (item, ts) ← parseValue ts
      let ts := ts.skipNewlines
      if ts.tok = .comma then
        let (items, ts) ← parseItems parseValue fuel ts.advance
        .ok (item :: items, ts)
      else
        let ts ← ts.skipNewlines.expectToken .rBracket "]"
        .ok ([item], ts)

/-- A value takes at least one token, and so does each level of nesting. -/
def parseValue : (fuel : ℕ) → Tokens → Except ParseError (Value × Tokens)
  | 0, ts => .error (ts.unexpected "value")
  | fuel + 1, ts =>
    match ts.tok with
    | .string s => .ok (.string s, ts.advance)
    | .integer i => .ok (.integer i, ts.advance)
    | .float bits => .ok (.float bits, ts.advance)
    | .bool b => .ok (.boolean b, ts.advance)
    | .lBracket => do
      let (items, ts) ← parseItems (parseValue fuel) (ts.rest.length + 1) ts.advance
      .ok (.array items, ts)
    | _ => .error (ts.unexpected "value")

theorem parseValue_succ (fuel : ℕ) (ts : Tokens) : parseValue (fuel + 1) ts =
    match ts.tok with
    | .string s => .ok (.string s, ts.advance)
    | .integer i => .ok (.integer i, ts.advance)
    | .float bits => .ok (.float bits, ts.advance)
    | .bool b => .ok (.boolean b, ts.advance)
    | .lBracket => do
      let (items, ts) ← parseItems (parseValue fuel) (ts.rest.length + 1) ts.advance
      .ok (.array items, ts)
    | _ => .error (ts.unexpected "value") := rfl

/-- One turn of the loop of `parse_document`, up to the change of the tables. -/
def parseStatement (ts : Tokens) : Except ParseError (Statement × Tokens) :=
  match ts.tok with
  | .lBracket =>
    let ts := ts.advance
    if ts.tok = .lBracket then do
      let (path, ts) ← ts.advance.parseDottedKey
      let ts ← ts.expectToken .rBracket "]"
      let ts ← ts.expectToken .rBracket "]"
      let ts ← ts.expectNewlineOrEof
      .ok (.arrayOfTables path, ts)
    else do
      let (path, ts) ← ts.parseDottedKey
      let ts ← ts.expectToken .rBracket "]"
      let ts ← ts.expectNewlineOrEof
      .ok (.table path, ts)
  | .ident key => do
    let ts ← ts.advance.expectToken .eq "="
    let (value, ts) ← parseValue (ts.rest.length + 1) ts
    let ts ← ts.expectNewlineOrEof
    .ok (.assign key value, ts)
  | _ => .error (ts.unexpected "section header or key")

end Tokens

/-- The error of a key that is taken by something else. -/
def duplicateKey (what : String) (line col : ℕ) : ParseError := .new (.duplicateKey what) line col

/-- `navigate_mut`: change the table at a path, creating what is missing on the way. -/
def navigate (change : Table → Except ParseError Table) :
    List PathSeg → Table → Except ParseError Table
  | [], t => change t
  | .table k :: path, t =>
    match (t.lookup k).getD (.table []) with
    | .table sub => do
      let sub ← navigate change path sub
      .ok (SortedMap.insertEntry k (.table sub) t)
    | other => .error (duplicateKey (k ++ ": expected table, got " ++ other.typeName) 0 0)
  | .arrayTail k :: path, t =>
    match (t.lookup k).getD (.array [.table []]) with
    | .array arr =>
      let arr := if arr.isEmpty then [.table []] else arr
      match arr.getLast? with
      | some (.table sub) => do
        let sub ← navigate change path sub
        .ok (SortedMap.insertEntry k (.array (arr.dropLast ++ [.table sub])) t)
      | _ => .error (duplicateKey (k ++ ": array must contain tables only") 0 0)
    | _ => .error (duplicateKey (k ++ ": expected array of tables") 0 0)

def initTable (root : Table) (path : List String) : Except ParseError (Table × List PathSeg) := do
  let segs := path.map PathSeg.table
  let root ← navigate .ok segs root
  .ok (root, segs)

/-- Put an empty table at the end of an array of tables. -/
def pushTable (last : String) (headerSpan : Spanned) (container : Table) :
    Except ParseError Table :=
  match (container.lookup last).getD (.array []) with
  | .array arr => .ok (SortedMap.insertEntry last (.array (arr ++ [.table []])) container)
  | other => .error (duplicateKey (last ++ ": expected array of tables, got " ++ other.typeName)
      headerSpan.line headerSpan.col)

def initArrayOfTables (root : Table) (path : List String) (headerSpan : Spanned) :
    Except ParseError (Table × List PathSeg) :=
  match path.getLast? with
  | none => .error (.new (.unexpectedToken "identifier" "empty") headerSpan.line headerSpan.col)
  | some last => do
    let initSegs := path.dropLast.map PathSeg.table
    let root ← navigate (pushTable last headerSpan) initSegs root
    .ok (root, initSegs ++ [.arrayTail last])

def insertKey (key : String) (value : Value) (line col : ℕ) (table : Table) :
    Except ParseError Table :=
  if (table.lookup key).isSome then .error (duplicateKey key line col)
  else .ok (SortedMap.insertEntry key value table)

def insertValue (root : Table) (current : List PathSeg) (key : String) (value : Value)
    (line col : ℕ) : Except ParseError Table :=
  navigate (insertKey key value line col) current root

/-- What a statement does to the tables and to the path of the section. The span is that of the
key, or of the token behind the header. -/
def Statement.run (root : Table) (current : List PathSeg) (span : Spanned) :
    Statement → Except ParseError (Table × List PathSeg)
  | .table path => initTable root path
  | .arrayOfTables path => initArrayOfTables root path span
  | .assign key value => do
    let root ← insertValue root current key value span.line span.col
    .ok (root, current)

/-- The loop of `parse_document`. Every statement takes a token. -/
def parseStatements : (fuel : ℕ) → Table → List PathSeg → Tokens → Except ParseError Table
  | 0, root, _, _ => .ok root
  | fuel + 1, root, current, ts =>
    let ts := ts.skipNewlines
    if ts.tok = .eof then .ok root
    else do
      let (statement, after) ← ts.parseStatement
      let span := match statement with
        | .assign _ _ => ts.cur
        | _ => after.cur
      let (root, current) ← statement.run root current span
      parseStatements fuel root current after

def parseDocument (ts : Tokens) : Except ParseError Value := do
  let root ← parseStatements (ts.rest.length + 1) [] [] ts
  .ok (.table root)

/-- `config::parse`. The tokens of a document end with the end of input, so there is one. -/
def parse (parseF64 : ParseF64) (input : Text) : Except ParseError Value := do
  match ← Lexer.tokenize parseF64 input with
  | [] => .error (.new .eof 0 0)
  | cur :: rest => parseDocument ⟨cur, rest⟩

end Desmos.Core
