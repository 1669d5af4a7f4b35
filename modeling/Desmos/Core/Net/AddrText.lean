import Desmos.Core.Io
import Desmos.Library.TextSearch

/-! # Socket addresses as text

`SocketAddr::from_str` of the standard library: four numbers and a port, or an IPv6 address in
brackets, with the scope that may follow it, and a port.
-/
namespace Desmos.Core.AddrText
open Library

/-- Read a number below `bound`, of at most `maxDigits` digits if there is a limit. -/
def readNumber (radix bound : ℕ) (maxDigits : Option ℕ) (zeroFirst : Bool) (s : Text) :
    Option (ℕ × Text) :=
  let digits := s.takeWhile fun c => (Text.digitValue c).any (· < radix)
  if digits = [] ∨ maxDigits.any (· < digits.length) = true then none
  else if zeroFirst = false ∧ digits.head? = some '0' ∧ 1 < digits.length then none
  else do
    let n ← Text.readDigits radix 0 digits
    if n < bound then some (n, s.drop digits.length) else none

def readGivenChar (c : Char) : Text → Option Text
  | [] => none
  | d :: s => if d = c then some s else none

/-- Read the separator, except in front of the first item. -/
def readSeparator (sep : Char) (first : Bool) (s : Text) : Option Text :=
  if first then some s else readGivenChar sep s

def readOctet (first : Bool) (s : Text) : Option (ℕ × Text) := do
  let s ← readSeparator '.' first s
  readNumber 10 (2 ^ 8) (some 3) false s

def readIpv4Addr (s : Text) : Option (List ℕ × Text) := do
  let (a, s) ← readOctet true s
  let (b, s) ← readOctet false s
  let (c, s) ← readOctet false s
  let (d, s) ← readOctet false s
  some ([a, b, c, d], s)

/-- Read up to `limit` groups of an IPv6 address, the last two of which may be an IPv4 address;
the flag says that they are. -/
def readGroups : (limit : ℕ) → (first : Bool) → Text → List ℕ × Bool × Text
  | 0, _, s => ([], false, s)
  | limit + 1, first, s =>
    match if limit = 0 then none else (readSeparator ':' first s).bind readIpv4Addr with
    | some (octets, rest) => (octets, true, rest)
    | none =>
      match (readSeparator ':' first s).bind (readNumber 16 (2 ^ 16) (some 4) true) with
      | none => ([], false, s)
      | some (group, rest) =>
        let (groups, isIpv4, rest) := readGroups limit false rest
        (toBytes group ++ groups, isIpv4, rest)
where
  /-- The two octets of a group. -/
  toBytes (group : ℕ) : List ℕ := [group / 256, group % 256]

/-- The sixteen octets of an IPv6 address; `::` stands for at least one group of zeros. -/
def readIpv6Addr (s : Text) : Option (List ℕ × Text) :=
  let (head, headIpv4, s) := readGroups 8 true s
  if head.length = 16 then some (head, s)
  else if headIpv4 then none
  else do
    let s ← readGivenChar ':' s
    let s ← readGivenChar ':' s
    let (tail, _, s) := readGroups (7 - head.length / 2) true s
    some (head ++ List.replicate (16 - head.length - tail.length) 0 ++ tail, s)

def readPort (s : Text) : Option (UInt16 × Text) := do
  let s ← readGivenChar ':' s
  let (port, s) ← readNumber 10 (2 ^ 16) none true s
  some (UInt16.ofNat port, s)

/-- A missing scope leaves the text as it is; the number is not kept here. -/
def readScopeId (s : Text) : Text :=
  match (readGivenChar '%' s).bind (readNumber 10 (2 ^ 32) none true) with
  | none => s
  | some (_, rest) => rest

def readSocketAddrV4 (s : Text) : Option (SocketAddr × Text) := do
  let (octets, s) ← readIpv4Addr s
  let (port, s) ← readPort s
  some (⟨.v4 (ByteArr.ofBytes 4 (octets.map UInt8.ofNat)), port⟩, s)

def readSocketAddrV6 (s : Text) : Option (SocketAddr × Text) := do
  let s ← readGivenChar '[' s
  let (octets, s) ← readIpv6Addr s
  let s ← readGivenChar ']' (readScopeId s)
  let (port, s) ← readPort s
  some (⟨.v6 (ByteArr.ofBytes 16 (octets.map UInt8.ofNat)), port⟩, s)

def parseSocketAddr (s : String) : Option SocketAddr := do
  let (addr, rest) ← (readSocketAddrV4 s.toList).or (readSocketAddrV6 s.toList)
  if rest.isEmpty then some addr else none

end Desmos.Core.AddrText
