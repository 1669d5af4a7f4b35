import Desmos.Core.Io
import Desmos.Library.Offsets
import Desmos.Library.TextSearch

/-! # The DNS resolver

`net::dns` writes a question for the A records of a name and reads the response at offsets. An
access outside of the packet would stop the reader, which is the outer `none` here.
-/
namespace Desmos.Core.Dns
open Library Library.Text

inductive DnsError where
  | nameTooLong
  | labelTooLong
  | truncatedResponse
  | idMismatch
  | serverError (code : UInt8)
  | noAnswer
  | io (error : IoError)
  deriving DecidableEq, Repr

def typeA : UInt16 := 1
def classIn : UInt16 := 1
def headerLen : ℕ := 12
def maxDnsPacket : ℕ := 512

/-- One turn of the loop over the labels of a name. -/
def pushLabel (buf : Bytes) (label : Text) : Except DnsError Bytes :=
  if 63 < utf8Len label then .error .labelTooLong
  else .ok (buf ++ UInt8.ofNat (utf8Len label) :: asBytes label)

/-- Identifier, recursion desired, one question and no records. -/
def queryHeader (txId : UInt16) : Bytes :=
  toBe 2 txId.toNat ++ [0x01, 0x00, 0x00, 0x01, 0x00, 0x00, 0x00, 0x00, 0x00, 0x00]

def buildQuery (name : Text) (txId : UInt16) : Except DnsError Bytes :=
  if 253 < utf8Len name then .error .nameTooLong
  else do
    let buf ← (name.splitOn '.').foldlM pushLabel (queryHeader txId)
    .ok (buf ++ ([0x00] ++ (toBe 2 typeA.toNat ++ toBe 2 classIn.toNat)))

structure DnsAnswer where
  txId : UInt16
  addresses : List (ByteArr 4)
  ttl : UInt32
  deriving DecidableEq

def skipName (packet : Bytes) (pos : ℕ) : Option (Except DnsError ℕ) :=
  if packet.length ≤ pos then some (.error .truncatedResponse)
  else do
    let len ← packet[pos]?
    if len = 0 then some (.ok (pos + 1))
    else if len &&& 0xC0 = 0xC0 then
      if packet.length ≤ pos + 1 then some (.error .truncatedResponse) else some (.ok (pos + 2))
    else skipName packet (pos + (1 + len.toNat))
termination_by packet.length - pos

/-- The loop over the questions: a name, QTYPE and QCLASS each. -/
def skipQuestions (packet : Bytes) : ℕ → ℕ → Option (Except DnsError ℕ)
  | 0, pos => some (.ok pos)
  | count + 1, pos => do
    match ← skipName packet pos with
    | .error e => some (.error e)
    | .ok pos =>
      if packet.length < pos + 4 then some (.error .truncatedResponse)
      else skipQuestions packet count (pos + 4)

/-- `addresses` and `first_ttl` of the loop over the answers. -/
structure Found where
  addresses : List (ByteArr 4)
  firstTtl : UInt32
  deriving DecidableEq

def Found.push (found : Found) (addr : ByteArr 4) (ttl : UInt32) : Found where
  addresses := found.addresses ++ [addr]
  firstTtl := if found.addresses.isEmpty then ttl else found.firstTtl

def readAnswers (packet : Bytes) : ℕ → ℕ → Found → Option (Except DnsError Found)
  | 0, _, found => some (.ok found)
  | count + 1, pos, found => do
    match ← skipName packet pos with
    | .error e => some (.error e)
    | .ok pos =>
      if packet.length < pos + 10 then some (.error .truncatedResponse)
      else do
        let rtype ← u16At packet pos
        let _rclass ← u16At packet (pos + 2)
        let ttl ← u32At packet (pos + 4)
        let rdlength ← u16At packet (pos + 8)
        if packet.length < pos + 10 + rdlength.toNat then some (.error .truncatedResponse)
        else if rtype = typeA ∧ rdlength = 4 then do
          let addr ← sliceAt packet (pos + 10) (pos + 10 + 4)
          readAnswers packet count (pos + 10 + rdlength.toNat)
            (found.push (ByteArr.ofBytes 4 addr) ttl)
        else readAnswers packet count (pos + 10 + rdlength.toNat) found

def Found.answer (found : Found) (txId : UInt16) : Except DnsError DnsAnswer :=
  if found.addresses.isEmpty then .error .noAnswer
  else .ok ⟨txId, found.addresses, found.firstTtl⟩

variable (packet : Bytes)

def parseResponse (expectedId : UInt16) : Option (Except DnsError DnsAnswer) :=
  if packet.length < headerLen then some (.error .truncatedResponse)
  else do
    let txId ← u16At packet 0
    if txId ≠ expectedId then some (.error .idMismatch)
    else do
      let flags ← packet[3]?
      if flags &&& 0x0F ≠ 0 then some (.error (.serverError (flags &&& 0x0F)))
      else do
        let qdcount ← u16At packet 4
        let ancount ← u16At packet 6
        match ← skipQuestions packet qdcount.toNat headerLen with
        | .error e => some (.error e)
        | .ok pos =>
          match ← readAnswers packet ancount.toNat pos ⟨[], 0⟩ with
          | .error e => some (.error e)
          | .ok found => some (found.answer txId)

/-- `received` is the datagram that comes back on the socket, or the first of its calls to fail. -/
def resolve (name : Text) (txId : UInt16) (received : Except IoError Bytes) :
    Option (Except DnsError DnsAnswer) :=
  match buildQuery name txId with
  | .error e => some (.error e)
  | .ok _ =>
    match received with
    | .error e => some (.error (.io e))
    | .ok data => parseResponse (data.take maxDnsPacket) txId

section Returns

theorem skipName_returns (pos : ℕ) : Returns (skipName packet pos) fun _ => True := by
  induction hleft : packet.length - pos using Nat.strong_induction_on generalizing pos with
  | _ left ih =>
    unfold skipName
    refine .ite (fun _ => .pure trivial) fun hpos => ?_
    refine (returns_getElem? (by omega)).bind fun len _ => ?_
    refine .ite (fun _ => .pure trivial) fun _ => ?_
    refine .ite (fun _ => ?_) fun _ => ?_
    · exact .ite (fun _ => .pure trivial) fun _ => .pure trivial
    · exact ih _ (by omega) _ rfl

theorem skipQuestions_returns (count pos : ℕ) :
    Returns (skipQuestions packet count pos) fun _ => True := by
  induction count generalizing pos with
  | zero => exact .pure trivial
  | succ count ih =>
    refine (skipName_returns packet pos).bind fun r _ => ?_
    cases r with
    | error e => exact .pure trivial
    | ok pos => exact .ite (fun _ => .pure trivial) fun _ => ih _

theorem readAnswers_returns (count pos : ℕ) (found : Found) :
    Returns (readAnswers packet count pos found) fun _ => True := by
  induction count generalizing pos found with
  | zero => exact .pure trivial
  | succ count ih =>
    refine (skipName_returns packet pos).bind fun r _ => ?_
    cases r with
    | error e => exact .pure trivial
    | ok pos =>
      refine .ite (fun _ => .pure trivial) fun hfixed => ?_
      refine (returns_u16At (by omega)).bind fun rtype _ => ?_
      refine (returns_u16At (by omega)).bind fun rclass _ => ?_
      refine (returns_u32At (by omega)).bind fun ttl _ => ?_
      refine (returns_u16At (by omega)).bind fun rdlength _ => ?_
      refine .ite (fun _ => .pure trivial) fun hdata => ?_
      refine .ite (fun haddress => ?_) fun _ => ih _ _
      rw [haddress.2] at hdata
      have hinside : pos + 10 + 4 ≤ packet.length := not_lt.mp hdata
      exact (returns_sliceAt (by omega) hinside).bind fun _ _ => ih _ _

theorem parseResponse_returns (expectedId : UInt16) :
    Returns (parseResponse packet expectedId) fun _ => True := by
  refine .ite (fun _ => .pure trivial) fun hheader => ?_
  rw [headerLen] at hheader
  refine (returns_u16At (by omega)).bind fun txId _ => ?_
  refine .ite (fun _ => .pure trivial) fun _ => ?_
  refine (returns_getElem? (by omega)).bind fun flags _ => ?_
  refine .ite (fun _ => .pure trivial) fun _ => ?_
  refine (returns_u16At (by omega)).bind fun qdcount _ => ?_
  refine (returns_u16At (by omega)).bind fun ancount _ => ?_
  refine (skipQuestions_returns packet _ _).bind fun r _ => ?_
  cases r with
  | error e => exact .pure trivial
  | ok pos =>
    refine (readAnswers_returns packet _ _ _).bind fun r _ => ?_
    cases r with
    | error e => exact .pure trivial
    | ok found => exact .pure trivial

theorem resolve_returns (name : Text) (txId : UInt16) (received : Except IoError Bytes) :
    Returns (resolve name txId received) fun _ => True := by
  unfold resolve
  cases buildQuery name txId with
  | error e => exact .pure trivial
  | ok query =>
    cases received with
    | error e => exact .pure trivial
    | ok data => exact parseResponse_returns _ _

end Returns

end Desmos.Core.Dns
