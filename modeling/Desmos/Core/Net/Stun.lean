import Desmos.Core.Io
import Desmos.Library.Offsets

/-! # STUN binding responses

The parser of `net::stun` reads at offsets. An access outside of its buffer would stop it, which is
the outer `none` here. Offsets stay far below 64 bits, because a body has at most 65535 bytes.
-/
namespace Desmos.Core.Stun
open Library

def magicCookie : UInt32 := 0x2112A442
def headerLen : ℕ := 20

def msgTypeBindingRequest : UInt16 := 0x0001
def msgTypeBindingSuccess : UInt16 := 0x0101
def msgTypeBindingError : UInt16 := 0x0111

def attrMappedAddress : UInt16 := 0x0001
def attrXorMappedAddress : UInt16 := 0x0020

def familyIpv4 : UInt8 := 0x01
def familyIpv6 : UInt8 := 0x02

inductive StunError where
  | truncated
  | badMagic
  | transactionMismatch
  | notBinding
  | errorResponse
  | badFamily
  | badAttribute
  | noMappedAddress
  | timeout
  | io (message : String)
  deriving DecidableEq, Repr

abbrev TransactionId := ByteArr 12

def buildBindingRequest (tx : TransactionId) : Bytes :=
  toBe 2 msgTypeBindingRequest.toNat ++ toBe 2 0 ++ toBe 4 magicCookie.toNat ++ tx.toList

def decodeMappedAddress (value : Bytes) : Option (Except StunError SocketAddr) :=
  if value.length < 4 then some (.error .badAttribute)
  else do
    let first ← value[0]?
    if first ≠ 0 then some (.error .badAttribute)
    else do
      let family ← value[1]?
      let port ← u16At value 2
      if family = familyIpv4 then
        if value.length ≠ 8 then some (.error .badAttribute)
        else do
          let octets ← sliceAt value 4 8
          some (.ok ⟨.v4 (ByteArr.ofBytes 4 octets), port⟩)
      else if family = familyIpv6 then
        if value.length ≠ 20 then some (.error .badAttribute)
        else do
          let octets ← sliceAt value 4 20
          some (.ok ⟨.v6 (ByteArr.ofBytes 16 octets), port⟩)
      else some (.error .badFamily)

def decodeXorMappedAddress (value cookieAndTxid : Bytes) : Option (Except StunError SocketAddr) :=
  if value.length < 4 then some (.error .badAttribute)
  else do
    let first ← value[0]?
    if first ≠ 0 then some (.error .badAttribute)
    else do
      let family ← value[1]?
      let xPort ← u16At value 2
      let port := xPort ^^^ (magicCookie >>> 16).toUInt16
      if family = familyIpv4 then
        if value.length ≠ 8 then some (.error .badAttribute)
        else do
          let xAddr ← u32At value 4
          some (.ok ⟨.v4 (ByteArr.ofBytes 4 (toBe 4 (xAddr ^^^ magicCookie).toNat)), port⟩)
      else if family = familyIpv6 then
        if value.length ≠ 20 then some (.error .badAttribute)
        else do
          let masked ← sliceAt value 4 20
          let mask ← sliceAt cookieAndTxid 0 16
          some (.ok ⟨.v6 (ByteArr.ofBytes 16 (masked.zipWith (· ^^^ ·) mask)), port⟩)
      else some (.error .badFamily)

/-- `(alen + 3) & !3`: clearing the two low bits rounds down to a multiple of four. -/
def padded (alen : ℕ) : ℕ := (alen + 3) / 4 * 4

/-- The two addresses that the walk over the attributes collects. -/
structure Mapped where
  xorAddr : Option SocketAddr
  plainAddr : Option SocketAddr
  deriving DecidableEq

/-- `xor_addr.or(plain_addr).ok_or(NoMappedAddress)`. -/
def Mapped.preferred (found : Mapped) : Except StunError SocketAddr :=
  match found.xorAddr.or found.plainAddr with
  | some addr => .ok addr
  | none => .error .noMappedAddress

/-- What an attribute adds; those of other types are ignored. -/
def decodeAttribute (cookieAndTxid : Bytes) (found : Mapped) (atype : UInt16) (value : Bytes) :
    Option (Except StunError Mapped) :=
  if atype = attrXorMappedAddress then do
    let addr ← decodeXorMappedAddress value cookieAndTxid
    some (addr.map fun addr => { found with xorAddr := some addr })
  else if atype = attrMappedAddress then do
    let addr ← decodeMappedAddress value
    some (addr.map fun addr => { found with plainAddr := some addr })
  else some (.ok found)

/-- The attribute loop from `cursor` on. An under-padded last attribute is accepted. -/
def walkAttributes (attrs cookieAndTxid : Bytes) (cursor : ℕ) (found : Mapped) :
    Option (Except StunError Mapped) :=
  if cursor + 4 ≤ attrs.length then do
    let atype ← u16At attrs cursor
    let alen ← u16At attrs (cursor + 2)
    if attrs.length < cursor + 4 + padded alen.toNat ∧ attrs.length < cursor + 4 + alen.toNat then
      some (.error .truncated)
    else do
      let value ← sliceAt attrs (cursor + 4) (min (cursor + 4 + alen.toNat) attrs.length)
      match ← decodeAttribute cookieAndTxid found atype value with
      | .error e => some (.error e)
      | .ok found => walkAttributes attrs cookieAndTxid (cursor + (4 + padded alen.toNat)) found
  else some (.ok found)
termination_by attrs.length - cursor

/-- What the parser does once the transaction id is the expected one. -/
def parseBody (bytes : Bytes) (msgType bodyLen : UInt16) : Option (Except StunError SocketAddr) :=
  if bytes.length < headerLen + bodyLen.toNat then some (.error .truncated)
  else if msgType = msgTypeBindingError then some (.error .errorResponse)
  else if msgType ≠ msgTypeBindingSuccess then some (.error .notBinding)
  else do
    let attrs ← sliceAt bytes headerLen (headerLen + bodyLen.toNat)
    let cookieAndTxid ← sliceAt bytes 4 20
    match ← walkAttributes attrs cookieAndTxid 0 ⟨none, none⟩ with
    | .error e => some (.error e)
    | .ok found => some found.preferred

def parseBindingResponse (bytes : Bytes) (expected : TransactionId) :
    Option (Except StunError SocketAddr) :=
  if bytes.length < headerLen then some (.error .truncated)
  else do
    let msgType ← u16At bytes 0
    let bodyLen ← u16At bytes 2
    let magic ← u32At bytes 4
    if magic ≠ magicCookie then some (.error .badMagic)
    else do
      let txid ← sliceAt bytes 8 20
      if txid ≠ expected.toList then some (.error .transactionMismatch)
      else parseBody bytes msgType bodyLen

section Returns
variable {value mask attrs bytes : Bytes}

/-- Behind the check of the transaction id no other error is taken for a mismatch. -/
def Answers {α : Type} (r : Except StunError α) : Prop := r ≠ .error .transactionMismatch

theorem decodeMappedAddress_returns : Returns (decodeMappedAddress value) Answers := by
  refine .ite (fun _ => .pure nofun) fun hlen => ?_
  refine (returns_getElem? (by omega)).bind fun first _ => ?_
  refine .ite (fun _ => .pure nofun) fun _ => ?_
  refine (returns_getElem? (by omega)).bind fun family _ => ?_
  refine (returns_u16At (by omega)).bind fun port _ => ?_
  refine .ite (fun _ => ?_) fun _ => .ite (fun _ => ?_) fun _ => .pure nofun
  · refine .ite (fun _ => .pure nofun) fun hv4 => ?_
    exact (returns_sliceAt (by omega) (by omega)).bind fun _ _ => .pure nofun
  · refine .ite (fun _ => .pure nofun) fun hv6 => ?_
    exact (returns_sliceAt (by omega) (by omega)).bind fun _ _ => .pure nofun

theorem decodeXorMappedAddress_returns (hmask : 16 ≤ mask.length) :
    Returns (decodeXorMappedAddress value mask) Answers := by
  refine .ite (fun _ => .pure nofun) fun hlen => ?_
  refine (returns_getElem? (by omega)).bind fun first _ => ?_
  refine .ite (fun _ => .pure nofun) fun _ => ?_
  refine (returns_getElem? (by omega)).bind fun family _ => ?_
  refine (returns_u16At (by omega)).bind fun port _ => ?_
  refine .ite (fun _ => ?_) fun _ => .ite (fun _ => ?_) fun _ => .pure nofun
  · refine .ite (fun _ => .pure nofun) fun hv4 => ?_
    exact (returns_u32At (by omega)).bind fun _ _ => .pure nofun
  · refine .ite (fun _ => .pure nofun) fun hv6 => ?_
    refine (returns_sliceAt (by omega) (by omega)).bind fun masked _ => ?_
    exact (returns_sliceAt (Nat.zero_le _) hmask).bind fun _ _ => .pure nofun

theorem decodeAttribute_returns (hmask : 16 ≤ mask.length) (found : Mapped) (atype : UInt16) :
    Returns (decodeAttribute mask found atype value) Answers := by
  have hmap : ∀ (r : Except StunError SocketAddr) f, Answers r →
      Returns (some (r.map f)) (Answers (α := Mapped)) := by
    intro r f hr
    refine .pure ?_
    cases r with
    | error e => exact fun h => hr (by simpa [Except.map] using h)
    | ok addr => nofun
  refine .ite (fun _ => ?_) fun _ => .ite (fun _ => ?_) fun _ => .pure nofun
  · exact (decodeXorMappedAddress_returns hmask).bind fun r hr => hmap r _ hr
  · exact decodeMappedAddress_returns.bind fun r hr => hmap r _ hr

theorem walkAttributes_returns (hmask : 16 ≤ mask.length) (cursor : ℕ) (found : Mapped) :
    Returns (walkAttributes attrs mask cursor found) Answers := by
  induction hleft : attrs.length - cursor using Nat.strong_induction_on
    generalizing cursor found with
  | _ left ih =>
    unfold walkAttributes
    refine .ite (fun hmore => ?_) fun _ => .pure nofun
    refine (returns_u16At (by omega)).bind fun atype _ => ?_
    refine (returns_u16At (by omega)).bind fun alen _ => ?_
    refine .ite (fun _ => .pure nofun) fun hfits => ?_
    have hvalue : cursor + 4 + alen.toNat ≤ attrs.length := by
      unfold padded at hfits
      omega
    rw [Nat.min_eq_left hvalue]
    refine (returns_sliceAt (by omega) hvalue).bind fun value _ => ?_
    refine (decodeAttribute_returns hmask found atype).bind fun r hr => ?_
    match r, hr with
    | .error e, hr => exact .pure fun h => hr (by simpa using h)
    | .ok found', _ => exact ih _ (by omega) _ _ rfl

theorem parseBody_returns {bodyLen msgType : UInt16} (hlen : headerLen ≤ bytes.length) :
    Returns (parseBody bytes msgType bodyLen) Answers := by
  unfold headerLen at hlen
  refine .ite (fun _ => .pure nofun) fun hbody => ?_
  refine .ite (fun _ => .pure nofun) fun _ => .ite (fun _ => .pure nofun) fun _ => ?_
  refine (returns_sliceAt (by omega) (by omega)).bind fun attrs _ => ?_
  refine (returns_sliceAt (by omega) (by omega)).bind fun mask hmask => ?_
  refine (walkAttributes_returns (by omega) 0 _).bind fun r hr => ?_
  match r, hr with
  | .error e, hr => exact .pure fun h => hr (by simpa using h)
  | .ok found, _ =>
    refine .pure ?_
    unfold Answers Mapped.preferred
    split <;> nofun

/-- The parser returns on every input. -/
theorem parseBindingResponse_returns (bytes : Bytes) (expected : TransactionId) :
    Returns (parseBindingResponse bytes expected) fun _ => True := by
  refine .ite (fun _ => .pure trivial) fun hlen => ?_
  have hlen : headerLen ≤ bytes.length := Nat.not_lt.mp hlen
  have hlen' : 20 ≤ bytes.length := hlen
  refine (returns_u16At (by omega)).bind fun msgType _ => ?_
  refine (returns_u16At (by omega)).bind fun bodyLen _ => ?_
  refine (returns_u32At (by omega)).bind fun magic _ => ?_
  refine .ite (fun _ => .pure trivial) fun _ => ?_
  refine (returns_sliceAt (by omega) (by omega)).bind fun txid _ => ?_
  refine .ite (fun _ => .pure trivial) fun _ => ?_
  exact (parseBody_returns hlen).mono fun _ _ => trivial

end Returns

end Desmos.Core.Stun
