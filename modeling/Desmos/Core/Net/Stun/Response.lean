import Desmos.Core.Net.Stun

/-! # What a binding response says

A success response is a header and a list of attributes, each padded to four bytes; the padding may
hold anything, and the last attribute may go without it.
-/
namespace Desmos.Core.Stun
open Library

def mappedValue (addr : SocketAddr) : Bytes :=
  match addr.ip with
  | .v4 octets => [0, familyIpv4] ++ (toBe 2 addr.port.toNat ++ octets.toList)
  | .v6 octets => [0, familyIpv6] ++ (toBe 2 addr.port.toNat ++ octets.toList)

/-- What an IPv6 address is masked with. -/
def xorMask (tx : TransactionId) : Bytes := toBe 4 magicCookie.toNat ++ tx.toList

/-- The value of XOR-MAPPED-ADDRESS after RFC 5389: the port is masked with the upper half of the
cookie, an IPv4 address with the cookie, an IPv6 address with cookie and transaction id. -/
def xorMappedValue (tx : TransactionId) (addr : SocketAddr) : Bytes :=
  let xPort := addr.port ^^^ (magicCookie >>> 16).toUInt16
  match addr.ip with
  | .v4 octets => [0, familyIpv4] ++ (toBe 2 xPort.toNat ++
      toBe 4 (UInt32.ofNat (ofBe octets.toList) ^^^ magicCookie).toNat)
  | .v6 octets => [0, familyIpv6] ++ (toBe 2 xPort.toNat ++
      octets.toList.zipWith (· ^^^ ·) (xorMask tx))

inductive Attribute where
  | xorMapped (addr : SocketAddr)
  | mapped (addr : SocketAddr)
  | other (atype : UInt16) (value : Bytes) (hxor : atype ≠ attrXorMappedAddress)
      (hmapped : atype ≠ attrMappedAddress) (hlen : value.length < 2 ^ 16)

namespace Attribute

def atype : Attribute → UInt16
  | xorMapped _ => attrXorMappedAddress
  | mapped _ => attrMappedAddress
  | other atype .. => atype

def value (tx : TransactionId) : Attribute → Bytes
  | xorMapped addr => xorMappedValue tx addr
  | mapped addr => mappedValue addr
  | other _ value .. => value

def wire (tx : TransactionId) (a : Attribute) : Bytes :=
  toBe 2 a.atype.toNat ++ (toBe 2 (a.value tx).length ++ a.value tx)

def xorAddr? : Attribute → Option SocketAddr
  | xorMapped addr => some addr
  | _ => none

def mappedAddr? : Attribute → Option SocketAddr
  | mapped addr => some addr
  | _ => none

end Attribute

/-- How many bytes pad a value to a multiple of four. -/
def padding (value : Bytes) : ℕ := padded value.length - value.length

/-- A body that carries a list of attributes. -/
inductive Body (tx : TransactionId) : List Attribute → Bytes → Prop where
  | nil : Body tx [] []
  | last (a : Attribute) (pad : Bytes) (hpad : pad.length ≤ padding (a.value tx)) :
      Body tx [a] (a.wire tx ++ pad)
  | cons (a : Attribute) (pad : Bytes) (hpad : pad.length = padding (a.value tx))
      {attributes : List Attribute} {body : Bytes} (hbody : Body tx attributes body) :
      Body tx (a :: attributes) (a.wire tx ++ (pad ++ body))

def successResponse (tx : TransactionId) (body : Bytes) : Bytes :=
  toBe 2 msgTypeBindingSuccess.toNat ++ (toBe 2 body.length ++ (xorMask tx ++ body))

/-- The last XOR-MAPPED-ADDRESS, or else the last MAPPED-ADDRESS. -/
def reflexiveAddress (attributes : List Attribute) : Except StunError SocketAddr :=
  match (attributes.filterMap Attribute.xorAddr?).getLast? with
  | some addr => .ok addr
  | none =>
    match (attributes.filterMap Attribute.mappedAddr?).getLast? with
    | some addr => .ok addr
    | none => .error .noMappedAddress

section Values
variable {tx : TransactionId} {addr : SocketAddr}

theorem xor_xor_uint16 (x y : UInt16) : x ^^^ y ^^^ y = x := by
  rw [UInt16.xor_assoc, UInt16.xor_self, UInt16.xor_zero]

theorem xor_xor_uint32 (x y : UInt32) : x ^^^ y ^^^ y = x := by
  rw [UInt32.xor_assoc, UInt32.xor_self, UInt32.xor_zero]

theorem zipWith_xor_twice {bs mask : Bytes} (hlen : bs.length ≤ mask.length) :
    (bs.zipWith (· ^^^ ·) mask).zipWith (· ^^^ ·) mask = bs := by
  induction bs generalizing mask with
  | nil => rfl
  | cons b bs ih =>
    cases mask with
    | nil => exact absurd hlen (by simp)
    | cons m mask =>
      rw [List.zipWith_cons_cons, List.zipWith_cons_cons,
        ih (by simpa using hlen), UInt8.xor_assoc, UInt8.xor_self, UInt8.xor_zero]

theorem ofBytes_ofBe_octets (octets : ByteArr 4) :
    ByteArr.ofBytes 4 (toBe 4 (UInt32.ofNat (ofBe octets.toList)).toNat) = octets := by
  rw [toBe_ofBe_uint32 Vector.length_toList, ByteArr.ofBytes_toList]

/-- The common front of the two address values. -/
structure AddressValue (value : Bytes) (family : UInt8) (port : UInt16) (tail : Bytes) : Prop where
  length : value.length = 4 + tail.length
  first : value[0]? = some 0
  family : value[1]? = some family
  port : u16At value 2 = some port
  tail : HasAt value 4 tail

theorem addressValue (family : UInt8) (port : UInt16) (tail : Bytes) :
    AddressValue ([0, family] ++ (toBe 2 port.toNat ++ tail)) family port tail := by
  have hport : HasAt ([0, family] ++ (toBe 2 port.toNat ++ tail)) 2 (toBe 2 port.toNat ++ tail) :=
    ⟨[0, family], [], by simp, rfl⟩
  have htail := hport.right
  refine ⟨?_, rfl, rfl, hport.left.u16At, htail⟩
  simp only [List.length_append, toBe_length, List.length_cons, List.length_nil]
  omega

namespace AddressValue
variable {value : Bytes} {port : UInt16}

theorem decodeV4 {octets : ByteArr 4} (h : AddressValue value familyIpv4 port octets.toList) :
    decodeMappedAddress value = some (.ok ⟨.v4 octets, port⟩) := by
  have hlen := h.length
  have hoctets := h.tail.sliceAt 8 (by rw [Vector.length_toList])
  rw [decodeMappedAddress, if_neg (by omega), h.first, h.family, h.port, hoctets]
  simp [hlen]

theorem decodeV6 {octets : ByteArr 16} (h : AddressValue value familyIpv6 port octets.toList) :
    decodeMappedAddress value = some (.ok ⟨.v6 octets, port⟩) := by
  have hlen := h.length
  have hfamily : familyIpv6 ≠ familyIpv4 := by decide
  have hoctets := h.tail.sliceAt 20 (by rw [Vector.length_toList])
  rw [decodeMappedAddress, if_neg (by omega), h.first, h.family, h.port, hoctets]
  simp [hlen, hfamily]

theorem decodeXorV4 {xAddr : UInt32} {mask : Bytes}
    (h : AddressValue value familyIpv4 port (toBe 4 xAddr.toNat)) :
    decodeXorMappedAddress value mask =
      some (.ok ⟨.v4 (ByteArr.ofBytes 4 (toBe 4 (xAddr ^^^ magicCookie).toNat)),
        port ^^^ (magicCookie >>> 16).toUInt16⟩) := by
  have hlen := h.length
  rw [decodeXorMappedAddress, if_neg (by omega), h.first, h.family, h.port, h.tail.u32At]
  simp [hlen]

theorem decodeXorV6 {masked mask : Bytes} (h : AddressValue value familyIpv6 port masked)
    (hmasked : masked.length = 16) (hmask : mask.length = 16) :
    decodeXorMappedAddress value mask =
      some (.ok ⟨.v6 (ByteArr.ofBytes 16 (masked.zipWith (· ^^^ ·) mask)),
        port ^^^ (magicCookie >>> 16).toUInt16⟩) := by
  have hlen := h.length
  have hfamily : familyIpv6 ≠ familyIpv4 := by decide
  have hread := h.tail.sliceAt 20 (by rw [hmasked])
  have hreadMask := (hasAt_zero mask []).sliceAt 16 (by rw [hmask])
  rw [List.append_nil] at hreadMask
  rw [hmasked] at hlen
  rw [decodeXorMappedAddress, if_neg (by omega), h.first, h.family, h.port, hread, hreadMask]
  simp [hlen, hfamily]

end AddressValue

theorem decodeMappedAddress_mappedValue (addr : SocketAddr) :
    decodeMappedAddress (mappedValue addr) = some (.ok addr) := by
  obtain ⟨ip, port⟩ := addr
  cases ip with
  | v4 octets => exact (addressValue familyIpv4 port octets.toList).decodeV4
  | v6 octets => exact (addressValue familyIpv6 port octets.toList).decodeV6

theorem xorMask_length (tx : TransactionId) : (xorMask tx).length = 16 := by
  simp [xorMask]

theorem decodeXorMappedAddress_xorMappedValue (tx : TransactionId) (addr : SocketAddr) :
    decodeXorMappedAddress (xorMappedValue tx addr) (xorMask tx) = some (.ok addr) := by
  obtain ⟨ip, port⟩ := addr
  have hmask := xorMask_length tx
  cases ip with
  | v4 octets =>
    refine (addressValue familyIpv4 _ _).decodeXorV4.trans ?_
    rw [xor_xor_uint16, xor_xor_uint32, ofBytes_ofBe_octets]
  | v6 octets =>
    have hlen : octets.toList.length = 16 := Vector.length_toList
    refine ((addressValue familyIpv6 _ _).decodeXorV6 ?_ hmask).trans ?_
    · rw [List.length_zipWith, hlen, hmask, Nat.min_self]
    · rw [xor_xor_uint16, zipWith_xor_twice (by rw [hlen, hmask]), ByteArr.ofBytes_toList]

end Values

def Mapped.collect (found : Mapped) (a : Attribute) : Mapped where
  xorAddr := a.xorAddr?.or found.xorAddr
  plainAddr := a.mappedAddr?.or found.plainAddr

section Walk
variable {tx : TransactionId} {attributes : List Attribute} {body attrs : Bytes}

theorem decodeAttribute_value (tx : TransactionId) (found : Mapped) (a : Attribute) :
    decodeAttribute (xorMask tx) found a.atype (a.value tx) = some (.ok (found.collect a)) := by
  cases a with
  | xorMapped addr =>
    simp only [decodeAttribute, Attribute.atype, Attribute.value, if_true]
    rw [decodeXorMappedAddress_xorMappedValue]
    rfl
  | mapped addr =>
    have hne : attrMappedAddress ≠ attrXorMappedAddress := by decide
    simp only [decodeAttribute, Attribute.atype, Attribute.value, hne, if_false, if_true]
    rw [decodeMappedAddress_mappedValue]
    rfl
  | other atype value hxor hmapped hlen =>
    simp [decodeAttribute, Attribute.atype, hxor, hmapped, Mapped.collect, Attribute.xorAddr?,
      Attribute.mappedAddr?]

theorem Attribute.value_length_lt (a : Attribute) : (a.value tx).length < 2 ^ 16 := by
  cases a with
  | xorMapped addr =>
    obtain ⟨_ | _, port⟩ := addr <;> simp [Attribute.value, xorMappedValue, xorMask]
  | mapped addr => obtain ⟨_ | _, port⟩ := addr <;> simp [Attribute.value, mappedValue]
  | other atype value hxor hmapped hlen => exact hlen

theorem walkAttributes_attribute {cursor : ℕ} (a : Attribute) (found : Mapped)
    (h : HasAt attrs cursor (a.wire tx)) :
    walkAttributes attrs (xorMask tx) cursor found =
      walkAttributes attrs (xorMask tx) (cursor + (4 + padded (a.value tx).length))
        (found.collect a) := by
  have hlen : (UInt16.ofNat (a.value tx).length).toNat = (a.value tx).length :=
    UInt16.toNat_ofNat_of_lt' a.value_length_lt
  have hrest := h.right
  rw [toBe_length] at hrest
  have hvalue := hrest.right
  rw [toBe_length, Nat.add_assoc] at hvalue
  have hfits := hvalue.le_length
  conv_lhs => unfold walkAttributes
  rw [if_pos (by omega), h.left.u16At, hrest.left.u16At_ofNat a.value_length_lt]
  simp only [Option.bind_eq_bind, Option.bind_some, hlen]
  rw [if_neg (by omega), Nat.min_eq_left (by omega), hvalue.sliceAt _ (by omega),
    Option.bind_some, decodeAttribute_value, Option.bind_some]

theorem walkAttributes_end {cursor : ℕ} (mask : Bytes) (found : Mapped)
    (h : attrs.length < cursor + 4) :
    walkAttributes attrs mask cursor found = some (.ok found) := by
  rw [walkAttributes, if_neg (by omega)]

theorem length_le_padded (n : ℕ) : n ≤ padded n := by
  unfold padded
  omega

theorem Attribute.wire_length (a : Attribute) : (a.wire tx).length = 4 + (a.value tx).length := by
  simp only [Attribute.wire, List.length_append, toBe_length]
  omega

theorem walkAttributes_body (h : Body tx attributes body) {cursor : ℕ}
    (hat : HasAt attrs cursor body) (hend : cursor + body.length = attrs.length) (found : Mapped) :
    walkAttributes attrs (xorMask tx) cursor found =
      some (.ok (attributes.foldl Mapped.collect found)) := by
  induction h generalizing cursor found with
  | nil =>
    rw [List.length_nil] at hend
    exact walkAttributes_end _ _ (by omega)
  | last a pad hpad =>
    -- the padding that is missing only moves the cursor further past the end
    rw [walkAttributes_attribute a found hat.left, List.foldl_cons, List.foldl_nil]
    apply walkAttributes_end
    rw [List.length_append, a.wire_length] at hend
    have := length_le_padded (a.value tx).length
    unfold padding at hpad
    omega
  | @cons a pad hpad attributes body hbody ih =>
    have hnext : cursor + (4 + padded (a.value tx).length) =
        cursor + (a.wire tx).length + pad.length := by
      have := length_le_padded (a.value tx).length
      unfold padding at hpad
      rw [a.wire_length, hpad]
      omega
    rw [walkAttributes_attribute a found hat.left, List.foldl_cons, hnext]
    apply ih hat.right.right
    rw [← hend, List.length_append, List.length_append]
    omega

theorem foldl_collect (attributes : List Attribute) :
    attributes.foldl Mapped.collect ⟨none, none⟩ =
      ⟨(attributes.filterMap Attribute.xorAddr?).getLast?,
        (attributes.filterMap Attribute.mappedAddr?).getLast?⟩ := by
  induction attributes using List.reverseRecOn with
  | nil => rfl
  | append_singleton attributes a ih =>
    rw [List.foldl_append, ih, List.foldl_cons, List.foldl_nil, List.filterMap_append,
      List.filterMap_append, List.getLast?_append, List.getLast?_append]
    cases a with
    | xorMapped addr => rfl
    | mapped addr => rfl
    | other atype value hxor hmapped hlen => rfl

end Walk

theorem parseBindingResponse_success (tx : TransactionId) {body : Bytes} (trailing : Bytes)
    (hlen : body.length < 2 ^ 16) {found : Mapped}
    (hwalk : walkAttributes body (xorMask tx) 0 ⟨none, none⟩ = some (.ok found)) :
    parseBindingResponse (successResponse tx body ++ trailing) tx = some found.preferred := by
  generalize hbytes : successResponse tx body ++ trailing = bytes
  have hall : HasAt bytes 0 (successResponse tx body) := hbytes ▸ hasAt_zero _ trailing
  have hlength : HasAt bytes 2 (toBe 2 body.length ++ (xorMask tx ++ body)) := hall.right
  have hmask : HasAt bytes 4 (xorMask tx ++ body) := by
    have h := hlength.right
    rwa [toBe_length] at h
  have htx : HasAt bytes 8 tx.toList := hmask.left.right
  have hbody : HasAt bytes headerLen body := by
    have h := hmask.right
    rwa [xorMask_length] at h
  have hlen' : (UInt16.ofNat body.length).toNat = body.length :=
    UInt16.toNat_ofNat_of_lt' hlen
  have hinside := hbody.le_length
  have hbound : ¬ bytes.length < headerLen := by omega
  have hbound' : ¬ bytes.length < headerLen + (UInt16.ofNat body.length).toNat := by omega
  have hsuccess : msgTypeBindingSuccess ≠ msgTypeBindingError := by decide
  rw [parseBindingResponse, if_neg hbound, hall.left.u16At, hlength.left.u16At_ofNat hlen,
    hmask.left.left.u32At, htx.sliceAt _ (by rw [Vector.length_toList])]
  simp only [Option.bind_eq_bind, Option.bind_some, ne_eq, not_true_eq_false, if_false]
  rw [parseBody, if_neg hbound', if_neg hsuccess, if_neg (not_not_intro rfl),
    hbody.sliceAt _ (by rw [hlen']), hmask.left.sliceAt _ (by rw [xorMask_length])]
  simp [hwalk]

/-- Parsing never reads outside of its buffer, and of every success response it returns the address
that the sender encoded last, in the masked form if there is one. -/
theorem binding_response_decoded :
    (∀ bytes tx, ∃ result, parseBindingResponse bytes tx = some result) ∧
    ∀ tx attributes body trailing, Body tx attributes body → body.length < 2 ^ 16 →
      parseBindingResponse (successResponse tx body ++ trailing) tx =
        some (reflexiveAddress attributes) := by
  constructor
  · intro bytes tx
    obtain ⟨result, hresult, -⟩ := parseBindingResponse_returns bytes tx
    exact ⟨result, hresult⟩
  · intro tx attributes body trailing hbody hlen
    have hwhole : HasAt body 0 body := ⟨[], [], by simp, rfl⟩
    have hwalk := walkAttributes_body hbody hwhole (Nat.zero_add _) ⟨none, none⟩
    rw [parseBindingResponse_success tx trailing hlen hwalk, foldl_collect, reflexiveAddress,
      Mapped.preferred]
    cases (attributes.filterMap Attribute.xorAddr?).getLast? with
    | some addr => rfl
    | none =>
      cases (attributes.filterMap Attribute.mappedAddr?).getLast? with
      | some addr => rfl
      | none => rfl

namespace Sample

def stunTx : TransactionId := Vector.replicate 12 7

def publicAddr : SocketAddr := ⟨.v4 (ByteArr.ofBytes 4 [203, 0, 113, 5]), 40000⟩

/-- A comment of five bytes, then the address without padding behind it. -/
def stunAttributes : List Attribute :=
  [.other 0x8022 [104, 101, 108, 108, 111] (by decide) (by decide) (by decide),
    .mapped ⟨.v4 (ByteArr.ofBytes 4 [10, 0, 0, 1]), 1⟩, .xorMapped publicAddr]

end Sample

open Stun.Sample in
theorem binding_response_decoded_sample :
    ∃ body, Body stunTx stunAttributes body ∧
      parseBindingResponse (successResponse stunTx body ++ [1, 2, 3]) stunTx =
        some (.ok publicAddr) := by
  have hlast : Body stunTx [.xorMapped publicAddr] _ :=
    .last (.xorMapped publicAddr) [] (Nat.zero_le _)
  have hbody := Body.cons (.other 0x8022 [104, 101, 108, 108, 111] (by decide) (by decide)
    (by decide)) [9, 9, 9] rfl (.cons (.mapped ⟨.v4 (ByteArr.ofBytes 4 [10, 0, 0, 1]), 1⟩) [] rfl
      hlast)
  exact ⟨_, hbody, binding_response_decoded.2 stunTx stunAttributes _ [1, 2, 3] hbody (by decide)⟩

end Desmos.Core.Stun
