import Desmos.Library.Offsets
import Desmos.Library.Text

/-! # The netlink watcher

`parse_events` walks the messages of a datagram and the attributes of each link message. A read
outside of the buffer and a sum that leaves the 64 bits of a size stop the program.
-/
namespace Desmos.Core.Watcher
open Library

inductive ByteOrder where
  | little
  | big

namespace ByteOrder

def toBytes : ByteOrder → ℕ → ℕ → Bytes
  | little, w, n => (toBe w n).reverse
  | big, w, n => toBe w n

def ofBytes : ByteOrder → Bytes → ℕ
  | little, word => ofBe word.reverse
  | big, word => ofBe word

@[simp] theorem length_toBytes (o : ByteOrder) (w n : ℕ) : (o.toBytes w n).length = w := by
  cases o <;> simp [toBytes]

theorem ofBytes_toBytes (o : ByteOrder) (w n : ℕ) : o.ofBytes (o.toBytes w n) = n % 256 ^ w := by
  cases o <;> simp [toBytes, ofBytes, ofBe_toBe]

theorem ofBytes_slice {o : ByteOrder} {raw : Bytes} {k w n : ℕ} (h : HasAt raw k (o.toBytes w n))
    (hn : n < 256 ^ w) : o.ofBytes (slice raw k w) = n := by
  have hword := h.slice_eq
  rw [length_toBytes] at hword
  rw [hword, ofBytes_toBytes, Nat.mod_eq_of_lt hn]

end ByteOrder

/-- `CStr::to_string_lossy`: UTF-8 is taken as it is, and nothing else comes out empty. -/
structure Lossy where
  decode : Bytes → Text
  decode_eq_nil : ∀ bs, decode bs = [] ↔ bs = []
  decode_utf8 : ∀ s, decode (Text.asBytes s) = s

inductive InterfaceEvent where
  | linkUp (name : Text) (ifindex : Int32)
  | linkDown (name : Text) (ifindex : Int32)
  deriving DecidableEq, Repr

def rtmNewlink : UInt16 := 16
def rtmDellink : UInt16 := 17
def iflaIfname : UInt16 := 3
def iffUp : UInt32 := 1

structure Nlmsghdr where
  nlmsgLen : UInt32
  nlmsgType : UInt16

structure Ifinfomsg where
  ifiIndex : Int32
  ifiFlags : UInt32

structure Rtattr where
  rtaLen : UInt16
  rtaType : UInt16

def nlmsgSize : ℕ := 16
def ifinfoSize : ℕ := 16
def rtattrSize : ℕ := 4

def usizeAdd (a b : ℕ) : Option ℕ := if a + b < 2 ^ 64 then some (a + b) else none

def align4 (n : ℕ) : Option ℕ := (usizeAdd n 3).map fun m => m &&& (2 ^ 64 - 1 - 3)

/-- `CStr::from_bytes_until_nul`. -/
def fromBytesUntilNul (bytes : Bytes) : Option Bytes :=
  if 0 ∈ bytes then some (bytes.takeWhile (· ≠ 0)) else none

section Parser
variable (o : ByteOrder) (lossy : Lossy) (bytes : Bytes)

def readNlmsghdr (off : ℕ) : Option Nlmsghdr :=
  (sliceAt bytes off (off + nlmsgSize)).map fun raw =>
    ⟨UInt32.ofNat (o.ofBytes (slice raw 0 4)), UInt16.ofNat (o.ofBytes (slice raw 4 2))⟩

def readIfinfomsg (off : ℕ) : Option Ifinfomsg :=
  (sliceAt bytes off (off + ifinfoSize)).map fun raw =>
    ⟨(UInt32.ofNat (o.ofBytes (slice raw 4 4))).toInt32, UInt32.ofNat (o.ofBytes (slice raw 8 4))⟩

def readRtattr (off : ℕ) : Option Rtattr :=
  (sliceAt bytes off (off + rtattrSize)).map fun raw =>
    ⟨UInt16.ofNat (o.ofBytes (slice raw 0 2)), UInt16.ofNat (o.ofBytes (slice raw 2 2))⟩

/-- What the name attribute with these data leaves in `ifname`. -/
def ifnameIn (data : Bytes) : Text :=
  match fromBytesUntilNul data with
  | some name => lossy.decode name
  | none => []

def findIfname (attrsEnd : ℕ) : (fuel ao : ℕ) → Option Text
  | 0, _ => none
  | fuel + 1, ao => do
    let dataStart ← usizeAdd ao rtattrSize
    if attrsEnd < dataStart then some []
    else
      let rta ← readRtattr o bytes ao
      let rtaLen := rta.rtaLen.toNat
      if rtaLen < rtattrSize then some []
      else
        let dataEnd ← usizeAdd ao rtaLen
        if attrsEnd < dataEnd then some []
        else if rta.rtaType = iflaIfname then (sliceAt bytes dataStart dataEnd).map (ifnameIn lossy)
        else
          let step ← align4 rtaLen
          let next ← usizeAdd ao step
          findIfname attrsEnd fuel next

def linkEvent (off : ℕ) (hdr : Nlmsghdr) : Option (Option InterfaceEvent) :=
  if (hdr.nlmsgType = rtmNewlink ∨ hdr.nlmsgType = rtmDellink) ∧
      nlmsgSize + ifinfoSize ≤ hdr.nlmsgLen.toNat then do
    let ifinfoStart ← usizeAdd off nlmsgSize
    let ifinfo ← readIfinfomsg o bytes ifinfoStart
    let attrsStart ← usizeAdd ifinfoStart ifinfoSize
    let attrsEnd ← usizeAdd off hdr.nlmsgLen.toNat
    let ifname ← findIfname o lossy bytes attrsEnd (bytes.length + 1) attrsStart
    if ifname.isEmpty then some none
    else if ifinfo.ifiFlags &&& iffUp ≠ 0 ∧ hdr.nlmsgType = rtmNewlink then
      some (some (.linkUp ifname ifinfo.ifiIndex))
    else some (some (.linkDown ifname ifinfo.ifiIndex))
  else some none

def parseFrom : (fuel off : ℕ) → Option (List InterfaceEvent)
  | 0, _ => none
  | fuel + 1, off => do
    let hdrEnd ← usizeAdd off nlmsgSize
    if bytes.length < hdrEnd then some []
    else
      let hdr ← readNlmsghdr o bytes off
      let msgLen := hdr.nlmsgLen.toNat
      if msgLen < nlmsgSize then some []
      else
        let msgEnd ← usizeAdd off msgLen
        if bytes.length < msgEnd then some []
        else
          let event ← linkEvent o lossy bytes off hdr
          let step ← align4 msgLen
          let next ← usizeAdd off step
          let events ← parseFrom fuel next
          some (event.toList ++ events)

def parseEvents : Option (List InterfaceEvent) := parseFrom o lossy bytes (bytes.length + 1) 0

end Parser

/-- The bytes that are missing to a multiple of four. -/
def padding (n : ℕ) : ℕ := (4 - n % 4) % 4

theorem usizeAdd_eq {a b : ℕ} (h : a + b < 2 ^ 64) : usizeAdd a b = some (a + b) := if_pos h

theorem clear_low_bits {m : ℕ} (h : m < 2 ^ 64) : m &&& (2 ^ 64 - 1 - 3) = m / 4 * 4 := by
  have hmask : m &&& (2 ^ 62 - 1) <<< 2 = (m >>> 2 &&& (2 ^ 62 - 1)) <<< 2 := by
    apply Nat.eq_of_testBit_eq
    intro i
    simp only [Nat.testBit_and, Nat.testBit_shiftLeft, Nat.testBit_shiftRight]
    by_cases hi : 2 ≤ i
    · simp [hi]
    · simp [hi]
  change m &&& (2 ^ 62 - 1) <<< 2 = _
  rw [hmask, Nat.and_two_pow_sub_one_eq_mod, Nat.shiftLeft_eq, Nat.shiftRight_eq_div_pow]
  omega

theorem align4_eq {n : ℕ} (h : n + 3 < 2 ^ 64) : align4 n = some (n + padding n) := by
  rw [align4, usizeAdd_eq h, Option.map_some, clear_low_bits h, padding]
  congr 1
  omega

section Rounds
variable {o : ByteOrder} {lossy : Lossy} {bytes : Bytes} {attrsEnd fuel off : ℕ} {hdr : Nlmsghdr}

theorem findIfname_end (hoff : off + 4 < 2 ^ 64) (h : attrsEnd < off + 4) :
    findIfname o lossy bytes attrsEnd (fuel + 1) off = some [] := by
  rw [findIfname, usizeAdd_eq (b := rtattrSize) hoff]
  exact if_pos h

theorem findIfname_round {rta : Rtattr} (hread : readRtattr o bytes off = some rta)
    (hoff : off + 4 ≤ attrsEnd) (hend : attrsEnd ≤ bytes.length) (hlen : bytes.length < 2 ^ 63) :
    findIfname o lossy bytes attrsEnd (fuel + 1) off =
      if rta.rtaLen.toNat < 4 ∨ attrsEnd < off + rta.rtaLen.toNat then some []
      else if rta.rtaType = iflaIfname then
        some (ifnameIn lossy (slice bytes (off + 4) (rta.rtaLen.toNat - 4)))
      else findIfname o lossy bytes attrsEnd fuel
        (off + (rta.rtaLen.toNat + padding rta.rtaLen.toNat)) := by
  have hrta := rta.rtaLen.toNat_lt
  have hpad : padding rta.rtaLen.toNat < 4 := Nat.mod_lt _ (by decide)
  have hstart : usizeAdd off 4 = some (off + 4) := usizeAdd_eq (by omega)
  simp only [findIfname, rtattrSize, hstart, hread, Option.bind_eq_bind, Option.bind_some]
  rw [if_neg (Nat.not_lt.mpr hoff)]
  by_cases hshort : rta.rtaLen.toNat < 4
  · rw [if_pos hshort, if_pos (Or.inl hshort)]
  rw [if_neg hshort, usizeAdd_eq (by omega), Option.bind_some]
  by_cases hover : attrsEnd < off + rta.rtaLen.toNat
  · rw [if_pos hover, if_pos (Or.inr hover)]
  rw [if_neg hover, if_neg (not_or.mpr ⟨hshort, hover⟩), align4_eq (by omega), Option.bind_some,
    usizeAdd_eq (by omega), Option.bind_some, sliceAt_inside (by omega) (by omega),
    Option.map_some, show off + rta.rtaLen.toNat - (off + 4) = rta.rtaLen.toNat - 4 by omega]

theorem parseFrom_end (hoff : off + 16 < 2 ^ 64) (h : bytes.length < off + 16) :
    parseFrom o lossy bytes (fuel + 1) off = some [] := by
  rw [parseFrom, usizeAdd_eq (b := nlmsgSize) hoff]
  exact if_pos h

theorem parseFrom_round (hread : readNlmsghdr o bytes off = some hdr)
    (hoff : off + 16 ≤ bytes.length) (hlen : bytes.length < 2 ^ 63) :
    parseFrom o lossy bytes (fuel + 1) off =
      if hdr.nlmsgLen.toNat < 16 ∨ bytes.length < off + hdr.nlmsgLen.toNat then some []
      else (linkEvent o lossy bytes off hdr).bind fun event =>
        (parseFrom o lossy bytes fuel
          (off + (hdr.nlmsgLen.toNat + padding hdr.nlmsgLen.toNat))).bind fun events =>
          some (event.toList ++ events) := by
  have hlt := hdr.nlmsgLen.toNat_lt
  have hpad : padding hdr.nlmsgLen.toNat < 4 := Nat.mod_lt _ (by decide)
  have hstart : usizeAdd off 16 = some (off + 16) := usizeAdd_eq (by omega)
  simp only [parseFrom, nlmsgSize, hstart, hread, Option.bind_eq_bind, Option.bind_some]
  rw [if_neg (Nat.not_lt.mpr hoff)]
  by_cases hshort : hdr.nlmsgLen.toNat < 16
  · rw [if_pos hshort, if_pos (Or.inl hshort)]
  rw [if_neg hshort, usizeAdd_eq (by omega), Option.bind_some]
  by_cases hover : bytes.length < off + hdr.nlmsgLen.toNat
  · rw [if_pos hover, if_pos (Or.inr hover)]
  have hnext : usizeAdd off (hdr.nlmsgLen.toNat + padding hdr.nlmsgLen.toNat) =
      some (off + (hdr.nlmsgLen.toNat + padding hdr.nlmsgLen.toNat)) := usizeAdd_eq (by omega)
  rw [if_neg hover, if_neg (not_or.mpr ⟨hshort, hover⟩), align4_eq (by omega)]
  simp [hnext]

/-- What the code makes of a link message, once its parts have been read. -/
def eventOf (hdr : Nlmsghdr) (ifinfo : Ifinfomsg) (ifname : Text) : Option InterfaceEvent :=
  if ifname.isEmpty then none
  else if ifinfo.ifiFlags &&& iffUp ≠ 0 ∧ hdr.nlmsgType = rtmNewlink then
    some (.linkUp ifname ifinfo.ifiIndex)
  else some (.linkDown ifname ifinfo.ifiIndex)

theorem linkEvent_eq {ifinfo : Ifinfomsg}
    (htype : hdr.nlmsgType = rtmNewlink ∨ hdr.nlmsgType = rtmDellink)
    (hbody : 32 ≤ hdr.nlmsgLen.toNat) (hend : off + hdr.nlmsgLen.toNat ≤ bytes.length)
    (hlen : bytes.length < 2 ^ 63) (hread : readIfinfomsg o bytes (off + 16) = some ifinfo) :
    linkEvent o lossy bytes off hdr =
      (findIfname o lossy bytes (off + hdr.nlmsgLen.toNat) (bytes.length + 1) (off + 32)).map
        (eventOf hdr ifinfo) := by
  have hstart : usizeAdd off 16 = some (off + 16) := usizeAdd_eq (by omega)
  have hattrs : usizeAdd (off + 16) 16 = some (off + 32) := usizeAdd_eq (by omega)
  have hmsg : usizeAdd off hdr.nlmsgLen.toNat = some (off + hdr.nlmsgLen.toNat) :=
    usizeAdd_eq (by omega)
  rw [linkEvent, if_pos ⟨htype, hbody⟩]
  simp only [nlmsgSize, ifinfoSize, hstart, hread, hattrs, hmsg, Option.bind_eq_bind,
    Option.bind_some]
  cases findIfname o lossy bytes (off + hdr.nlmsgLen.toNat) (bytes.length + 1) (off + 32) with
  | none => rfl
  | some ifname =>
    simp only [Option.bind_some, Option.map_some, eventOf]
    split_ifs <;> rfl

theorem exists_read {α : Type} (f : Bytes → α) {size : ℕ} (h : off + size ≤ bytes.length) :
    ∃ x, (sliceAt bytes off (off + size)).map f = some x :=
  ⟨_, by rw [sliceAt_inside (Nat.le_add_right _ _) h, Option.map_some]⟩

theorem findIfname_returns (hend : attrsEnd ≤ bytes.length) (hlen : bytes.length < 2 ^ 63)
    (hoff : off ≤ attrsEnd + 3) (hfuel : attrsEnd + 4 ≤ off + 4 * fuel) :
    ∃ ifname, findIfname o lossy bytes attrsEnd fuel off = some ifname := by
  induction fuel generalizing off with
  | zero => omega
  | succ fuel ih =>
    by_cases hdone : attrsEnd < off + 4
    · exact ⟨[], findIfname_end (by omega) hdone⟩
    obtain ⟨rta, hread⟩ : ∃ rta, readRtattr o bytes off = some rta :=
      exists_read _ (show off + 4 ≤ bytes.length by omega)
    have hpad : padding rta.rtaLen.toNat < 4 := Nat.mod_lt _ (by decide)
    rw [findIfname_round hread (by omega) hend hlen]
    split_ifs with hbreak hname
    · exact ⟨_, rfl⟩
    · exact ⟨_, rfl⟩
    · exact ih (by omega) (by omega)

theorem linkEvent_returns (hend : off + hdr.nlmsgLen.toNat ≤ bytes.length)
    (hlen : bytes.length < 2 ^ 63) : ∃ event, linkEvent o lossy bytes off hdr = some event := by
  by_cases hlink : (hdr.nlmsgType = rtmNewlink ∨ hdr.nlmsgType = rtmDellink) ∧
      32 ≤ hdr.nlmsgLen.toNat
  · obtain ⟨htype, hbody⟩ := hlink
    obtain ⟨ifinfo, hread⟩ : ∃ ifinfo, readIfinfomsg o bytes (off + 16) = some ifinfo :=
      exists_read _ (show off + 16 + 16 ≤ bytes.length by omega)
    obtain ⟨ifname, hname⟩ : ∃ ifname, findIfname o lossy bytes (off + hdr.nlmsgLen.toNat)
        (bytes.length + 1) (off + 32) = some ifname :=
      findIfname_returns hend hlen (by omega) (by omega)
    exact ⟨_, by rw [linkEvent_eq htype hbody hend hlen hread, hname, Option.map_some]⟩
  · exact ⟨none, if_neg hlink⟩

theorem parseFrom_returns (hlen : bytes.length < 2 ^ 63) (hoff : off ≤ bytes.length + 3)
    (hfuel : bytes.length + 4 ≤ off + 4 * fuel) :
    ∃ events, parseFrom o lossy bytes fuel off = some events := by
  induction fuel generalizing off with
  | zero => omega
  | succ fuel ih =>
    by_cases hdone : bytes.length < off + 16
    · exact ⟨[], parseFrom_end (by omega) hdone⟩
    obtain ⟨hdr, hread⟩ : ∃ hdr, readNlmsghdr o bytes off = some hdr :=
      exists_read _ (show off + 16 ≤ bytes.length by omega)
    have hpad : padding hdr.nlmsgLen.toNat < 4 := Nat.mod_lt _ (by decide)
    rw [parseFrom_round hread (by omega) hlen]
    split_ifs with hbreak
    · exact ⟨_, rfl⟩
    · obtain ⟨event, hevent⟩ : ∃ event, linkEvent o lossy bytes off hdr = some event :=
        linkEvent_returns (by omega) hlen
      obtain ⟨events, hevents⟩ : ∃ events, parseFrom o lossy bytes fuel
          (off + (hdr.nlmsgLen.toNat + padding hdr.nlmsgLen.toNat)) = some events :=
        ih (by omega) (by omega)
      exact ⟨_, by rw [hevent, Option.bind_some, hevents, Option.bind_some]⟩

end Rounds

/-- Items that are filled up to a multiple of four bytes; behind the last one this may be left out. -/
def Padded {α : Type} (size pad : α → ℕ) : List α → Prop
  | [] => True
  | a :: rest => pad a ≤ padding (size a) ∧ (rest ≠ [] → pad a = padding (size a)) ∧
      Padded size pad rest

structure Attr where
  type : UInt16
  data : Bytes
  pad : Bytes

namespace Attr

def size (a : Attr) : ℕ := 4 + a.data.length

def encode (o : ByteOrder) (a : Attr) : Bytes :=
  (o.toBytes 2 a.size ++ o.toBytes 2 a.type.toNat) ++ (a.data ++ a.pad)

theorem length_encode (o : ByteOrder) (a : Attr) :
    (a.encode o).length = a.size + a.pad.length := by
  simp only [encode, size, List.length_append, ByteOrder.length_toBytes]
  omega

end Attr

/-- The attributes that a link message may have. -/
def AttrsOk (attrs : List Attr) : Prop :=
  (∀ a ∈ attrs, a.size < 2 ^ 16) ∧ Padded Attr.size (·.pad.length) attrs

/-- A message about a link. What is not read of its fixed part stands in `head` and `change`. -/
structure Link where
  deleted : Bool
  head : ByteArr 4
  index : Int32
  flags : UInt32
  change : ByteArr 4
  attrs : List Attr

inductive Body where
  | link (l : Link)
  | other (type : UInt16) (payload : Bytes)

/-- A message with the flags, the sequence number and the port of its header in `rest`. -/
structure Message where
  body : Body
  rest : ByteArr 10
  pad : Bytes

namespace Link

def type (l : Link) : UInt16 := if l.deleted then rtmDellink else rtmNewlink

def info (o : ByteOrder) (l : Link) : Bytes :=
  l.head.toList ++ (o.toBytes 4 l.index.toUInt32.toNat ++
    (o.toBytes 4 l.flags.toNat ++ l.change.toList))

@[simp] theorem length_info (o : ByteOrder) (l : Link) : (l.info o).length = 16 := by simp [info]

def event (lossy : Lossy) (l : Link) : Option InterfaceEvent := do
  let attr ← l.attrs.find? (·.type = iflaIfname)
  let name ← fromBytesUntilNul attr.data
  if name = [] then none
  else if l.deleted = false ∧ l.flags &&& iffUp ≠ 0 then some (.linkUp (lossy.decode name) l.index)
  else some (.linkDown (lossy.decode name) l.index)

end Link

namespace Message

def type (m : Message) : UInt16 :=
  match m.body with
  | .link l => l.type
  | .other type _ => type

def payload (o : ByteOrder) (m : Message) : Bytes :=
  match m.body with
  | .link l => l.info o ++ l.attrs.flatMap (Attr.encode o)
  | .other _ payload => payload

variable (o : ByteOrder)

def size (m : Message) : ℕ := 16 + (m.payload o).length

def encode (m : Message) : Bytes :=
  (o.toBytes 4 (m.size o) ++ (o.toBytes 2 m.type.toNat ++ m.rest.toList)) ++ (m.payload o ++ m.pad)

def event (lossy : Lossy) (m : Message) : Option InterfaceEvent :=
  match m.body with
  | .link l => l.event lossy
  | .other _ _ => none

/-- The lengths fit into their fields, and a message that is not about a link has another type. -/
def Ok (m : Message) : Prop :=
  m.size o < 2 ^ 32 ∧
  match m.body with
  | .link l => AttrsOk l.attrs
  | .other type _ => type ≠ rtmNewlink ∧ type ≠ rtmDellink

theorem length_encode (m : Message) : (m.encode o).length = m.size o + m.pad.length := by
  simp only [encode, size, List.length_append, ByteOrder.length_toBytes, Vector.length_toList]
  omega

end Message

section Decoding
variable {o : ByteOrder} {lossy : Lossy} {bytes : Bytes} {off fuel : ℕ} {m : Message}

theorem readRtattr_encode {a : Attr} (ha : a.size < 2 ^ 16) (h : HasAt bytes off (a.encode o)) :
    readRtattr o bytes off = some ⟨UInt16.ofNat a.size, a.type⟩ := by
  have hlen := hasAt_self (o.toBytes 2 a.size ++ o.toBytes 2 a.type.toNat)
  have htype := hlen.right
  rw [ByteOrder.length_toBytes] at htype
  rw [readRtattr, rtattrSize, h.left.sliceAt (off + 4) (by simp), Option.map_some,
    ByteOrder.ofBytes_slice hlen.left ha, ByteOrder.ofBytes_slice htype a.type.toNat_lt,
    UInt16.ofNat_toNat]

theorem readIfinfomsg_encode {l : Link} (h : HasAt bytes off (l.info o)) :
    readIfinfomsg o bytes off = some ⟨l.index, l.flags⟩ := by
  have hindex := (hasAt_self (l.info o)).right
  rw [Vector.length_toList] at hindex
  have hflags := hindex.right
  rw [ByteOrder.length_toBytes] at hflags
  rw [readIfinfomsg, ifinfoSize, h.sliceAt (off + 16) (by simp), Option.map_some,
    ByteOrder.ofBytes_slice hindex.left l.index.toUInt32.toNat_lt,
    ByteOrder.ofBytes_slice hflags.left l.flags.toNat_lt, UInt32.ofNat_toNat, UInt32.ofNat_toNat,
    Int32.toInt32_toUInt32]

theorem readNlmsghdr_encode (hm : m.size o < 2 ^ 32) (h : HasAt bytes off (m.encode o)) :
    readNlmsghdr o bytes off = some ⟨UInt32.ofNat (m.size o), m.type⟩ := by
  have hlen := hasAt_self (o.toBytes 4 (m.size o) ++ (o.toBytes 2 m.type.toNat ++ m.rest.toList))
  have htype := hlen.right
  rw [ByteOrder.length_toBytes] at htype
  rw [readNlmsghdr, nlmsgSize, h.left.sliceAt (off + 16) (by simp), Option.map_some,
    ByteOrder.ofBytes_slice hlen.left hm, ByteOrder.ofBytes_slice htype.left m.type.toNat_lt,
    UInt16.ofNat_toNat]

def nameOf (lossy : Lossy) (attrs : List Attr) : Text :=
  match attrs.find? (·.type = iflaIfname) with
  | some a => ifnameIn lossy a.data
  | none => []

theorem findIfname_encode {attrs : List Attr} {attrsEnd : ℕ} (hok : AttrsOk attrs)
    (h : HasAt bytes off (attrs.flatMap (Attr.encode o)))
    (hend : attrsEnd = off + (attrs.flatMap (Attr.encode o)).length) (hlen : bytes.length < 2 ^ 63)
    (hfuel : attrsEnd + 4 ≤ off + 4 * fuel) :
    findIfname o lossy bytes attrsEnd fuel off = some (nameOf lossy attrs) := by
  have hle : attrsEnd ≤ bytes.length := hend ▸ h.le_length
  induction attrs generalizing off fuel with
  | nil =>
    obtain ⟨fuel, rfl⟩ : ∃ n, fuel = n + 1 := ⟨fuel - 1, by simp at hend; omega⟩
    exact findIfname_end (by omega) (by simp at hend; omega)
  | cons a rest ih =>
    obtain ⟨hsize, hpad, hfull, hrest⟩ := hok
    have ha : a.size < 2 ^ 16 := hsize a List.mem_cons_self
    have hfour : 4 ≤ a.size := Nat.le_add_right 4 _
    rw [List.flatMap_cons] at h hend
    rw [List.length_append, a.length_encode] at hend
    obtain ⟨fuel, rfl⟩ : ∃ n, fuel = n + 1 := ⟨fuel - 1, by omega⟩
    rw [findIfname_round (readRtattr_encode ha h.left) (by omega) hle hlen]
    rw [UInt16.toNat_ofNat_of_lt' ha, if_neg (by omega)]
    by_cases hname : a.type = iflaIfname
    · have hdata : slice bytes (off + 4) (a.size - 4) = a.data := by
        simpa [Attr.size] using h.left.right.left.slice_eq
      rw [if_pos hname, hdata]
      simp [nameOf, hname]
    · have hskip : nameOf lossy (a :: rest) = nameOf lossy rest := by
        simp [nameOf, hname]
      rw [if_neg hname, hskip]
      by_cases hlast : rest = []
      · subst hlast
        obtain ⟨fuel, rfl⟩ : ∃ n, fuel = n + 1 := ⟨fuel - 1, by omega⟩
        have hshort : padding a.size < 4 := Nat.mod_lt _ (by decide)
        rw [List.flatMap_nil, List.length_nil] at hend
        dsimp only at hpad
        exact findIfname_end (by omega) (by omega)
      · rw [← hfull hlast]
        have hnext := a.length_encode o
        rw [← hnext]
        exact ih ⟨fun b hb => hsize b (List.mem_cons_of_mem _ hb), hrest⟩ h.right (by omega) (by omega)

theorem eventOf_nameOf (l : Link) (len : UInt32) :
    eventOf ⟨len, l.type⟩ ⟨l.index, l.flags⟩ (nameOf lossy l.attrs) = l.event lossy := by
  have hnew : l.type = rtmNewlink ↔ l.deleted = false := by
    unfold Link.type
    cases l.deleted <;> decide
  unfold Link.event nameOf ifnameIn
  cases l.attrs.find? (·.type = iflaIfname) with
  | none => rfl
  | some attr =>
    dsimp only [Option.bind_eq_bind, Option.bind_some]
    cases fromBytesUntilNul attr.data with
    | none => rfl
    | some name =>
      dsimp only [Option.bind_some, eventOf]
      simp [lossy.decode_eq_nil, hnew, and_comm]

theorem linkEvent_encode (hm : m.Ok o) (hlen : bytes.length < 2 ^ 63)
    (h : HasAt bytes off (m.encode o)) :
    linkEvent o lossy bytes off ⟨UInt32.ofNat (m.size o), m.type⟩ = some (m.event lossy) := by
  obtain ⟨hsize, hbody⟩ := hm
  have hpayload : HasAt bytes (off + 16) (m.payload o) := by simpa using h.right.left
  have hnat : (UInt32.ofNat (m.size o)).toNat = m.size o := UInt32.toNat_ofNat_of_lt' hsize
  have hmsg := hpayload.le_length
  have hlength : m.size o = 16 + (m.payload o).length := rfl
  obtain ⟨body, rest, pad⟩ := m
  cases body with
  | other type payload => exact if_neg fun hlink => hlink.1.elim hbody.1 hbody.2
  | link l =>
    have hattrs := hpayload.right
    have hinfo : ((Message.mk (.link l) rest pad).payload o).length =
        16 + (l.attrs.flatMap (Attr.encode o)).length := by
      simp [Message.payload]
    have htype : l.type = rtmNewlink ∨ l.type = rtmDellink := by
      unfold Link.type
      cases l.deleted with
      | true => exact Or.inr rfl
      | false => exact Or.inl rfl
    rw [Link.length_info] at hattrs
    rw [linkEvent_eq htype (by rw [hnat]; omega) (by rw [hnat]; omega) hlen
      (readIfinfomsg_encode hpayload.left), hnat,
      findIfname_encode hbody hattrs (by omega) hlen (by omega)]
    exact congrArg some (eventOf_nameOf l _)

theorem parseFrom_encode {msgs : List Message} (hok : ∀ m ∈ msgs, m.Ok o)
    (hpad : Padded (Message.size o) (·.pad.length) msgs)
    (h : HasAt bytes off (msgs.flatMap (Message.encode o)))
    (hend : bytes.length = off + (msgs.flatMap (Message.encode o)).length)
    (hlen : bytes.length < 2 ^ 63) (hfuel : bytes.length + 4 ≤ off + 4 * fuel) :
    parseFrom o lossy bytes fuel off = some (msgs.filterMap (Message.event lossy)) := by
  induction msgs generalizing off fuel with
  | nil =>
    rw [List.flatMap_nil, List.length_nil] at hend
    obtain ⟨fuel, rfl⟩ : ∃ n, fuel = n + 1 := ⟨fuel - 1, by omega⟩
    exact parseFrom_end (by omega) (by omega)
  | cons m rest ih =>
    obtain ⟨hshort, hfull, hrest⟩ := hpad
    obtain ⟨hm, hok⟩ := List.forall_mem_cons.mp hok
    have hsize : m.size o < 2 ^ 32 := hm.1
    have hhead : 16 ≤ m.size o := Nat.le_add_right 16 _
    have hnext := m.length_encode o
    rw [List.flatMap_cons] at h hend
    rw [List.length_append] at hend
    obtain ⟨fuel, rfl⟩ : ∃ n, fuel = n + 1 := ⟨fuel - 1, by omega⟩
    rw [parseFrom_round (readNlmsghdr_encode hsize h.left) (by omega) hlen]
    rw [UInt32.toNat_ofNat_of_lt' hsize, if_neg (by omega), linkEvent_encode hm hlen h.left,
      Option.bind_some]
    have hevents : parseFrom o lossy bytes fuel (off + (m.size o + padding (m.size o))) =
        some (rest.filterMap (Message.event lossy)) := by
      by_cases hlast : rest = []
      · subst hlast
        obtain ⟨fuel, rfl⟩ : ∃ n, fuel = n + 1 := ⟨fuel - 1, by omega⟩
        have hlt : padding (m.size o) < 4 := Nat.mod_lt _ (by decide)
        rw [List.flatMap_nil, List.length_nil] at hend
        dsimp only at hshort
        exact parseFrom_end (by omega) (by omega)
      · rw [← hfull hlast, ← hnext]
        exact ih hok hrest h.right (by omega) (by omega)
    rw [hevents, Option.bind_some, List.filterMap_cons]
    cases m.event lossy <;> rfl

end Decoding

/-- The parser comes to an end on every buffer, with all of its reads inside, and on a datagram of
well-formed messages it gives their events. -/
theorem netlink_events_exact (o : ByteOrder) (lossy : Lossy) :
    (∀ bytes : Bytes, bytes.length < 2 ^ 63 → ∃ events, parseEvents o lossy bytes = some events) ∧
    ∀ msgs : List Message, (∀ m ∈ msgs, m.Ok o) →
      Padded (Message.size o) (·.pad.length) msgs →
      (msgs.flatMap (Message.encode o)).length < 2 ^ 63 →
      parseEvents o lossy (msgs.flatMap (Message.encode o)) =
        some (msgs.filterMap (Message.event lossy)) := by
  constructor
  · intro bytes hlen
    exact parseFrom_returns hlen (Nat.zero_le _) (by omega)
  · intro msgs hok hpad hlen
    exact parseFrom_encode hok hpad (hasAt_self _) (Nat.zero_add _).symm hlen (by omega)

namespace Sample

/-- A decoder that gives one replacement character for what is not UTF-8. -/
def lossy : Lossy where
  decode bs := (Text.fromUtf8 bs).getD ['\uFFFD']
  decode_eq_nil bs := by
    cases h : Text.fromUtf8 bs with
    | none =>
      have hnil : Text.fromUtf8 [] = some [] := Text.fromUtf8_eq_some_iff.mpr rfl
      simp only [Option.getD_none, List.cons_ne_nil, false_iff]
      rintro rfl
      cases hnil.symm.trans h
    | some s =>
      rw [Text.fromUtf8_eq_some_iff] at h
      subst h
      exact ⟨fun hs => congrArg Text.asBytes hs, fun hs => Text.asBytes_injective hs⟩
  decode_utf8 s := by rw [Text.fromUtf8_eq_some_iff.mpr rfl, Option.getD_some]

/-- The loopback interface has come up; its hardware address stands in front of its name. -/
def loopback : Message :=
  { body := .link ⟨false, #v[0, 0, 4, 3], 1, 0x49, #v[0, 0, 0, 0],
      [⟨1, [0, 0, 0, 0, 0, 0], [0, 0]⟩, ⟨iflaIfname, [108, 111, 0], [0]⟩]⟩
    rest := #v[0, 0, 0, 0, 0, 0, 0, 0, 0, 0]
    pad := [] }

/-- An interface is gone; the datagram ends without padding. -/
def ethernet : Message :=
  { body := .link ⟨true, #v[0, 0, 1, 0], 2, 0x43, #v[0, 0, 0, 0],
      [⟨iflaIfname, [101, 116, 104, 48, 0], []⟩]⟩
    rest := #v[0, 0, 0, 0, 0, 0, 0, 0, 0, 0]
    pad := [] }

end Sample

theorem loopback_reported :
    parseEvents .little Sample.lossy
      ([Sample.loopback, Sample.ethernet].flatMap (Message.encode .little)) =
    some [.linkUp ['l', 'o'] 1, .linkDown ['e', 't', 'h', '0'] 2] := by
  have hok : ∀ m ∈ [Sample.loopback, Sample.ethernet], m.Ok .little := by
    rw [List.forall_mem_cons, List.forall_mem_singleton]
    constructor
    · exact ⟨by decide, by simp [Attr.size], by decide, by decide, by decide, by simp, trivial⟩
    · exact ⟨by decide, by simp [Attr.size], by decide, by simp, trivial⟩
  have hlo : Sample.lossy.decode [108, 111] = ['l', 'o'] := Sample.lossy.decode_utf8 ['l', 'o']
  have heth : Sample.lossy.decode [101, 116, 104, 48] = ['e', 't', 'h', '0'] :=
    Sample.lossy.decode_utf8 ['e', 't', 'h', '0']
  rfl

end Desmos.Core.Watcher
