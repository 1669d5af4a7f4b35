import Desmos.Library.Bytes

/-! # The wire header codec

A fixed frame of 16 bytes in big-endian order: version and type nibbles, flags, session id, sequence
number, timestamp, payload length, interface id and one reserved byte.
-/
namespace Desmos.Proto
open Library

abbrev SessionId := UInt16
abbrev InterfaceId := UInt8
abbrev Seq := UInt32
abbrev TimestampUs := UInt32

def headerLen : ℕ := 16
def wireVersion : UInt8 := 1

inductive WireError where
  | bufferTooShort (need got : ℕ)
  | unsupportedVersion (v : UInt8)
  | unknownPacketType (t : UInt8)
  | payloadTruncated (declared available : ℕ)
  deriving DecidableEq, Repr

namespace WireError

def display : WireError → String
  | .bufferTooShort need got => "wire: buffer too short. need " ++ toString need ++
      " bytes, got " ++ toString got ++ ". check MTU."
  | .unsupportedVersion v => "wire: unsupported version " ++ toString v.toNat ++
      ". peer speaks a newer protocol."
  | .unknownPacketType t => "wire: unknown packet type " ++ toString t.toNat ++ ". dropping."
  | .payloadTruncated declared available => "wire: payload truncated. header says " ++
      toString declared ++ " bytes, " ++ toString available ++ " available."

end WireError

inductive PacketType where
  | data
  | handshake
  | keepalive
  | probe
  | control
  deriving DecidableEq, Repr

namespace PacketType

def asNibble : PacketType → UInt8
  | .data => 0
  | .handshake => 1
  | .keepalive => 2
  | .probe => 3
  | .control => 4

def fromNibble (n : UInt8) : Except WireError PacketType :=
  if n = 0 then .ok .data
  else if n = 1 then .ok .handshake
  else if n = 2 then .ok .keepalive
  else if n = 3 then .ok .probe
  else if n = 4 then .ok .control
  else .error (.unknownPacketType n)

end PacketType

/-- The flag bits of byte 1. Decoding keeps bits it does not know. -/
structure Flags where
  bits : UInt8
  deriving DecidableEq, Repr

def Flags.empty : Flags := ⟨0⟩

structure Header where
  version : UInt8
  packetType : PacketType
  flags : Flags
  sessionId : SessionId
  sequence : Seq
  timestampUs : TimestampUs
  payloadLen : UInt16
  interfaceId : InterfaceId
  deriving DecidableEq, Repr

namespace Header

def new (packetType : PacketType) (sessionId : SessionId) : Header :=
  { version := wireVersion, packetType := packetType, flags := .empty, sessionId := sessionId
    sequence := 0, timestampUs := 0, payloadLen := 0, interfaceId := 0 }

def bytes (h : Header) : Bytes :=
  [((h.version &&& 0x0f) <<< 4) ||| (h.packetType.asNibble &&& 0x0f), h.flags.bits] ++
    (toBe 2 h.sessionId.toNat ++ (toBe 4 h.sequence.toNat ++ (toBe 4 h.timestampUs.toNat ++
      (toBe 2 h.payloadLen.toNat ++ [h.interfaceId, 0]))))

/-- Write a header over the first 16 bytes of `out`. -/
def encode (h : Header) (out : Bytes) : Except WireError ℕ × Bytes :=
  if out.length < headerLen then (.error (.bufferTooShort headerLen out.length), out)
  else (.ok headerLen, h.bytes ++ out.drop headerLen)

def decode (bytes : Bytes) : Except WireError Header :=
  if bytes.length < headerLen then .error (.bufferTooShort headerLen bytes.length)
  else
    let byte0 := bytes.getD 0 0
    let version := (byte0 >>> 4) &&& 0x0f
    if version ≠ wireVersion then .error (.unsupportedVersion version)
    else match PacketType.fromNibble (byte0 &&& 0x0f) with
    | .error e => .error e
    | .ok packetType => .ok
      { version := version
        packetType := packetType
        flags := ⟨bytes.getD 1 0⟩
        sessionId := UInt16.ofNat (ofBe (slice bytes 2 2))
        sequence := UInt32.ofNat (ofBe (slice bytes 4 4))
        timestampUs := UInt32.ofNat (ofBe (slice bytes 8 4))
        payloadLen := UInt16.ofNat (ofBe (slice bytes 12 2))
        interfaceId := bytes.getD 14 0 }

@[simp] theorem bytes_length (h : Header) : h.bytes.length = headerLen := by
  simp [bytes, headerLen]

theorem encode_ok (h : Header) {out : Bytes} (hl : headerLen ≤ out.length) :
    h.encode out = (.ok headerLen, h.bytes ++ out.drop headerLen) := by
  simp [encode, Nat.not_lt.mpr hl]

section Fields
variable (h : Header) (rest : Bytes)

theorem version_nibble (hv : h.version = wireVersion) (t : PacketType) :
    (((h.version &&& 0x0f) <<< 4) ||| (t.asNibble &&& 0x0f)) >>> 4 &&& 0x0f = wireVersion := by
  rw [hv]
  cases t <;> decide

theorem type_nibble (hv : h.version = wireVersion) (t : PacketType) :
    PacketType.fromNibble ((((h.version &&& 0x0f) <<< 4) ||| (t.asNibble &&& 0x0f)) &&& 0x0f) =
      .ok t := by
  rw [hv]
  cases t <;> decide

theorem sessionId_slice : slice (h.bytes ++ rest) 2 2 = toBe 2 h.sessionId.toNat := by
  simp only [bytes, List.append_assoc]
  rw [slice_skip (by simp)]
  exact slice_head (by simp) _

theorem sequence_slice : slice (h.bytes ++ rest) 4 4 = toBe 4 h.sequence.toNat := by
  simp only [bytes, List.append_assoc]
  rw [slice_skip (by simp), slice_skip (by simp)]
  simpa using slice_head (by simp) _

theorem timestampUs_slice : slice (h.bytes ++ rest) 8 4 = toBe 4 h.timestampUs.toNat := by
  simp only [bytes, List.append_assoc]
  rw [slice_skip (by simp), slice_skip (by simp), slice_skip (by simp)]
  simpa using slice_head (by simp) _

theorem payloadLen_slice : slice (h.bytes ++ rest) 12 2 = toBe 2 h.payloadLen.toNat := by
  simp only [bytes, List.append_assoc]
  rw [slice_skip (by simp), slice_skip (by simp), slice_skip (by simp), slice_skip (by simp)]
  simpa using slice_head (by simp) _

theorem interfaceId_byte : (h.bytes ++ rest).getD 14 0 = h.interfaceId := by
  simp [bytes, List.getElem?_append]

end Fields

/-- A header of this protocol version is read back from its own bytes, whatever
follows them. -/
theorem decode_bytes_append (h : Header) (hv : h.version = wireVersion) (rest : Bytes) :
    decode (h.bytes ++ rest) = .ok h := by
  have hl : ¬ (h.bytes ++ rest).length < headerLen := by simp
  have h0 : (h.bytes ++ rest).getD 0 0 =
      ((h.version &&& 0x0f) <<< 4) ||| (h.packetType.asNibble &&& 0x0f) := by simp [bytes]
  have h1 : (h.bytes ++ rest).getD 1 0 = h.flags.bits := by simp [bytes]
  simp only [decode, hl, if_false, h0, h1, version_nibble h hv, type_nibble h hv, sessionId_slice,
    sequence_slice, timestampUs_slice, payloadLen_slice, interfaceId_byte, ofBe_toBe_uint16,
    ofBe_toBe_uint32, ne_eq, not_true_eq_false]
  rw [← hv]

end Header

end Desmos.Proto
