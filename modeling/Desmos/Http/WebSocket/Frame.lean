import Desmos.Core.Io
import Desmos.Library.Incremental

/-! # The WebSocket frame codec

A frame is a byte with the final bit and the opcode, a length in one of three widths, a mask key if
the mask bit is set, and the payload. Both the form of the server and that of a client are defined
here.
-/
namespace Desmos.Http.WebSocket
open Library Desmos.Core

inductive Opcode where
  | text
  | binary
  | close
  | ping
  | pong
  deriving DecidableEq, Repr

namespace Opcode

def fromByte (b : UInt8) : Option Opcode :=
  let n := b &&& 0x0F
  if n = 0x1 then some text
  else if n = 0x2 then some binary
  else if n = 0x8 then some close
  else if n = 0x9 then some ping
  else if n = 0xA then some pong
  else none

def toByte : Opcode → UInt8
  | text => 0x1
  | binary => 0x2
  | close => 0x8
  | ping => 0x9
  | pong => 0xA

end Opcode

structure Frame where
  fin : Bool
  opcode : Opcode
  payload : Bytes
  deriving DecidableEq

def maxFramePayload : ℕ := 1024 * 1024

def Frame.firstByte (f : Frame) : UInt8 := (if f.fin then 0x80 else 0x00) ||| f.opcode.toByte

/-- The length field, with the mask bit in its first byte. -/
def lengthField (maskBit : UInt8) (len : ℕ) : Bytes :=
  if len < 126 then [maskBit ||| UInt8.ofNat len]
  else if len ≤ 0xFFFF then (maskBit ||| 126) :: toBe 2 len
  else (maskBit ||| 127) :: toBe 8 len

def encodeFrame (f : Frame) : Bytes := f.firstByte :: lengthField 0 f.payload.length ++ f.payload

/-- Each byte with the byte of the key that its position names. -/
def applyMask (key payload : Bytes) : Bytes := payload.mapIdx fun i b => b ^^^ key.getD (i % 4) 0

/-- The length of the payload and of the header in front of the mask, or the wish for more. -/
def decodeLength (buf : Bytes) (lenByte : UInt8) : Option (ℕ × ℕ) :=
  if lenByte ≤ 125 then some (lenByte.toNat, 2)
  else if lenByte = 126 then
    if buf.length < 4 then none else some (ofBe (slice buf 2 2), 4)
  else
    if buf.length < 10 then none else some (ofBe (slice buf 2 8), 10)

/-- `decode_frame` behind the length field. -/
def decodePayload (buf : Bytes) (fin : Bool) (opcode : Opcode) (masked : Bool)
    (payloadLen headerSize : ℕ) : Except IoError (Option (Frame × ℕ)) :=
  if maxFramePayload < payloadLen then .error ⟨.invalidData, "frame payload too large"⟩
  else
    let maskSize := if masked then 4 else 0
    let total := headerSize + maskSize + payloadLen
    if buf.length < total then .ok none
    else
      let payload := slice buf (headerSize + maskSize) payloadLen
      let payload := if masked then applyMask (slice buf headerSize 4) payload else payload
      .ok (some (⟨fin, opcode, payload⟩, total))

def decodeFrame : Decoder IoError Frame
  | [] => .ok none
  | [_] => .ok none
  | buf@(b0 :: b1 :: _) =>
    match Opcode.fromByte b0 with
    | none => .error ⟨.invalidData, "unknown WebSocket opcode"⟩
    | some opcode =>
      match decodeLength buf (b1 &&& 0x7F) with
      | none => .ok none
      | some (payloadLen, headerSize) =>
        decodePayload buf (b0 &&& 0x80 ≠ 0) opcode (b1 &&& 0x80 ≠ 0) payloadLen headerSize

/-- The form in which a client sends a frame. -/
def maskFrame (key : ByteArr 4) (f : Frame) : Bytes :=
  f.firstByte :: lengthField 0x80 f.payload.length ++ key.toList ++ applyMask key.toList f.payload

/-- A frame on the wire, masked or not. -/
inductive OnWire (f : Frame) : Bytes → Prop
  | plain : OnWire f (encodeFrame f)
  | masked (key : ByteArr 4) : OnWire f (maskFrame key f)

theorem fromByte_firstByte (f : Frame) : Opcode.fromByte f.firstByte = some f.opcode := by
  unfold Frame.firstByte
  cases f.fin <;> cases f.opcode <;> rfl

theorem finBit_firstByte (f : Frame) : decide (f.firstByte &&& 0x80 ≠ 0) = f.fin := by
  unfold Frame.firstByte
  cases f.fin <;> cases f.opcode <;> rfl

theorem applyMask_applyMask (key payload : Bytes) :
    applyMask key (applyMask key payload) = payload := by
  apply List.ext_getElem
  · simp [applyMask]
  · intro i h1 h2
    simp only [applyMask, List.getElem_mapIdx, UInt8.xor_assoc, UInt8.xor_self, UInt8.xor_zero]

@[simp] theorem length_applyMask (key payload : Bytes) :
    (applyMask key payload).length = payload.length := by
  simp [applyMask]

def maskBit (masked : Bool) : UInt8 := if masked then 0x80 else 0

theorem maskBit_or (masked : Bool) {n : ℕ} (hn : n ≤ 127) :
    (maskBit masked ||| UInt8.ofNat n) &&& 0x7F = UInt8.ofNat n ∧
    decide ((maskBit masked ||| UInt8.ofNat n) &&& 0x80 ≠ 0) = masked := by
  have hall : ∀ m : Bool, ∀ n < 128, (maskBit m ||| UInt8.ofNat n) &&& 0x7F = UInt8.ofNat n ∧
      decide ((maskBit m ||| UInt8.ofNat n) &&& 0x80 ≠ 0) = m := by
    decide +kernel
  exact hall masked n (Nat.lt_succ_of_le hn)

/-- A length field is the byte with the mask bit and the number that announces its width, and
the number itself if it does not fit there. -/
theorem lengthField_cases (masked : Bool) (len : ℕ) :
    (len < 126 ∧ lengthField (maskBit masked) len = [maskBit masked ||| UInt8.ofNat len]) ∨
    (126 ≤ len ∧ len ≤ 0xFFFF ∧
      lengthField (maskBit masked) len = (maskBit masked ||| UInt8.ofNat 126) :: toBe 2 len) ∨
    (0xFFFF < len ∧
      lengthField (maskBit masked) len = (maskBit masked ||| UInt8.ofNat 127) :: toBe 8 len) := by
  unfold lengthField
  by_cases hshort : len < 126
  · exact Or.inl ⟨hshort, if_pos hshort⟩
  · rw [if_neg hshort]
    by_cases hmedium : len ≤ 0xFFFF
    · exact Or.inr (Or.inl ⟨not_lt.mp hshort, hmedium, if_pos hmedium⟩)
    · exact Or.inr (Or.inr ⟨not_le.mp hmedium, if_neg hmedium⟩)

/-- What stands in front of the mask key and the payload. -/
def Frame.header (f : Frame) (masked : Bool) : Bytes :=
  f.firstByte :: lengthField (maskBit masked) f.payload.length

theorem decodeLength_header {f : Frame} (hlen : f.payload.length ≤ maxFramePayload)
    (masked : Bool) (rest : Bytes) :
    ∃ b1 tail, f.header masked = f.firstByte :: b1 :: tail ∧
      decide (b1 &&& 0x80 ≠ 0) = masked ∧
      decodeLength (f.header masked ++ rest) (b1 &&& 0x7F) =
        some (f.payload.length, (f.header masked).length) := by
  unfold Frame.header
  rcases lengthField_cases masked f.payload.length with
    ⟨hshort, heq⟩ | ⟨hlo, hhi, heq⟩ | ⟨hlo, heq⟩
  · have hbyte := maskBit_or masked (n := f.payload.length) (by omega)
    have hnat : (UInt8.ofNat f.payload.length).toNat = f.payload.length := by
      rw [UInt8.toNat_ofNat']
      omega
    have hle : UInt8.ofNat f.payload.length ≤ 125 := by
      rw [UInt8.le_iff_toNat_le, hnat]
      exact Nat.le_of_lt_succ hshort
    refine ⟨_, [], by rw [heq], hbyte.2, ?_⟩
    rw [heq, hbyte.1, decodeLength, if_pos hle, hnat]
    rfl
  · have hbyte := maskBit_or masked (n := 126) (by omega)
    have hfield : slice (f.firstByte :: (maskBit masked ||| UInt8.ofNat 126) ::
        toBe 2 f.payload.length ++ rest) 2 2 = toBe 2 f.payload.length :=
      slice_head (toBe_length 2 _) rest
    refine ⟨_, _, by rw [heq], hbyte.2, ?_⟩
    rw [heq, hbyte.1, decodeLength, if_neg (by decide), if_pos (by decide), if_neg, hfield,
      ofBe_toBe, Nat.mod_eq_of_lt (by omega)]
    · simp
    · simp
  · have hbyte := maskBit_or masked (n := 127) (by omega)
    have hfield : slice (f.firstByte :: (maskBit masked ||| UInt8.ofNat 127) ::
        toBe 8 f.payload.length ++ rest) 2 8 = toBe 8 f.payload.length :=
      slice_head (toBe_length 8 _) rest
    have hsmall : f.payload.length < 256 ^ 8 := lt_of_le_of_lt hlen (by decide)
    refine ⟨_, _, by rw [heq], hbyte.2, ?_⟩
    rw [heq, hbyte.1, decodeLength, if_neg (by decide), if_neg (by decide), if_neg, hfield,
      ofBe_toBe, Nat.mod_eq_of_lt hsmall]
    · simp
    · simp

theorem decodeFrame_header {f : Frame} (hlen : f.payload.length ≤ maxFramePayload)
    (masked : Bool) (rest : Bytes) :
    decodeFrame (f.header masked ++ rest) = decodePayload (f.header masked ++ rest) f.fin f.opcode
      masked f.payload.length (f.header masked).length := by
  obtain ⟨b1, tail, hheader, hmask, hdecode⟩ := decodeLength_header hlen masked rest
  rw [hheader] at hdecode ⊢
  simp only [List.cons_append] at hdecode ⊢
  rw [decodeFrame, fromByte_firstByte, hdecode]
  simp only [finBit_firstByte, hmask]

theorem decodeFrame_partial_header {f : Frame} {masked : Bool} {front : Bytes}
    (hfront : front <+: f.header masked) (hne : front ≠ f.header masked) :
    decodeFrame front = .ok none := by
  have hshorter : front.length < (f.header masked).length :=
    lt_of_le_of_ne hfront.length_le fun h => hne (hfront.eq_of_length h)
  match front, hfront with
  | [], _ => rfl
  | [_], _ => rfl
  | b0 :: b1 :: front, hfront =>
    unfold Frame.header at hfront hshorter
    rcases lengthField_cases masked f.payload.length with
      ⟨-, heq⟩ | ⟨-, -, heq⟩ | ⟨-, heq⟩
    · rw [heq] at hshorter
      simp at hshorter
    · have hbyte := maskBit_or masked (n := 126) (by omega)
      rw [heq, List.cons_prefix_cons, List.cons_prefix_cons] at hfront
      obtain ⟨rfl, rfl, -⟩ := hfront
      rw [heq] at hshorter
      have hfew : (f.firstByte :: (maskBit masked ||| UInt8.ofNat 126) :: front).length < 4 := by
        simpa using hshorter
      rw [decodeFrame, fromByte_firstByte, hbyte.1]
      simp only [decodeLength]
      rw [if_neg (by decide), if_pos (by decide), if_pos hfew]
    · have hbyte := maskBit_or masked (n := 127) (by omega)
      rw [heq, List.cons_prefix_cons, List.cons_prefix_cons] at hfront
      obtain ⟨rfl, rfl, -⟩ := hfront
      rw [heq] at hshorter
      have hfew : (f.firstByte :: (maskBit masked ||| UInt8.ofNat 127) :: front).length < 10 := by
        simpa using hshorter
      rw [decodeFrame, fromByte_firstByte, hbyte.1]
      simp only [decodeLength]
      rw [if_neg (by decide), if_neg (by decide), if_pos hfew]

theorem OnWire.shape {f : Frame} {word : Bytes} (h : OnWire f word) :
    ∃ masked key body, word = f.header masked ++ (key ++ body) ∧
      key.length = (if masked then 4 else 0) ∧ body.length = f.payload.length ∧
      (if masked then applyMask key body else body) = f.payload := by
  cases h with
  | plain => exact ⟨false, [], f.payload, rfl, rfl, rfl, rfl⟩
  | masked key =>
    exact ⟨true, key.toList, applyMask key.toList f.payload, List.append_assoc _ _ _,
      Vector.length_toList, length_applyMask _ _, applyMask_applyMask _ _⟩

theorem decodeFrame_selfDelimiting : decodeFrame.SelfDelimiting fun f word =>
    f.payload.length ≤ maxFramePayload ∧ OnWire f word where
  whole := by
    rintro f word ⟨hlen, hword⟩ rest
    obtain ⟨masked, key, body, rfl, hkey, hbody, hpayload⟩ := hword.shape
    rw [List.append_assoc, decodeFrame_header hlen, decodePayload, if_neg (not_lt.mpr hlen)]
    have hmask : slice (f.header masked ++ (key ++ body ++ rest)) (f.header masked).length
        (if masked then 4 else 0) = key := by
      rw [slice_skip (Nat.le_refl _), Nat.sub_self, List.append_assoc, slice_head hkey]
    have hslice : slice (f.header masked ++ (key ++ body ++ rest))
        ((f.header masked).length + if masked then 4 else 0) f.payload.length = body := by
      rw [← hkey, slice_skip (Nat.le_add_right _ _), Nat.add_sub_cancel_left, List.append_assoc,
        slice_skip (Nat.le_refl _), Nat.sub_self, slice_head hbody]
    have htotal : (f.header masked ++ (key ++ body)).length =
        (f.header masked).length + (if masked then 4 else 0) + f.payload.length := by
      simp only [List.length_append, hkey, hbody]
      omega
    have henough : ¬ (f.header masked ++ (key ++ body ++ rest)).length <
        (f.header masked).length + (if masked then 4 else 0) + f.payload.length := by
      simp only [List.length_append]
      omega
    simp only [if_neg henough, hslice]
    rw [htotal]
    cases masked with
    | false =>
      simp only [Bool.false_eq_true, if_false] at hpayload ⊢
      rw [hpayload]
    | true =>
      simp only [if_true] at hpayload hmask ⊢
      rw [hmask, hpayload]
  part := by
    rintro f word ⟨hlen, hword⟩ front hfront hne
    obtain ⟨masked, key, body, rfl, hkey, hbody, -⟩ := hword.shape
    rcases List.prefix_or_prefix_of_prefix hfront (List.prefix_append _ _) with hshort | hlong
    · by_cases hwhole : front = f.header masked
      · subst hwhole
        have hmissing : 0 < (key ++ body).length := by
          rw [List.length_pos_iff]
          rintro h
          exact hne (by rw [h, List.append_nil])
        rw [← List.append_nil (f.header masked), decodeFrame_header hlen, decodePayload,
          if_neg (not_lt.mpr hlen)]
        rw [List.length_append, hkey, hbody] at hmissing
        exact if_pos (by simp only [List.length_append, List.length_nil]; omega)
      · exact decodeFrame_partial_header hshort hwhole
    · obtain ⟨rest, rfl⟩ := hlong
      have hrest : rest <+: key ++ body := (List.prefix_append_right_inj _).mp hfront
      have hless : rest.length < (key ++ body).length :=
        lt_of_le_of_ne hrest.length_le fun h => hne (by rw [hrest.eq_of_length h])
      rw [decodeFrame_header hlen, decodePayload, if_neg (not_lt.mpr hlen)]
      rw [List.length_append, hkey, hbody] at hless
      exact if_pos (by rw [List.length_append]; omega)
  empty := rfl

/-- An encoded frame decodes to itself in front of anything, no strict start of it decodes, its
masked form decodes to the same frame, and streams of frames are cut in any way without
effect. -/
theorem frames_self_delimiting (f : Frame) (hf : f.payload.length ≤ maxFramePayload) :
    (∀ rest, decodeFrame (encodeFrame f ++ rest) = .ok (some (f, (encodeFrame f).length))) ∧
    (∀ front, front <+: encodeFrame f → front ≠ encodeFrame f → decodeFrame front = .ok none) ∧
    (∀ key rest, decodeFrame (maskFrame key f ++ rest) =
      .ok (some (f, (maskFrame key f).length))) ∧
    ∀ frames words, List.Forall₂ OnWire frames words →
      (∀ g ∈ frames, g.payload.length ≤ maxFramePayload) →
      ∀ segments, segments.flatten = words.flatten →
        decodeFrame.receive [] segments = .ok (frames, []) := by
  have hcodec := decodeFrame_selfDelimiting
  refine ⟨hcodec.whole ⟨hf, .plain⟩, fun _ => hcodec.part ⟨hf, .plain⟩,
    fun key => hcodec.whole ⟨hf, .masked key⟩, ?_⟩
  intro frames words hwords hsmall
  have hboth : List.Forall₂ (fun g word => g.payload.length ≤ maxFramePayload ∧ OnWire g word)
      frames words := by
    induction hwords with
    | nil => exact .nil
    | cons hword hrest ih =>
      rw [List.forall_mem_cons] at hsmall
      exact .cons ⟨hsmall.1, hword⟩ (ih hsmall.2)
  have hwait : Decoder.SelfDelimiting.Waiting [] words := by
    refine ⟨List.nil_prefix, fun word hword hnil => ?_⟩
    cases hboth with
    | nil => cases hword
    | cons hfirst hrest =>
      cases hword
      exact hcodec.word_ne_nil hfirst (List.prefix_nil.mp hnil)
  intro segments hcut
  exact hcodec.receive_eq hboth hwait hcut

/-- A greeting, masked with the key of the codec's own test, and cut within the key. -/
theorem greeting_cut_in_key :
    decodeFrame.receive [] [[0x81, 0x85, 0x37, 0xFA], [0x21, 0x3D, 0x7F, 0x9F, 0x4D, 0x51, 0x58]] =
      .ok ([⟨true, .text, [0x48, 0x65, 0x6C, 0x6C, 0x6F]⟩], []) :=
  (frames_self_delimiting ⟨true, .text, [0x48, 0x65, 0x6C, 0x6C, 0x6F]⟩ (by decide)).2.2.2 _ _
    (.cons (.masked #v[0x37, 0xFA, 0x21, 0x3D]) .nil) (by decide) _ (by decide)

end Desmos.Http.WebSocket
