import Desmos.Library.Bytes
import Desmos.Library.Returns

/-! # Reading a byte string at offsets

Reads outside of the string stop the program and answer nothing here. That a word stands at an
offset follows a parser along an encoding piece by piece, and gives each of its reads.
-/
namespace Desmos.Library

def sliceAt (bs : Bytes) (lo hi : ℕ) : Option Bytes :=
  if lo ≤ hi ∧ hi ≤ bs.length then some (slice bs lo (hi - lo)) else none

def u16At (bs : Bytes) (i : ℕ) : Option UInt16 :=
  (sliceAt bs i (i + 2)).map fun word => UInt16.ofNat (ofBe word)

def u32At (bs : Bytes) (i : ℕ) : Option UInt32 :=
  (sliceAt bs i (i + 4)).map fun word => UInt32.ofNat (ofBe word)

section Inside
variable {bs : Bytes} {lo hi i : ℕ}

theorem sliceAt_inside (hlo : lo ≤ hi) (hhi : hi ≤ bs.length) :
    sliceAt bs lo hi = some (slice bs lo (hi - lo)) :=
  if_pos ⟨hlo, hhi⟩

theorem returns_sliceAt (hlo : lo ≤ hi) (hhi : hi ≤ bs.length) :
    Returns (sliceAt bs lo hi) fun word => word.length = hi - lo := by
  refine ⟨_, sliceAt_inside hlo hhi, ?_⟩
  simp only [slice, List.length_take, List.length_drop]
  omega

theorem u16At_inside (h : i + 2 ≤ bs.length) :
    u16At bs i = some (UInt16.ofNat (ofBe (slice bs i 2))) := by
  rw [u16At, sliceAt_inside (by omega) h, Nat.add_sub_cancel_left]
  rfl

theorem u32At_inside (h : i + 4 ≤ bs.length) :
    u32At bs i = some (UInt32.ofNat (ofBe (slice bs i 4))) := by
  rw [u32At, sliceAt_inside (by omega) h, Nat.add_sub_cancel_left]
  rfl

theorem returns_u16At (h : i + 2 ≤ bs.length) : Returns (u16At bs i) fun _ => True :=
  ⟨_, u16At_inside h, trivial⟩

theorem returns_u32At (h : i + 4 ≤ bs.length) : Returns (u32At bs i) fun _ => True :=
  ⟨_, u32At_inside h, trivial⟩

theorem returns_getElem? (h : i < bs.length) : Returns bs[i]? fun _ => True :=
  ⟨_, List.getElem?_eq_getElem h, trivial⟩

end Inside

/-- At the offset `pos` stands `word`. -/
def HasAt (bs : Bytes) (pos : ℕ) (word : Bytes) : Prop :=
  ∃ before after, bs = before ++ (word ++ after) ∧ before.length = pos

theorem hasAt_zero (word after : Bytes) : HasAt (word ++ after) 0 word := ⟨[], after, rfl, rfl⟩

theorem hasAt_self (word : Bytes) : HasAt word 0 word := ⟨[], [], by simp, rfl⟩

namespace HasAt
variable {bs word a b : Bytes} {pos : ℕ}

theorem le_length (h : HasAt bs pos word) : pos + word.length ≤ bs.length := by
  obtain ⟨before, after, rfl, rfl⟩ := h
  simp only [List.length_append]
  omega

theorem left (h : HasAt bs pos (a ++ b)) : HasAt bs pos a := by
  obtain ⟨before, after, rfl, rfl⟩ := h
  exact ⟨before, b ++ after, by simp, rfl⟩

theorem right (h : HasAt bs pos (a ++ b)) : HasAt bs (pos + a.length) b := by
  obtain ⟨before, after, rfl, rfl⟩ := h
  exact ⟨before ++ a, after, by simp, by simp⟩

theorem slice_eq (h : HasAt bs pos word) : slice bs pos word.length = word := by
  obtain ⟨before, after, rfl, rfl⟩ := h
  rw [slice_skip le_rfl, Nat.sub_self]
  exact slice_head rfl after

theorem sliceAt (h : HasAt bs pos word) (hi : ℕ) (hhi : hi = pos + word.length) :
    sliceAt bs pos hi = some word := by
  subst hhi
  rw [sliceAt_inside (Nat.le_add_right _ _) h.le_length, Nat.add_sub_cancel_left, h.slice_eq]

theorem u16At {x : UInt16} (h : HasAt bs pos (toBe 2 x.toNat)) : u16At bs pos = some x := by
  rw [Library.u16At, h.sliceAt _ (by rw [toBe_length]), Option.map_some, ofBe_toBe_uint16]

/-- A length field that does not wrap. -/
theorem u16At_ofNat {n : ℕ} (hn : n < 2 ^ 16) (h : HasAt bs pos (toBe 2 n)) :
    Library.u16At bs pos = some (UInt16.ofNat n) := by
  apply HasAt.u16At
  rwa [UInt16.toNat_ofNat_of_lt' hn]

theorem u32At {x : UInt32} (h : HasAt bs pos (toBe 4 x.toNat)) : u32At bs pos = some x := by
  rw [Library.u32At, h.sliceAt _ (by rw [toBe_length]), Option.map_some, ofBe_toBe_uint32]

theorem getElem? {x : UInt8} (h : HasAt bs pos (x :: word)) : bs[pos]? = some x := by
  obtain ⟨before, after, rfl, rfl⟩ := h
  simp

theorem tail {x : UInt8} (h : HasAt bs pos (x :: word)) : HasAt bs (pos + 1) word :=
  right (a := [x]) h

end HasAt

end Desmos.Library
