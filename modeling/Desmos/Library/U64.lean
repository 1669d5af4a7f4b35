import Mathlib.Tactic

/-! # Unsigned machine arithmetic

A build decides what `+` and `-` do when the result leaves the range: they stop the
program, or they wrap. The saturating operations do the same in every build.
-/
namespace Desmos.Library

instance linearOrderUInt64 : LinearOrder UInt64 where
  le_refl := UInt64.le_refl
  le_trans _ _ _ := UInt64.le_trans
  le_antisymm _ _ := UInt64.le_antisymm
  le_total := UInt64.le_total
  lt_iff_le_not_ge a b := by
    rw [UInt64.lt_iff_toNat_lt, UInt64.le_iff_toNat_le, UInt64.le_iff_toNat_le]
    omega
  toDecidableLE := inferInstance
  toDecidableEq := inferInstance
  toDecidableLT := inferInstance
  min_def _ _ := rfl
  max_def _ _ := rfl

variable {trap : Bool} {a b : UInt64}

namespace U64

def add (trap : Bool) (a b : UInt64) : Option UInt64 :=
  if trap = true ∧ 2 ^ 64 ≤ a.toNat + b.toNat then none else some (a + b)

def sub (trap : Bool) (a b : UInt64) : Option UInt64 :=
  if trap = true ∧ a < b then none else some (a - b)

theorem eq_of_add {c : UInt64} (h : add trap a b = some c) : c = a + b := by
  unfold add at h
  split at h
  · cases h
  · exact (Option.some.inj h).symm

/-- A sum is exact in a build that stops at an overflow, and within the range in every build. -/
theorem toNat_of_add {c : UInt64} (h : add trap a b = some c)
    (hfit : trap = true ∨ a.toNat + b.toNat < 2 ^ 64) : c.toNat = a.toNat + b.toNat := by
  unfold add at h
  split at h
  · cases h
  · next hlt =>
    cases h
    have hle : a.toNat + b.toNat < 2 ^ 64 := by
      rcases hfit with rfl | hfit
      · exact not_le.mp fun hge => hlt ⟨rfl, hge⟩
      · exact hfit
    rw [UInt64.toNat_add, Nat.mod_eq_of_lt hle]

theorem toNat_of_add_one {c : UInt64} (h : add true a 1 = some c) : c.toNat = a.toNat + 1 :=
  toNat_of_add h (Or.inl rfl)

/-- A number below the top has a successor in the range. -/
theorem lt_succ (h : a ≠ 0xFFFFFFFFFFFFFFFF) : a < a + 1 := by
  grind

theorem toNat_succ (h : a ≠ 0xFFFFFFFFFFFFFFFF) : (a + 1).toNat = a.toNat + 1 := by
  have hlt := UInt64.lt_iff_toNat_lt.mp (lt_succ h)
  have hadd := UInt64.toNat_add a 1
  have hone : UInt64.toNat 1 = 1 := rfl
  omega

/-- Below another number, adding one does not stop the program. -/
theorem add_one_ne_none (h : a < b) : add trap a 1 ≠ none := by
  unfold add
  rw [if_neg]
  · exact Option.some_ne_none _
  · rintro ⟨-, hover⟩
    have h1 : UInt64.toNat 1 = 1 := rfl
    have := UInt64.lt_iff_toNat_lt.mp h
    have := b.toNat_lt
    omega

/-- A sum in the range does not stop the program. -/
theorem add_eq_some (h : trap = true → a.toNat + b.toNat < 2 ^ 64) :
    add trap a b = some (a + b) :=
  if_neg fun hover => absurd hover.2 (Nat.not_le.mpr (h hover.1))

theorem sub_eq_some (trap : Bool) (h : b ≤ a) : sub trap a b = some (a - b) :=
  if_neg fun hover => absurd hover.2 (not_lt.mpr h)

theorem succ_le (h : a < b) : a + 1 ≤ b := by
  grind

theorem toNat_ofInt {z : ℤ} (h0 : 0 ≤ z) (h1 : z < 2 ^ 64) : ((UInt64.ofInt z).toNat : ℤ) = z := by
  have hmod : z % 2 ^ 64 = z := Int.emod_eq_of_lt h0 h1
  rw [UInt64.ofInt, hmod, UInt64.toNat_ofNat', Nat.mod_eq_of_lt (by omega)]
  omega

theorem ofInt_eq {z : ℤ} {s : UInt64} (h : z = s.toNat) : UInt64.ofInt z = s := by
  have hlt := s.toNat_lt
  have hz := toNat_ofInt (z := z) (by omega) (by omega)
  apply UInt64.toNat_inj.mp
  omega

end U64

/-- `u8::saturating_add`. -/
def saturatingAdd8 (a b : UInt8) : UInt8 := if a.toNat + b.toNat < 2 ^ 8 then a + b else 0xFF

/-- `u32::saturating_mul`. -/
def saturatingMul32 (a b : UInt32) : UInt32 :=
  if a.toNat * b.toNat < 2 ^ 32 then a * b else 0xFFFFFFFF

/-- `u64::saturating_mul`. -/
def saturatingMul64 (a b : UInt64) : UInt64 :=
  if a.toNat * b.toNat < 2 ^ 64 then a * b else 0xFFFFFFFFFFFFFFFF

/-- `u64::saturating_add`. -/
def saturatingAdd64 (a b : UInt64) : UInt64 :=
  if a.toNat + b.toNat < 2 ^ 64 then a + b else 0xFFFFFFFFFFFFFFFF

theorem toNat_saturatingAdd8 (a b : UInt8) :
    (saturatingAdd8 a b).toNat = min (a.toNat + b.toNat) (2 ^ 8 - 1) := by
  unfold saturatingAdd8
  split
  · next h =>
    rw [UInt8.toNat_add, Nat.mod_eq_of_lt h]
    omega
  · next h =>
    have htop : UInt8.toNat 0xFF = 2 ^ 8 - 1 := rfl
    omega

theorem toNat_saturatingMul32 (a b : UInt32) :
    (saturatingMul32 a b).toNat = min (a.toNat * b.toNat) (2 ^ 32 - 1) := by
  unfold saturatingMul32
  split
  · next h =>
    rw [UInt32.toNat_mul, Nat.mod_eq_of_lt h]
    omega
  · next h =>
    have htop : UInt32.toNat 0xFFFFFFFF = 2 ^ 32 - 1 := rfl
    omega

theorem toNat_saturatingMul64 (a b : UInt64) :
    (saturatingMul64 a b).toNat = min (a.toNat * b.toNat) (2 ^ 64 - 1) := by
  unfold saturatingMul64
  split
  · next h =>
    rw [UInt64.toNat_mul, Nat.mod_eq_of_lt h]
    omega
  · next h =>
    have htop : UInt64.toNat 0xFFFFFFFFFFFFFFFF = 2 ^ 64 - 1 := rfl
    omega

theorem toNat_saturatingAdd64 (a b : UInt64) :
    (saturatingAdd64 a b).toNat = min (a.toNat + b.toNat) (2 ^ 64 - 1) := by
  unfold saturatingAdd64
  split
  · next h =>
    rw [UInt64.toNat_add, Nat.mod_eq_of_lt h]
    omega
  · next h =>
    have htop : UInt64.toNat 0xFFFFFFFFFFFFFFFF = 2 ^ 64 - 1 := rfl
    omega

/-- `u16::saturating_sub`. -/
def saturatingSub16 (a b : UInt16) : UInt16 := if b ≤ a then a - b else 0

theorem toNat_saturatingSub16 (a b : UInt16) :
    (saturatingSub16 a b).toNat = a.toNat - b.toNat := by
  unfold saturatingSub16
  split
  · next h => exact UInt16.toNat_sub_of_le a b h
  · next h =>
    rw [UInt16.le_iff_toNat_le] at h
    exact (Nat.sub_eq_zero_of_le (by omega)).symm

theorem toNat_max16 (a b : UInt16) : (max a b).toNat = max a.toNat b.toNat := by
  change (if a ≤ b then b else a).toNat = max a.toNat b.toNat
  split
  · next h => exact (max_eq_right (UInt16.le_iff_toNat_le.mp h)).symm
  · next h =>
    rw [UInt16.le_iff_toNat_le] at h
    exact (max_eq_left (by omega)).symm

/-- `u64::saturating_sub`. -/
def saturatingSub64 (a b : UInt64) : UInt64 := if b ≤ a then a - b else 0

theorem toNat_saturatingSub64 (a b : UInt64) :
    (saturatingSub64 a b).toNat = a.toNat - b.toNat := by
  unfold saturatingSub64
  split
  · next h => exact UInt64.toNat_sub_of_le a b h
  · next h =>
    rw [UInt64.le_iff_toNat_le] at h
    exact (Nat.sub_eq_zero_of_le (by omega)).symm

theorem toNat_min64 (a b : UInt64) : (min a b).toNat = min a.toNat b.toNat := by
  rw [min_def, min_def]
  simp only [UInt64.le_iff_toNat_le]
  split
  · rfl
  · rfl

end Desmos.Library
