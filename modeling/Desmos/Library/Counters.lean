import Mathlib.Data.BitVec
import Mathlib.Tactic

/-! # Counters that run free

A counter of `w` bits that only ever counts up, and the slot of a buffer of `2 ^ k` slots that its
low bits name. The slots follow one another through the wrap.
-/
namespace Desmos.Library.Counter

variable {w k : ℕ} {x y m : BitVec w} {i j : ℕ}

theorem toNat_and_mask (h : m.toNat + 1 = 2 ^ k) : (x &&& m).toNat = x.toNat % 2 ^ k := by
  have hm : m.toNat = 2 ^ k - 1 := by omega
  rw [BitVec.toNat_and, hm, Nat.and_two_pow_sub_one_eq_mod]

/-- Counting on by `i` moves the slot by `i`. -/
theorem toNat_add_ofNat_mod (hk : k ≤ w) (x : BitVec w) (i : ℕ) :
    (x + BitVec.ofNat w i).toNat % 2 ^ k = (x.toNat + i) % 2 ^ k := by
  rw [BitVec.toNat_add, BitVec.toNat_ofNat, Nat.mod_mod_of_dvd _ (Nat.pow_dvd_pow 2 hk)]
  have hdvd := Nat.pow_dvd_pow 2 hk
  exact Nat.ModEq.add_left _ ((Nat.mod_modEq i (2 ^ w)).of_dvd hdvd)

/-- Counters less than one round apart name different slots. -/
theorem offset_inj (hi : i < 2 ^ k) (hj : j < 2 ^ k) {a : ℕ}
    (h : (a + i) % 2 ^ k = (a + j) % 2 ^ k) : i = j := by
  have hij : i % 2 ^ k = j % 2 ^ k := Nat.ModEq.add_left_cancel' a h
  rwa [Nat.mod_eq_of_lt hi, Nat.mod_eq_of_lt hj] at hij

theorem ofNat_inj (hi : i < 2 ^ w) (hj : j < 2 ^ w) (h : BitVec.ofNat w i = BitVec.ofNat w j) :
    i = j := by
  have hn := congrArg BitVec.toNat h
  rwa [BitVec.toNat_ofNat, BitVec.toNat_ofNat, Nat.mod_eq_of_lt hi, Nat.mod_eq_of_lt hj] at hn

theorem toNat_one (hw : 0 < w) : (1 : BitVec w).toNat = 1 := by
  rw [show (1 : BitVec w) = BitVec.ofNat w 1 from rfl, BitVec.toNat_ofNat,
    Nat.mod_eq_of_lt (Nat.one_lt_two_pow hw.ne')]

/-- One count brings a counter closer to a counter ahead of it. -/
theorem toNat_sub_succ_lt (h : x ≠ y) : (y - (x + 1)).toNat < (y - x).toNat := by
  have hne : y - x ≠ 0 := sub_ne_zero.mpr (Ne.symm h)
  have hpos : 0 < (y - x).toNat := by
    rw [Nat.pos_iff_ne_zero]
    exact fun h0 => hne (BitVec.eq_of_toNat_eq (by simpa using h0))
  have hw : 0 < w := by
    rw [Nat.pos_iff_ne_zero]
    rintro rfl
    exact h (Subsingleton.elim x y)
  have hone := toNat_one hw
  have hle : (1 : BitVec w) ≤ y - x := by
    rw [BitVec.le_def, hone]
    exact hpos
  rw [← sub_sub, BitVec.toNat_sub_of_le hle, hone]
  omega

end Desmos.Library.Counter
