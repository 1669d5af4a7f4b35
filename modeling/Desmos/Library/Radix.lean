import Mathlib.Tactic

/-! # Numbers written in limbs

A number in base `B` is a function from positions to integer limbs, least
significant first. Limbs may be negative or larger than the base; when every
limb is a digit the limbs are determined by the number.
-/
namespace Desmos.Library.Radix

variable {B : ℤ} {n : ℕ}

/-- The number that the limbs `f` denote. -/
def value (B : ℤ) (f : Fin n → ℤ) : ℤ := ∑ i, f i * B ^ i.val

def Digits (B : ℤ) (f : Fin n → ℤ) : Prop := ∀ i, 0 ≤ f i ∧ f i < B

instance (B : ℤ) (f : Fin n → ℤ) : Decidable (Digits B f) :=
  inferInstanceAs (Decidable (∀ i, 0 ≤ f i ∧ f i < B))

theorem value_succ (B : ℤ) (f : Fin (n + 1) → ℤ) :
    value B f = f 0 + B * value B fun i => f i.succ := by
  simp only [value, Fin.sum_univ_succ, Fin.val_zero, pow_zero, mul_one, Fin.val_succ, pow_succ,
    Finset.mul_sum]
  congr 1
  apply Finset.sum_congr rfl
  intro i _
  ring

theorem value_castSucc (B : ℤ) (f : Fin (n + 1) → ℤ) :
    value B f = (value B fun i => f i.castSucc) + f (Fin.last n) * B ^ n := by
  simp [value, Fin.sum_univ_castSucc]

theorem value_split (B : ℤ) {m : ℕ} (f : Fin (m + n) → ℤ) :
    value B f = (value B fun i => f (i.castAdd n)) + B ^ m * value B fun i => f (i.natAdd m) := by
  simp only [value, Fin.sum_univ_add, Fin.val_castAdd, Fin.val_natAdd, pow_add, Finset.mul_sum]
  congr 1
  apply Finset.sum_congr rfl
  intro i _
  ring

theorem value_add (B : ℤ) (f g : Fin n → ℤ) :
    (value B fun i => f i + g i) = value B f + value B g := by
  simp [value, add_mul, Finset.sum_add_distrib]

theorem value_sub (B : ℤ) (f g : Fin n → ℤ) :
    (value B fun i => f i - g i) = value B f - value B g := by
  simp [value, sub_mul, Finset.sum_sub_distrib]

/-- Writing one limb moves the number by that limb's weight. -/
theorem value_update (B : ℤ) (f : Fin n → ℤ) (i : Fin n) (v : ℤ) :
    value B (Function.update f i v) = value B f + (v - f i) * B ^ i.val := by
  rw [← sub_eq_iff_eq_add', ← value_sub, value, Finset.sum_eq_single i]
  · simp
  · intro j _ hj
    simp [hj]
  · simp

/-- Two limbs of base `B` make one limb of base `B ^ 2`. -/
theorem value_pairs (B : ℤ) (f : Fin (n * 2) → ℤ) :
    value B f = value (B ^ 2) fun i : Fin n =>
      f ⟨2 * i.val, by omega⟩ + B * f ⟨2 * i.val + 1, by omega⟩ := by
  rw [value, ← finProdFinEquiv.sum_comp, Fintype.sum_prod_type, value]
  apply Finset.sum_congr rfl
  intro i _
  have h0 : finProdFinEquiv (i, (0 : Fin 2)) = ⟨2 * i.val, by omega⟩ := Fin.ext (by simp)
  have h1 : finProdFinEquiv (i, (1 : Fin 2)) = ⟨2 * i.val + 1, by omega⟩ :=
    Fin.ext (by simp [Nat.add_comm])
  rw [Fin.sum_univ_two, h0, h1]
  ring

/-- The low digits of a number denote its remainder. -/
theorem value_digits (b n v : ℕ) :
    (value b fun i : Fin n => ((v / b ^ i.val % b : ℕ) : ℤ)) = (v % b ^ n : ℕ) := by
  induction n generalizing v with
  | zero => simp [value, Nat.mod_one]
  | succ n ih =>
    have hdiv : ∀ i : Fin n, v / b ^ (i.val + 1) = v / b / b ^ i.val := by
      intro i
      rw [pow_succ', Nat.div_div_eq_div_mul]
    simp only [value_succ, Fin.val_zero, pow_zero, Nat.div_one, Fin.val_succ, hdiv, ih]
    rw [pow_succ', Nat.mod_mul]
    rfl

theorem abs_value_le {f : Fin n → ℤ} {M : ℤ} (hB : 2 ≤ B) (hM : 0 ≤ M) (h : ∀ i, |f i| ≤ M) :
    |value B f| ≤ M * B ^ n := by
  induction n with
  | zero => simpa [value] using hM
  | succ n ih =>
    have hp : (0 : ℤ) ≤ B ^ n := by positivity
    have hlow := ih fun i => h i.castSucc
    have htop : |f (Fin.last n) * B ^ n| ≤ M * B ^ n := by
      rw [abs_mul, abs_of_nonneg hp]
      exact mul_le_mul_of_nonneg_right (h _) hp
    calc |value B f|
        ≤ |value B fun i => f i.castSucc| + |f (Fin.last n) * B ^ n| := by
          rw [value_castSucc]
          exact abs_add_le _ _
      _ ≤ 2 * (M * B ^ n) := by linarith
      _ ≤ B * (M * B ^ n) := mul_le_mul_of_nonneg_right hB (mul_nonneg hM hp)
      _ = M * B ^ (n + 1) := by ring

namespace Digits

variable {f : Fin n → ℤ}

theorem base_pos (h : Digits B f) (i : Fin n) : 0 < B := lt_of_le_of_lt (h i).1 (h i).2

theorem value_nonneg (h : Digits B f) : 0 ≤ value B f := by
  apply Finset.sum_nonneg
  intro i _
  exact mul_nonneg (h i).1 (pow_nonneg (h.base_pos i).le _)

theorem value_lt (hB : 0 < B) (h : Digits B f) : value B f < B ^ n := by
  induction n with
  | zero => simp [value]
  | succ n ih =>
    have hlow := ih (f := fun i => f i.castSucc) fun i => h i.castSucc
    have htop : (f (Fin.last n) + 1) * B ^ n ≤ B * B ^ n :=
      mul_le_mul_of_nonneg_right (by have := (h (Fin.last n)).2; omega) (pow_nonneg hB.le n)
    rw [value_castSucc, pow_succ]
    linarith

/-- Each digit can be read off the number. -/
theorem value_div_mod (h : Digits B f) (i : Fin n) : value B f / B ^ i.val % B = f i := by
  have hB := h.base_pos i
  induction n with
  | zero => exact i.elim0
  | succ n ih =>
    rw [value_succ]
    cases i using Fin.cases with
    | zero =>
      rw [Fin.val_zero, pow_zero, Int.ediv_one, Int.add_mul_emod_self_left,
        Int.emod_eq_of_lt (h 0).1 (h 0).2]
    | succ i =>
      rw [Fin.val_succ, pow_succ', ← Int.ediv_ediv_of_nonneg hB.le,
        Int.add_mul_ediv_left _ _ hB.ne', Int.ediv_eq_zero_of_lt (h 0).1 (h 0).2, zero_add]
      exact ih (f := fun i => f i.succ) (fun i => h i.succ) i

/-- The lowest digit is at most the number. -/
theorem head_le {f : Fin (n + 1) → ℤ} (h : Digits B f) : f 0 ≤ value B f := by
  rw [value_succ]
  have htail : 0 ≤ value B fun i => f i.succ := value_nonneg fun i => h i.succ
  have := mul_nonneg (h.base_pos 0).le htail
  omega

/-- A number close to the largest has a large lowest digit. -/
theorem le_head {f : Fin (n + 1) → ℤ} (h : Digits B f) :
    value B f - (B ^ (n + 1) - B) ≤ f 0 := by
  have hB := h.base_pos 0
  have htail : (value B fun i => f i.succ) < B ^ n := value_lt hB fun i => h i.succ
  have hmul : B * ((value B fun i => f i.succ) + 1) ≤ B * B ^ n :=
    mul_le_mul_of_nonneg_left (by omega) hB.le
  rw [value_succ, pow_succ']
  linarith

end Digits

end Desmos.Library.Radix
