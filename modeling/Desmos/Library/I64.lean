import Desmos.Library.Returns

/-! # Signed 64-bit arithmetic

A build decides what the plain operators do on overflow. `Traps` makes that choice a parameter, and
adds one that no build offers: stopping also where `wrapping_add`, `wrapping_sub` and `<<` leave the
range.
-/
namespace Desmos.Library

/-- Which operations stop the program when their result leaves the range. -/
structure Traps where
  operators : Bool
  wrapping : Bool

namespace I64

def InRange (z : ℤ) : Prop := -2 ^ 63 ≤ z ∧ z < 2 ^ 63

instance (z : ℤ) : Decidable (InRange z) := inferInstanceAs (Decidable (_ ∧ _))

/-- The machine's result of an operation whose exact result is `exact`. -/
def checked (trap : Bool) (exact : ℤ) (result : Int64) : Option Int64 :=
  if trap = true ∧ ¬ InRange exact then none else some result

variable (t : Traps)

def add (a b : Int64) : Option Int64 := checked t.operators (a.toInt + b.toInt) (a + b)
def sub (a b : Int64) : Option Int64 := checked t.operators (a.toInt - b.toInt) (a - b)
def mul (a b : Int64) : Option Int64 := checked t.operators (a.toInt * b.toInt) (a * b)

def wrappingAdd (a b : Int64) : Option Int64 := checked t.wrapping (a.toInt + b.toInt) (a + b)
def wrappingSub (a b : Int64) : Option Int64 := checked t.wrapping (a.toInt - b.toInt) (a - b)

/-- `a << k`, which drops the bits it shifts out without a trap in any build. -/
def shl (a : Int64) (k : ℕ) : Option Int64 :=
  checked t.wrapping (a.toInt * 2 ^ k) (a <<< Int64.ofNat k)

/-- Every operation gives what it gives on the integers, if it gives anything. -/
structure Exact : Prop where
  add : ∀ {a b c}, I64.add t a b = some c → c.toInt = a.toInt + b.toInt
  sub : ∀ {a b c}, I64.sub t a b = some c → c.toInt = a.toInt - b.toInt
  mul : ∀ {a b c}, I64.mul t a b = some c → c.toInt = a.toInt * b.toInt
  wrappingAdd : ∀ {a b c}, I64.wrappingAdd t a b = some c → c.toInt = a.toInt + b.toInt
  wrappingSub : ∀ {a b c}, I64.wrappingSub t a b = some c → c.toInt = a.toInt - b.toInt
  shl : ∀ {a c k}, k < 64 → I64.shl t a k = some c → c.toInt = a.toInt * 2 ^ k

/-- `a >> k`, which keeps the sign. -/
def shr (a : Int64) (k : ℕ) : Int64 := a >>> Int64.ofNat k

theorem checked_returns {trap : Bool} {z : ℤ} {r : Int64} (hz : InRange z)
    (hr : r.toInt = z.bmod (2 ^ 64)) : Returns (checked trap z r) fun c => c.toInt = z := by
  rw [checked, if_neg fun h => h.2 hz]
  apply Returns.pure
  rw [hr]
  exact Int.bmod_eq_of_le (by have := hz.1; omega) (by have := hz.2; omega)

/-- With every trap set a result that is given is the exact one. -/
theorem toInt_of_checked {z : ℤ} {r c : Int64} (hr : r.toInt = z.bmod (2 ^ 64))
    (h : checked true z r = some c) : c.toInt = z := by
  have hz : InRange z := by
    by_contra hout
    rw [checked, if_pos ⟨rfl, hout⟩] at h
    cases h
  obtain ⟨c', hc', hexact⟩ : Returns (checked true z r) fun c => c.toInt = z :=
    checked_returns hz hr
  rw [h] at hc'
  rw [Option.some.inj hc', hexact]

variable {t} {a b : Int64} {x y : ℤ}

theorem add_returns (ha : a.toInt = x) (hb : b.toInt = y) (h : InRange (x + y)) :
    Returns (add t a b) fun c => c.toInt = x + y := by
  subst ha hb
  exact checked_returns h (Int64.toInt_add a b)

theorem sub_returns (ha : a.toInt = x) (hb : b.toInt = y) (h : InRange (x - y)) :
    Returns (sub t a b) fun c => c.toInt = x - y := by
  subst ha hb
  exact checked_returns h (Int64.toInt_sub a b)

theorem mul_returns (ha : a.toInt = x) (hb : b.toInt = y) (h : InRange (x * y)) :
    Returns (mul t a b) fun c => c.toInt = x * y := by
  subst ha hb
  exact checked_returns h (Int64.toInt_mul a b)

theorem wrappingAdd_returns (ha : a.toInt = x) (hb : b.toInt = y) (h : InRange (x + y)) :
    Returns (wrappingAdd t a b) fun c => c.toInt = x + y := by
  subst ha hb
  exact checked_returns h (Int64.toInt_add a b)

theorem wrappingSub_returns (ha : a.toInt = x) (hb : b.toInt = y) (h : InRange (x - y)) :
    Returns (wrappingSub t a b) fun c => c.toInt = x - y := by
  subst ha hb
  exact checked_returns h (Int64.toInt_sub a b)

/-- A shift amount below the width is taken as it is. -/
theorem shiftAmount {k : ℕ} (hk : k < 64) :
    (Int64.ofNat k).toBitVec.smod 64 = BitVec.ofNat 64 k := by
  interval_cases k <;> rfl

theorem toInt_shl (a : Int64) {k : ℕ} (hk : k < 64) :
    (a <<< Int64.ofNat k).toInt = (a.toInt * 2 ^ k).bmod (2 ^ 64) := by
  have hn : (BitVec.ofNat 64 k).toNat = k := by
    rw [BitVec.toNat_ofNat, Nat.mod_eq_of_lt (by omega)]
  rw [← Int64.toInt_toBitVec, Int64.toBitVec_shiftLeft, shiftAmount hk, BitVec.shiftLeft_eq', hn,
    BitVec.toInt_shiftLeft, Nat.shiftLeft_eq, ← Int64.toInt_toBitVec a,
    BitVec.toInt_eq_toNat_bmod a.toBitVec]
  push_cast
  rw [Int.bmod_mul_bmod]

theorem exact_of_traps : Exact ⟨true, true⟩ where
  add := toInt_of_checked (Int64.toInt_add _ _)
  sub := toInt_of_checked (Int64.toInt_sub _ _)
  mul := toInt_of_checked (Int64.toInt_mul _ _)
  wrappingAdd := toInt_of_checked (Int64.toInt_add _ _)
  wrappingSub := toInt_of_checked (Int64.toInt_sub _ _)
  shl hk := toInt_of_checked (toInt_shl _ hk)

theorem shl_returns {k : ℕ} (hk : k < 64) (ha : a.toInt = x) (h : InRange (x * 2 ^ k)) :
    Returns (shl t a k) fun c => c.toInt = x * 2 ^ k := by
  subst ha
  exact checked_returns h (toInt_shl a hk)

theorem toInt_shr (a : Int64) {k : ℕ} (hk : k < 64) : (shr a k).toInt = a.toInt / 2 ^ k := by
  have hn : (BitVec.ofNat 64 k).toNat = k := by
    rw [BitVec.toNat_ofNat, Nat.mod_eq_of_lt (by omega)]
  rw [shr, ← Int64.toInt_toBitVec, Int64.toBitVec_shiftRight, shiftAmount hk,
    BitVec.sshiftRight_eq', hn, BitVec.toInt_sshiftRight, Int64.toInt_toBitVec,
    Int.shiftRight_eq_div_pow]
  norm_cast

/-- Masking off the low `k` bits is the remainder, also of a negative number. -/
theorem toInt_and_mask (a : Int64) {m : Int64} {k : ℕ} (hk : k < 63) (hm : m.toInt = 2 ^ k - 1) :
    (a &&& m).toInt = a.toInt % 2 ^ k := by
  have hlt : (2 : ℤ) ^ k ≤ 2 ^ 62 := pow_le_pow_right₀ (by norm_num) (by omega)
  have hpos : (0 : ℤ) < 2 ^ k := by positivity
  have hmn : m.toBitVec.toNat = 2 ^ k - 1 := by
    have h := BitVec.toInt_eq_toNat_cond m.toBitVec
    have hb := m.toBitVec.isLt
    rw [Int64.toInt_toBitVec, hm] at h
    zify [Nat.one_le_two_pow (n := k)]
    split at h <;> omega
  have hdvd : ((2 : ℤ) ^ k) ∣ ((2 ^ 64 : ℕ) : ℤ) := pow_dvd_pow 2 (by omega)
  rw [← Int64.toInt_toBitVec, Int64.toBitVec_and, BitVec.toInt_eq_toNat_bmod, BitVec.toNat_and,
    hmn, Nat.and_two_pow_sub_one_eq_mod, ← Int64.toInt_toBitVec a, BitVec.toInt_eq_toNat_bmod,
    ← Int.emod_emod_of_dvd _ hdvd, Int.bmod_emod, Int.emod_emod_of_dvd _ hdvd]
  push_cast
  have h0 := Int.emod_nonneg (a.toBitVec.toNat : ℤ) hpos.ne'
  have h1 := Int.emod_lt_of_pos (a.toBitVec.toNat : ℤ) hpos
  exact Int.bmod_eq_of_le (by omega) (by omega)

end I64

end Desmos.Library
