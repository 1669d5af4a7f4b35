import Mathlib.Tactic

/-! # Integers of a fixed width

An operation that stops the program when its result is not one of the type. A program that never
stops under it has no overflow and no underflow, in any build.
-/
namespace Desmos.Library

inductive IntType where
  | u8
  | u32
  | i32
  | u64
  | i64

namespace IntType

def lo : IntType → ℤ
  | u8 | u32 | u64 => 0
  | i32 => -2 ^ 31
  | i64 => -2 ^ 63

def hi : IntType → ℤ
  | u8 => 2 ^ 8 - 1
  | u32 => 2 ^ 32 - 1
  | i32 => 2 ^ 31 - 1
  | u64 => 2 ^ 64 - 1
  | i64 => 2 ^ 63 - 1

/-- The result of an operation, if the type has it. -/
def fit (t : IntType) (z : ℤ) : Option ℤ := if t.lo ≤ z ∧ z ≤ t.hi then some z else none

theorem fit_eq {t : IntType} {z : ℤ} (hlo : t.lo ≤ z) (hhi : z ≤ t.hi) : t.fit z = some z :=
  if_pos ⟨hlo, hhi⟩

end IntType

end Desmos.Library
