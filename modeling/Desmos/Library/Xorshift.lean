import Mathlib.Tactic

/-! # Xor with a shift of the same word

Every bit of `x ^^^ (x <<< k)` is the bit of `x` at its place and one further down, so that `x` can
be read back from the lowest bit up. On the words of one size such a step is a bijection.
-/
namespace Desmos.Library

variable {w : ℕ}

/-- The bits of `x` follow from below: where the shift brings in a zero the xor shows the bit
itself, above that it shows it through a lower one. -/
theorem xor_shiftLeft_injective {k : ℕ} (hk : 0 < k) :
    Function.Injective fun x : BitVec w => x ^^^ (x <<< k) := by
  intro x y h
  have hbits : ∀ i, x.getLsbD i = y.getLsbD i := by
    intro i
    induction i using Nat.strong_induction_on with
    | _ i ih =>
      have hbit := congrArg (fun z : BitVec w => z.getLsbD i) h
      simp only [BitVec.getLsbD_xor, BitVec.getLsbD_shiftLeft] at hbit
      by_cases hlow : i < k
      · simpa [hlow] using hbit
      · rw [ih (i - k) (by omega)] at hbit
        exact Bool.xor_left_inj.mp hbit
  exact BitVec.eq_of_getLsbD_eq fun i _ => hbits i

/-- The bits of `x` follow from above, where the shift has nothing to bring in. -/
theorem xor_ushiftRight_injective {k : ℕ} (hk : 0 < k) :
    Function.Injective fun x : BitVec w => x ^^^ (x >>> k) := by
  intro x y h
  have hbits : ∀ d i, w ≤ i + d → x.getLsbD i = y.getLsbD i := by
    intro d
    induction d using Nat.strong_induction_on with
    | _ d ih =>
      intro i hi
      have hbit := congrArg (fun z : BitVec w => z.getLsbD i) h
      simp only [BitVec.getLsbD_xor, BitVec.getLsbD_ushiftRight] at hbit
      by_cases htop : w ≤ k + i
      · simpa [BitVec.getLsbD_of_ge _ _ htop] using hbit
      · rw [ih (d - k) (by omega) (k + i) (by omega)] at hbit
        exact Bool.xor_left_inj.mp hbit
  exact BitVec.eq_of_getLsbD_eq fun i _ => hbits w i (by omega)

theorem word_shiftLeft_injective {k : UInt64} (hk : 0 < k.toNat % 64) :
    Function.Injective fun x : UInt64 => x ^^^ (x <<< k) := by
  intro x y h
  have hbits := congrArg UInt64.toBitVec h
  simp only [UInt64.toBitVec_xor, UInt64.toBitVec_shiftLeft, BitVec.shiftLeft_eq'] at hbits
  apply UInt64.toBitVec_inj.mp
  apply xor_shiftLeft_injective _ hbits
  simpa using hk

theorem word_shiftRight_injective {k : UInt64} (hk : 0 < k.toNat % 64) :
    Function.Injective fun x : UInt64 => x ^^^ (x >>> k) := by
  intro x y h
  have hbits := congrArg UInt64.toBitVec h
  simp only [UInt64.toBitVec_xor, UInt64.toBitVec_shiftRight, BitVec.ushiftRight_eq'] at hbits
  apply UInt64.toBitVec_inj.mp
  apply xor_ushiftRight_injective _ hbits
  simpa using hk

/-- An injective step on the words reaches every word. -/
theorem word_surjective {f : UInt64 → UInt64} (h : Function.Injective f) :
    Function.Surjective f := by
  have hfinite : Finite UInt64 := Finite.of_injective UInt64.toFin fun _ _ => UInt64.toFin_inj.mp
  exact Finite.surjective_of_injective h

end Desmos.Library
