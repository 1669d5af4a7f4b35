import Desmos.Core.Bonding.Weighted
import Desmos.Library.Threads

/-! # Drawing from the shared generator

`next_xorshift64` as the threads that share it run it: a load, and rounds of a compare-exchange that
may also fail for no reason. Of all words only zero is left as it is by a step of the generator.
-/
namespace Desmos.Core
open Library

def xorshiftBits (x : BitVec 64) : BitVec 64 :=
  let y := x ^^^ (x <<< 13)
  let y := y ^^^ (y >>> 7)
  y ^^^ (y <<< 17)

/-- What a word that the step leaves as it is holds above its seven lowest bits. -/
def upperBits (x : BitVec 64) : BitVec 64 :=
  x <<< 13 ^^^ (x <<< 13) >>> 7 ^^^ (x <<< 17 ^^^ x <<< 34 ^^^ x <<< 51)

theorem ushiftRight_of_fixed {x : BitVec 64} (h : xorshiftBits x = x) : x >>> 7 = upperBits x := by
  obtain ⟨b, hb⟩ : ∃ b, b = (x ^^^ x <<< 13) ^^^ (x ^^^ x <<< 13) >>> 7 := ⟨_, rfl⟩
  have hlast : b ^^^ b <<< 17 = x := by
    rw [hb]
    exact h
  -- the last shift is undone by going round as often as it fits into the word
  have hround : ∀ k, b <<< k = x <<< k ^^^ b <<< (k + 17) := by
    intro k
    rw [← hlast, BitVec.shiftLeft_xor_distrib, Nat.add_comm, BitVec.shiftLeft_add,
      BitVec.xor_assoc, BitVec.xor_self, BitVec.xor_zero]
  have hundo : b = x ^^^ (x <<< 17 ^^^ x <<< 34 ^^^ x <<< 51) := by
    have hout : b <<< (51 + 17) = 0#64 := BitVec.shiftLeft_eq_zero (by decide)
    have hall := hround 0
    rw [hround (0 + 17), hround (0 + 17 + 17), hround 51, hout] at hall
    simpa [BitVec.xor_assoc] using hall
  rw [hundo, BitVec.ushiftRight_xor_distrib] at hb
  ext i hi
  have hbit := congrArg (fun w : BitVec 64 => w[i]) hb
  have hsolve : ∀ x p q r s : Bool, (x ^^ s) = ((x ^^ p) ^^ (q ^^ r)) → q = ((p ^^ r) ^^ s) := by
    decide
  simp only [BitVec.getElem_xor] at hbit
  simp only [upperBits, BitVec.getElem_xor]
  exact hsolve _ _ _ _ _ hbit

theorem eq_of_upperBits {low x z : BitVec 64} (hx : x = low ^^^ upperBits x <<< 7)
    (hz : z = low ^^^ upperBits z <<< 7) : x = z := by
  have hbits : ∀ i, x.getLsbD i = z.getLsbD i := by
    intro i
    induction i using Nat.strong_induction_on with
    | _ i ih =>
      rw [hx, hz, BitVec.getLsbD_xor, BitVec.getLsbD_xor, BitVec.getLsbD_shiftLeft,
        BitVec.getLsbD_shiftLeft]
      by_cases hlow : i < 7
      · simp [hlow]
      · simp only [upperBits, BitVec.getLsbD_xor, BitVec.getLsbD_ushiftRight,
          BitVec.getLsbD_shiftLeft]
        rw [ih (i - 7 - 13) (by omega), ih (7 + (i - 7) - 13) (by omega),
          ih (i - 7 - 17) (by omega), ih (i - 7 - 34) (by omega), ih (i - 7 - 51) (by omega)]
  exact BitVec.eq_of_getLsbD_eq fun i _ => hbits i

/-- Five rounds fill the word up from its lowest bits. -/
def fromLowBits (low : BitVec 64) : BitVec 64 := (fun z => low ^^^ upperBits z <<< 7)^[5] low

theorem fromLowBits_moves : ∀ n < 128, n ≠ 0 →
    let z := fromLowBits (BitVec.ofNat 64 n)
    z = BitVec.ofNat 64 n ^^^ upperBits z <<< 7 ∧ xorshiftBits z ≠ z := by
  decide +kernel

theorem eq_zero_of_fixed {x : BitVec 64} (h : xorshiftBits x = x) : x = 0 := by
  have hlow : x = BitVec.ofNat 64 (x.setWidth 7).toNat ^^^ upperBits x <<< 7 := by
    rw [BitVec.ofNat_toNat, ← ushiftRight_of_fixed h]
    ext i hi
    by_cases hsmall : i < 7
    · simp [hsmall, BitVec.getLsbD_eq_getElem hi]
    · have hindex : 7 + (i - 7) = i := by omega
      simp [hsmall, hindex, BitVec.getLsbD_eq_getElem hi]
  by_cases hzero : (x.setWidth 7).toNat = 0
  · rw [hzero] at hlow
    exact eq_of_upperBits hlow (by decide)
  · obtain ⟨hfill, hmoves⟩ := fromLowBits_moves _ (x.setWidth 7).isLt hzero
    rw [← eq_of_upperBits hlow hfill] at hmoves
    exact absurd h hmoves

theorem xorshift_ne_self {x : UInt64} (h : x ≠ 0) : xorshift x ≠ x := by
  intro hself
  have hbits : xorshiftBits x.toBitVec = x.toBitVec := congrArg UInt64.toBitVec hself
  exact h (UInt64.toBitVec_inj.mp (eq_zero_of_fixed hbits))

theorem xorshift_ne_zero {x : UInt64} (h : x ≠ 0) : xorshift x ≠ 0 := by
  intro hzero
  exact h (xorshift_injective (hzero.trans (by decide)))

theorem nextXorshift64_of_ne_zero {x : UInt64} (h : x ≠ 0) : nextXorshift64 x = xorshift x := by
  rw [nextXorshift64, if_neg h]
  rfl

theorem nextXorshift64_ne_zero (x : UInt64) : nextXorshift64 x ≠ 0 := by
  by_cases hx : x = 0
  · rw [hx]
    decide
  · rw [nextXorshift64_of_ne_zero hx]
    exact xorshift_ne_zero hx

theorem nextXorshift64_ne_self {x : UInt64} (h : x ≠ 0) : nextXorshift64 x ≠ x := by
  rw [nextXorshift64_of_ne_zero h]
  exact xorshift_ne_self h

theorem nextXorshift64_injOn : Set.InjOn nextXorshift64 {x | x ≠ 0} := by
  intro x hx y hy h
  rw [nextXorshift64_of_ne_zero hx, nextXorshift64_of_ne_zero hy] at h
  exact xorshift_injective h

inductive DrawState where
  | loading
  /-- Before a compare-exchange that expects `x`. -/
  | exchanging (x : UInt64)

/-- One access of a call to the cell, with what the call returns if it ends. An exchange that finds
what it expects may fail all the same. -/
def drawStep : Program UInt64 DrawState Bool (Option UInt64) := fun cell call spurious =>
  match call with
  | .loading => (none, cell, .exchanging cell)
  | .exchanging x =>
    if cell = x ∧ spurious = false then (some (nextXorshift64 x), nextXorshift64 x, .loading)
    else (none, cell, .exchanging cell)

section Runs
variable {κ : Type*} [DecidableEq κ]

/-- The threads `κ` on one cell. -/
def callers : Machine (Pool κ UInt64 DrawState) (κ × Bool) (Option UInt64) :=
  Pool.interleave fun _ => drawStep

variable (p : Pool κ UInt64 DrawState)

theorem callers_cases (e : κ × Bool) :
    ((callers p e).1 = none ∧ (callers p e).2.shared = p.shared) ∨
    ((callers p e).1 = some (nextXorshift64 p.shared) ∧
      (callers p e).2.shared = nextXorshift64 p.shared) := by
  simp only [callers, Pool.interleave, drawStep]
  cases p.threads e.1 with
  | loading => exact .inl ⟨rfl, rfl⟩
  | exchanging x =>
    by_cases hfound : p.shared = x ∧ e.2 = false
    · simp [hfound]
    · simp [hfound]

/-- What the calls return, in the order of their exchanges. -/
def draws (schedule : List (κ × Bool)) : List UInt64 :=
  (callers.trace p schedule).filterMap Prod.snd

theorem draws_eq_iterate (schedule : List (κ × Bool)) : draws p schedule =
      List.iterate nextXorshift64 (nextXorshift64 p.shared) (draws p schedule).length := by
  induction schedule generalizing p with
  | nil => rfl
  | cons e schedule ih =>
    have hrest := ih (callers p e).2
    rcases callers_cases p e with ⟨hnone, hcell⟩ | ⟨hsome, hcell⟩
    · have hdraws : draws p (e :: schedule) = draws (callers p e).2 schedule := by
        rw [draws, Machine.trace_cons, hnone]
        rfl
      rw [hdraws, ← hcell]
      exact hrest
    · have hdraws : draws p (e :: schedule) =
          nextXorshift64 p.shared :: draws (callers p e).2 schedule := by
        rw [draws, Machine.trace_cons, hsome]
        rfl
      rw [hdraws, List.length_cons, List.iterate, ← hcell]
      exact congrArg _ hrest

theorem iterate_sound (n : ℕ) {y : UInt64} (hy : y ≠ 0) :
    (∀ z ∈ List.iterate nextXorshift64 y n, z ≠ 0) ∧
      (List.iterate nextXorshift64 y n).IsChain (· ≠ ·) := by
  induction n generalizing y with
  | zero => exact ⟨nofun, .nil⟩
  | succ n ih =>
    obtain ⟨hzero, hchain⟩ := ih (nextXorshift64_ne_zero y)
    refine ⟨List.forall_mem_cons.mpr ⟨hy, hzero⟩, ?_⟩
    cases n with
    | zero => exact .singleton y
    | succ n => exact .cons_cons (nextXorshift64_ne_self hy).symm hchain

/-- However the accesses of any threads to the cell are interleaved, the calls return the iterates of
the step from the word that the cell held, none of them zero and no two in a row the same. -/
theorem concurrent_draws_sound (start : UInt64) (schedule : List (κ × Bool)) :
    let drawn := draws ⟨start, fun _ => .loading⟩ schedule
    drawn = List.iterate nextXorshift64 (nextXorshift64 start) drawn.length ∧
      Set.InjOn nextXorshift64 {x | x ≠ 0} ∧ (∀ x, x ≠ 0 → nextXorshift64 x ≠ x) ∧
      (∀ x, nextXorshift64 x ≠ 0) ∧ (∀ y ∈ drawn, y ≠ 0) ∧ drawn.IsChain (· ≠ ·) := by
  intro drawn
  have hdrawn : drawn = List.iterate nextXorshift64 (nextXorshift64 start) drawn.length :=
    draws_eq_iterate _ schedule
  refine ⟨hdrawn, nextXorshift64_injOn, fun x hx => nextXorshift64_ne_self hx,
    nextXorshift64_ne_zero, ?_⟩
  rw [hdrawn]
  exact iterate_sound _ (nextXorshift64_ne_zero start)

end Runs

end Desmos.Core
