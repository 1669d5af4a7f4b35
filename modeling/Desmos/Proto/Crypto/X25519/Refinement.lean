import Desmos.Proto.Crypto.X25519.Encoding

/-! # The hand-written X25519 computes X25519

The ladder swaps back at the end of every turn while the RFC carries the swap over to the next one,
so the two agree up to the pending swap.
-/
namespace Desmos.Proto.X25519Field
open Library I64 Radix
open Rfc7748 (p Points LadderState)

variable {t : Traps}

theorem Reduced.mul_bounded {o : Fe} (h : Reduced o) : Bounded (2 ^ 18) o :=
  fun i => (h.bounded i).trans (by norm_num)

theorem fadd_reduced {a b : Fe} (ha : Reduced a) (hb : Reduced b) :
    Returns (fadd t a b) fun o => Bounded (2 ^ 18) o ∧ elem o = elem a + elem b := by
  apply (fadd_returns ha.bounded hb.bounded (by norm_num)).mono
  rintro o ⟨hB, hv⟩
  exact ⟨fun i => (hB i).trans (by norm_num), by rw [elem, hv, Int.cast_add, elem, elem]⟩

theorem fsub_reduced {a b : Fe} (ha : Reduced a) (hb : Reduced b) :
    Returns (fsub t a b) fun o => Bounded (2 ^ 18) o ∧ elem o = elem a - elem b := by
  apply (fsub_returns ha.bounded hb.bounded (by norm_num)).mono
  rintro o ⟨hB, hv⟩
  exact ⟨fun i => (hB i).trans (by norm_num), by rw [elem, hv, Int.cast_sub, elem, elem]⟩

section Inversion

theorem exponent_bits : ∀ a : Fin 254,
    (p - 2) / 2 ^ a.val % 2 = if a.val ≠ 2 ∧ a.val ≠ 4 then 1 else 0 := by
  decide +kernel

theorem finv_returns {i : Fe} (hi : Reduced i) :
    Returns (finv t i) fun c => Reduced c ∧ elem c = elem i ^ (p - 2) := by
  apply (Returns.foldrM
    (fun a c => Reduced c ∧ elem c = elem i ^ ((p - 2) / 2 ^ a)) _ _).mono
  · rintro c ⟨hc, he⟩
    exact ⟨hc, by rw [he, pow_zero, Nat.div_one]⟩
  · rintro a c ⟨hc, he⟩
    have hbit := exponent_bits a
    have hexp : (p - 2) / 2 ^ a.val =
        2 * ((p - 2) / 2 ^ (a.val + 1)) + (p - 2) / 2 ^ a.val % 2 := by
      rw [pow_succ, ← Nat.div_div_eq_div_mul]
      omega
    apply Returns.bind (fmul_returns hc.mul_bounded hc.mul_bounded)
    rintro c' ⟨he', hc'⟩
    by_cases hset : a.val ≠ 2 ∧ a.val ≠ 4
    · rw [if_pos hset] at hbit ⊢
      apply (fmul_returns hc'.mul_bounded hi.mul_bounded).mono
      rintro c'' ⟨he'', hc''⟩
      refine ⟨hc'', ?_⟩
      rw [he'', he', he, hexp, hbit]
      ring
    · rw [if_neg hset] at hbit ⊢
      apply Returns.pure
      refine ⟨hc', ?_⟩
      rw [he', he, hexp, hbit]
      ring
  · have htop : (p - 2) / 2 ^ 254 = 1 := by norm_num [p]
    exact ⟨hi, by rw [htop, pow_one]⟩

end Inversion

section Scalar

theorem decodeLittleEndian_clamp (n : Key32) :
    Rfc7748.decodeLittleEndian (clamp n) = Rfc7748.decodeScalar25519 n := by
  congr 1
  apply Vector.ext
  intro i hi
  by_cases h0 : i = 0
  · subst h0
    simp [clamp]
  · by_cases h31 : i = 31
    · subst h31
      simp [clamp]
    · simp [clamp, Ne.symm h0, Ne.symm h31]

theorem testBit_decodeLittleEndian (z : Key32) (i : Fin 255) (hi : i.val / 8 < 32) :
    (Rfc7748.decodeLittleEndian z).testBit i.val = z[i.val / 8].toNat.testBit (i.val % 8) := by
  have hd : Digits 256 fun j : Fin 32 => (z[j.val].toNat : ℤ) := by
    intro j
    change 0 ≤ (z[j.val].toNat : ℤ) ∧ (z[j.val].toNat : ℤ) < 256
    have := z[j.val].toNat_lt
    omega
  have hv := value_bytes z
  have hbyte : Rfc7748.decodeLittleEndian z / 256 ^ (i.val / 8) % 256 = z[i.val / 8].toNat := by
    have h := hd.value_div_mod ⟨i.val / 8, by omega⟩
    rw [hv] at h
    exact_mod_cast h
  rw [← hbyte, show 256 = 2 ^ 8 by norm_num, Nat.testBit_mod_two_pow, ← pow_mul,
    Nat.testBit_div_two_pow]
  simp [Nat.mod_lt, Nat.mod_add_div]

theorem scalarBit_eq (z : Key32) (i : Fin 255) :
    scalarBit z i = flag ((Rfc7748.decodeLittleEndian z).testBit i.val) := by
  have hbit : (z[i.val / 8] >>> UInt8.ofNat (i.val % 8) &&& 1).toNat =
      (z[i.val / 8].toNat.testBit (i.val % 8)).toNat := by
    have hshift : i.val % 8 % 2 ^ 8 % 8 = i.val % 8 := by omega
    rw [UInt8.toNat_and, UInt8.toNat_shiftRight, UInt8.toNat_ofNat', hshift,
      Nat.testBit_eq_decide_div_mod_eq, Nat.shiftRight_eq_div_pow]
    change _ &&& 1 = _
    obtain h | h := Nat.mod_two_eq_zero_or_one (z[i.val / 8].toNat / 2 ^ (i.val % 8))
    · simp [h]
    · simp [h]
  rw [testBit_decodeLittleEndian z i (by omega)]
  apply Int64.toInt_inj.mp
  rw [scalarBit, toInt_asI64, hbit]
  cases z[i.val / 8].toNat.testBit (i.val % 8) <;> rfl

end Scalar

section Ladder

theorem small_constant {o : Fe} {k : ℕ} (hd : Digits 65536 (limbs o)) (hv : val o = k) :
    Reduced o ∧ elem o = k :=
  ⟨Reduced.of_digits hd, by rw [elem, hv, Int.cast_natCast]⟩

theorem gf121665_reduced : Reduced gf121665 ∧ elem gf121665 = 121665 :=
  small_constant (k := 121665) (by decide) (by decide)

namespace Ladder

def points (s : Ladder) : Points (ZMod p) := ⟨elem s.a, elem s.c, elem s.b, elem s.d⟩

structure Reduced (s : Ladder) : Prop where
  a : X25519Field.Reduced s.a
  b : X25519Field.Reduced s.b
  c : X25519Field.Reduced s.c
  d : X25519Field.Reduced s.d

end Ladder

theorem swapPoints_returns {s : Ladder} (hs : s.Reduced) (r : Bool) :
    Returns (swapPoints t s (flag r)) fun s' => s'.Reduced ∧ s'.points = s.points.cswap r := by
  rw [swapPoints, constantTimeSwap_eq, constantTimeSwap_eq]
  cases r
  · exact Returns.pure ⟨hs, rfl⟩
  · exact Returns.pure ⟨⟨hs.b, hs.a, hs.d, hs.c⟩, rfl⟩

theorem ladderArith_returns {x : Fe} {s : Ladder} (hx : Reduced x) (hs : s.Reduced) :
    Returns (ladderArith t x s) fun s' => s'.Reduced ∧
      s'.points = s.points.step 121665 (elem x) := by
  apply Returns.bind (fadd_reduced hs.a hs.c)
  rintro e ⟨be, he⟩
  apply Returns.bind (fsub_reduced hs.a hs.c)
  rintro a ⟨ba, ha⟩
  apply Returns.bind (fadd_reduced hs.b hs.d)
  rintro c ⟨bc, hc⟩
  apply Returns.bind (fsub_reduced hs.b hs.d)
  rintro b ⟨bb, hb⟩
  apply Returns.bind (fmul_returns be be)
  rintro d ⟨hd, rd⟩
  apply Returns.bind (fmul_returns ba ba)
  rintro f ⟨hf, rf⟩
  apply Returns.bind (fmul_returns bc ba)
  rintro cb ⟨hcb, rcb⟩
  apply Returns.bind (fmul_returns bb be)
  rintro da ⟨hda, rda⟩
  apply Returns.bind (fadd_reduced rcb rda)
  rintro e' ⟨be', he'⟩
  apply Returns.bind (fsub_reduced rcb rda)
  rintro a' ⟨ba', ha'⟩
  apply Returns.bind (fmul_returns ba' ba')
  rintro b' ⟨hb', rb'⟩
  apply Returns.bind (fsub_reduced rd rf)
  rintro c' ⟨bc', hc'⟩
  apply Returns.bind (fmul_returns bc' gf121665_reduced.1.mul_bounded)
  rintro a2 ⟨ha2, ra2⟩
  apply Returns.bind (fadd_reduced ra2 rd)
  rintro a3 ⟨ba3, ha3⟩
  apply Returns.bind (fmul_returns bc' ba3)
  rintro c2 ⟨hc2, rc2⟩
  apply Returns.bind (fmul_returns rd.mul_bounded rf.mul_bounded)
  rintro a4 ⟨ha4, ra4⟩
  apply Returns.bind (fmul_returns rb'.mul_bounded hx.mul_bounded)
  rintro d2 ⟨hd2, rd2⟩
  apply Returns.bind (fmul_returns be' be')
  rintro b2 ⟨hb2, rb2⟩
  apply Returns.pure
  refine ⟨⟨ra4, rb2, rc2, rd2⟩, ?_⟩
  ext
  · change elem a4 = _
    rw [ha4, hd, hf, he, ha]
    simp only [Points.step, Ladder.points]
    ring
  · change elem c2 = _
    rw [hc2, hc', ha3, ha2, hc', hd, hf, he, ha, gf121665_reduced.2]
    simp only [Points.step, Ladder.points]
    ring
  · change elem b2 = _
    rw [hb2, he', hcb, hda, hc, hb, he, ha]
    simp only [Points.step, Ladder.points]
    ring
  · change elem d2 = _
    rw [hd2, hb', ha', hcb, hda, hc, hb, he, ha]
    simp only [Points.step, Ladder.points]
    ring

/-- The code's points are the RFC's after its pending swap. -/
def Follows (s : Ladder) (q : LadderState (ZMod p)) : Prop := s.Reduced ∧ s.points = q.settled

theorem ladderStep_follows {n : Key32} {x : Fe} (hx : Reduced x) (i : Fin 255) {s : Ladder}
    {q : LadderState (ZMod p)} (h : Follows s q) :
    Returns (ladderStep t (clamp n) x i s) fun s' =>
      Follows s' (Rfc7748.ladderStep 121665 (elem x)
        ((Rfc7748.decodeScalar25519 n).testBit i.val) q) := by
  rw [ladderStep, scalarBit_eq, decodeLittleEndian_clamp]
  apply Returns.bind (swapPoints_returns h.1 _)
  rintro s1 ⟨hr1, hp1⟩
  apply Returns.bind (ladderArith_returns hx hr1)
  rintro s2 ⟨hr2, hp2⟩
  apply (swapPoints_returns hr2 _).mono
  rintro s3 ⟨hr3, hp3⟩
  exact ⟨hr3, by rw [hp3, hp2, hp1, h.2, Rfc7748.settled_ladderStep]⟩

theorem first_limb_lt : 0 < 16 := by decide

theorem ladder_returns (n : Key32) {x : Fe} (hx : Reduced x) :
    Returns (Fin.foldrM 255 (ladderStep t (clamp n) x) ⟨zero.set 0 1 first_limb_lt, x, zero,
        zero.set 0 1 first_limb_lt⟩)
      fun s => s.Reduced ∧ s.points =
        Rfc7748.ladder 121665 Rfc7748.bits (Rfc7748.decodeScalar25519 n) (elem x) := by
  have h0 := small_constant (o := zero) (k := 0) (by decide) (by decide)
  have h1 := small_constant (o := zero.set 0 1) (k := 1) (by decide) (by decide)
  have hstart : Follows ⟨zero.set 0 1, x, zero, zero.set 0 1⟩ ⟨⟨1, 0, elem x, 1⟩, false⟩ := by
    refine ⟨⟨h1.1, hx, h0.1, h1.1⟩, ?_⟩
    rw [Ladder.points, h0.2, h1.2, Nat.cast_zero, Nat.cast_one]
    rfl
  exact Returns.foldrM_simulates Follows (fun i s q h => ladderStep_follows hx i h) hstart

end Ladder

theorem scalarmult_returns (t : Traps) (n u : Key32) :
    Returns (scalarmult t n u) fun o => o = Rfc7748.x25519 n u := by
  apply Returns.bind (unpack_returns u)
  rintro x ⟨hx, hxe⟩
  apply Returns.bind (ladder_returns n hx)
  rintro s ⟨hs, hp⟩
  apply Returns.bind (finv_returns hs.c)
  rintro c ⟨hc, hce⟩
  apply Returns.bind (fmul_returns hs.a.mul_bounded hc.mul_bounded)
  rintro o ⟨ho, hr⟩
  apply (pack_returns hr).mono
  rintro q rfl
  have ha : elem s.a = s.points.x2 := rfl
  have hz : elem s.c = s.points.z2 := rfl
  rw [ho, hce, ha, hz, hp, hxe]
  rfl

/-- Whatever a build does on overflow, the code returns the bytes of X25519, and
they encode a number below the prime. -/
theorem scalarmult_eq_x25519 (t : Traps) (n u : Key32) :
    scalarmult t n u = some (Rfc7748.x25519 n u) ∧
      Rfc7748.decodeLittleEndian (Rfc7748.x25519 n u) < p := by
  obtain ⟨o, ho, rfl⟩ := scalarmult_returns t n u
  exact ⟨ho, by rw [Rfc7748.x25519, decode_encodeUCoordinate]; exact ZMod.val_lt _⟩

/-- Where every operation stops on a result out of range, and so is exact whenever it gives one, the
code still returns; and no other choice of the operators changes what it returns. -/
theorem limbs_never_overflow (n u : Key32) :
    (∀ exact result, checked true exact result = none ↔ ¬ InRange exact) ∧ Exact ⟨true, true⟩ ∧
      ∃ q, ∀ t, scalarmult t n u = some q := by
  refine ⟨fun exact result => ?_, exact_of_traps, Rfc7748.x25519 n u, fun t => ?_⟩
  · simp [checked]
  · obtain ⟨o, ho, rfl⟩ := scalarmult_returns t n u
    exact ho

end Desmos.Proto.X25519Field
