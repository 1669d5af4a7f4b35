import Desmos.Proto.Crypto.X25519.Limbs

/-! # Reading and writing field elements

`pack` writes the least residue: three passes of carries leave digits, and two conditional
subtractions of the prime bring them below it.
-/
namespace Desmos.Proto.X25519Field
open Library I64 Radix

variable {t : Traps} {f m o : Fe} {k x : Int64} {c : ℤ} {i : Fin 15} {z : ℕ}

theorem toInt_borrow {m : Int64} {z : ℤ} (hm : m.toInt = z) (h0 : -65536 ≤ z) (h1 : z < 65536) :
    (borrow m).toInt = -(z / 65536) := by
  rw [borrow, toInt_and_mask _ (k := 1) (by norm_num) rfl, toInt_shr m (by norm_num), hm]
  omega

theorem borrowLimb_returns (hk : k.toInt = c)
    (hc : |c| ≤ 65535) (hf : |limbs f i.succ| ≤ 65535) (h0 : -65536 ≤ limbs m i.castSucc)
    (h1 : limbs m i.castSucc < 65536) :
    Returns (borrowLimb t f k m i) fun m' =>
      limbs m' = Function.update (Function.update (limbs m) i.succ
        (limbs f i.succ - c + limbs m i.castSucc / 65536)) i.castSucc
          (limbs m i.castSucc % 65536) := by
  have hb : (borrow m[i.val]).toInt = -(limbs m i.castSucc / 65536) := toInt_borrow rfl h0 h1
  rw [abs_le] at hc hf
  apply Returns.bind (sub_returns (x := limbs f i.succ) rfl hk ⟨by omega, by omega⟩)
  intro d hd
  apply Returns.bind (sub_returns hd hb ⟨by omega, by omega⟩)
  intro v hv
  apply Returns.pure
  have hm : ((m.set (i.val + 1) v)[i.val] &&& 0xffff).toInt = limbs m i.castSucc % 65536 := by
    rw [toInt_and_mask _ (k := 16) (by norm_num) rfl, Vector.getElem_set_ne _ _ (by omega)]
    rfl
  rw [limbs_set, hm, limbs_set, hv, sub_neg_eq_add]
  rfl

/-- The limbs of a difference with the borrow still open at place `k`. -/
structure Borrowing (k : ℕ) (m : Fe) : Prop where
  digits : ∀ j : Fin 16, j.val < k → 0 ≤ limbs m j ∧ limbs m j < 65536
  current : ∀ j : Fin 16, j.val = k → -65536 ≤ limbs m j ∧ limbs m j < 65536
  rest : ∀ j : Fin 16, k < j.val → limbs m j = 0

theorem borrowLimb_step (hk : k.toInt = c)
    (hc : 0 ≤ c ∧ c ≤ 65535) (hf : Digits 65536 (limbs f)) (hm : Borrowing i.val m) :
    Returns (borrowLimb t f k m i) fun m' => Borrowing (i.val + 1) m' ∧
      val m' = val m + (limbs f i.succ - c) * 65536 ^ (i.val + 1) := by
  have hcur := hm.current i.castSucc rfl
  have hfi := hf i.succ
  have hz := hm.rest i.succ (by simp)
  have hne : i.castSucc ≠ i.succ := by simp [Fin.ext_iff]
  apply (borrowLimb_returns hk (abs_le.mpr ⟨by omega, by omega⟩) (abs_le.mpr ⟨by omega, by omega⟩)
    hcur.1 hcur.2).mono
  intro m' hm'
  refine ⟨⟨?_, ?_, ?_⟩, ?_⟩
  · intro j hj
    rw [hm', Function.update_apply, Function.update_apply]
    split_ifs with h1 h2
    · omega
    · subst h2
      simp at hj
    · have : j.val ≠ i.val := fun he => h1 (Fin.ext he)
      exact hm.digits j (by omega)
  · intro j hj
    have h2 : j = i.succ := Fin.ext hj
    subst h2
    rw [hm', Function.update_of_ne hne.symm, Function.update_self]
    omega
  · intro j hj
    have h1 : j ≠ i.castSucc := fun he => by simp [he] at hj
    have h2 : j ≠ i.succ := fun he => by simp [he] at hj
    rw [hm', Function.update_of_ne h1, Function.update_of_ne h2]
    exact hm.rest j (by omega)
  · rw [val, hm', value_update, value_update, Function.update_of_ne hne, hz, val, Fin.val_castSucc,
      Fin.val_succ]
    have hdm := Int.emod_add_mul_ediv (limbs m i.castSucc) 65536
    linear_combination (65536 : ℤ) ^ i.val * hdm

theorem p_limbs : (Rfc7748.p : ℤ) =
    0xffed + ∑ i : Fin 14, 0xffff * 65536 ^ (i.val + 1) + 0x7fff * 65536 ^ 15 := by
  norm_num [Rfc7748.p, Fin.sum_univ_succ]

theorem val_eq_limbs (f : Fe) : val f = limbs f 0 +
    ∑ i : Fin 14, limbs f i.castSucc.succ * 65536 ^ (i.val + 1) +
      limbs f (Fin.last 15) * 65536 ^ 15 := by
  rw [val, value, Fin.sum_univ_castSucc, Fin.sum_univ_succ, Fin.castSucc_zero, Fin.val_zero,
    pow_zero, mul_one]
  rfl

/-- The borrow chain computes the difference to the prime; its sign is the sign
of the last limb. -/
theorem subtractP_returns (hf : Digits 65536 (limbs f)) :
    Returns (subtractP t f) fun m => Borrowing 15 m ∧ val m = val f - Rfc7748.p := by
  have h0 := hf 0
  apply Returns.bind (sub_returns (x := limbs f 0) (y := 0xffed) rfl rfl ⟨by omega, by omega⟩)
  intro d hd
  have hzero : limbs zero = fun _ => 0 := by
    funext j
    simp [limbs, zero]
  have hset : limbs (zero.set 0 d) = Function.update (fun _ => 0) 0 (limbs f 0 - 0xffed) := by
    rw [limbs_set, hd, hzero]
    rfl
  have hstart : Borrowing 0 (zero.set 0 d) := by
    constructor
    · intro j hj
      omega
    · intro j hj
      rw [hset, show j = 0 from Fin.ext hj, Function.update_self]
      omega
    · intro j hj
      rw [hset, Function.update_of_ne (fun he => by simp [he] at hj)]
  have hval : val (zero.set 0 d) = limbs f 0 - 0xffed := by
    rw [val, hset, value_update]
    simp [value]
  apply Returns.bind (Returns.foldlM_sum Borrowing val
    (fun i : Fin 14 => (limbs f i.castSucc.succ - 0xffff) * 65536 ^ (i.val + 1))
    (fun i m hm => borrowLimb_step (c := 0xffff) rfl (by norm_num) hf hm) hstart)
  rintro m ⟨hB, hv⟩
  apply (borrowLimb_step (i := 14) (c := 0x7fff) rfl (by norm_num) hf hB).mono
  rintro m' ⟨hB', hv'⟩
  refine ⟨hB', ?_⟩
  rw [hv', hv, hval, val_eq_limbs f, p_limbs]
  simp only [sub_mul, Finset.sum_sub_distrib]
  change _ + (limbs f (Fin.last 15) * 65536 ^ 15 - 0x7fff * 65536 ^ 15) = _
  ring


theorem packRound_returns (hf : Digits 65536 (limbs f)) :
    Returns (packRound t f) fun f' => Digits 65536 (limbs f') ∧
      val f' = if val f < Rfc7748.p then val f else val f - Rfc7748.p := by
  rw [packRound]
  apply Returns.bind (subtractP_returns hf)
  rintro m ⟨hm, hv⟩
  have hlast := hm.current (Fin.last 15) rfl
  have hb : (borrow m[15]).toInt = -(limbs m (Fin.last 15) / 65536) :=
    toInt_borrow rfl hlast.1 hlast.2
  have hlow : Digits 65536 fun i : Fin 15 => limbs m i.castSucc :=
    fun i => hm.digits i.castSucc i.isLt
  have hl0 := hlow.value_nonneg
  have hl1 := hlow.value_lt (by norm_num)
  have hsplit := value_castSucc 65536 (limbs m)
  change val m = _ at hsplit
  apply Returns.bind (sub_returns (x := 1) rfl hb ⟨by omega, by omega⟩)
  intro s hs
  by_cases h : 0 ≤ limbs m (Fin.last 15)
  · have hflag : s = flag true := Int64.toInt_inj.mp (hs.trans (by change _ = (1 : ℤ); omega))
    have hge : ¬ val f < Rfc7748.p := by omega
    rw [hflag, constantTimeSwap_eq, if_neg hge]
    apply Returns.pure
    refine ⟨fun j => ?_, hv⟩
    cases j using Fin.lastCases with
    | last => exact ⟨h, hlast.2⟩
    | cast j => exact hlow j
  · have hflag : s = flag false := Int64.toInt_inj.mp (hs.trans (by change _ = (0 : ℤ); omega))
    have hlt : val f < Rfc7748.p := by omega
    rw [hflag, constantTimeSwap_eq, if_pos hlt]
    exact Returns.pure ⟨hf, rfl⟩

theorem carry_digits (ho : Digits 65536 (limbs o)) :
    Returns (carry t o) fun o' => Digits 65536 (limbs o') ∧ val o' = val o := by
  have hb : Bounded (2 ^ 61) o := by
    intro i
    have := ho i
    exact abs_le.mpr ⟨by omega, by omega⟩
  apply (carry_returns hb).mono
  rintro o' ⟨d, q, hd, hv, ho'⟩
  have h0 := hd.value_nonneg
  have h1 := hd.value_lt (by norm_num)
  have h2 : 0 ≤ val o := ho.value_nonneg
  have h3 : val o < 65536 ^ 16 := ho.value_lt (by norm_num)
  have hq : q = 0 := by omega
  subst hq
  rw [mul_zero, add_zero, Function.update_eq_self] at ho'
  exact ⟨ho' ▸ hd, by rw [val, ho', hv, zero_mul, add_zero]⟩

theorem carry_reduced (ho : Reduced o) :
    Returns (carry t o) fun o' => Digits 65536 (limbs o') ∧ elem o' = elem o := by
  obtain ⟨e, r, he, hr, heo⟩ := ho
  have hb : Bounded (2 ^ 61) o :=
    fun i => (Reduced.bounded ⟨e, r, he, hr, heo⟩ i).trans (by norm_num)
  have hev := val_fold heo
  have h0 := he.value_nonneg
  have h1 := he.value_lt (by norm_num)
  rw [abs_le] at hr
  apply (carry_elem (l := -1) (h := 2) hb (by omega) (by omega)).mono
  rintro o' ⟨helem, d, q, hd, hv, ho', hq0, hq1⟩
  refine ⟨fun i => ?_, helem⟩
  have hd0 := hd 0
  have hmin := hd.head_le
  have hmax := hd.le_head
  have hdi := hd i
  have hdl := hd.value_lt (by norm_num)
  have hdn := hd.value_nonneg
  rw [ho', Function.update_apply]
  split_ifs with hi
  · omega
  · exact hdi


theorem toNat_asU8 (hx : x.toInt = z) : (asU8 x).toNat = z % 256 := by
  have hc := BitVec.toInt_eq_toNat_cond x.toBitVec
  have hl := x.toBitVec.isLt
  rw [Int64.toInt_toBitVec, hx] at hc
  have hz : x.toBitVec.toNat = z := by
    split at hc <;> omega
  rw [asU8, UInt64.toNat_toUInt8, ← hz]
  rfl

theorem toInt_asI64 (b : UInt8) : (asI64 b).toInt = b.toNat := by
  have hb := b.toNat_lt
  have hn : (asI64 b).toBitVec.toNat = b.toNat := UInt8.toNat_toUInt64 b
  rw [← Int64.toInt_toBitVec, BitVec.toInt_eq_toNat_cond, hn, if_pos (by omega)]

theorem limb_bytes (hx : x.toInt = z) :
    asU8 (x &&& 0xff) = UInt8.ofNat z ∧ asU8 (shr x 8 &&& 0xff) = UInt8.ofNat (z / 256) := by
  have h0 : (x &&& 0xff).toInt = (z % 256 : ℕ) := by
    rw [toInt_and_mask _ (k := 8) (by norm_num) rfl, hx]
    rfl
  have h1 : (shr x 8 &&& 0xff).toInt = (z / 256 % 256 : ℕ) := by
    rw [toInt_and_mask _ (k := 8) (by norm_num) rfl, toInt_shr x (by norm_num), hx]
    rfl
  constructor
  · apply UInt8.toNat_inj.mp
    rw [toNat_asU8 h0, UInt8.toNat_ofNat', Nat.mod_mod]
  · apply UInt8.toNat_inj.mp
    rw [toNat_asU8 h1, UInt8.toNat_ofNat', Nat.mod_mod]

theorem bytes_eq (hf : Digits 65536 (limbs f)) (hz : val f = z) :
    Fin.foldl 16 (fun (o : Key32) i => (o.set (2 * i.val) (asU8 (f[i] &&& 0xff))).set
      (2 * i.val + 1) (asU8 (shr f[i] 8 &&& 0xff))) (Vector.replicate 32 0) =
      Vector.ofFn fun i => UInt8.ofNat (z / 256 ^ i.val) := by
  have hlimb : ∀ i : Fin 16, f[i.val].toInt = (z / 65536 ^ i.val % 65536 : ℕ) := by
    intro i
    have h := hf.value_div_mod i
    change val f / _ % _ = _ at h
    rw [hz] at h
    exact h.symm
  have hbyte : ∀ i : Fin 16, asU8 (f[i.val] &&& 0xff) = UInt8.ofNat (z / 256 ^ (2 * i.val)) ∧
      asU8 (shr f[i.val] 8 &&& 0xff) = UInt8.ofNat (z / 256 ^ (2 * i.val + 1)) := by
    intro i
    obtain ⟨h0, h1⟩ := limb_bytes (hlimb i)
    rw [h0, h1, pow_succ, ← Nat.div_div_eq_div_mul, pow_mul]
    generalize z / 65536 ^ i.val = a
    constructor
    · apply UInt8.toNat_inj.mp
      rw [UInt8.toNat_ofNat', UInt8.toNat_ofNat']
      omega
    · apply UInt8.toNat_inj.mp
      rw [UInt8.toNat_ofNat', UInt8.toNat_ofNat']
      omega
  generalize ho : Fin.foldl 16 _ _ = o
  have h : ∀ i : Fin 16, i.val < 16 → o[2 * i.val] = UInt8.ofNat (z / 256 ^ (2 * i.val)) ∧
      o[2 * i.val + 1] = UInt8.ofNat (z / 256 ^ (2 * i.val + 1)) := by
    rw [← ho]
    apply foldl_invariant fun k (o : Key32) => ∀ i : Fin 16, i.val < k →
      o[2 * i.val] = UInt8.ofNat (z / 256 ^ (2 * i.val)) ∧
      o[2 * i.val + 1] = UInt8.ofNat (z / 256 ^ (2 * i.val + 1))
    · intro j o hj i hi
      by_cases hij : i = j
      · subst hij
        obtain ⟨h0, h1⟩ := hbyte i
        simp [h0, h1]
      · have hne : i.val ≠ j.val := fun he => hij (Fin.ext he)
        rw [Vector.getElem_set_ne _ _ (by omega), Vector.getElem_set_ne _ _ (by omega),
          Vector.getElem_set_ne _ _ (by omega), Vector.getElem_set_ne _ _ (by omega)]
        exact hj i (by omega)
    · intro i hi
      omega
  apply Vector.ext
  intro k hk
  rw [Vector.getElem_ofFn]
  obtain ⟨i, rfl | rfl⟩ := Nat.even_or_odd' k
  · exact (h ⟨i, by omega⟩ (by change i < 16; omega)).1
  · exact (h ⟨i, by omega⟩ (by change i < 16; omega)).2

theorem pack_returns {n : Fe} (hn : Reduced n) :
    Returns (pack t n) fun o => o = Rfc7748.encodeUCoordinate (elem n) := by
  rw [pack]
  apply Returns.bind (carry_reduced hn)
  rintro f ⟨hf, he⟩
  apply Returns.bind (carry_digits hf)
  rintro f1 ⟨hf1, hv1⟩
  apply Returns.bind (carry_digits hf1)
  rintro f2 ⟨hf2, hv2⟩
  apply Returns.bind (packRound_returns hf2)
  rintro f3 ⟨hf3, hv3⟩
  apply Returns.bind (packRound_returns hf3)
  rintro f4 ⟨hf4, hv4⟩
  apply Returns.pure
  have hz : val f4 = (elem n).val := by
    have hlt : val f2 < 65536 ^ 16 := hf2.value_lt (by norm_num)
    have hnn : 0 ≤ val f2 := hf2.value_nonneg
    have hp : (Rfc7748.p : ℤ) = 2 ^ 255 - 19 := by norm_num [Rfc7748.p]
    have h4 : val f4 = val f % Rfc7748.p := by
      rw [← hv1, ← hv2, hv4, hv3, hp]
      split_ifs <;> omega
    rw [← he, elem, ZMod.val_intCast, h4]
  exact bytes_eq hf4 hz

theorem value_bytes (z : Key32) :
    value 256 (fun j : Fin 32 => ((getElem z j.val j.isLt).toNat : ℤ)) =
      Rfc7748.decodeLittleEndian z := by
  rw [Rfc7748.decodeLittleEndian, value]
  push_cast
  rfl

/-- The encoding of a field element reads back as its least residue. -/
theorem decode_encodeUCoordinate (x : ZMod Rfc7748.p) :
    Rfc7748.decodeLittleEndian (Rfc7748.encodeUCoordinate x) = x.val := by
  have hlt : x.val < 256 ^ 32 := (ZMod.val_lt x).trans (by norm_num [Rfc7748.p])
  have h := value_digits 256 32 x.val
  rw [Nat.mod_eq_of_lt hlt] at h
  have hb := value_bytes (Rfc7748.encodeUCoordinate x)
  simp only [Rfc7748.encodeUCoordinate, Vector.getElem_ofFn, UInt8.toNat_ofNat'] at hb
  exact_mod_cast hb.symm.trans h

theorem even_lt (i : Fin 16) : 2 * i.val < 32 := by omega

theorem odd_lt (i : Fin 16) : 2 * i.val + 1 < 32 := by omega

variable (n : Key32)

/-- The limb that two bytes make. -/
def pairLimb (i : Fin 16) : ℤ :=
  (getElem n (2 * i.val) (even_lt i)).toNat + 256 * (getElem n (2 * i.val + 1) (odd_lt i)).toNat

theorem pairLimb_digits : Digits 65536 (pairLimb n) := by
  intro i
  have h0 := n[2 * i.val].toNat_lt
  have h1 := n[2 * i.val + 1].toNat_lt
  rw [pairLimb]
  omega

theorem value_pairLimb : value 65536 (pairLimb n) = Rfc7748.decodeLittleEndian n := by
  rw [← value_bytes]
  exact (value_pairs (n := 16) 256 fun i : Fin (16 * 2) => (n[i.val].toNat : ℤ)).symm

theorem pairLimb_mask (hlast : 31 < 32) : Function.update (pairLimb n) 15 (pairLimb n 15 % 32768) =
      pairLimb (n.set 31 (n[31] &&& 127)) := by
  have hand : (n[31] &&& 127).toNat = n[31].toNat % 128 := by
    rw [UInt8.toNat_and]
    exact Nat.and_two_pow_sub_one_eq_mod n[31].toNat 7
  funext i
  rw [Function.update_apply]
  split_ifs with hi
  · subst hi
    have h0 := n[30].toNat_lt
    simp [pairLimb, hand]
    omega
  · have hne : i.val ≠ 15 := fun he => hi (Fin.ext he)
    rw [pairLimb, pairLimb, Vector.getElem_set_ne _ _ (by omega),
      Vector.getElem_set_ne _ _ (by omega)]

theorem unpackLimb_returns (i : Fin 16) :
    Returns (unpackLimb t n i) fun v => v.toInt = pairLimb n i := by
  have h0 := n[2 * i.val].toNat_lt
  have h1 := n[2 * i.val + 1].toNat_lt
  apply Returns.bind (shl_returns (by norm_num) (toInt_asI64 _) ⟨by omega, by omega⟩)
  intro s hs
  apply (add_returns (toInt_asI64 _) hs ⟨by omega, by omega⟩).mono
  intro v hv
  rw [hv, pairLimb]
  ring

theorem unpack_returns :
    Returns (unpack t n) fun o => Reduced o ∧ elem o = Rfc7748.decodeUCoordinate n := by
  rw [unpack]
  apply Returns.bind (fill_returns (unpackLimb_returns n) zero)
  intro o ho
  apply Returns.pure
  have hmask : limbs (o.set 15 (o[15] &&& 0x7fff)) = pairLimb (n.set 31 (n[31] &&& 127)) := by
    rw [limbs_set, toInt_and_mask _ (k := 15) (by norm_num) rfl, ← pairLimb_mask n Rfc7748.last_lt, ← ho]
    rfl
  refine ⟨Reduced.of_digits (by rw [hmask]; exact pairLimb_digits _), ?_⟩
  rw [elem, val, hmask, value_pairLimb, Int.cast_natCast, Rfc7748.decodeUCoordinate]

end Desmos.Proto.X25519Field
