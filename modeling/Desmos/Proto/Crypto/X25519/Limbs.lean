import Desmos.Library.Radix
import Desmos.Proto.Crypto.X25519.Field
import Desmos.Proto.Crypto.X25519.Rfc7748

/-! # Limb arithmetic modulo the prime

What each field operation does to the number that the limbs denote, and the bounds that keep every
later operation inside 64 bits.
-/
namespace Desmos.Proto.X25519Field
open Library I64 Radix

def limbs {n : ℕ} (o : Vector Int64 n) : Fin n → ℤ := fun i => o[i.val].toInt

variable {n : ℕ} {i : Fin 16} {a b : Fe} {A B : ℤ} {w : Wide}

@[simp] theorem limbs_set (o : Vector Int64 n) (i : ℕ) (h : i < n) (v : Int64) :
    limbs (o.set i v h) = Function.update (limbs o) ⟨i, h⟩ v.toInt := by
  funext j
  by_cases hj : j = ⟨i, h⟩
  · subst hj
    simp [limbs]
  · have hne : i ≠ j.val := fun he => hj (Fin.ext he.symm)
    simp [limbs, hj, hne]

/-- Every limb is at most `M` in absolute value. -/
def Bounded {n : ℕ} (M : ℤ) (o : Vector Int64 n) : Prop := ∀ i, |limbs o i| ≤ M

variable {t : Traps}

/-- The weight with which limb `i` carries into the next one. -/
def wrapFactor (i : Fin 16) : ℤ := if i.val < 15 then 1 else 38

variable {o : Fe}

theorem carryInto_returns {c : Int64} {z : ℤ}
    (hn : |limbs o (i + 1)| ≤ 2 ^ 62) (hz : |z| ≤ 2 ^ 47) (hc : c.toInt = z + 1) :
    Returns (carryInto t o i c) fun o' =>
      limbs o' = Function.update (limbs o) (i + 1) (limbs o (i + 1) + wrapFactor i * z) := by
  have hn := abs_le.mp hn
  have hz := abs_le.mp hz
  unfold carryInto
  split
  · next h =>
    have hlt : i < Fin.last 15 := by
      exact h
    have hi : i + 1 = ⟨i.val + 1, by omega⟩ := Fin.ext (Fin.val_add_one_of_lt hlt)
    rw [hi] at hn ⊢
    apply Returns.bind (sub_returns (y := 1) hc rfl ⟨by omega, by omega⟩)
    intro d hd
    apply Returns.bind (wrappingAdd_returns (x := limbs o ⟨i.val + 1, by omega⟩) rfl hd
      ⟨by omega, by omega⟩)
    intro v hv
    apply Returns.pure
    rw [limbs_set, hv, wrapFactor, if_pos h]
    congr 1
    ring
  · next h =>
    have hi : i + 1 = 0 := by omega
    rw [hi] at hn ⊢
    apply Returns.bind (sub_returns (y := 1) hc rfl ⟨by omega, by omega⟩)
    intro d hd
    apply Returns.bind (mul_returns (x := 38) rfl hd ⟨by omega, by omega⟩)
    intro d' hd'
    apply Returns.bind (wrappingAdd_returns (x := limbs o 0) rfl hd' ⟨by omega, by omega⟩)
    intro v hv
    apply Returns.pure
    rw [limbs_set, hv, wrapFactor, if_neg h]
    congr 1
    ring

theorem carryLimb_returns (hb : Bounded (2 ^ 62) o) : Returns (carryLimb t o i) fun o' =>
      limbs o' = Function.update (Function.update (limbs o) (i + 1)
        (limbs o (i + 1) + wrapFactor i * (limbs o i / 65536))) i (limbs o i % 65536) := by
  have h0 := abs_le.mp (hb i)
  have hne : i + 1 ≠ i := by simp
  apply Returns.bind (wrappingAdd_returns (x := limbs o i) (y := 65536) rfl rfl
    ⟨by omega, by omega⟩)
  intro x hx
  have hc : (shr x 16).toInt = limbs o i / 65536 + 1 := by
    rw [toInt_shr x (by norm_num), hx]
    omega
  simp only [Fin.getElem_fin, Vector.getElem_set_self]
  apply Returns.bind (carryInto_returns _ (abs_le.mpr ⟨by omega, by omega⟩) hc)
  · intro o' ho
    apply Returns.bind (shl_returns (by norm_num) hc ⟨by omega, by omega⟩)
    intro s hs
    have hi : limbs o' i = limbs o i + 65536 := by
      simp [ho, hne.symm, hx]
    apply Returns.bind (wrappingSub_returns hi hs ⟨by omega, by omega⟩)
    intro w hw
    apply Returns.pure
    have hw' : w.toInt = limbs o i % 65536 := by omega
    rw [limbs_set, ho, limbs_set, hw', Function.update_of_ne hne, Function.update_comm hne,
      Function.update_idem, Function.update_comm hne.symm]
  · rw [limbs_set, Function.update_of_ne hne]
    exact hb (i + 1)


def val (o : Fe) : ℤ := value 65536 (limbs o)

theorem carry_lower (hb : Bounded (2 ^ 61) o) :
    Returns (Fin.foldlM 15 (fun o i => carryLimb t o i.castSucc) o) fun o' =>
      Bounded (2 ^ 62) o' ∧ (∀ j : Fin 16, j.val < 15 → 0 ≤ limbs o' j ∧ limbs o' j < 65536) ∧
        val o' = val o := by
  apply (Returns.foldlM (fun k o' => Bounded (2 ^ 61 + k * 2 ^ 48) o' ∧
    (∀ j : Fin 16, j.val < k → 0 ≤ limbs o' j ∧ limbs o' j < 65536) ∧ val o' = val o) _ _).mono
  · rintro o' ⟨hB, hd, hv⟩
    exact ⟨fun j => (hB j).trans (by norm_num), hd, hv⟩
  · rintro i s ⟨hB, hd, hv⟩
    have hM : (i.val : ℤ) < 15 := by exact_mod_cast i.isLt
    apply (carryLimb_returns fun j => (hB j).trans (by push_cast; omega)).mono
    intro o' ho
    have h1 : i.castSucc + 1 = i.succ := by simp
    have hw : wrapFactor i.castSucc = 1 := by simp [wrapFactor]
    rw [h1, hw, one_mul] at ho
    have hne : i.castSucc ≠ i.succ := by simp [Fin.ext_iff]
    refine ⟨?_, ?_, ?_⟩
    · intro j
      have hc := abs_le.mp (hB i.castSucc)
      have hj := abs_le.mp (hB j)
      rw [ho, abs_le, Function.update_apply, Function.update_apply]
      split_ifs <;> subst_vars <;> constructor <;> omega
    · intro j hj
      rw [ho, Function.update_apply, Function.update_apply]
      split_ifs with h2 h3
      · omega
      · subst h3
        simp at hj
      · apply hd
        have : j.val ≠ i.val := fun he => h2 (Fin.ext he)
        omega
    · rw [val, ho, value_update, value_update, Function.update_of_ne hne, ← hv, val]
      simp only [Fin.val_castSucc, Fin.val_succ, pow_succ]
      have hdm := Int.emod_add_mul_ediv (limbs s i.castSucc) 65536
      linear_combination (65536 : ℤ) ^ i.val * hdm
  · exact ⟨by simpa using hb, fun j hj => absurd hj (by omega), rfl⟩

/-- A pass of carries keeps the digits of the number and folds what lies above
`2 ^ 256` back with a factor of 38. -/
theorem carry_returns (hb : Bounded (2 ^ 61) o) :
    Returns (carry t o) fun o' => ∃ d q, Digits 65536 d ∧ val o = value 65536 d + q * 2 ^ 256 ∧
      limbs o' = Function.update d 0 (d 0 + 38 * q) := by
  rw [carry, Fin.foldlM_succ_last]
  apply Returns.bind (carry_lower hb)
  rintro s ⟨hB, hd, hv⟩
  apply (carryLimb_returns hB).mono
  intro o' ho
  have h1 : Fin.last 15 + 1 = 0 := by decide
  have hw : wrapFactor (Fin.last 15) = 38 := by decide
  have h0 : (0 : Fin 16) ≠ Fin.last 15 := by decide
  rw [h1, hw, Function.update_comm h0] at ho
  refine ⟨Function.update (limbs s) (Fin.last 15) (limbs s (Fin.last 15) % 65536),
    limbs s (Fin.last 15) / 65536, ?_, ?_, ?_⟩
  · intro j
    rw [Function.update_apply]
    split_ifs with hj
    · omega
    · apply hd
      have : j.val ≠ 15 := fun he => hj (Fin.ext he)
      omega
  · rw [value_update, ← hv, val, Fin.val_last]
    have hdm := Int.emod_add_mul_ediv (limbs s (Fin.last 15)) 65536
    linear_combination (-65536 : ℤ) ^ 15 * hdm
  · rw [ho, Function.update_of_ne h0]

/-- A loop that fills limb after limb with the results of `f`. -/
theorem fill_returns {f : Fin n → Option Int64} {z : Fin n → ℤ}
    (hf : ∀ i, Returns (f i) fun v => v.toInt = z i) (o : Vector Int64 n) :
    Returns (Fin.foldlM n (fun (o : Vector Int64 n) i => do pure (o.set i (← f i))) o) fun o' =>
      limbs o' = z := by
  apply (Returns.foldlM (fun k o' => ∀ j : Fin n, j.val < k → limbs o' j = z j) _ _).mono
  · intro o' h
    exact funext fun j => h j j.isLt
  · intro i s hs
    apply Returns.bind (hf i)
    intro v hv
    apply Returns.pure
    intro j hj
    rw [limbs_set, Function.update_apply]
    split_ifs with h
    · rw [hv, h]
    · have : j.val ≠ i.val := fun he => h (Fin.ext he)
      exact hs j (by omega)
  · intro j hj
    omega

theorem fadd_returns (ha : Bounded A a) (hb : Bounded B b) (hAB : A + B ≤ 2 ^ 62) :
    Returns (fadd t a b) fun o => Bounded (A + B) o ∧ val o = val a + val b := by
  have hf : ∀ i : Fin 16, Returns (add t a[i] b[i]) fun v => v.toInt = limbs a i + limbs b i := by
    intro i
    have h1 := abs_le.mp (ha i)
    have h2 := abs_le.mp (hb i)
    exact add_returns rfl rfl ⟨by omega, by omega⟩
  apply (fill_returns hf zero).mono
  intro o ho
  refine ⟨fun i => ?_, ?_⟩
  · rw [ho]
    exact (abs_add_le _ _).trans (add_le_add (ha i) (hb i))
  · rw [val, ho, value_add]
    rfl

theorem fsub_returns (ha : Bounded A a) (hb : Bounded B b) (hAB : A + B ≤ 2 ^ 62) :
    Returns (fsub t a b) fun o => Bounded (A + B) o ∧ val o = val a - val b := by
  have hf : ∀ i : Fin 16, Returns (sub t a[i] b[i]) fun v => v.toInt = limbs a i - limbs b i := by
    intro i
    have h1 := abs_le.mp (ha i)
    have h2 := abs_le.mp (hb i)
    exact sub_returns rfl rfl ⟨by omega, by omega⟩
  apply (fill_returns hf zero).mono
  intro o ho
  refine ⟨fun i => ?_, ?_⟩
  · rw [ho]
    exact (abs_sub _ _).trans (add_le_add (ha i) (hb i))
  · rw [val, ho, value_sub]
    rfl

theorem mulRow_returns (ha : Bounded (2 ^ 18) a)
    (hb : Bounded (2 ^ 18) b) (hw : Bounded (i.val * 2 ^ 40) w) :
    Returns (mulRow t a b w i) fun w' => Bounded ((i.val + 1) * 2 ^ 40) w' ∧
      value 65536 (limbs w') = value 65536 (limbs w) + limbs a i * 65536 ^ i.val * val b := by
  apply (Returns.foldlM_sum (fun k w' => Bounded (i.val * 2 ^ 40 + k * 2 ^ 36) w')
    (fun w' => value 65536 (limbs w'))
    (fun j => limbs a i * limbs b j * 65536 ^ (i.val + j.val)) _ _).mono
  · rintro w' ⟨hB, hv⟩
    have hsum : ∑ j : Fin 16, limbs a i * limbs b j * 65536 ^ (i.val + j.val) =
        limbs a i * 65536 ^ i.val * val b := by
      rw [val, value, Finset.mul_sum]
      apply Finset.sum_congr rfl
      intro j _
      ring
    exact ⟨fun j => (hB j).trans (by push_cast; linarith), by rw [hv, hsum]⟩
  · intro j s hs
    have hi : (i.val : ℤ) < 16 := by exact_mod_cast i.isLt
    have hj : (j.val : ℤ) < 16 := by exact_mod_cast j.isLt
    have hk := abs_le.mp (hs ⟨i.val + j.val, by omega⟩)
    have hp : |limbs a i * limbs b j| ≤ 2 ^ 36 := by
      rw [abs_mul]
      calc |limbs a i| * |limbs b j| ≤ 2 ^ 18 * 2 ^ 18 :=
            mul_le_mul (ha i) (hb j) (abs_nonneg _) (by norm_num)
        _ = 2 ^ 36 := by norm_num
    have hp' := abs_le.mp hp
    apply Returns.bind (mul_returns (x := limbs a i) (y := limbs b j) rfl rfl
      ⟨by omega, by omega⟩)
    intro m hm
    apply Returns.bind (add_returns (x := limbs s ⟨i.val + j.val, by omega⟩) rfl hm
      ⟨by omega, by omega⟩)
    intro v hv
    apply Returns.pure
    refine ⟨fun l => ?_, ?_⟩
    · rw [limbs_set, Function.update_apply, hv]
      have hl := abs_le.mp (hs l)
      split_ifs with h
      · exact abs_le.mpr ⟨by omega, by omega⟩
      · exact abs_le.mpr ⟨by omega, by omega⟩
    · rw [limbs_set, value_update, hv]
      ring
  · simpa using hw

theorem product_returns (ha : Bounded (2 ^ 18) a) (hb : Bounded (2 ^ 18) b) :
    Returns (Fin.foldlM 16 (mulRow t a b) (Vector.replicate 31 0)) fun w =>
      Bounded (2 ^ 44) w ∧ value 65536 (limbs w) = val a * val b := by
  have hzero : limbs (Vector.replicate 31 (0 : Int64)) = fun _ => 0 := by
    funext i
    simp [limbs]
  apply (Returns.foldlM_sum (fun k w => Bounded (k * 2 ^ 40) w)
    (fun w => value 65536 (limbs w)) (fun i => limbs a i * 65536 ^ i.val * val b) _ _).mono
  · rintro w ⟨hB, hv⟩
    refine ⟨fun j => (hB j).trans (by norm_num), ?_⟩
    rw [hv, hzero, ← Finset.sum_mul]
    simp [value, val]
  · intro i w hw
    simpa using mulRow_returns ha hb hw
  · intro j
    simp [hzero]

/-- The lower sixteen and the upper fifteen limbs of a product. -/
def low (w : Wide) : Fin 16 → ℤ := fun i => limbs w (i.castAdd 15)
def high (w : Wide) : Fin 15 → ℤ := fun i => limbs w (i.natAdd 16)

theorem value_wide (w : Wide) :
    value 65536 (limbs w) = value 65536 (low w) + 2 ^ 256 * value 65536 (high w) := by
  have h := value_split (m := 16) (n := 15) 65536 (limbs w)
  exact h

theorem low_set (w : Wide) (i : Fin 15) (hi : i.val < 31) (v : Int64) :
    low (w.set i.val v) = Function.update (low w) i.castSucc v.toInt := by
  funext j
  simp [low, Function.update_apply, Fin.ext_iff]

theorem high_set (w : Wide) (i : Fin 15) (hi : i.val < 31) (v : Int64) :
    high (w.set i.val v) = high w := by
  funext j
  rw [high, limbs_set, Function.update_of_ne]
  · rfl
  · intro he
    have := Fin.ext_iff.mp he
    simp at this
    omega

theorem foldLimb_returns (hw : Bounded (2 ^ 44) w) :
    Returns (Fin.foldlM 15 (foldLimb t) w) fun w' => Bounded (2 ^ 54) w' ∧
      value 65536 (low w') = value 65536 (low w) + 38 * value 65536 (high w) := by
  apply (Returns.foldlM_sum (fun k w' => high w' = high w ∧ Bounded (2 ^ 44 + k * 2 ^ 50) w')
    (fun w' => value 65536 (low w')) (fun i => 38 * (high w i * 65536 ^ i.val)) _ _).mono
  · rintro w' ⟨⟨-, hB⟩, hv⟩
    refine ⟨fun j => (hB j).trans (by norm_num), ?_⟩
    rw [hv, ← Finset.mul_sum]
    rfl
  · rintro i s ⟨hh, hB⟩
    have hi : (i.val : ℤ) < 15 := by exact_mod_cast i.isLt
    have h0 : |low s i.castSucc| ≤ 2 ^ 44 + i.val * 2 ^ 50 := hB _
    have h1 : |high s i| ≤ 2 ^ 44 := by
      rw [hh]
      exact hw _
    rw [abs_le] at h0 h1
    have hhi : s[i.val + 16].toInt = high s i := by simp [high, limbs, Nat.add_comm]
    apply Returns.bind (mul_returns (x := 38) rfl hhi ⟨by omega, by omega⟩)
    intro m hm
    apply Returns.bind (add_returns (x := low s i.castSucc) rfl hm ⟨by omega, by omega⟩)
    intro v hv
    apply Returns.pure
    refine ⟨⟨by rw [high_set, hh], fun j => ?_⟩, ?_⟩
    · have hj := abs_le.mp (hB j)
      rw [limbs_set, Function.update_apply, hv]
      split_ifs with h
      · exact abs_le.mpr ⟨by omega, by omega⟩
      · exact abs_le.mpr ⟨by omega, by omega⟩
    · rw [low_set, value_update, hv, hh, Fin.val_castSucc]
      ring
  · exact ⟨rfl, by simpa using hw⟩

/-- Digits, up to one fold of 38 that is still pending in the lowest limb. This is
what every product returns. -/
def Reduced (o : Fe) : Prop :=
  ∃ d q, Digits 65536 d ∧ |q| ≤ 1 ∧ limbs o = Function.update d 0 (d 0 + 38 * q)

theorem Reduced.of_digits (h : Digits 65536 (limbs o)) : Reduced o :=
  ⟨limbs o, 0, h, by simp, by simp⟩

theorem Reduced.bounded (h : Reduced o) : Bounded (2 ^ 17 - 2 ^ 15) o := by
  obtain ⟨d, q, hd, hq, ho⟩ := h
  intro i
  have h0 := hd 0
  have hi := hd i
  rw [abs_le] at hq
  rw [ho, Function.update_apply, abs_le]
  split_ifs <;> constructor <;> omega

/-- The field element that the limbs stand for. -/
def elem (o : Fe) : ZMod Rfc7748.p := val o

theorem cast_two_pow_256 : ((2 ^ 256 : ℤ) : ZMod Rfc7748.p) = 38 := by
  have h : ((2 ^ 256 : ℤ) : ZMod Rfc7748.p) = ((38 : ℤ) : ZMod Rfc7748.p) := by
    rw [ZMod.intCast_eq_intCast_iff]
    norm_num [Int.ModEq, Rfc7748.p]
  simpa only [Int.cast_ofNat] using h

theorem val_fold {d : Fin 16 → ℤ} {q : ℤ}
    (ho : limbs o = Function.update d 0 (d 0 + 38 * q)) : val o = value 65536 d + 38 * q := by
  rw [val, ho, value_update]
  simp

/-- One pass of carries keeps the element. How often 38 is folded back is bounded
by the size of the number. -/
theorem carry_elem {l h : ℤ} (hb : Bounded (2 ^ 61) o) (hl : l * 2 ^ 256 ≤ val o)
    (hh : val o < h * 2 ^ 256) :
    Returns (carry t o) fun o' => elem o' = elem o ∧ ∃ d q, Digits 65536 d ∧
      val o = value 65536 d + q * 2 ^ 256 ∧ limbs o' = Function.update d 0 (d 0 + 38 * q) ∧
      l ≤ q ∧ q < h := by
  apply (carry_returns hb).mono
  rintro o' ⟨d, q, hd, hv, ho⟩
  have h0 := hd.value_nonneg
  have h1 := hd.value_lt (by norm_num)
  refine ⟨?_, d, q, hd, hv, ho, by omega, by omega⟩
  rw [elem, elem, hv, val_fold ho, Int.cast_add, Int.cast_add, Int.cast_mul, Int.cast_mul,
    cast_two_pow_256, Int.cast_ofNat]
  ring

theorem carry_reduces (hb : Bounded (2 ^ 61) o) (hl : -2 ^ 256 ≤ val o)
    (hh : val o < 2 * 2 ^ 256) :
    Returns (carry t o) fun o' => elem o' = elem o ∧ Reduced o' := by
  apply (carry_elem (l := -1) (h := 2) hb (by omega) hh).mono
  rintro o' ⟨he, d, q, hd, -, ho, hq0, hq1⟩
  exact ⟨he, d, q, hd, abs_le.mpr ⟨hq0, by omega⟩, ho⟩

theorem fmul_returns (ha : Bounded (2 ^ 18) a) (hb : Bounded (2 ^ 18) b) :
    Returns (fmul t a b) fun o => elem o = elem a * elem b ∧ Reduced o := by
  apply Returns.bind (product_returns ha hb)
  rintro w ⟨hB, hv⟩
  apply Returns.bind (foldLimb_returns hB)
  rintro w' ⟨hB', hv'⟩
  have hlimbs : limbs (Vector.ofFn fun i : Fin 16 => w'[i.val]) = low w' := by
    funext i
    simp [limbs, low]
  have hval : val (Vector.ofFn fun i : Fin 16 => w'[i.val]) = value 65536 (low w') := by
    rw [val, hlimbs]
  have hbound : Bounded (2 ^ 54) (Vector.ofFn fun i : Fin 16 => w'[i.val]) := by
    intro i
    rw [hlimbs]
    exact hB' _
  have habs := abs_value_le (B := 65536) (by norm_num) (by norm_num) hbound
  have hmul : elem (Vector.ofFn fun i : Fin 16 => w'[i.val]) = elem a * elem b := by
    rw [elem, hval, hv', elem, elem, ← Int.cast_mul, ← hv, value_wide, Int.cast_add, Int.cast_add,
      Int.cast_mul, Int.cast_mul, cast_two_pow_256, Int.cast_ofNat]
  rw [abs_le] at habs
  change _ ≤ val _ ∧ val _ ≤ _ at habs
  apply Returns.bind (carry_elem (l := -2 ^ 54) (h := 2 ^ 54 + 1)
    (fun i => (hbound i).trans (by norm_num)) (by omega) (by omega))
  rintro o ⟨he, d, q, hd, -, ho, hq0, hq1⟩
  have h0 := hd.value_nonneg
  have h1 := hd.value_lt (by norm_num)
  have hvo := val_fold ho
  have hbo : Bounded (2 ^ 61) o := by
    intro i
    have hd0 := hd 0
    have hdi := hd i
    rw [ho, Function.update_apply, abs_le]
    split_ifs <;> constructor <;> omega
  apply (carry_reduces hbo (by omega) (by omega)).mono
  rintro o' ⟨he', hr⟩
  exact ⟨by rw [he', he, hmul], hr⟩

/-- A loop that rewrites two arrays place by place. -/
theorem foldl_zipWith {α : Type*} (f g : α → α → α) (p q : Vector α n) :
    Fin.foldl n (fun (s : Vector α n × Vector α n) i =>
      (s.1.set i (f s.1[i] s.2[i]), s.2.set i (g s.1[i] s.2[i]))) (p, q) =
      (Vector.zipWith f p q, Vector.zipWith g p q) := by
  generalize hs : Fin.foldl n _ (p, q) = s
  have h : ∀ j : Fin n, s.1[j] = (if j.val < n then f p[j] q[j] else p[j]) ∧
      s.2[j] = (if j.val < n then g p[j] q[j] else q[j]) := by
    rw [← hs]
    apply foldl_invariant fun k (s : Vector α n × Vector α n) => ∀ j : Fin n,
      s.1[j] = (if j.val < k then f p[j] q[j] else p[j]) ∧
      s.2[j] = (if j.val < k then g p[j] q[j] else q[j])
    · intro i s hs j
      have hi := hs i
      have hj := hs j
      by_cases hij : i = j
      · subst hij
        simp [hi.1, hi.2]
      · have hne : i.val ≠ j.val := fun he => hij (Fin.ext he)
        have hlt : j.val < i.val + 1 ↔ j.val < i.val := by omega
        simpa [Vector.getElem_set_ne _ _ hne, hlt] using hj
    · intro j
      simp
  simp only [Fin.is_lt, if_true] at h
  apply Prod.ext
  · ext j hj
    simpa using (h ⟨j, hj⟩).1
  · ext j hj
    simpa using (h ⟨j, hj⟩).2

/-- The flag of a conditional swap as a machine integer. -/
def flag (b : Bool) : Int64 := if b then 1 else 0

theorem xor_swap (x y : Int64) : x ^^^ (x ^^^ y) = y ∧ y ^^^ (x ^^^ y) = x := by
  rw [← Int64.xor_assoc, Int64.xor_self, Int64.zero_xor, Int64.xor_comm x y, ← Int64.xor_assoc,
    Int64.xor_self, Int64.zero_xor]
  exact ⟨rfl, rfl⟩

theorem constantTimeSwap_eq (p q : Fe) (b : Bool) :
    constantTimeSwap t p q (flag b) = some (if b then (q, p) else (p, q)) := by
  have hmask : wrappingSub t (flag b) 1 = some (flag b - 1) := by
    rw [wrappingSub, checked, if_neg]
    rintro ⟨-, h⟩
    cases b <;> exact h (by decide)
  have hloop := foldl_zipWith (fun x y => x ^^^ (~~~(flag b - 1) &&& (x ^^^ y)))
    (fun x y => y ^^^ (~~~(flag b - 1) &&& (x ^^^ y))) p q
  rw [constantTimeSwap, hmask]
  apply congrArg some
  apply hloop.trans
  cases b with
  | false =>
    have h0 : ~~~(flag false - 1) = 0 := by decide
    apply Prod.ext <;> ext j hj <;> simp [h0]
  | true =>
    have h1 : ~~~(flag true - 1) = -1 := by decide
    apply Prod.ext
    · ext j hj
      simp [h1, (xor_swap _ _).1]
    · ext j hj
      simp [h1, (xor_swap _ _).2]

end Desmos.Proto.X25519Field
