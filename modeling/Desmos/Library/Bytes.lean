import Mathlib.Tactic

/-! # Byte strings, fixed byte arrays and big-endian integers

Slices are lists of bytes and arrays are vectors of bytes. A big-endian field has a fixed width, and
it determines the number it was written from.
-/
namespace Desmos.Library

abbrev Bytes := List UInt8

abbrev ByteArr (n : ℕ) := Vector UInt8 n

/-- Copy a slice into a zeroed array. -/
def ByteArr.ofBytes (n : ℕ) (bs : Bytes) : ByteArr n := Vector.ofFn fun i => bs.getD i.val 0

variable {n w m : ℕ} {bs x y pre : Bytes}

theorem ByteArr.toList_ofBytes (h : bs.length = n) : (ByteArr.ofBytes n bs).toList = bs := by
  subst h
  rw [ofBytes, Vector.toList_ofFn]
  apply List.ext_getElem
  · simp
  · intro i h1 h2
    simp

@[simp] theorem ByteArr.ofBytes_toList (a : ByteArr n) :
    ByteArr.ofBytes n a.toList = a := by
  apply Vector.toList_inj.mp
  rw [toList_ofBytes Vector.length_toList]

/-- Slices of one length that fit into the array are told apart by it. -/
theorem ByteArr.ofBytes_inj (hl : x.length = y.length) (hn : x.length ≤ n)
    (h : ByteArr.ofBytes n x = ByteArr.ofBytes n y) : x = y := by
  apply List.ext_getElem hl
  intro i hx hy
  have hin : i < n := hx.trans_le hn
  have hi := congrArg (fun a : ByteArr n => a[i]) h
  simpa [ofBytes, hx, hy] using hi

theorem ByteArr.append_inj {a b : ByteArr n}
    (h : a.toList ++ x = b.toList ++ y) : a = b ∧ x = y := by
  have hs := List.append_inj h (by simp)
  exact ⟨Vector.toList_inj.mp hs.1, hs.2⟩

/-- Big-endian encoding of the low `w` bytes of `n`. -/
def toBe : ℕ → ℕ → Bytes
  | 0, _ => []
  | w + 1, n => toBe w (n / 256) ++ [UInt8.ofNat n]

@[simp] theorem toBe_length (w n : ℕ) : (toBe w n).length = w := by
  induction w generalizing n with
  | zero => rfl
  | succ w ih => simp [toBe, ih]

/-- The number a big-endian byte string denotes. -/
def ofBe (bs : Bytes) : ℕ := bs.foldl (fun acc b => acc * 256 + b.toNat) 0

@[simp] theorem ofBe_concat (bs : Bytes) (b : UInt8) :
    ofBe (bs ++ [b]) = ofBe bs * 256 + b.toNat := by
  simp [ofBe]

theorem ofBe_toBe (w n : ℕ) : ofBe (toBe w n) = n % 256 ^ w := by
  induction w generalizing n with
  | zero => simp [toBe, ofBe, Nat.mod_one]
  | succ w ih =>
    have hb : (UInt8.ofNat n).toNat = n % 256 := by simp
    have hm : n % 256 ^ (w + 1) = n % 256 + 256 * (n / 256 % 256 ^ w) := by
      rw [pow_succ, Nat.mul_comm, Nat.mod_mul]
    rw [toBe, ofBe_concat, ih, hb, hm]
    ring

theorem toBe_inj (hm : m < 256 ^ w) (hn : n < 256 ^ w) (h : toBe w m = toBe w n) : m = n := by
  have hv := congrArg ofBe h
  rwa [ofBe_toBe, ofBe_toBe, Nat.mod_eq_of_lt hm, Nat.mod_eq_of_lt hn] at hv

/-- Two big-endian fields of one width at the front of equal byte strings hold
the same number, and what follows them is equal as well. -/
theorem toBe_append_inj (hm : m < 256 ^ w) (hn : n < 256 ^ w)
    (h : toBe w m ++ x = toBe w n ++ y) : m = n ∧ x = y := by
  have hs := List.append_inj h (by simp)
  exact ⟨toBe_inj hm hn hs.1, hs.2⟩

@[simp] theorem ofBe_toBe_uint16 (x : UInt16) : UInt16.ofNat (ofBe (toBe 2 x.toNat)) = x := by
  have hx : x.toNat < 256 ^ 2 := x.toNat_lt
  rw [ofBe_toBe, Nat.mod_eq_of_lt hx, UInt16.ofNat_toNat]

@[simp] theorem ofBe_toBe_uint32 (x : UInt32) : UInt32.ofNat (ofBe (toBe 4 x.toNat)) = x := by
  have hx : x.toNat < 256 ^ 4 := x.toNat_lt
  rw [ofBe_toBe, Nat.mod_eq_of_lt hx, UInt32.ofNat_toNat]

theorem ofBe_lt (bs : Bytes) : ofBe bs < 256 ^ bs.length := by
  induction bs using List.reverseRecOn with
  | nil => simp [ofBe]
  | append_singleton bs b ih =>
    have hb : b.toNat < 256 := b.toNat_lt
    rw [ofBe_concat, List.length_append, List.length_singleton, pow_succ]
    omega

/-- A byte string is the big-endian encoding of the number it denotes. -/
theorem toBe_ofBe (bs : Bytes) : toBe bs.length (ofBe bs) = bs := by
  induction bs using List.reverseRecOn with
  | nil => rfl
  | append_singleton bs b ih =>
    have hb : b.toNat < 256 := b.toNat_lt
    have hdiv : (ofBe bs * 256 + b.toNat) / 256 = ofBe bs := by omega
    have hlast : UInt8.ofNat (ofBe bs * 256 + b.toNat) = b := by
      apply UInt8.toNat_inj.mp
      rw [UInt8.toNat_ofNat']
      omega
    rw [List.length_append, List.length_singleton, toBe, ofBe_concat, hdiv, hlast, ih]

theorem toBe_ofBe_uint16 (h : bs.length = 2) : toBe 2 (UInt16.ofNat (ofBe bs)).toNat = bs := by
  have hlt : ofBe bs < 256 ^ 2 := by
    rw [← h]
    exact ofBe_lt bs
  rw [UInt16.toNat_ofNat', Nat.mod_eq_of_lt (show ofBe bs < 2 ^ 16 from hlt), ← h, toBe_ofBe]

theorem toBe_ofBe_uint32 (h : bs.length = 4) : toBe 4 (UInt32.ofNat (ofBe bs)).toNat = bs := by
  have hlt : ofBe bs < 256 ^ 4 := by
    rw [← h]
    exact ofBe_lt bs
  rw [UInt32.toNat_ofNat', Nat.mod_eq_of_lt (show ofBe bs < 2 ^ 32 from hlt), ← h, toBe_ofBe]

/-- The `w` bytes that start at offset `off`. -/
def slice (bs : Bytes) (off w : ℕ) : Bytes := (bs.drop off).take w

theorem slice_skip {off : ℕ} (h : pre.length ≤ off) (rest : Bytes) (w : ℕ) :
    slice (pre ++ rest) off w = slice rest (off - pre.length) w := by
  rw [slice, slice, List.drop_append, List.drop_of_length_le h, List.nil_append]

theorem slice_head (h : pre.length = w) (rest : Bytes) : slice (pre ++ rest) 0 w = pre := by
  rw [slice, List.drop_zero, List.take_left' h]

/-- The bits in which two byte strings differ, collected without a branch. -/
def xorDiff (a b : Bytes) : UInt8 :=
  (a.zip b).foldl (fun diff xy => diff ||| (xy.1 ^^^ xy.2)) 0

theorem foldl_xor_eq_zero_iff (pairs : List (UInt8 × UInt8)) (diff : UInt8) :
    pairs.foldl (fun diff xy => diff ||| (xy.1 ^^^ xy.2)) diff = 0 ↔
      diff = 0 ∧ ∀ xy ∈ pairs, xy.1 = xy.2 := by
  induction pairs generalizing diff with
  | nil => simp
  | cons xy pairs ih =>
    rw [List.foldl_cons, ih, UInt8.or_eq_zero_iff, UInt8.xor_eq_zero_iff, List.forall_mem_cons,
      and_assoc]

theorem xorDiff_eq_zero_iff {a b : Bytes} (hl : a.length = b.length) : xorDiff a b = 0 ↔ a = b := by
  rw [xorDiff, foldl_xor_eq_zero_iff]
  simp only [true_and]
  constructor
  · intro h
    refine List.ext_getElem hl fun i hi hj => ?_
    exact h (a[i], b[i]) (List.mem_iff_getElem.mpr ⟨i, by simp [hi, hj], by simp⟩)
  · rintro rfl xy hxy
    obtain ⟨i, hi, rfl⟩ := List.mem_iff_getElem.mp hxy
    simp

end Desmos.Library
