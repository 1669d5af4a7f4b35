import Desmos.Library.Text

/-! # Decimal numbers of a fixed width

Numbers written with a given count of ASCII digits. Read as numbers or as byte strings, such
digits have the same order.
-/
namespace Desmos.Library

/-- The last `w` decimal digits of a number. -/
def decimal : (w n : ℕ) → Bytes
  | 0, _ => []
  | w + 1, n => decimal w (n / 10) ++ [UInt8.ofNat (0x30 + n % 10)]

def digitValue (b : UInt8) : ℕ := (b - 0x30).toNat

def decimalValue (digits : Bytes) : ℕ := digits.foldl (fun acc b => acc * 10 + digitValue b) 0

def AllDigits (digits : Bytes) : Prop := ∀ b ∈ digits, Text.isAsciiDigit b = true

@[simp] theorem length_decimal (w n : ℕ) : (decimal w n).length = w := by
  induction w generalizing n with
  | zero => rfl
  | succ w ih => simp [decimal, ih]

theorem isAsciiDigit_iff {b : UInt8} :
    Text.isAsciiDigit b = true ↔ b.toNat = 0x30 + digitValue b ∧ digitValue b < 10 := by
  have hb := b.toNat_lt
  simp only [Text.isAsciiDigit, Bool.and_eq_true, decide_eq_true_eq, UInt8.le_iff_toNat_le]
  change 0x30 ≤ b.toNat ∧ b.toNat ≤ 0x39 ↔ b.toNat = 0x30 + (2 ^ 8 - 0x30 + b.toNat) % 2 ^ 8 ∧
    (2 ^ 8 - 0x30 + b.toNat) % 2 ^ 8 < 10
  omega

theorem digitValue_ofNat {d : ℕ} (h : d < 10) : digitValue (UInt8.ofNat (0x30 + d)) = d := by
  interval_cases d <;> rfl

theorem allDigits_decimal (w n : ℕ) : AllDigits (decimal w n) := by
  induction w generalizing n with
  | zero => exact fun b hb => absurd hb List.not_mem_nil
  | succ w ih =>
    intro b hb
    rcases List.mem_append.mp hb with hb | hb
    · exact ih _ b hb
    · have hd : n % 10 < 10 := Nat.mod_lt n (by decide)
      rw [List.mem_singleton.mp hb]
      interval_cases n % 10 <;> rfl

@[simp] theorem decimalValue_concat (digits : Bytes) (b : UInt8) :
    decimalValue (digits ++ [b]) = decimalValue digits * 10 + digitValue b := by
  simp [decimalValue]

theorem decimalValue_decimal (w n : ℕ) : decimalValue (decimal w n) = n % 10 ^ w := by
  induction w generalizing n with
  | zero => simp [decimal, decimalValue, Nat.mod_one]
  | succ w ih =>
    rw [decimal, decimalValue_concat, ih, digitValue_ofNat (Nat.mod_lt n (by decide)), pow_succ',
      Nat.mod_mul]
    ring

theorem decimalValue_lt {digits : Bytes} (h : AllDigits digits) :
    decimalValue digits < 10 ^ digits.length := by
  induction digits using List.reverseRecOn with
  | nil => simp [decimalValue]
  | append_singleton digits b ih =>
    have hb := (isAsciiDigit_iff.mp (h b (by simp))).2
    have hrest := ih fun c hc => h c (List.mem_append_left _ hc)
    rw [decimalValue_concat, List.length_append, List.length_singleton, pow_succ]
    omega

/-- Digits are determined by the number they spell. -/
theorem decimal_decimalValue {digits : Bytes} (h : AllDigits digits) :
    decimal digits.length (decimalValue digits) = digits := by
  induction digits using List.reverseRecOn with
  | nil => rfl
  | append_singleton digits b ih =>
    obtain ⟨hval, hlt⟩ := isAsciiDigit_iff.mp (h b (by simp))
    have hrest := ih fun c hc => h c (List.mem_append_left _ hc)
    have hdiv : (decimalValue digits * 10 + digitValue b) / 10 = decimalValue digits := by omega
    have hmod : (decimalValue digits * 10 + digitValue b) % 10 = digitValue b := by omega
    rw [List.length_append, List.length_singleton, decimal, decimalValue_concat, hdiv, hmod, hrest,
      ← hval, UInt8.ofNat_toNat]

theorem decimalValue_cons (b : UInt8) (digits : Bytes) :
    decimalValue (b :: digits) = digitValue b * 10 ^ digits.length + decimalValue digits := by
  induction digits using List.reverseRecOn with
  | nil => simp [decimalValue]
  | append_singleton digits c ih =>
    rw [← List.cons_append, decimalValue_concat, ih, decimalValue_concat, List.length_append,
      List.length_singleton, pow_succ]
    ring

theorem decimalValue_append (front back : Bytes) : decimalValue (front ++ back) =
    decimalValue front * 10 ^ back.length + decimalValue back := by
  induction front with
  | nil => simp [decimalValue]
  | cons b front ih =>
    rw [List.cons_append, decimalValue_cons, decimalValue_cons, ih, List.length_append, pow_add]
    ring

/-- As many digits have the order of the numbers they spell. -/
theorem lt_iff_decimalValue_lt {a b : Bytes} (hlen : a.length = b.length) (ha : AllDigits a)
    (hb : AllDigits b) : a < b ↔ decimalValue a < decimalValue b := by
  induction a generalizing b with
  | nil =>
    obtain rfl : b = [] := List.length_eq_zero_iff.mp hlen.symm
    exact iff_of_false (List.not_lt_nil []) (lt_irrefl _)
  | cons x a ih =>
    cases b with
    | nil => cases hlen
    | cons y b =>
      have hlen' : a.length = b.length := Nat.succ.inj hlen
      have ha' : AllDigits a := fun c hc => ha c (List.mem_cons_of_mem _ hc)
      have hb' : AllDigits b := fun c hc => hb c (List.mem_cons_of_mem _ hc)
      obtain ⟨hx, _⟩ := isAsciiDigit_iff.mp (ha x List.mem_cons_self)
      obtain ⟨hy, _⟩ := isAsciiDigit_iff.mp (hb y List.mem_cons_self)
      have hxa := decimalValue_lt ha'
      have hyb := decimalValue_lt hb'
      rw [List.cons_lt_cons_iff, ih hlen' ha' hb', decimalValue_cons, decimalValue_cons, hlen',
        UInt8.lt_iff_toNat_lt, ← UInt8.toNat_inj]
      rw [hlen'] at hxa
      -- the first digit decides unless it is the same
      rcases lt_trichotomy (digitValue x) (digitValue y) with hlt | heq | hgt
      · have hstep : (digitValue x + 1) * 10 ^ b.length ≤ digitValue y * 10 ^ b.length :=
          Nat.mul_le_mul_right _ hlt
        rw [Nat.add_mul] at hstep
        exact iff_of_true (Or.inl (by omega)) (by omega)
      · rw [heq]
        constructor
        · rintro (h | ⟨_, h⟩)
          · omega
          · omega
        · exact fun h => Or.inr ⟨by omega, by omega⟩
      · have hstep : (digitValue y + 1) * 10 ^ b.length ≤ digitValue x * 10 ^ b.length :=
          Nat.mul_le_mul_right _ hgt
        rw [Nat.add_mul] at hstep
        refine iff_of_false ?_ (by omega)
        rintro (h | ⟨h, _⟩)
        · omega
        · omega

/-- A common last byte does not matter. -/
theorem concat_lt_concat_iff {a b : Bytes} (hlen : a.length = b.length) (c : UInt8) :
    a ++ [c] < b ++ [c] ↔ a < b := by
  induction a generalizing b with
  | nil =>
    obtain rfl : b = [] := List.length_eq_zero_iff.mp hlen.symm
    exact iff_of_false (List.lt_irrefl [c]) (List.not_lt_nil [])
  | cons x a ih =>
    cases b with
    | nil => cases hlen
    | cons y b =>
      rw [List.cons_append, List.cons_append, List.cons_lt_cons_iff, List.cons_lt_cons_iff,
        ih (Nat.succ.inj hlen)]

end Desmos.Library
