import Desmos.Library.Text

/-! # Searching, cutting and reading text

Positions in a string count bytes. A cut that does not fall between two characters is no
cut; the first occurrence of a separator is found by its characters, which is where its
bytes are found as well.
-/
namespace Desmos.Library.Text

/-- `str::len`. -/
def utf8Len (s : Text) : ℕ := (asBytes s).length

/-- A string cut at a byte position, if that is the start of a character or the end. -/
def splitAtByte : ℕ → Text → Option (Text × Text)
  | 0, s => some ([], s)
  | _ + 1, [] => none
  | n + 1, c :: s =>
    if c.utf8Size ≤ n + 1 then
      (splitAtByte (n + 1 - c.utf8Size) s).map fun cut => (c :: cut.1, cut.2)
    else none

/-- `str::split_once` for a string: what stands before and behind its first occurrence. -/
def splitOnceStr (sep : Text) : Text → Option (Text × Text)
  | [] => if sep.isEmpty then some ([], []) else none
  | c :: s =>
    if sep.isPrefixOf (c :: s) then some ([], (c :: s).drop sep.length)
    else (splitOnceStr sep s).map fun cut => (c :: cut.1, cut.2)

/-- The pieces between at most `fuel` separators. -/
def splitWithin (sep : Text) : (fuel : ℕ) → Text → List Text
  | 0, s => [s]
  | fuel + 1, s =>
    match splitOnceStr sep s with
    | none => [s]
    | some (piece, rest) => piece :: splitWithin sep fuel rest

/-- `str::split` for a string that is not empty. -/
def splitStr (sep s : Text) : List Text := splitWithin sep s.length s

/-- `str::contains`. -/
def contains (sub s : Text) : Bool := (splitOnceStr sub s).isSome

/-- `str::to_ascii_lowercase`. -/
def toAsciiLowercase (s : Text) : Text := s.map Char.toLower

/-- `str::eq_ignore_ascii_case`. -/
def eqIgnoreAsciiCase (s t : Text) : Bool := toAsciiLowercase s = toAsciiLowercase t

/-- The value of an ASCII letter or digit as a digit. -/
def digitValue (c : Char) : Option ℕ :=
  if c.isDigit then some (c.toNat - 48)
  else if c.isLower then some (c.toNat - 97 + 10)
  else if c.isUpper then some (c.toNat - 65 + 10)
  else none

def readDigits (radix : ℕ) : (n : ℕ) → Text → Option ℕ
  | n, [] => some n
  | n, c :: s =>
    match digitValue c with
    | some d => if d < radix then readDigits radix (n * radix + d) s else none
    | none => none

/-- `usize::from_str_radix`: digits, with or without a plus sign in front. -/
def parseUsize (radix : ℕ) (s : Text) : Option ℕ :=
  let digits := match s with
    | '+' :: digits => digits
    | _ => s
  if digits.isEmpty then none
  else
    match readDigits radix 0 digits with
    | some n => if n < 2 ^ 64 then some n else none
    | none => none

/-- `str::parse::<i64>`: digits, with or without a sign in front. -/
def parseI64 (s : Text) : Option Int64 :=
  let (negative, digits) := match s with
    | '-' :: digits => (true, digits)
    | '+' :: digits => (false, digits)
    | _ => (false, s)
  if digits.isEmpty then none
  else
    match readDigits 10 0 digits with
    | some n =>
      let z : ℤ := if negative then -n else n
      if -2 ^ 63 ≤ z ∧ z < 2 ^ 63 then some (Int64.ofInt z) else none
    | none => none

@[simp] theorem utf8Len_nil : utf8Len [] = 0 := rfl

theorem utf8Len_cons (c : Char) (s : Text) : utf8Len (c :: s) = c.utf8Size + utf8Len s := by
  simp [utf8Len, asBytes, String.length_utf8EncodeChar]

@[simp] theorem utf8Len_append (s t : Text) : utf8Len (s ++ t) = utf8Len s + utf8Len t := by
  simp [utf8Len]

variable {s : Text} {n : ℕ} {front back : Text}

/-- ASCII is what takes one byte for each character. -/
theorem utf8Len_eq_length_iff :
    s.length ≤ utf8Len s ∧ (utf8Len s = s.length ↔ ∀ c ∈ s, c.toNat < 128) := by
  induction s with
  | nil => simp
  | cons c s ih =>
    obtain ⟨hle, hiff⟩ := ih
    have hpos := c.utf8Size_pos
    have hone : c.utf8Size = 1 ↔ c.toNat < 128 := by
      rw [Char.utf8Size_eq_one_iff, UInt32.le_iff_toNat_le]
      exact Nat.lt_succ_iff.symm
    rw [utf8Len_cons, List.length_cons, List.forall_mem_cons, ← hone, ← hiff]
    omega

/-- A cut gives back the string, and its first part has as many bytes as were asked for. -/
theorem splitAtByte_eq_some_iff :
    splitAtByte n s = some (front, back) ↔ s = front ++ back ∧ utf8Len front = n := by
  induction s generalizing n front back with
  | nil =>
    cases n with
    | zero =>
      simp only [splitAtByte, Option.some.injEq, Prod.mk.injEq]
      constructor
      · rintro ⟨rfl, rfl⟩
        exact ⟨rfl, rfl⟩
      · intro h
        obtain ⟨rfl, rfl⟩ := List.append_eq_nil_iff.mp h.1.symm
        exact ⟨rfl, rfl⟩
    | succ n =>
      simp only [splitAtByte, reduceCtorEq, false_iff]
      rintro ⟨h, hlen⟩
      obtain ⟨rfl, rfl⟩ := List.append_eq_nil_iff.mp h.symm
      cases hlen
  | cons c s ih =>
    cases n with
    | zero =>
      simp only [splitAtByte, Option.some.injEq, Prod.mk.injEq]
      constructor
      · rintro ⟨rfl, rfl⟩
        exact ⟨rfl, rfl⟩
      · rintro ⟨h, hlen⟩
        cases front with
        | nil => exact ⟨rfl, h⟩
        | cons d front =>
          have := d.utf8Size_pos
          rw [utf8Len_cons] at hlen
          omega
    | succ n =>
      rw [splitAtByte]
      split
      · next hle =>
        rw [Option.map_eq_some_iff]
        constructor
        · rintro ⟨⟨front', back'⟩, hcut, hpair⟩
          obtain ⟨rfl, hlen⟩ := ih.mp hcut
          simp only [Prod.mk.injEq] at hpair
          obtain ⟨rfl, rfl⟩ := hpair
          refine ⟨rfl, ?_⟩
          rw [utf8Len_cons]
          omega
        · rintro ⟨h, hlen⟩
          cases front with
          | nil => cases hlen
          | cons d front =>
            obtain ⟨rfl, rfl⟩ := h
            rw [utf8Len_cons] at hlen
            exact ⟨(front, back), ih.mpr ⟨rfl, by omega⟩, rfl⟩
      · next hlt =>
        simp only [reduceCtorEq, false_iff]
        rintro ⟨h, hlen⟩
        cases front with
        | nil => cases hlen
        | cons d front =>
          obtain ⟨rfl, rfl⟩ := h
          rw [utf8Len_cons] at hlen
          omega

/-- `str::is_char_boundary`. -/
def IsCharBoundary (n : ℕ) (s : Text) : Prop := ∃ front back, s = front ++ back ∧ utf8Len front = n

/-- Two cuts of one text behind the same number of bytes are equal. -/
theorem append_inj_of_utf8Len {a b a' b' : Text} (h : a ++ b = a' ++ b')
    (hlen : utf8Len a = utf8Len a') : a = a' ∧ b = b' := by
  have hcut : splitAtByte (utf8Len a') (a ++ b) = some (a, b) :=
    splitAtByte_eq_some_iff.mpr ⟨rfl, hlen⟩
  rw [splitAtByte_eq_some_iff.mpr ⟨h, rfl⟩] at hcut
  cases hcut
  exact ⟨rfl, rfl⟩

theorem splitAtByte_isSome_iff : (splitAtByte n s).isSome ↔ IsCharBoundary n s := by
  rw [Option.isSome_iff_exists]
  constructor
  · rintro ⟨⟨front, back⟩, h⟩
    exact ⟨front, back, splitAtByte_eq_some_iff.mp h⟩
  · rintro ⟨front, back, h⟩
    exact ⟨(front, back), splitAtByte_eq_some_iff.mpr h⟩

theorem splitOnceStr_eq_some {sep : Text} (h : splitOnceStr sep s = some (front, back)) :
    s = front ++ sep ++ back := by
  induction s generalizing front with
  | nil =>
    rw [splitOnceStr] at h
    split at h
    · next hsep =>
      cases h
      simpa using hsep
    · cases h
  | cons c s ih =>
    rw [splitOnceStr] at h
    split at h
    · next hprefix =>
      obtain ⟨rfl, rfl⟩ := h
      rw [List.nil_append, List.prefix_iff_eq_append.mp (List.isPrefixOf_iff_prefix.mp hprefix)]
    · rw [Option.map_eq_some_iff] at h
      obtain ⟨⟨front', back'⟩, hcut, hpair⟩ := h
      obtain ⟨rfl, rfl⟩ := hpair
      rw [ih hcut, List.cons_append, List.cons_append]

section First
variable {sep piece rest s front back : Text} {c : Char}

theorem splitOnceStr_self (hsep : sep ≠ []) (back : Text) :
    splitOnceStr sep (sep ++ back) = some ([], back) := by
  cases sep with
  | nil => exact absurd rfl hsep
  | cons c sep =>
    have hprefix : (c :: sep).isPrefixOf (c :: (sep ++ back)) = true :=
      List.isPrefixOf_iff_prefix.mpr (List.prefix_append (c :: sep) back)
    rw [List.cons_append, splitOnceStr, if_pos hprefix]
    simp

/-- A character that cannot start the separator is passed. -/
theorem splitOnceStr_cons (hc : sep.head? ≠ some c) (hsep : sep ≠ []) (s : Text) :
    splitOnceStr sep (c :: s) = (splitOnceStr sep s).map fun cut => (c :: cut.1, cut.2) := by
  cases sep with
  | nil => exact absurd rfl hsep
  | cons d sep =>
    have hne : d ≠ c := by simpa using hc
    rw [splitOnceStr, if_neg (by simp [List.isPrefixOf, hne])]

/-- So is a piece of such characters. -/
theorem splitOnceStr_skip (hpiece : ∀ c ∈ piece, sep.head? ≠ some c) (hsep : sep ≠ []) (rest : Text) :
    splitOnceStr sep (piece ++ rest) =
      (splitOnceStr sep rest).map fun cut => (piece ++ cut.1, cut.2) := by
  induction piece with
  | nil => simp
  | cons c piece ih =>
    rw [List.forall_mem_cons] at hpiece
    rw [List.cons_append, splitOnceStr_cons hpiece.1 hsep, ih hpiece.2, Option.map_map]
    rfl

theorem splitOnceStr_of_not_mem (hfront : ∀ c ∈ front, sep.head? ≠ some c) (hsep : sep ≠ [])
    (back : Text) : splitOnceStr sep (front ++ (sep ++ back)) = some (front, back) := by
  rw [splitOnceStr_skip hfront hsep, splitOnceStr_self hsep]
  simp

/-- More text behind does not move the first occurrence. -/
theorem splitOnceStr_append (h : splitOnceStr sep s = some (front, back)) (hsep : sep ≠ [])
    (more : Text) : splitOnceStr sep (s ++ more) = some (front, back ++ more) := by
  induction s generalizing front with
  | nil =>
    rw [splitOnceStr, if_neg (by simpa using hsep)] at h
    cases h
  | cons c s ih =>
    rw [splitOnceStr] at h
    split at h
    · next hprefix =>
      obtain ⟨rfl, rfl⟩ := h
      obtain ⟨tail, htail⟩ := List.isPrefixOf_iff_prefix.mp hprefix
      rw [← htail, List.append_assoc, splitOnceStr_self hsep, List.drop_left]
    · next hprefix =>
      rw [Option.map_eq_some_iff] at h
      obtain ⟨⟨front', back'⟩, hcut, hpair⟩ := h
      obtain ⟨rfl, rfl⟩ := hpair
      have hlong : ¬ sep.isPrefixOf (c :: (s ++ more)) = true := by
        intro hmore
        -- the separator ends where it is found in `s`, so it is in front of `c :: s` as well
        have hlen : sep.length ≤ (c :: s).length := by
          rw [splitOnceStr_eq_some hcut]
          simp only [List.length_cons, List.length_append]
          omega
        exact hprefix (List.isPrefixOf_iff_prefix.mpr (List.prefix_of_prefix_length_le
          (List.isPrefixOf_iff_prefix.mp hmore) (List.prefix_append (c :: s) more) hlen))
      rw [List.cons_append, splitOnceStr, if_neg hlong, ih hcut]
      rfl

/-- A line without the text is passed, up to an end of line that is not in the text. -/
theorem splitOnceStr_line (hline : contains sep piece = false) (hsep : sep ≠ []) (hc : c ∉ sep)
    (rest : Text) : splitOnceStr sep (piece ++ c :: rest) =
      (splitOnceStr sep rest).map fun cut => (piece ++ c :: cut.1, cut.2) := by
  have hhead : sep.head? ≠ some c := fun h => hc (List.mem_of_head? h)
  induction piece with
  | nil => exact splitOnceStr_cons hhead hsep rest
  | cons d piece ih =>
    rw [contains, splitOnceStr] at hline
    split at hline
    · cases hline
    · next hprefix =>
      have hpiece : contains sep piece = false := by simpa [contains] using hline
      have hlong : ¬ sep.isPrefixOf (d :: (piece ++ c :: rest)) = true := by
        intro hmore
        rw [List.isPrefixOf_iff_prefix] at hmore
        rcases Nat.lt_or_ge (d :: piece).length sep.length with hlt | hge
        · -- then the end of line is in the text
          have hinside : d :: piece ++ [c] <+: sep := by
            refine List.prefix_of_prefix_length_le ?_ hmore (by simpa using hlt)
            exact ⟨rest, by simp⟩
          exact hc (hinside.subset (by simp))
        · exact hprefix (List.isPrefixOf_iff_prefix.mpr (List.prefix_of_prefix_length_le hmore
            (List.prefix_append (d :: piece) _) hge))
      rw [List.cons_append, splitOnceStr, if_neg hlong, ih hpiece, Option.map_map]
      rfl

end First

theorem splitOnce_of_not_mem {sep : Char} (h : sep ∉ front) (back : Text) :
    splitOnce sep (front ++ sep :: back) = some (front, back) := by
  have hfront : ∀ c ∈ front, decide (c ≠ sep) = true := by
    intro c hc
    simpa using fun heq : c = sep => h (heq ▸ hc)
  rw [splitOnce, List.dropWhile_append_of_pos hfront, List.takeWhile_append_of_pos hfront]
  simp

theorem dropPrefix?_append (lead s : Text) : (lead ++ s).dropPrefix? lead = some s :=
  List.dropPrefix?_append_of_beq s (beq_self_eq_true lead)

theorem trimEndMatches_append_replicate {c : Char} (h : c ∉ s) (k : ℕ) :
    trimEndMatches c (s ++ List.replicate k c) = s := by
  have hkeep : s.reverse.dropWhile (· = c) = s.reverse := by
    rw [List.dropWhile_eq_self_iff]
    intro hpos hhead
    exact h (List.mem_reverse.mp (of_decide_eq_true hhead ▸ List.getElem_mem hpos))
  rw [trimEndMatches, List.reverse_append, List.reverse_replicate,
    List.dropWhile_append_of_pos fun d hd => decide_eq_true (List.eq_of_mem_replicate hd), hkeep,
    List.reverse_reverse]

/-- A text without white space is left as it is. -/
theorem trim_eq_self (h : ∀ c ∈ s, isWhitespace c = false) : trim s = s := by
  have htrim : trim ([] ++ s ++ []) = s := trim_append (by simp) h (by simp)
  rwa [List.nil_append, List.append_nil] at htrim

/-- White space at the ends makes no difference to trimming. -/
theorem trim_spaces {before after : Text} (hb : ∀ c ∈ before, isWhitespace c = true)
    (ha : ∀ c ∈ after, isWhitespace c = true) (s : Text) : trim (before ++ s ++ after) = trim s := by
  have hback : ∀ t : Text, (t ++ after).reverse.dropWhile isWhitespace =
      t.reverse.dropWhile isWhitespace := by
    intro t
    rw [List.reverse_append, List.dropWhile_append_of_pos fun c hc => ha c (by simpa using hc)]
  unfold trim
  rw [List.append_assoc, List.dropWhile_append_of_pos hb, List.dropWhile_append]
  split
  · next hempty =>
    rw [List.isEmpty_iff.mp hempty, List.dropWhile_eq_nil_iff.mpr ha]
  · rw [hback]

theorem parseU32_toDigits (n : UInt32) : parseU32 (Nat.toDigits 10 n.toNat) = some n := by
  have hdigit : ∀ c ∈ Nat.toDigits 10 n.toNat, c.isDigit = true := fun c hc =>
    Nat.isDigit_of_mem_toDigits (by decide) (by decide) hc
  have hvalue : (Nat.toDigits 10 n.toNat).foldl (fun n c => n * 10 + (c.toNat - 48)) 0 = n.toNat := by
    have hstep : (fun n c => n * 10 + (c.toNat - 48)) =
        fun n (c : Char) => 10 * n + (c.toNat - '0'.toNat) := by
      funext n c
      rw [Nat.mul_comm]
      rfl
    rw [hstep]
    exact Nat.ofDigitChars_toDigits (by decide) (by decide)
  -- no digit is a sign
  have hsign : ∀ digits, Nat.toDigits 10 n.toNat = '+' :: digits → False := by
    intro digits h
    cases hdigit '+' (h ▸ List.mem_cons_self)
  simp only [parseU32, hvalue, List.all_eq_true.mpr hdigit]
  rw [if_neg (by simp), if_pos n.toNat_lt, UInt32.ofNat_toNat]

section Digits
variable {radix n m d : ℕ} {digits : Text} {c : Char}

theorem isLower_range (h : c.isLower = true) : 97 ≤ c.val ∧ c.val ≤ 122 := by
  obtain ⟨hlo, hhi⟩ := Bool.and_eq_true_iff.mp h
  exact ⟨of_decide_eq_true hlo, of_decide_eq_true hhi⟩

theorem isUpper_range (h : c.isUpper = true) : 65 ≤ c.val ∧ c.val ≤ 90 :=
  of_decide_eq_true h

/-- A digit is an ASCII letter or digit. -/
theorem digitValue_range (h : digitValue c = some d) :
    48 ≤ c.toNat ∧ c.toNat ≤ 57 ∨ 97 ≤ c.toNat ∧ c.toNat ≤ 122 ∨ 65 ≤ c.toNat ∧ c.toNat ≤ 90 := by
  unfold digitValue at h
  split_ifs at h with hdigit hlower hupper
  · obtain ⟨hlo, hhi⟩ : 48 ≤ c.val ∧ c.val ≤ 57 := by simpa [Char.isDigit] using hdigit
    exact Or.inl ⟨UInt32.le_iff_toNat_le.mp hlo, UInt32.le_iff_toNat_le.mp hhi⟩
  · obtain ⟨hlo, hhi⟩ := isLower_range hlower
    exact Or.inr (Or.inl ⟨UInt32.le_iff_toNat_le.mp hlo, UInt32.le_iff_toNat_le.mp hhi⟩)
  · obtain ⟨hlo, hhi⟩ := isUpper_range hupper
    exact Or.inr (Or.inr ⟨UInt32.le_iff_toNat_le.mp hlo, UInt32.le_iff_toNat_le.mp hhi⟩)

theorem digitValue_of_mem (h : readDigits radix n digits = some m) (hc : c ∈ digits) :
    ∃ d, digitValue c = some d := by
  induction digits generalizing n with
  | nil => cases hc
  | cons b digits ih =>
    unfold readDigits at h
    split at h
    · next d hd =>
      split at h
      · rcases List.mem_cons.mp hc with rfl | hc
        · exact ⟨d, hd⟩
        · exact ih h hc
      · cases h
    · cases h

theorem isWhitespace_digit (h : digitValue c = some d) : isWhitespace c = false := by
  have hrange := digitValue_range h
  unfold isWhitespace
  generalize c.toNat = k at hrange
  simp only [Bool.or_eq_false_iff, Bool.and_eq_false_iff, decide_eq_false_iff_not, beq_eq_false_iff_ne]
  omega

/-- Digits without a sign are read as they are. -/
theorem parseUsize_digits (hne : digits ≠ []) (h : readDigits radix 0 digits = some n) :
    parseUsize radix digits = if n < 2 ^ 64 then some n else none := by
  cases digits with
  | nil => exact absurd rfl hne
  | cons b rest =>
    obtain ⟨d, hd⟩ := digitValue_of_mem h List.mem_cons_self
    have hb : b ≠ '+' := by
      rintro rfl
      cases hd
    unfold parseUsize
    split
    · next heq =>
      exact absurd (List.cons.inj heq).1 hb
    · simp [h]

end Digits

/-- A text that a string slice can hold. -/
structure StrSlice where
  text : Text
  short : utf8Len text < 2 ^ 63

end Desmos.Library.Text
