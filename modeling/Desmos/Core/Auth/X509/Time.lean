import Desmos.Core.Auth.X509
import Desmos.Library.Calendar
import Desmos.Library.Decimal
import Desmos.Library.Offsets

/-! # Times in certificates

The day count of the parser against the calendar, day by day, and the texts that the parser takes.
It checks months and times of day, and of the day only that it is at most 31.
-/
namespace Desmos.Core
open Library

theorem era_eq (y : ℤ) : (if 0 ≤ y then y else y - 399).tdiv 400 = y / 400 := by
  split
  · next h => exact Int.tdiv_eq_ediv_of_nonneg h
  · next h =>
    have hneg : (y - 399).tdiv 400 = -((399 - y) / 400) := by
      rw [← Int.tdiv_eq_ediv_of_nonneg (by omega), ← Int.neg_tdiv, neg_sub]
    omega

/-- Days from the first of March of year 0 to the first of March of a year. -/
def marchDays (y : ℤ) : ℤ := 365 * y + y / 4 - y / 100 + y / 400

/-- Days from the first of March before a month to the first of that month. -/
def monthStart (m : ℕ) : ℕ := (153 * (if 2 < m then m - 3 else m + 9) + 2) / 5

theorem daysFromCivil_eq (y : ℤ) (m d : ℕ) :
    daysFromCivil y m d = marchDays (if m ≤ 2 then y - 1 else y) +
      (monthStart m + d - 1 : ℕ) - 719468 := by
  unfold daysFromCivil marchDays monthStart
  dsimp only
  rw [era_eq]
  generalize (if m ≤ 2 then y - 1 else y) = y'
  generalize (153 * (if 2 < m then m - 3 else m + 9) + 2) / 5 + d - 1 = doy
  obtain ⟨yoe, hyoe⟩ : ∃ yoe : ℕ, y' - y' / 400 * 400 = yoe :=
    ⟨(y' - y' / 400 * 400).toNat, by omega⟩
  omega

variable {m y : ℕ} {d : Date} {w : ℕ} {f : TimeFields}

theorem monthStart_le (hm : 1 ≤ m) (hm' : m ≤ 12) : monthStart m ≤ 337 := by
  unfold monthStart
  split_ifs <;> omega

theorem daysFromCivil_lt {d : ℕ} (hy : y < 10000) (hm : 1 ≤ m) (hm' : m ≤ 12) (hd : d ≤ 31) :
    daysFromCivil y m d < 3000000 := by
  have hstart := monthStart_le hm hm'
  rw [daysFromCivil_eq]
  unfold marchDays
  split_ifs <;> omega

/-- The day of a leap year is in the February before the first of March. -/
theorem marchDays_sub (y : ℕ) : marchDays y - marchDays (y - 1 : ℤ) = 337 + daysInMonth y 2 := by
  have hleap : isLeapYear y = true ↔ y % 4 = 0 ∧ (y % 100 ≠ 0 ∨ y % 400 = 0) := by
    simp [isLeapYear]
  unfold marchDays daysInMonth
  rw [if_pos rfl]
  by_cases h : isLeapYear y = true
  · rw [if_pos h]
    rw [hleap] at h
    omega
  · rw [if_neg h]
    rw [hleap] at h
    omega

theorem monthStart_succ (hpos : 1 ≤ m) (hlt : m < 12) (hfeb : m ≠ 2) :
    monthStart (m + 1) = monthStart m + daysInMonth y m := by
  interval_cases m
  all_goals first | rfl | contradiction

def daysOf (d : Date) : ℤ := daysFromCivil d.year d.month d.day

theorem daysOf_next (d : Date) : daysOf d.next = daysOf d + 1 := by
  obtain ⟨y, m, day, hm, hm', hday, hday'⟩ := d
  unfold daysOf
  rw [daysFromCivil_eq, daysFromCivil_eq]
  unfold Date.next
  dsimp only at *
  split
  · dsimp only
    omega
  next hlast =>
  have hdim : day = daysInMonth y m := by omega
  split
  · next hmonth =>
    dsimp only [Date.firstOf]
    by_cases hfeb : m = 2
    · -- the count of years goes up in March
      subst hfeb
      have hyear := marchDays_sub y
      simp only [monthStart]
      norm_num
      omega
    · have hyear : m + 1 ≤ 2 ↔ m ≤ 2 := by omega
      simp only [hyear, monthStart_succ (y := y) hm hmonth hfeb, ← hdim]
      omega
  · next hyear =>
    obtain rfl : m = 12 := by omega
    obtain rfl : day = 31 := hdim
    simp only [Date.newYear, monthStart]
    norm_num
    omega

def epoch : Date := Date.newYear 1970

theorem daysOf_epoch : daysOf epoch = 0 := by decide +kernel

theorem rank_epoch : epoch.rank = 732840 := by decide +kernel

/-- From the epoch on, the count is the number of days that have passed. -/
theorem exists_days (h : 1970 ≤ d.year) : ∃ n, Date.next^[n] epoch = d ∧ daysOf d = n := by
  have hrank : epoch.rank ≤ d.rank := by
    rw [rank_epoch]
    unfold Date.rank
    omega
  obtain ⟨n, rfl⟩ := Date.exists_iterate_next hrank
  refine ⟨n, rfl, ?_⟩
  rw [Date.count_iterate daysOf_next, daysOf_epoch, zero_add]

theorem daysOf_neg (h : d.year < 1970) : daysOf d < 0 := by
  rw [← daysOf_epoch, Date.count_lt_iff daysOf_next]
  have := d.month_le; have := d.month_pos; have := d.day_pos; have := d.day_le_31
  rw [rank_epoch]
  unfold Date.rank
  omega

/-- The numbers that a GeneralizedTime spells, whatever they are. -/
structure TimeFields where
  year : ℕ
  month : ℕ
  day : ℕ
  hour : ℕ
  minute : ℕ
  second : ℕ
  year_lt : year < 10000
  month_lt : month < 100
  day_lt : day < 100
  hour_lt : hour < 100
  minute_lt : minute < 100
  second_lt : second < 100

namespace TimeFields

/-- Month, day and time of day in ten digits. -/
def withinYear (f : TimeFields) : Bytes :=
  decimal 2 f.month ++ (decimal 2 f.day ++ (decimal 2 f.hour ++ (decimal 2 f.minute ++
    decimal 2 f.second)))

def digits (f : TimeFields) : Bytes := decimal 4 f.year ++ f.withinYear

def text (f : TimeFields) : Bytes := f.digits ++ [0x5A]

end TimeFields

variable {digits : Bytes}

theorem parseU32From_digits (h : AllDigits digits) (out : ℕ) :
    parseU32From out digits = .ok (digits.foldl (fun acc b => acc * 10 + digitValue b) out) := by
  induction digits generalizing out with
  | nil => rfl
  | cons b digits ih =>
    rw [parseU32From, if_neg (not_not_intro (h b List.mem_cons_self))]
    exact ih (fun c hc => h c (List.mem_cons_of_mem _ hc)) _

theorem parseU32_decimal {n : ℕ} (h : n < 10 ^ w) : parseU32 (decimal w n) = .ok n := by
  have hvalue := decimalValue_decimal w n
  rw [Nat.mod_eq_of_lt h] at hvalue
  rw [parseU32, parseU32From_digits (allDigits_decimal w n)]
  exact congrArg Except.ok hvalue

theorem allDigits_append {a b : Bytes} : AllDigits (a ++ b) ↔ AllDigits a ∧ AllDigits b := by
  exact List.forall_mem_append

namespace TimeFields
variable (f : TimeFields)

@[simp] theorem length_withinYear : f.withinYear.length = 10 := by simp [withinYear]

@[simp] theorem length_digits : f.digits.length = 14 := by simp [digits]

theorem allDigits_withinYear : AllDigits f.withinYear := by
  simp [withinYear, allDigits_append, allDigits_decimal]

theorem allDigits_digits : AllDigits f.digits :=
  allDigits_append.mpr ⟨allDigits_decimal 4 f.year, f.allDigits_withinYear⟩

theorem parseWithinYear_eq (year : ℕ) : parseWithinYear year f.withinYear =
    gregorianToUnix year f.month f.day f.hour f.minute f.second := by
  -- the fields follow each other, two digits each
  have hall : HasAt f.withinYear 0 (decimal 2 f.month ++ (decimal 2 f.day ++ (decimal 2 f.hour ++
    (decimal 2 f.minute ++ decimal 2 f.second)))) := ⟨[], [], by simp [withinYear], rfl⟩
  have hmonth := hall.left.slice_eq
  have hday := hall.right.left.slice_eq
  have hhour := hall.right.right.left.slice_eq
  have hminute := hall.right.right.right.left.slice_eq
  have hsecond := hall.right.right.right.right.slice_eq
  simp only [length_decimal] at hmonth hday hhour hminute hsecond
  unfold parseWithinYear
  rw [hmonth, hday, hhour, hminute, hsecond, parseU32_decimal f.month_lt,
    parseU32_decimal f.day_lt, parseU32_decimal f.hour_lt, parseU32_decimal f.minute_lt,
    parseU32_decimal f.second_lt]
  rfl

theorem parse_shape (h : AllDigits digits) (k : ℕ) (hk : digits.length = k) :
    ¬ ((digits ++ [0x5A]).length ≠ k + 1 ∨ (digits ++ [0x5A]).getLast? ≠ some 0x5A) ∧
      (digits ++ [0x5A]).take k = digits ∧ ¬ ¬ digits.all Text.isAsciiDigit = true := by
  refine ⟨?_, List.take_left' hk, not_not_intro (List.all_eq_true.mpr h)⟩
  rintro (hlen | hlast)
  · exact hlen (by rw [List.length_append, hk, List.length_singleton])
  · exact hlast (List.getLast?_concat)

theorem parseGeneralizedTime_text : parseGeneralizedTime f.text =
    gregorianToUnix f.year f.month f.day f.hour f.minute f.second := by
  obtain ⟨hshape, htake, hall⟩ := parse_shape f.allDigits_digits 14 f.length_digits
  have hyear : slice f.digits 0 4 = decimal 4 f.year := slice_head (length_decimal 4 f.year) _
  have hrest : f.digits.drop 4 = f.withinYear := List.drop_left' (length_decimal 4 f.year)
  unfold parseGeneralizedTime text
  rw [if_neg hshape, htake]
  rw [if_neg hall, hyear, hrest, parseU32_decimal f.year_lt]
  exact f.parseWithinYear_eq f.year

/-- The same time with the last two digits of the year. -/
def utcText : Bytes := decimal 2 f.year ++ f.withinYear ++ [0x5A]

theorem parseUtcTime_text : parseUtcTime f.utcText =
    gregorianToUnix (if f.year % 100 < 50 then 2000 + f.year % 100 else 1900 + f.year % 100)
      f.month f.day f.hour f.minute f.second := by
  have hdigits : AllDigits (decimal 2 f.year ++ f.withinYear) :=
    allDigits_append.mpr ⟨allDigits_decimal 2 f.year, f.allDigits_withinYear⟩
  obtain ⟨hshape, htake, hall⟩ := parse_shape hdigits 12 (by simp)
  have hyear : slice (decimal 2 f.year ++ f.withinYear) 0 2 = decimal 2 f.year :=
    slice_head (length_decimal 2 f.year) _
  have hrest : (decimal 2 f.year ++ f.withinYear).drop 2 = f.withinYear :=
    List.drop_left' (length_decimal 2 f.year)
  have hparse : parseU32 (decimal 2 f.year) = .ok (f.year % 100) := by
    rw [parseU32, parseU32From_digits (allDigits_decimal 2 f.year)]
    exact congrArg Except.ok (decimalValue_decimal 2 f.year)
  unfold parseUtcTime utcText
  rw [if_neg hshape, htake]
  rw [if_neg hall, hyear, hrest, hparse]
  exact f.parseWithinYear_eq _

end TimeFields

theorem exists_decimal_append (hw : w ≤ digits.length)
    (h : AllDigits digits) : ∃ n rest, digits = decimal w n ++ rest ∧ n < 10 ^ w ∧ AllDigits rest ∧
      rest.length = digits.length - w := by
  have hsplit := List.take_append_drop w digits
  rw [← hsplit, allDigits_append] at h
  have hlen : (digits.take w).length = w := List.length_take_of_le hw
  refine ⟨decimalValue (digits.take w), digits.drop w, ?_, ?_, h.2, List.length_drop⟩
  · have hdec := decimal_decimalValue h.1
    rw [hlen] at hdec
    rw [hdec, hsplit]
  · have hlt := decimalValue_lt h.1
    rwa [hlen] at hlt

theorem exists_fields (hlen : digits.length = 14) (h : AllDigits digits) :
    ∃ f : TimeFields, digits = f.digits := by
  obtain ⟨year, rest, rfl, hyear, h, hrest⟩ := exists_decimal_append (w := 4) (by omega) h
  obtain ⟨month, rest, rfl, hmonth, h, hrest⟩ := exists_decimal_append (w := 2) (by omega) h
  obtain ⟨day, rest, rfl, hday, h, hrest⟩ := exists_decimal_append (w := 2) (by omega) h
  obtain ⟨hour, rest, rfl, hhour, h, hrest⟩ := exists_decimal_append (w := 2) (by omega) h
  obtain ⟨minute, rest, rfl, hminute, h, hrest⟩ := exists_decimal_append (w := 2) (by omega) h
  obtain ⟨second, rest, rfl, hsecond, h, hrest⟩ := exists_decimal_append (w := 2) (by omega) h
  obtain rfl : rest = [] := List.length_eq_zero_iff.mp (by omega)
  refine ⟨⟨year, month, day, hour, minute, second, hyear, hmonth, hday, hhour, hminute, hsecond⟩, ?_⟩
  rfl

theorem exists_text {bytes : Bytes} {x : UInt64} (h : parseGeneralizedTime bytes = .ok x) :
    ∃ f : TimeFields, bytes = f.text := by
  unfold parseGeneralizedTime at h
  rw [ite_error_eq_ok] at h
  obtain ⟨hshape, h⟩ := h
  rw [not_or, not_not, not_not] at hshape
  rw [ite_error_eq_ok, not_not] at h
  have hlen : (bytes.take 14).length = 14 := List.length_take_of_le (by omega)
  obtain ⟨f, hf⟩ := exists_fields hlen (List.all_eq_true.mp h.1)
  refine ⟨f, ?_⟩
  obtain ⟨front, hfront⟩ : ∃ front, bytes = front ++ [0x5A] := by
    obtain ⟨_, hbytes⟩ := List.mem_getLast?_eq_getLast hshape.2
    exact ⟨bytes.dropLast, by rw [hbytes, List.dropLast_append_getLast]⟩
  have hcount : front.length = 14 := by
    have := hshape.1
    rw [hfront, List.length_append, List.length_singleton] at this
    omega
  rw [hfront, List.take_left' hcount] at hf
  rw [hfront, hf]
  rfl

namespace TimeFields
variable (f : TimeFields)

/-- What the conversion asks of the fields. -/
structure InRange : Prop where
  month : 1 ≤ f.month ∧ f.month ≤ 12
  day : 1 ≤ f.day ∧ f.day ≤ 31
  hour : f.hour < 24
  minute : f.minute < 60
  second : f.second < 60

def days : ℤ := daysFromCivil f.year f.month f.day

def secondOfDay : ℕ := f.hour * 3600 + f.minute * 60 + f.second

variable {f} {x : UInt64} {g : TimeFields}

theorem InRange.days_lt (h : f.InRange) : f.days < 3000000 :=
  daysFromCivil_lt f.year_lt h.month.1 h.month.2 h.day.2

theorem InRange.secondOfDay_lt (h : f.InRange) : f.secondOfDay < 86400 := by
  have := h.hour; have := h.minute; have := h.second
  unfold secondOfDay
  omega

theorem gregorianToUnix_ok_iff :
    gregorianToUnix f.year f.month f.day f.hour f.minute f.second = .ok x ↔
      f.InRange ∧ 0 ≤ f.days ∧ (x.toNat : ℤ) = f.days * 86400 + f.secondOfDay := by
  have hrange : ¬ (¬ (1 ≤ f.month ∧ f.month ≤ 12) ∨ ¬ (1 ≤ f.day ∧ f.day ≤ 31) ∨ 24 ≤ f.hour ∨
      60 ≤ f.minute ∨ 60 ≤ f.second) ↔ f.InRange := by
    constructor
    · intro h
      exact ⟨by omega, by omega, by omega, by omega, by omega⟩
    · rintro ⟨_, _, _, _, _⟩
      omega
  unfold gregorianToUnix
  rw [ite_error_eq_ok, hrange, ite_error_eq_ok, not_lt]
  refine and_congr_right fun h => and_congr_right fun hpos => ?_
  change 0 ≤ f.days at hpos
  change Except.ok (UInt64.ofNat (f.days.toNat * 86400 + f.hour * 3600 + f.minute * 60 +
    f.second)) = Except.ok x ↔ _
  have hlt := h.days_lt
  have hsod := h.secondOfDay_lt
  obtain ⟨n, hn⟩ := Int.eq_ofNat_of_zero_le hpos
  rw [hn] at hlt ⊢
  have hsum : n * 86400 + f.hour * 3600 + f.minute * 60 + f.second =
      n * 86400 + f.secondOfDay := by
    unfold secondOfDay
    ring
  have hsmall : n * 86400 + f.secondOfDay < 2 ^ 64 := by omega
  rw [Int.toNat_natCast, hsum, Except.ok.injEq]
  constructor
  · rintro rfl
    rw [UInt64.toNat_ofNat_of_lt' hsmall]
    push_cast
    ring
  · intro hx
    have hx' : x.toNat = n * 86400 + f.secondOfDay := by exact_mod_cast hx
    rw [← hx', UInt64.ofNat_toNat]

theorem parseGeneralizedTime_ok_iff : parseGeneralizedTime f.text = .ok x ↔
    f.InRange ∧ 0 ≤ f.days ∧ (x.toNat : ℤ) = f.days * 86400 + f.secondOfDay := by
  rw [parseGeneralizedTime_text, gregorianToUnix_ok_iff]

theorem text_lt_iff : f.text < g.text ↔ decimalValue f.digits < decimalValue g.digits := by
  rw [← lt_iff_decimalValue_lt (f.length_digits.trans g.length_digits.symm) f.allDigits_digits
    g.allDigits_digits]
  exact concat_lt_concat_iff (f.length_digits.trans g.length_digits.symm) 0x5A

theorem decimalValue_digits : decimalValue f.digits =
    f.year * 10 ^ 10 + f.month * 10 ^ 8 + f.day * 10 ^ 6 + f.hour * 10 ^ 4 + f.minute * 10 ^ 2 +
      f.second := by
  have hyear : decimalValue (decimal 4 f.year) = f.year :=
    (decimalValue_decimal 4 f.year).trans (Nat.mod_eq_of_lt f.year_lt)
  have htwo : ∀ {n : ℕ}, n < 100 → decimalValue (decimal 2 n) = n :=
    fun h => (decimalValue_decimal 2 _).trans (Nat.mod_eq_of_lt h)
  simp only [digits, withinYear, decimalValue_append, List.length_append, length_decimal, hyear,
    htwo f.month_lt, htwo f.day_lt, htwo f.hour_lt, htwo f.minute_lt, htwo f.second_lt]
  ring

/-- The date of fields that are in range and whose day exists. -/
def date (f : TimeFields) (h : f.InRange) (hday : f.day ≤ daysInMonth f.year f.month) : Date where
  year := f.year
  month := f.month
  day := f.day
  month_pos := h.month.1
  month_le := h.month.2
  day_pos := h.day.1
  day_le := hday

theorem days_eq (h : f.InRange) (hday : f.day ≤ daysInMonth f.year f.month) :
    f.days = daysOf (f.date h hday) := rfl

theorem seconds_lt_iff (hf : f.InRange) (hg : g.InRange)
    (hfday : f.day ≤ daysInMonth f.year f.month) (hgday : g.day ≤ daysInMonth g.year g.month) :
    f.days * 86400 + f.secondOfDay < g.days * 86400 + g.secondOfDay ↔
      decimalValue f.digits < decimalValue g.digits := by
  have hlt : f.days < g.days ↔ (f.date hf hfday).rank < (g.date hg hgday).rank := by
    rw [days_eq hf hfday, days_eq hg hgday, Date.count_lt_iff daysOf_next]
  have hgt : g.days < f.days ↔ (g.date hg hgday).rank < (f.date hf hfday).rank := by
    rw [days_eq hf hfday, days_eq hg hgday, Date.count_lt_iff daysOf_next]
  have := hf.secondOfDay_lt; have := hg.secondOfDay_lt
  rw [decimalValue_digits, decimalValue_digits]
  obtain ⟨hfm, hfd, hfh, hfmin, hfs⟩ := hf
  obtain ⟨hgm, hgd, hgh, hgmin, hgs⟩ := hg
  have := f.hour_lt; have := g.hour_lt
  unfold Date.rank date at hlt hgt
  dsimp only at hlt hgt
  unfold secondOfDay at *
  -- the later date decides, and the time of day on one date
  rcases lt_trichotomy f.days g.days with h | h | h
  · have hrank := hlt.mp h
    omega
  · have h₁ := mt hlt.mpr (by omega)
    have h₂ := mt hgt.mpr (by omega)
    omega
  · have hrank := hgt.mp h
    omega

end TimeFields

structure TimeOfDay where
  hour : ℕ
  minute : ℕ
  second : ℕ
  hour_lt : hour < 24
  minute_lt : minute < 60
  second_lt : second < 60

namespace TimeOfDay

def seconds (t : TimeOfDay) : ℕ := t.hour * 3600 + t.minute * 60 + t.second

end TimeOfDay

/-- `YYYYMMDDHHMMSSZ`. -/
def generalizedText (d : Date) (t : TimeOfDay) : Bytes :=
  decimal 4 d.year ++ (decimal 2 d.month ++ (decimal 2 d.day ++ (decimal 2 t.hour ++
    (decimal 2 t.minute ++ decimal 2 t.second)))) ++ [0x5A]

/-- `YYMMDDHHMMSSZ`. -/
def utcText (d : Date) (t : TimeOfDay) : Bytes :=
  decimal 2 d.year ++ (decimal 2 d.month ++ (decimal 2 d.day ++ (decimal 2 t.hour ++
    (decimal 2 t.minute ++ decimal 2 t.second)))) ++ [0x5A]

def fieldsOf (d : Date) (t : TimeOfDay) (h : d.year < 10000) : TimeFields where
  year := d.year
  month := d.month
  day := d.day
  hour := t.hour
  minute := t.minute
  second := t.second
  year_lt := h
  month_lt := d.month_le.trans_lt (by decide)
  day_lt := d.day_le_31.trans_lt (by decide)
  hour_lt := t.hour_lt.trans (by decide)
  minute_lt := t.minute_lt.trans (by decide)
  second_lt := t.second_lt.trans (by decide)

theorem inRange_fieldsOf (d : Date) (t : TimeOfDay) (h : d.year < 10000) :
    (fieldsOf d t h).InRange :=
  ⟨⟨d.month_pos, d.month_le⟩, ⟨d.day_pos, d.day_le_31⟩, t.hour_lt, t.minute_lt, t.second_lt⟩

/-- The text is that of a date that exists and of a time of day. -/
def DenotesTime (bytes : Bytes) : Prop :=
  ∃ (d : Date) (t : TimeOfDay), d.year < 10000 ∧ bytes = generalizedText d t

/-- The day that a text spells is one of the month that it spells. -/
def DayExists (bytes : Bytes) : Prop :=
  decimalValue (slice bytes 6 2) ≤
    daysInMonth (decimalValue (slice bytes 0 4)) (decimalValue (slice bytes 4 2))

instance (bytes : Bytes) : Decidable (DayExists bytes) := inferInstanceAs (Decidable (_ ≤ _))

theorem TimeFields.dayExists_iff : DayExists f.text ↔ f.day ≤ daysInMonth f.year f.month := by
  have hall : HasAt f.text 0 (decimal 4 f.year ++ (decimal 2 f.month ++ (decimal 2 f.day ++
      (decimal 2 f.hour ++ (decimal 2 f.minute ++ decimal 2 f.second))))) := ⟨[], [0x5A], rfl, rfl⟩
  have hyear := hall.left.slice_eq
  have hmonth := hall.right.left.slice_eq
  have hday := hall.right.right.left.slice_eq
  simp only [length_decimal] at hyear hmonth hday
  unfold DayExists
  rw [hyear, hmonth, hday, decimalValue_decimal, decimalValue_decimal, decimalValue_decimal]
  rw [show f.year % 10 ^ 4 = f.year from Nat.mod_eq_of_lt f.year_lt,
    show f.month % 10 ^ 2 = f.month from Nat.mod_eq_of_lt f.month_lt,
    show f.day % 10 ^ 2 = f.day from Nat.mod_eq_of_lt f.day_lt]

theorem TimeFields.denotesTime_iff (h : f.InRange) :
    DenotesTime f.text ↔ f.day ≤ daysInMonth f.year f.month := by
  constructor
  · rintro ⟨d, t, hyear, htext⟩
    rw [← dayExists_iff, htext]
    exact (dayExists_iff (f := fieldsOf d t hyear)).mpr d.day_le
  · intro hday
    exact ⟨f.date h hday, ⟨f.hour, f.minute, f.second, h.hour, h.minute, h.second⟩, f.year_lt, rfl⟩

theorem TimeFields.text_eq_iff {g : TimeFields} :
    f.text = g.text ↔ decimalValue f.digits = decimalValue g.digits := by
  constructor
  · intro h
    rw [List.append_cancel_right h]
  · intro h
    have hf := decimal_decimalValue f.allDigits_digits
    rw [h, f.length_digits, ← g.length_digits, decimal_decimalValue g.allDigits_digits] at hf
    rw [text, text, hf]

/-- Of two accepted texts both are of dates that exist, with results in the order of the texts,
exactly if the days that they spell exist in their months. -/
theorem accepted_times_ordered_iff (a b : Bytes) (x y : UInt64)
    (ha : parseGeneralizedTime a = .ok x) (hb : parseGeneralizedTime b = .ok y) :
    ((DenotesTime a ∧ DenotesTime b) ∧ (x < y ↔ a < b) ∧ (x = y ↔ a = b)) ↔
      DayExists a ∧ DayExists b := by
  obtain ⟨f, rfl⟩ := exists_text ha
  obtain ⟨g, rfl⟩ := exists_text hb
  obtain ⟨hf, _, hx⟩ := TimeFields.parseGeneralizedTime_ok_iff.mp ha
  obtain ⟨hg, _, hy⟩ := TimeFields.parseGeneralizedTime_ok_iff.mp hb
  rw [TimeFields.dayExists_iff, TimeFields.dayExists_iff, TimeFields.denotesTime_iff hf,
    TimeFields.denotesTime_iff hg]
  refine and_iff_left_of_imp fun ⟨hfday, hgday⟩ => ?_
  have hlt := TimeFields.seconds_lt_iff hf hg hfday hgday
  have hgt := TimeFields.seconds_lt_iff hg hf hgday hfday
  rw [TimeFields.text_lt_iff, TimeFields.text_eq_iff, UInt64.lt_iff_toNat_lt, ← UInt64.toNat_inj]
  omega

namespace Sample

def feb28 : Bytes := Text.asBytes "20230228235959Z".toList
def feb30 : Bytes := Text.asBytes "20230230000000Z".toList
def mar2 : Bytes := Text.asBytes "20230302000000Z".toList

end Sample

theorem real_dates_ordered : (1677628799 : UInt64) < 1677715200 ↔ Sample.feb28 < Sample.mar2 :=
  ((accepted_times_ordered_iff Sample.feb28 Sample.mar2 1677628799 1677715200 (by decide +kernel)
    (by decide +kernel)).mpr (by decide +kernel)).2.1

/-- The thirtieth of February is taken for the second of March. -/
theorem february_30_accepted : Sample.feb30 ≠ Sample.mar2 ∧
    parseGeneralizedTime Sample.feb30 = .ok 1677715200 ∧
    parseGeneralizedTime Sample.mar2 = .ok 1677715200 ∧ ¬ DayExists Sample.feb30 := by
  decide +kernel

end Desmos.Core
