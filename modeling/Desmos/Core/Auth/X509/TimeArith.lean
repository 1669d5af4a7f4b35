import Desmos.Core.Auth.X509.Time
import Desmos.Library.Agrees
import Desmos.Library.IntType

/-! # The arithmetic of certificate times

The time parsers with every step in the type that the code gives it. No step leaves its type and
no slice leaves its text, whatever the bytes are.
-/
namespace Desmos.Core.TimeArith
open Library IntType

/-- A program that can stop and can fail with an error of the parser. -/
abbrev Fallible := ExceptT X509Error Option

def parseU32From : (out : ℤ) → Bytes → Fallible ℤ
  | out, [] => pure out
  | out, b :: digits =>
    if ¬ Text.isAsciiDigit b then throw .invalidTime
    else do
      let digit ← u8.fit (b.toNat - 0x30)
      let tens ← u32.fit (out * 10)
      let out ← u32.fit (tens + digit)
      parseU32From out digits

def parseU32 (digits : Bytes) (lo hi : ℕ) : Fallible ℤ := do
  let part ← sliceAt digits lo hi
  parseU32From 0 part

/-- The year that starts in March. -/
def marchYear (y m : ℤ) : Option ℤ := if m ≤ 2 then i32.fit (y - 1) else some y

def eraOf (y : ℤ) : Option ℤ :=
  if 0 ≤ y then some (y.tdiv 400) else (i32.fit (y - 399)).map (·.tdiv 400)

def yearOfEra (y era : ℤ) : Option ℤ := do
  let years ← i32.fit (era * 400)
  let yoe ← i32.fit (y - years)
  u32.fit yoe

/-- Months are counted from March. -/
def shiftedMonth (m : ℤ) : Option ℤ := if 2 < m then u32.fit (m - 3) else u32.fit (m + 9)

def dayOfYear (m d : ℤ) : Option ℤ := do
  let mShifted ← shiftedMonth m
  let scaled ← u32.fit (153 * mShifted)
  let rounded ← u32.fit (scaled + 2)
  let next ← u32.fit (rounded / 5 + d)
  u32.fit (next - 1)

def dayOfEra (yoe doy : ℤ) : Option ℤ := do
  let years ← u32.fit (yoe * 365)
  let leap ← u32.fit (years + yoe / 4)
  let centuries ← u32.fit (leap - yoe / 100)
  u32.fit (centuries + doy)

def daysFromCivil (y m d : ℤ) : Option ℤ := do
  let y ← marchYear y m
  let era ← eraOf y
  let yoe ← yearOfEra y era
  let doy ← dayOfYear m d
  let doe ← dayOfEra yoe doy
  let eras ← i64.fit (era * 146097)
  let days ← i64.fit (eras + doe)
  i64.fit (days - 719468)

def totalSeconds (days hour minute second : ℤ) : Option ℤ := do
  let ofDays ← u64.fit (days * 86400)
  let ofHours ← u64.fit (hour * 3600)
  let sum ← u64.fit (ofDays + ofHours)
  let ofMinutes ← u64.fit (minute * 60)
  let sum ← u64.fit (sum + ofMinutes)
  u64.fit (sum + second)

def gregorianToUnix (year month day hour minute second : ℤ) : Fallible UInt64 :=
  if ¬ (1 ≤ month ∧ month ≤ 12) ∨ ¬ (1 ≤ day ∧ day ≤ 31) ∨ 24 ≤ hour ∨ 60 ≤ minute ∨ 60 ≤ second then
    throw .invalidTime
  else do
    let days ← daysFromCivil year month day
    if days < 0 then throw .invalidTime
    else
      let total ← totalSeconds days hour minute second
      pure (UInt64.ofNat total.toNat)

/-- Month, day and time of day in the ten digits from an offset. -/
def parseWithinYear (year : ℤ) (digits : Bytes) (off : ℕ) : Fallible UInt64 := do
  let month ← parseU32 digits off (off + 2)
  let day ← parseU32 digits (off + 2) (off + 4)
  let hour ← parseU32 digits (off + 4) (off + 6)
  let minute ← parseU32 digits (off + 6) (off + 8)
  let second ← parseU32 digits (off + 8) (off + 10)
  gregorianToUnix year month day hour minute second

/-- The four digits of a year from its last two. -/
def pivotYear (yy : ℤ) : Option ℤ := if yy < 50 then u32.fit (2000 + yy) else u32.fit (1900 + yy)

variable (bytes : Bytes)

def parseUtcTime : Fallible UInt64 :=
  if bytes.length ≠ 13 ∨ bytes.getLast? ≠ some 0x5A then throw .invalidTime
  else do
    let digits ← sliceAt bytes 0 12
    if ¬ digits.all Text.isAsciiDigit then throw .invalidTime
    else
      let yy ← parseU32 digits 0 2
      let year ← pivotYear yy
      let year ← i32.fit year
      parseWithinYear year digits 2

def parseGeneralizedTime : Fallible UInt64 :=
  if bytes.length ≠ 15 ∨ bytes.getLast? ≠ some 0x5A then throw .invalidTime
  else do
    let digits ← sliceAt bytes 0 14
    if ¬ digits.all Text.isAsciiDigit then throw .invalidTime
    else
      let year ← parseU32 digits 0 4
      let year ← i32.fit year
      parseWithinYear year digits 4

variable {z y : ℤ} {m d year n : ℕ} {digits : Bytes} {lo : ℕ}

theorem fit_u8 (hlo : 0 ≤ z) (hhi : z < 2 ^ 8) : u8.fit z = some z :=
  fit_eq hlo (Int.le_sub_one_of_lt hhi)

theorem fit_u32 (hlo : 0 ≤ z) (hhi : z < 2 ^ 32) : u32.fit z = some z :=
  fit_eq hlo (Int.le_sub_one_of_lt hhi)

theorem fit_i32 (hlo : -2 ^ 31 ≤ z) (hhi : z < 2 ^ 31) : i32.fit z = some z :=
  fit_eq hlo (Int.le_sub_one_of_lt hhi)

theorem fit_u64 (hlo : 0 ≤ z) (hhi : z < 2 ^ 64) : u64.fit z = some z :=
  fit_eq hlo (Int.le_sub_one_of_lt hhi)

theorem fit_i64 (hlo : -2 ^ 63 ≤ z) (hhi : z < 2 ^ 63) : i64.fit z = some z :=
  fit_eq hlo (Int.le_sub_one_of_lt hhi)

theorem marchYear_eq (m : ℕ) (hy : 0 ≤ y) (hy' : y < 10000) :
    marchYear y m = some (if m ≤ 2 then y - 1 else y) := by
  unfold marchYear
  rw [apply_ite some, fit_i32 (by omega) (by omega)]
  simp

theorem eraOf_eq (hy : -1 ≤ y) (hy' : y < 10000) : eraOf y = some (y / 400) := by
  rw [← era_eq]
  unfold eraOf
  by_cases h : 0 ≤ y
  · rw [if_pos h, if_pos h]
  · rw [if_neg h, if_neg h, fit_i32 (by omega) (by omega), Option.map_some]

theorem yearOfEra_eq (hy : -1 ≤ y) (hy' : y < 10000) : yearOfEra y (y / 400) = some (y % 400) := by
  unfold yearOfEra
  rw [fit_i32 (by omega) (by omega), Option.bind_eq_bind, Option.bind_some,
    show y - y / 400 * 400 = y % 400 by omega, fit_i32 (by omega) (by omega)]
  exact fit_u32 (by omega) (by omega)

theorem shiftedMonth_eq (hm : 1 ≤ m) (hm' : m ≤ 12) :
    shiftedMonth m = some ((if 2 < m then m - 3 else m + 9 : ℕ) : ℤ) := by
  unfold shiftedMonth
  by_cases h : 2 < m
  · rw [if_pos (by omega), if_pos h, fit_u32 (by omega) (by omega)]
    congr 1
    omega
  · rw [if_neg (by omega), if_neg h, fit_u32 (by omega) (by omega)]
    congr 1

theorem dayOfYear_of_shifted {m k d : ℤ} (hm : shiftedMonth m = some k) (hk : 0 ≤ k) (hk' : k ≤ 11)
    (hd : 1 ≤ d) (hd' : d ≤ 31) : dayOfYear m d = some ((153 * k + 2) / 5 + d - 1) := by
  unfold dayOfYear
  simp only [Option.bind_eq_bind, Option.bind_some, hm,
    fit_u32 (show (0 : ℤ) ≤ 153 * k by omega) (by omega),
    fit_u32 (show (0 : ℤ) ≤ 153 * k + 2 by omega) (by omega),
    fit_u32 (show (0 : ℤ) ≤ (153 * k + 2) / 5 + d by omega) (by omega)]
  exact fit_u32 (by omega) (by omega)

theorem dayOfYear_eq (hm : 1 ≤ m) (hm' : m ≤ 12) (hd : 1 ≤ d) (hd' : d ≤ 31) :
    dayOfYear m d = some ((monthStart m + d - 1 : ℕ) : ℤ) := by
  have hshift : (if 2 < m then m - 3 else m + 9) ≤ 11 := by split <;> omega
  rw [dayOfYear_of_shifted (shiftedMonth_eq hm hm') (by omega) (by omega) (by omega) (by omega)]
  unfold monthStart
  congr 1
  omega

theorem dayOfEra_eq {yoe doy : ℤ} (hy : 0 ≤ yoe) (hy' : yoe < 400) (hd : 0 ≤ doy)
    (hd' : doy < 400) :
    dayOfEra yoe doy = some (yoe * 365 + yoe / 4 - yoe / 100 + doy) := by
  unfold dayOfEra
  simp only [Option.bind_eq_bind, Option.bind_some, fit_u32 (show (0 : ℤ) ≤ yoe * 365 by omega)
    (by omega), fit_u32 (show (0 : ℤ) ≤ yoe * 365 + yoe / 4 by omega) (by omega),
    fit_u32 (show (0 : ℤ) ≤ yoe * 365 + yoe / 4 - yoe / 100 by omega) (by omega)]
  exact fit_u32 (by omega) (by omega)

theorem daysFromCivil_fits {y : ℕ} (hy : y < 10000) (hm : 1 ≤ m) (hm' : m ≤ 12) (hd : 1 ≤ d)
    (hd' : d ≤ 31) : daysFromCivil y m d = some (Core.daysFromCivil y m d) := by
  have hstart := monthStart_le hm hm'
  rw [daysFromCivil_eq]
  unfold daysFromCivil marchDays
  rw [marchYear_eq m (by omega) (by omega)]
  have hlo : -1 ≤ (if m ≤ 2 then (y : ℤ) - 1 else y) := by split <;> omega
  have hhi : (if m ≤ 2 then (y : ℤ) - 1 else y) < 10000 := by split <;> omega
  generalize (if m ≤ 2 then (y : ℤ) - 1 else y) = z at hlo hhi ⊢
  rw [dayOfYear_eq hm hm' hd hd']
  obtain ⟨doy, hdoy⟩ : ∃ doy : ℤ, ((monthStart m + d - 1 : ℕ) : ℤ) = doy := ⟨_, rfl⟩
  rw [hdoy]
  have hdoy0 : 0 ≤ doy := by omega
  have hdoy1 : doy < 400 := by omega
  simp only [Option.bind_eq_bind, Option.bind_some, eraOf_eq hlo hhi, yearOfEra_eq hlo hhi,
    dayOfEra_eq (show 0 ≤ z % 400 by omega) (by omega) hdoy0 hdoy1,
    fit_i64 (show -2 ^ 63 ≤ z / 400 * 146097 by omega) (by omega)]
  rw [fit_i64 (by omega) (by omega), Option.bind_some, fit_i64 (by omega) (by omega)]
  congr 1
  omega

theorem totalSeconds_eq {days : ℤ} {hour minute second : ℕ} (hd : 0 ≤ days) (hd' : days < 3000000)
    (hh : hour < 24) (hm : minute < 60) (hs : second < 60) :
    totalSeconds days hour minute second =
      some ((days.toNat * 86400 + hour * 3600 + minute * 60 + second : ℕ) : ℤ) := by
  obtain ⟨n, rfl⟩ := Int.eq_ofNat_of_zero_le hd
  unfold totalSeconds
  simp only [Option.bind_eq_bind, Option.bind_some,
    fit_u64 (show (0 : ℤ) ≤ n * 86400 by omega) (by omega),
    fit_u64 (show (0 : ℤ) ≤ hour * 3600 by omega) (by omega),
    fit_u64 (show (0 : ℤ) ≤ n * 86400 + hour * 3600 by omega) (by omega),
    fit_u64 (show (0 : ℤ) ≤ minute * 60 by omega) (by omega),
    fit_u64 (show (0 : ℤ) ≤ n * 86400 + hour * 3600 + minute * 60 by omega) (by omega)]
  rw [fit_u64 (by omega) (by omega), Int.toNat_natCast]
  rfl

theorem gregorianToUnix_agrees (month day hour minute second : ℕ) (hy : year < 10000) :
    Agrees (gregorianToUnix year month day hour minute second)
      (Core.gregorianToUnix year month day hour minute second) := by
  unfold gregorianToUnix Core.gregorianToUnix
  by_cases h : ¬ (1 ≤ month ∧ month ≤ 12) ∨ ¬ (1 ≤ day ∧ day ≤ 31) ∨ 24 ≤ hour ∨ 60 ≤ minute ∨
      60 ≤ second
  · rw [if_pos h, if_pos (by omega)]
    exact .error _
  rw [if_neg h, if_neg (by omega)]
  apply Agrees.step (daysFromCivil_fits hy (by omega) (by omega) (by omega) (by omega))
  apply Agrees.ite
  · intro _
    exact .error _
  · intro hdays
    rw [not_lt] at hdays
    have hlt := daysFromCivil_lt (m := month) (d := day) hy (by omega) (by omega) (by omega)
    apply Agrees.step (totalSeconds_eq hdays hlt (by omega) (by omega) (by omega))
    exact .ok _

/-- A field has at most four digits, so its value is far below the bound of the type. -/
theorem parseU32From_agrees (digits : Bytes) (out : ℕ)
    (h : (out + 1) * 10 ^ digits.length ≤ 10000) :
    Agrees (parseU32From out digits) ((Core.parseU32From out digits).map Nat.cast) := by
  induction digits generalizing out with
  | nil => exact .ok _
  | cons b digits ih =>
    unfold parseU32From Core.parseU32From
    rw [apply_ite (Except.map Nat.cast)]
    apply Agrees.ite
    · intro _
      exact .error _
    · intro hdigit
      obtain ⟨hvalue, hlt⟩ := isAsciiDigit_iff.mp (not_not.mp hdigit)
      have hpos := Nat.one_le_pow digits.length 10 (by decide)
      rw [List.length_cons, pow_succ] at h
      have hout : out < 10000 := by nlinarith
      have hnext : (out * 10 + digitValue b + 1) * 10 ^ digits.length ≤ 10000 := by nlinarith
      have hih := ih _ hnext
      apply Agrees.step (fit_u8 (by omega) (by omega))
      apply Agrees.step (fit_u32 (by omega) (by omega))
      apply Agrees.step (fit_u32 (by omega) (by omega))
      rw [show ((b.toNat : ℤ) - 0x30) = digitValue b by omega]
      exact hih

theorem parseU32From_lt (digits : Bytes) {out : ℕ} (h : Core.parseU32From out digits = .ok n) :
    n < (out + 1) * 10 ^ digits.length := by
  induction digits generalizing out with
  | nil =>
    cases h
    simp
  | cons b digits ih =>
    unfold Core.parseU32From at h
    rw [ite_error_eq_ok, not_not] at h
    have hlt : digitValue b < 10 := (isAsciiDigit_iff.mp h.1).2
    calc n < (out * 10 + digitValue b + 1) * 10 ^ digits.length := ih h.2
      _ ≤ (out + 1) * 10 * 10 ^ digits.length := Nat.mul_le_mul_right _ (by omega)
      _ = (out + 1) * 10 ^ (b :: digits).length := by rw [List.length_cons, pow_succ]; ring

theorem parseU32_lt {w : ℕ} (h : Core.parseU32 (slice digits lo w) = .ok n) : n < 10 ^ w := by
  have hlt := parseU32From_lt _ h
  rw [zero_add, one_mul] at hlt
  exact hlt.trans_le (Nat.pow_le_pow_right (by decide) (List.length_take_le _ _))

theorem parseU32_agrees {hi : ℕ} (w : ℕ) (hhi : hi = lo + w)
    (hlen : hi ≤ digits.length) (hw : w ≤ 4) :
    Agrees (parseU32 digits lo hi) ((Core.parseU32 (slice digits lo w)).map Nat.cast) := by
  subst hhi
  have hslice : (slice digits lo w).length = w := by
    rw [slice, List.length_take, List.length_drop]
    omega
  apply Agrees.step (sliceAt_inside (Nat.le_add_right lo w) hlen)
  rw [Nat.add_sub_cancel_left]
  apply parseU32From_agrees _ 0
  rw [hslice, zero_add, one_mul]
  exact Nat.pow_le_pow_right (by decide) hw

theorem parseWithinYear_agrees {off : ℕ} (hy : year < 10000) (hoff : off + 10 ≤ digits.length) :
    Agrees (parseWithinYear year digits off) (Core.parseWithinYear year (digits.drop off)) := by
  have hfield : ∀ k, slice (digits.drop off) k 2 = slice digits (off + k) 2 := by
    intro k
    rw [slice, slice, List.drop_drop]
  unfold parseWithinYear Core.parseWithinYear
  simp only [hfield]
  apply Agrees.bindMap (parseU32_agrees 2 rfl (by omega) (by decide))
  intro month _
  apply Agrees.bindMap (parseU32_agrees 2 rfl (by omega) (by decide))
  intro day _
  apply Agrees.bindMap (parseU32_agrees 2 rfl (by omega) (by decide))
  intro hour _
  apply Agrees.bindMap (parseU32_agrees 2 rfl (by omega) (by decide))
  intro minute _
  apply Agrees.bindMap (parseU32_agrees 2 rfl (by omega) (by decide))
  intro second _
  exact gregorianToUnix_agrees month day hour minute second hy

theorem pivotYear_eq {yy : ℕ} (h : yy < 100) :
    pivotYear yy = some ((if yy < 50 then 2000 + yy else 1900 + yy : ℕ) : ℤ) := by
  unfold pivotYear
  by_cases hyy : yy < 50
  · rw [if_pos (by omega), if_pos hyy, fit_u32 (by omega) (by omega)]
    rfl
  · rw [if_neg (by omega), if_neg hyy, fit_u32 (by omega) (by omega)]
    rfl

theorem parseUtcTime_agrees : Agrees (parseUtcTime bytes) (Core.parseUtcTime bytes) := by
  apply Agrees.ite
  · intro _
    exact .error _
  intro hshape
  have hdigits : (bytes.take 12).length = 12 := List.length_take_of_le (by omega)
  apply Agrees.step (sliceAt_inside (by decide) (by omega))
  apply Agrees.ite
  · intro _
    exact .error _
  intro _
  apply Agrees.bindMap (parseU32_agrees 2 rfl (hdigits.ge.trans' (by decide)) (by decide))
  intro yy hyy
  apply Agrees.step (pivotYear_eq (parseU32_lt hyy))
  have hyear : (if yy < 50 then 2000 + yy else 1900 + yy) < 10000 := by
    have := parseU32_lt hyy
    split <;> omega
  apply Agrees.step (fit_i32 (by omega) (by omega))
  exact parseWithinYear_agrees hyear hdigits.ge

theorem parseGeneralizedTime_agrees :
    Agrees (parseGeneralizedTime bytes) (Core.parseGeneralizedTime bytes) := by
  apply Agrees.ite
  · intro _
    exact .error _
  intro hshape
  have hdigits : (bytes.take 14).length = 14 := List.length_take_of_le (by omega)
  apply Agrees.step (sliceAt_inside (by decide) (by omega))
  apply Agrees.ite
  · intro _
    exact .error _
  intro _
  apply Agrees.bindMap (parseU32_agrees 4 rfl (hdigits.ge.trans' (by decide)) (by decide))
  intro year hyear
  have hlt : year < 10000 := parseU32_lt hyear
  apply Agrees.step (fit_i32 (by omega) (by omega))
  exact parseWithinYear_agrees hlt hdigits.ge

end Desmos.Core.TimeArith

namespace Desmos.Core
open Library

section RealDates
variable (d : Date) (t : TimeOfDay)

def dateToUnix : Except X509Error UInt64 :=
  gregorianToUnix d.year d.month d.day t.hour t.minute t.second

variable {d}

theorem dateToUnix_eq (h : 1970 ≤ d.year) (h' : d.year ≤ 9999) : ∃ n s,
    Date.next^[n] epoch = d ∧ dateToUnix d t = .ok s ∧ s.toNat = n * 86400 + t.seconds := by
  have hyear : d.year < 10000 := Nat.lt_succ_of_le h'
  obtain ⟨n, hn, hdays⟩ := exists_days h
  have hrange := inRange_fieldsOf d t hyear
  have hfields : (fieldsOf d t hyear).days = n := hdays
  have hlt := hrange.days_lt
  have hsod : t.seconds < 86400 := hrange.secondOfDay_lt
  have hs : (UInt64.ofNat (n * 86400 + t.seconds)).toNat = n * 86400 + t.seconds :=
    UInt64.toNat_ofNat_of_lt' (show _ < 2 ^ 64 by omega)
  refine ⟨n, .ofNat (n * 86400 + t.seconds), hn, ?_, hs⟩
  apply (TimeFields.gregorianToUnix_ok_iff (f := fieldsOf d t hyear)).mpr
  refine ⟨hrange, by omega, ?_⟩
  rw [hs, hfields]
  rfl

theorem dateToUnix_early (h : d.year < 1970) : dateToUnix d t = .error .invalidTime := by
  unfold dateToUnix gregorianToUnix
  rw [if_pos (show daysFromCivil d.year d.month d.day < 0 from daysOf_neg h), ite_self]

theorem parseGeneralizedTime_date (h : d.year ≤ 9999) :
    parseGeneralizedTime (generalizedText d t) = dateToUnix d t :=
  (fieldsOf d t (Nat.lt_succ_of_le h)).parseGeneralizedTime_text

/-- Two digits are enough for a hundred years. -/
theorem parseUtcTime_date (h : 1950 ≤ d.year) (h' : d.year ≤ 2049) :
    parseUtcTime (utcText d t) = dateToUnix d t := by
  have hpivot : (if d.year % 100 < 50 then 2000 + d.year % 100 else 1900 + d.year % 100) =
      d.year := by
    split <;> omega
  have hparse := (fieldsOf d t (by omega)).parseUtcTime_text
  rw [show (fieldsOf d t (by omega)).year = d.year from rfl, hpivot] at hparse
  exact hparse

end RealDates

/-- Times are the seconds since the epoch counted day by day, earlier dates are rejected, and no
operation of the parsers leaves its type on any bytes. -/
theorem certificate_times_correct (d : Date) (t : TimeOfDay) :
    (1970 ≤ d.year → d.year ≤ 9999 → ∃ n s, Date.next^[n] epoch = d ∧
      parseGeneralizedTime (generalizedText d t) = .ok s ∧ s.toNat = n * 86400 + t.seconds) ∧
    (1970 ≤ d.year → d.year ≤ 2049 → ∃ n s, Date.next^[n] epoch = d ∧
      parseUtcTime (utcText d t) = .ok s ∧ s.toNat = n * 86400 + t.seconds) ∧
    (d.year < 1970 → parseGeneralizedTime (generalizedText d t) = .error .invalidTime) ∧
    (1950 ≤ d.year → d.year < 1970 → parseUtcTime (utcText d t) = .error .invalidTime) ∧
    ∀ bytes, Agrees (TimeArith.parseGeneralizedTime bytes) (parseGeneralizedTime bytes) ∧
      Agrees (TimeArith.parseUtcTime bytes) (parseUtcTime bytes) := by
  refine ⟨?_, ?_, ?_, ?_, ?_⟩
  · intro h h'
    rw [parseGeneralizedTime_date t h']
    exact dateToUnix_eq t h h'
  · intro h h'
    rw [parseUtcTime_date t (by omega) h']
    exact dateToUnix_eq t h (by omega)
  · intro h
    rw [parseGeneralizedTime_date t (by omega)]
    exact dateToUnix_early t h
  · intro h h'
    rw [parseUtcTime_date t h (by omega)]
    exact dateToUnix_early t h'
  · intro bytes
    exact ⟨TimeArith.parseGeneralizedTime_agrees bytes, TimeArith.parseUtcTime_agrees bytes⟩

namespace Sample

def leapDay : Date := ⟨2024, 2, 29, by decide, by decide, by decide, by decide⟩
def lastSecond : TimeOfDay := ⟨23, 59, 59, by decide, by decide, by decide⟩

end Sample

theorem leap_day_converted : ∃ n s, Date.next^[n] epoch = Sample.leapDay ∧
    parseUtcTime (utcText Sample.leapDay Sample.lastSecond) = .ok s ∧
      s.toNat = n * 86400 + 86399 :=
  (certificate_times_correct Sample.leapDay Sample.lastSecond).2.1 (by decide) (by decide)

end Desmos.Core
