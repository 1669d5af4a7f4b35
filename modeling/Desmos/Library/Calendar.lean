import Mathlib.Tactic

/-! # The Gregorian calendar

Dates that exist, and the day after. Every later date is reached by going from day to day, so a
count that goes up by one each day orders the dates.
-/
namespace Desmos.Library

def isLeapYear (year : ℕ) : Bool := year % 4 == 0 && (year % 100 != 0 || year % 400 == 0)

def daysInMonth (year month : ℕ) : ℕ :=
  if month = 2 then if isLeapYear year then 29 else 28
  else if month = 4 ∨ month = 6 ∨ month = 9 ∨ month = 11 then 30
  else 31

theorem daysInMonth_pos (year month : ℕ) : 0 < daysInMonth year month := by
  unfold daysInMonth
  split_ifs <;> omega

theorem daysInMonth_le (year month : ℕ) : daysInMonth year month ≤ 31 := by
  unfold daysInMonth
  split_ifs <;> omega

/-- A date that exists. -/
@[ext]
structure Date where
  year : ℕ
  month : ℕ
  day : ℕ
  month_pos : 1 ≤ month
  month_le : month ≤ 12
  day_pos : 1 ≤ day
  day_le : day ≤ daysInMonth year month

namespace Date
variable {d e : Date}

theorem day_le_31 (d : Date) : d.day ≤ 31 := d.day_le.trans (daysInMonth_le d.year d.month)

def newYear (year : ℕ) : Date where
  year := year
  month := 1
  day := 1
  month_pos := le_rfl
  month_le := by decide
  day_pos := le_rfl
  day_le := daysInMonth_pos year 1

def firstOf (year month : ℕ) (hpos : 1 ≤ month) (hle : month ≤ 12) : Date where
  year := year
  month := month
  day := 1
  month_pos := hpos
  month_le := hle
  day_pos := le_rfl
  day_le := daysInMonth_pos year month

def lastOf (year month : ℕ) (hpos : 1 ≤ month) (hle : month ≤ 12) : Date where
  year := year
  month := month
  day := daysInMonth year month
  month_pos := hpos
  month_le := hle
  day_pos := daysInMonth_pos year month
  day_le := le_rfl

def next (d : Date) : Date :=
  if h : d.day < daysInMonth d.year d.month then
    { d with day := d.day + 1, day_pos := Nat.le_add_left 1 d.day, day_le := h }
  else if h : d.month < 12 then firstOf d.year (d.month + 1) (Nat.le_add_left 1 d.month) h
  else newYear (d.year + 1)

/-- Dates in their order, with gaps. -/
def rank (d : Date) : ℕ := d.year * 372 + (d.month - 1) * 31 + (d.day - 1)

theorem rank_inj (h : d.rank = e.rank) : d = e := by
  have := d.month_pos; have := d.month_le; have := d.day_pos; have := d.day_le_31
  have := e.month_pos; have := e.month_le; have := e.day_pos; have := e.day_le_31
  unfold rank at h
  apply Date.ext
  · omega
  · omega
  · omega

theorem next_lastOf {year month : ℕ} (hpos : 1 ≤ month) (hle : month ≤ 12) (h : month < 12) :
    (lastOf year month hpos hle).next = firstOf year (month + 1) (Nat.le_add_left 1 month) h := by
  simp [next, lastOf, h]

theorem next_lastOf_december (year : ℕ) :
    (lastOf year 12 (by decide) le_rfl).next = newYear (year + 1) := by
  simp [next, lastOf]

/-- The day before a date that is not the first of its month. -/
theorem exists_eq_next_of_day (h : 1 < d.day) : ∃ e : Date, e.next = d ∧ e.rank + 1 = d.rank := by
  have hle := d.day_le
  refine ⟨{ d with day := d.day - 1, day_pos := by omega, day_le := by omega }, ?_, ?_⟩
  · unfold next
    rw [dif_pos (show d.day - 1 < daysInMonth d.year d.month by omega)]
    exact Date.ext rfl rfl (Nat.sub_add_cancel d.day_pos)
  · unfold rank
    dsimp only
    omega

/-- The day before the first of a month. -/
theorem exists_eq_next_of_month (hday : d.day = 1) (h : 1 < d.month) : ∃ e : Date,
    e.next = d ∧ e.year = d.year ∧ e.month = d.month - 1 ∧
      e.day = daysInMonth d.year (d.month - 1) := by
  have hle := d.month_le
  refine ⟨lastOf d.year (d.month - 1) (by omega) (by omega), ?_, rfl, rfl, rfl⟩
  rw [next_lastOf _ _ (by omega)]
  exact Date.ext rfl (Nat.sub_add_cancel d.month_pos) hday.symm

/-- The day before a new year. -/
theorem exists_eq_next_of_year (hday : d.day = 1) (hmonth : d.month = 1) (h : 0 < d.year) :
    ∃ e : Date, e.next = d ∧ e.year = d.year - 1 ∧ e.month = 12 ∧ e.day = 31 := by
  refine ⟨lastOf (d.year - 1) 12 (by decide) le_rfl, ?_, rfl, rfl, rfl⟩
  exact Date.ext (Nat.sub_add_cancel h) hmonth.symm hday.symm

/-- A date behind another one has a day before it, which is not in front of the other one. -/
theorem exists_eq_next (h : e.rank < d.rank) :
    ∃ f : Date, f.next = d ∧ f.rank < d.rank ∧ e.rank ≤ f.rank := by
  have := d.month_pos; have := d.month_le; have := d.day_pos
  have := e.month_pos; have := e.month_le; have := e.day_pos; have := e.day_le_31
  by_cases hd : 1 < d.day
  · obtain ⟨f, hnext, hrank⟩ := exists_eq_next_of_day hd
    exact ⟨f, hnext, by omega, by omega⟩
  by_cases hm : 1 < d.month
  · obtain ⟨f, hnext, hyear, hmonth, hday⟩ := exists_eq_next_of_month (by omega) hm
    have hdim := daysInMonth_le d.year (d.month - 1)
    have hlast := e.day_le
    refine ⟨f, hnext, ?_, ?_⟩
    · unfold rank
      omega
    -- in the month before, no day is behind the last one
    · unfold rank at *
      by_cases hsame : e.year = d.year ∧ e.month = d.month - 1
      · rw [hsame.1, hsame.2] at hlast
        omega
      · omega
  · have hnew : d.day = 1 ∧ d.month = 1 := by omega
    have hlater : 0 < d.year := by
      unfold rank at h
      omega
    obtain ⟨f, hnext, hyear, hmonth, hday⟩ := exists_eq_next_of_year hnew.1 hnew.2 hlater
    refine ⟨f, hnext, ?_, ?_⟩
    · unfold rank
      omega
    · unfold rank at *
      omega

/-- Every later date is reached by going from day to day. -/
theorem exists_iterate_next (h : e.rank ≤ d.rank) : ∃ n, next^[n] e = d := by
  -- by the distance of the ranks, from the day before
  induction hk : d.rank using Nat.strong_induction_on generalizing d with
  | _ k ih =>
    rcases h.eq_or_lt with heq | hlt
    · exact ⟨0, rank_inj heq⟩
    · obtain ⟨f, hnext, hless, hle⟩ := exists_eq_next hlt
      obtain ⟨n, hn⟩ := ih f.rank (hk ▸ hless) hle rfl
      exact ⟨n + 1, by rw [Function.iterate_succ_apply', hn, hnext]⟩

section Counts
variable {count : Date → ℤ} (hcount : ∀ d : Date, count d.next = count d + 1)

include hcount

theorem count_iterate (n : ℕ) (d : Date) : count (next^[n] d) = count d + n := by
  induction n with
  | zero => simp
  | succ n ih =>
    rw [Function.iterate_succ_apply', hcount, ih]
    push_cast
    ring

/-- A count that goes up by one each day orders the dates. -/
theorem count_lt_iff : count d < count e ↔ d.rank < e.rank := by
  have hmono : ∀ {d e : Date}, d.rank ≤ e.rank → count d ≤ count e ∧ (d ≠ e → count d < count e) := by
    intro d e h
    obtain ⟨n, rfl⟩ := exists_iterate_next h
    rw [count_iterate hcount]
    refine ⟨by omega, fun hne => ?_⟩
    cases n with
    | zero => exact absurd rfl hne
    | succ n => push_cast; omega
  constructor
  · intro h
    by_contra hle
    exact absurd (hmono (not_lt.mp hle)).1 (not_le.mpr h)
  · intro h
    exact (hmono h.le).2 fun heq => h.ne (congrArg rank heq)

end Counts

end Date

end Desmos.Library
