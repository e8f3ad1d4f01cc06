import Mathlib.Algebra.GroupWithZero.Nat
import Mathlib.Data.Int.Basic
import Mathlib.Tactic.Common

/-! The Gregorian calendar, extended to all years.  A date has a year, a month from 0 to 11 and a day
of the month from 1 on; days are numbered from the first day of the year 0. -/

namespace Lib

def isLeap (year : Int) : Bool := year % 4 = 0 && (year % 100 ≠ 0 || year % 400 = 0)

/-- The number of the first day of a year. -/
def firstDay (year : Int) : Int :=
  365 * year + (year + 3) / 4 - (year + 99) / 100 + (year + 399) / 400

/-- The year of a day.  The mean length of a year is off by less than a year. -/
def yearOfDay (n : Int) : Int :=
  let year := 400 * n / 146097
  if n < firstDay year then year - 1
  else if firstDay (year + 1) ≤ n then year + 1
  else year

def monthLengths (leap : Bool) : List Nat :=
  [31, if leap then 29 else 28, 31, 30, 31, 30, 31, 31, 30, 31, 30, 31]

/-- The stretch of the given lengths that `n` lies in, and how far from its beginning. -/
def locate : List Nat → Nat → Nat × Nat
  | [], n => (0, n)
  | length :: lengths, n =>
    if n < length then (0, n)
    else
      let (i, rest) := locate lengths (n - length)
      (i + 1, rest)

structure Date where
  year : Int
  month : Nat
  day : Nat
  deriving DecidableEq, Repr

/-- The date of a day. -/
def Date.ofDay (n : Int) : Date :=
  let year := yearOfDay n
  let (month, day) := locate (monthLengths (isLeap year)) (n - firstDay year).toNat
  ⟨year, month, day + 1⟩

/-- One date comes before another. -/
def Date.Before (d e : Date) : Prop :=
  d.year < e.year ∨ d.year = e.year ∧ (d.month < e.month ∨ d.month = e.month ∧ d.day < e.day)

/-! ### Days and years -/

theorem firstDay_succ (year : Int) :
    firstDay (year + 1) = firstDay year + if isLeap year then 366 else 365 := by
  unfold firstDay isLeap
  by_cases h4 : year % 4 = 0 <;> by_cases h100 : year % 100 = 0 <;>
    by_cases h400 : year % 400 = 0 <;> simp [h4, h100, h400] <;> omega

theorem firstDay_le {y z : Int} (h : y ≤ z) : firstDay y ≤ firstDay z := by
  unfold firstDay
  omega

/-- A day lies in its year. -/
theorem yearOfDay_spec (n : Int) :
    firstDay (yearOfDay n) ≤ n ∧ n < firstDay (yearOfDay n + 1) := by
  unfold yearOfDay
  dsimp only
  split
  · rename_i h
    rw [Int.sub_add_cancel]
    unfold firstDay at *
    omega
  · split
    · rename_i h
      unfold firstDay at *
      omega
    · omega

theorem yearOfDay_le {m n : Int} (h : m ≤ n) : yearOfDay m ≤ yearOfDay n := by
  by_contra hlt
  have hbefore := firstDay_le (show yearOfDay n + 1 ≤ yearOfDay m by omega)
  have hm := (yearOfDay_spec m).1
  have hn := (yearOfDay_spec n).2
  omega

/-! ### Days and months -/

/-- What lies further on is in a later stretch, or further on in the same one. -/
theorem locate_lt (lengths : List Nat) {m n : Nat} (h : m < n) :
    (locate lengths m).1 < (locate lengths n).1 ∨
      (locate lengths m).1 = (locate lengths n).1 ∧ (locate lengths m).2 < (locate lengths n).2 := by
  induction lengths generalizing m n with
  | nil => exact .inr ⟨rfl, h⟩
  | cons length lengths ih =>
    unfold locate
    by_cases hm : m < length
    · rw [if_pos hm]
      by_cases hn : n < length
      · rw [if_pos hn]
        exact .inr ⟨rfl, h⟩
      · rw [if_neg hn]
        exact .inl (Nat.succ_pos _)
    · rw [if_neg hm, if_neg (by omega)]
      rcases ih (m := m - length) (n := n - length) (by omega) with hlater | ⟨hsame, hfurther⟩
      · exact .inl (Nat.succ_lt_succ hlater)
      · exact .inr ⟨congrArg Nat.succ hsame, hfurther⟩

/-- Within the sum of the lengths there is a stretch. -/
theorem locate_spec (lengths : List Nat) {n : Nat} (h : n < lengths.sum) :
    ∃ length, lengths[(locate lengths n).1]? = some length ∧ (locate lengths n).2 < length := by
  induction lengths generalizing n with
  | nil => cases h
  | cons length lengths ih =>
    rw [List.sum_cons] at h
    unfold locate
    by_cases hn : n < length
    · rw [if_pos hn]
      exact ⟨length, rfl, hn⟩
    · rw [if_neg hn]
      exact ih (by omega)

theorem Date.ofDay_before {m n : Int} (h : m < n) : (Date.ofDay m).Before (Date.ofDay n) := by
  rcases Int.lt_or_eq_of_le (yearOfDay_le (Int.le_of_lt h)) with hyear | hyear
  · exact .inl hyear
  · refine .inr ⟨hyear, ?_⟩
    have hm := (yearOfDay_spec m).1
    have hlater : (m - firstDay (yearOfDay m)).toNat < (n - firstDay (yearOfDay n)).toNat := by
      rw [← hyear]
      omega
    unfold Date.ofDay
    rw [← hyear] at hlater ⊢
    rcases locate_lt (monthLengths (isLeap (yearOfDay m))) hlater with hmonth | hday
    · exact .inl hmonth
    · exact .inr ⟨hday.1, Nat.succ_lt_succ hday.2⟩

/-- A date has one of twelve months and one of at most 31 days. -/
theorem Date.ofDay_bounds (n : Int) :
    (Date.ofDay n).month < 12 ∧ 1 ≤ (Date.ofDay n).day ∧ (Date.ofDay n).day ≤ 31 := by
  obtain ⟨hlow, hhigh⟩ := yearOfDay_spec n
  rw [firstDay_succ] at hhigh
  have hsum : (monthLengths (isLeap (yearOfDay n))).sum =
      if isLeap (yearOfDay n) then 366 else 365 := by
    cases isLeap (yearOfDay n) <;> rfl
  obtain ⟨length, hlength, hday⟩ := locate_spec
    (monthLengths (isLeap (yearOfDay n))) (n := (n - firstDay (yearOfDay n)).toNat)
    (by rw [hsum]; split <;> simp_all <;> omega)
  have hle : length ≤ 31 := by
    have hmem := List.mem_of_getElem? hlength
    have hall : ∀ leap, ∀ l ∈ monthLengths leap, l ≤ 31 := by decide
    exact hall _ length hmem
  exact ⟨(List.getElem?_eq_some_iff.mp hlength).1, Nat.succ_pos _,
    Nat.succ_le_of_lt (Nat.lt_of_lt_of_le hday hle)⟩

example : (Date.ofDay 719528, Date.ofDay 730544, Date.ofDay 3652424) =
    (⟨1970, 0, 1⟩, ⟨2000, 1, 29⟩, ⟨9999, 11, 31⟩) := by decide

end Lib
