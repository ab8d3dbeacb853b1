import DailyScheduler.Lib.Calendar
import Mathlib.Data.Nat.Find
import Mathlib.Order.Monotone.Basic

set_option autoImplicit false

/-! # The Gregorian calendar

Years and months of the dates, which `Lib/Calendar.lean` only numbers. The months of all years are
numbered from 0 on too: the month `k` is the month `k % 12 + 1` of the year `k / 12 + 1`, and begins after
`monthStart k` days. So a date is in the month with the last beginning before it, the months after and
before a month are those with the neighbouring numbers, and what is to know of leap years is said once, in
`monthStart_succ`.
-/

namespace Calendar

/-! ## Blocks of varying length -/

section Blocks

variable {start : Nat → Nat} {bound n k : Nat}

/-- The last block, up to `bound`, that begins before the number `n`. -/
def blockOf (start : Nat → Nat) (bound n : Nat) : Nat := Nat.findGreatest (fun k => start k < n) bound

theorem blockOf_spec (hfirst : start 0 < n) (hlast : n ≤ start (bound + 1)) :
    start (blockOf start bound n) < n ∧ n ≤ start (blockOf start bound n + 1) := by
  have hspec : start (blockOf start bound n) < n :=
    Nat.findGreatest_spec (P := fun k => start k < n) (Nat.zero_le bound) hfirst
  refine ⟨hspec, ?_⟩
  by_contra hnext
  have hle : blockOf start bound n ≤ bound := Nat.findGreatest_le bound
  by_cases hbound : blockOf start bound n + 1 ≤ bound
  · have hno : ¬ start (blockOf start bound n + 1) < n :=
      Nat.findGreatest_is_greatest (P := fun k => start k < n) (Nat.lt_succ_self _) hbound
    omega
  · have heq : blockOf start bound n = bound := by omega
    rw [heq] at hnext
    omega

/-- The block of a number is the one it lies in. -/
theorem blockOf_eq_iff (hstart : ∀ k, start k < start (k + 1)) (hfirst : start 0 < n)
    (hlast : n ≤ start (bound + 1)) :
    blockOf start bound n = k ↔ start k < n ∧ n ≤ start (k + 1) := by
  have hmono : Monotone start := (strictMono_nat_of_lt_succ hstart).monotone
  obtain ⟨hlt, hle⟩ := blockOf_spec hfirst hlast
  constructor
  · rintro rfl
    exact ⟨hlt, hle⟩
  · rintro ⟨hlt', hle'⟩
    rcases Nat.lt_trichotomy (blockOf start bound n) k with hbelow | heq | habove
    · have hbad := hmono (show blockOf start bound n + 1 ≤ k from hbelow)
      omega
    · exact heq
    · have hbad := hmono (show k + 1 ≤ blockOf start bound n from habove)
      omega

end Blocks

/-! ## Years and months -/

def isLeap (year : Nat) : Bool := decide (year % 4 = 0 ∧ (year % 100 ≠ 0 ∨ year % 400 = 0))

/-- The days of the years before a year. -/
def daysBeforeYear (year : Nat) : Nat :=
  365 * (year - 1) + (year - 1) / 4 - (year - 1) / 100 + (year - 1) / 400

def monthLength (year month : Nat) : Nat :=
  if month = 2 then if isLeap year then 29 else 28
  else if month = 4 ∨ month = 6 ∨ month = 9 ∨ month = 11 then 30
  else 31

/-- The days of the first months of a year. -/
def daysOfMonths (year months : Nat) : Nat :=
  ((List.range months).map fun m => monthLength year (m + 1)).sum

/-- The days before the month `k`. -/
def monthStart (k : Nat) : Nat := daysBeforeYear (k / 12 + 1) + daysOfMonths (k / 12 + 1) (k % 12)

theorem daysOfMonths_succ (year months : Nat) :
    daysOfMonths year (months + 1) = daysOfMonths year months + monthLength year (months + 1) := by
  simp [daysOfMonths, List.range_succ]

theorem daysOfMonths_year (year : Nat) :
    daysOfMonths year 12 = if isLeap year then 366 else 365 := by
  cases hleap : isLeap year with
  | true => simp [daysOfMonths, List.range_succ, monthLength, hleap]
  | false => simp [daysOfMonths, List.range_succ, monthLength, hleap]

theorem daysBeforeYear_succ (y : Nat) :
    daysBeforeYear (y + 2) = daysBeforeYear (y + 1) + if isLeap (y + 1) then 366 else 365 := by
  have hdiv : ∀ n, 0 < n → (y + 1) / n = y / n + if (y + 1) % n = 0 then 1 else 0 := by
    intro n _
    rw [Nat.succ_div]
    simp only [Nat.dvd_iff_mod_eq_zero]
  have hleap : isLeap (y + 1) = decide ((y + 1) % 4 = 0 ∧ ((y + 1) % 100 ≠ 0 ∨ (y + 1) % 400 = 0)) :=
    rfl
  -- what is divided by 400 is divided by 100, and that by 4
  have h400 : (y + 1) % 400 = 0 → (y + 1) % 100 = 0 := by omega
  have h100 : (y + 1) % 100 = 0 → (y + 1) % 4 = 0 := by omega
  have hle : y / 100 ≤ y / 4 := by omega
  have hbefore : daysBeforeYear (y + 2)
      = 365 * (y + 1) + (y + 1) / 4 - (y + 1) / 100 + (y + 1) / 400 := rfl
  have hbefore' : daysBeforeYear (y + 1) = 365 * y + y / 4 - y / 100 + y / 400 := rfl
  rw [hbefore, hbefore', hleap, hdiv 4 (by decide), hdiv 100 (by decide), hdiv 400 (by decide)]
  clear hbefore hbefore' hdiv hleap
  generalize y / 4 = q at hle ⊢
  generalize y / 100 = c at hle ⊢
  generalize y / 400 = f
  by_cases h₄ : (y + 1) % 4 = 0
  · by_cases h₁ : (y + 1) % 100 = 0
    · by_cases h₀ : (y + 1) % 400 = 0
      · simp only [h₄, h₁, h₀, if_true, ne_eq, not_true_eq_false, or_true, and_self, decide_true]
        omega
      · simp only [h₄, h₁, h₀, if_true, if_false, ne_eq, not_true_eq_false, or_self, and_false,
          decide_false, Bool.false_eq_true]
        omega
    · have h₀ : ¬ (y + 1) % 400 = 0 := fun h => h₁ (h400 h)
      simp only [h₄, h₁, h₀, if_true, if_false, ne_eq, not_false_eq_true, or_false, and_self,
        decide_true]
      omega
  · have h₁ : ¬ (y + 1) % 100 = 0 := fun h => h₄ (h100 h)
    have h₀ : ¬ (y + 1) % 400 = 0 := fun h => h₁ (h400 h)
    simp only [h₄, h₁, h₀, if_false, false_and, decide_false, Bool.false_eq_true]
    omega

/-- Where a month ends the next one begins. -/
theorem monthStart_succ (k : Nat) :
    monthStart (k + 1) = monthStart k + monthLength (k / 12 + 1) (k % 12 + 1) := by
  unfold monthStart
  by_cases hlast : k % 12 = 11
  · -- the last month of a year
    have hyear : (k + 1) / 12 = k / 12 + 1 := by omega
    have hmonth : (k + 1) % 12 = 0 := by omega
    have hdays := daysOfMonths_succ (k / 12 + 1) 11
    rw [daysOfMonths_year] at hdays
    rw [hyear, hmonth, hlast, daysBeforeYear_succ, hdays]
    simp only [daysOfMonths, List.range_zero, List.map_nil, List.sum_nil]
    omega
  · have hyear : (k + 1) / 12 = k / 12 := by omega
    have hmonth : (k + 1) % 12 = k % 12 + 1 := by omega
    rw [hyear, hmonth, daysOfMonths_succ]
    omega

theorem monthLength_bounds (year month : Nat) :
    28 ≤ monthLength year month ∧ monthLength year month ≤ 31 := by
  unfold monthLength
  split
  · split <;> omega
  · split <;> omega

theorem monthStart_lt (k : Nat) : monthStart k < monthStart (k + 1) := by
  have hlength := monthLength_bounds (k / 12 + 1) (k % 12 + 1)
  rw [monthStart_succ]
  omega

theorem monthStart_mono : Monotone monthStart := (strictMono_nat_of_lt_succ monthStart_lt).monotone

theorem le_monthStart (k : Nat) : 28 * k ≤ monthStart k := by
  induction k with
  | zero => exact Nat.zero_le _
  | succ k ih =>
      have hlength := monthLength_bounds (k / 12 + 1) (k % 12 + 1)
      rw [monthStart_succ]
      omega

/-- The number of months of the calendar. -/
def monthCount : Nat := 119988

theorem monthStart_zero : monthStart 0 = 0 := by decide

theorem monthStart_last : (monthStart monthCount : Int) = lastOrdinal := by decide

/-! ## The month of a date -/

namespace Date

/-- The number of the month; no month is shorter than 28 days. -/
def monthIndex (d : Date) : Nat := blockOf monthStart (d.ordinal.toNat / 28) d.ordinal.toNat

def year (d : Date) : Nat := d.monthIndex / 12 + 1

def month (d : Date) : Nat := d.monthIndex % 12 + 1

def day (d : Date) : Int := d.ordinal - monthStart d.monthIndex

theorem monthIndex_eq_iff {d : Date} {k : Nat} :
    d.monthIndex = k ↔ (monthStart k : Int) < d.ordinal ∧ d.ordinal ≤ monthStart (k + 1) := by
  have hpos := d.pos
  have hlong := le_monthStart (d.ordinal.toNat / 28 + 1)
  unfold monthIndex
  rw [blockOf_eq_iff monthStart_lt]
  · omega
  · rw [monthStart_zero]
    omega
  · omega

theorem monthIndex_lt (d : Date) : d.monthIndex < monthCount := by
  have hle := d.le_last
  have hlast := monthStart_last
  obtain ⟨hlt, -⟩ := monthIndex_eq_iff.1 (rfl : d.monthIndex = d.monthIndex)
  by_contra hcount
  have hmono := monthStart_mono (Nat.le_of_not_lt hcount)
  omega

/-- Year and month tell the number of the month. -/
theorem monthIndex_eq (d : Date) : d.monthIndex = 12 * (d.year - 1) + (d.month - 1) := by
  unfold year month
  omega

/-- `date(year, month, 1)`: the first of a month, if the calendar has it. -/
def firstOf (year month : Int) : Option Date :=
  if 1 ≤ year ∧ year ≤ 9999 ∧ 1 ≤ month ∧ month ≤ 12 then
    ofOrdinal (monthStart (12 * (year - 1) + (month - 1)).toNat + 1)
  else none

theorem firstOf_eq_some {year month : Int} {d : Date} :
    firstOf year month = some d ↔ (1 ≤ year ∧ year ≤ 9999 ∧ 1 ≤ month ∧ month ≤ 12) ∧
      d.ordinal = monthStart (12 * (year - 1) + (month - 1)).toNat + 1 := by
  unfold firstOf
  split
  · rename_i hvalid
    rw [ofOrdinal_eq_some]
    exact ⟨fun h => ⟨hvalid, h⟩, And.right⟩
  · rename_i hvalid
    exact ⟨fun h => (nomatch h), fun h => absurd h.1 hvalid⟩

/-- Each month of the calendar has a first. -/
theorem firstOf_isSome {year month : Int}
    (h : 1 ≤ year ∧ year ≤ 9999 ∧ 1 ≤ month ∧ month ≤ 12) : ∃ d, firstOf year month = some d := by
  have hlt : (12 * (year - 1) + (month - 1)).toNat < monthCount := by
    unfold monthCount
    omega
  have hmono := monthStart_mono (show (12 * (year - 1) + (month - 1)).toNat + 1 ≤ monthCount from hlt)
  have hstart := monthStart_lt (12 * (year - 1) + (month - 1)).toNat
  have hlast := monthStart_last
  cases hfirst : firstOf year month with
  | some d => exact ⟨d, rfl⟩
  | none =>
      unfold firstOf at hfirst
      rw [if_pos h, ofOrdinal_eq_none] at hfirst
      omega

/-- The dates of a month are those from its first on. -/
theorem monthIndex_eq_iff_of_firstOf {year month : Int} {first d : Date}
    (h : firstOf year month = some first) :
    d.monthIndex = (12 * (year - 1) + (month - 1)).toNat ↔
      first.ordinal ≤ d.ordinal ∧
        d.ordinal < first.ordinal +
          monthLength ((12 * (year - 1) + (month - 1)).toNat / 12 + 1)
            ((12 * (year - 1) + (month - 1)).toNat % 12 + 1) := by
  have hord := (firstOf_eq_some.1 h).2
  rw [monthIndex_eq_iff, monthStart_succ]
  push_cast
  omega

end Date

end Calendar
