/-
The months of the proleptic Gregorian calendar, in UTC, as days from the first day of year 1.
-/
import Mathlib

namespace StreetJS.Lib.Calendar

def isLeap (year : Int) : Bool := year % 4 = 0 && (year % 100 ≠ 0 || year % 400 = 0)

def yearStart (year : Int) : Int := 365 * (year - 1) + (year - 1) / 4 - (year - 1) / 100 + (year - 1) / 400

/-- The length of a month, counted from 0. -/
def monthLength (leap : Bool) : Nat → Nat
  | 1 => if leap then 29 else 28
  | 3 | 5 | 8 | 10 => 30
  | _ => 31

/-- The first day of a month in its year. -/
def monthStart (leap : Bool) : Nat → Nat
  | 0 => 0
  | m + 1 => monthStart leap m + monthLength leap m

/-- Months are numbered through: month `m` of year `y` is `12 * y + m`. -/
def firstOfMonth (month : Int) : Int :=
  yearStart (month / 12) + monthStart (isLeap (month / 12)) (month % 12).toNat

/-- The year of a day: the mean length of a year gives it, or the one before or after. -/
def yearOf (day : Int) : Int :=
  let year := 400 * day / 146097 + 1
  if day < yearStart year then year - 1 else if day < yearStart (year + 1) then year else year + 1

/-- The last month up to `m` that has begun on a day of the year. -/
def monthIn (leap : Bool) (day : Int) : Nat → Nat
  | 0 => 0
  | m + 1 => if monthStart leap (m + 1) ≤ day then m + 1 else monthIn leap day m

def monthOf (day : Int) : Int :=
  12 * yearOf day + monthIn (isLeap (yearOf day)) (day - yearStart (yearOf day)) 11

/-! ## The order of months -/

theorem yearStart_succ (year : Int) : yearStart (year + 1) = yearStart year + if isLeap year then 366 else 365 := by
  unfold yearStart isLeap
  by_cases h4 : year % 4 = 0 <;> by_cases h100 : year % 100 = 0 <;> by_cases h400 : year % 400 = 0 <;>
    simp only [h4, h100, h400, decide_true, decide_false, Bool.true_and, Bool.false_and, Bool.or_true, Bool.or_false,
      ne_eq, not_true, not_false_iff, if_true, if_false, Bool.false_eq_true] <;> omega

theorem monthLength_pos (leap : Bool) (m : Nat) : 0 < monthLength leap m := by
  unfold monthLength
  split
  · split <;> omega
  all_goals omega

theorem monthStart_last (leap : Bool) : monthStart leap 12 = if leap then 366 else 365 := by cases leap <;> rfl

/-- **A month begins after the one before.** -/
theorem firstOfMonth_lt_succ (month : Int) : firstOfMonth month < firstOfMonth (month + 1) := by
  unfold firstOfMonth
  by_cases hlast : month % 12 = 11
  · -- a new year
    have hyear : (month + 1) / 12 = month / 12 + 1 := by omega
    have hmonth : (month + 1) % 12 = 0 := by omega
    have hend := monthStart_last (isLeap (month / 12))
    have hstep : monthStart (isLeap (month / 12)) 12 = monthStart (isLeap (month / 12)) 11 + monthLength (isLeap (month / 12)) 11 := rfl
    have hpos := monthLength_pos (isLeap (month / 12)) 11
    rw [hyear, hmonth, hlast, yearStart_succ]
    have heleven : (11 : Int).toNat = 11 := rfl
    split at hend <;> simp_all only [if_true, if_false, Bool.false_eq_true] <;> omega
  · have hyear : (month + 1) / 12 = month / 12 := by omega
    have hmonth : ((month + 1) % 12).toNat = (month % 12).toNat + 1 := by omega
    have hpos := monthLength_pos (isLeap (month / 12)) (month % 12).toNat
    rw [hyear, hmonth, monthStart]
    omega

theorem firstOfMonth_lt_add (month : Int) : ∀ n : Nat, firstOfMonth month < firstOfMonth (month + (n + 1 : Nat))
  | 0 => firstOfMonth_lt_succ month
  | n + 1 => by
    have hstep := firstOfMonth_lt_succ (month + (n + 1 : Nat))
    have heq : month + ((n + 1 + 1 : Nat) : Int) = month + ((n + 1 : Nat) : Int) + 1 := by omega
    rw [heq]
    exact Int.lt_trans (firstOfMonth_lt_add month n) hstep

theorem firstOfMonth_strictMono : StrictMono firstOfMonth := by
  intro m n h
  obtain ⟨k, rfl⟩ : ∃ k : Nat, n = m + (k + 1 : Nat) := ⟨(n - m - 1).toNat, by omega⟩
  exact firstOfMonth_lt_add m k

/-! ## The month of a day -/

theorem yearOf_spec (day : Int) : yearStart (yearOf day) ≤ day ∧ day < yearStart (yearOf day + 1) := by
  unfold yearOf
  dsimp only
  split
  · rename_i h
    refine ⟨?_, by rwa [Int.sub_add_cancel]⟩
    unfold yearStart
    omega
  · rename_i h
    split
    · rename_i h'
      exact ⟨by omega, h'⟩
    · rename_i h'
      refine ⟨by omega, ?_⟩
      unfold yearStart
      omega

theorem monthIn_le (leap : Bool) (day : Int) (m : Nat) : monthIn leap day m ≤ m := by
  induction m with
  | zero => exact le_rfl
  | succ m ih =>
    unfold monthIn
    split
    · exact le_rfl
    · omega

theorem monthIn_spec (leap : Bool) {day : Int} (h : 0 ≤ day) : ∀ {m : Nat}, day < monthStart leap (m + 1) →
    monthStart leap (monthIn leap day m) ≤ day ∧ day < monthStart leap (monthIn leap day m + 1)
  | 0, hlt => ⟨h, hlt⟩
  | m + 1, hlt => by
    unfold monthIn
    split
    · rename_i hle
      exact ⟨hle, hlt⟩
    · rename_i hle
      exact monthIn_spec leap h (by omega)

theorem firstOfMonth_of_month (year : Int) {m : Nat} (h : m ≤ 11) :
    firstOfMonth (12 * year + m) = yearStart year + monthStart (isLeap year) m := by
  have hyear : (12 * year + (m : Int)) / 12 = year := by omega
  have hmonth : ((12 * year + (m : Int)) % 12).toNat = m := by omega
  unfold firstOfMonth
  rw [hyear, hmonth]

theorem firstOfMonth_succ (year : Int) {m : Nat} (h : m ≤ 11) :
    firstOfMonth (12 * year + m + 1) = yearStart year + monthStart (isLeap year) (m + 1) := by
  rcases Nat.lt_or_eq_of_le h with hlt | rfl
  · rw [show 12 * year + (m : Int) + 1 = 12 * year + ((m + 1 : Nat) : Int) by omega]
    exact firstOfMonth_of_month year hlt
  · have hzero : monthStart (isLeap (year + 1)) 0 = 0 := rfl
    rw [show 12 * year + ((11 : Nat) : Int) + 1 = 12 * (year + 1) + (0 : Nat) by omega,
      firstOfMonth_of_month (year + 1) (Nat.zero_le _), yearStart_succ, monthStart_last, hzero]
    split <;> omega

/-- **A day lies in its month.** -/
theorem monthOf_spec (day : Int) : firstOfMonth (monthOf day) ≤ day ∧ day < firstOfMonth (monthOf day + 1) := by
  obtain ⟨hstart, hend⟩ := yearOf_spec day
  rw [yearStart_succ] at hend
  have hin := monthIn_le (isLeap (yearOf day)) (day - yearStart (yearOf day)) 11
  have hyear : day - yearStart (yearOf day) < monthStart (isLeap (yearOf day)) (11 + 1) := by
    rw [monthStart_last]
    split at hend <;> simp_all only [if_true, if_false, Bool.false_eq_true] <;> omega
  have hspec := monthIn_spec (isLeap (yearOf day)) (by omega) hyear
  unfold monthOf
  rw [firstOfMonth_of_month _ hin, firstOfMonth_succ _ hin]
  omega

theorem monthOf_eq {day month : Int} (h : firstOfMonth month ≤ day) (h' : day < firstOfMonth (month + 1)) : monthOf day = month := by
  obtain ⟨hfirst, hnext⟩ := monthOf_spec day
  have hle : monthOf day < month + 1 := firstOfMonth_strictMono.lt_iff_lt.1 (by omega)
  have hge : month < monthOf day + 1 := firstOfMonth_strictMono.lt_iff_lt.1 (by omega)
  omega

end StreetJS.Lib.Calendar
