import GroupAssessmentAgent.Python.Calendar

/-!
# Ordinals of dates

`date - timedelta` computes with the ordinals of dates, where 0001-01-01 has the ordinal 1. `Date.ordinal` is
`_ymd2ord` of `datetime`, and `Date.ofOrdinal` gives the date back (`ordinal_ofOrdinal`), in order (`ofOrdinal_before`).
-/

namespace GroupAssessmentAgent

namespace Instant.Date

/-- `_is_leap`. -/
def IsLeap (year : Nat) : Prop := year % 4 = 0 ∧ (year % 100 ≠ 0 ∨ year % 400 = 0)

instance (year : Nat) : Decidable (IsLeap year) := inferInstanceAs (Decidable (_ ∧ (_ ∨ _)))

/-- `_days_before_year`. -/
def daysBeforeYear (year : Nat) : Nat := 365 * (year - 1) + (year - 1) / 4 - (year - 1) / 100 + (year - 1) / 400

/-- `_days_before_month`. -/
def daysBeforeMonth (year month : Nat) : Nat :=
  [0, 31, 59, 90, 120, 151, 181, 212, 243, 273, 304, 334].getD (month - 1) 0 +
    if 2 < month ∧ IsLeap year then 1 else 0

/-- `_ymd2ord`. -/
def ordinal (d : Date) : Nat := daysBeforeYear d.year + daysBeforeMonth d.year d.month + d.day

/-- `date.fromordinal`. -/
def ofOrdinal (n : Nat) : Date := civilDate (n + 305)

/-- The ordinal of `date.max`. -/
def maxOrdinal : Nat := 3652059

theorem succ_div_eq (y d : Nat) : (y + 1) / d = y / d + if (y + 1) % d = 0 then 1 else 0 := by
  rw [Nat.succ_div]
  simp only [Nat.dvd_iff_mod_eq_zero]

/-- March of a year begins after the days of the years before, January, and February. -/
theorem daysBeforeYear_march {year : Nat} (hyear : 0 < year) :
    daysBeforeYear year + 59 + (if IsLeap year then 1 else 0) + 306 = marchFirst year := by
  obtain ⟨y, rfl⟩ := Nat.exists_eq_add_of_lt hyear
  rw [Nat.zero_add, daysBeforeYear, marchFirst, Nat.add_sub_cancel, succ_div_eq y 4,
    succ_div_eq y 100, succ_div_eq y 400]
  have hle : y / 100 ≤ y / 4 := by omega
  -- the leap day of the year is what its quotients add up to
  obtain ⟨hleap, hcentury⟩ : ((if IsLeap (y + 1) then 1 else 0) + if (y + 1) % 100 = 0 then 1 else 0) =
      ((if (y + 1) % 4 = 0 then 1 else 0) + if (y + 1) % 400 = 0 then 1 else 0) ∧
        (if (y + 1) % 100 = 0 then 1 else 0) ≤ if (y + 1) % 4 = 0 then 1 else 0 := by
    by_cases h4 : (y + 1) % 4 = 0 <;> by_cases h100 : (y + 1) % 100 = 0 <;> by_cases h400 : (y + 1) % 400 = 0 <;>
      simp [IsLeap, h4, h100, h400] <;> omega
  generalize (if IsLeap (y + 1) then 1 else 0) = leap at *
  generalize (if (y + 1) % 4 = 0 then 1 else 0) = four at *
  generalize (if (y + 1) % 100 = 0 then 1 else 0) = hundred at *
  generalize (if (y + 1) % 400 = 0 then 1 else 0) = fourHundred at *
  generalize y / 4 = a, y / 100 = b, y / 400 = c at *
  omega

theorem daysBeforeYear_succ (year : Nat) : daysBeforeYear (year + 1) = marchFirst year := rfl

theorem daysBeforeMonth_march (year : Nat) {monthIndex : Nat} (h : monthIndex < 10) :
    daysBeforeMonth year (monthIndex + 3) =
      59 + (if IsLeap year then 1 else 0) + (153 * monthIndex + 2) / 5 := by
  have hmonth : 2 < monthIndex + 3 := by omega
  have htable : ∀ k < 10, [0, 31, 59, 90, 120, 151, 181, 212, 243, 273, 304, 334].getD (k + 2) 0 =
      59 + (153 * k + 2) / 5 := by decide
  simp only [daysBeforeMonth, hmonth, true_and]
  rw [Nat.add_sub_assoc (by decide), htable monthIndex h]
  omega

theorem daysBeforeMonth_january (year : Nat) {monthIndex : Nat} (h : 10 ≤ monthIndex) (hle : monthIndex ≤ 11) :
    daysBeforeMonth year (monthIndex - 9) + 306 = (153 * monthIndex + 2) / 5 := by
  obtain rfl | rfl : monthIndex = 10 ∨ monthIndex = 11 := by omega
  · rfl
  · rfl

theorem ordinal_civilDate {z : Nat} (hz : 306 ≤ z) : (civilDate z).ordinal + 305 = z := by
  obtain ⟨year, k, hdate, hk, hday, -⟩ := civilDate_eq z
  have hmonth : (5 * k + 2) / 153 ≤ 11 := by omega
  have hfirst : (153 * ((5 * k + 2) / 153) + 2) / 5 ≤ k := by omega
  have hyear : 0 < year ∨ 10 ≤ (5 * k + 2) / 153 := by
    rcases Nat.eq_zero_or_pos year with rfl | hpos
    · have : marchFirst 0 = 0 := rfl
      omega
    · exact .inl hpos
  rw [hdate]
  unfold dateInYear
  generalize (5 * k + 2) / 153 = monthIndex at hmonth hfirst hyear
  simp only [ordinal]
  by_cases hlt : monthIndex < 10
  · have hpos : 0 < year := by omega
    have hmarch := daysBeforeYear_march hpos
    have hbefore := daysBeforeMonth_march year hlt
    have hlate : ¬ monthIndex + 3 ≤ 2 := by omega
    simp only [hlt, if_true, hlate, if_false, Nat.add_zero]
    omega
  · have hbefore := daysBeforeMonth_january (year + 1) (Nat.le_of_not_lt hlt) hmonth
    have hearly : monthIndex - 9 ≤ 2 := by omega
    simp only [hlt, if_false, hearly, if_true, daysBeforeYear_succ]
    omega

theorem ordinal_ofOrdinal {n : Nat} (hn : 1 ≤ n) : (ofOrdinal n).ordinal = n := by
  have h := ordinal_civilDate (z := n + 305) (by omega)
  rw [ofOrdinal]
  omega

theorem ofOrdinal_before {m n : Nat} (h : m < n) : (ofOrdinal m).Before (ofOrdinal n) :=
  civilDate_before (by omega)

example : (ofOrdinal 739839) = ⟨2026, 8, 11⟩ ∧ ordinal ⟨2026, 8, 11⟩ = 739839 := by decide

end Instant.Date

end GroupAssessmentAgent
