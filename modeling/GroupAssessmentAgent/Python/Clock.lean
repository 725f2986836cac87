import GroupAssessmentAgent.Python.Text

/-!
# UTC instants

An instant is a number of microseconds since 1970-01-01 00:00 UTC. `Instant.date` is the civil date of its day and
`isoformat` the text `datetime.isoformat` writes for it. A timestamp column holds the instant its text is written
for, and is ordered by it.
-/

namespace GroupAssessmentAgent

abbrev Instant := Nat

namespace Instant

def microsPerSecond : Nat := 1000000
def secondsPerDay : Nat := 86400

structure Date where
  year : Nat
  month : Nat
  day : Nat
  deriving DecidableEq, Repr

/-- The civil date of a day counted from 1970-01-01, by eras of 400 years that start in March. -/
def dateOfDay (days : Nat) : Date :=
  let z := days + 719468
  let dayOfEra := z % 146097
  let yearOfEra := (dayOfEra - dayOfEra / 1460 + dayOfEra / 36524 - dayOfEra / 146096) / 365
  let dayOfYear := dayOfEra - (365 * yearOfEra + yearOfEra / 4 - yearOfEra / 100)
  let monthIndex := (5 * dayOfYear + 2) / 153
  let month := if monthIndex < 10 then monthIndex + 3 else monthIndex - 9
  ⟨yearOfEra + z / 146097 * 400 + (if month ≤ 2 then 1 else 0), month,
    dayOfYear - (153 * monthIndex + 2) / 5 + 1⟩

theorem dateOfDay_lt (days : Nat) : (dateOfDay days).month < 100 ∧ (dateOfDay days).day < 100 := by
  unfold dateOfDay
  have hera : (days + 719468) % 146097 < 146097 := Nat.mod_lt _ (by decide)
  generalize (days + 719468) % 146097 = dayOfEra at hera
  simp only
  generalize hyear : (dayOfEra - dayOfEra / 1460 + dayOfEra / 36524 - dayOfEra / 146096) / 365 = yearOfEra
  -- a rough bound is enough here
  have hday : dayOfEra - (365 * yearOfEra + yearOfEra / 4 - yearOfEra / 100) < 1000 := by omega
  generalize dayOfEra - (365 * yearOfEra + yearOfEra / 4 - yearOfEra / 100) = dayOfYear at hday
  refine ⟨?_, by omega⟩
  split_ifs <;> omega

def seconds (t : Instant) : Nat := t / microsPerSecond

def date (t : Instant) : Date := dateOfDay (t.seconds / secondsPerDay)

/-- `datetime.isoformat()` of an aware UTC datetime. -/
def isoformat (t : Instant) : Text :=
  let d := t.date
  let s := t.seconds % secondsPerDay
  let micros := t % microsPerSecond
  cat [padded 4 d.year, "-", padded 2 d.month, "-", padded 2 d.day, "T", padded 2 (s / 3600), ":",
    padded 2 (s / 60 % 60), ":", padded 2 (s % 60), if micros = 0 then "" else cat [".", padded 6 micros], "+00:00"]

end Instant

example : Instant.date 1786406400000000 = ⟨2026, 8, 11⟩ := by decide

end GroupAssessmentAgent
