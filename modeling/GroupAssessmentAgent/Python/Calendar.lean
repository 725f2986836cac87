import GroupAssessmentAgent.Python.Clock

/-!
# The calendar and the order of texts

`datetime.isoformat` of UTC instants of any year, counted in microseconds from 0000-03-01, with which the eras of the
Gregorian calendar begin. Years from March are made of days (`civilDate_eq`), so later days have later dates; numbers
of one width are ordered as texts as they are as numbers (`padded_lt`); and where the texts of two instants differ in
length, the sign after the seconds decides, `+` before `.`. So the texts are ordered as the instants
(`utcIsoformat_lt`).
-/

namespace GroupAssessmentAgent

/-! ### The order of texts -/

theorem append_lt_append {s t : Text} (h : s < t) (hlen : s.length = t.length) (u v : Text) : s ++ u < t ++ v := by
  induction s generalizing t with
  | nil =>
    obtain rfl := List.length_eq_zero_iff.1 hlen.symm
    exact absurd h (List.not_lt_nil [])
  | cons c s ih =>
    cases t with
    | nil => cases hlen
    | cons d t =>
      rw [List.cons_append, List.cons_append, List.cons_lt_cons_iff]
      rcases List.cons_lt_cons_iff.1 h with hlt | ⟨hcd, hlt⟩
      · exact .inl hlt
      · exact .inr ⟨hcd, ih hlt (Nat.succ.inj hlen)⟩

theorem natText_of_lt {n : Nat} (h : n < 10) : natText n = [Nat.digitChar n] := Nat.toDigits_of_lt_base h

theorem padded_succ {width : Nat} (hwidth : 0 < width) (n : Nat) :
    padded (width + 1) n = padded width (n / 10) ++ [Nat.digitChar (n % 10)] := by
  by_cases hn : n < 10
  · have hzeros : padded width 0 = List.replicate width '0' := by
      obtain ⟨w, rfl⟩ := Nat.exists_eq_succ_of_ne_zero (Nat.ne_of_gt hwidth)
      exact List.replicate_succ'.symm
    rw [Nat.div_eq_of_lt hn, Nat.mod_eq_of_lt hn, hzeros, padded, natText_of_lt hn]
    rfl
  · have hdigits : natText n = natText (n / 10) ++ [Nat.digitChar (n % 10)] :=
      Nat.toDigits_of_base_le (by decide) (Nat.le_of_not_lt hn)
    rw [padded, padded, hdigits, List.length_append, List.length_singleton, Nat.add_sub_add_right, List.append_assoc]

theorem digitChar_lt {m n : Nat} (h : m < n) (hn : n < 10) : Nat.digitChar m < Nat.digitChar n := by
  rw [Char.lt_def, UInt32.lt_iff_toNat_lt]
  show (Nat.digitChar m).toNat < (Nat.digitChar n).toNat
  rw [Nat.toNat_digitChar_of_lt_ten hn, Nat.toNat_digitChar_of_lt_ten (h.trans hn)]
  exact Nat.add_lt_add_left h 48

/-- **Numbers of one width** are ordered as texts as they are as numbers. -/
theorem padded_lt {width m n : Nat} (hwidth : 0 < width) (h : m < n) (hn : n < Nat.pow 10 width) :
    padded width m < padded width n := by
  induction width generalizing m n with
  | zero => cases hwidth
  | succ w ih =>
    rcases Nat.eq_zero_or_pos w with rfl | hw
    · have hten : n < 10 := hn
      have hone : ∀ k < 10, padded 1 k = [Nat.digitChar k] := fun k hk => by rw [padded, natText_of_lt hk]; rfl
      rw [hone m (h.trans hten), hone n hten]
      exact List.cons_lt_cons_iff.2 (.inl (digitChar_lt h hten))
    · have hfits : n / 10 < Nat.pow 10 w := Nat.div_lt_of_lt_mul (by rw [Nat.mul_comm]; exact hn)
      rw [padded_succ hw, padded_succ hw]
      rcases Nat.lt_or_eq_of_le (Nat.div_le_div_right h.le : m / 10 ≤ n / 10) with hlt | heq
      · have hlen : (padded w (m / 10)).length = (padded w (n / 10)).length :=
          ((padded_length_iff hw).2 (hlt.trans hfits)).trans ((padded_length_iff hw).2 hfits).symm
        exact append_lt_append (ih hw hlt hfits) hlen _ _
      · rw [heq]
        exact List.append_left_lt (List.cons_lt_cons_iff.2 (.inl (digitChar_lt (by omega) (by omega))))

/-! ### Dates -/

namespace Instant

/-- The day, counted from 0000-03-01, on which March of the year begins. -/
def marchFirst (year : Nat) : Nat := 365 * year + year / 4 - year / 100 + year / 400

/-- The civil date of a day of a year that begins in March. -/
def dateInYear (year dayOfYear : Nat) : Date :=
  let monthIndex := (5 * dayOfYear + 2) / 153
  let month := if monthIndex < 10 then monthIndex + 3 else monthIndex - 9
  ⟨year + (if month ≤ 2 then 1 else 0), month, dayOfYear - (153 * monthIndex + 2) / 5 + 1⟩

/-- The civil date of a day counted from 0000-03-01. -/
def civilDate (z : Nat) : Date :=
  let dayOfEra := z % 146097
  let yearOfEra := (dayOfEra - dayOfEra / 1460 + dayOfEra / 36524 - dayOfEra / 146096) / 365
  dateInYear (yearOfEra + z / 146097 * 400) (dayOfEra - (365 * yearOfEra + yearOfEra / 4 - yearOfEra / 100))

theorem dateOfDay_eq (days : Nat) : dateOfDay days = civilDate (days + 719468) := rfl

/-- A day of an era by its century, its four-year cycle, its year of the cycle and its day of the year. Only a year
that ends a cycle has 366 days, and the last year of a century does not, but for the fourth. -/
theorem dayOfEra_parts {dayOfEra : Nat} (h : dayOfEra < 146097) :
    ∃ c q r k, c ≤ 3 ∧ q ≤ 24 ∧ r ≤ 3 ∧ k ≤ 365 ∧ (k = 365 → r = 3 ∧ (q = 24 → c = 3)) ∧
      dayOfEra = 36524 * c + 1461 * q + 365 * r + k := by
  obtain ⟨c, n, hc, hn, hlast, rfl⟩ :
      ∃ c n, c ≤ 3 ∧ n ≤ 36524 ∧ (n = 36524 → c = 3) ∧ dayOfEra = 36524 * c + n := by
    by_cases hend : dayOfEra = 146096
    · exact ⟨3, 36524, by omega, by omega, by omega, by omega⟩
    · exact ⟨dayOfEra / 36524, dayOfEra % 36524, by omega, by omega, by omega, by omega⟩
  obtain ⟨r, k, hr, hk, hleap, hs⟩ : ∃ r k, r ≤ 3 ∧ k ≤ 365 ∧ (k = 365 → r = 3) ∧ n % 1461 = 365 * r + k := by
    by_cases hend : n % 1461 = 1460
    · exact ⟨3, 365, by omega, by omega, by omega, by omega⟩
    · exact ⟨n % 1461 / 365, n % 1461 % 365, by omega, by omega, by omega, by omega⟩
  refine ⟨c, n / 1461, r, k, hc, by omega, hr, hk, fun h => ⟨hleap h, fun hq => hlast ?_⟩, by omega⟩
  have hr := hleap h
  omega

theorem yearOfEra_eq {c q r k dayOfEra : Nat} (hc : c ≤ 3) (hq : q ≤ 24) (hr : r ≤ 3) (hk : k ≤ 365)
    (hleap : k = 365 → r = 3 ∧ (q = 24 → c = 3)) (hday : dayOfEra = 36524 * c + 1461 * q + 365 * r + k) :
    (dayOfEra - dayOfEra / 1460 + dayOfEra / 36524 - dayOfEra / 146096) / 365 = 100 * c + 4 * q + r := by
  by_cases hend : dayOfEra = 146096
  · subst hend
    omega
  · have hcenturies : dayOfEra / 36524 = c := by omega
    have hera : dayOfEra / 146096 = 0 := by omega
    -- the leap days so far, and one more near the end of a cycle
    have hcycles : dayOfEra / 1460 = 25 * c + q + (24 * c + q + 365 * r + k) / 1460 := by omega
    have hle : (24 * c + q + 365 * r + k) / 1460 ≤ 1 := by omega
    have hlast : k = 365 → 1 ≤ (24 * c + q + 365 * r + k) / 1460 := by omega
    have hpos : 1 ≤ (24 * c + q + 365 * r + k) / 1460 → 1 ≤ k := by omega
    rw [hcenturies, hera, hcycles]
    generalize (24 * c + q + 365 * r + k) / 1460 = extra at *
    omega

theorem marchFirst_eq {e c q r : Nat} (hc : c ≤ 3) (hq : q ≤ 24) (hr : r ≤ 3) :
    marchFirst (100 * c + 4 * q + r + e * 400) = 146097 * e + (36524 * c + 1461 * q + 365 * r) := by
  have h4 : (100 * c + 4 * q + r + e * 400) / 4 = 25 * c + q + 100 * e := by omega
  have h100 : (100 * c + 4 * q + r + e * 400) / 100 = c + 4 * e := by omega
  have h400 : (100 * c + 4 * q + r + e * 400) / 400 = e := by omega
  rw [marchFirst, h4, h100, h400]
  omega

theorem marchFirst_succ (year : Nat) : marchFirst year ≤ marchFirst (year + 1) := by
  have h4 : year / 4 ≤ (year + 1) / 4 := Nat.div_le_div_right (Nat.le_succ year)
  have h100 : (year + 1) / 100 ≤ year / 100 + 1 := by omega
  have h400 : year / 400 ≤ (year + 1) / 400 := Nat.div_le_div_right (Nat.le_succ year)
  rw [marchFirst, marchFirst]
  generalize (year + 1) / 100 = n at *
  omega

theorem marchFirst_le {a b : Nat} (h : a ≤ b) : marchFirst a ≤ marchFirst b := by
  induction h with
  | refl => exact le_rfl
  | step _ ih => exact ih.trans (marchFirst_succ _)

theorem lt_marchFirst_succ {e c q r k : Nat} (hc : c ≤ 3) (hq : q ≤ 24) (hr : r ≤ 3) (hk : k ≤ 365)
    (hleap : k = 365 → r = 3 ∧ (q = 24 → c = 3)) :
    146097 * e + (36524 * c + 1461 * q + 365 * r + k) < marchFirst (100 * c + 4 * q + r + e * 400 + 1) := by
  by_cases hr3 : r < 3
  · have hyear : 100 * c + 4 * q + r + e * 400 + 1 = 100 * c + 4 * q + (r + 1) + e * 400 := by omega
    rw [hyear, marchFirst_eq hc hq hr3]
    omega
  · by_cases hq24 : q < 24
    · have hyear : 100 * c + 4 * q + r + e * 400 + 1 = 100 * c + 4 * (q + 1) + 0 + e * 400 := by omega
      rw [hyear, marchFirst_eq hc hq24 (Nat.zero_le 3)]
      omega
    · by_cases hc3 : c < 3
      · have hyear : 100 * c + 4 * q + r + e * 400 + 1 = 100 * (c + 1) + 4 * 0 + 0 + e * 400 := by omega
        rw [hyear, marchFirst_eq hc3 (Nat.zero_le 24) (Nat.zero_le 3)]
        omega
      · have hyear : 100 * c + 4 * q + r + e * 400 + 1 = 100 * 0 + 4 * 0 + 0 + (e + 1) * 400 := by omega
        rw [hyear, marchFirst_eq (Nat.zero_le 3) (Nat.zero_le 24) (Nat.zero_le 3)]
        omega

/-- **The year of a day**: the day is in the year, counted from March, that its date is computed from. -/
theorem civilDate_eq (z : Nat) : ∃ year dayOfYear, civilDate z = dateInYear year dayOfYear ∧ dayOfYear ≤ 365 ∧
    z = marchFirst year + dayOfYear ∧ z < marchFirst (year + 1) := by
  have hera : z % 146097 < 146097 := Nat.mod_lt z (by decide)
  have hz : z = 146097 * (z / 146097) + z % 146097 := (Nat.div_add_mod z 146097).symm
  obtain ⟨c, q, r, k, hc, hq, hr, hk, hleap, hday⟩ := dayOfEra_parts hera
  have hyear := yearOfEra_eq hc hq hr hk hleap hday
  have hdayOfYear : z % 146097 - (365 * (100 * c + 4 * q + r) + (100 * c + 4 * q + r) / 4 -
      (100 * c + 4 * q + r) / 100) = k := by
    have h4 : (100 * c + 4 * q + r) / 4 = 25 * c + q := by omega
    have h100 : (100 * c + 4 * q + r) / 100 = c := by omega
    rw [h4, h100, hday]
    omega
  refine ⟨100 * c + 4 * q + r + z / 146097 * 400, k, ?_, hk, ?_, ?_⟩
  · show dateInYear ((z % 146097 - z % 146097 / 1460 + z % 146097 / 36524 - z % 146097 / 146096) / 365 +
      z / 146097 * 400) _ = _
    rw [hyear, hdayOfYear]
  · rw [marchFirst_eq hc hq hr]
    omega
  · have hlt := lt_marchFirst_succ (e := z / 146097) hc hq hr hk hleap
    omega

theorem dateInYear_months (year : Nat) {dayOfYear : Nat} (hday : dayOfYear ≤ 365) :
    (dateInYear year dayOfYear).month ≤ 12 ∧ 1 ≤ (dateInYear year dayOfYear).month ∧
      12 * (dateInYear year dayOfYear).year + (dateInYear year dayOfYear).month =
        12 * year + (5 * dayOfYear + 2) / 153 + 3 := by
  have hmonth : (5 * dayOfYear + 2) / 153 ≤ 11 := by omega
  unfold dateInYear
  generalize (5 * dayOfYear + 2) / 153 = monthIndex at hmonth
  dsimp only
  split_ifs <;> omega

theorem dateInYear_day (year : Nat) {j k : Nat} (h : j < k) (hmonth : (5 * j + 2) / 153 = (5 * k + 2) / 153) :
    (dateInYear year j).day < (dateInYear year k).day := by
  show j - (153 * ((5 * j + 2) / 153) + 2) / 5 + 1 < k - (153 * ((5 * k + 2) / 153) + 2) / 5 + 1
  rw [hmonth]
  omega

/-- One date is before another. -/
def Date.Before (d e : Date) : Prop :=
  d.year < e.year ∨ d.year = e.year ∧ (d.month < e.month ∨ d.month = e.month ∧ d.day < e.day)

/-- **Later days have later dates.** -/
theorem civilDate_before {y z : Nat} (h : y < z) : (civilDate y).Before (civilDate z) := by
  obtain ⟨a, j, hy, hj, hyday, hynext⟩ := civilDate_eq y
  obtain ⟨b, k, hz, hk, hzday, hznext⟩ := civilDate_eq z
  have hyears : a ≤ b := by
    by_contra hlt
    have hle : marchFirst (b + 1) ≤ marchFirst a := marchFirst_le (Nat.lt_of_not_le hlt)
    omega
  obtain ⟨hj12, hj1, hjmonths⟩ := dateInYear_months a hj
  obtain ⟨hk12, hk1, hkmonths⟩ := dateInYear_months b hk
  have hmonthJ : (5 * j + 2) / 153 ≤ 11 := by omega
  have hmonthK : (5 * k + 2) / 153 ≤ 11 := by omega
  have hdays : a = b → j < k := by
    rintro rfl
    omega
  rw [hy, hz, Date.Before]
  by_cases hmonths : 12 * a + (5 * j + 2) / 153 = 12 * b + (5 * k + 2) / 153
  · obtain rfl : a = b := by omega
    have hday := dateInYear_day a (hdays rfl) (by omega)
    omega
  · have hlt : 12 * a + (5 * j + 2) / 153 < 12 * b + (5 * k + 2) / 153 := by
      rcases Nat.lt_or_eq_of_le hyears with hlt | rfl
      · omega
      · have hle : (5 * j + 2) / 153 ≤ (5 * k + 2) / 153 := Nat.div_le_div_right (by have := hdays rfl; omega)
        omega
    omega

/-- The numbers of the date fit into the columns of its text. -/
structure Date.Fits (d : Date) : Prop where
  year : d.year < 10000
  month : d.month < 100
  day : d.day < 100

theorem civilDate_fits {z : Nat} (hyear : (civilDate z).year ≤ 9999) : (civilDate z).Fits := by
  obtain ⟨year, k, hz, hk, -⟩ := civilDate_eq z
  rw [hz] at hyear ⊢
  refine ⟨Nat.lt_succ_of_le hyear, by have := dateInYear_months year hk; omega, ?_⟩
  show k - (153 * ((5 * k + 2) / 153) + 2) / 5 + 1 < 100
  omega

/-! ### The text of an instant -/

/-- The text of `isoformat` for a date, a second of the day and its microseconds. -/
def isoText (d : Date) (s micros : Nat) : Text :=
  cat [padded 4 d.year, "-", padded 2 d.month, "-", padded 2 d.day, "T", padded 2 (s / 3600), ":",
    padded 2 (s / 60 % 60), ":", padded 2 (s % 60), if micros = 0 then "" else cat [".", padded 6 micros], "+00:00"]

theorem isoformat_eq (t : Instant) :
    t.isoformat = isoText t.date (t.seconds % secondsPerDay) (t % microsPerSecond) := rfl

theorem column_lt {width m n : Nat} (hwidth : 0 < width) (hm : m < Nat.pow 10 width) (hn : n < Nat.pow 10 width)
    {u v : Text} (h : m < n ∨ m = n ∧ u < v) : padded width m ++ u < padded width n ++ v := by
  rcases h with hlt | ⟨rfl, hrest⟩
  · have hlen : (padded width m).length = (padded width n).length :=
      ((padded_length_iff hwidth).2 hm).trans ((padded_length_iff hwidth).2 hn).symm
    exact append_lt_append (padded_lt hwidth hlt hn) hlen u v
  · exact List.append_left_lt hrest

def dateText (d : Date) (rest : Text) : Text :=
  padded 4 d.year ++ ("-" ++ (padded 2 d.month ++ ("-" ++ (padded 2 d.day ++ rest))))

def clockText (s : Nat) (rest : Text) : Text :=
  padded 2 (s / 3600) ++ (":" ++ (padded 2 (s / 60 % 60) ++ (":" ++ (padded 2 (s % 60) ++ rest))))

def endText (micros : Nat) : Text := cat [if micros = 0 then "" else cat [".", padded 6 micros], "+00:00"]

theorem isoText_eq (d : Date) (s micros : Nat) :
    isoText d s micros = dateText d ("T" ++ clockText s (endText micros)) := by
  simp only [isoText, dateText, clockText, endText, cat, List.flatten_cons, List.flatten_nil, List.append_nil]

theorem dateText_lt {d e : Date} (hd : d.Fits) (he : e.Fits) {u v : Text} (h : d.Before e ∨ d = e ∧ u < v) :
    dateText d u < dateText e v := by
  refine column_lt (by decide) hd.year he.year ?_
  rcases h with (hyear | ⟨hyear, hrest⟩) | ⟨rfl, hrest⟩
  · exact .inl hyear
  · refine .inr ⟨hyear, List.append_left_lt (column_lt (by decide) hd.month he.month ?_)⟩
    rcases hrest with hmonth | ⟨hmonth, hday⟩
    · exact .inl hmonth
    · exact .inr ⟨hmonth, List.append_left_lt (column_lt (by decide) hd.day he.day (.inl hday))⟩
  · refine .inr ⟨rfl, List.append_left_lt (column_lt (by decide) hd.month he.month (.inr ⟨rfl, ?_⟩))⟩
    exact List.append_left_lt (column_lt (by decide) hd.day he.day (.inr ⟨rfl, hrest⟩))

theorem clockText_lt {s r : Nat} (hs : s < secondsPerDay) (hr : r < secondsPerDay) {u v : Text}
    (h : s < r ∨ s = r ∧ u < v) : clockText s u < clockText r v := by
  have hsixty : ∀ n : Nat, n % 60 < Nat.pow 10 2 := fun n => (Nat.mod_lt n (by decide)).trans (by decide)
  have hhour : ∀ n < secondsPerDay, n / 3600 < Nat.pow 10 2 := fun n hn =>
    (Nat.div_lt_of_lt_mul (show n < 3600 * 24 from hn)).trans (by decide)
  refine column_lt (by decide) (hhour s hs) (hhour r hr) ?_
  rcases h with hlt | ⟨rfl, hrest⟩
  · have hfields : s / 3600 < r / 3600 ∨ s / 3600 = r / 3600 ∧
        (s / 60 % 60 < r / 60 % 60 ∨ s / 60 % 60 = r / 60 % 60 ∧ s % 60 < r % 60) := by omega
    refine hfields.imp_right fun ⟨hhours, hminutes⟩ => ⟨hhours, List.append_left_lt ?_⟩
    refine column_lt (by decide) (hsixty _) (hsixty _) ?_
    refine hminutes.imp_right fun ⟨hminutes, hseconds⟩ => ⟨hminutes, List.append_left_lt ?_⟩
    exact column_lt (by decide) (hsixty s) (hsixty r) (.inl hseconds)
  · exact .inr ⟨rfl, List.append_left_lt (List.append_left_lt (List.append_left_lt
      (List.append_left_lt hrest)))⟩

/-- Without a fraction the offset follows, and `+` is before `.`. -/
theorem endText_lt {m n : Nat} (h : m < n) (hn : n < microsPerSecond) : endText m < endText n := by
  have hfraction : ∀ k, k ≠ 0 → endText k = '.' :: (padded 6 k ++ "+00:00") := fun k hk => by
    rw [endText, if_neg hk]
    simp [cat]
  have hfits : n < Nat.pow 10 6 := hn
  rw [hfraction n (Nat.ne_of_gt (Nat.zero_lt_of_lt h))]
  rcases Nat.eq_zero_or_pos m with rfl | hm
  · exact List.cons_lt_cons_iff.2 (.inl (by decide))
  · rw [hfraction m (Nat.ne_of_gt hm)]
    exact List.cons_lt_cons_iff.2 (.inr ⟨rfl, column_lt (by decide) (h.trans hfits) hfits (.inl h)⟩)

/-- `isoformat` of the instant that is `t` microseconds after 0000-03-01 00:00 UTC. -/
def utcIsoformat (t : Nat) : Text :=
  isoText (civilDate (t / microsPerSecond / secondsPerDay)) (t / microsPerSecond % secondsPerDay) (t % microsPerSecond)

/-- The year of that instant. -/
def utcYear (t : Nat) : Nat := (civilDate (t / microsPerSecond / secondsPerDay)).year

/-- **The texts are in the order of the instants**, with or without fractions of a second. -/
theorem utcIsoformat_lt {t₁ t₂ : Nat} (h : t₁ < t₂) (hyear₁ : utcYear t₁ ≤ 9999) (hyear₂ : utcYear t₂ ≤ 9999) :
    utcIsoformat t₁ < utcIsoformat t₂ := by
  have hsecond : ∀ t : Nat, t / microsPerSecond % secondsPerDay < secondsPerDay := fun t => Nat.mod_lt _ (by decide)
  rw [utcIsoformat, utcIsoformat, isoText_eq, isoText_eq]
  refine dateText_lt (civilDate_fits hyear₁) (civilDate_fits hyear₂) ?_
  have hdays : t₁ / microsPerSecond / secondsPerDay ≤ t₂ / microsPerSecond / secondsPerDay :=
    Nat.div_le_div_right (Nat.div_le_div_right h.le)
  rcases Nat.lt_or_eq_of_le hdays with hlt | heq
  · exact .inl (civilDate_before hlt)
  · have hparts : t₁ / microsPerSecond % secondsPerDay < t₂ / microsPerSecond % secondsPerDay ∨
        t₁ / microsPerSecond % secondsPerDay = t₂ / microsPerSecond % secondsPerDay ∧
          t₁ % microsPerSecond < t₂ % microsPerSecond := by
      rw [microsPerSecond, secondsPerDay] at *
      omega
    refine .inr ⟨by rw [heq], List.append_left_lt (clockText_lt (hsecond t₁) (hsecond t₂) ?_)⟩
    exact hparts.imp_right fun ⟨hs, hmicros⟩ => ⟨hs, endText_lt hmicros (Nat.mod_lt _ (by decide))⟩

/-- From 0000-03-01 to 1970-01-01. -/
def epoch : Nat := 719468 * secondsPerDay * microsPerSecond

theorem isoformat_shift (t : Instant) : t.isoformat = utcIsoformat (t + epoch) ∧ t.date.year = utcYear (t + epoch) := by
  have hseconds : (t + epoch) / microsPerSecond = t.seconds + 719468 * secondsPerDay :=
    Nat.add_mul_div_right t _ (by decide)
  have hdays : (t + epoch) / microsPerSecond / secondsPerDay = t.seconds / secondsPerDay + 719468 := by
    rw [hseconds, Nat.add_mul_div_right _ _ (by decide)]
  have hsecond : (t + epoch) / microsPerSecond % secondsPerDay = t.seconds % secondsPerDay := by
    rw [hseconds, Nat.add_mul_mod_self_right]
  have hmicros : (t + epoch) % microsPerSecond = t % microsPerSecond := Nat.add_mul_mod_self_right t _ _
  rw [isoformat_eq, utcIsoformat, utcYear, hdays, hsecond, hmicros, ← dateOfDay_eq]
  exact ⟨rfl, rfl⟩

theorem isoformat_lt {t₁ t₂ : Instant} (h : t₁ < t₂) (hyear₁ : t₁.date.year ≤ 9999) (hyear₂ : t₂.date.year ≤ 9999) :
    t₁.isoformat < t₂.isoformat := by
  obtain ⟨htext₁, hdate₁⟩ := isoformat_shift t₁
  obtain ⟨htext₂, hdate₂⟩ := isoformat_shift t₂
  rw [htext₁, htext₂]
  exact utcIsoformat_lt (Nat.add_lt_add_right h epoch) (hdate₁ ▸ hyear₁) (hdate₂ ▸ hyear₂)

end Instant

end GroupAssessmentAgent
