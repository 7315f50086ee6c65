import Bureau.Time.Calendar

/-!
Day numbers and dates belong to each other: the date with a day number exists and has that number.
-/

set_option autoImplicit false

namespace Bureau.Date

/-! ### Days of an era -/

/-- Positions of a day in an era of 400 years that begins with March: the century, the group of four
years in it, the year in the group and the day of the year. The last day of a year with a leap day
is day 365; a group that ends a century has none, unless the century ends the era. -/
structure IsEraDay (c q y r : Int) : Prop where
  century : 0 ≤ c ∧ c ≤ 3
  group : 0 ≤ q ∧ q ≤ 24
  year : 0 ≤ y ∧ y ≤ 3
  day_nonneg : 0 ≤ r
  day_le : r ≤ 364 ∨ (r = 365 ∧ y = 3 ∧ (q ≤ 23 ∨ c = 3))

private theorem exists_century {day : Int} (hday : 0 ≤ day ∧ day < 146097) :
    ∃ c d : Int, day = 36524 * c + d ∧ (0 ≤ c ∧ c ≤ 3) ∧ 0 ≤ d ∧
      (d ≤ 36523 ∨ (d = 36524 ∧ c = 3)) := by
  by_cases hlast : day = 146096
  · exact ⟨3, 36524, by omega, by omega, by omega, by omega⟩
  · exact ⟨day / 36524, day % 36524, by omega, by omega, by omega, by omega⟩

private theorem exists_year {d : Int} (hd : 0 ≤ d ∧ d < 1461) :
    ∃ y r : Int, d = 365 * y + r ∧ (0 ≤ y ∧ y ≤ 3) ∧ 0 ≤ r ∧ (r ≤ 364 ∨ (r = 365 ∧ y = 3)) := by
  by_cases hlast : d = 1460
  · exact ⟨3, 365, by omega, by omega, by omega, by omega⟩
  · exact ⟨d / 365, d % 365, by omega, by omega, by omega, by omega⟩

private theorem exists_isEraDay {day : Int} (hday : 0 ≤ day ∧ day < 146097) :
    ∃ c q y r : Int, day = 36524 * c + 1461 * q + 365 * y + r ∧ IsEraDay c q y r := by
  obtain ⟨c, d, rfl, hc, hd, hlast⟩ := exists_century hday
  obtain ⟨y, r, hyr, hy, hr, hleap⟩ := exists_year (d := d % 1461) (by omega)
  exact ⟨c, d / 1461, y, r, by omega, hc, by omega, hy, hr, by omega⟩

namespace IsEraDay

variable {c q y r : Int}

private theorem year_eq (h : IsEraDay c q y r) {day : Int}
    (hday : day = 36524 * c + 1461 * q + 365 * y + r) :
    (day - day / 1460 + day / 36524 - day / 146096) / 365 = 100 * c + 4 * q + y := by
  obtain ⟨hc, hq, hy, hr, hleap⟩ := h
  have hgroups : day / 1460 = 25 * c + q + (24 * c + q + 365 * y + r) / 1460 := by omega
  generalize hextra : (24 * c + q + 365 * y + r) / 1460 = extra at hgroups
  have hbit : extra = 0 ∨ extra = 1 := by omega
  by_cases hlast : day = 146096
  · subst hlast
    omega
  · have hcentury : day / 36524 = c := by omega
    have hera : day / 146096 = 0 := by omega
    rw [hgroups, hcentury, hera]
    rcases hbit with rfl | rfl
    · omega
    · omega

private theorem day_eq (h : IsEraDay c q y r) :
    36524 * c + 1461 * q + 365 * y + r - (365 * (100 * c + 4 * q + y) +
      (100 * c + 4 * q + y) / 4 - (100 * c + 4 * q + y) / 100) = r := by
  obtain ⟨-, hq, hy, -, -⟩ := h
  have hgroups : (100 * c + 4 * q + y) / 4 = 25 * c + q := by omega
  have hcenturies : (100 * c + 4 * q + y) / 100 = c := by omega
  omega

end IsEraDay

/-! ### Dates -/

theorem dayNumber_ofDayNumber (n : Int) : (ofDayNumber n).dayNumber = n := by
  simp only [ofDayNumber]
  generalize hday : (n + 719468) % 146097 = day
  generalize hera : (n + 719468) / 146097 = era
  have hn : n = 146097 * era + day - 719468 := by omega
  have hrange : 0 ≤ day ∧ day < 146097 := by omega
  obtain ⟨c, q, y, r, hparts, h⟩ := exists_isEraDay hrange
  rw [h.year_eq hparts, hparts, h.day_eq, hn, hparts]
  obtain ⟨hc, hq, hy, hr, hleap⟩ := h
  generalize hmonth : (5 * r + 2) / 153 = month
  have hmonths : 0 ≤ month ∧ month ≤ 11 := by omega
  have hdays : 0 ≤ r - (153 * month + 2) / 5 := by omega
  have hgroups : (400 * era + (100 * c + 4 * q + y)) / 4 = 100 * era + 25 * c + q := by omega
  have hcenturies : (400 * era + (100 * c + 4 * q + y)) / 100 = 4 * era + c := by omega
  have heras : (400 * era + (100 * c + 4 * q + y)) / 400 = era := by omega
  split
  · have hlate : ¬ (month + 3).toNat ≤ 2 := by omega
    have hback : ((month + 3).toNat + 9 : Int) % 12 = month := by omega
    simp only [dayNumber, if_neg hlate, hback, hgroups, hcenturies, heras]
    omega
  · have hearly : (month - 9).toNat ≤ 2 := by omega
    have hback : ((month - 9).toNat + 9 : Int) % 12 = month := by omega
    simp only [dayNumber, if_pos hearly, hback, Int.add_sub_cancel, hgroups, hcenturies, heras]
    omega

private theorem isLeapYear_iff (year : Int) :
    isLeapYear year = true ↔ year % 4 = 0 ∧ (year % 100 ≠ 0 ∨ year % 400 = 0) := by
  simp [isLeapYear]

theorem daysInMonth_le (year : Int) (month : Nat) : daysInMonth year month ≤ 31 := by
  unfold daysInMonth
  split
  · split <;> omega
  all_goals omega

theorem isValid_mk_iff (year : Int) (month day : Nat) :
    isValid ⟨year, month, day⟩ = true ↔
      ((1 ≤ month ∧ month ≤ 12) ∧ 1 ≤ day) ∧ day ≤ daysInMonth year month := by
  simp only [isValid, Bool.and_eq_true, decide_eq_true_eq]

theorem isValid_ofDayNumber (n : Int) : (ofDayNumber n).isValid = true := by
  simp only [ofDayNumber]
  generalize hday : (n + 719468) % 146097 = day
  generalize hera : (n + 719468) / 146097 = era
  have hrange : 0 ≤ day ∧ day < 146097 := by omega
  obtain ⟨c, q, y, r, hparts, h⟩ := exists_isEraDay hrange
  rw [h.year_eq hparts, hparts, h.day_eq]
  obtain ⟨hc, hq, hy, hr, hleap⟩ := h
  generalize hmonth : (5 * r + 2) / 153 = month
  have hmonths : 0 ≤ month ∧ month ≤ 11 := by omega
  generalize hin : r - (153 * month + 2) / 5 = day
  have hdays : 0 ≤ day := by omega
  split
  · rw [isValid_mk_iff]
    refine ⟨⟨⟨by omega, by omega⟩, by omega⟩, ?_⟩
    unfold daysInMonth
    split <;> omega
  · rw [isValid_mk_iff]
    refine ⟨⟨⟨by omega, by omega⟩, by omega⟩, ?_⟩
    unfold daysInMonth
    -- Only February depends on the year.
    split
    · split
      · omega
      · rename_i hcommon
        rw [isLeapYear_iff] at hcommon
        omega
    all_goals omega

end Bureau.Date
