import Mathlib.Tactic.IntervalCases
import PromptChain.Instant

/-! Dates of days. The date of the day after a day is the next date of the Gregorian calendar, so
that later days have later dates. -/
namespace PromptChain.Instant

/-- A year that has a twenty-ninth of February. -/
def IsLeap (year : Int) : Prop :=
  4 ∣ year ∧ (100 ∣ year → 400 ∣ year)

instance (year : Int) : Decidable (IsLeap year) :=
  inferInstanceAs (Decidable (4 ∣ year ∧ (100 ∣ year → 400 ∣ year)))

def monthLength (year : Int) (month : Nat) : Nat :=
  if month = 2 then if IsLeap year then 29 else 28
  else if month = 4 ∨ month = 6 ∨ month = 9 ∨ month = 11 then 30
  else 31

def nextDate : Int × Nat × Nat → Int × Nat × Nat
  | (year, month, day) =>
    if day < monthLength year month then (year, month, day + 1)
    else if month < 12 then (year, month + 1, 1)
    else (year + 1, 1, 1)

section Cycle

/-- The year of a day in its cycle of 400 years. -/
def yearOfCycle (n : Nat) : Nat :=
  (n - n / 1460 + n / 36524 - n / 146096) / 365

def yearStart (year : Nat) : Nat :=
  365 * year + year / 4 - year / 100 + year / 400

/-- The day of a year on which a month starts. The first month is March. -/
def monthStart (month : Nat) : Nat :=
  (153 * month + 2) / 5

/-- The years of a cycle as centuries, groups of four years and single years. Only the last year of
a group has a day 365, and in the last group of a century only that of the last century. -/
theorem exists_years {n : Nat} (h : n < 146097) :
    ∃ century group year day, century ≤ 3 ∧ group ≤ 24 ∧ year ≤ 3 ∧
      n = 36524 * century + 1461 * group + 365 * year + day ∧
      (day < 365 ∨ day = 365 ∧ year = 3 ∧ (group < 24 ∨ century = 3)) := by
  obtain ⟨century, r, hcentury, hr, hn⟩ : ∃ century r, century ≤ 3 ∧
      (r < 36524 ∨ r = 36524 ∧ century = 3) ∧ n = 36524 * century + r := by
    by_cases hlast : n = 146096
    · exact ⟨3, 36524, by omega, by omega, by omega⟩
    · exact ⟨n / 36524, n % 36524, by omega, by omega, by omega⟩
  obtain ⟨year, day, hyear, hday, hs⟩ : ∃ year day, year ≤ 3 ∧
      (day < 365 ∨ day = 365 ∧ year = 3) ∧ r % 1461 = 365 * year + day := by
    by_cases hlast : r % 1461 = 1460
    · exact ⟨3, 365, by omega, by omega, by omega⟩
    · exact ⟨r % 1461 / 365, r % 1461 % 365, by omega, by omega, by omega⟩
  exact ⟨century, r / 1461, year, day, hcentury, by omega, hyear, by omega, by omega⟩

section Years

variable {century group year : Nat} (hcentury : century ≤ 3) (hgroup : group ≤ 24)
  (hyear : year ≤ 3)
include hcentury hgroup hyear

/-- The days over 365 are left out by three divisions. -/
theorem yearOfCycle_eq {n day : Nat} (hn : n = 36524 * century + 1461 * group + 365 * year + day)
    (hday : day < 365 ∨ day = 365 ∧ year = 3 ∧ (group < 24 ∨ century = 3)) :
    yearOfCycle n = 100 * century + 4 * group + year := by
  have hcenturies : n / 36524 - n / 146096 = century ∧ n / 146096 ≤ n / 36524 := by
    by_cases hlast : n = 146096
    · omega
    · have hrest : 1461 * group + 365 * year + day < 36524 := by omega
      have hfirst : n / 36524 = century := by omega
      omega
  -- A group of four years counts as longer by one day once this sum has reached 1460.
  by_cases hlater : 24 * century + group + 365 * year + day < 1460
  · have hgroups : n / 1460 = 25 * century + group := by omega
    have hdays : n - n / 1460 + n / 36524 - n / 146096 =
        365 * (100 * century + 4 * group + year) + day := by omega
    rw [yearOfCycle, hdays]
    omega
  · have hgroups : n / 1460 = 25 * century + group + 1 := by omega
    have hdays : n - n / 1460 + n / 36524 - n / 146096 =
        365 * (100 * century + 4 * group + year) + (day - 1) := by omega
    rw [yearOfCycle, hdays]
    omega

theorem yearStart_eq :
    yearStart (100 * century + 4 * group + year) = 36524 * century + 1461 * group + 365 * year := by
  have hfour : (100 * century + 4 * group + year) / 4 = 25 * century + group := by omega
  have hhundred : (100 * century + 4 * group + year) / 100 = century := by omega
  have hcycle : (100 * century + 4 * group + year) / 400 = 0 := by omega
  rw [yearStart, hfour, hhundred, hcycle]
  omega

omit hyear in
theorem yearStart_group (hleap : group < 24 ∨ century = 3) :
    yearStart (100 * century + 4 * group + 4) = 36524 * century + 1461 * group + 1461 := by
  have hfour : (100 * century + 4 * group + 4) / 4 = 25 * century + group + 1 := by omega
  rw [yearStart, hfour]
  omega

end Years

/-- A year has at least 365 days, and at most one more. -/
theorem yearStart_succ (year : Nat) :
    yearStart year + 365 ≤ yearStart (year + 1) ∧ yearStart (year + 1) ≤ yearStart year + 366 := by
  unfold yearStart
  omega

theorem yearStart_mono {m n : Nat} (h : m ≤ n) : yearStart m ≤ yearStart n := by
  obtain ⟨k, rfl⟩ := Nat.exists_eq_add_of_le h
  induction k with
  | zero => exact Nat.le_refl _
  | succ k ih =>
    have hle := ih (by omega)
    have hlength := yearStart_succ (m + k)
    rw [← Nat.add_assoc]
    omega

theorem yearOfCycle_spec {n : Nat} (h : n < 146097) :
    yearOfCycle n < 400 ∧ yearStart (yearOfCycle n) ≤ n ∧ n < yearStart (yearOfCycle n + 1) := by
  obtain ⟨century, group, year, day, hcentury, hgroup, hyear, hn, hday⟩ := exists_years h
  rw [yearOfCycle_eq hcentury hgroup hyear hn hday]
  have hstart := yearStart_eq hcentury hgroup hyear
  have hlength := yearStart_succ (100 * century + 4 * group + year)
  refine ⟨by omega, by omega, ?_⟩
  by_cases hlast : day = 365
  · have hend := yearStart_group hcentury hgroup (by omega)
    have hyears : 100 * century + 4 * group + year + 1 = 100 * century + 4 * group + 4 := by omega
    rw [hyears]
    omega
  · omega

theorem monthOfYear_spec (n : Nat) :
    monthStart ((5 * n + 2) / 153) ≤ n ∧ n < monthStart ((5 * n + 2) / 153 + 1) := by
  unfold monthStart
  omega

theorem monthStart_lt_succ (month : Nat) : monthStart month < monthStart (month + 1) := by
  unfold monthStart
  omega

theorem monthStart_mono {m n : Nat} (h : m ≤ n) : monthStart m ≤ monthStart n := by
  unfold monthStart
  omega

end Cycle

section Days

/-- A day as it is counted in its cycle: the year of the cycle, the month from March on, and the day
of the month, all from zero. -/
structure CountsAs (days cycle : Int) (year month day : Nat) : Prop where
  total : days + 719468 = 146097 * cycle + (yearStart year + monthStart month + day : Nat)
  inCycle : year < 400
  inYear : yearStart year + monthStart month + day < yearStart (year + 1)
  inMonth : monthStart month + day < monthStart (month + 1)

/-- The calendar's number of a month that is counted from March on. -/
def monthNumber (month : Nat) : Nat :=
  if month < 10 then month + 3 else month - 9

/-- The calendar's year of a month that is counted in its cycle. January and February belong to the
next year. -/
def yearNumber (cycle : Int) (year month : Nat) : Int :=
  year + cycle * 400 + if month < 10 then 0 else 1

def dateOf (cycle : Int) (year month day : Nat) : Int × Nat × Nat :=
  (yearNumber cycle year month, monthNumber month, day + 1)

theorem yearStart_last : yearStart 400 = 146097 := rfl

theorem CountsAs.month_le {days cycle : Int} {year month day : Nat}
    (h : CountsAs days cycle year month day) : month ≤ 11 := by
  have hyear := yearStart_succ year
  have hin := h.inYear
  by_contra hmonth
  have hstart : monthStart 12 ≤ monthStart month := monthStart_mono (by omega)
  have htwelve : monthStart 12 = 367 := rfl
  omega

/-- Of spans that follow each other, only one holds a day. -/
theorem eq_of_mem_span {start : Nat → Nat} (hmono : ∀ {m n : Nat}, m ≤ n → start m ≤ start n)
    {a b day : Nat} (ha : start a ≤ day ∧ day < start (a + 1))
    (hb : start b ≤ day ∧ day < start (b + 1)) : a = b := by
  by_contra hne
  rcases Nat.lt_or_gt_of_ne hne with hlt | hlt
  · have hle : start (a + 1) ≤ start b := hmono hlt
    omega
  · have hle : start (b + 1) ≤ start a := hmono hlt
    omega

/-- A day is counted in one way only. -/
theorem CountsAs.unique {days cycle cycle' : Int} {year month day year' month' day' : Nat}
    (h : CountsAs days cycle year month day) (h' : CountsAs days cycle' year' month' day') :
    cycle = cycle' ∧ year = year' ∧ month = month' ∧ day = day' := by
  obtain ⟨htotal, hcycle, hyear, hmonth⟩ := h
  obtain ⟨htotal', hcycle', hyear', hmonth'⟩ := h'
  have hlast := yearStart_last
  have hle : yearStart (year + 1) ≤ yearStart 400 := yearStart_mono hcycle
  have hle' : yearStart (year' + 1) ≤ yearStart 400 := yearStart_mono hcycle'
  have hcycles : cycle = cycle' := by omega
  have hyears : year = year' := by
    have hfirst : yearStart year ≤ yearStart year + monthStart month + day := by omega
    exact eq_of_mem_span yearStart_mono ⟨hfirst, hyear⟩ ⟨by omega, by omega⟩
  subst hcycles hyears
  have hmonths : month = month' := by
    have hfirst : monthStart month ≤ monthStart month + day := by omega
    exact eq_of_mem_span monthStart_mono ⟨hfirst, hmonth⟩ ⟨by omega, by omega⟩
  subst hmonths
  exact ⟨rfl, rfl, rfl, by omega⟩

/-- The steps of the conversion, by the counts that they find. -/
theorem civil_eq_dateOf {days cycle : Int} {n rest month : Nat}
    (hcycle : (days + 719468).fdiv 146097 = cycle) (hn : ((days + 719468).fmod 146097).toNat = n)
    (hrest : n - (365 * yearOfCycle n + yearOfCycle n / 4 - yearOfCycle n / 100) = rest)
    (hmonth : (5 * rest + 2) / 153 = month) (hlast : month ≤ 11) :
    civil days = dateOf cycle (yearOfCycle n) month (rest - monthStart month) := by
  have hyear : (if monthNumber month ≤ 2 then (1 : Int) else 0) = if month < 10 then 0 else 1 := by
    unfold monthNumber
    split <;> omega
  rw [dateOf, yearNumber, ← hyear]
  subst hmonth hrest hn hcycle
  rfl

/-- The conversion finds the way in which a day is counted. -/
theorem exists_countsAs (days : Int) :
    ∃ cycle year month day, CountsAs days cycle year month day ∧
      civil days = dateOf cycle year month day := by
  have hnonneg : 0 ≤ (days + 719468) % 146097 := by omega
  obtain ⟨n, hn⟩ := Int.eq_ofNat_of_zero_le hnonneg
  obtain ⟨hcycle, hstart, hend⟩ := yearOfCycle_spec (show n < 146097 by omega)
  obtain ⟨rest, hrest⟩ := Nat.exists_eq_add_of_le hstart
  obtain ⟨hmonth, hmonth'⟩ := monthOfYear_spec rest
  have hzero : yearOfCycle n / 400 = 0 := by omega
  have hcounts : CountsAs days ((days + 719468) / 146097) (yearOfCycle n) ((5 * rest + 2) / 153)
      (rest - monthStart ((5 * rest + 2) / 153)) := by
    refine ⟨by omega, hcycle, by omega, by omega⟩
  refine ⟨_, _, _, _, hcounts, civil_eq_dateOf ?_ ?_ ?_ rfl hcounts.month_le⟩
  · exact Int.fdiv_eq_ediv_of_nonneg _ (by decide)
  · rw [Int.fmod_eq_emod_of_nonneg _ (by decide), hn]
    exact Int.toNat_natCast n
  · unfold yearStart at hrest
    omega

/-- However a day is counted, its date is that of the count. -/
theorem CountsAs.civil_eq {days cycle : Int} {year month day : Nat}
    (h : CountsAs days cycle year month day) : civil days = dateOf cycle year month day := by
  obtain ⟨cycle', year', month', day', h', heq⟩ := exists_countsAs days
  obtain ⟨rfl, rfl, rfl, rfl⟩ := h.unique h'
  exact heq

/-- Cycles are of 400 years, so that whether a year is a leap year is seen in its cycle. -/
theorem isLeap_add_cycle (cycle : Int) (year : Nat) :
    IsLeap (year + cycle * 400) ↔ 4 ∣ year ∧ (100 ∣ year → 400 ∣ year) := by
  have hfour : (4 : Int) ∣ year + cycle * 400 ↔ 4 ∣ year := by omega
  have hhundred : (100 : Int) ∣ year + cycle * 400 ↔ 100 ∣ year := by omega
  have hcycle : (400 : Int) ∣ year + cycle * 400 ↔ 400 ∣ year := by omega
  rw [IsLeap, hfour, hhundred, hcycle]

/-- The year that starts in March has one day more if the February at its end does. -/
theorem yearStart_succ_eq (cycle : Int) (year : Nat) :
    yearStart (year + 1) + 28 =
      yearStart year + 365 + monthLength (yearNumber cycle year 11) 2 := by
  have hnumber : yearNumber cycle year 11 = (year + 1 : Nat) + cycle * 400 := by
    simp only [yearNumber]
    omega
  have hle : year / 100 ≤ year / 4 := by omega
  rw [hnumber, monthLength, if_pos rfl]
  simp only [isLeap_add_cycle, yearStart, Nat.succ_div]
  split <;> split <;> split <;> split <;> omega

/-- A month ends where the next one starts, or with its year. -/
theorem monthLength_number (cycle : Int) (year : Nat) {month : Nat} (h : month ≤ 11) :
    monthStart month + monthLength (yearNumber cycle year month) (monthNumber month) =
      min (monthStart (month + 1)) (yearStart (year + 1) - yearStart year) := by
  have hyear := yearStart_succ year
  by_cases hlast : month = 11
  · subst hlast
    have hlength := yearStart_succ_eq cycle year
    have hstart : monthStart 11 = 337 ∧ monthStart (11 + 1) = 367 ∧ monthNumber 11 = 2 := by decide
    rw [hstart.2.2]
    omega
  · have hstart : monthStart (month + 1) ≤ monthStart 11 := monthStart_mono (by omega)
    have hdays : monthStart 11 = 337 := rfl
    have hlength : monthStart month +
        monthLength (yearNumber cycle year month) (monthNumber month) = monthStart (month + 1) := by
      have hlt : month < 11 := by omega
      interval_cases month <;> rfl
    omega

theorem nextDate_in_month {cycle : Int} {year month day : Nat}
    (hday : day + 1 < monthLength (yearNumber cycle year month) (monthNumber month)) :
    nextDate (dateOf cycle year month day) = dateOf cycle year month (day + 1) := by
  rw [dateOf, nextDate, if_pos hday, dateOf]

theorem nextDate_in_year {cycle : Int} {year month day : Nat} (hmonth : month < 11)
    (hday : ¬day + 1 < monthLength (yearNumber cycle year month) (monthNumber month)) :
    nextDate (dateOf cycle year month day) = dateOf cycle year (month + 1) 0 := by
  rw [dateOf, nextDate, if_neg hday]
  -- The year's number goes up from December to January.
  by_cases hdecember : month = 9
  · subst hdecember
    simp [dateOf, yearNumber, monthNumber]
  · have hnumber : monthNumber month < 12 ∧ monthNumber month + 1 = monthNumber (month + 1) := by
      unfold monthNumber
      split <;> split <;> omega
    have hyear : yearNumber cycle year month = yearNumber cycle year (month + 1) := by
      unfold yearNumber
      split <;> split <;> omega
    rw [if_pos hnumber.1, hnumber.2, hyear, dateOf]

theorem nextDate_in_cycle {cycle : Int} {year day : Nat}
    (hday : ¬day + 1 < monthLength (yearNumber cycle year 11) (monthNumber 11)) :
    nextDate (dateOf cycle year 11 day) = dateOf cycle (year + 1) 0 0 := by
  have hyear : yearNumber cycle year 11 = yearNumber cycle (year + 1) 0 := by
    simp only [yearNumber]
    omega
  rw [dateOf, nextDate, if_neg hday, hyear]
  rfl

/-- The year after the last one of a cycle is the first one of the next cycle. -/
theorem dateOf_last (cycle : Int) : dateOf cycle 400 0 0 = dateOf (cycle + 1) 0 0 0 := by
  have hyear : yearNumber cycle 400 0 = yearNumber (cycle + 1) 0 0 := by
    simp only [yearNumber]
    omega
  rw [dateOf, hyear, dateOf]

/-- The date of the next day is the next date. -/
theorem civil_succ (days : Int) : civil (days + 1) = nextDate (civil days) := by
  obtain ⟨cycle, year, month, day, h, hdate⟩ := exists_countsAs days
  have hlast := h.month_le
  have hlength := monthLength_number cycle year hlast
  have hyears := yearStart_succ year
  obtain ⟨htotal, hcycle, hyear, hmonth⟩ := h
  rw [hdate]
  by_cases hday : day + 1 < monthLength (yearNumber cycle year month) (monthNumber month)
  · have h' : CountsAs (days + 1) cycle year month (day + 1) :=
      ⟨by omega, hcycle, by omega, by omega⟩
    rw [h'.civil_eq, nextDate_in_month hday]
  · by_cases hlt : month < 11
    · have hstart : monthStart (month + 1) ≤ monthStart 11 := monthStart_mono (by omega)
      have hdays : monthStart 11 = 337 := rfl
      have hmonths := monthStart_lt_succ (month + 1)
      have h' : CountsAs (days + 1) cycle year (month + 1) 0 :=
        ⟨by omega, hcycle, by omega, by omega⟩
      rw [h'.civil_eq, nextDate_in_year hlt hday]
    · obtain rfl : month = 11 := by omega
      have hmonths : monthStart (11 + 1) = 367 ∧ monthStart 0 = 0 ∧ monthStart (0 + 1) = 31 := by
        decide
      rw [nextDate_in_cycle hday]
      by_cases hcycle' : year + 1 < 400
      · have hyears' := yearStart_succ (year + 1)
        have h' : CountsAs (days + 1) cycle (year + 1) 0 0 :=
          ⟨by omega, hcycle', by omega, by omega⟩
        rw [h'.civil_eq]
      · obtain rfl : year = 399 := by omega
        have hend : yearStart (399 + 1) = 146097 := yearStart_last
        have hzero : yearStart 0 = 0 ∧ yearStart (0 + 1) = 365 := by decide
        have h' : CountsAs (days + 1) (cycle + 1) 0 0 0 := ⟨by omega, by omega, by omega, by omega⟩
        rw [h'.civil_eq, dateOf_last]

/-- The months and days of dates are in the ranges of the calendar. -/
theorem civil_bounds (days : Int) :
    1 ≤ (civil days).2.1 ∧ (civil days).2.1 ≤ 12 ∧
      1 ≤ (civil days).2.2 ∧ (civil days).2.2 ≤ 31 := by
  obtain ⟨cycle, year, month, day, h, hdate⟩ := exists_countsAs days
  have hlast := h.month_le
  have hday : day ≤ 30 := by
    have hmonth := h.inMonth
    unfold monthStart at hmonth
    omega
  have hnumber : 1 ≤ monthNumber month ∧ monthNumber month ≤ 12 := by
    unfold monthNumber
    split <;> omega
  rw [hdate]
  exact ⟨hnumber.1, hnumber.2, Nat.le_add_left 1 day, Nat.succ_le_succ hday⟩

def Earlier (d e : Int × Nat × Nat) : Prop :=
  d.1 < e.1 ∨ d.1 = e.1 ∧ (d.2.1 < e.2.1 ∨ d.2.1 = e.2.1 ∧ d.2.2 < e.2.2)

theorem Earlier.trans {d e f : Int × Nat × Nat} (hde : Earlier d e) (hef : Earlier e f) :
    Earlier d f := by
  unfold Earlier at *
  omega

theorem earlier_nextDate (d : Int × Nat × Nat) : Earlier d (nextDate d) := by
  obtain ⟨year, month, day⟩ := d
  rw [nextDate]
  split
  · exact Or.inr ⟨rfl, Or.inr ⟨rfl, Nat.lt_succ_self day⟩⟩
  · split
    · exact Or.inr ⟨rfl, Or.inl (Nat.lt_succ_self month)⟩
    · exact Or.inl (Int.lt_succ year)

/-- Later days have later dates. -/
theorem earlier_civil {days later : Int} (h : days < later) :
    Earlier (civil days) (civil later) := by
  obtain ⟨n, rfl⟩ : ∃ n : Nat, later = days + 1 + n := ⟨(later - days - 1).toNat, by omega⟩
  induction n with
  | zero =>
    have hnext := civil_succ days
    rw [Int.natCast_zero, Int.add_zero, hnext]
    exact earlier_nextDate _
  | succ n ih =>
    have hnext : civil (days + 1 + (n + 1 : Nat)) = nextDate (civil (days + 1 + n)) := by
      rw [← civil_succ]
      congr 1
      omega
    rw [hnext]
    exact (ih (by omega)).trans (earlier_nextDate _)

end Days

end PromptChain.Instant
