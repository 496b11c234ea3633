import Mathlib.Tactic.IntervalCases

/-!
# The Gregorian calendar, carried over all years

`dayNumber` counts days from 1970-01-01 by the leap rule and the lengths of the
months. `civil` is the date of a day. It counts in eras of 400 years that begin
in March, so that the leap day is the last day of a year, of four years and of
an era.
-/

set_option autoImplicit false

namespace LibBson.Library

def leapYear (y : Int) : Prop := y % 4 = 0 ∧ (y % 100 ≠ 0 ∨ y % 400 = 0)

instance (y : Int) : Decidable (leapYear y) := inferInstanceAs (Decidable (_ ∧ _))

/-- Days from the first of January 1970 to that of `y`. -/
def daysBeforeYear (y : Int) : Int :=
  365 * (y - 1970) + ((y - 1) / 4 - (y - 1) / 100 + (y - 1) / 400) - 477

def monthLength (y : Int) (m : Nat) : Int :=
  if m = 2 then if leapYear y then 29 else 28
  else if m = 4 ∨ m = 6 ∨ m = 9 ∨ m = 11 then 30
  else 31

/-- Days of the year `y` in front of month `m`. -/
def daysBeforeMonth (y : Int) : Nat → Int
  | 0 => 0
  | 1 => 0
  | m + 2 => daysBeforeMonth y (m + 1) + monthLength y (m + 1)

def dayNumber (y : Int) (m : Nat) (d : Int) : Int :=
  daysBeforeYear y + daysBeforeMonth y m + (d - 1)

/-! ## The date of a day -/

/-- A day of an era: the century, the four years and the year it falls in. -/
structure EraDay where
  century : Int
  quad : Int
  year : Int
  day : Int

def eraDay (doe : Int) : EraDay :=
  let century := min (doe / 36524) 3
  let quad := (doe - 36524 * century) / 1461
  let rest := doe - 36524 * century - 1461 * quad
  let year := min (rest / 365) 3
  ⟨century, quad, year, rest - 365 * year⟩

/-- Year, month and day of the month; months count from March on at first. -/
def civil (days : Int) : Int × Nat × Int :=
  let z := days + 719468
  let e := eraDay (z % 146097)
  let y := z / 146097 * 400 + e.century * 100 + e.quad * 4 + e.year
  let mp := (5 * e.day + 2) / 153
  let d := e.day - (153 * mp + 2) / 5 + 1
  if mp < 10 then (y, (mp + 3).toNat, d) else (y + 1, (mp - 9).toNat, d)

theorem daysBeforeYear_epoch : daysBeforeYear 1970 = 0 := by decide

/-- A year has 366 days by the leap rule. -/
theorem daysBeforeYear_succ (y : Int) :
    daysBeforeYear (y + 1) = daysBeforeYear y + (if leapYear y then 366 else 365) := by
  unfold daysBeforeYear
  by_cases h : leapYear y
  · rw [if_pos h]
    unfold leapYear at h
    omega
  · rw [if_neg h]
    unfold leapYear at h
    omega

theorem daysBeforeYear_mono {x y : Int} (h : x ≤ y) : daysBeforeYear x ≤ daysBeforeYear y := by
  unfold daysBeforeYear
  omega

/-- What the parts of a day of an era are. -/
structure EraDay.Valid (e : EraDay) (doe : Int) : Prop where
  day_eq : doe = 36524 * e.century + 1461 * e.quad + 365 * e.year + e.day
  century : 0 ≤ e.century ∧ e.century ≤ 3
  quad : 0 ≤ e.quad ∧ e.quad ≤ 24
  year : 0 ≤ e.year ∧ e.year ≤ 3
  day : 0 ≤ e.day ∧ e.day ≤ 365
  /-- The day in February that only a leap year has. -/
  leap : e.day = 365 → e.year = 3 ∧ (e.quad = 24 → e.century = 3)

theorem eraDay_valid {doe : Int} (h0 : 0 ≤ doe) (h : doe < 146097) : (eraDay doe).Valid doe := by
  constructor <;> simp only [eraDay] <;> omega

/-- The last year of four in an era, unless the century ends with it. -/
theorem leapYear_last {era century quad : Int}
    (hq : 0 ≤ quad ∧ quad ≤ 24) (hend : quad = 24 → century = 3) :
    leapYear (era * 400 + century * 100 + quad * 4 + 3 + 1) := by
  refine ⟨by omega, ?_⟩
  by_cases h : quad = 24
  · right
    rw [hend h, h]
    omega
  · left
    omega

/-- From March on, days count from the end of the year. -/
theorem dayNumber_march (y d : Int) (m : Nat) (h3 : 3 ≤ m) (h12 : m ≤ 12) :
    dayNumber y m d = daysBeforeYear (y + 1) - 306 + (153 * ((m : Int) - 3) + 2) / 5 + (d - 1) := by
  rw [dayNumber, daysBeforeYear_succ]
  by_cases h : leapYear y
  · interval_cases m <;> simp [daysBeforeMonth, monthLength, h] <;> omega
  · interval_cases m <;> simp [daysBeforeMonth, monthLength, h] <;> omega

theorem monthLength_bounds (y : Int) (m : Nat) : 28 ≤ monthLength y m ∧ monthLength y m ≤ 31 := by
  unfold monthLength
  split_ifs <;> omega

theorem daysBeforeYear_era {e : EraDay} {doe : Int} (h : e.Valid doe) (era : Int) :
    daysBeforeYear (era * 400 + e.century * 100 + e.quad * 4 + e.year + 1) =
      era * 146097 + 36524 * e.century + 1461 * e.quad + 365 * e.year - 719162 := by
  obtain ⟨-, hc, hq, hy, -, -⟩ := h
  unfold daysBeforeYear
  omega

/-- `civil` gives a date of the calendar, and the date of that day. -/
structure Dated (days y : Int) (m : Nat) (d : Int) : Prop where
  month : 1 ≤ m ∧ m ≤ 12
  day : 1 ≤ d ∧ d ≤ monthLength y m
  count : dayNumber y m d = days

theorem civil_dated (days : Int) : Dated days (civil days).1 (civil days).2.1 (civil days).2.2 := by
  have hv := eraDay_valid (Int.emod_nonneg (days + 719468) (by decide))
    (Int.emod_lt_of_pos (days + 719468) (by decide : (0 : Int) < 146097))
  have hera := daysBeforeYear_era hv ((days + 719468) / 146097)
  obtain ⟨heq, hc, hq, hy, hd, hleap⟩ := hv
  simp only [civil]
  generalize eraDay ((days + 719468) % 146097) = e at *
  generalize hyear : (days + 719468) / 146097 * 400 + e.century * 100 + e.quad * 4 + e.year = y at *
  generalize hmp : (5 * e.day + 2) / 153 = mp
  have hmp0 : 0 ≤ mp := by omega
  have hmp11 : mp ≤ 11 := by omega
  by_cases h10 : mp < 10
  · rw [if_pos h10]
    dsimp only
    have hm : (mp + 3).toNat = mp.toNat + 3 := by omega
    refine ⟨⟨by omega, by omega⟩, ⟨by omega, ?_⟩, ?_⟩
    · interval_cases mp <;> simp [monthLength] <;> omega
    · rw [dayNumber_march _ _ _ (by omega) (by omega), hera]
      omega
  · rw [if_neg h10]
    dsimp only
    obtain rfl | rfl : mp = 10 ∨ mp = 11 := by omega
    · refine ⟨⟨by decide, by decide⟩, ⟨by omega, ?_⟩, ?_⟩
      · simp [monthLength]
        omega
      · have hjan : daysBeforeMonth (y + 1) (10 - 9 : Int).toNat = 0 := rfl
        rw [dayNumber, hjan, hera]
        omega
    · have hfeb : daysBeforeMonth (y + 1) (11 - 9 : Int).toNat = 31 := by
        simp [daysBeforeMonth, monthLength]
      refine ⟨⟨by decide, by decide⟩, ⟨by omega, ?_⟩, ?_⟩
      · by_cases hlast : e.day = 365
        · obtain ⟨hthree, hcentury⟩ := hleap hlast
          have hly : leapYear (y + 1) := by
            rw [← hyear, hthree]
            exact leapYear_last hq hcentury
          simp [monthLength, hly]
          omega
        · have hlen := (monthLength_bounds (y + 1) (11 - 9 : Int).toNat).1
          omega
      · rw [dayNumber, hfeb, hera]
        omega

/-- A date lies in its year. -/
theorem Dated.in_year {days y d : Int} {m : Nat} (h : Dated days y m d) :
    daysBeforeYear y ≤ days ∧ days < daysBeforeYear (y + 1) := by
  obtain ⟨⟨h1, h12⟩, ⟨hd1, hd⟩, rfl⟩ := h
  rw [dayNumber, daysBeforeYear_succ]
  by_cases hl : leapYear y
  · interval_cases m <;> simp [daysBeforeMonth, monthLength, hl] at hd ⊢ <;> omega
  · interval_cases m <;> simp [daysBeforeMonth, monthLength, hl] at hd ⊢ <;> omega

/-- The years up to 9999 end with day 2932896. -/
theorem Dated.year_le {days y d : Int} {m : Nat} (h : Dated days y m d) :
    y ≤ 9999 ↔ days < 2932897 := by
  obtain ⟨hstart, hend⟩ := h.in_year
  have hlimit : daysBeforeYear 10000 = 2932897 := by decide
  constructor
  · intro hy
    have hmono := daysBeforeYear_mono (show y + 1 ≤ 10000 by omega)
    omega
  · intro hdays
    by_contra hy
    have hmono := daysBeforeYear_mono (show 10000 ≤ y by omega)
    omega

theorem Dated.le_year {days y d : Int} {m : Nat} (h : Dated days y m d) (h0 : 0 ≤ days) :
    1970 ≤ y := by
  obtain ⟨-, hend⟩ := h.in_year
  by_contra hy
  have hmono := daysBeforeYear_mono (show y + 1 ≤ 1970 by omega)
  rw [daysBeforeYear_epoch] at hmono
  omega

end LibBson.Library
