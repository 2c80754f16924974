import Mathlib.Tactic

/-!
# The Gregorian calendar

Dates of the proleptic Gregorian calendar, counted by the days before them. The
count is by years, months and days as everybody counts, with a leap day in
every fourth year but for the centuries; nothing about it is clever.

Programs use a closed formula instead, over years that begin in March, so that
the leap day comes last, and over eras of four hundred years, so that division
truncates towards zero where it must. It is compared with the count here, for
every year from the first on.

* `dayNumber_lt_iff`, `dayNumber_inj`: dates in order have numbers in order,
  and no two have one.
* `daysBeforeYear_succ`, `daysBeforeMonth_eq`: the leap day, seen from the year
  before and from March.
* `daysFromCivil_eq`: the closed formula counts the days from 1970-01-01.
-/
namespace Calendar

def leap (y : Nat) : Bool := y % 4 == 0 && (y % 100 != 0 || y % 400 == 0)

def yearLength (y : Nat) : Nat := if leap y then 366 else 365

def monthLength (y : Nat) : Nat → Nat
  | 2 => if leap y then 29 else 28
  | 4 => 30
  | 6 => 30
  | 9 => 30
  | 11 => 30
  | _ => 31

structure Date where
  year : Nat
  month : Nat
  day : Nat
  deriving DecidableEq

structure Date.Valid (d : Date) : Prop where
  year : 1 ≤ d.year
  month : 1 ≤ d.month ∧ d.month ≤ 12
  day : 1 ≤ d.day ∧ d.day ≤ monthLength d.year d.month

/-! ## Counting days -/

/-- The days of the years before. -/
def daysBeforeYear : Nat → Nat
  | 0 => 0
  | y + 1 => daysBeforeYear y + yearLength y

/-- The days of the months before in the same year. -/
def daysBeforeMonth (y : Nat) : Nat → Nat
  | 0 => 0
  | 1 => 0
  | m + 2 => daysBeforeMonth y (m + 1) + monthLength y (m + 1)

def dayNumber (d : Date) : Nat := daysBeforeYear d.year + daysBeforeMonth d.year d.month + d.day

def epoch : Date := ⟨1970, 1, 1⟩

/-- The days from 1970-01-01. -/
def epochDay (d : Date) : Int := dayNumber d - dayNumber epoch

theorem daysBeforeMonth_succ (y : Nat) {m : Nat} (h : 1 ≤ m) :
    daysBeforeMonth y (m + 1) = daysBeforeMonth y m + monthLength y m := by
  obtain ⟨k, rfl⟩ : ∃ k, m = k + 1 := ⟨m - 1, by omega⟩
  rfl

theorem monthLength_bounds (y m : Nat) : 28 ≤ monthLength y m ∧ monthLength y m ≤ 31 := by
  unfold monthLength
  split
  · split <;> omega
  all_goals omega

/-- The months fill the year. -/
theorem daysBeforeMonth_year (y : Nat) : daysBeforeMonth y 12 + monthLength y 12 = yearLength y := by
  simp only [daysBeforeMonth, monthLength, yearLength]
  split <;> rfl

/-! ## Order -/

/-- Earlier in the calendar. -/
def Date.Before (d e : Date) : Prop :=
  d.year < e.year ∨ d.year = e.year ∧ (d.month < e.month ∨ d.month = e.month ∧ d.day < e.day)

theorem daysBeforeYear_mono {y z : Nat} (h : y < z) : daysBeforeYear y + yearLength y ≤ daysBeforeYear z := by
  induction z with
  | zero => omega
  | succ z ih =>
    rw [daysBeforeYear]
    rcases Nat.lt_succ_iff_lt_or_eq.mp h with h | rfl
    · have := ih h
      omega
    · exact le_refl _

theorem daysBeforeMonth_mono (y : Nat) {m n : Nat} (hm : 1 ≤ m) (h : m < n) :
    daysBeforeMonth y m + monthLength y m ≤ daysBeforeMonth y n := by
  induction n with
  | zero => omega
  | succ n ih =>
    rw [daysBeforeMonth_succ y (by omega)]
    rcases Nat.lt_succ_iff_lt_or_eq.mp h with h | rfl
    · have := ih h
      omega
    · exact le_refl _

/-- The days of a date in its year. -/
theorem dayOfYear_le {d : Date} (h : d.Valid) :
    1 ≤ daysBeforeMonth d.year d.month + d.day ∧ daysBeforeMonth d.year d.month + d.day ≤ yearLength d.year := by
  obtain ⟨hy, ⟨hm, hm'⟩, hd, hd'⟩ := h
  refine ⟨by omega, ?_⟩
  rw [← daysBeforeMonth_year]
  rcases Nat.lt_or_eq_of_le hm' with hlt | heq
  · have := daysBeforeMonth_mono d.year hm hlt
    omega
  · rw [heq] at hd' ⊢
    omega

theorem dayNumber_lt_of_before {d e : Date} (hd : d.Valid) (he : e.Valid) (h : d.Before e) :
    dayNumber d < dayNumber e := by
  have hdy := dayOfYear_le hd
  have hey := dayOfYear_le he
  unfold dayNumber
  rcases h with hyear | ⟨hyear, hmonth | ⟨hmonth, hday⟩⟩
  · have := daysBeforeYear_mono hyear
    omega
  · have := daysBeforeMonth_mono d.year hd.month.1 hmonth
    have := hd.day.2
    have := he.day.1
    rw [← hyear]
    omega
  · rw [← hyear, ← hmonth]
    omega

theorem before_trichotomy (d e : Date) : d.Before e ∨ d = e ∨ e.Before d := by
  obtain ⟨y, m, k⟩ := d
  obtain ⟨y', m', k'⟩ := e
  simp only [Date.Before, Date.mk.injEq]
  omega

/-- Dates in order have numbers in order. -/
theorem dayNumber_lt_iff {d e : Date} (hd : d.Valid) (he : e.Valid) : dayNumber d < dayNumber e ↔ d.Before e := by
  refine ⟨fun h => ?_, dayNumber_lt_of_before hd he⟩
  rcases before_trichotomy d e with hbefore | rfl | hafter
  · exact hbefore
  · exact absurd h (lt_irrefl _)
  · have := dayNumber_lt_of_before he hd hafter
    omega

theorem dayNumber_inj {d e : Date} (hd : d.Valid) (he : e.Valid) (h : dayNumber d = dayNumber e) : d = e := by
  rcases before_trichotomy d e with hbefore | heq | hafter
  · have := dayNumber_lt_of_before hd he hbefore
    omega
  · exact heq
  · have := dayNumber_lt_of_before he hd hafter
    omega

/-! ## The closed formula -/

/-- The days from 1970-01-01, by eras of 400 years that begin in March. -/
def daysFromCivil (y m d : Int) : Int :=
  let years := if m ≤ 2 then y - 1 else y
  let era := years / 400
  let yoe := years - era * 400
  let doy := (153 * (if m > 2 then m - 3 else m + 9) + 2) / 5 + d - 1
  let doe := yoe * 365 + yoe / 4 - yoe / 100 + doy
  era * 146097 + doe - 719468

/-- A year is as long as its leap day says; the years before have one day more
for every fourth, but for the centuries that four does not divide. -/
theorem daysBeforeYear_eq (y : Nat) :
    daysBeforeYear y + (y + 99) / 100 = 365 * y + (y + 3) / 4 + (y + 399) / 400 := by
  induction y with
  | zero => rfl
  | succ y ih =>
    rw [daysBeforeYear, yearLength, leap]
    by_cases h4 : y % 4 = 0
    · by_cases h100 : y % 100 = 0
      · by_cases h400 : y % 400 = 0
        · simp only [h4, h100, h400, beq_self_eq_true, bne_self_eq_false, Bool.false_or, Bool.and_self, if_true]
          omega
        · simp only [h4, h100, beq_self_eq_true, bne_self_eq_false, Bool.false_or, Bool.true_and, beq_iff_eq, h400,
            if_false]
          omega
      · have hne : (y % 100 != 0) = true := bne_iff_ne.mpr h100
        simp only [h4, hne, beq_self_eq_true, Bool.true_or, Bool.and_self, if_true]
        omega
    · have hne : (y % 4 == 0) = false := beq_false_of_ne h4
      simp only [hne, Bool.false_and, Bool.false_eq_true, if_false]
      omega

theorem dayNumber_january (y : Nat) : dayNumber ⟨y, 1, 1⟩ = daysBeforeYear y + 1 := rfl

theorem dayNumber_epoch : dayNumber epoch = 719529 := by
  have hyears := daysBeforeYear_eq 1970
  rw [epoch, dayNumber_january]
  omega

/-- Whether February has a 29th, by the years before. -/
theorem daysBeforeYear_succ (y : Nat) :
    daysBeforeYear (y + 1) = daysBeforeYear y + 337 + monthLength y 2 := by
  rw [daysBeforeYear, yearLength, monthLength]
  split <;> rfl

/-- From March on the days before a month count those of February. -/
theorem daysBeforeMonth_eq (y : Nat) {m : Nat} (hm : 1 ≤ m) (hm' : m ≤ 12) :
    daysBeforeMonth y m = if m ≤ 2 then 31 * (m - 1) else 31 + monthLength y 2 + (153 * (m - 3) + 2) / 5 := by
  interval_cases m <;> simp [daysBeforeMonth, monthLength]

/-- An era has 97 leap years. -/
theorem era_days (y k : Int) :
    y / 400 * 146097 + ((y - y / 400 * 400) * 365 + (y - y / 400 * 400) / 4 - (y - y / 400 * 400) / 100 + k) =
      365 * y + y / 4 - y / 100 + y / 400 + k := by
  have hfour : (y - y / 400 * 400) / 4 = y / 4 - y / 400 * 100 := by omega
  have hhundred : (y - y / 400 * 400) / 100 = y / 100 - y / 400 * 4 := by omega
  rw [hfour, hhundred]
  ring

/-- The leap years before a year by the last of them. -/
theorem daysBeforeYear_int (y : Nat) :
    (daysBeforeYear y : Int) = 365 * y + (y - 1 : Int) / 4 - (y - 1 : Int) / 100 + (y - 1 : Int) / 400 + 1 := by
  have h := daysBeforeYear_eq y
  have hfour : ((y + 3) / 4 : Nat) = (y - 1 : Int) / 4 + 1 := by omega
  have hhundred : ((y + 99) / 100 : Nat) = (y - 1 : Int) / 100 + 1 := by omega
  have hfourhundred : ((y + 399) / 400 : Nat) = (y - 1 : Int) / 400 + 1 := by omega
  rw [← Nat.cast_inj (R := Int), Nat.cast_add, Nat.cast_add, Nat.cast_add, hfour, hhundred, hfourhundred] at h
  push_cast at h
  linarith

/-- The formula counts the days. -/
theorem daysFromCivil_eq {d : Date} (h : d.Valid) : daysFromCivil d.year d.month d.day = epochDay d := by
  obtain ⟨hy, ⟨hm, hm'⟩, -⟩ := h
  have hmonth := daysBeforeMonth_eq d.year hm hm'
  rw [epochDay, dayNumber_epoch]
  simp only [daysFromCivil, era_days, dayNumber, Nat.cast_add, Nat.cast_ofNat]
  by_cases hmarch : d.month ≤ 2
  · rw [if_pos hmarch] at hmonth
    rw [daysBeforeYear_int, if_pos (by omega), if_neg (by omega)]
    have hdoy : (153 * ((d.month : Int) + 9) + 2) / 5 = 306 + daysBeforeMonth d.year d.month := by omega
    rw [hdoy]
    ring
  · -- the leap day of the year itself is before March
    have hafter := daysBeforeYear_int (d.year + 1)
    rw [daysBeforeYear_succ, Nat.cast_add_one, add_sub_cancel_right] at hafter
    rw [if_neg hmarch] at hmonth
    rw [if_neg (by omega), if_pos (by omega)]
    have hdoy : (153 * ((d.month : Int) - 3) + 2) / 5 = daysBeforeMonth d.year d.month - 31 - monthLength d.year 2 := by
      omega
    rw [hdoy]
    push_cast at hafter
    linarith

end Calendar
