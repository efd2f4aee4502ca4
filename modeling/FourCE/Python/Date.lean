import FourCE.Python.Json
import Mathlib.Algebra.GroupWithZero.Nat

/-!
# Dates

`datetime.date`: a day of the proleptic Gregorian calendar in the years 1 to 9999.
-/

namespace FourCE.Python

def isLeap (year : ℕ) : Bool := year % 4 = 0 && (year % 100 ≠ 0 || year % 400 = 0)

/-- `calendar.monthrange(year, month)[1]`. -/
def daysInMonth (year month : ℕ) : ℕ :=
  if month = 2 then (if isLeap year then 29 else 28)
  else if month = 4 ∨ month = 6 ∨ month = 9 ∨ month = 11 then 30
  else 31

/-- `date(year, month, day)`. -/
structure Date where
  year : ℕ
  month : ℕ
  day : ℕ
  year_pos : 1 ≤ year
  year_le : year ≤ 9999
  month_pos : 1 ≤ month
  month_le : month ≤ 12
  day_pos : 1 ≤ day
  day_le : day ≤ daysInMonth year month
  deriving DecidableEq

/-- `date(year, month, day)`; what is no date is a `ValueError`. -/
def Date.make (year month day : ℕ) : Option Date :=
  if h : 1 ≤ year ∧ year ≤ 9999 ∧ 1 ≤ month ∧ month ≤ 12 ∧ 1 ≤ day ∧ day ≤ daysInMonth year month then
    some ⟨year, month, day, h.1, h.2.1, h.2.2.1, h.2.2.2.1, h.2.2.2.2.1, h.2.2.2.2.2⟩
  else none

/-- The days of the years before one. -/
def daysBeforeYear (year : ℕ) : ℕ :=
  let n := year - 1
  365 * n + n / 4 - n / 100 + n / 400

/-- The days of the months before one in its year. -/
def daysBeforeMonth (year month : ℕ) : ℕ :=
  ((List.range (month - 1)).map fun m ↦ daysInMonth year (m + 1)).sum

/-- `d.toordinal()`. -/
def Date.ordinal (d : Date) : ℕ := daysBeforeYear d.year + daysBeforeMonth d.year d.month + d.day

/-- `(d - e).days`. -/
def Date.sub (d e : Date) : ℤ := d.ordinal - e.ordinal

/-- `d < e`. -/
def Date.lt (d e : Date) : Bool :=
  d.year < e.year ∨ d.year = e.year ∧ (d.month < e.month ∨ d.month = e.month ∧ d.day < e.day)

/-- `d <= e`. -/
def Date.le (d e : Date) : Bool := !e.lt d

/-- `min(d, e)`. -/
def Date.min (d e : Date) : Date := if e.lt d then e else d

/-- The day after; there is none after the last day of the year 9999. -/
def Date.next (d : Date) : Option Date :=
  if d.day < daysInMonth d.year d.month then Date.make d.year d.month (d.day + 1)
  else if d.month < 12 then Date.make d.year (d.month + 1) 1
  else Date.make (d.year + 1) 1 1

/-- `d + timedelta(days=n)`; `none` is its `OverflowError`. -/
def Date.addDays (d : Date) : ℕ → Option Date
  | 0 => some d
  | n + 1 => do (← d.addDays n).next

/-- The digits of a number with zeros in front up to a width. -/
def zeroPadded (width n : ℕ) : PyStr := List.replicate (width - (natText n).length) 48 ++ natText n

/-- `d.isoformat()`. -/
def Date.iso (d : Date) : PyStr :=
  zeroPadded 4 d.year ++ py "-" ++ zeroPadded 2 d.month ++ py "-" ++ zeroPadded 2 d.day

/-! ## The order of the days -/

theorem Date.make_eq_some {year month day : ℕ} {d : Date} (h : Date.make year month day = some d) :
    d.year = year ∧ d.month = month ∧ d.day = day := by
  unfold Date.make at h
  split_ifs at h
  cases h
  exact ⟨rfl, rfl, rfl⟩

theorem Date.make_eq_some_iff {year month day : ℕ} {d : Date} :
    Date.make year month day = some d ↔ d.year = year ∧ d.month = month ∧ d.day = day := by
  refine ⟨Date.make_eq_some, ?_⟩
  rintro ⟨rfl, rfl, rfl⟩
  exact dif_pos ⟨d.year_pos, d.year_le, d.month_pos, d.month_le, d.day_pos, d.day_le⟩

theorem daysBeforeYear_succ {year : ℕ} (h : 1 ≤ year) :
    daysBeforeYear (year + 1) = daysBeforeYear year + if isLeap year then 366 else 365 := by
  obtain ⟨n, rfl⟩ := Nat.exists_eq_add_of_le' h
  have hfour : (n + 1) / 4 = n / 4 + if (n + 1) % 4 = 0 then 1 else 0 := by split_ifs <;> omega
  have hcentury : (n + 1) / 100 = n / 100 + if (n + 1) % 100 = 0 then 1 else 0 := by split_ifs <;> omega
  have hcycle : (n + 1) / 400 = n / 400 + if (n + 1) % 400 = 0 then 1 else 0 := by split_ifs <;> omega
  have hless : n / 100 ≤ n / 4 := Nat.div_le_div_left (by decide) (by decide)
  have hcentury_four : (n + 1) % 100 = 0 → (n + 1) % 4 = 0 := by omega
  have hcycle_century : (n + 1) % 400 = 0 → (n + 1) % 100 = 0 := by omega
  unfold daysBeforeYear isLeap
  simp only [Nat.add_sub_cancel, hfour, hcentury, hcycle]
  generalize n / 4 = a at *
  generalize n / 100 = b at *
  generalize n / 400 = c at *
  by_cases h4 : (n + 1) % 4 = 0
  · by_cases h100 : (n + 1) % 100 = 0
    · by_cases h400 : (n + 1) % 400 = 0
      · simp [h4, h100, h400]
        omega
      · simp [h4, h100, h400]
        omega
    · have h400 := mt hcycle_century h100
      simp [h4, h100, h400]
      omega
  · have h100 := mt hcentury_four h4
    have h400 := mt hcycle_century h100
    simp [h4, h100, h400]
    omega

theorem daysBeforeYear_mono {year later : ℕ} (h : 1 ≤ year) (hle : year ≤ later) :
    daysBeforeYear year ≤ daysBeforeYear later := by
  induction later, hle using Nat.le_induction with
  | base => exact le_rfl
  | succ later hle ih =>
    rw [daysBeforeYear_succ (h.trans hle)]
    exact ih.trans (Nat.le_add_right _ _)

theorem daysBeforeMonth_succ {year month : ℕ} (h : 1 ≤ month) :
    daysBeforeMonth year (month + 1) = daysBeforeMonth year month + daysInMonth year month := by
  obtain ⟨m, rfl⟩ := Nat.exists_eq_add_of_le' h
  simp [daysBeforeMonth, List.range_succ]

theorem daysBeforeMonth_mono {year month later : ℕ} (h : 1 ≤ month) (hle : month ≤ later) :
    daysBeforeMonth year month ≤ daysBeforeMonth year later := by
  induction later, hle using Nat.le_induction with
  | base => exact le_rfl
  | succ later hle ih =>
    rw [daysBeforeMonth_succ (h.trans hle)]
    exact ih.trans (Nat.le_add_right _ _)

theorem daysBeforeMonth_end (year : ℕ) :
    daysBeforeMonth year 13 = if isLeap year then 366 else 365 := by
  simp only [daysBeforeMonth, daysInMonth]
  cases isLeap year <;> rfl

/-- A day comes before the next month. -/
theorem Date.ordinal_le_month (d : Date) :
    d.ordinal ≤ daysBeforeYear d.year + daysBeforeMonth d.year (d.month + 1) := by
  rw [daysBeforeMonth_succ d.month_pos, Date.ordinal]
  have hday := d.day_le
  omega

/-- A day comes before the next year. -/
theorem Date.ordinal_le_year (d : Date) : d.ordinal ≤ daysBeforeYear (d.year + 1) := by
  rw [daysBeforeYear_succ d.year_pos, ← daysBeforeMonth_end]
  have hmonth := d.month_le
  exact d.ordinal_le_month.trans (Nat.add_le_add_left (daysBeforeMonth_mono (Nat.le_add_left 1 _) (by omega)) _)

theorem Date.ordinal_lt_of_lt {d e : Date} (h : d.lt e = true) : d.ordinal < e.ordinal := by
  simp only [Date.lt, decide_eq_true_eq] at h
  rcases h with hyear | ⟨hyear, hmonth | ⟨hmonth, hday⟩⟩
  · have hnext := daysBeforeYear_mono (Nat.le_add_left 1 d.year) hyear
    have hd := d.ordinal_le_year
    have he := e.day_pos
    unfold Date.ordinal at hd ⊢
    omega
  · have hnext := @daysBeforeMonth_mono e.year _ _ (Nat.le_add_left 1 d.month) hmonth
    have hd := d.ordinal_le_month
    have he := e.day_pos
    rw [hyear] at hd
    unfold Date.ordinal at hd ⊢
    omega
  · rw [Date.ordinal, Date.ordinal, hyear, hmonth]
    omega

theorem Date.ext_of_fields {d e : Date} (hyear : d.year = e.year) (hmonth : d.month = e.month)
    (hday : d.day = e.day) : d = e := by
  cases d
  cases e
  cases hyear
  cases hmonth
  cases hday
  rfl

theorem Date.trichotomy (d e : Date) : d.lt e = true ∨ d = e ∨ e.lt d = true := by
  by_cases h : d = e
  · exact Or.inr (Or.inl h)
  · have hfields : ¬ (d.year = e.year ∧ d.month = e.month ∧ d.day = e.day) := fun ⟨hy, hm, hd⟩ ↦
      h (Date.ext_of_fields hy hm hd)
    simp only [Date.lt, decide_eq_true_eq]
    omega

/-- Days are compared as their ordinals are. -/
theorem Date.lt_iff {d e : Date} : d.lt e = true ↔ d.ordinal < e.ordinal := by
  refine ⟨Date.ordinal_lt_of_lt, fun h ↦ ?_⟩
  rcases d.trichotomy e with hlt | rfl | hlt
  · exact hlt
  · exact absurd h (lt_irrefl _)
  · exact absurd (Date.ordinal_lt_of_lt hlt) (by omega)

theorem Date.le_iff {d e : Date} : d.le e = true ↔ d.ordinal ≤ e.ordinal := by
  rw [Date.le, Bool.not_eq_true', ← Bool.not_eq_true, Date.lt_iff, not_lt]

theorem Date.ordinal_min (d e : Date) : (d.min e).ordinal = Nat.min d.ordinal e.ordinal := by
  unfold Date.min
  split_ifs with h
  · rw [Date.lt_iff] at h
    exact (Nat.min_eq_right h.le).symm
  · rw [Date.lt_iff, not_lt] at h
    exact (Nat.min_eq_left h).symm

theorem Date.ordinal_next {d e : Date} (h : d.next = some e) : e.ordinal = d.ordinal + 1 := by
  unfold Date.next at h
  split_ifs at h with hday hmonth <;> obtain ⟨hy, hm, hd⟩ := Date.make_eq_some h
  · rw [Date.ordinal, Date.ordinal, hy, hm, hd]
    rfl
  · have hlast : d.day = daysInMonth d.year d.month := le_antisymm d.day_le (not_lt.mp hday)
    rw [Date.ordinal, Date.ordinal, hy, hm, hd, hlast, daysBeforeMonth_succ d.month_pos]
    omega
  · have hlast : d.day = daysInMonth d.year d.month := le_antisymm d.day_le (not_lt.mp hday)
    have hdec : d.month = 12 := le_antisymm d.month_le (not_lt.mp hmonth)
    have hend := daysBeforeMonth_end d.year
    rw [daysBeforeMonth_succ (by decide)] at hend
    rw [Date.ordinal, Date.ordinal, hy, hm, hd, hlast, hdec, daysBeforeYear_succ d.year_pos, ← hend]
    have hfirst : daysBeforeMonth (d.year + 1) 1 = 0 := rfl
    omega

theorem Date.ordinal_addDays {d e : Date} {n : ℕ} (h : d.addDays n = some e) : e.ordinal = d.ordinal + n := by
  induction n generalizing e with
  | zero =>
    cases h
    rfl
  | succ n ih =>
    rw [Date.addDays, Option.bind_eq_bind, Option.bind_eq_some_iff] at h
    obtain ⟨c, hc, hnext⟩ := h
    rw [Date.ordinal_next hnext, ih hc, Nat.add_assoc]

end FourCE.Python
