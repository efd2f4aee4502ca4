import FourCE.Calibration.Assess

/-!
# Calibration status in time

What `assess` makes of one instrument at two dates: the due date is the same at both, and the status at
the later one is at least as severe.  The due date is that of the register or the one the interval gives,
and never more than a day later than either.
-/

namespace FourCE.Calibration

open FourCE.Python

/-! ## Months from a date -/

/-- The month `months` after that of a date, and the day in it: the day of the date, or the last of the
month when that comes first. -/
def offsetMonth (start : Date) (months : ℕ) : Option Date :=
  let year := start.year + (start.month - 1 + months) / 12
  let month := (start.month - 1 + months) % 12 + 1
  Date.make year month (min start.day (daysInMonth year month))

theorem addOffset_eq (start : Date) (months days : ℕ) :
    addOffset start months days = (offsetMonth start months).bind (·.addDays days) := rfl

theorem addOffset_ordinal {start e : Date} {months days : ℕ} (h : addOffset start months days = some e) :
    ∃ base, offsetMonth start months = some base ∧ e.ordinal = base.ordinal + days := by
  rw [addOffset_eq, Option.bind_eq_some_iff] at h
  obtain ⟨base, hbase, hdays⟩ := h
  exact ⟨base, hbase, Date.ordinal_addDays hdays⟩

/-- A later start gives no earlier month, and in the same month no earlier day. -/
theorem offsetMonth_mono {start later base end_ : Date} {months : ℕ} (hle : start.le later = true)
    (hbase : offsetMonth start months = some base) (hend : offsetMonth later months = some end_) :
    base.le end_ = true := by
  obtain ⟨hyear, hmonth, hday⟩ := Date.make_eq_some hbase
  obtain ⟨hyear', hmonth', hday'⟩ := Date.make_eq_some hend
  have hm := start.month_pos
  have hm' := later.month_pos
  have hd := start.month_le
  have hd' := later.month_le
  rw [Date.le, Bool.not_eq_true', Date.lt, decide_eq_false_iff_not] at hle ⊢
  by_cases hsame : start.year = later.year ∧ start.month = later.month
  · have hy : end_.year = base.year := by rw [hyear, hyear', hsame.1, hsame.2]
    have hmo : end_.month = base.month := by rw [hmonth, hmonth', hsame.2]
    have hdays : base.day ≤ end_.day := by
      rw [hday, hday', hsame.1, hsame.2]
      exact min_le_min_right _ (by omega)
    omega
  · omega

/-- No number of months leads back. -/
theorem start_le_offsetMonth {start base : Date} {months : ℕ} (h : offsetMonth start months = some base) :
    start.le base = true := by
  obtain ⟨hyear, hmonth, hday⟩ := Date.make_eq_some h
  have hm := start.month_pos
  have hm' := start.month_le
  rw [Date.le, Bool.not_eq_true', Date.lt, decide_eq_false_iff_not]
  by_cases hmonths : months = 0
  · subst hmonths
    have hy : (start.month - 1) / 12 = 0 := by omega
    have hmo : (start.month - 1) % 12 + 1 = start.month := by omega
    simp only [Nat.add_zero, hy, hmo, min_eq_left start.day_le] at hyear hmonth hday
    omega
  · omega

theorem addOffset_mono {start later d e : Date} {months days : ℕ} (hle : start.le later = true)
    (hd : addOffset start months days = some d) (he : addOffset later months days = some e) :
    d.le e = true := by
  obtain ⟨base, hbase, hd⟩ := addOffset_ordinal hd
  obtain ⟨end_, hend, he⟩ := addOffset_ordinal he
  have hmono := Date.le_iff.mp (offsetMonth_mono hle hbase hend)
  rw [Date.le_iff, hd, he]
  omega

theorem start_le_addOffset {start e : Date} {months days : ℕ} (h : addOffset start months days = some e) :
    start.le e = true := by
  obtain ⟨base, hbase, he⟩ := addOffset_ordinal h
  have hstart := Date.le_iff.mp (start_le_offsetMonth hbase)
  rw [Date.le_iff, he]
  omega

/-! ## The due date -/

/-- The due date is at most a day after the stated one and after the computed one. -/
theorem dueOf_le {i : Instrument} {computed : Option Date} {due : Date} (h : (dueOf i computed).1 = some due) :
    (∀ stated, i.due = some stated → due.ordinal ≤ stated.ordinal + 1) ∧
      ∀ c, computed = some c → due.ordinal ≤ c.ordinal + 1 := by
  unfold dueOf at h
  cases hstated : i.due with
  | none =>
    rw [hstated] at h
    refine ⟨nofun, fun c hc ↦ ?_⟩
    obtain rfl : c = due := Option.some.inj (hc.symm.trans h)
    exact Nat.le_succ _
  | some stated =>
    rw [hstated] at h
    cases computed with
    | none =>
      obtain rfl : stated = due := Option.some.inj h
      refine ⟨fun s hs ↦ ?_, nofun⟩
      rw [Option.some.inj hs]
      exact Nat.le_succ _
    | some computed =>
      simp only at h
      split_ifs at h with hdisagree
      · obtain rfl : stated.min computed = due := Option.some.inj h
        rw [Date.ordinal_min]
        constructor
        · intro s hs
          rw [← Option.some.inj hs]
          exact (Nat.min_le_left _ _).trans (Nat.le_succ _)
        · intro c hc
          rw [← Option.some.inj hc]
          exact (Nat.min_le_right _ _).trans (Nat.le_succ _)
      · obtain rfl : stated = due := Option.some.inj h
        have hclose : (stated.sub computed).natAbs ≤ 1 := by
          simpa [disagree] using hdisagree
        unfold Date.sub at hclose
        constructor
        · intro s hs
          rw [← Option.some.inj hs]
          exact Nat.le_succ _
        · intro c hc
          rw [← Option.some.inj hc]
          omega

/-! ## The status -/

/-- The statuses an instrument goes through, one after the other. -/
def Status.age : Status → Option ℕ
  | .valid => some 0
  | .dueSoon => some 1
  | .pastDueGrace => some 2
  | .overdue => some 3
  | .noData | .calAfterReading => none

/-- The other status is at least as severe, in the order of ageing. -/
def Status.NoBetter (s t : Status) : Prop := ∃ m n, s.age = some m ∧ t.age = some n ∧ m ≤ n

/-- Fewer days to the due date, no better a status. -/
theorem placeOfDue_noBetter (valves : Valves) (due : Date) {days fewer : ℤ} (h : fewer ≤ days) :
    (placeOfDue valves due days).status.NoBetter (placeOfDue valves due fewer).status := by
  unfold placeOfDue
  simp only
  have hgrace : 0 ≤ max 0 valves.graceDays := le_max_left _ _
  have hsoon : 0 ≤ max 0 valves.dueSoonDays := le_max_left _ _
  generalize max 0 valves.graceDays = grace at *
  generalize max 0 valves.dueSoonDays = soon at *
  split_ifs <;> first
    | exact ⟨_, _, rfl, rfl, by decide⟩
    | omega

/-- On or after the last calibration the status is that of the due date. -/
theorem place_status {i : Instrument} {due at_ : Date} (valves : Valves)
    (hcal : ∀ lastCal, i.lastCal = some lastCal → lastCal.le at_ = true) :
    (place i (some due) at_ valves).status = (placeOfDue valves due (due.sub at_)).status := by
  unfold place
  cases hlast : i.lastCal with
  | none => rfl
  | some lastCal =>
    have hle := hcal lastCal hlast
    rw [Date.le, Bool.not_eq_true'] at hle
    simp only [hle, Bool.false_eq_true, if_false]

theorem assess_eq_some {i : Instrument} {at_ : Date} {valves : Valves} {a : Assessment}
    (h : assess i at_ valves = some a) :
    ∃ computed, computedDue i = some computed ∧ a.due = (dueOf i computed).1 ∧
      a.status = (place i a.due at_ valves).status := by
  simp only [assess, Option.bind_eq_bind, Option.bind_eq_some_iff, Option.pure_def, Option.some.injEq] at h
  obtain ⟨computed, hcomputed, rfl⟩ := h
  exact ⟨computed, hcomputed, rfl, rfl⟩

theorem assess_of_computed {i : Instrument} {computed : Option Date} (h : computedDue i = some computed)
    (at_ : Date) (valves : Valves) : ∃ a, assess i at_ valves = some a ∧ a.due = (dueOf i computed).1 := by
  unfold assess
  rw [h]
  exact ⟨_, rfl, rfl⟩

/-! ## Ageing -/

/-- From the last calibration on, a later assessment has the same due date and no better a status. -/
def OnlyAges (i : Instrument) (valves : Valves) : Prop :=
  ∀ earlier later a due, assess i earlier valves = some a → a.due = some due → earlier.le later = true →
    (∀ lastCal, i.lastCal = some lastCal → lastCal.le earlier = true) →
      ∃ b, assess i later valves = some b ∧ b.due = some due ∧ a.status.NoBetter b.status

/-- The due date used is at most a day later than the stated one, and than the one that the interval gives:
the day of the last calibration in the month the interval leads to, or the last of that month, and the days
of the interval. -/
def DueIsDefended (i : Instrument) (valves : Valves) : Prop :=
  ∀ at_ a due, assess i at_ valves = some a → a.due = some due →
    (∀ stated, i.due = some stated → due.ordinal ≤ stated.ordinal + 1) ∧
      ∀ lastCal months days, i.lastCal = some lastCal → i.interval = some (months, days) →
        ∃ base computed, offsetMonth lastCal months = some base ∧ addOffset lastCal months days = some computed ∧
          computed.ordinal = base.ordinal + days ∧ due.ordinal ≤ computed.ordinal + 1

theorem onlyAges (i : Instrument) (valves : Valves) : OnlyAges i valves := by
  intro earlier later a due ha hdue hle hcal
  obtain ⟨computed, hcomputed, hdate, hstatus⟩ := assess_eq_some ha
  obtain ⟨b, hb, hdate'⟩ := assess_of_computed hcomputed later valves
  have hbdue : b.due = some due := by rw [hdate', ← hdate, hdue]
  have hcal' (lastCal : Date) (h : i.lastCal = some lastCal) : lastCal.le later = true :=
    Date.le_iff.mpr ((Date.le_iff.mp (hcal lastCal h)).trans (Date.le_iff.mp hle))
  obtain ⟨-, -, -, hstatus'⟩ := assess_eq_some hb
  refine ⟨b, hb, hbdue, ?_⟩
  rw [hstatus, hstatus', hdue, hbdue, place_status valves hcal, place_status valves hcal']
  apply placeOfDue_noBetter
  have hordinals := Date.le_iff.mp hle
  unfold Date.sub
  omega

theorem dueIsDefended (i : Instrument) (valves : Valves) : DueIsDefended i valves := by
  intro at_ a due ha hdue
  obtain ⟨computed, hcomputed, hdate, -⟩ := assess_eq_some ha
  obtain ⟨hstated, hgiven⟩ := dueOf_le (hdate.symm.trans hdue)
  refine ⟨hstated, fun lastCal months days hlast hinterval ↦ ?_⟩
  unfold computedDue at hcomputed
  rw [hlast, hinterval] at hcomputed
  obtain ⟨c, hc, rfl⟩ := Option.map_eq_some_iff.mp hcomputed
  obtain ⟨base, hbase, hordinal⟩ := addOffset_ordinal hc
  exact ⟨base, c, hbase, hc, hordinal, hgiven c rfl⟩

/-- Status only ages, the due date is one that can be defended, and the date an interval gives follows the
last calibration. -/
theorem status_only_ages (i : Instrument) (valves : Valves) :
    OnlyAges i valves ∧ DueIsDefended i valves ∧
      ∀ start months days d, addOffset start months days = some d →
        start.le d = true ∧
          ∀ later e, start.le later = true → addOffset later months days = some e → d.le e = true :=
  ⟨onlyAges i valves, dueIsDefended i valves, fun _ _ _ _ hd ↦
    ⟨start_le_addOffset hd, fun _ _ hle he ↦ addOffset_mono hle hd he⟩⟩

end FourCE.Calibration
