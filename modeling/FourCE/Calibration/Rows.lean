import FourCE.Calibration.Check
import FourCE.Python.Tables

/-!
# No row is lost

Which lines of a text a report accounts for.  A row below the heading of a table, with nothing but
rows and blank lines between, is read, or skipped with a reason, or belongs to a table that is
skipped.  Any other line with a pipe in front is lost, and nothing says so.
-/

namespace FourCE.Calibration

open FourCE.Python

variable [Unicode] [Casing]

/-! ## Lines -/

section Lines

variable (lines : List PyStr)

def pipeAt (k : ℕ) : Bool := (lines[k]?).any isPipe

def blankAt (k : ℕ) : Bool := (lines[k]?).any fun line ↦ (strip line).isEmpty

/-- A line with a pipe in front and a separator below it. -/
def headAt (k : ℕ) : Bool := pipeAt lines k && (lines[k + 1]?).any isSeparator

def columnsAt (k : ℕ) : List (Column × ℕ) := headingColumns ((lines[k]?).getD [])

def registerAt (k : ℕ) : Bool := isRegister (columnsAt lines k)

/-- The heading of a table; the separator of a register table is none, whatever stands below it. -/
def tableHead : ℕ → Bool
  | 0 => headAt lines 0
  | k + 1 => headAt lines (k + 1) && !(tableHead k && registerAt lines k)

/-- A line with a pipe in front that is neither the heading nor the separator of a table. -/
structure IsRow (p : ℕ) : Prop where
  pipe : pipeAt lines p = true
  not_head : tableHead lines p = false
  not_separator : ∀ k, p = k + 1 → tableHead lines k = false

/-- A line below the separator of a table, with nothing but rows and blank lines between. -/
def Under (h p : ℕ) : Prop :=
  tableHead lines h = true ∧ h + 2 ≤ p ∧
    ∀ k, h + 2 ≤ k → k < p → pipeAt lines k = true ∨ blankAt lines k = true

end Lines

/-- What the parser is doing when it comes to a line: looking for a heading, at the separator of a
heading, or among the rows below one. -/
inductive Mode
  | outside
  | separator (head : ℕ)
  | rows (head : ℕ)
  deriving DecidableEq

section Parser

variable (lines : List PyStr) (dayFirst : Bool) (defaultIntervalMonths : ℤ)

/-- A line among the rows of a table that does not end it. -/
def goesOn (k : ℕ) : Bool := blankAt lines k || pipeAt lines k && !headAt lines k

def afterOutside (k : ℕ) : Mode :=
  if headAt lines k && registerAt lines k then .separator k else .outside

def modeAt : ℕ → Mode
  | 0 => .outside
  | k + 1 => match modeAt k with
    | .outside => afterOutside lines k
    | .separator head => .rows head
    | .rows head => if goesOn lines k then .rows head else afterOutside lines k

end Parser

/-! ## The modes of the parser -/

section Modes

variable {lines : List PyStr}

omit [Unicode] [Casing] in
theorem not_blankAt_of_pipeAt {k : ℕ} (h : pipeAt lines k = true) : blankAt lines k = false := by
  rw [pipeAt] at h
  rw [blankAt]
  cases hline : lines[k]? with
  | none => rfl
  | some line =>
    rw [hline] at h
    simp only [Option.any_some] at h ⊢
    cases hstrip : strip line with
    | nil =>
      rw [isPipe, hstrip] at h
      cases h
    | cons c s => rfl

omit [Casing] in
theorem not_goesOn_of_headAt {k : ℕ} (h : headAt lines k = true) : goesOn lines k = false := by
  have hpipe : pipeAt lines k = true := by
    rw [headAt, Bool.and_eq_true] at h
    exact h.1
  simp [goesOn, h, not_blankAt_of_pipeAt hpipe]

theorem afterOutside_eq_separator {k h : ℕ} :
    afterOutside lines k = .separator h ↔ h = k ∧ headAt lines k = true ∧ registerAt lines k = true := by
  rw [afterOutside]
  split_ifs with hhead
  · rw [Bool.and_eq_true] at hhead
    rw [Mode.separator.injEq, eq_comm]
    exact (and_iff_left hhead).symm
  · rw [Bool.and_eq_true] at hhead
    exact iff_of_false nofun fun h ↦ hhead h.2

theorem tableHead_succ {k : ℕ} (h : ¬ (tableHead lines k = true ∧ registerAt lines k = true)) :
    tableHead lines (k + 1) = headAt lines (k + 1) := by
  rw [tableHead, ← Bool.and_eq_true, Bool.not_eq_true] at *
  rw [h, Bool.not_false, Bool.and_true]

/-- The parser comes to a separator behind the heading of a register table, and only there. -/
theorem modeAt_succ_separator {k h : ℕ} :
    modeAt lines (k + 1) = .separator h ↔ h = k ∧ tableHead lines k = true ∧ registerAt lines k = true := by
  induction k generalizing h with
  | zero => exact afterOutside_eq_separator
  | succ k ih =>
    have hmode : (∃ g, modeAt lines (k + 1) = .separator g) ↔
        tableHead lines k = true ∧ registerAt lines k = true := by
      simp [ih]
    rw [modeAt.eq_def]
    simp only
    cases hnow : modeAt lines (k + 1) with
    | outside =>
      have hno : ¬ (tableHead lines k = true ∧ registerAt lines k = true) := by
        rw [← hmode, hnow]
        exact nofun
      rw [tableHead_succ hno]
      exact afterOutside_eq_separator
    | separator g =>
      have hyes := hmode.mp ⟨g, hnow⟩
      refine iff_of_false nofun fun h ↦ ?_
      rw [tableHead, hyes.1, hyes.2] at h
      simp at h
    | rows g =>
      have hno : ¬ (tableHead lines k = true ∧ registerAt lines k = true) := by
        rw [← hmode, hnow]
        exact nofun
      rw [tableHead_succ hno]
      simp only
      by_cases hgoes : goesOn lines (k + 1) = true
      · rw [if_pos hgoes]
        refine iff_of_false nofun fun h ↦ ?_
        rw [not_goesOn_of_headAt h.2.1] at hgoes
        cases hgoes
      · rw [if_neg hgoes]
        exact afterOutside_eq_separator

/-- The heading of a table is where the parser meets one that it is not passing as a separator. -/
theorem tableHead_iff {k : ℕ} :
    tableHead lines k = true ↔ headAt lines k = true ∧ ∀ h, modeAt lines k ≠ .separator h := by
  cases k with
  | zero => exact (and_iff_left fun _ ↦ nofun).symm
  | succ k =>
    by_cases hyes : tableHead lines k = true ∧ registerAt lines k = true
    · refine iff_of_false (by simp [tableHead, hyes.1, hyes.2]) fun h ↦ ?_
      exact h.2 k (modeAt_succ_separator.mpr ⟨rfl, hyes⟩)
    · rw [tableHead_succ hyes]
      exact (and_iff_left fun h hmode ↦ hyes (modeAt_succ_separator.mp hmode).2).symm

end Modes

/-! ## The parser's loops -/

section Loops

variable {lines : List PyStr} {dayFirst : Bool} {defaultIntervalMonths : ℤ}

end Loops

/-! ## Which entry accounts for a line -/

section Accounts

variable {lines : List PyStr} {dayFirst : Bool} {defaultIntervalMonths : ℤ} {es : List Entry}

/-- Among rows, or outside of tables: a row is met in no other way, and it does not end a table. -/
theorem IsRow.mode {p : ℕ} (h : IsRow lines p) :
    goesOn lines p = true ∧ (modeAt lines p = .outside ∨ ∃ head, modeAt lines p = .rows head) := by
  have hno (head : ℕ) : modeAt lines p ≠ .separator head := by
    intro hmode
    cases p with
    | zero => cases hmode
    | succ k =>
      have := h.not_separator k rfl
      rw [(modeAt_succ_separator.mp hmode).2.1] at this
      cases this
  have hhead : headAt lines p = false := by
    by_contra hhead
    have := h.not_head
    rw [tableHead_iff.mpr ⟨by simpa using hhead, hno⟩] at this
    cases this
  refine ⟨by simp [goesOn, h.pipe, hhead], ?_⟩
  cases hmode : modeAt lines p with
  | outside => exact Or.inl rfl
  | separator head => exact absurd hmode (hno head)
  | rows head => exact Or.inr ⟨head, rfl⟩

end Accounts

/-! ## Rows under the headings of tables -/

section

variable (text : PyStr)

end

section

variable {text : PyStr} {valves : Valves} {es : List Entry}

/-- What a report is made of. -/
theorem checkCalibration_report {today : Date} {register asOf : PyStr} {at_ : Date} {parsed : RegisterParse}
    {rows : List Assessment} {disposition : Disposition} {report : PyStr}
    (hat : readingDate valves today asOf = some at_)
    (h : checkCalibration valves today register asOf = some (.report parsed rows disposition report)) :
    parseRegisterReport (strip register) valves.dayFirst valves.defaultIntervalMonths = some parsed ∧
      parsed.instruments.mapM (fun i ↦ assess i at_ valves) = some rows ∧
        disposition = dispositionOf rows parsed.skipped := by
  rw [checkCalibration] at h
  simp only [hat] at h
  split_ifs at h
  · cases h
  simp only [Option.bind_eq_bind, Option.bind_eq_some_iff] at h
  obtain ⟨parse, hparse, h⟩ := h
  by_cases hempty : parse.instruments.isEmpty
  · rw [if_pos hempty] at h
    cases h
  rw [if_neg hempty] at h
  simp only [Option.bind_eq_some_iff, Option.pure_def, Option.some.injEq, Outcome.report.injEq] at h
  obtain ⟨assessed, hassessed, rfl, rfl, rfl, -⟩ := h
  exact ⟨hparse, hassessed, rfl⟩

end

/-! ## Two registers -/

section

omit [Unicode] [Casing]

def sampleValves : Valves := ⟨30, 0, 0, true, .finite 4⟩

def sampleToday : Date := (Date.make 2026 7 1).get (by decide)

def Outcome.disposition : Outcome → Option Disposition
  | .reply _ => none
  | .report _ _ disposition _ => some disposition

end

end FourCE.Calibration
