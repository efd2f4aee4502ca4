import FourCE.Calibration.Rows
import Mathlib.Data.List.ReduceOption
import FourCE.Python.Tables

/-!
# Rows on their own

What a register table with several rows has to do with the tables of its rows alone.  Each row is
read and assessed by itself, but an interval that cannot be rounded, or one that leads out of the
calendar, raises, and then the whole check raises with it.
-/

namespace FourCE.Calibration

open FourCE.Python

variable [Unicode] [Casing]

/-! ## Tables -/

/-- A register table: the heading, the separator below it, and the rows below that. -/
structure RegisterTable where
  heading : PyStr
  separator : PyStr
  rows : List PyStr
  heading_pipe : isPipe heading = true
  separator_line : isSeparator separator = true
  register : isRegister (headingColumns heading) = true
  rows_pipe : ∀ row ∈ rows, isPipe row = true ∧ isSeparator row = false

/-- The lines of the text are those of the table, up to white space around them. -/
def RegisterTable.Writes (t : RegisterTable) (register : PyStr) : Prop :=
  (splitLines (strip register)).map strip = (t.heading :: t.separator :: t.rows).map strip

/-- The table with one of its rows alone. -/
def RegisterTable.only (t : RegisterTable) (row : PyStr) (h : row ∈ t.rows) : RegisterTable where
  heading := t.heading
  separator := t.separator
  rows := [row]
  heading_pipe := t.heading_pipe
  separator_line := t.separator_line
  register := t.register
  rows_pipe := by
    intro r hr
    rw [List.mem_singleton.mp hr]
    exact t.rows_pipe row h

def RegisterTable.columns (t : RegisterTable) : List (Column × ℕ) := headingColumns t.heading

/-! ## White space around a line -/

omit [Unicode] [Casing] in
theorem strip_strip (s : PyStr) : strip (strip s) = strip s := (stripped_strip s).strip_eq

omit [Unicode] [Casing] in
theorem isPipe_of_strip {s t : PyStr} (h : strip s = strip t) : isPipe s = isPipe t := by
  rw [isPipe, isPipe, h]

omit [Casing] in
theorem isSeparator_of_strip {s t : PyStr} (h : strip s = strip t) : isSeparator s = isSeparator t := by
  rw [isSeparator, isSeparator, h]

omit [Unicode] [Casing] in
theorem pipeParts_of_strip {s t : PyStr} (h : strip s = strip t) : pipeParts s = pipeParts t := by
  rw [pipeParts, pipeParts, h]

theorem headingColumns_of_strip {s t : PyStr} (h : strip s = strip t) :
    headingColumns s = headingColumns t := by
  rw [headingColumns, headingColumns, pipeParts_of_strip h]

theorem rowEntry_of_strip {s t : PyStr} (h : strip s = strip t) (columns : List (Column × ℕ))
    (dayFirst : Bool) (defaultIntervalMonths : ℤ) (number : ℕ) :
    rowEntry columns dayFirst defaultIntervalMonths number s =
      rowEntry columns dayFirst defaultIntervalMonths number t := by
  rw [rowEntry, rowEntry, pipeParts_of_strip h]

omit [Unicode] [Casing] in
theorem not_blank_of_isPipe {s : PyStr} (h : isPipe s = true) : (strip s).isEmpty = false := by
  rw [isPipe] at h
  cases hs : strip s with
  | nil =>
    rw [hs] at h
    cases h
  | cons c s => rfl

/-! ## The rows of a table -/

section Rows

variable (columns : List (Column × ℕ)) (valves : Valves) (at_ : Date)

/-- The entries of rows, the first of them on line `number`. -/
def rowEntries (number : ℕ) : List PyStr → Option (List Entry)
  | [] => some []
  | raw :: rest => do
    let entry ← rowEntry columns valves.dayFirst valves.defaultIntervalMonths number raw
    return entry :: (← rowEntries (number + 1) rest)

/-- What a row is read as: nothing when it is skipped; an exception outside of that. -/
def readRow (raw : PyStr) : Option (Option Instrument) :=
  (rowEntry columns valves.dayFirst valves.defaultIntervalMonths 0 raw).map Entry.read

/-- The assessment of a row, if it is not skipped. -/
def assessRow (raw : PyStr) : Option (Option Assessment) := do
  match ← readRow columns valves raw with
  | none => return none
  | some i => return some (← assess i at_ valves)

variable {columns valves at_}

theorem readRows_of_rows {number : ℕ} {lines : List PyStr}
    (h : ∀ line ∈ lines, isPipe line = true ∧ isSeparator line = false) :
    readRows columns valves.dayFirst valves.defaultIntervalMonths number lines =
      (rowEntries columns valves number lines).map fun es ↦ (es, number + lines.length, []) := by
  induction lines generalizing number with
  | nil => rfl
  | cons line lines ih =>
    obtain ⟨hpipe, -⟩ := h line List.mem_cons_self
    have hnext : lines.head?.any isSeparator = false := by
      cases lines with
      | nil => rfl
      | cons next lines => exact (h next (by simp)).2
    rw [readRows, rowEntries, not_blank_of_isPipe hpipe, hpipe, hnext,
      ih fun line hline ↦ h line (List.mem_cons_of_mem _ hline)]
    simp only [Bool.false_eq_true, if_false, Bool.not_true, Option.bind_eq_bind, Option.pure_def,
      List.length_cons]
    cases rowEntry columns valves.dayFirst valves.defaultIntervalMonths number line with
    | none => rfl
    | some entry =>
      cases rowEntries columns valves (number + 1) lines with
      | none => rfl
      | some es => simp only [Option.bind_some, Option.map_some, Nat.add_assoc, Nat.add_comm 1]

variable (columns valves) in
/-- The line number goes into the entry, not into what is read. -/
theorem read_rowEntry (number : ℕ) (raw : PyStr) :
    (rowEntry columns valves.dayFirst valves.defaultIntervalMonths number raw).map Entry.read =
      readRow columns valves raw := by
  rw [readRow, rowEntry, rowEntry]
  simp only
  split
  · rfl
  · split_ifs
    · rfl
    · rw [Option.map_map, Option.map_map]
      rfl

/-- All rows are read and then assessed, which comes to each of them being assessed. -/
theorem assess_rowEntries (number : ℕ) (lines : List PyStr) :
    ((rowEntries columns valves number lines).bind fun es ↦
        (es.filterMap Entry.read).mapM fun i ↦ assess i at_ valves) =
      (lines.mapM (assessRow columns valves at_)).map List.reduceOption := by
  induction lines generalizing number with
  | nil => rfl
  | cons raw lines ih =>
    have hread := read_rowEntry columns valves number raw
    rw [rowEntries, List.mapM_cons, assessRow, ← hread]
    have hih := ih (number + 1)
    cases rowEntry columns valves.dayFirst valves.defaultIntervalMonths number raw with
    | none => rfl
    | some entry =>
      simp only [Option.map_some, Option.bind_eq_bind, Option.bind_some, Option.pure_def]
      cases hentry : entry.read with
      | none =>
        -- a row that is skipped adds nothing to either side
        simp only [Option.bind_some, Option.map_bind]
        cases hrest : rowEntries columns valves (number + 1) lines with
        | none =>
          rw [hrest] at hih
          cases hmap : lines.mapM (assessRow columns valves at_) with
          | none => rfl
          | some out => simp [hmap] at hih
        | some es =>
          rw [hrest] at hih
          simp only [Option.bind_some, List.filterMap_cons, hentry] at hih ⊢
          rw [hih]
          cases lines.mapM (assessRow columns valves at_) <;> rfl
      | some i =>
        cases hassess : assess i at_ valves with
        | none =>
          cases rowEntries columns valves (number + 1) lines with
          | none => simp [hassess]
          | some es => simp [hentry, hassess]
        | some row =>
          cases hrest : rowEntries columns valves (number + 1) lines with
          | none =>
            rw [hrest] at hih
            cases hmap : lines.mapM (assessRow columns valves at_) with
            | none => simp [hassess]
            | some out => simp [hmap] at hih
          | some es =>
            rw [hrest] at hih
            simp only [Option.bind_some, List.filterMap_cons, hentry, List.mapM_cons, hassess,
              Option.bind_eq_bind, Option.pure_def] at hih ⊢
            rw [hih]
            cases lines.mapM (assessRow columns valves at_) <;> rfl

theorem rowEntries_of_strip {lines rows : List PyStr} (h : lines.map strip = rows.map strip)
    (number : ℕ) : rowEntries columns valves number lines = rowEntries columns valves number rows := by
  induction lines generalizing rows number with
  | nil =>
    obtain rfl : rows = [] := by simpa using h.symm
    rfl
  | cons line lines ih =>
    cases rows with
    | nil => exact absurd h (by simp)
    | cons row rows =>
      rw [List.map_cons, List.map_cons, List.cons.injEq] at h
      rw [rowEntries, rowEntries, rowEntry_of_strip h.1, ih h.2]

end Rows

/-! ## The check of a table -/

theorem readTables_nil (dayFirst : Bool) (defaultIntervalMonths : ℤ) (fuel index : ℕ) :
    readTables dayFirst defaultIntervalMonths fuel index [] = some [] := by
  cases fuel <;> rfl

/-- The entries of a text that holds the table and nothing else. -/
theorem RegisterTable.Writes.tableEntries {t : RegisterTable} {register : PyStr}
    (h : t.Writes register) (valves : Valves) :
    tableEntries (strip register) valves.dayFirst valves.defaultIntervalMonths =
      (rowEntries t.columns valves 2 t.rows).map (.heading 0 :: ·) := by
  rw [RegisterTable.Writes] at h
  cases hlines : splitLines (strip register) with
  | nil => exact absurd (hlines ▸ h) (by simp)
  | cons heading rest =>
    cases rest with
    | nil => exact absurd (hlines ▸ h) (by simp)
    | cons separator lines =>
      rw [hlines] at h
      simp only [List.map_cons, List.cons.injEq] at h
      obtain ⟨hheading, hseparator, hrows⟩ := h
      have hpipe : isPipe heading = true := (isPipe_of_strip hheading).trans t.heading_pipe
      have hsep : isSeparator separator = true := (isSeparator_of_strip hseparator).trans t.separator_line
      have hcolumns : headingColumns heading = t.columns := headingColumns_of_strip hheading
      have hall : ∀ line ∈ lines, isPipe line = true ∧ isSeparator line = false := by
        intro line hline
        have hmem : strip line ∈ t.rows.map strip := hrows ▸ List.mem_map_of_mem hline
        obtain ⟨row, hrow, heq⟩ := List.mem_map.mp hmem
        obtain ⟨hp, hs⟩ := t.rows_pipe row hrow
        exact ⟨(isPipe_of_strip heq.symm).trans hp, (isSeparator_of_strip heq.symm).trans hs⟩
      have hregister : isRegister t.columns = true := t.register
      rw [Calibration.tableEntries, hlines, List.length_cons, readTables, hpipe, hsep, hcolumns]
      simp only [hregister, readRows_of_rows hall, rowEntries_of_strip hrows]
      cases rowEntries t.columns valves (0 + 2) t.rows with
      | none => rfl
      | some es => simp [readTables_nil]

/-- The rows that a report is on. -/
def Outcome.rows : Outcome → List Assessment
  | .reply _ => []
  | .report _ rows _ _ => rows

theorem RegisterTable.Writes.nonempty {t : RegisterTable} {register : PyStr} (h : t.Writes register) :
    (strip register).isEmpty = false := by
  cases hstrip : strip register with
  | nil =>
    rw [RegisterTable.Writes, hstrip] at h
    exact absurd h (by simp [splitLines, splitLinesFrom])
  | cons c s => rfl

theorem RegisterTable.Writes.checkCalibration {t : RegisterTable} {register asOf : PyStr} {valves : Valves}
    {today at_ : Date} (h : t.Writes register) (hat : readingDate valves today asOf = some at_) :
    (checkCalibration valves today register asOf).map Outcome.rows =
      (t.rows.mapM (assessRow t.columns valves at_)).map List.reduceOption := by
  rw [Calibration.checkCalibration]
  simp only [h.nonempty, hat, parseRegisterReport, parseTableReport, h.tableEntries valves]
  rw [← assess_rowEntries 2 t.rows]
  cases rowEntries t.columns valves 2 t.rows with
  | none => rfl
  | some es =>
    have hfrom : (reportOf (.heading 0 :: es)).fromTable = true := rfl
    have hread : (reportOf (.heading 0 :: es)).instruments = es.filterMap Entry.read := rfl
    simp only [Option.map_some, Option.bind_eq_bind, Option.bind_some, Option.pure_def, hfrom, hread,
      Bool.or_true, if_true, Bool.false_eq_true, if_false]
    cases hes : es.filterMap Entry.read with
    | nil => rfl
    | cons i is =>
      simp only [List.isEmpty_cons, Bool.false_eq_true, if_false]
      cases (i :: is).mapM fun i ↦ assess i at_ valves <;> rfl

/-! ## Rows that can be assessed -/

section

variable (columns : List (Column × ℕ)) (valves : Valves)

variable {columns valves} {at_ : Date}

end

/-! ## Every row by itself -/

section

variable {t : RegisterTable} {valves : Valves} {today : Date} {register asOf : PyStr}

end

/-! ## Two instruments -/

section

omit [Unicode] [Casing]

end

end FourCE.Calibration
