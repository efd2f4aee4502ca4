import FourCE.Python.Object
import FourCE.Tools.Formula
import FourCE.Tools.Sheets
import Mathlib.Data.List.Sort

/-!
# The changes to a copy of a workbook

The checks of `write_sheet` on the changes it is given, and `_apply`, of `tools/sheets.py`: the
changes made to a worksheet, one after the other, and what their cells come to in the copy that is
read back.  openpyxl is a parameter, and the fonts and widths of cells are left out.
-/

namespace FourCE.Tools

open FourCE.Python

variable {K F : Type}

/-! ## Worksheets -/

/-- A column and a row, counted from 1. -/
abbrev Position := ℕ × ℕ

/-- The cells of a worksheet, an empty one among them when something has reached for it; the first
of two cells at a position counts. -/
structure Worksheet (K : Type) where
  cells : List (Position × Value K)

/-- `ws[position].value`. -/
def Worksheet.value (w : Worksheet K) (p : Position) : Value K := (w.cells.lookup p).getD .none

/-- `ws.max_column`. -/
def Worksheet.maxColumn (w : Worksheet K) : ℕ := (w.cells.map fun c ↦ c.1.1).foldr max 1

def Worksheet.put (w : Worksheet K) (p : Position) (v : Value K) : Worksheet K := ⟨(p, v) :: w.cells⟩

/-- The cell of a position, made when there is none. -/
def Worksheet.reach (w : Worksheet K) (p : Position) : Worksheet K := w.put p (w.value p)

/-- `value not in (None, "")`. -/
def filled : Value K → Bool
  | .none => false
  | .str s => !s.isEmpty
  | _ => true

/-- The last row with anything in column A. -/
def Worksheet.lastRow (w : Worksheet K) : ℕ :=
  ((w.cells.filter fun c ↦ c.1.1 = 1 && filled (w.value c.1)).map fun c ↦ c.1.2).max?.getD 1

/-! ## References -/

/-- The letters of a reference. -/
def refLetters (ref : PyStr) : PyStr := ref.takeWhile fun c ↦ 65 ≤ c.val && c.val ≤ 90

/-- The row of a reference. -/
def refRow [Unicode] (ref : PyStr) : ℕ := intOf (ref.dropWhile fun c ↦ 65 ≤ c.val && c.val ≤ 90)

def positionOf [Unicode] (ref : PyStr) : Position := (columnNumber (refLetters ref), refRow ref)

/-! ## openpyxl -/

/-- What `_apply` asks of openpyxl, of the reader of CSV files, and of the interpreter. -/
structure Openpyxl (K F : Type) where
  /-- The worksheet to be changed, of the workbook or of a new one that a CSV is copied into, and what
  there is to note about it. -/
  opened : SheetSource → Except ApplyError (Worksheet K × List PyStr)
  /-- What the cell at a position makes of a value assigned to it. -/
  assign : Position → Json F → Except PyStr (Value K)
  /-- `book.save`. -/
  save : SheetSource → Worksheet K → Except PyStr Bytes
  /-- The changed sheet of a copy that is read back. -/
  load : Bytes → Except PyStr (Sheet K)
  /-- `repr(x)`. -/
  repr : Json F → PyStr
  /-- Python's parser of expressions. -/
  parse : PyStr → Option (Node K)
  /-- How deep the interpreter recurses. -/
  depth : ℕ

/-! ## The checks on changes -/

section Checks

variable [Unicode] [Casing] [Runtime F]

def hasKey (change : Json F) (key : PyStr) : Bool :=
  match change with
  | .obj d => (dictGet d key).isSome
  | _ => false

/-- `change[key]`, where the key is there. -/
def keyOf (change : Json F) (key : PyStr) : Json F := (change.item key).getD .null

/-- Why a change is refused. -/
def refuseChange (change : Json F) : Option PyStr :=
  let has := hasKey change
  if !((has (py "column") || has (py "cell")) &&
      (has (py "formula") || has (py "value") || has (py "values") && has (py "column"))) then
    some (py "A change must name a column or a cell, and a formula or a value: " ++ change.text ++
      py ". Nothing was written.")
  else
    let checked := match keyOf change (py "formula") with
      | .null => none
      | formula =>
        if !startsWith (py "=") formula.text then
          some (py "`" ++ formula.text ++ py "` is not a formula (it must start with =). Nothing was written.")
        else if (reSearch UNSAFE formula.text).isSome then
          some (py "`" ++ formula.text ++
            py "` could reach outside the workbook - another file, a web service, " ++
            py "a link or a program - so it was refused. Nothing was written.")
        else none
    match checked with
    | some why => some why
    | none =>
      let cell := (keyOf change (py "cell")).text
      if has (py "cell") && (reFullmatch REF (Casing.upper cell)).isNone then
        some (py "`" ++ cell ++ py "` is not a cell reference. Nothing was written.")
      else none

/-- Why a list of changes is refused, if it is. -/
def refusal (changes : List (Json F)) : Option PyStr := changes.findSome? refuseChange

end Checks

/-! ## The changes, one after the other -/

section Apply

variable [Floats K] [Unicode] [Casing] [Runtime F] (px : Openpyxl K F)

omit [Floats K] [Unicode] [Casing] [Runtime F] in
def orFail {α : Type} (result : Except PyStr α) : Except ApplyError α := result.mapError .failed

omit [Floats K] [Unicode] [Casing] [Runtime F] in
/-- `ws.cell(row, column, value)`: a value that is `None` leaves the cell as it is. -/
def setCell (w : Worksheet K) (p : Position) (value : Json F) : Except ApplyError (Worksheet K) :=
  match value with
  | .null => .ok (w.reach p)
  | value => do return w.put p (← orFail (px.assign p value))

omit [Floats K] [Unicode] [Casing] [Runtime F] in
/-- `ws[ref] = value`. -/
def assignCell (w : Worksheet K) (p : Position) (value : Json F) : Except ApplyError (Worksheet K) :=
  match value with
  | .null => .ok (w.put p .none)
  | value => do return w.put p (← orFail (px.assign p value))

/-- The heading of an added column. -/
def headerOf (change : Json F) : PyStr :=
  let header := strip (keyOf change (py "column")).text
  if header.isEmpty then py "New column" else header

/-- The values of an added column, when they are given row by row. -/
def givenValues (change : Json F) : Option (List (Json F)) :=
  match change.item (py "values") with
  | some (.arr xs) => some xs
  | _ => none

/-- What an added column holds in a row. -/
def columnValue (change : Json F) (row : ℕ) : Except ApplyError (Json F) :=
  if hasKey change (py "formula") then
    .ok (.str (replace (py "{row}") (natText row) (keyOf change (py "formula")).text))
  else match givenValues change with
    | some given => match given[row - 2]? with
      | some (.str s) => .ok (if s.isEmpty then .null else .str s)
      | some value => .ok value
      | none => .ok .null
    | none => if hasKey change (py "value") then .ok (keyOf change (py "value")) else .error (.failed (py "'value'"))

/-- What a change puts into cells, in the words of the notes. -/
def whatOf (change : Json F) : Except ApplyError PyStr :=
  if hasKey change (py "formula") then .ok (py "`" ++ (keyOf change (py "formula")).text ++ py "`")
  else if hasKey change (py "column") && (givenValues change).isSome then
    .ok (py "the values given, row by row")
  else if hasKey change (py "value") then .ok (px.repr (keyOf change (py "value")))
  else .error (.failed (py "'value'"))

/-- The rows of an added column, from `row` on. -/
def fillColumn (change : Json F) (column : ℕ) : List ℕ → Worksheet K → Except ApplyError (Worksheet K)
  | [], w => .ok w
  | row :: rows, w => do
    let value ← columnValue change row
    fillColumn change column rows (← setCell px w (column, row) value)

/-- The rows below the heading. -/
def dataRows (last : ℕ) : List ℕ := List.range' 2 (last - 1)

/-- The column that a change adds. -/
def addColumn (last : ℕ) (w : Worksheet K) (change : Json F) :
    Except ApplyError (Worksheet K × List PyStr × PyStr) := do
  let column := w.maxColumn + 1
  let header := headerOf change
  let w ← setCell px w (column, 1) (.str header)
  let w ← fillColumn px change column (dataRows last) (w.reach (column - 1, 1))
  return (w, (dataRows last).map (refText column), py "Added column " ++ columnLetters column ++
    py ", \"" ++ header ++ py "\", as " ++ (← whatOf px change) ++ py " on rows 2-" ++ natText last ++ py ".")

/-- The reference of a change of one cell. -/
def cellRef (change : Json F) : PyStr := replace (py "$") [] (Casing.upper (keyOf change (py "cell")).text)

/-- The cell that a change sets. -/
def changeCell (w : Worksheet K) (change : Json F) :
    Except ApplyError (Worksheet K × List PyStr × PyStr) := do
  let ref := cellRef change
  let value := keyOf change (if hasKey change (py "formula") then py "formula" else py "value")
  let w ← assignCell px w (positionOf ref) value
  return (w, [ref], py "Set " ++ ref ++ py " to " ++ (← whatOf px change) ++ py ".")

def applyChange (last : ℕ) (w : Worksheet K) (change : Json F) :
    Except ApplyError (Worksheet K × List PyStr × PyStr) :=
  if hasKey change (py "column") then addColumn px last w change else changeCell px w change

/-- The changes made to a worksheet: the cells written, and what was done. -/
def applyAll (last : ℕ) : Worksheet K → List (Json F) → Except ApplyError (Worksheet K × List PyStr × List PyStr)
  | w, [] => .ok (w, [], [])
  | w, change :: changes => do
    let (w, written, note) ← applyChange px last w change
    let (w, more, notes) ← applyAll last w changes
    return (w, written ++ more, note :: notes)

/-! ## What the new cells come to -/

/-- The columns of the cells written, in order. -/
def writtenColumns (written : List PyStr) : List PyStr :=
  (written.map refLetters).dedup.insertionSort fun a b ↦ columnNumber a ≤ columnNumber b

/-- The rows of the cells written below the heading, in order. -/
def writtenRows (written : List PyStr) : List ℕ :=
  ((written.map refRow).dedup.filter (· ≠ 1)).insertionSort (· ≤ ·)

def tableLine (cells : List PyStr) (last : PyStr) : PyStr :=
  py "| " ++ join (py " | ") cells ++ py " | " ++ last ++ py " |"

def dashLine (columns : ℕ) : PyStr := py "|" ++ (List.replicate columns (py "---|")).flatten

/-- The values of the cells written, as a table, and those of them that are blocked. -/
def previewTable (value : PyStr → EvalM K (Value K)) (written : List PyStr) :
    EvalM K (List PyStr × List PyStr) := do
  let columns := writtenColumns written
  let shownColumns := if py "A" ∈ columns then columns else py "A" :: columns
  let head ← shownColumns.mapM fun c ↦ do
    return c ++ py " · " ++ shown (← value (c ++ py "1"))
  let rows ← (writtenRows written).mapM fun r ↦ do
    let cells ← shownColumns.mapM fun c ↦ do return shown (← value (c ++ natText r))
    return tableLine cells (natText r)
  let values ← written.mapM fun ref ↦ do return (ref, ← value ref)
  let blocked := values.filter fun v ↦ v.2.equal (.str (py "#BLOCKED!"))
  return (tableLine head (py "Row") :: dashLine (shownColumns.length + 1) :: rows, blocked.map Prod.fst)

/-- `_apply(data, suffix, sheet, changes)`. -/
def applyCopy (source : SheetSource) (changes : List (Json F)) : Except ApplyError SheetCopy := do
  let (w, opening) ← px.opened source
  let (w, written, notes) ← applyAll px w.lastRow w changes
  let payload ← orFail (px.save source w)
  let sheet ← orFail (px.load payload)
  match (previewTable (gridValue px.parse sheet.cells [] px.depth) written).run ⟨[], []⟩ with
  | (.error _, _) => .error (.failed [])
  | (.ok (lines, blocked), _) =>
    if blocked.isEmpty then
      return { payload := payload
               notes := opening ++ notes
               preview := if 2 < lines.length then join (py "\n") lines else [] }
    else .error (.refused (join (py ", ") blocked ++ py " would reach outside the workbook."))

end Apply

end FourCE.Tools
