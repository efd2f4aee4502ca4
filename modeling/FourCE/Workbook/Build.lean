import FourCE.Python.Object
import FourCE.Tools.Formula
import FourCE.Workbook.Blocks

/-!
# The workbook of an answer

`_build_xlsx` of the deliverables tool: a sheet for each table of the answer, one for each
calculation of remaining life, the notes, and the page about the workbook.  A cell is the value the
tool assigns and its number format; fonts, fills and widths are left out.
-/

namespace FourCE.Workbook

open FourCE.Python
open FourCE.Tools (columnLetters)

/-- What a cell is assigned: a number of the answer, or a value of the calculation data. -/
inductive CellValue (F : Type)
  | text (s : PyStr)
  | whole (n : ℤ)
  | number (x : Double)
  | given (v : Json F)

/-- The string in a cell. -/
def CellValue.string {F : Type} : CellValue F → Option PyStr
  | .text s | .given (.str s) => some s
  | _ => none

/-- A cell of a sheet; rows and columns count from 1. -/
structure Cell (F : Type) where
  row : ℕ
  column : ℕ
  value : CellValue F
  numberFormat : PyStr := py "General"

def textCell {F : Type} (row column : ℕ) (s : PyStr) : Cell F := { row, column, value := .text s }

/-! ## Tables -/

/-- `x * y`. -/
def mulDouble : Double → Double → Double
  | .finite p, .finite q => .ofRat (p * q)
  | .inf neg, .finite q | .finite q, .inf neg => if q = 0 then .nan else .inf (neg != decide (q < 0))
  | .inf m, .inf n => .inf (m != n)
  | .nan, _ | _, .nan => .nan

/-- `sum(xs)`. -/
def sumDouble (xs : List Double) : Double := xs.foldl Double.add (.finite 0)

/-- `abs(sum(values) - stated) <= 1e-6 * max(1.0, abs(stated))`. -/
def addsUp (values : List Double) (stated : Double) : Bool :=
  let size := if Double.lt (.finite 1) stated.abs then stated.abs else .finite 1
  ((sumDouble values).sub stated).abs.le (mulDouble (.ofRat (1 / 10 ^ 6)) size)

/-- `float(x).is_integer()`, and the integer. -/
def wholeNumber : Double → Option ℤ
  | .finite q => if q.den = 1 then some q.num else none
  | .inf _ | .nan => none

def totalWord : Pattern := re { ignoreCase := true } (py "^\\s*total\\b") (by decide)

/-- A table with all its rows of one width. -/
structure Grid where
  header : List PyStr
  rows : List (List PyStr)

def padTo (width : ℕ) (row : List PyStr) : List PyStr := row ++ List.replicate (width - row.length) []

def gridWidth (header : List PyStr) (rows : List (List PyStr)) : ℕ :=
  rows.foldl (fun width row ↦ max width row.length) header.length

def gridOf (header : List PyStr) (rows : List (List PyStr)) : Grid :=
  let width := gridWidth header rows
  ⟨padTo width header, rows.map (padTo width)⟩

section

variable [Unicode] [Casing] {F : Type}

/-- The last row, if it says it is a total. -/
def Grid.total (g : Grid) : Option (List PyStr) :=
  g.rows.getLast?.filter fun row ↦ (reMatch totalWord (plain (row.headD []))).isSome

def Grid.data (g : Grid) : List (List PyStr) := if g.total.isSome then g.rows.dropLast else g.rows

/-- The unit of a column of numbers; `none` for any other column. -/
def Grid.unit (g : Grid) (c : ℕ) : Option PyStr :=
  let shown := (g.data.map fun row ↦ row.getD c []).filter fun cell ↦ !(plain cell).isEmpty
  match shown.mapM numeric with
  | some (p :: ps) => if ps.all (·.2 = p.2) then some p.2 else none
  | _ => none

/-- The header of a column: a unit its numbers share moves into it. -/
def Grid.label (g : Grid) (c : ℕ) (name : PyStr) : PyStr :=
  let label := plain name
  match g.unit c with
  | some unit =>
    if !unit.isEmpty && unit ≠ py "%" && !contains (Casing.lower unit) (Casing.lower label) then
      label ++ py " (" ++ unit ++ py ")"
    else label
  | none => label

def percent : PyStr := py "%"

/-- A cell of the data: a number in a column of numbers, words elsewhere. -/
def Grid.dataCell (g : Grid) (row c : ℕ) (raw : PyStr) : Cell F :=
  match g.unit c, (g.unit c).bind fun _ ↦ numeric raw with
  | some unit, some (value, _) =>
    if unit = percent then ⟨row, c + 1, .number (value.div (.finite 100)), py "0%"⟩
    else match wholeNumber value with
      | some n => ⟨row, c + 1, .whole n, py "0"⟩
      | none => ⟨row, c + 1, .number value, py "0.0##"⟩
  | _, _ => textCell row (c + 1) (plain raw)

/-- `=SUM(…)` over the data of a column. -/
def Grid.sumFormula (g : Grid) (c : ℕ) : PyStr :=
  let col := columnLetters (c + 1)
  py "=SUM(" ++ col ++ py "2:" ++ col ++ natText (g.data.length + 1) ++ py ")"

/-- The total stated for a column, if it is the sum of the column. -/
def Grid.checkedTotal (g : Grid) (c : ℕ) (raw : PyStr) : Bool :=
  match g.unit c, numeric raw with
  | some _, some (stated, _) => !g.data.isEmpty &&
      addsUp ((g.data.filterMap fun row ↦ numeric (row.getD c [])).map Prod.fst) stated
  | _, _ => false

def Grid.totalCell (g : Grid) (c : ℕ) (raw : PyStr) : Cell F :=
  let row := g.data.length + 2
  if g.checkedTotal c raw then
    ⟨row, c + 1, .text (g.sumFormula c), if g.unit c = some percent then py "0%" else py "0.0##"⟩
  else textCell row (c + 1) (plain raw)

/-- `_write_table`. -/
def writeTable (header : List PyStr) (rows : List (List PyStr)) : List (Cell F) :=
  let g := gridOf header rows
  (g.header.zipIdx.map fun p ↦ textCell 1 (p.2 + 1) (g.label p.2 p.1)) ++
    (g.data.zipIdx.flatMap fun r ↦ r.1.zipIdx.map fun p ↦ g.dataCell (r.2 + 2) p.2 p.1) ++
    match g.total with
    | none => []
    | some last => textCell (g.data.length + 2) 1 (plain (last.headD [])) ::
        (last.zipIdx.tail.map fun p ↦ g.totalCell p.2 p.1)

end

/-! ## Remaining life -/

section

variable {F : Type} [Runtime F]

/-- A row of a calculation: its six inputs. -/
structure LifeRow (F : Type) where
  location : Json F
  previous : Json F
  current : Json F
  required : Json F
  years : Json F
  maximum : Json F

def LifeRow.values (r : LifeRow F) : List (Json F) :=
  [r.location, r.previous, r.current, r.required, r.years, r.maximum]

def lifeHeader : List PyStr :=
  [py "Location", py "Previous thickness (mm)", py "Current thickness (mm)", py "Required thickness (mm)",
    py "Interval (years)", py "Maximum interval (years)", py "Corrosion rate (mm/year)",
    py "Remaining life (years)", py "Next measurement within (years)"]

/-- A row of `calculation["rows"]`, the one of row `r` of the sheet; what is missing raises. -/
def lifeRow (maximum : Json F) (r : ℕ) (row : Json F) : Option (LifeRow F) := do
  let location ← row.get (py "location")
  let previous ← row.item (py "previous")
  let current ← row.item (py "current")
  let required ← row.item (py "required")
  let years ← row.item (py "years")
  let interval ← row.get (py "max_interval")
  let named := (location.getD .null).orElse (.str (py "Location " ++ natText (r - 1)))
  return ⟨named, previous, current, required, years, interval.getD maximum⟩

/-- The three formulas of a row, and their number formats. -/
def lifeFormulas (r : ℕ) : List (PyStr × PyStr) :=
  let n := natText r
  [(py "=IF(E" ++ n ++ py ">0,(B" ++ n ++ py "-C" ++ n ++ py ")/E" ++ n ++ py ",\"\")", py "0.000"),
    (py "=IF(C" ++ n ++ py "<=D" ++ n ++ py ",0,IF(N(G" ++ n ++ py ")<=0,\"not corrosion-limited\",(C" ++ n ++
      py "-D" ++ n ++ py ")/G" ++ n ++ py "))", py "0.0"),
    (py "=IF(ISNUMBER(H" ++ n ++ py "),IF(ISNUMBER(F" ++ n ++ py "),MIN(H" ++ n ++ py "/2,F" ++ n ++
      py "),H" ++ n ++ py "/2),IF(ISNUMBER(F" ++ n ++ py "),F" ++ n ++
      py ",\"the code's normal interval\"))", py "0.0")]

/-- The cells of one row: its inputs, and the formulas over them. -/
def lifeRowCells (r : ℕ) (row : LifeRow F) : List (Cell F) :=
  (row.values.zipIdx.map fun p ↦
    ⟨r, p.2 + 1, .given p.1, if p.2 = 0 then py "General" else py "0.0##"⟩) ++
  (lifeFormulas r).zipIdx.map fun p ↦ ⟨r, p.2 + 7, .text p.1.1, p.1.2⟩

def lifeNote (basis : Option PyStr) : PyStr :=
  py "Blue cells are inputs; change one and the rest recalculate. Corrosion rate = (previous - " ++
    py "current) / interval. Remaining life = (current - required) / corrosion rate, and 0 at or " ++
    py "below the required thickness. Next measurement = the lesser of remaining life / 2 and the " ++
    py "maximum interval, when one is given" ++
    match basis with
    | some basis => py " - here " ++ basis ++ py "."
    | none => py "."

/-- `_remaining_life_sheet`. -/
def remainingLifeSheet (rows : List (LifeRow F)) (basis : Option PyStr) : List (Cell F) :=
  (lifeHeader.zipIdx.map fun p ↦ textCell 1 (p.2 + 1) p.1) ++
    (rows.zipIdx.flatMap fun p ↦ lifeRowCells (p.2 + 2) p.1) ++
    [textCell (rows.length + 3) 1 (lifeNote basis)]

end

/-! ## The workbook -/

/-- What a sheet is written from. -/
inductive Page (F : Type)
  | table (header : List PyStr) (rows : List (List PyStr))
  | life (rows : List (LifeRow F)) (basis : Option PyStr)
  | notes (lines : List PyStr)
  | about (title : PyStr) (record : List (PyStr × PyStr)) (sources : List PyStr)

structure Sheet (F : Type) where
  name : PyStr
  page : Page F

def badTitle : Pattern := re {} (py "[\\[\\]:*?/\\\\]") (by decide)

section

variable [Unicode] [Casing] {F : Type}

def aboutNote : PyStr :=
  py "Produced by 4CE on this machine with local open-weight models. The figures are the " ++
    py "released answer's own; the only formulas are totals that were checked to add up."

/-- The page about the workbook: its title, the record of the run, and the sources. -/
def aboutCells (title : PyStr) (record : List (PyStr × PyStr)) (sources : List PyStr) : List (Cell F) :=
  [textCell 1 1 (plain title), textCell 2 1 aboutNote] ++
    (record.zipIdx.flatMap fun p ↦ [textCell (p.2 + 4) 1 p.1.1, textCell (p.2 + 4) 2 (plain p.1.2)]) ++
    if sources.isEmpty then []
    else textCell (record.length + 5) 1 (py "Sources") :: sources.zipIdx.map fun p ↦
      textCell (record.length + 5 + p.2) 2 (py "[" ++ natText (p.2 + 1) ++ py "] " ++ p.1)

/-- The cells of a sheet. -/
def Page.cells : Page F → List (Cell F)
  | .table header rows => writeTable header rows
  | .life rows basis => remainingLifeSheet rows basis
  | .notes lines => lines.zipIdx.map fun p ↦ textCell (p.2 + 1) 1 p.1
  | .about title record sources => aboutCells title record sources

/-- `_sheet_name`, without recording the name as used: a number behind a name already taken. -/
def sheetName (name : PyStr) (used : List PyStr) : PyStr :=
  let words := (strip (reSub badTitle (fun _ ↦ py " ") (plain name))).take 28
  let base := if words.isEmpty then py "Sheet" else words
  let numbered := (List.range (used.length + 1)).map fun n ↦ base.take 25 ++ py " " ++ natText (n + 2)
  ((base :: numbered).find? fun candidate ↦ Casing.lower candidate ∉ used).getD base

/-- The workbook as it is built: the sheets so far, the names they use, and the words for the notes. -/
structure Building (F : Type) where
  heading : PyStr := []
  tables : ℕ := 0
  prose : List PyStr := []
  used : List PyStr := []
  sheets : List (Sheet F) := []

def Building.use (b : Building F) (name : PyStr) : Building F :=
  { b with used := b.used ++ [Casing.lower name] }

/-- `book.create_sheet(_sheet_name(name, used))`. -/
def Building.append (b : Building F) (name : PyStr) (page : Page F) : Building F :=
  let name := sheetName name b.used
  { b.use name with sheets := b.sheets ++ [⟨name, page⟩] }

/-- `book.create_sheet(_sheet_name(name, used), 0)`. -/
def Building.prepend (b : Building F) (name : PyStr) (page : Page F) : Building F :=
  let name := sheetName name b.used
  { b.use name with sheets := ⟨name, page⟩ :: b.sheets }

def Building.addProse (b : Building F) (lines : List PyStr) : Building F :=
  { b with prose := b.prose ++ lines }

/-- A block of the answer. -/
def Building.add (b : Building F) : Block → Building F
  | .heading _ text => { b with heading := text }.addProse [plain text]
  | .para text => b.addProse [plain text]
  | .items items => b.addProse (items.map fun item ↦ py "• " ++ plain item)
  | .table header rows =>
    let b := { b with tables := b.tables + 1 }
    b.append (if b.heading.isEmpty then py "Table " ++ natText b.tables else b.heading) (.table header rows)
  | .code _ | .image _ _ => b

variable [Runtime F]

/-- The rows and the basis of a calculation of remaining life; `none` inside is one that is not
rebuilt, and what `_remaining_life_sheet` cannot read raises. -/
def lifeRows (calculation : Json F) : Option (Option (List (LifeRow F) × Option PyStr)) := do
  let kind ← calculation.get (py "kind")
  let rows ← calculation.get (py "rows")
  if !(kind.getD .null).isStr (py "remaining_life") || !(rows.getD .null).truth then return none
  let maximum ← calculation.get (py "max_interval")
  let rows ← (rows.getD .null).iter
  let read ← rows.zipIdx.mapM fun p ↦ lifeRow (maximum.getD .null) (p.2 + 2) p.1
  let basis ← calculation.get (py "basis")
  return some (read, (basis.filter Json.truth).map Json.text)

def Building.addCalculation (b : Building F) (calculation : Json F) : Option (Building F) :=
  (lifeRows calculation).map fun found ↦ match found with
    | some (rows, basis) => b.prepend (py "Remaining life") (.life rows basis)
    | none => b

def Building.addNotes (b : Building F) : Building F :=
  if b.prose.isEmpty then b else b.append (py "Notes") (.notes b.prose)

/-- `_build_xlsx`.  The library takes or refuses the value of a cell; a refusal raises. -/
def buildXlsx (accepts : CellValue F → Bool) (title body : PyStr) (record : List (PyStr × PyStr))
    (sources : List PyStr) (calculations : List (Json F)) : Option (List (Sheet F)) := do
  let answer : Building F := (blocks body).foldl Building.add {}
  let b ← calculations.foldlM Building.addCalculation answer
  let book := (b.addNotes.append (py "About this workbook") (.about title record sources)).sheets
  if book.all fun sheet ↦ sheet.page.cells.all fun cell ↦ accepts cell.value then return book else none

end

end FourCE.Workbook
