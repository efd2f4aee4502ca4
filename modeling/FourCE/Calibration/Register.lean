import FourCE.Calibration.Values
import Mathlib.Data.List.Sort

/-!
# The register tables

`parse_table_report` of `tools/calibration.py`: which lines of a text are the headings of register
tables, and what becomes of the rows under them.  The entries of a report come with the number of
the line they are made from, counted from 0.
-/

namespace FourCE.Calibration

open FourCE.Python

/-! ## Columns -/

/-- The keys of `_COLUMNS`. -/
inductive Column
  | instrument
  | parameter
  | lastCal
  | interval
  | due
  | tolerance
  | asFound
  | asLeft
  | uncertainty
  | certificate
  deriving DecidableEq, Repr

/-- `_COLUMNS`. -/
def COLUMNS : List (Column × List PyStr) :=
  [(.instrument, [py "instrument", py "instrument tag", py "tag no", py "tag", py "device", py "gauge",
      py "transmitter", py "asset id", py "asset", py "id"]),
    (.parameter, [py "parameter", py "service", py "measurement", py "function", py "variable"]),
    (.lastCal, [py "last calibration date", py "last calibration", py "last cal date", py "last cal",
      py "calibration date", py "calibrated on", py "calibrated", py "cal date"]),
    (.interval, [py "recalibration interval", py "calibration interval", py "interval", py "period",
      py "frequency", py "recalibration"]),
    (.due, [py "next calibration date", py "next calibration", py "next cal date", py "next cal",
      py "calibration due date", py "calibration due", py "valid until", py "due date", py "due",
      py "expiry date", py "expiry", py "expires"]),
    (.tolerance, [py "acceptance tolerance", py "tolerance", py "accuracy", py "acceptance",
      py "permitted", py "limit"]),
    (.asFound, [py "as found error", py "as found", py "found error", py "error"]),
    (.asLeft, [py "as left error", py "as left"]),
    (.uncertainty, [py "measurement uncertainty", py "reference uncertainty", py "uncertainty", py "tur"]),
    (.certificate, [py "certificate no", py "certificate", py "cert no", py "cert", py "report"])]

/-- `_HEADER_REJECTS`. -/
def HEADER_REJECTS : Column → List PyStr
  | .instrument => [py "ref", py "reference", py "standard", py "manufacturer", py "model", py "serial",
      py "certificate", py "report"]
  | _ => []

/-- How well a heading matches a phrase, and the words and the length of the phrase. -/
abbrev Rank := ℕ × ℕ × ℕ

/-- `s < t` for ranks. -/
def rankLt (s t : Rank) : Bool :=
  s.1 < t.1 || s.1 = t.1 && (s.2.1 < t.2.1 || s.2.1 = t.2.1 && s.2.2 < t.2.2)

/-- `_header_rank(header, phrase)`. -/
def headerRank (header phrase : PyStr) : Option Rank :=
  let size := ((words phrase).length, phrase.length)
  if header = phrase then some (3, size)
  else if startsWith (phrase ++ py " ") header || endsWith (py " " ++ phrase) header then some (2, size)
  else if contains (py " " ++ phrase ++ py " ") (py " " ++ header ++ py " ") then some (1, size)
  else none

/-- The best rank of a heading among phrases. -/
def bestRank (header : PyStr) (phrases : List PyStr) : Option Rank :=
  phrases.foldl (fun best phrase ↦ match headerRank header phrase, best with
    | some rank, none => some rank
    | some rank, some b => if rankLt b rank then some rank else some b
    | none, best => best) none

section

variable [Unicode] [Casing]

def notAlnumRun : Pattern := re {} (py "[^a-z0-9]+") (by decide)

/-- `_normalise_header(value)`. -/
def normaliseHeader (value : PyStr) : PyStr :=
  let value := replace (py "-") (py " ") (Casing.lower value)
  strip (squeeze (py " ") (reSub notAlnumRun (fun _ ↦ py " ") value))

/-- `match_columns(header)`: columns with their positions, in the order they are assigned. -/
def matchColumns (header : List PyStr) : List (Column × ℕ) :=
  let candidates : List (Rank × Column × ℕ) := COLUMNS.flatMap fun (key, phrases) ↦
    header.zipIdx.filterMap fun (name, position) ↦
      if (HEADER_REJECTS key).any fun word ↦ standsAlone isWord word name then none
      else (bestRank name phrases).map fun best ↦ (best, key, position)
  let sorted := candidates.insertionSort fun a b ↦ ¬ rankLt a.1 b.1
  sorted.foldl (fun columns (_, key, position) ↦
    if columns.any fun c ↦ c.1 = key ∨ c.2 = position then columns else columns ++ [(key, position)]) []

/-! ## Lines -/

omit [Unicode] [Casing] in
theorem separatorLine_compiles : (compile {} (py r"^\|?\s*:?-{2,}")).isSome = true := by decide

def separatorLine : Pattern := re {} (py r"^\|?\s*:?-{2,}") separatorLine_compiles

/-- `_is_separator(line)`. -/
def isSeparator (line : PyStr) : Bool := (reMatch separatorLine (strip line)).isSome

/-- `line.strip().startswith("|")`. -/
def isPipe (line : PyStr) : Bool := startsWith (py "|") (strip line)

/-- `line.strip().strip("|").split("|")`. -/
def pipeParts (line : PyStr) : List PyStr := (stripOf (py "|") (strip line)).splitOn 124

/-- The columns of a heading. -/
def headingColumns (line : PyStr) : List (Column × ℕ) :=
  matchColumns ((pipeParts line).map normaliseHeader)

/-- A heading is of a register when it has an instrument and a calibration date or due date. -/
def isRegister (columns : List (Column × ℕ)) : Bool :=
  (columns.lookup .instrument).isSome &&
    ((columns.lookup .lastCal).isSome || (columns.lookup .due).isSome)

/-! ## Rows -/

/-- `Instrument`. -/
structure Instrument where
  tag : PyStr
  parameter : PyStr
  lastCal : Option Date
  due : Option Date
  interval : Option (ℕ × ℕ)
  tolerance : Option Quantity
  toleranceText : PyStr
  asFound : Option Quantity
  asFoundText : PyStr
  asLeft : Option Quantity
  asLeftText : PyStr
  uncertainty : Option Quantity
  uncertaintyText : PyStr
  certificate : PyStr
  notes : List PyStr
  unreadableDates : List PyStr

/-- `cell(key)` of a row. -/
def cellOf (cells : List PyStr) (columns : List (Column × ℕ)) (key : Column) : PyStr :=
  match columns.lookup key with
  | some position => strip ((cells[position]?).getD [])
  | none => []

/-- `_instrument_from_cells(tag, cells, columns, day_first, default_interval_months)`. -/
def instrumentFromCells (tag : PyStr) (cells : List PyStr) (columns : List (Column × ℕ))
    (dayFirst : Bool) (defaultIntervalMonths : ℤ) : Option Instrument := do
  let cell := cellOf cells columns
  let lastCalText := cell .lastCal
  let lastCal := firstDate lastCalText dayFirst
  let lastCalLost := !lastCalText.isEmpty && lastCal.isNone
  let dueText := cell .due
  let due := firstDate dueText dayFirst
  let dueLost := !dueText.isEmpty && due.isNone
  let intervalText := cell .interval
  let interval ← parseInterval intervalText
  let intervalLost := !intervalText.isEmpty && interval.isNone
  return {
    tag := tag
    parameter := cell .parameter
    lastCal := lastCal
    due := due
    interval :=
      if interval.isNone && due.isNone && 0 < defaultIntervalMonths then
        some (defaultIntervalMonths.toNat, 0)
      else interval
    tolerance := parseQuantity (cell .tolerance)
    toleranceText := cell .tolerance
    asFound := parseQuantity (cell .asFound)
    asFoundText := cell .asFound
    asLeft := parseQuantity (cell .asLeft)
    asLeftText := cell .asLeft
    uncertainty := parseQuantity (cell .uncertainty)
    uncertaintyText := cell .uncertainty
    certificate := cell .certificate
    notes :=
      (if lastCalLost then [tag ++ py ": the last calibration date '" ++ lastCalText ++
        py "' could not be read; give a real date."] else []) ++
      (if dueLost then [tag ++ py ": the due date '" ++ dueText ++
        py "' could not be read; give a real date."] else []) ++
      (if intervalLost then [tag ++ py ": the interval '" ++ intervalText ++
        py "' could not be read; state it in months or days."] else [])
    unreadableDates :=
      (if lastCalLost then [py "last calibration date"] else []) ++
        (if dueLost then [py "due date"] else []) }

/-! ## Tables -/

/-- What the parser makes of a line. -/
inductive Entry
  | heading (line : ℕ)
  | tableSkipped (line : ℕ)
  | rowSkipped (line : ℕ) (reason : PyStr)
  | instrument (line : ℕ) (read : Instrument)

omit [Unicode] [Casing] in
theorem markup_compiles : (compile {} (py "[*_`]")).isSome = true := by decide

def markup : Pattern := re {} (py "[*_`]") markup_compiles

def dashes : Pattern := re {} (py "[-: ]+") (by decide)

/-- What becomes of a row. -/
def rowEntry (columns : List (Column × ℕ)) (dayFirst : Bool) (defaultIntervalMonths : ℤ) (number : ℕ)
    (raw : PyStr) : Option Entry :=
  let cells := (pipeParts raw).map strip
  let position := (columns.lookup .instrument).getD 0
  match cells[position]? with
  | none => some (.rowSkipped number (natText cells.length ++ py " cell(s), but the instrument column is " ++
      natText (position + 1) ++ py "."))
  | some cell =>
    let tag := strip (reSub markup (fun _ ↦ []) cell)
    if tag.isEmpty || (reFullmatch dashes tag).isSome then
      some (.rowSkipped number (py "no instrument tag."))
    else (instrumentFromCells tag cells columns dayFirst defaultIntervalMonths).map (.instrument number)

/-- The rows from a line on: what becomes of them, and the number and the lines at which they end. -/
def readRows (columns : List (Column × ℕ)) (dayFirst : Bool) (defaultIntervalMonths : ℤ) :
    ℕ → List PyStr → Option (List Entry × ℕ × List PyStr)
  | number, [] => some ([], number, [])
  | number, raw :: rest =>
    if (strip raw).isEmpty then readRows columns dayFirst defaultIntervalMonths (number + 1) rest
    else if !isPipe raw then some ([], number, raw :: rest)
    else if rest.head?.any isSeparator then some ([], number, raw :: rest)
    else do
      let entry ← rowEntry columns dayFirst defaultIntervalMonths number raw
      let (more, position, left) ← readRows columns dayFirst defaultIntervalMonths (number + 1) rest
      return (entry :: more, position, left)

/-- The tables from a line on. -/
def readTables (dayFirst : Bool) (defaultIntervalMonths : ℤ) : ℕ → ℕ → List PyStr → Option (List Entry)
  | fuel + 1, index, line :: next :: rest =>
    if !(isPipe line && isSeparator next) then
      readTables dayFirst defaultIntervalMonths fuel (index + 1) (next :: rest)
    else
      let columns := headingColumns line
      if !isRegister columns then do
        return .tableSkipped index ::
          (← readTables dayFirst defaultIntervalMonths fuel (index + 1) (next :: rest))
      else do
        -- The rows end behind the separator at the earliest.
        let (rows, position, left) ←
          readRows columns dayFirst defaultIntervalMonths (index + 2) rest
        return .heading index :: rows ++
          (← readTables dayFirst defaultIntervalMonths fuel position left)
  | _, _, _ => some []

/-- The entries of a text; `none` when the interval of a row cannot be rounded. -/
def tableEntries (text : PyStr) (dayFirst : Bool) (defaultIntervalMonths : ℤ) : Option (List Entry) :=
  let lines := splitLines text
  readTables dayFirst defaultIntervalMonths lines.length 0 lines

end

/-! ## Reports -/

/-- `RegisterParse`. -/
structure RegisterParse where
  instruments : List Instrument
  skipped : List PyStr
  rowsRead : ℕ
  fromTable : Bool

def Entry.read : Entry → Option Instrument
  | .instrument _ read => some read
  | _ => none

/-- The text of an entry that is skipped; lines are counted from 1. -/
def Entry.skip : Entry → Option PyStr
  | .tableSkipped line => some (py "line " ++ natText (line + 1) ++
      py ": table skipped - it has no instrument column and calibration date or due date.")
  | .rowSkipped line reason => some (py "line " ++ natText (line + 1) ++ py ": " ++ reason)
  | _ => none

def Entry.isTable : Entry → Bool
  | .heading _ | .tableSkipped _ => true
  | _ => false

def reportOf (entries : List Entry) : RegisterParse where
  instruments := entries.filterMap Entry.read
  skipped := entries.filterMap Entry.skip
  rowsRead := (entries.filterMap Entry.read).length
  fromTable := entries.any Entry.isTable

/-- `parse_table_report(text, day_first, default_interval_months)`. -/
def parseTableReport [Unicode] [Casing] (text : PyStr) (dayFirst : Bool) (defaultIntervalMonths : ℤ) :
    Option RegisterParse :=
  (tableEntries text dayFirst defaultIntervalMonths).map reportOf

end FourCE.Calibration
