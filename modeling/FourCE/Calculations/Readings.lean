import FourCE.Python.FloatOrder
import FourCE.Python.Text

/-!
# Reading thicknesses

`_find`, `_parse_table` and `_parse` of `tools/calculations.py`: the readings of a request, written
as a sentence or as a thickness survey, and the code maximum it states.
-/

namespace FourCE.Calculations

open FourCE.Python

/-! ## Numbers -/

/-- `_WORDS`. -/
def WORDS : List (PyStr × ℕ) :=
  [(py "one", 1), (py "two", 2), (py "three", 3), (py "four", 4), (py "five", 5), (py "six", 6),
    (py "seven", 7), (py "eight", 8), (py "nine", 9), (py "ten", 10), (py "twelve", 12),
    (py "fifteen", 15), (py "twenty", 20)]

/-- The source of `_NUM`. -/
def NUM : PyStr := py r"(\d+(?:\.\d+)?)"

/-- The source of `_YEARS`. -/
def YEARS : PyStr :=
  py r"(\d+(?:\.\d+)?|" ++ join (py "|") (WORDS.map Prod.fst) ++ py r")\s*(?:years?|yrs?)"

/-! ## Patterns -/

def caseless : Flags := { ignoreCase := true }

/-- A quantity `_PATTERNS` knows how to find. -/
inductive Quantity
  | previous
  | current
  | required
  | years
  | maxInterval
  deriving DecidableEq, Repr

def previousNamed : Pattern :=
  re caseless (py r"(?:previous|prior|earlier|original|initial|last|baseline)\s+(?:wall\s+)?" ++
    py r"thickness[^0-9\n]{0,30}" ++ NUM ++ py r"\s*mm") (by decide)

def previousTold : Pattern :=
  re caseless (NUM ++ py r"\s*mm\s+(?:\w+\s+){0,3}" ++
    py r"(?:previously|before|originally|at the last inspection)") (by decide)

def currentNamed : Pattern :=
  re caseless (py r"(?:current|present|measured|actual|latest|now|minimum measured)\s+(?:wall\s+)?" ++
    py r"thickness[^0-9\n]{0,30}" ++ NUM ++ py r"\s*mm") (by decide +kernel)

def currentTold : Pattern :=
  re caseless (py r"(?:now|today|currently)\s+(?:\w+\s+){0,2}" ++ NUM ++ py r"\s*mm")
    (by decide)

def requiredNamed : Pattern :=
  re caseless (py r"(?:required|retirement|minimum required|minimum allowable|" ++
    py r"min(?:imum)?\.?\s+required|t[_\s-]?req(?:uired)?)\s*(?:wall\s+)?(?:thickness)?" ++
    py r"[^0-9\n]{0,30}" ++ NUM ++ py r"\s*mm") (by decide +kernel)

def yearsAgo : Pattern :=
  re caseless (YEARS ++ py r"\s+(?:ago|apart|earlier|before|between|of service|in service)")
    (by decide +kernel)

def yearsOver : Pattern :=
  re caseless (py r"(?:over|after|interval of|in the last|across|within)\s+" ++ YEARS)
    (by decide +kernel)

def maximumStated : Pattern :=
  re caseless (py r"(?:maximum|max\.?|code)\s+(?:inspection\s+)?interval[^0-9\n]{0,25}" ++ YEARS)
    (by decide +kernel)

/-- `_PATTERNS`. -/
def PATTERNS : Quantity → List Pattern
  | .previous => [previousNamed, previousTold]
  | .current => [currentNamed, currentTold]
  | .required => [requiredNamed]
  | .years => [yearsAgo, yearsOver]
  | .maxInterval => [maximumStated]

/-- `_COLUMNS`, in its order. -/
def COLUMNS : List (Quantity × List PyStr) :=
  [(.maxInterval, [py "sop interval", py "max interval", py "maximum interval"]),
    (.previous, [py "previous", py "prev", py "prior", py "original", py "initial", py "baseline",
      py "last"]),
    (.current, [py "current", py "measured", py "actual", py "latest", py "present"]),
    (.required, [py "required", py "retirement", py "t_req", py "treq", py "minimum allowable",
      py "min required"]),
    (.years, [py "years", py "interval", py "yrs", py "Δt", py "delta t"])]

/-- A location's readings as they were found. -/
structure Row where
  location : PyStr
  previous : Double
  current : Double
  required : Double
  years : Option Double
  /-- An interval of the location's own. -/
  maxInterval : Option Double
  deriving DecidableEq, Repr

/-- A location's readings, complete. -/
structure Survey where
  location : PyStr
  previous : Double
  current : Double
  required : Double
  years : Double
  deriving DecidableEq, Repr

section Parse

variable [Unicode] [Casing]

/-- `_number(text)`; `none` is the `ValueError` of `float`. -/
def number (text : PyStr) : Option Double :=
  match WORDS.lookup (Casing.lower text) with
  | some n => some (.finite n)
  | none => floatOf text

/-- The first of these patterns that is found. -/
def firstFound (text : PyStr) : List Pattern → Option Match
  | [] => none
  | p :: ps => match reSearch p text with
    | some found => some found
    | none => firstFound text ps

/-- `_find(key, text)`, with `none` for its exception. -/
def find (key : Quantity) (text : PyStr) : Option (Option Double) :=
  match firstFound text (PATTERNS key) with
  | none => some none
  | some found => (number (groupText found 1)).map some

/-! ## Surveys -/

def rulerLine : Pattern := re {} (py r"^\|?\s*:?-{2,}") (by decide)

def numeral : Pattern := re {} NUM (by decide)

def markup : Pattern := re {} (py "[*_`]") (by decide)

/-- The cells between a line's bars. -/
def cellsOf (line : PyStr) : List PyStr := ((stripOf (py "|") line).splitOn 124).map strip

/-- Which column holds which quantity. -/
abbrev Columns := List (Quantity × ℕ)

/-- The columns of a header: to each quantity the first column of its words not yet taken. -/
def columnsOf (header : List PyStr) : Columns :=
  COLUMNS.foldl (fun columns entry ↦
    match (header.zipIdx.find? fun cell ↦
        cell.2 ∉ columns.map Prod.snd && entry.2.any (contains · cell.1)) with
    | some cell => columns ++ [(entry.1, cell.2)]
    | none => columns) []

def Columns.complete (columns : Columns) : Bool :=
  [Quantity.previous, .current, .required].all fun key ↦ (columns.lookup key).isSome

/-- The number in a quantity's column, if there is one; the outer `none` is `float`'s exception. -/
def valueOf (columns : Columns) (cells : List PyStr) (key : Quantity) : Option (Option Double) :=
  match (columns.lookup key).bind (cells[·]?) with
  | none => some none
  | some cell => match reSearch numeral cell with
    | none => some none
    | some found => (floatOf (groupText found 1)).map some

/-- The first cell that is no reading and not empty. -/
def labelOf (columns : Columns) (cells : List PyStr) : PyStr :=
  match cells.zipIdx.find? fun cell ↦ cell.2 ∉ columns.map Prod.snd && !cell.1.isEmpty with
  | some cell => reSub markup (fun _ ↦ []) cell.1
  | none => []

/-- A line of the table; `some none` where a thickness is missing. -/
def rowOf (columns : Columns) (line : PyStr) : Option (Option Row) := do
  let cells := cellsOf line
  let value := valueOf columns cells
  let own ← value .maxInterval
  let previous ← value .previous
  let current ← value .current
  let required ← value .required
  let years ← value .years
  match previous, current, required with
  | some previous, some current, some required =>
    return some ⟨labelOf columns cells, previous, current, required, years, own⟩
  | _, _, _ => return none

/-- The loop of `_parse_table` over the lines. -/
def parseTableFrom : List PyStr → Option (List Row)
  | head :: ruler :: rest =>
    let columns := columnsOf ((cellsOf head).map Casing.lower)
    if startsWith (py "|") head && (reMatch rulerLine ruler).isSome && Columns.complete columns then do
      let rows ← (rest.takeWhile (startsWith (py "|"))).mapM (rowOf columns)
      if (rows.filterMap id).isEmpty then parseTableFrom (ruler :: rest)
      else return rows.filterMap id
    else parseTableFrom (ruler :: rest)
  | _ => some []

/-- `_parse_table(text)`. -/
def parseTable (text : PyStr) : Option (List Row) := parseTableFrom ((splitLines text).map strip)

/-- The one location of a sentence, if it gives everything. -/
def parseSentence (text : PyStr) : Option (List (Survey × Option Double)) := do
  match ← find .previous text, ← find .current text, ← find .required text, ← find .years text with
  | some previous, some current, some required, some years =>
    return [(⟨[], previous, current, required, years⟩, none)]
  | _, _, _, _ => return []

/-- A table's row with the years it gives or else those the text states. -/
def Row.complete (stated : Option Double) (r : Row) : Option (Survey × Option Double) :=
  (r.years.or stated).map fun years ↦ (⟨r.location, r.previous, r.current, r.required, years⟩, r.maxInterval)

/-- `_parse(text)`: the rows, each with the interval of its own, and the code maximum stated. -/
def parse (text : PyStr) : Option (List (Survey × Option Double) × Option Double) := do
  let interval ← find .maxInterval text
  let rows ← parseTable text
  if rows.isEmpty then return (← parseSentence text, interval)
  else
    let years ← find .years text
    return (rows.filterMap (Row.complete years), interval)

end Parse

end FourCE.Calculations
