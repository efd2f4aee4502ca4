import FourCE.Python.Date
import FourCE.Python.Float
import FourCE.Python.Text

/-!
# Dates, intervals and quantities of a calibration register

How `tools/calibration.py` reads the cells of a register: `parse_date`, `first_date`,
`parse_interval`, `parse_quantity` and what they use.
-/

namespace FourCE.Calibration

open FourCE.Python

/-! ## Words -/

/-- A word at some place of a text with none of the characters of `blocked` on either side of it:
`(?<![…])word(?![…])`, from behind the characters `before`, the last of them first. -/
def standsAloneFrom (blocked : CodePoint → Bool) (word : PyStr) : PyStr → PyStr → Bool
  | before, [] => word.isEmpty && !(before.head?.any blocked)
  | before, c :: s =>
    (word.isPrefixOf (c :: s) && !(before.head?.any blocked) &&
        !(((c :: s).drop word.length).head?.any blocked)) ||
      standsAloneFrom blocked word (c :: before) s

def standsAlone (blocked : CodePoint → Bool) (word text : PyStr) : Bool :=
  standsAloneFrom blocked word [] text

section

variable [Unicode] [Casing]

def whiteSpace : Pattern := re {} (py r"\s+") (by decide)

/-- `re.sub(r"\s+", new, text)`. -/
def squeeze (new text : PyStr) : PyStr := reSub whiteSpace (fun _ ↦ new) text

/-! ## Dates -/

/-- `_DATE_TOKEN`. -/
def DATE_TOKEN : Pattern :=
  re {} (py r"(?:\d{4}[-/.]\d{1,2}[-/.]\d{1,2}" ++ py r"|\d{1,2}[-/.]\d{1,2}[-/.]\d{2,4}" ++
    py r"|\d{1,2}\s+[A-Za-z]{3,9}\.?\s+\d{4}" ++ py r"|[A-Za-z]{3,9}\.?\s+\d{1,2},?\s+\d{4})")
    (by decide +kernel)

/-- `_MONTHS`. -/
def MONTHS : List (PyStr × ℕ) :=
  [(py "january", 1), (py "february", 2), (py "march", 3), (py "april", 4), (py "may", 5),
    (py "june", 6), (py "july", 7), (py "august", 8), (py "september", 9), (py "october", 10),
    (py "november", 11), (py "december", 12), (py "jan", 1), (py "feb", 2), (py "mar", 3),
    (py "apr", 4), (py "jun", 6), (py "jul", 7), (py "aug", 8), (py "sep", 9), (py "oct", 10),
    (py "nov", 11), (py "dec", 12), (py "sept", 9)]

def isoDate : Pattern := re {} (py r"^(\d{4})[-/.](\d{1,2})[-/.](\d{1,2})$") (by decide)

def numericDate : Pattern := re {} (py r"^(\d{1,2})[-/.](\d{1,2})[-/.](\d{2,4})$") (by decide)

def dayNameDate : Pattern := re {} (py r"^(\d{1,2})\s+([A-Za-z]+)\.?\s+(\d{4})$") (by decide)

def nameDayDate : Pattern := re {} (py r"^([A-Za-z]+)\.?\s+(\d{1,2})\s+(\d{4})$") (by decide)

/-- `_make_date(year, month, day)` of a month's name. -/
def makeNamedDate (year : ℕ) (name : PyStr) (day : ℕ) : Option Date := do
  Date.make year (← MONTHS.lookup (Casing.lower name)) day

/-- `parse_date(text, day_first)`. -/
def parseDate (text : PyStr) (dayFirst : Bool) : Option Date :=
  let value := replace (py ",") [] (squeeze (py " ") (strip text))
  if value.isEmpty then none
  else match reMatch isoDate value with
  | some iso => Date.make (intOf (groupText iso 1)) (intOf (groupText iso 2)) (intOf (groupText iso 3))
  | none => match reMatch numericDate value with
  | some numeric =>
    let first := intOf (groupText numeric 1)
    let second := intOf (groupText numeric 2)
    let stated := intOf (groupText numeric 3)
    let year := if stated < 100 then stated + 2000 else stated
    if dayFirst ∧ second ≤ 12 then Date.make year second first
    else if first > 12 ∧ second ≤ 12 then Date.make year second first
    else Date.make year first second
  | none => match reMatch dayNameDate value with
  | some m => makeNamedDate (intOf (groupText m 3)) (groupText m 2) (intOf (groupText m 1))
  | none => match reMatch nameDayDate value with
  | some m => makeNamedDate (intOf (groupText m 3)) (groupText m 1) (intOf (groupText m 2))
  | none => none

/-- `first_date(text, day_first)`. -/
def firstDate (text : PyStr) (dayFirst : Bool) : Option Date :=
  ((reFinditer DATE_TOKEN text).map Match.text).findSome? fun token ↦ parseDate token dayFirst

/-! ## Intervals -/

/-- `_INTERVAL`. -/
def INTERVAL : Pattern :=
  re { ignoreCase := true } (py r"(\d+(?:\.\d+)?)\s*-?\s*(months?|mo\b|years?|yrs?|weeks?|days?" ++
    py r"|annual|annually|yearly|quarterly|semi[\s-]?annual|monthly)") (by decide)

/-- The words for an interval, the longest first. -/
def intervalWords : List (PyStr × (ℕ × ℕ)) :=
  [(py "semi-annual", (6, 0)), (py "semi annual", (6, 0)), (py "quarterly", (3, 0)),
    (py "annually", (12, 0)), (py "monthly", (1, 0)), (py "annual", (12, 0)), (py "yearly", (12, 0))]

def plainNumber : Pattern := re {} (py r"\d+(?:\.\d+)?") (by decide)

/-- `round(x)` of a number that is not negative. -/
def roundNat (x : Double) : Option ℕ := x.round.map Int.toNat

/-- `parse_interval(text)`: months and days, if there are any; a number that cannot be rounded
raises, which is the outer `none`. -/
def parseInterval (text : PyStr) : Option (Option (ℕ × ℕ)) :=
  let value := strip text
  if value.isEmpty then some none
  else
    let lowered := squeeze (py " ") (Casing.lower value)
    match intervalWords.find? fun w ↦ standsAlone (fun c ↦ isWord c || c = 45) w.1 lowered with
    | some (_, offset) => some (some offset)
    | none => match reSearch INTERVAL lowered with
      | some found => do
        let amount ← floatOf (groupText found 1)
        let unit := groupText found 2
        if startsWith (py "year") unit || startsWith (py "yr") unit then
          return some (← roundNat (amount.mulNat 12), 0)
        else if startsWith (py "week") unit then return some (0, ← roundNat (amount.mulNat 7))
        else if startsWith (py "day") unit then return some (0, ← roundNat amount)
        else return some (← roundNat amount, 0)
      | none =>
        if (reFullmatch plainNumber value).isSome then do
          return some (← roundNat (← floatOf value), 0)
        else some none

/-- `add_offset(start, months, days)`; a date that does not exist raises. -/
def addOffset (start : Date) (months days : ℕ) : Option Date := do
  let year := start.year + (start.month - 1 + months) / 12
  let month := (start.month - 1 + months) % 12 + 1
  let day := min start.day (daysInMonth year month)
  (← Date.make year month day).addDays days

/-! ## Quantities -/

/-- `_UNIT`. -/
def UNIT : PyStr :=
  py r"%\s*(?:of\s*)?(?:fs|span|full[\s-]?scale)?" ++ py r"|°\s*[cfk]" ++
    py r"|deg(?:rees)?\s*[cfk]\b" ++ py r"|mm\s*/\s*s|mm\b" ++
    py r"|mbar\b|bar\b|psig\b|psia\b|psi\b" ++ py r"|(?:k|m|M)?(?:ω|Ω|ohms?)\b" ++
    py r"|kpa\b|mpa\b|hpa\b|\bpa\b" ++ py r"|\bma\b|\bmv\b|\bv\b|\bhz\b|rpm\b" ++ py r"|\bK\b"

/-- `_QUANTITY`. -/
def QUANTITY : Pattern :=
  re { ignoreCase := true } (py r"([+-]?)\s*(\d+(?:\.\d+)?)\s*(" ++ UNIT ++ py ")") (by decide +kernel)

/-- A number with the kind of its unit. -/
abbrev Quantity := Double × PyStr

def ohmUnit : Pattern := re { ignoreCase := true } (py r"([kKmM]?)(?:ω|ohms?)") (by decide)

/-- The units that are known by their spelling in small letters. -/
def unitNames : List (PyStr × PyStr) :=
  [(py "mm", py "mm"), (py "bar", py "bar"), (py "mbar", py "mbar"), (py "pa", py "Pa"),
    (py "hpa", py "hPa"), (py "kpa", py "kPa"), (py "mpa", py "MPa"), (py "psi", py "psi"),
    (py "psig", py "psig"), (py "psia", py "psia"), (py "ma", py "mA"), (py "mv", py "mV"),
    (py "v", py "V"), (py "hz", py "Hz"), (py "rpm", py "rpm")]

def endsWith (p s : PyStr) : Bool := p.isSuffixOf s

/-- The unit of a temperature, by its last letter. -/
def degreeKind (lower : PyStr) : Option PyStr :=
  if startsWith (py "°") lower || startsWith (py "deg") lower then
    if endsWith (py "c") lower then some (py "°C")
    else if endsWith (py "f") lower then some (py "°F")
    else if endsWith (py "k") lower then some (py "K")
    else none
  else none

def ohmPrefixes : List (PyStr × PyStr) :=
  [([], py "Ohm"), (py "m", py "mOhm"), (py "M", py "MOhm"), (py "k", py "kOhm"), (py "K", py "kOhm")]

/-- `unit_kind(raw)`. -/
def unitKind (raw : PyStr) : PyStr :=
  let unit := squeeze [] (strip raw)
  let lower := Casing.lower unit
  if startsWith (py "%") lower then py "percent"
  else match degreeKind lower with
  | some kind => kind
  | none =>
    if lower ∈ [py "k", py "°k", py "degk", py "degreek", py "degreesk"] then py "K"
    else match reFullmatch ohmUnit unit with
    | some ohms =>
      let letter := groupText ohms 1
      (ohmPrefixes.lookup letter).getD (letter ++ py "Ohm")
    | none =>
      if lower = py "mm/s" then py "mm/s"
      else (unitNames.lookup lower).getD unit

/-- `parse_quantity(text)`. -/
def parseQuantity (text : PyStr) : Option Quantity := do
  let found ← reSearch QUANTITY text
  let value ← floatOf (groupText found 2)
  return (if groupText found 1 = py "-" then value.neg else value, unitKind (groupText found 3))

/-- `_quantity_text(quantity)`. -/
def quantityText (q : Quantity) : PyStr :=
  (if (Double.finite 0).lt q.1 then py "+" else []) ++ formatG q.1 ++ py " " ++ q.2

end

end FourCE.Calibration
