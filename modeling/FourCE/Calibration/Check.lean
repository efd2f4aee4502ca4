import FourCE.Calibration.Assess

/-!
# The calibration check

`parse_prose`, `parse_register_report` and `check_calibration` of `tools/calibration.py`: an
instrument described in a sentence, the disposition of a register and the report on it.
-/

namespace FourCE.Calibration

open FourCE.Python

variable [Unicode] [Casing]

/-! ## Prose -/

/-- The source of `_DATE_TOKEN`. -/
def dateToken : PyStr :=
  py r"(?:\d{4}[-/.]\d{1,2}[-/.]\d{1,2}" ++ py r"|\d{1,2}[-/.]\d{1,2}[-/.]\d{2,4}" ++
    py r"|\d{1,2}\s+[A-Za-z]{3,9}\.?\s+\d{4}" ++ py r"|[A-Za-z]{3,9}\.?\s+\d{1,2},?\s+\d{4})"

def dateBehind : PyStr := py r"\s*(?:on|date)?\s*[:=]?\s*" ++ dateToken

def lastCalDate : Pattern :=
  re { ignoreCase := true } (py r"(?:last\s+calibrated|last\s+calibration|calibrated\s+on|cal\.?\s*date)" ++
    dateBehind) (by decide +kernel)

def dueDate : Pattern :=
  re { ignoreCase := true } (py r"(?:next\s+calibration|calibration\s+due|\bdue\b|expires?)" ++
    dateBehind) (by decide +kernel)

/-- `_labelled_date(text, label, day_first)`, of the pattern it makes of the label. -/
def labelledDate (text : PyStr) (labelled : Pattern) (dayFirst : Bool) : Option Date := do
  let found ← reSearch labelled text
  let token ← reSearch DATE_TOKEN found.text
  parseDate token.text dayFirst

/-- The source of `_QUANTITY`. -/
def quantitySource : PyStr := py r"([+-]?)\s*(\d+(?:\.\d+)?)\s*(" ++ UNIT ++ py ")"

def signedQuantity : Pattern :=
  re { ignoreCase := true } (py r"(?:±|\+/-)?\s*" ++ quantitySource) (by decide +kernel)

def quantityBehind : PyStr := py r"\s*(?:error)?\s*[:=]?\s*(?:±|\+/-)?\s*" ++ quantitySource ++ py ")"

def toleranceQuantity : Pattern :=
  re { ignoreCase := true } (py r"(tol(?:erance)?" ++ quantityBehind) (by decide +kernel)

def asFoundQuantity : Pattern :=
  re { ignoreCase := true } (py r"(as[\s-]?found(?:\s+error)?" ++ quantityBehind) (by decide +kernel)

def asLeftQuantity : Pattern :=
  re { ignoreCase := true } (py r"(as[\s-]?left(?:\s+error)?" ++ quantityBehind) (by decide +kernel)

def uncertaintyQuantity : Pattern :=
  re { ignoreCase := true } (py r"((?:reference\s+)?uncertainty" ++ quantityBehind) (by decide +kernel)

/-- `_labelled_quantity(text, label)`, of the pattern it makes of the label. -/
def labelledQuantity (text : PyStr) (labelled : Pattern) : PyStr :=
  match reSearch labelled text with
  | none => []
  | some found => match reSearch signedQuantity (groupText found 1) with
    | some quantity => strip quantity.text
    | none => []

def labelledTag : Pattern :=
  re { ignoreCase := true } (py r"(?:instrument|tag|device|gauge|transmitter|sensor)\s*" ++
    py r"(?:id|no\.?|number|#)?\s*[:=]?\s*" ++ py r"([A-Z]{1,4}[- ]?\d{1,4}[A-Z]?)") (by decide)

def bareTag : Pattern := re {} (py r"\b([A-Z]{1,4}-\d{1,4}[A-Z]?)\b") (by decide)

def unhyphenatedTag : Pattern := re {} (py r"[A-Z]{1,4}\d{1,4}[A-Z]?") (by decide)

def tagLetters : Pattern := re {} (py r"^([A-Z]{1,4})(\d)") (by decide)

/-- The tag of an instrument described in a sentence. -/
def proseTag (text : PyStr) : PyStr :=
  let tag := match reSearch labelledTag text with
    | some labelled => squeeze (py "-") (Casing.upper (strip (groupText labelled 1)))
    | none => match reSearch bareTag text with
      | some bare => groupText bare 1
      | none => py "instrument"
  if !contains (py "-") tag && (reFullmatch unhyphenatedTag tag).isSome then
    reSub tagLetters (fun m ↦ groupText m 1 ++ py "-" ++ groupText m 2) tag
  else tag

def describedParameter : Pattern :=
  re { ignoreCase := true } (py r"(?:parameter|measures|measuring|service|function)\s*[:=]?\s*" ++
    py r"([A-Za-z][^,;.\n]{1,40})") (by decide)

def certificateNumber : Pattern :=
  re { ignoreCase := true } (py r"cert(?:ificate)?\s*(?:no\.?|number|#)?\s*[:=]?\s*" ++
    py r"([A-Z0-9][A-Z0-9/-]{2,})") (by decide)

/-- `parse_prose(text, day_first, default_interval_months)`. -/
def parseProse (text : PyStr) (dayFirst : Bool) (defaultIntervalMonths : ℤ) : Option (Option Instrument) := do
  let dates := ((reFinditer DATE_TOKEN text).map Match.text).filterMap (parseDate · dayFirst)
  let lastCal := labelledDate text lastCalDate dayFirst
  let due := labelledDate text dueDate dayFirst
  let stated ← parseInterval text
  let interval :=
    if stated.isNone && due.isNone && 0 < defaultIntervalMonths then
      some (defaultIntervalMonths.toNat, 0)
    else stated
  let undated := lastCal.isNone && due.isNone
  if undated && !(dates.length = 1 && interval.isSome) then return none
  else
    let tolerance := labelledQuantity text toleranceQuantity
    let asFound := labelledQuantity text asFoundQuantity
    let asLeft := labelledQuantity text asLeftQuantity
    let uncertainty := labelledQuantity text uncertaintyQuantity
    return some {
      tag := proseTag text
      parameter := match reSearch describedParameter text with
        | some described => strip (groupText described 1)
        | none => []
      lastCal := if undated then dates.head? else lastCal
      due := due
      interval := interval
      tolerance := parseQuantity tolerance
      toleranceText := tolerance
      asFound := parseQuantity asFound
      asFoundText := asFound
      asLeft := parseQuantity asLeft
      asLeftText := asLeft
      uncertainty := parseQuantity uncertainty
      uncertaintyText := uncertainty
      certificate := match reSearch certificateNumber text with
        | some certificate => groupText certificate 1
        | none => []
      notes := []
      unreadableDates := [] }

/-- `parse_register_report(text, day_first, default_interval_months)`. -/
def parseRegisterReport (text : PyStr) (dayFirst : Bool) (defaultIntervalMonths : ℤ) :
    Option RegisterParse := do
  let report ← parseTableReport text dayFirst defaultIntervalMonths
  if !report.instruments.isEmpty || report.fromTable then return report
  else match ← parseProse text dayFirst defaultIntervalMonths with
    | some prose => return ⟨[prose], [], 0, false⟩
    | none => return report

/-! ## The disposition -/

/-- The rows of each kind, and the disposition they come to. -/
structure Groups where
  outOfTolerance : List Assessment
  overdue : List Assessment
  missing : List Assessment
  unproven : List Assessment
  calAfterReading : List Assessment
  unreadableDates : List Assessment
  dueSoon : List Assessment

def groupsOf (rows : List Assessment) : Groups where
  outOfTolerance := rows.filter (·.tolerance = .outOfTolerance)
  overdue := rows.filter (·.status = .overdue)
  missing := rows.filter (·.status = .noData)
  unproven := rows.filter (·.tolerance ∈ [.noTolerance, .notComparable, .unreadable])
  calAfterReading := rows.filter (·.status = .calAfterReading)
  unreadableDates := rows.filter fun row ↦ !row.unreadableDates.isEmpty
  dueSoon := rows.filter (·.status ∈ [.dueSoon, .pastDueGrace])

inductive Disposition
  | outOfTolerance
  | outOfCalibration
  | incomplete
  | due
  | allCurrent
  deriving DecidableEq, Repr

def Disposition.text : Disposition → PyStr
  | .outOfTolerance => py "OUT OF TOLERANCE - RESULTS IN DOUBT"
  | .outOfCalibration => py "OUT OF CALIBRATION - RESULTS IN DOUBT"
  | .incomplete => py "CHECK INCOMPLETE"
  | .due => py "CALIBRATION DUE"
  | .allCurrent => py "ALL CURRENT"

/-- The disposition of assessed rows, with the entries that were skipped. -/
def dispositionOf (rows : List Assessment) (skipped : List PyStr) : Disposition :=
  let g := groupsOf rows
  if !g.outOfTolerance.isEmpty then .outOfTolerance
  else if !g.overdue.isEmpty then .outOfCalibration
  else if !g.missing.isEmpty || !g.unproven.isEmpty || !g.calAfterReading.isEmpty ||
      !g.unreadableDates.isEmpty || !skipped.isEmpty then .incomplete
  else if !g.dueSoon.isEmpty then .due
  else .allCurrent

/-! ## The report -/

/-- `_iso(value)`. -/
def isoOr (value : Option Date) : PyStr := (value.map Date.iso).getD (py "-")

/-- `_skip_report(report)`. -/
def skipReport (report : RegisterParse) : PyStr :=
  py "**" ++ natText report.rowsRead ++ py " rows read, " ++ natText report.skipped.length ++ py " skipped.**"

def plural (n : ℕ) : PyStr := if n ≠ 1 then py "s" else []

/-- `_headline(…)`. -/
def headline (rows : List Assessment) (skipped : ℕ) : PyStr :=
  let g := groupsOf rows
  let part (n : ℕ) (text : PyStr) : List PyStr := if n = 0 then [] else [natText n ++ text]
  let parts := part g.outOfTolerance.length
      (py " instrument" ++ plural g.outOfTolerance.length ++ py " out of tolerance") ++
    part g.overdue.length (py " out of calibration") ++
    part g.missing.length (py " with no calibration date") ++
    part g.unproven.length (py " with an as-found result that cannot be checked") ++
    part g.calAfterReading.length (py " calibrated after the reading date") ++
    part g.unreadableDates.length (py " with an unreadable date") ++
    part skipped (py " register row" ++ plural skipped ++ py " skipped") ++
    part g.dueSoon.length (py " due for recalibration")
  if parts.isEmpty then
    py "No calibration problems for the " ++ natText rows.length ++ py " instrument" ++
      plural rows.length ++ py " assessed."
  else py "**Attention required:** " ++ join (py "; ") parts ++ py "."

def Assessment.rowLine (row : Assessment) : PyStr :=
  py "| " ++ row.tag ++ py " | " ++ (if row.parameter.isEmpty then py "-" else row.parameter) ++ py " | " ++
    isoOr row.lastCal ++ py " | " ++ isoOr row.due ++ py " | " ++ row.statusText ++ py " | " ++
    row.asFoundText ++ py " | " ++ row.action ++ py " |"

/-- The rows in doubt, each tag once and with its first doubt. -/
def doubtLines : List PyStr → List Assessment → List PyStr
  | _, [] => []
  | seen, row :: rows =>
    if row.tag ∈ seen ∨ row.doubt.isEmpty then doubtLines seen rows
    else (py "- **" ++ row.tag ++ py "** - " ++ row.doubt) :: doubtLines (row.tag :: seen) rows

def titled (title : PyStr) (lines : List PyStr) : List PyStr :=
  if lines.isEmpty then [] else [[], title, []] ++ lines

/-- The lines of the report on assessed rows. -/
def reportLines (report : RegisterParse) (rows : List Assessment) (at_ : Date) (valves : Valves) :
    List PyStr :=
  let g := groupsOf rows
  [py "## Calibration check - as of " ++ at_.iso, [], headline rows report.skipped.length, [],
    py "| Instrument | Parameter | Last cal | Due | Status | As-found | Action |",
    py "|---|---|---|---|---|---|---|"] ++
  rows.map Assessment.rowLine ++
  (if report.fromTable then [[], skipReport report] ++
    (if report.skipped.isEmpty then [] else [] :: report.skipped.map (py "- " ++ ·)) else []) ++
  titled (py "### Required actions") ((rows.filter fun row ↦ !row.action.isEmpty).map fun row ↦
    py "- **" ++ row.tag ++ py "** - " ++ row.action) ++
  (if g.outOfTolerance.isEmpty && g.overdue.isEmpty then []
    else [[], py "### Results in doubt", []] ++ doubtLines [] (g.outOfTolerance ++ g.overdue)) ++
  titled (py "### Register notes") ((rows.flatMap Assessment.notes).map (py "- " ++ ·)) ++
  [[], py "**Disposition: " ++ (dispositionOf rows report.skipped).text ++ py "**"] ++
  (if !g.outOfTolerance.isEmpty then
    [py "\n> An as-found error outside tolerance means the instrument was wrong while its calibration " ++
      py "was still current. The results it produced inside the look-back windows above cannot be " ++
      py "released on their own evidence; an out-of-tolerance record and an impact assessment are " ++
      py "required before they are used again."]
  else if !g.overdue.isEmpty then
    [py "\n> A lapsed calibration is not a finding about the instrument's accuracy - nothing has been " ++
      py "measured to show it wrong. It is a finding about the evidence: readings taken after the due " ++
      py "date have no calibration behind them and cannot be relied on until the instrument is " ++
      py "recalibrated."]
  else []) ++
  (if g.missing.isEmpty then [] else
    [py "\n> One or more instruments could not be placed in time, so this is not an all-clear. Supply " ++
      py "the missing last-calibration date or interval and re-run before releasing the readings."]) ++
  (if valves.graceDays = 0 then [] else
    [py "\n*An extension of up to " ++ intText valves.graceDays ++
      py " days past the due date is allowed by the " ++
      py "configuration. A reading inside that window is reported as PAST DUE (GRACE), not valid, and " ++
      py "the extension must be authorised and recorded.*"]) ++
  [py "\n*Assessed at " ++ at_.iso ++ py " against the dates and tolerances supplied. Due dates are the " ++
    py "stated due date, or the last calibration plus the stated interval. The comparison is arithmetic " ++
    py "performed on this machine - no model judged whether an instrument was in tolerance. An in-date " ++
    py "instrument can still fail as-found; a current sticker does not prove the readings were right.*"]

/-- What a check comes to: a reply when nothing was assessed, or a report. -/
inductive Outcome
  | reply (text : PyStr)
  | report (parsed : RegisterParse) (rows : List Assessment) (disposition : Disposition) (text : PyStr)

/-- The date of the readings: today when none is given. -/
def readingDate (valves : Valves) (today : Date) (asOf : PyStr) : Option Date :=
  if (strip asOf).isEmpty then some today else parseDate (strip asOf) valves.dayFirst

/-- `check_calibration(register, as_of)`; `none` is an exception. -/
def checkCalibration (valves : Valves) (today : Date) (register asOf : PyStr) : Option Outcome := do
  let text := strip register
  if text.isEmpty then
    return .reply
      (py "No calibration register was supplied, so no instrument was checked. Pass the register as a " ++
        py "table with the instrument, its last calibration date (or due date) and, where known, its " ++
        py "interval, tolerance and as-found error.")
  else match readingDate valves today asOf with
  | none =>
    return .reply
      (py "The assessment date `" ++ asOf ++
        py "` could not be read. Give it as YYYY-MM-DD, DD/MM/YYYY or " ++
        py "\"14 March 2026\". Nothing was assessed, because the wrong date would make every " ++
        py "validity answer wrong.")
  | some at_ =>
    let report ← parseRegisterReport text valves.dayFirst valves.defaultIntervalMonths
    if report.instruments.isEmpty then
      return .reply
        (py "No instruments could be read from that. Supply a table whose first line is a heading with " ++
          py "an instrument column and a calibration-date or due-date column, and one row per instrument " ++
          py "- for example: `| Instrument | Parameter | Last cal | Interval | Tolerance | As-found |`. " ++
          py "Nothing was assessed rather than guessing which column meant what." ++
          (if report.fromTable then py "\n\n" ++ skipReport report else []))
    else
      let rows ← report.instruments.mapM fun i ↦ assess i at_ valves
      return .report report rows (dispositionOf rows report.skipped)
        (join (py "\n") (reportLines report rows at_ valves))

end FourCE.Calibration
