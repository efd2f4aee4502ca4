import FourCE.Calibration.Register

/-!
# The assessment of an instrument

`assess` and `check_calibration` of `tools/calibration.py`: where an instrument stands in time at the
date of a reading, its as-found error against its tolerance, and the disposition of a register.
-/

namespace FourCE.Calibration

open FourCE.Python

/-- `Status`. -/
inductive Status
  | valid
  | dueSoon
  | pastDueGrace
  | overdue
  | noData
  | calAfterReading
  deriving DecidableEq, Repr

/-- `ToleranceVerdict`. -/
inductive ToleranceVerdict
  | notRecorded
  | inTolerance
  | outOfTolerance
  | noTolerance
  | notComparable
  | unreadable
  deriving DecidableEq, Repr

/-- `Assessment`. -/
structure Assessment where
  tag : PyStr
  parameter : PyStr
  lastCal : Option Date
  due : Option Date
  status : Status
  statusText : PyStr
  asFoundText : PyStr
  tolerance : ToleranceVerdict
  action : PyStr
  doubt : PyStr
  notes : List PyStr
  days : Option ℤ
  unreadableDates : List PyStr

/-- `Tools.Valves`; `turMin` is a float. -/
structure Valves where
  dueSoonDays : ℤ
  graceDays : ℤ
  defaultIntervalMonths : ℤ
  dayFirst : Bool
  turMin : Double

/-! ## In time -/

/-- The due date that the interval gives; a date that does not exist raises. -/
def computedDue (i : Instrument) : Option (Option Date) :=
  match i.lastCal, i.interval with
  | some lastCal, some (months, days) => (addOffset lastCal months days).map some
  | _, _ => some none

/-- Whether the stated due date and the computed one are more than a day apart. -/
def disagree (stated computed : Date) : Bool := 1 < (stated.sub computed).natAbs

/-- The due date, and a note when the register contradicts itself. -/
def dueOf (i : Instrument) (computed : Option Date) : Option Date × List PyStr :=
  match i.due, computed with
  | some stated, some computed =>
    if disagree stated computed then
      (some (stated.min computed),
        [i.tag ++ py ": the register's due date " ++ stated.iso ++ py " is " ++
          natText (stated.sub computed).natAbs ++ py " days from the date its interval gives (" ++
          computed.iso ++ py "). One of the two is wrong and the register should be corrected."])
    else (some stated, [])
  | some stated, none => (some stated, [])
  | none, computed => (computed, [])

/-- A status with its text, and the action it calls for. -/
structure Placed where
  status : Status
  text : PyStr
  action : PyStr

/-- `dict.fromkeys(xs)`: the first of each. -/
def distinct (xs : List PyStr) : List PyStr :=
  xs.foldl (fun seen x ↦ if x ∈ seen then seen else seen ++ [x]) []

/-- The place of a due date, `days` away. -/
def placeOfDue (valves : Valves) (due : Date) (days : ℤ) : Placed :=
  let grace := max 0 valves.graceDays
  if days < -grace then
    ⟨.overdue, py "OVERDUE (" ++ natText days.natAbs ++ py " d past)",
      py "Remove from service and recalibrate. Readings taken after " ++ due.iso ++
        py " have no calibration behind them."⟩
  else if days < 0 then
    ⟨.pastDueGrace, py "PAST DUE (" ++ natText days.natAbs ++ py " d, in grace)",
      py "Calibration expired " ++ due.iso ++
        py ". Authorise and record the extension, and recalibrate before the next reading."⟩
  else if days ≤ max 0 valves.dueSoonDays then
    ⟨.dueSoon, py "DUE SOON (" ++ intText days ++ py " d)",
      py "Schedule recalibration before " ++ due.iso ++ py "."⟩
  else ⟨.valid, py "VALID (" ++ intText days ++ py " d)", []⟩

/-- Where an instrument stands at a date. -/
def place (i : Instrument) (due : Option Date) (at_ : Date) (valves : Valves) : Placed :=
  let placed := match due with
    | none =>
      ⟨.noData, py "NO DATA",
        if i.unreadableDates.isEmpty then
          py "Record the last calibration date and interval, or the due date, before relying on a reading."
        else py "Supply a readable " ++ join (py " and ") (distinct i.unreadableDates) ++
          py " before relying on a reading."⟩
    | some due => placeOfDue valves due (due.sub at_)
  match i.lastCal with
  | some lastCal =>
    if at_.lt lastCal then
      ⟨.calAfterReading, py "CAL AFTER READING (last cal " ++ lastCal.iso ++ py ", " ++
          intText (lastCal.sub at_) ++ py " d after)",
        py "Supply the previous calibration, the one in force on " ++ at_.iso ++ py "; the " ++
          lastCal.iso ++ py " calibration was performed after the reading and " ++
          py "cannot show what was valid then."⟩
    else placed
  | none => placed

/-! ## Against the tolerance -/

section

variable [Unicode] [Casing]

/-- `abs(value) > abs(limit) + 1e-9`. -/
def beyond (value limit : Double) : Bool :=
  (limit.abs.add (.ofRat (1 / 10 ^ 9))).lt value.abs

/-- `abs(value) <= abs(limit) + 1e-9`. -/
def within (value limit : Double) : Bool :=
  value.abs.le (limit.abs.add (.ofRat (1 / 10 ^ 9)))

/-- An action after another. -/
def further (action more : PyStr) : PyStr := (if action.isEmpty then [] else action ++ py " ") ++ more

/-- What the comparison with the tolerance makes of the assessment so far. -/
structure Compared where
  verdict : ToleranceVerdict
  asFoundText : PyStr
  statusText : PyStr
  action : PyStr
  doubt : PyStr
  notes : List PyStr

/-- The texts of the as-found error and of the tolerance that could not be read. -/
def unreadableTexts (i : Instrument) : List (PyStr × PyStr) :=
  (if !i.asFoundText.isEmpty && i.asFound.isNone then [(py "as-found error", i.asFoundText)] else []) ++
    (if !i.toleranceText.isEmpty && i.tolerance.isNone then [(py "tolerance", i.toleranceText)] else [])

def asFoundShown (i : Instrument) : PyStr :=
  match i.asFound with
  | some q => if i.asFoundText.isEmpty then quantityText q else i.asFoundText
  | none => if i.asFoundText.isEmpty then py "not recorded" else i.asFoundText

/-- What the as-left error adds once the as-found error has been compared. -/
def afterAdjustment (i : Instrument) (limit : Quantity) (c : Compared) : Compared :=
  match i.asLeft with
  | none => c
  | some left =>
    let shown := if i.asLeftText.isEmpty then quantityText left else i.asLeftText
    if left.2 = limit.2 ∧ within left.1 limit.1 then
      if c.verdict = .inTolerance ∧ c.action.isEmpty then
        { c with action := py "Return to service: as-left is within tolerance." }
      else
        { c with notes := c.notes ++ [i.tag ++ py ": as-left " ++ shown ++
            py " is within tolerance, so it may return to service once the results above are dispositioned."] }
    else
      { c with notes := c.notes ++ [i.tag ++ py ": as-left " ++ shown ++
          py " is not shown within tolerance, so it has not been returned to service by this record."] }

/-- The as-found error against the tolerance. -/
def compare (i : Instrument) (placed : Placed) (notes : List PyStr) : Compared :=
  let shown := asFoundShown i
  let start : Compared := ⟨.notRecorded, shown, placed.text, placed.action, [], notes⟩
  if !(unreadableTexts i).isEmpty then
    { start with
      verdict := .unreadable
      asFoundText := shown ++ py " (unreadable)"
      statusText := placed.text ++ py ", UNREADABLE"
      notes := notes ++ (unreadableTexts i).map fun (name, raw) ↦
        i.tag ++ py ": the " ++ name ++ py " '" ++ raw ++
          py "' could not be read; give a number with a recognised unit (for example ±0.5% FS or ±2 °C)."
      action := further placed.action
        (py "State the as-found error and the tolerance with recognised units so the acceptance can be checked.") }
  else match i.asFound, i.tolerance with
  | none, _ => start
  | some _, none =>
    { start with
      verdict := .noTolerance
      asFoundText := shown ++ py " (no tolerance to compare)"
      action := further placed.action
        (py "Record the acceptance tolerance so the as-found result can be checked.") }
  | some found, some limit =>
    if found.2 ≠ limit.2 then
      { start with
        verdict := .notComparable
        action := further placed.action
          (py "State the tolerance and the as-found error in the same unit so the acceptance can be checked.")
        notes := notes ++ [i.tag ++ py ": the tolerance is in " ++ limit.2 ++
          py " and the as-found error in " ++ found.2 ++
          py ". They cannot be compared - state both in the same unit, or the acceptance check cannot be made."] }
    else if beyond found.1 limit.1 then
      let window := match i.lastCal with
        | some lastCal => py "up to the as-found calibration on " ++ lastCal.iso
        | none => py "up to the as-found calibration (date not in this register)"
      afterAdjustment i limit
        { start with
          verdict := .outOfTolerance
          doubt := py "as-found " ++ shown ++ py " against " ++ i.toleranceText ++
            py "; the doubtful window runs from the previous in-tolerance calibration (date not in this register) " ++
            window ++ py ". Supply that previous date to bound the impact assessment." }
    else afterAdjustment i limit { start with verdict := .inTolerance }

/-- What the uncertainty of the reference standard adds to the notes. -/
def uncertaintyNotes (i : Instrument) (valves : Valves) : List PyStr :=
  (if !i.uncertaintyText.isEmpty && i.uncertainty.isNone then
    [i.tag ++ py ": the reference uncertainty '" ++ i.uncertaintyText ++
      py "' could not be read, so the TUR was not computed."] else []) ++
  match i.uncertainty, i.tolerance with
  | some uncertainty, some limit =>
    if uncertainty.2 ≠ limit.2 then
      [i.tag ++ py ": the uncertainty is in " ++ uncertainty.2 ++ py " and the tolerance in " ++ limit.2 ++
        py "; the TUR cannot be compared until both are in the same unit."]
    else if uncertainty.1 = .finite 0 then
      [i.tag ++ py ": the reference standard's uncertainty is zero, so the TUR cannot be computed; " ++
        py "a zero-uncertainty reference cannot prove the tolerance."]
    else
      let ratio := limit.1.abs.div uncertainty.1.abs
      if ratio.lt valves.turMin then
        [i.tag ++ py ": the reference standard's uncertainty is " ++ formatOneDecimal ratio ++
          py ":1 against the tolerance, below the " ++ formatG valves.turMin ++
          py ":1 a calibration should hold. The pass or fail is weaker than it looks."]
      else []
  | _, _ => []

/-- The text of the tolerance of an instrument that has been compared with it. -/
def toleranceShown (i : Instrument) : PyStr :=
  if i.toleranceText.isEmpty then (i.tolerance.map quantityText).getD [] else i.toleranceText

/-- `assess(instrument, when, valves)`; a due date that does not exist raises. -/
def assess (i : Instrument) (at_ : Date) (valves : Valves) : Option Assessment := do
  let (due, dueNotes) := dueOf i (← computedDue i)
  let placed := place i due at_ valves
  let c := compare i placed (i.notes ++ dueNotes)
  let doubt :=
    match due with
    | some due =>
      if placed.status = .overdue ∧ c.doubt.isEmpty then
        py "no calibration was current between " ++ due.iso ++ py " and " ++ at_.iso ++
          py ", so any reading taken in that window has no calibration behind it."
      else c.doubt
    | none => c.doubt
  let statusText :=
    if c.verdict = .outOfTolerance ∧ placed.status ≠ .overdue then c.statusText ++ py ", as-found OOT"
    else c.statusText
  let asFoundText := match c.verdict with
    | .outOfTolerance => c.asFoundText ++ py " (outside " ++ toleranceShown i ++ py ")"
    | .inTolerance => c.asFoundText ++ py " (within " ++ toleranceShown i ++ py ")"
    | .notComparable => c.asFoundText ++ py " (tolerance in a different unit)"
    | _ => c.asFoundText
  let action :=
    if c.verdict = .outOfTolerance then
      further c.action (if placed.status = .overdue then
        py "Raise an out-of-tolerance record and assess every result produced since the last in-tolerance check."
      else
        py "Raise an out-of-tolerance record, remove the instrument from service, and assess every " ++
          py "result produced since the last in-tolerance check.")
    else c.action
  return {
    tag := i.tag
    parameter := i.parameter
    lastCal := i.lastCal
    due := due
    status := placed.status
    statusText := statusText
    asFoundText := asFoundText
    tolerance := c.verdict
    action := action
    doubt := doubt
    notes := c.notes ++ uncertaintyNotes i valves
    days := due.map (·.sub at_)
    unreadableDates := i.unreadableDates }

end

end FourCE.Calibration
