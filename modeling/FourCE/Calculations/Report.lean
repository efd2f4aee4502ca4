import FourCE.Calculations.Life

/-!
# The report on remaining life

`_steps`, `_report` and `calculate_remaining_life` of `tools/calculations.py`.
-/

namespace FourCE.Calculations

open FourCE.Python

/-! ## Numbers in words -/

/-- `f"{x:.{places}f}"`. -/
def formatFixed (places : ℕ) : Double → PyStr
  | .finite q =>
    let n := (roundHalfEven ((if q < 0 then -q else q) * 10 ^ places)).toNat
    (if q < 0 then py "-" else []) ++ natText (n / 10 ^ places) ++
      if places = 0 then [] else py "." ++ digitsText (lastDigits places n)
  | .inf neg => if neg then py "-inf" else py "inf"
  | .nan => py "nan"

/-- `1e-9`. -/
def tolerance : Double := .ofRat (1 / 10 ^ 9)

/-- `_mm(value)`; `round` refuses what is no finite number. -/
def mm (value : Double) : Option PyStr := do
  let tenths := value.mulNat 10
  let rounded ← tenths.round
  let places := if (tenths.sub (.ofRat rounded)).abs.lt tolerance then 1 else 2
  return formatFixed places value ++ py " mm"

/-- `_yr(value, places)`. -/
def yr (value : Double) (places : ℕ) : PyStr :=
  formatFixed places value ++ py " year" ++
    if (value.sub (.finite 1)).abs.lt tolerance then [] else py "s"

/-- `_when(years)`. -/
def when (years : Double) : Option PyStr :=
  if years.lt (.finite 1) then do
    let months ← (years.mulNat 12).round
    return intText months ++ py " month" ++ if months = 1 then [] else py "s"
  else some (yr years 1)

/-- `0 if x.is_integer() else 1`. -/
def yearPlaces : Double → ℕ
  | .finite q => if q.den = 1 then 0 else 1
  | _ => 1

/-! ## Steps -/

/-- `**Inputs.**`. -/
def inputsLine (row : Survey) : Option PyStr := do
  return py "**Inputs.** Previous thickness t_prev = " ++ (← mm row.previous) ++
    py " · current thickness t_act = " ++ (← mm row.current) ++
    py " · required thickness t_req = " ++ (← mm row.required) ++
    py " · interval Δt = " ++ yr row.years (yearPlaces row.years)

/-- `**Step 1**`. -/
def rateLine (row : Survey) (rate : Double) : Option PyStr := do
  return py "**Step 1 - corrosion rate.** CR = (t_prev - t_act) ÷ Δt = (" ++ (← mm row.previous) ++
    py " - " ++ (← mm row.current) ++ py ") ÷ " ++ yr row.years (yearPlaces row.years) ++
    py " = **" ++ formatFixed 3 rate ++ py " mm/year**"

/-- What stands at or below its required thickness. -/
def belowLines (row : Survey) : Option (List PyStr) := do
  return [py "**Step 2 - remaining life.** t_act " ++ (← mm row.current) ++
      py " is at or below t_req " ++ (← mm row.required) ++ py ": **no remaining life**.",
    py "**Result.** At or below the required thickness: remove from service or " ++
      py "assess fitness for service before further operation."]

def noLossLines : List PyStr :=
  [py "**Step 2 - remaining life.** The rate is zero or negative - no measurable wall loss " ++
      py "over the interval - so remaining life is not limited by corrosion on this data.",
    py "**Result.** Fit for continued service; re-measure at the code's normal interval."]

/-- Steps 2 and 3 of a location that loses wall. -/
def fitLines (w : Worked) (rate life next : Double) : Option (List PyStr) := do
  let row := w.result.survey
  let half := life.div (.finite 2)
  let step := py "**Step 2 - remaining life.** RL = (t_act - t_req) ÷ CR = (" ++ (← mm row.current) ++
    py " - " ++ (← mm row.required) ++ py ") ÷ " ++ formatFixed 3 rate ++ py " mm/year = **" ++
    yr life 1 ++ py "**"
  match w.result.maxInterval.filter (· ≠ .finite 0) with
  | some limit =>
    return [step,
      py "**Step 3 - next thickness measurement.** The lesser of RL ÷ 2 (" ++ yr half 1 ++
        py ") and " ++ w.basis ++ py " (" ++ (← when limit) ++ py ") = **" ++ (← when next) ++ py "**",
      py "**Result.** Fit for continued service; measure the thickness again within " ++
        (← when next) ++ py "."]
  | none =>
    return [step,
      py "**Step 3 - next thickness measurement.** Within RL ÷ 2 = **" ++ yr half 1 ++
        py "**, and not later than the code's maximum interval for this piping class (not supplied).",
      py "**Result.** Fit for continued service; measure the thickness again within " ++
        (← when next) ++ py ", subject to the code maximum."]

/-- `_steps(r)`; `none` is the exception of rounding what is not finite. -/
def steps (w : Worked) : Option (List PyStr) := do
  let inputs ← inputsLine w.result.survey
  match w.result.rate with
  | none => return [inputs, py "The interval between readings is zero, so no rate can be calculated."]
  | some rate =>
    let first ← rateLine w.result.survey rate
    match w.result.verdict, w.result.life, w.result.next with
    | .atOrBelow, _, _ => return [inputs, first] ++ (← belowLines w.result.survey)
    | .noLoss, _, _ => return [inputs, first] ++ noLossLines
    | .fit, some life, some next => return [inputs, first] ++ (← fitLines w rate life next)
    | .fit, _, _ => none

/-! ## The report -/

/-- The key `_report` compares locations by. -/
def lifeKey (w : Worked) : Double := w.result.life.getD (.inf false)

/-- The location `_report` calls governing. -/
def governing (results : List Worked) : Option Worked := minBy lifeKey results

def reportHead : List PyStr :=
  [py "## Remaining life - thickness method", [],
    py "*Deterministic arithmetic on this machine: every step shown, units carried. The method " ++
      py "is the thickness-based one common in piping inspection codes such as API 570.*", []]

def surveyHead : List PyStr :=
  [py "| Location | t_prev (mm) | t_act (mm) | t_req (mm) | Δt (years) | CR (mm/year) | " ++
      py "RL (years) | Next measurement (years) | Verdict |",
    py "|---|---|---|---|---|---|---|---|---|"]

/-- A number of the table, with a dash for `None`. -/
def cell (places : ℕ) (x : Option Double) : PyStr :=
  match x with
  | none => py "-"
  | some x => formatFixed places x

/-- A location's line in the table. -/
def surveyLine (w : Worked) : PyStr :=
  let row := w.result.survey
  py "| " ++ join (py " | ")
    [if row.location.isEmpty then py "-" else row.location, formatG row.previous,
      formatG row.current, formatG row.required, formatG row.years, cell 3 w.result.rate,
      cell 1 w.result.life, cell 1 w.result.next, w.result.verdict.text] ++ py " |"

/-- What the machine-readable block holds. -/
structure CalcData where
  maxInterval : Option Double
  basis : PyStr
  rows : List (Survey × Option (Option Double))

def calcData (results : List Worked) (limit : Limit) : CalcData where
  maxInterval := limit.interval
  basis := if truthy limit.interval then limit.basis else []
  rows := results.map fun w ↦ (w.result.survey,
    if w.result.maxInterval ≠ limit.interval then some w.result.maxInterval else none)

/-- What the report says above the block: the governing location's steps under the table of all. -/
def reportLines (results : List Worked) : Option (List PyStr) := do
  let chosen ← governing results
  let worked ← steps chosen
  if 1 < results.length then
    let location := chosen.result.survey.location
    return reportHead ++ surveyHead ++ results.map surveyLine ++
      [[], py "### Governing location: " ++ (if location.isEmpty then py "as given" else location), []] ++
      worked
  else return reportHead ++ worked

/-- `_report(results, interval, basis)`, with `json.dumps` for the block. -/
def report (dumps : CalcData → PyStr) (results : List Worked) (limit : Limit) : Option PyStr := do
  let lines ← reportLines results
  return replace (py "\n\n|") (py "\n|") (join (py "\n\n") lines) ++ py "\n\n```4ce-calc\n" ++
    dumps (calcData results limit) ++ py "\n```"

/-- The locations `calculate_remaining_life` works, with the limit they share. -/
def workAll [Unicode] [Casing] (default : Double) (readings : PyStr) (maxIntervalYears : Double)
    (intervalBasis : PyStr) : Option (List Worked × Limit) := do
  let (rows, stated) ← parse readings
  let limit := limitFor default stated maxIntervalYears intervalBasis
  return (rows.map (work limit intervalBasis), limit)

/-- `calculate_remaining_life(readings, max_interval_years, interval_basis)`. -/
def calculateRemainingLife [Unicode] [Casing] (dumps : CalcData → PyStr) (default : Double)
    (readings : PyStr) (maxIntervalYears : Double) (intervalBasis : PyStr) : Option PyStr := do
  let (results, limit) ← workAll default readings maxIntervalYears intervalBasis
  if results.isEmpty then
    return py "Remaining life could not be calculated: it needs a previous and a current wall " ++
      py "thickness, the required (retirement) thickness, all in mm, and the years between " ++
      py "the two readings."
  else report dumps results limit

end FourCE.Calculations
