import FourCE.Python.Object
import FourCE.Sop.Assess

/-!
# The threshold check on any rule pack

`check_sop_thresholds` of `sop_check.py` with the rule pack of the valve, whose rules are whatever
`json.loads` returned: fields may be missing or of any type.  `none` is an exception, of which the
tool has no report.
-/

namespace FourCE.Sop

open FourCE.Python

section

variable [Unicode] [Casing] {F : Type} [Runtime F]

/-! ## Findings -/

/-- `_first_clause(rule)`: the entries of a block of the rule, before one of them is asked. -/
def blockEntries (rule : Json F) (key : PyStr) : Option (List (Json F)) := do
  match ← rule.get key with
  | some (.arr entries) => return entries
  | some block => if block.truth then (match block with
      | .obj d => some (d.map Prod.snd)
      | _ => none) else return []
  | none => return []

/-- `isinstance(entry, dict) and entry.get("clause")`, and the clause. -/
def entryClause (entry : Json F) : Option PyStr :=
  match entry with
  | .obj d => match dictGet d (py "clause") with
    | some clause => if clause.truth then some clause.text else none
    | none => none
  | _ => none

/-- `_first_clause`, on blocks and then on single outcomes. -/
def firstClauseOf (rule : Json F) : Option PyStr := do
  let bands ← blockEntries rule (py "bands")
  match bands.findSome? entryClause with
  | some clause => return clause
  | none =>
    let cases ← blockEntries rule (py "cases")
    match cases.findSome? entryClause with
    | some clause => return clause
    | none =>
      let pass ← rule.get (py "pass")
      let defect ← rule.get (py "defect")
      let clear ← rule.get (py "clear")
      return ([pass, defect, clear].reduceOption.findSome? entryClause).getD []

/-- `rule.get("parameter", rule.get("id", "-"))`. -/
def parameterOf (rule : Json F) : Option PyStr := do
  let id ← rule.get (py "id")
  let parameter ← rule.get (py "parameter")
  return (parameter.getD (id.getD (.str (py "-")))).text

/-- `rule.get(key, "")`. -/
def fieldOf (rule : Json F) (key : PyStr) : Option (Json F) := do
  return (← rule.get key).getD (.str [])

/-- `_no_data(rule, detail)`. -/
def noDataOf (rule : Json F) (detail : PyStr) : Option Finding := do
  let parameter ← parameterOf rule
  let limit ← fieldOf rule (py "limit")
  let clause ← fieldOf rule (py "clause")
  let clause ← if clause.truth then some clause.text else firstClauseOf rule
  return { parameter
           measured := if detail.isEmpty then py "not found" else py "not found (" ++ detail ++ py ")"
           limit := (limit.orElse (.str (py "-"))).text
           clause
           verdict := py "NO DATA"
           disposition := py "FIT FOR SERVICE"
           actions := [] }

/-- `_finding(rule, measured, outcome, limit)`. -/
def findingOf (rule : Json F) (measured : PyStr) (outcome limit : Json F) : Option Finding := do
  let parameter ← parameterOf rule
  let own ← fieldOf rule (py "limit")
  let clause := ((← outcome.get (py "clause")).getD (.str [])).text
  let verdict := ((← outcome.get (py "verdict")).getD (.str (py "NO DATA"))).text
  let disposition := ((← outcome.get (py "disposition")).getD (.str (py "FIT FOR SERVICE"))).text
  let action ← outcome.get (py "action")
  return { parameter
           measured := if measured.isEmpty then py "-" else measured
           limit := ((limit.orElse own).orElse (.str (py "-"))).text
           clause
           verdict
           disposition
           actions := match action with
             | some action =>
               if action.truth && verdict ≠ py "PASS" then [(clause, action.text)] else []
             | none => [] }

/-! ## Rules -/

/-- `_first_match(patterns, text)`, on what `patterns` iterates over. -/
def firstMatchOf : List (Json F) → PyStr → Option (Option Match)
  | [], _ => some none
  | .str p :: ps, text => do
    match ← Runtime.search F p text with
    | some m => return some m
    | none => firstMatchOf ps text
  | _ :: _, _ => none

/-- `rule.get(key, [])`, iterated over. -/
def patternsOf (rule : Json F) (key : PyStr) : Option (List (Json F)) := do
  ((← rule.get key).getD (.arr [])).iter

/-- `float(match.group(1))`. -/
def groupDouble (F : Type) [Runtime F] (m : Match) : Option Double :=
  if m.count = 0 then none else (m.group 1).bind (Runtime.parseFloat F)

/-- `_in_band(value, band)`; a band that is no dictionary raises here or in `_finding`. -/
def inBandOf (value : Double) (band : Json F) : Option Bool := do
  match ← band.get (py "below") with
  | some limit => return value.lt (← limit.toDouble)
  | none => match ← band.get (py "max") with
    | some limit => return value.le (← limit.toDouble)
    | none => return true

/-- The first band a value falls in. -/
def bandOf (value : Double) : List (Json F) → Option (Option (Json F))
  | [] => some none
  | band :: bands => do if ← inBandOf value band then return some band else bandOf value bands

/-- `_assess_band`. -/
def assessBandOf (rule : Json F) (text : PyStr) : Option (Finding × Spans) := do
  match ← firstMatchOf (← patternsOf rule (py "patterns")) text with
  | none => return (← noDataOf rule [], [])
  | some m =>
    let values ← (m.groups.filterMap id).mapM (Runtime.parseFloat F)
    let value ← Double.max values
    let unit ← fieldOf rule (py "unit")
    let measured := strip (join (py " to ") (values.map formatG) ++ py " " ++ unit.text)
    match ← bandOf value (← patternsOf rule (py "bands")) with
    | some band => return (← findingOf rule measured band (← fieldOf rule (py "limit")), [m.span])
    | none => return (← noDataOf rule (py "no band matched"), [m.span])

/-- `rule.get(key) or {}`, asked for a key of its own. -/
def optionOf (rule : Json F) (key inner : PyStr) : Option (Option (Json F)) := do
  match ← rule.get key with
  | some value => if value.truth then value.get inner else return none
  | none => return none

/-- `_unconverted(rule, text)`. -/
def unconvertedOf (rule : Json F) (text : PyStr) : Option PyStr := do
  let patterns ← ((← optionOf rule (py "unconverted") (py "patterns")).getD (.arr [])).iter
  match ← firstMatchOf patterns text with
  | none => return []
  | some m => match ← optionOf rule (py "unconverted") (py "note") with
    | none => return []
    | some note =>
      if !note.truth then return []
      if m.count = 0 then none
      Runtime.format F note.text ((m.group 1).getD (py "None"))

/-- `_assess_categorical`. -/
def assessCategoricalOf (rule : Json F) (text : PyStr) : Option (Finding × Spans) := do
  match ← firstMatchOf (← patternsOf rule (py "patterns")) text with
  | none => return (← noDataOf rule (← unconvertedOf rule text), [])
  | some m =>
    if m.groups.isEmpty then return (← noDataOf rule (← unconvertedOf rule text), [])
    let key := Casing.upper (strip (← m.group 1))
    match ← optionOf rule (py "cases") key with
    | none | some .null =>
      return (← noDataOf rule (py "'" ++ key ++ py "' is not a recognised class"), [m.span])
    | some case => return (← findingOf rule (strip m.text) case (← fieldOf rule (py "limit")), [m.span])

/-- The action of the `secondary` threshold, where the margin is below it. -/
def secondaryOf (rule : Json F) (margin : Double) : Option (List (PyStr × PyStr)) := do
  match ← optionOf rule (py "secondary") (py "margin_below") with
  | none | some .null => return []
  | some threshold =>
    if !Double.lt (.finite 0) margin then return []
    if !margin.lt (← threshold.toDouble) then return []
    let clause ← optionOf rule (py "secondary") (py "clause")
    let action ← optionOf rule (py "secondary") (py "action")
    return [((clause.getD (.str [])).text, (action.getD (.str [])).text)]

/-- `_assess_margin`. -/
def assessMarginOf (rule : Json F) (text : PyStr) : Option (Finding × Spans) := do
  let measuredMatch ← firstMatchOf (← patternsOf rule (py "patterns")) text
  let referenceMatch ← firstMatchOf (← patternsOf rule (py "reference_patterns")) text
  match measuredMatch, referenceMatch with
  | some measuredMatch, some referenceMatch =>
    let measured ← groupDouble F measuredMatch
    let reference ← groupDouble F referenceMatch
    let margin := measured.sub reference
    let unit ← fieldOf rule (py "unit")
    let outcome ← rule.item (if Double.lt (.finite 0) margin then py "pass" else py "fail")
    let display := strip (formatG measured ++ py " " ++ unit.text ++ py " (" ++ formatG margin ++
      py " " ++ unit.text ++ py " margin)")
    let limit := strip (py "above " ++ formatG reference ++ py " " ++ unit.text ++ py " retirement")
    let found ← findingOf rule display outcome (.str limit)
    let extra ← secondaryOf rule margin
    return ({ found with actions := found.actions ++ extra },
      [measuredMatch.span, referenceMatch.span])
  | _, _ => return (← noDataOf rule (py "measured and retirement thickness are both required"), [])

/-- The occurrence of a defect that is not denied, pattern by pattern. -/
def defectOf : List (Json F) → PyStr → Option (Option Match)
  | [], _ => some none
  | .str p :: ps, text => do
    match (← Runtime.finditer F p text).find? fun m ↦ !denied text m with
    | some m => return some m
    | none => defectOf ps text
  | _ :: _, _ => none

/-- `_assess_presence`. -/
def assessPresenceOf (rule : Json F) (text : PyStr) : Option (Finding × Spans) := do
  let limit ← fieldOf rule (py "limit")
  match ← defectOf (← patternsOf rule (py "defect_patterns")) text with
  | some m => return (← findingOf rule (strip m.text) (← rule.item (py "defect")) limit, [m.span])
  | none => return (← findingOf rule (py "not reported") (← rule.item (py "clear")) limit, [])

/-- `_assess(rule, text)`. -/
def assessOf (rule : Json F) (text : PyStr) : Option (Finding × Spans) := do
  let kind := (← rule.get (py "type")).getD .null
  if kind.isStr (py "band") then assessBandOf rule text
  else if kind.isStr (py "categorical") then assessCategoricalOf rule text
  else if kind.isStr (py "margin") then assessMarginOf rule text
  else if kind.isStr (py "presence") then assessPresenceOf rule text
  else return (← noDataOf rule (py "unsupported rule type '" ++ kind.text ++ py "'"), [])

end

end FourCE.Sop
