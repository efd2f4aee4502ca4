import FourCE.Sop.RulePack

/-!
# Assessing readings

`_assess` of `sop_check.py` and what it calls: one finding for each rule, with the spans of the
text it rests on.
-/

namespace FourCE.Sop

open FourCE.Python

structure Finding where
  parameter : PyStr
  measured : PyStr
  limit : PyStr
  clause : PyStr
  verdict : PyStr
  disposition : PyStr
  actions : List (PyStr × PyStr)
  deriving DecidableEq, Repr

abbrev Spans := List (ℕ × ℕ)

/-- `a or b` on strings. -/
def orElse (a b : PyStr) : PyStr := if a = [] then b else a

/-- `_first_clause`: the first clause a rule's bands or cases name, else its `pass` or `defect`. -/
def firstClause (rule : Rule) : PyStr :=
  let first (outcomes : List Outcome) : PyStr :=
    ((outcomes.map Outcome.clause).find? (· ≠ [])).getD []
  match rule.kind with
  | .band _ _ bands => first (bands.map Band.outcome)
  | .categorical _ _ cases => first (cases.map Prod.snd)
  | .margin _ _ _ pass _ _ => first [pass]
  | .presence _ defect clear => first [defect, clear]

/-- `_no_data(rule, detail)`. -/
def noData (rule : Rule) (detail : PyStr) : Finding where
  parameter := rule.parameter
  measured := if detail = [] then py "not found" else py "not found (" ++ detail ++ py ")"
  limit := orElse rule.limit (py "-")
  clause := firstClause rule
  verdict := py "NO DATA"
  disposition := py "FIT FOR SERVICE"
  actions := []

/-- `_finding(rule, measured, outcome, limit)`. -/
def finding (rule : Rule) (measured : PyStr) (outcome : Outcome) (limit : PyStr) : Finding where
  parameter := rule.parameter
  measured := orElse measured (py "-")
  limit := orElse (orElse limit rule.limit) (py "-")
  clause := outcome.clause
  verdict := outcome.verdict
  disposition := outcome.disposition
  actions := match outcome.action with
    | some action =>
      if action ≠ [] ∧ outcome.verdict ≠ py "PASS" then [(outcome.clause, action)] else []
    | none => []

/-- `_in_band(value, band)`. -/
def inBand (value : Double) (band : Band) : Bool :=
  match band.bound with
  | .below limit => value.lt limit
  | .max limit => value.le limit
  | .rest => true

/-- `" to ".join(parts)`. -/
def joinTo : List PyStr → PyStr
  | [] => []
  | [s] => s
  | s :: t :: rest => s ++ py " to " ++ joinTo (t :: rest)

section

variable [Unicode]

/-- `_first_match(patterns, text)`: the leftmost match of the first pattern that has one. -/
def firstMatch : List Pattern → PyStr → Option Match
  | [], _ => none
  | p :: ps, text => match reSearch p text with
    | some m => some m
    | none => firstMatch ps text

/-- `_unconverted(rule, text)`. -/
def unconvertedNote (spec : Option Unconverted) (text : PyStr) : PyStr :=
  match spec with
  | none => []
  | some spec => match firstMatch spec.patterns text with
    | none => []
    | some m => spec.note ((m.group 1).getD (py "None"))

/-- `[float(g) for g in match.groups() if g is not None]`; `none` is a `ValueError`. -/
def values (m : Match) : Option (List Double) := (m.groups.filterMap id).mapM floatOf

/-- `_assess_band`. -/
def assessBand (rule : Rule) (unit : PyStr) (patterns : List Pattern) (bands : List Band)
    (text : PyStr) : Option (Finding × Spans) :=
  match firstMatch patterns text with
  | none => some (noData rule [], [])
  | some m => do
    let numbers ← values m
    let value ← Double.max numbers
    let measured := strip (joinTo (numbers.map formatG) ++ py " " ++ unit)
    match bands.find? (inBand value) with
    | some band => return (finding rule measured band.outcome rule.limit, [m.span])
    | none => return (noData rule (py "no band matched"), [m.span])

/-- `match.group(1).strip().upper()`, upper case being that of ASCII letters. -/
def categoryKey (m : Match) : Option PyStr := (m.group 1).map fun s ↦ (strip s).map upperAscii

/-- `_assess_categorical`. -/
def assessCategorical (rule : Rule) (patterns : List Pattern) (spec : Option Unconverted)
    (cases : List (PyStr × Outcome)) (text : PyStr) : Option (Finding × Spans) :=
  match firstMatch patterns text with
  | none => some (noData rule (unconvertedNote spec text), [])
  | some m =>
    if m.groups = [] then some (noData rule (unconvertedNote spec text), [])
    else do
      let key ← categoryKey m
      match cases.find? fun c ↦ c.1 = key with
      | some c => return (finding rule (strip m.text) c.2 rule.limit, [m.span])
      | none =>
        return (noData rule (py "'" ++ key ++ py "' is not a recognised class"), [m.span])

/-- `float(match.group(1))`. -/
def groupValue (m : Match) : Option Double := (m.group 1).bind floatOf

/-- `_assess_margin`. -/
def assessMargin (rule : Rule) (unit : PyStr) (patterns referencePatterns : List Pattern)
    (pass fail : Outcome) (secondary : Option Secondary) (text : PyStr) :
    Option (Finding × Spans) :=
  match firstMatch patterns text, firstMatch referencePatterns text with
  | some measuredMatch, some referenceMatch => do
    let measured ← groupValue measuredMatch
    let reference ← groupValue referenceMatch
    let margin := measured.sub reference
    let above := Double.lt (.finite 0) margin
    let display := strip (formatG measured ++ py " " ++ unit ++ py " (" ++ formatG margin ++
      py " " ++ unit ++ py " margin)")
    let limit := strip (py "above " ++ formatG reference ++ py " " ++ unit ++ py " retirement")
    let found := finding rule display (if above then pass else fail) limit
    let extra := match secondary with
      | some s => if above && margin.lt s.marginBelow then [(s.clause, s.action)] else []
      | none => []
    return ({ found with actions := found.actions ++ extra },
      [measuredMatch.span, referenceMatch.span])
  | _, _ => some (noData rule (py "measured and retirement thickness are both required"), [])

/-! ## Denials -/

/-- `_DENIED_BEFORE`. -/
def deniedBefore : Pattern :=
  re ignoreCase (py r"\b(?:no|not|nil|without)\s+(?:\w+\s+){0,2}$") (by decide)

/-- `_DENIED_WITHIN`. -/
def deniedWithin : Pattern :=
  re ignoreCase (py r"\b(?:none|nothing|not|no)\s+missing\b") (by decide)

/-- `text[max(0, start - 30):start]`. -/
def window (text : PyStr) (start : ℕ) : PyStr := (text.take start).drop (start - 30)

/-- An occurrence that the text before it or its own text reports absent. -/
def denied (text : PyStr) (m : Match) : Bool :=
  (reSearch deniedBefore (window text m.start)).isSome || (reSearch deniedWithin m.text).isSome

/-- The occurrences of a defect, pattern by pattern, each from left to right. -/
def occurrences (patterns : List Pattern) (text : PyStr) : List Match :=
  patterns.flatMap fun p ↦ reFinditer p text

/-- `_assess_presence`. -/
def assessPresence (rule : Rule) (defectPatterns : List Pattern) (defect clear : Outcome)
    (text : PyStr) : Finding × Spans :=
  match (occurrences defectPatterns text).find? fun m ↦ !denied text m with
  | some m => (finding rule (strip m.text) defect rule.limit, [m.span])
  | none => (finding rule (py "not reported") clear rule.limit, [])

/-- `_assess(rule, text)`; `none` is a `ValueError` of `float`. -/
def assess (rule : Rule) (text : PyStr) : Option (Finding × Spans) :=
  match rule.kind with
  | .band unit patterns bands => assessBand rule unit patterns bands text
  | .categorical patterns spec cases => assessCategorical rule patterns spec cases text
  | .margin unit patterns references pass fail secondary =>
    assessMargin rule unit patterns references pass fail secondary text
  | .presence patterns defect clear => some (assessPresence rule patterns defect clear text)

end

end FourCE.Sop
