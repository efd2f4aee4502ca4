import FourCE.Python.Tables
import FourCE.Sop.DefaultPack
import FourCE.Sop.Engine

/-!
# The report on an assessment

What `check_sop_thresholds` makes of its findings: the disposition, the heading, the table and the
lines under it.
-/

namespace FourCE.Sop

open FourCE.Python

/-! ## Dispositions -/

/-- `DISPOSITIONS`, from the least to the most restrictive. -/
def dispositions : List PyStr :=
  [py "FIT FOR SERVICE", py "FIT FOR SERVICE WITH CONDITIONS", py "NOT FIT FOR START",
    py "REMOVE FROM SERVICE"]

/-- `DISPOSITIONS.index(d)` of one of them. -/
def severity (d : PyStr) : ℕ := dispositions.idxOf d

/-- `_worst(dispositions)`: what is not in the list counts for nothing. -/
def worst (ds : List PyStr) : PyStr :=
  (ds.filter (· ∈ dispositions)).foldl (fun w d ↦ if severity w < severity d then d else w)
    (py "FIT FOR SERVICE")

/-! ## The assessment -/

/-- What the report is written from. -/
structure Assessed where
  sopId : PyStr
  findings : List Finding
  unassessed : List PyStr
  /-- The valve `block_on_missing_data`. -/
  blocking : Bool

def Assessed.having (a : Assessed) (verdict : PyStr) : List Finding :=
  a.findings.filter fun f ↦ f.verdict = verdict

def Assessed.failures (a : Assessed) : List Finding := a.having (py "FAIL")

def Assessed.reviews (a : Assessed) : List Finding := a.having (py "REVIEW")

def Assessed.missing (a : Assessed) : List Finding := a.having (py "NO DATA")

def Assessed.incomplete (a : Assessed) : Bool := !a.missing.isEmpty && a.blocking

def Assessed.disposition (a : Assessed) : PyStr :=
  if a.incomplete && a.failures.isEmpty then py "ASSESSMENT INCOMPLETE"
  else worst (a.findings.map Finding.disposition)

def Assessed.clear (a : Assessed) : Bool := a.failures.isEmpty && a.reviews.isEmpty && !a.incomplete

/-- What the heading says. -/
def Assessed.status (a : Assessed) : PyStr := if a.clear then py "PASS" else py "ATTENTION REQUIRED"

/-- `_headline`. -/
def Assessed.headline (a : Assessed) : PyStr :=
  let assessed := (a.findings.filter fun f ↦ f.verdict ≠ py "NO DATA").length
  let within : ℤ := assessed - a.failures.length - a.reviews.length
  join [32] ([py "**" ++ intText within ++ py " of " ++ natText assessed ++
      py " assessed parameters within limits.**"] ++
    (if a.failures.isEmpty then [] else [natText a.failures.length ++ py " outside limits."]) ++
    (if a.reviews.isEmpty then [] else [natText a.reviews.length ++ py " requires review."]) ++
    if a.missing.isEmpty then []
    else [natText a.missing.length ++ py " could not be assessed."])

/-! ## The report -/

/-- The clause as the table names it. -/
def Finding.clauseCell (f : Finding) : PyStr :=
  if f.clause.isEmpty then py "-" else py "§" ++ f.clause

/-- The cells of a finding's row. -/
def Finding.cells (f : Finding) : List PyStr :=
  [f.parameter, f.measured, f.limit, f.clauseCell, f.verdict]

def tableHead : List PyStr :=
  [py "| Parameter | Measured | Acceptance limit | Clause | Verdict |", py "|---|---|---|---|---|"]

def Assessed.heading (a : Assessed) : PyStr :=
  py "## SOP assessment - " ++ a.sopId ++ py " - " ++ a.status

/-- `### Required actions`. -/
def Assessed.required (a : Assessed) : List PyStr :=
  let required := a.findings.flatMap Finding.actions
  if required.isEmpty then []
  else [[], py "### Required actions", []] ++
    required.map fun p ↦ py "- **§" ++ p.1 ++ py "** - " ++ p.2

/-- What the brackets of `not found (…)` hold. -/
def Finding.detail (f : Finding) : PyStr :=
  if startsWith (py "not found (") f.measured then (f.measured.drop 11).dropLast else []

/-- `### Not measured`. -/
def Assessed.notMeasured (a : Assessed) : List PyStr :=
  if a.missing.isEmpty then []
  else [[], py "### Not measured", []] ++ a.missing.map fun f ↦
    py "- **" ++ f.parameter ++ py "** - " ++
      (if f.detail.isEmpty then py "no reading found in the material supplied. "
        else f.detail ++ py ". ") ++
      a.sopId ++ py " §" ++ f.clause ++ py " could not be applied."

/-- `### Readings outside this SOP`. -/
def Assessed.outside (a : Assessed) : List PyStr :=
  if a.unassessed.isEmpty then []
  else [[], py "### Readings outside this SOP", []] ++ a.unassessed.map (py "- " ++ ·) ++
    [py "\nThese carry a measurement but match no rule in " ++ a.sopId ++ py ". They were **not** " ++
      py "assessed. Check them against the SOP that governs them."]

/-- The lines under the table. -/
def Assessed.tail (a : Assessed) : List PyStr :=
  a.required ++ a.notMeasured ++ a.outside ++ [[], py "**Disposition: " ++ a.disposition ++ py "**"] ++
    (if a.incomplete && a.failures.isEmpty then
      [py "\n> One or more thresholds could not be applied because the reading was absent. " ++
        py "The assessment is treated as blocking rather than passing: supply the missing " ++
        py "measurements and re-run before releasing the equipment."]
    else []) ++
    [py "\n*Assessed against " ++ a.sopId ++ py " only, and only for the parameters in its rule pack. " ++
      py "Every comparison above is arithmetic performed on this machine against an authored " ++
      py "threshold - no model judged whether a value was acceptable. Defect checks such as " ++
      py "guarding infer from what the report states; a defect that was never inspected for " ++
      py "cannot be detected here.*"]

def Assessed.report (a : Assessed) : PyStr :=
  join [10] ([a.heading, [], a.headline, []] ++ tableHead ++ a.findings.map (fun f ↦ pipeRow f.cells) ++
    a.tail)

/-! ## Readings outside the rules -/

/-- `s.splitlines(keepends=True)` from within a line whose beginning, reversed, is `line`. -/
def splitKeepingFrom (line : PyStr) : PyStr → List PyStr
  | [] => if line.isEmpty then [] else [line.reverse]
  | 13 :: 10 :: s => (10 :: 13 :: line).reverse :: splitKeepingFrom [] s
  | c :: s =>
    if isLineEnd c then (c :: line).reverse :: splitKeepingFrom [] s
    else splitKeepingFrom (c :: line) s

section

variable [Unicode]

/-- `MEASUREMENT`. -/
def measurement : Pattern :=
  re { ignoreCase := true }
    (py r"\d+(?:\.\d+)?\s*(?:mm/s|degrees?\s*C|deg\s*C|°\s*C|bar|mm|kPa|psi|rpm|Hz|%|drops?)\b")
    (by decide)

/-- `_unassessed_lines`, from a line that begins at `offset`. -/
def unassessedFrom (spans : Spans) : ℕ → List PyStr → List PyStr
  | _, [] => []
  | offset, raw :: rest =>
    let stop := offset + raw.length
    let stripped := strip raw
    let others := unassessedFrom spans stop rest
    if stripped.isEmpty || (reSearch measurement stripped).isNone then others
    else if spans.any fun s ↦ s.1 < stop && offset < s.2 then others
    else (if stripped.length ≤ 120 then stripped else stripped.take 117 ++ py "...") :: others

/-- `_unassessed_lines(text, spans)`. -/
def unassessedLines (text : PyStr) (spans : Spans) : List PyStr :=
  unassessedFrom spans 0 (splitKeepingFrom [] text)

variable [Casing] {F : Type} [Runtime F]

/-! ## The tool -/

structure SopValves where
  rulePack : PyStr
  blockOnMissingData : Bool

/-- `_rule_pack`: the pack, or why there is none; `decodeError` is what the interpreter says of JSON
it cannot read. -/
def rulePack (decodeError : PyStr → PyStr) (valves : SopValves) :
    Except PyStr (List (PyStr × Json F)) :=
  let raw := strip valves.rulePack
  if raw.isEmpty then .ok defaultRulePack
  else match loads raw with
    | none => .error (decodeError raw)
    | some (.obj pack) => match dictGet pack (py "rules") with
      | some (.arr _) => .ok pack
      | _ => .error (py "expected an object with a 'rules' list")
    | some _ => .error (py "expected an object with a 'rules' list")

/-- `pack.get("rules") or []`. -/
def rulesOf (pack : List (PyStr × Json F)) : List (Json F) :=
  match dictGet pack (py "rules") with
  | some (.arr rules) => rules
  | _ => []

/-- `str(pack.get("sop_id") or "SOP")`. -/
def sopIdOf (pack : List (PyStr × Json F)) : PyStr :=
  (((dictGet pack (py "sop_id")).getD .null).orElse (.str (py "SOP"))).text

/-- The findings of a pack on a text, and the spans they rest on. -/
def assessPack (blocking : Bool) (pack : List (PyStr × Json F)) (text : PyStr) : Option Assessed := do
  let found ← (rulesOf pack).mapM fun rule ↦ assessOf rule text
  return { sopId := sopIdOf pack
           findings := found.map Prod.fst
           unassessed := unassessedLines text (found.flatMap Prod.snd)
           blocking }

/-- `check_sop_thresholds(readings)`. -/
def checkSopThresholds (F : Type) [Runtime F] (decodeError : PyStr → PyStr) (valves : SopValves)
    (readings : PyStr) : Option PyStr :=
  let text := strip readings
  if text.isEmpty then
    some (py "No readings were supplied, so nothing was assessed. Pass the measurements from " ++
      py "the inspection report - including units - and the assessment will run against " ++
      py "the SOP thresholds.")
  else match rulePack (F := F) decodeError valves with
    | .error why =>
      some (py "The SOP rule pack could not be read: " ++ why ++ py "\n\n" ++
        (py "No assessment was performed. Fix the `rule_pack` valve, or clear it to fall back " ++
          py "to the built-in SOP-MEC-014 pack. It is not safe to guess at thresholds."))
    | .ok pack => (assessPack valves.blockOnMissingData pack text).map Assessed.report

end

end FourCE.Sop
