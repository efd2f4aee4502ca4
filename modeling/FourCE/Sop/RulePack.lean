import FourCE.Python.Float
import FourCE.Python.Re

/-!
# The built-in rule pack

`DEFAULT_RULE_PACK` of `sop_check.py`: SOP-MEC-014, rule by rule, with its patterns as the source
spells them.
-/

namespace FourCE.Sop

open FourCE.Python

/-! ## Rules -/

/-- What a reading that falls somewhere means. -/
structure Outcome where
  verdict : PyStr
  clause : PyStr
  action : Option PyStr
  disposition : PyStr

/-- The key of a band that bounds it: `below`, `max`, or neither. -/
inductive Bound
  | below (limit : Double)
  | max (limit : Double)
  | rest

structure Band where
  bound : Bound
  outcome : Outcome

/-- Readings a rule recognises and does not convert. -/
structure Unconverted where
  patterns : List Pattern
  note : PyStr → PyStr

/-- The `secondary` threshold on a margin. -/
structure Secondary where
  marginBelow : Double
  clause : PyStr
  action : PyStr

/-- What the types of rules hold besides what all rules hold. -/
inductive Kind
  | band (unit : PyStr) (patterns : List Pattern) (bands : List Band)
  | categorical (patterns : List Pattern) (unconverted : Option Unconverted)
    (cases : List (PyStr × Outcome))
  | margin (unit : PyStr) (patterns referencePatterns : List Pattern) (pass fail : Outcome)
    (secondary : Option Secondary)
  | presence (defectPatterns : List Pattern) (defect clear : Outcome)

structure Rule where
  id : PyStr
  parameter : PyStr
  limit : PyStr
  kind : Kind

/-! ## Patterns

`re.search` and `re.finditer` are called with `re.IGNORECASE` throughout. -/

def ignoreCase : Flags := { ignoreCase := true }

def leakageRange : Pattern :=
  re ignoreCase (py r"(\d+(?:\.\d+)?)\s*(?:to|-|–|—)\s*(\d+(?:\.\d+)?)\s*drops?\s*(?:per|/)\s*min")
    (by decide)

def leakageSingle : Pattern :=
  re ignoreCase (py r"(\d+(?:\.\d+)?)\s*drops?\s*(?:per|/)\s*min") (by decide)

def zone : Pattern := re ignoreCase (py r"zone\s*([A-D])\b") (by decide)

def velocity : Pattern := re ignoreCase (py r"(\d+(?:\.\d+)?)\s*mm\s*/\s*s") (by decide)

def minimumMeasured : Pattern :=
  re ignoreCase (py r"minimum measured wall thickness[^0-9]{0,40}(\d+(?:\.\d+)?)\s*mm")
    (by decide)

def measuredThickness : Pattern :=
  re ignoreCase (py r"measured wall thickness[^0-9]{0,40}(\d+(?:\.\d+)?)\s*mm") (by decide)

def currentThickness : Pattern :=
  re ignoreCase
    (py r"(?:current|present|actual|latest)\s+(?:wall\s+)?thickness[^0-9]{0,40}(\d+(?:\.\d+)?)\s*mm")
    (by decide)

def wallThickness : Pattern :=
  re ignoreCase (py r"(?<!previous )(?<!prior )(?<!original )wall thickness" ++
    py r"[^0-9]{0,40}(\d+(?:\.\d+)?)\s*mm") (by decide)

def retirementThickness : Pattern :=
  re ignoreCase (py r"retirement thickness[^0-9]{0,40}(\d+(?:\.\d+)?)\s*mm") (by decide)

def requiredThickness : Pattern :=
  re ignoreCase (py r"(?:required|minimum required|minimum allowable)\s+(?:wall\s+)?thickness" ++
    py r"[^0-9]{0,40}(\d+(?:\.\d+)?)\s*mm") (by decide)

def atomised : Pattern := re ignoreCase (py r"atomis(?:ed|ing|ation)") (by decide)

def atomized : Pattern := re ignoreCase (py r"atomiz(?:ed|ing|ation)") (by decide)

def visibleSpray : Pattern := re ignoreCase (py r"visible spray") (by decide)

def sprayFromSeal : Pattern :=
  re ignoreCase (py r"spray(?:ing)?\s+from\s+the\s+seal") (by decide)

def guardMissing : Pattern :=
  re ignoreCase (py r"(?:coupling\s+)?guard[^.\n]{0,60}(?:fastener|bolt|screw|nut|fixing)s?" ++
    py r"[^.\n]{0,40}missing[^.\n]{0,30}") (by decide)

def missingGuard : Pattern :=
  re ignoreCase
    (py r"missing[^.\n]{0,30}(?:coupling\s+)?guard\s+(?:fastener|bolt|screw|nut|fixing)s?")
    (by decide)

/-! ## SOP-MEC-014 -/

def pass (clause : PyStr) : Outcome := ⟨py "PASS", clause, none, py "FIT FOR SERVICE"⟩

def leakageBands : List Band :=
  [⟨.below (.ofRat 5), pass (py "2.1")⟩,
    ⟨.max (.ofRat 20), py "REVIEW", py "2.2",
      (py "Continued operation requires the area supervisor's written concurrence. " ++
        py "Schedule seal replacement within 30 days."), py "FIT FOR SERVICE WITH CONDITIONS"⟩,
    ⟨.rest, py "FAIL", py "2.3",
      (py "Seal leakage is above 20 drops per minute. " ++
        py "Remove the equipment from service immediately."), py "REMOVE FROM SERVICE"⟩]

def sealLeakage : Rule where
  id := py "seal_leakage"
  parameter := py "Seal leakage"
  limit := py "below 5 drops/min"
  kind := .band (py "drops/min") [leakageRange, leakageSingle] leakageBands

def sealSpray : Rule where
  id := py "seal_spray"
  parameter := py "Seal atomisation / spray"
  limit := py "no atomised or visible spray"
  kind := .presence [atomised, atomized, visibleSpray, sprayFromSeal]
    ⟨py "FAIL", py "2.3",
      py "Atomised or visible spray observed. Remove the equipment from service immediately.",
      py "REMOVE FROM SERVICE"⟩
    (pass (py "2.3"))

def zoneCases : List (PyStr × Outcome) :=
  [(py "A", pass (py "3.1")), (py "B", pass (py "3.1")),
    (py "C", ⟨py "REVIEW", py "3.2",
      py "Zone C permits operation for a limited period only. Raise a maintenance notification.",
      py "FIT FOR SERVICE WITH CONDITIONS"⟩),
    (py "D", ⟨py "FAIL", py "3.3",
      py "Zone D is not acceptable. Remove the equipment from service.",
      py "REMOVE FROM SERVICE"⟩)]

def vibration : Rule where
  id := py "vibration"
  parameter := py "Vibration (ISO 10816)"
  limit := py "Zone A or B"
  kind := .categorical [zone]
    (some ⟨[velocity], fun value ↦ value ++
      (py " mm/s was given, but this SOP states vibration as ISO 10816 zones, " ++
        py "whose boundaries depend on the machine class - state the zone to have it assessed")⟩)
    zoneCases

def wallThicknessRule : Rule where
  id := py "wall_thickness"
  parameter := py "Wall thickness"
  limit := py "above the retirement thickness"
  kind := .margin (py "mm") [minimumMeasured, measuredThickness, currentThickness, wallThickness]
    [retirementThickness, requiredThickness] (pass (py "4.1"))
    ⟨py "FAIL", py "4.1",
      (py "Minimum measured wall thickness is at or below the retirement thickness. " ++
        py "Remove the equipment from service."), py "REMOVE FROM SERVICE"⟩
    (some ⟨.ofRat 2, py "4.2",
      (py "Remaining wall thickness margin is below 2.0 mm. " ++
        py "Shorten the inspection interval to six months.")⟩)

def couplingGuard : Rule where
  id := py "coupling_guard"
  parameter := py "Coupling guard"
  limit := py "no coupling guard fastener missing"
  kind := .presence [guardMissing, missingGuard]
    ⟨py "FAIL", py "5.1",
      py "Rectify the missing coupling guard fastener before the next start.",
      py "NOT FIT FOR START"⟩
    (pass (py "5.1"))

/-- `DEFAULT_RULE_PACK["rules"]`. -/
def defaultRules : List Rule :=
  [sealLeakage, sealSpray, vibration, wallThicknessRule, couplingGuard]

end FourCE.Sop
