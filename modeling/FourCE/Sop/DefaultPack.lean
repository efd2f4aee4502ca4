import FourCE.Python.Json

/-!
# The built-in rule pack as an object

`DEFAULT_RULE_PACK` of `sop_check.py`, key by key; its title is left out.
-/

namespace FourCE.Sop

open FourCE.Python

section

variable {F : Type} [PyFloat F]

def strs (ss : List PyStr) : Json F := .arr (ss.map .str)

/-- An outcome with or without an action. -/
def outcomeJson (verdict clause : PyStr) (action : Option PyStr) (disposition : PyStr) :
    List (PyStr × Json F) :=
  [(py "verdict", .str verdict), (py "clause", .str clause)] ++
    (action.map fun a ↦ (py "action", Json.str a)).toList ++ [(py "disposition", .str disposition)]

def passJson (clause : PyStr) : List (PyStr × Json F) :=
  outcomeJson (py "PASS") clause none (py "FIT FOR SERVICE")

def sealLeakageJson : Json F :=
  .obj [(py "id", .str (py "seal_leakage")), (py "parameter", .str (py "Seal leakage")),
    (py "unit", .str (py "drops/min")), (py "type", .str (py "band")),
    (py "limit", .str (py "below 5 drops/min")),
    (py "patterns", strs [
      py r"(\d+(?:\.\d+)?)\s*(?:to|-|–|—)\s*(\d+(?:\.\d+)?)\s*drops?\s*(?:per|/)\s*min",
      py r"(\d+(?:\.\d+)?)\s*drops?\s*(?:per|/)\s*min"]),
    (py "bands", .arr [.obj ((py "below", .int 5) :: passJson (py "2.1")),
      .obj ((py "max", .int 20) :: outcomeJson (py "REVIEW") (py "2.2")
        (some (py "Continued operation requires the area supervisor's written concurrence. " ++
          py "Schedule seal replacement within 30 days."))
        (py "FIT FOR SERVICE WITH CONDITIONS")),
      .obj (outcomeJson (py "FAIL") (py "2.3")
        (some (py "Seal leakage is above 20 drops per minute. " ++
          py "Remove the equipment from service immediately."))
        (py "REMOVE FROM SERVICE"))])]

def sealSprayJson : Json F :=
  .obj [(py "id", .str (py "seal_spray")), (py "parameter", .str (py "Seal atomisation / spray")),
    (py "type", .str (py "presence")), (py "limit", .str (py "no atomised or visible spray")),
    (py "defect_patterns", strs [py r"atomis(?:ed|ing|ation)", py r"atomiz(?:ed|ing|ation)",
      py r"visible spray", py r"spray(?:ing)?\s+from\s+the\s+seal"]),
    (py "defect", .obj (outcomeJson (py "FAIL") (py "2.3")
      (some (py "Atomised or visible spray observed. Remove the equipment from service immediately."))
      (py "REMOVE FROM SERVICE"))),
    (py "clear", .obj (passJson (py "2.3")))]

def vibrationJson : Json F :=
  .obj [(py "id", .str (py "vibration")), (py "parameter", .str (py "Vibration (ISO 10816)")),
    (py "type", .str (py "categorical")), (py "limit", .str (py "Zone A or B")),
    (py "patterns", strs [py r"zone\s*([A-D])\b"]),
    (py "unconverted", .obj [(py "patterns", strs [py r"(\d+(?:\.\d+)?)\s*mm\s*/\s*s"]),
      (py "note", .str (py "\x7bvalue\x7d mm/s was given, but this SOP states vibration as ISO " ++
        py "10816 zones, whose boundaries depend on the machine class - state the zone to have " ++
        py "it assessed"))]),
    (py "cases", .obj [(py "A", .obj (passJson (py "3.1"))), (py "B", .obj (passJson (py "3.1"))),
      (py "C", .obj (outcomeJson (py "REVIEW") (py "3.2")
        (some (py "Zone C permits operation for a limited period only. " ++
          py "Raise a maintenance notification."))
        (py "FIT FOR SERVICE WITH CONDITIONS"))),
      (py "D", .obj (outcomeJson (py "FAIL") (py "3.3")
        (some (py "Zone D is not acceptable. Remove the equipment from service."))
        (py "REMOVE FROM SERVICE")))])]

def wallThicknessJson : Json F :=
  .obj [(py "id", .str (py "wall_thickness")), (py "parameter", .str (py "Wall thickness")),
    (py "unit", .str (py "mm")), (py "type", .str (py "margin")),
    (py "limit", .str (py "above the retirement thickness")),
    (py "patterns", strs [
      py r"minimum measured wall thickness[^0-9]{0,40}(\d+(?:\.\d+)?)\s*mm",
      py r"measured wall thickness[^0-9]{0,40}(\d+(?:\.\d+)?)\s*mm",
      py r"(?:current|present|actual|latest)\s+(?:wall\s+)?thickness[^0-9]{0,40}(\d+(?:\.\d+)?)\s*mm",
      py r"(?<!previous )(?<!prior )(?<!original )wall thickness" ++
        py r"[^0-9]{0,40}(\d+(?:\.\d+)?)\s*mm"]),
    (py "reference_patterns", strs [
      py r"retirement thickness[^0-9]{0,40}(\d+(?:\.\d+)?)\s*mm",
      py r"(?:required|minimum required|minimum allowable)\s+(?:wall\s+)?thickness" ++
        py r"[^0-9]{0,40}(\d+(?:\.\d+)?)\s*mm"]),
    (py "pass", .obj (passJson (py "4.1"))),
    (py "fail", .obj (outcomeJson (py "FAIL") (py "4.1")
      (some (py "Minimum measured wall thickness is at or below the retirement thickness. " ++
        py "Remove the equipment from service."))
      (py "REMOVE FROM SERVICE"))),
    (py "secondary", .obj [
      (py "margin_below", .float (PyFloat.ofLit (.num ⟨false, 2, some ⟨0, []⟩, none, rfl⟩))),
      (py "clause", .str (py "4.2")),
      (py "action", .str (py "Remaining wall thickness margin is below 2.0 mm. " ++
        py "Shorten the inspection interval to six months."))])]

def couplingGuardJson : Json F :=
  .obj [(py "id", .str (py "coupling_guard")), (py "parameter", .str (py "Coupling guard")),
    (py "type", .str (py "presence")), (py "limit", .str (py "no coupling guard fastener missing")),
    (py "defect_patterns", strs [
      py r"(?:coupling\s+)?guard[^.\n]{0,60}(?:fastener|bolt|screw|nut|fixing)s?" ++
        py r"[^.\n]{0,40}missing[^.\n]{0,30}",
      py r"missing[^.\n]{0,30}(?:coupling\s+)?guard\s+(?:fastener|bolt|screw|nut|fixing)s?"]),
    (py "defect", .obj (outcomeJson (py "FAIL") (py "5.1")
      (some (py "Rectify the missing coupling guard fastener before the next start."))
      (py "NOT FIT FOR START"))),
    (py "clear", .obj (passJson (py "5.1")))]

/-- `DEFAULT_RULE_PACK`. -/
def defaultRulePack : List (PyStr × Json F) :=
  [(py "sop_id", .str (py "SOP-MEC-014")),
    (py "rules", .arr [sealLeakageJson, sealSprayJson, vibrationJson, wallThicknessJson,
      couplingGuardJson])]

end

end FourCE.Sop
