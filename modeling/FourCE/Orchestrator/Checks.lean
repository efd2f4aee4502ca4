import FourCE.Python.Json
import FourCE.Python.Text

/-!
# Verdicts and checks

How ULTRON's reply is read, and 4CE's own check on code that was run.
-/

namespace FourCE.Orchestrator

open FourCE.Python

/-- `_ERR`. -/
def ERR : PyStr := py "**4CE error:**"

/-! ## Checks -/

inductive Kind
  | ok
  | problem
  | unverified
  deriving DecidableEq, Repr

def Kind.text : Kind → PyStr
  | .ok => py "ok"
  | .problem => py "problem"
  | .unverified => py "unverified"

/-- Who made a check. -/
inductive Maker
  | fource
  | ultron
  deriving DecidableEq, Repr

def Maker.text : Maker → PyStr
  | .fource => py "4CE"
  | .ultron => py "ULTRON"

/-- A check; `ran` marks `_execution_check`, whose dictionary names its keys in another order. -/
structure Check where
  kind : Kind
  text : PyStr
  by_ : Maker
  on : Option PyStr := none
  final : Bool := false
  ran : Bool := false
  deriving DecidableEq, Repr

/-- A check of the deterministic checkers, all of which sign `"by": "4CE"`. -/
structure OwnCheck where
  kind : Kind
  text : PyStr
  on : Option PyStr := none
  deriving DecidableEq, Repr

def OwnCheck.signed (c : OwnCheck) : Check := ⟨c.kind, c.text, .fource, c.on, false, false⟩

/-- `verdict`, as the chain builds it. -/
structure Verdict (R : Type) where
  status : PyStr
  passed : Bool
  detail : PyStr
  summary : PyStr := []
  checks : List Check := []
  citedText : PyStr := []
  failedBy : Option PyStr := none
  failedOn : Option PyStr := none
  reservations : Option ℕ := none
  revision : Option R := none

/-- A position of the last space before `limit`; `str.rfind` returns `-1` when there is none. -/
def rfindSpace (limit : ℕ) (text : PyStr) : Option ℕ :=
  ((List.range (min limit text.length)).filter fun k ↦ text[k]? = some 32).getLast?

section

variable [Unicode]

omit [Unicode] in
theorem whiteRun_compiles : (compile {} (py r"\s+")).isSome = true := by decide

def whiteRun : Pattern := re {} (py r"\s+") whiteRun_compiles

/-- `_clip(text, limit)`. -/
def clip (text : PyStr) (limit : ℕ) : PyStr :=
  let line := strip (reSub whiteRun (fun _ ↦ [32]) text)
  if line.length ≤ limit then line
  else
    let kept := match rfindSpace limit line with
      | some k => line.take k
      | none => line.dropLast
    rstripOf (py " ,;:") kept ++ py "…"

def ignoringCase : Flags := { ignoreCase := true }

/-- `_CHECK_LINE`. -/
def checkLine : Pattern :=
  re ignoringCase
    (py r"^[\s>*\-•\d.)]*(OK|PROBLEM|UNVERIFIED|NOT VERIFIED)\b\s*[:\-—–]\s*(.+)$")
    (by decide)

/-- `_SOURCE_GUESS`. -/
def sourceGuess : Pattern :=
  re ignoringCase
    (py r"\b(?:in|from|per|based on|supported by|found in|backed by)\s+(?:any|the|a|its)\s+" ++
      py r"(?:source|document|passage)s?\b" ++
      py r"|\bthe (?:original )?(?:source|document|passage|SOP(?:-[\w-]+)?)s?(?: document)?(?:\s*\[\d+\])?\s+" ++
      py r"(?:says|say|states|state|does not|do not|doesn't|only|mentions|lists|defines|uses)\b")
    (by decide +kernel)

/-- `_CONCEDED`. -/
def conceded : Pattern :=
  re ignoringCase
    (py r"\b(?:no (?:issue|problem|contradiction)s?\b|not (?:a )?(?:problem|contradict\w*|an issue)|" ++
      py r"(?:is|are) (?:technically )?(?:correct|valid|consistent|equivalent|accurate)\b|" ++
      py r"technically correct|both are equivalent|clear and explicit|which is correct)")
    (by decide +kernel)

/-- `_OPEN_QUESTION`. -/
def openQuestion : Pattern :=
  re ignoringCase
    (py r"\b(?:does not (?:specify|define|say|state|indicate|clarify)|not specified|unclear whether|" ++
      py r"no indication (?:of )?whether|without clarification)\b")
    (by decide +kernel)

/-- `_NEGATION`. -/
def negation : Pattern :=
  re ignoringCase
    (py r"\b(?:not (?:in|found|present|supported|stated|mentioned|given|listed)|no source|missing|" ++
      py r"unsupported|absent|does not appear|cannot be verified|could not be verified)\b")
    (by decide +kernel)

/-- `pattern.search(text)` as a condition. -/
def found (p : Pattern) (text : PyStr) : Bool := (reSearch p text).isSome

variable [Casing]

/-- The kind `_parse_checks` gives a line's label and what follows it. -/
def checkKind (word rest text : PyStr) : Kind :=
  if word = py "OK" then (if found negation rest then .unverified else .ok)
  else if word = py "PROBLEM" then (if found openQuestion text then .unverified else .problem)
  else .unverified

/-- A check that says nothing: `"PROBLEM: none"`. -/
def saysNothing (text : PyStr) : Bool :=
  text.isEmpty || [py "none", py "nothing", py "n/a", py "no problems", py "no issues",
    py "no concerns", py "none found"].contains (stripOf (py " .!") (Casing.lower text))

/-- One line of `_parse_checks`, after the checks before it. -/
def parseCheckLine (checks : List Check) (line : PyStr) : List Check :=
  match reMatch checkLine (replace (py "`") [] (replace (py "**") [] line)) with
  | none => checks
  | some m =>
    let word := Casing.upper ((m.group 1).getD [])
    let rest := (m.group 2).getD []
    let text := clip (strip rest) 180
    if found sourceGuess text then checks
    else if (words text).length < 4 then checks
    else if word = py "PROBLEM" ∧ found conceded text then checks
    else if checks.any fun c ↦ c.text = text then checks
    else if saysNothing text then checks
    else checks ++ [⟨checkKind word rest text, text, .ultron, none, false, false⟩]

/-- `_parse_checks(detail)`. -/
def parseChecks (detail : PyStr) : List Check :=
  ((splitLines detail).foldl parseCheckLine []).take 8

/-! ## ULTRON's verdict -/

/-- `_VERDICT_LINE`. -/
def verdictLine : Pattern :=
  re ignoringCase (py r"^[\s>*#_`-]*(?:verdict\s*[:-]\s*)?[*_`]*(PASS|FAIL)\b") (by decide)

def leadingMarks : Pattern := re {} (py r"^[\s>*#_`\-\d.)]+") (by decide)

/-- The lines that give a verdict, by number, with the word each gives. -/
def verdictHits (lines : List PyStr) : List (ℕ × PyStr) :=
  lines.zipIdx.filterMap fun p ↦
    (reMatch verdictLine p.1).map fun m ↦ (p.2, Casing.upper ((m.group 1).getD []))

/-- The first line's verdict, otherwise the last one given. -/
def verdictHit (lines : List PyStr) : Option (ℕ × PyStr) :=
  match verdictHits lines with
  | [] => none
  | hit :: hits => if hit.1 = 0 then some hit else (hit :: hits).getLast?

/-- What follows the verdict: the rest of its line, and the lines below that are not blank. -/
def verdictAfter (lines : List PyStr) (index : ℕ) : List PyStr :=
  let remainder := stripOf (py " *_:-—–") (reSubOnce verdictLine (fun _ ↦ []) (lines[index]?.getD []))
  (if remainder.isEmpty then [] else [remainder]) ++
    (lines.drop (index + 1)).filter fun l ↦ !(strip l).isEmpty

/-- `_parse_verdict(raw)`. -/
def parseVerdict {R : Type} (raw : PyStr) : Verdict R :=
  let text := strip raw
  if startsWith ERR text then
    { status := py "ERROR", passed := false, detail := text, summary := py "the verifier could not run" }
  else
    let lines := splitLines text
    match verdictHit lines with
    | none =>
      { status := py "FAIL", passed := false,
        detail := if text.isEmpty then py "Verifier returned nothing." else text.take 1500,
        summary := py "ULTRON gave no PASS or FAIL verdict" }
    | some (index, word) =>
      let after := verdictAfter lines index
      let before := (lines.take index).filter fun l ↦ !(strip l).isEmpty
      let concerns := strip (join [10] (if after.isEmpty then before else after))
      { status := word, passed := word = py "PASS",
        detail := (if concerns.isEmpty then text else concerns).take 1500,
        summary := match after.head? with
          | some first => clip (replace (py "**") [] (reSub leadingMarks (fun _ ↦ []) first)) 90
          | none => [] }

/-! ## The execution check -/

def reasonLine : Pattern := re {} (py r"Reason:\s*(.+)") (by decide)

def exitCodeLine : Pattern := re {} (py r"- Exit code:\s*(-?\d+|None)") (by decide)

def assertLine : Pattern := re { multiline := true } (py r"^\s*assert\b") (by decide)

def stderrBlock : Pattern :=
  re { dotAll := true } (py r"\*\*stderr\*\*\s*```\s*\n(.*?)```") (by decide)

/-- `_ASKS_FOR_OUTPUT`. -/
def asksForOutput : Pattern :=
  re ignoringCase (py r"\b(?:print|prints|printed|output|outputs|show|display)\b") (by decide)

/-- A check of `_execution_check`. -/
def ranCheck (kind : Kind) (text : PyStr) (final : Bool) : Check := ⟨kind, text, .fource, none, final, true⟩

/-- The exit code a report of the sandbox gives. -/
def exitCode (report : PyStr) : PyStr :=
  match reSearch exitCodeLine report with
  | some m => (m.group 1).getD []
  | none => py "unknown"

/-- `_execution_check(code, report, prompt)`. -/
def executionCheck (code report prompt : PyStr) : Check :=
  if code.isEmpty then
    ranCheck .problem (py "There is no ```python block in the result, so nothing could be run") false
  else if report.isEmpty || startsWith ERR report then
    ranCheck .unverified
      (py "The code was not executed: the sandbox tool is not attached to this model") true
  else if contains (py "was NOT executed") report then
    let reason := match reSearch reasonLine report with
      | some m => py ": " ++ strip ((m.group 1).getD [])
      | none => []
    ranCheck .unverified (clip (py "The code was not executed" ++ reason) 180) true
  else if contains (py "**Timed out**") report then
    ranCheck .problem (py "The code did not finish inside the sandbox's time limit") false
  else if exitCode report = py "0" then
    if found asksForOutput prompt && !contains (py "**stdout**") report then
      ranCheck .problem
        (py "The request asks for the result to be printed, and the program printed nothing") false
    else
      let asserts := (reFinditer assertLine code).length
      if asserts ≠ 0 then
        ranCheck .ok (py "The code ran in the sandbox and exited 0, with its " ++ natText asserts ++
          py " assertion" ++ (if asserts = 1 then [] else py "s") ++ py " holding") false
      else
        ranCheck .unverified
          (py "The code ran in the sandbox and exited 0, but asserts nothing about its own result") false
  else
    let stderr := match reSearch stderrBlock report with
      | some m => (m.group 1).getD []
      | none => []
    let last := match ((splitLines stderr).filter fun l ↦ !(strip l).isEmpty).getLast? with
      | some line => py ": " ++ strip line
      | none => []
    ranCheck .problem (clip (py "The code failed in the sandbox with exit code " ++ exitCode report ++ last) 180)
      false

/-! ## What the record says of a verdict -/

/-- `_reservations_phrase(verdict, lead, tail)`. -/
def reservationsPhrase {R : Type} (verdict : Verdict R) (lead tail : PyStr) : PyStr :=
  let count := if verdict.passed then verdict.reservations.getD 0 else 0
  if count = 0 then []
  else lead ++ natText count ++ py " reservation" ++ (if count = 1 then [] else py "s") ++ tail

def hedging : Pattern :=
  re ignoringCase (py r"(?:okay|ok|so|let me|let's|hmm|first|alright)\b") (by decide)

/-- `_objection(verdict)`. -/
def objection {R : Type} (verdict : Verdict R) : PyStr :=
  let problems := verdict.checks.filter fun c ↦ c.kind = .problem
  let who :=
    if verdict.failedBy = some (py "4CE") then
      if verdict.failedOn = some (py "verdict") then py "4CE's rule-pack check"
      else if verdict.failedOn = some (py "workbook") then py "4CE's workbook check"
      else py "4CE's figure check"
    else py "ULTRON"
  let summary := strip verdict.summary
  if !problems.isEmpty then
    who ++ py " objected: " ++
      join (py "; ") ((problems.take 3).map fun c ↦ rstripOf (py ".") c.text) ++ py "."
  else if !summary.isEmpty && (reMatch hedging summary).isNone then who ++ py " objected: " ++ summary
  else who ++ py " failed it without stating a usable reason."

end

end FourCE.Orchestrator
