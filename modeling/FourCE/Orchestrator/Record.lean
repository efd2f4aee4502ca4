import FourCE.Orchestrator.Draft

/-!
# The record under an answer

The receipt, the provenance table and the folded reasoning the chat shows under an answer or under
the notice that it was withheld, and the message a reviewer decides on.
-/

namespace FourCE.Orchestrator

open FourCE.Python

/-! ## What a run knows -/

/-- The floats of a run are seconds. -/
class PySeconds (F : Type) extends PyFloat F where
  zero : F
  sub : F → F → F
  truthy : F → Bool
  /-- `f"{x:.{n}f}"`. -/
  fixed : ℕ → F → PyStr
  /-- `round(x)`. -/
  round : F → ℤ
  /-- `round(x, n)`. -/
  roundTo : ℕ → F → F

inductive TaskType
  | chat
  | code
  | document
  | analysis
  | vision
  deriving DecidableEq, Repr

def TaskType.text : TaskType → PyStr
  | .chat => py "chat"
  | .code => py "code"
  | .document => py "document"
  | .analysis => py "analysis"
  | .vision => py "vision"

/-- `task_type.upper()`. -/
def TaskType.upper : TaskType → PyStr
  | .chat => py "CHAT"
  | .code => py "CODE"
  | .document => py "DOCUMENT"
  | .analysis => py "ANALYSIS"
  | .vision => py "VISION"

inductive Agent
  | tony
  | friday
  | jarvis
  | ultron
  | tool
  deriving DecidableEq, Repr

def Agent.name : Agent → PyStr
  | .tony => py "TONY"
  | .friday => py "FRIDAY"
  | .jarvis => py "JARVIS"
  | .ultron => py "ULTRON"
  | .tool => py "TOOL"

/-- `name.title()`. -/
def Agent.title : Agent → PyStr
  | .tony => py "Tony"
  | .friday => py "Friday"
  | .jarvis => py "Jarvis"
  | .ultron => py "Ultron"
  | .tool => py "Tool"

inductive Approval
  | notRequired
  | noSession
  | noReviewer
  | approved
  | rejected
  deriving DecidableEq, Repr

def Approval.text : Approval → PyStr
  | .notRequired => py "not required"
  | .noSession => py "NOT OBTAINED — no interactive session to prompt"
  | .noReviewer => py "not obtained — no reviewer answered"
  | .approved => py "approved"
  | .rejected => py "rejected"

/-- `approval.capitalize()`. -/
def Approval.capitalized : Approval → PyStr
  | .notRequired => py "Not required"
  | .noSession => py "Not obtained — no interactive session to prompt"
  | .noReviewer => py "Not obtained — no reviewer answered"
  | .approved => py "Approved"
  | .rejected => py "Rejected"

/-- An entry of `steps`; its token counts are left out. -/
structure Step (F : Type) where
  agent : Agent
  label : PyStr
  model : PyStr
  seconds : F
  thinking : PyStr
  text : PyStr

/-- A retrieved passage. -/
structure Passage where
  name : PyStr
  text : PyStr
  deriving DecidableEq, Repr

/-- A numbered document and the passages retrieved from it. -/
structure Source where
  name : PyStr
  passages : List Passage
  deriving DecidableEq, Repr

/-- What the backend's egress watch saw, and the dictionary it says it in. -/
structure Egress (F : Type) where
  observed : Bool
  reason : PyStr
  external : ℕ
  processes : ℕ
  samples : ℕ
  intervalMs : ℕ
  lanOut : ℕ
  dict : List (PyStr × Json F)

/-- What the record of a run is made from. -/
structure Facts (F : Type) where
  taskType : TaskType
  signals : List PyStr
  modelId : PyStr
  rationale : PyStr
  agentModels : List (Agent × PyStr)
  grounding : PyStr
  sources : List Source
  attempts : ℕ
  elapsed : F
  at_ : PyStr
  toolsUsed : List PyStr
  egress : Option (Egress F)

/-- `s.rsplit("/", 1)[-1]`. -/
def baseName (s : PyStr) : PyStr := (s.reverse.takeWhile (· ≠ 47)).reverse

def plural (n : ℕ) : PyStr := if n = 1 then [] else py "s"

section

variable [Unicode] [Casing] {F : Type} [PySeconds F]

/-! ## The receipt -/

def Check.json (c : Check) : Json F :=
  let kind := (py "kind", Json.str c.kind.text)
  let by_ := (py "by", Json.str c.by_.text)
  let text := (py "text", Json.str c.text)
  if c.ran then .obj ([kind, by_] ++ (if c.final then [(py "final", .bool true)] else []) ++ [text])
  else .obj ([kind, text, by_] ++ (c.on.map fun on ↦ (py "on", Json.str on)).toList)

def Step.json (s : Step F) : Json F :=
  .obj [(py "agent", .str s.agent.name), (py "label", .str s.label),
    (py "model", .str (baseName s.model)), (py "seconds", .float (PySeconds.roundTo 1 s.seconds))]

/-- The data of `_receipt`. -/
def receiptData (facts : Facts F) (verdict : Verdict (Json F)) (approval : Approval)
    (approver approvedAt fingerprint : PyStr) (steps : List (Step F)) : List (PyStr × Json F) :=
  let checks := if verdict.checks.isEmpty then parseChecks verdict.detail else verdict.checks
  let observed := facts.egress.filter (·.observed)
  [(py "v", .int 1), (py "task", .str facts.taskType.text), (py "model", .str (baseName facts.modelId)),
    (py "agents", .obj (facts.agentModels.map fun p ↦ (p.1.name, .str (baseName p.2)))),
    (py "sources", .arr (facts.sources.map fun s ↦ .str s.name)),
    (py "cited", .arr ((citedNumbers verdict.citedText facts.sources.length).map fun n ↦ .int n)),
    (py "verdict", .str (Casing.upper verdict.status)),
    (py "reservations", .int (verdict.reservations.getD 0)),
    (py "failed_by", .str (verdict.failedBy.getD [])), (py "failed_on", .str (verdict.failedOn.getD [])),
    (py "attempts", .int facts.attempts), (py "checks", .arr (checks.map Check.json)),
    (py "approval", .str approval.text), (py "approver", .str approver),
    (py "approved_at", .str approvedAt), (py "seconds", .int (PySeconds.round facts.elapsed)),
    (py "tools", .arr (facts.toolsUsed.map .str)),
    (py "external_calls", match observed with
      | some e => .int e.external
      | none => .null),
    (py "egress", match facts.egress with
      | some e => .obj e.dict
      | none => .obj [(py "observed", .bool false)]),
    (py "fingerprint", .str fingerprint), (py "at", .str facts.at_),
    (py "signals", .arr (facts.signals.map .str)), (py "steps", .arr (steps.map Step.json))] ++
    (verdict.revision.map fun r ↦ (py "revision", r)).toList

/-- `_receipt`. -/
def receipt (facts : Facts F) (verdict : Verdict (Json F)) (approval : Approval)
    (approver approvedAt fingerprint : PyStr) (steps : List (Step F)) : PyStr :=
  py "```4ce-receipt\n" ++
    (Json.obj (receiptData facts verdict approval approver approvedAt fingerprint steps)).emit true ++
    py "\n```"

/-! ## The provenance table -/

/-- `_egress_row`. -/
def egressRow (egress : Option (Egress F)) : PyStr :=
  match egress with
  | none => py "not observed — the egress watch is not running"
  | some e =>
    if e.observed then
      py "**" ++ natText e.external ++ py "** external connection" ++ plural e.external ++
        py " observed across " ++ natText e.processes ++ py " workbench processes during this run (" ++
        natGrouped e.samples ++ py " samples, every " ++ natText e.intervalMs ++ py " ms)" ++
        (if e.lanOut = 0 then []
          else py " · " ++ natText e.lanOut ++ py " other outbound LAN connection" ++ plural e.lanOut)
    else py "not observed — " ++
      (if e.reason.isEmpty then py "the egress watch is not running" else e.reason)

/-- `_provenance_rows`. -/
def provenanceRows (facts : Facts F) (verdict : Verdict (Json F)) (approval : Approval)
    (timings : PyStr) : List (PyStr × PyStr) :=
  [(py "Task type", py "`" ++ facts.taskType.text ++ py "`" ++
      (if facts.signals.isEmpty then py " — no strong signal"
        else py " — matched: " ++ join (py ", ") facts.signals)),
    (py "Model routed", py "`" ++ facts.modelId ++ py "` — " ++ facts.rationale),
    (py "Agents", join (py " · ") (facts.agentModels.map fun p ↦ p.1.name ++ py " `" ++ p.2 ++ py "`")),
    (py "Verification", py "ULTRON **" ++ verdict.status ++ py "**" ++
      (if facts.attempts > 1 then py " after " ++ natText facts.attempts ++ py " attempts" else []) ++
      reservationsPhrase verdict (py " — with ") (py " it did not count against the result")),
    (py "Human approval", approval.capitalized),
    (py "Elapsed", PySeconds.fixed 0 facts.elapsed ++ py "s working" ++
      (if timings.isEmpty then [] else py " · " ++ timings)),
    (py "Grounding", if facts.grounding.isEmpty then
        py "none — nothing retrieved, answered from the request alone"
      else natGrouped facts.grounding.length ++ py " characters of retrieved passages reached FRIDAY"),
    (py "Tools run", if facts.toolsUsed.isEmpty then py "none — the agents reasoned unaided"
      else join (py " · ") (facts.toolsUsed.map fun t ↦ py "`" ++ t ++ py "`")),
    (py "Inference", py "Local open-weight models"),
    (py "Egress", egressRow facts.egress)]

/-! ## The reasoning -/

def details (summary body : PyStr) : PyStr :=
  py "<details>\n<summary>" ++ summary ++ py "</summary>\n\n" ++ body ++ py "\n</details>"

/-- A step `_provenance_rest` shows: TONY's never, JARVIS's only after a second attempt. -/
def shownStep (attempts : ℕ) (s : Step F) : Bool :=
  !(s.agent = .jarvis && attempts < 2) && s.agent ≠ .tony

def stepBlock (includeThinking : Bool) (s : Step F) : PyStr :=
  let text := strip s.text
  let body := [if text.isEmpty then py "_no output_" else text] ++
    (if includeThinking && !s.thinking.isEmpty then
      [[], py "**Model's internal reasoning**", [], py "> " ++ replace [10] (py "\n> ") s.thinking]
    else [])
  details (s.agent.name ++ py " — " ++ s.label ++ py "  ·  " ++ s.model) (join [10] body)

def numbered (lines : List PyStr) : List PyStr :=
  lines.zipIdx.map fun p ↦ natText (p.2 + 1) ++ py ". " ++ p.1

/-- `_provenance_rest`. -/
def provenanceRest (steps : List (Step F)) (attempts : ℕ) (includeThinking : Bool)
    (trace table : List PyStr) (receipt : PyStr) : PyStr :=
  join [10, 10] ([py "---", receipt, details (py "Full provenance") (join [10] table)] ++
    (steps.filter (shownStep attempts)).map (stepBlock includeThinking) ++
    if trace.isEmpty then [] else [details (py "Execution timeline") (join [10] (numbered trace))])

/-- The timings of `_provenance`. -/
def timings (steps : List (Step F)) : PyStr :=
  join (py " · ") ((steps.filter fun s ↦ PySeconds.truthy s.seconds).map fun s ↦
    s.agent.title ++ py " " ++ PySeconds.fixed 0 s.seconds ++ py "s")

def tableLines (rows : List (PyStr × PyStr)) : List PyStr :=
  [py "| Stage | Detail |", py "|---|---|"] ++
    rows.map fun row ↦ py "| " ++ row.1 ++ py " | " ++ row.2 ++ py " |"

/-- `_provenance`. -/
def provenance (facts : Facts F) (verdict : Verdict (Json F)) (approval : Approval)
    (includeThinking : Bool) (steps : List (Step F)) (trace : List PyStr)
    (approver approvedAt fingerprint audit : PyStr) : PyStr :=
  let rows := provenanceRows facts verdict approval (timings steps) ++
    (if fingerprint.isEmpty then []
      else [(py "Fingerprint", py "SHA-256 `" ++ fingerprint ++ py "` of the released answer")]) ++
    if audit.isEmpty then [] else [(py "Audit trail", audit)]
  provenanceRest steps facts.attempts includeThinking trace (tableLines rows)
    (receipt facts verdict approval approver approvedAt fingerprint steps)

/-! ## What the reviewer reads -/

/-- `_approval_message`. -/
def approvalMessage (deliverable : PyStr) (verdict : Verdict (Json F)) (taskType : TaskType)
    (modelId : PyStr) : PyStr :=
  let status := Casing.upper verdict.status
  let line := py "**ULTRON: " ++ status ++ py "** · " ++ taskType.text ++ py " task · drafted on `" ++
    modelId ++ py "`" ++
    (if status ≠ py "PASS" then py "\n\n*" ++ objection verdict ++ py "*" else [])
  let draft := strip deliverable
  line ++ py "\n\n" ++
    (py "<div class=\"text-gray-900 dark:text-gray-100 bg-gray-50 dark:bg-gray-900 " ++
      py "border border-gray-200 dark:border-gray-800\" " ++
      py "style=\"max-height:42vh;overflow-y:auto;padding:12px 14px;margin:10px 0 12px;" ++
      py "border-radius:12px;font-size:13.5px;line-height:1.55\">\n\n") ++
    (if draft.isEmpty then py "*(the draft is empty)*" else draft) ++
    (py "\n\n</div>\n\nThis is exactly what will be released. Type **approve** to release it; " ++
      py "anything else, or an empty box, withholds it.")

end

end FourCE.Orchestrator
