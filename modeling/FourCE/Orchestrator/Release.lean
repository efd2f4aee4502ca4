import FourCE.Orchestrator.Attempt

/-!
# Sign-off and release

The end of `Pipe._run_chain`: the question put to the reviewer, what is withheld, what is released,
and the whole run.
-/

namespace FourCE.Orchestrator

open FourCE.Python FourCE.Tools

section

variable [Unicode] [Casing] {F : Type} [PySeconds F] (env : Env F)

/-! ## The record of a run -/

/-- A run at its gate: what was gathered, and the attempt that is to be released. -/
structure Finished (F : Type) where
  gathered : Gathered F
  last : Attempt F
  verdict : Verdict (Json F)

/-- `time.monotonic() - started - waited`, and the rest of what the record is made from. -/
def facts (r : Finished F) (waited : F) : Chain F (Facts F) := do
  let w ← get
  let c := r.gathered.intake
  return ⟨c.taskType, c.signals, c.modelId, c.rationale, r.gathered.agentModels, c.grounding, c.sources,
    r.last.number, PySeconds.sub (PySeconds.sub (env.clock w.events) c.started) waited,
    env.now w.events, w.toolsUsed, env.egress w.events⟩

/-- `_provenance(…)` as the chain calls it. -/
def provenanceText (r : Finished F) (approval : Approval) (waited : F)
    (approver approvedAt fingerprint audit : PyStr) : Chain F PyStr := do
  let record ← facts env r waited
  let w ← get
  return provenance record r.verdict approval env.valves.showModelThinking w.steps
    (if env.valves.showTrace then w.trace else []) approver approvedAt fingerprint audit

/-! ## The gate -/

/-- A verdict of a finished run, with the revision a second attempt made. -/
def withRevision (a : Attempt F) (first : Option FirstTry) : Verdict (Json F) :=
  match first with
  | none => a.verdict
  | some first =>
    { a.verdict with revision := some (env.helpers.revision first a.deliverable a.verdict) }

def optStr (s : Option PyStr) : Json F :=
  match s with
  | some s => .str s
  | none => .null

/-- The trail's entry on the verdict. -/
def auditVerdict (r : Finished F) : Chain F Unit := do
  let draft ← digest env r.last.deliverable
  emit (.audit (py "verdict") [(py "status", .str (Casing.upper r.verdict.status)),
    (py "attempts", .int r.last.number), (py "failed_by", optStr r.verdict.failedBy),
    (py "reservations", match r.verdict.reservations with
      | some n => .int n
      | none => .null),
    (py "draft", .str draft)])

/-- What the sign-off panel is sent. -/
def question (r : Finished F) : Question F where
  message := approvalMessage r.last.deliverable r.verdict r.gathered.intake.taskType
    r.gathered.intake.modelId
  draft := strip r.last.deliverable
  verdict := Casing.upper r.verdict.status
  reservations := r.verdict.reservations.getD 0
  verdictDetail := objection r.verdict
  taskType := r.gathered.intake.taskType
  modelId := r.gathered.intake.modelId
  review := env.helpers.review r.last.deliverable r.verdict r.gathered.intake.sources r.last.number

/-- `decision.strip().lower() in ("approve", "approved")`. -/
def approves (decision : PyStr) : Bool :=
  let word := Casing.lower (strip decision)
  word = py "approve" || word = py "approved"

/-- A decision of the gate, as the trail records it. -/
def auditDecision (decision : PyStr) (fields : List (PyStr × Json F)) : Chain F Unit :=
  emit (.audit (py "approval") ((py "decision", .str decision) :: fields))

def withheldNotice : PyStr := py "### Deliverable withheld\n\n"

/-- A withheld result: the notice, and the record. -/
def withhold (r : Finished F) (approval : Approval) (waited : F) (reason description : PyStr) :
    Chain F (Approval × F × PyStr × PyStr) := do
  statusDone (py "approval") description
  let record ← provenanceText env r approval waited [] [] [] []
  finish .withheld (withheldNotice ++ reason ++ record)

/-- `response if isinstance(response, str) else ""`. -/
def Response.decision : Response → PyStr
  | .str text => text
  | .error _ | .other => []

/-- A decision on the prompt: the approval, how long it took, and when it was given. -/
def decided (r : Finished F) (waited : F) (decision : PyStr) : Chain F (Approval × F × PyStr × PyStr) := do
  let approver := Json.str r.gathered.intake.user.approver
  if approves decision then
    auditDecision (py "approved") [(py "approver", approver)]
    let stamp := env.stamp (← history)
    addTrace (py "**HUMAN** approved the deliverable.")
    return (.approved, waited, stamp)
  else
    auditDecision (py "rejected") [(py "approver", approver)]
    addTrace (py "**HUMAN** rejected the deliverable; it was not released.")
    withhold env r .rejected waited
      (py "The reviewer rejected this result, so 4CE has not released it.\n\n")
      (py "Rejected by reviewer")

/-- The prompt, and what the reviewer makes of it. -/
def askReviewer (r : Finished F) : Chain F (Approval × F × PyStr × PyStr) := do
  status (py "approval") (py "Awaiting human approval")
  let asked := env.clock (← history)
  emit (.ask (question env r))
  let response := env.reviewer (← history)
  let waited := PySeconds.sub (env.clock (← history)) asked
  match response with
  | .error why =>
    auditDecision (py "not obtained") [(py "reason", .str (why.take 120))]
    addTrace (py "**HUMAN** approval was not obtained (" ++ why ++ py "); the result was not released.")
    withhold env r .noReviewer waited
      (py "No reviewer answered the sign-off, so 4CE has not released this result. " ++
        py "Nothing was approved or rejected; ask again to review it.\n\n")
      (py "No reviewer answered")
  | response => decided env r waited response.decision

/-- The gate. -/
def signOff (r : Finished F) : Chain F (Approval × F × PyStr × PyStr) := do
  if !env.valves.requireApproval then return (.notRequired, PySeconds.zero, [], [])
  if r.gathered.intake.request.interactive then askReviewer env r
  else
    auditDecision (py "not obtained") [(py "reason", .str (py "no interactive session"))]
    addTrace (py "**HUMAN** approval is required but no interactive session was available, " ++
      py "so this result is unapproved and must not be treated as released.")
    return (.noSession, PySeconds.zero, [], [])

/-! ## The release -/

/-- `approval in ("approved", "not required")`. -/
def Approval.releasing (a : Approval) : Bool := a = .approved || a = .notRequired

/-- The released answer, with what stands behind it so far. -/
structure Released (F : Type) where
  run : Finished F
  approval : Approval
  waited : F
  /-- When it was approved, in full and as a time of day. -/
  stamp : PyStr × PyStr
  fingerprint : PyStr
  record : List (PyStr × PyStr)

def Released.text (r : Released F) : PyStr := r.run.last.deliverable

/-- `save_artifact` for each file the answer holds, and its download lines. -/
def saveArtifacts (title text : PyStr) : Chain F PyStr := do
  let lines ← (env.helpers.artifacts text title).mapM fun file ↦ do
    let written ← useTool env (.saveArtifact file.1 file.2)
    if usable written then
      useOnce (py "save_artifact")
      addTrace (py "**TOOL** `save_artifact` wrote `" ++ file.1 ++ py "`.")
      return py "\n\n" ++ written
    else return []
  return lines.flatten

/-- `re.sub(r"[`*]", "", value)`. -/
def unmarked (s : PyStr) : PyStr := s.filter fun c ↦ c ≠ 96 && c ≠ 42

/-- The record every file carries. -/
def fileRecord (r : Finished F) (approval : Approval) (waited : F) (stamp fingerprint : PyStr) :
    Chain F (List (PyStr × PyStr)) := do
  let known ← facts env r waited
  let rows := (provenanceRows known r.verdict approval []).map fun row ↦ (row.1, unmarked row.2)
  let placed := env.trailSpan (← history)
  let rows := rows ++
    (if fingerprint.isEmpty then []
      else [(py "Fingerprint", py "SHA-256 " ++ fingerprint ++ py " of the released answer")]) ++
    if placed.isEmpty then [] else [(py "Audit trail", placed)]
  if approval ≠ .approved then return rows
  let approver := strip r.gathered.intake.user.approver
  let who := if approver.isEmpty then py "the reviewer" else approver
  return rows.map fun row ↦
    (row.1, if row.1 = py "Human approval" then py "Approved by " ++ who ++ py " on " ++ stamp
      else row.2)

/-- The sign-off block of the Word report. -/
def signoffBlock (r : Released F) : Signoff :=
  let approver := strip r.run.gathered.intake.user.approver
  let approved := r.approval = .approved
  { fingerprint := r.fingerprint
    verification := Casing.upper r.run.verdict.status ++
      (if r.run.last.number > 1 then py " after " ++ natText r.run.last.number ++ py " attempts" else []) ++
      reservationsPhrase r.run.verdict (py ", with ") []
    models := join (py " · ") ((r.run.gathered.agentModels.map fun p ↦ baseName p.2).reverse.dedup.reverse)
    approvedBy := if approved then some (if approver.isEmpty then py "the reviewer" else approver) else none
    approvedAt := if approved then some r.stamp.1 else none }

def documentType (approval : Approval) : PyStr :=
  if approval = .approved then py "Approved deliverable" else py "Deliverable"

/-- A workbook or a deck, and the card of the file. -/
def makeOffice (r : Released F) (format : Office) : Chain F PyStr := do
  status (py "tool") (py "TOOL: writing the " ++ format.kind)
  let verdicts := firstTable r.run.last.sop
  let body := r.text ++
    if verdicts.isEmpty then [] else py "\n\n### SOP rule pack verdicts\n\n" ++ verdicts
  let made ← useTool env (.createOffice format
    (env.helpers.documentTitle r.run.gathered.intake.request.prompt) body r.record
    (r.run.gathered.intake.sources.map Source.name)
    (if format = .pptx then some (documentType r.approval) else none)
    (if format = .xlsx then r.run.gathered.calculationData else none))
  if usable made then
    useAgain format.tool
    addTrace (py "**TOOL** `" ++ format.tool ++ py "` wrote the released result as a " ++ format.kind ++
      py ".")
    return py "\n\n" ++ fileCard F made
  else return []

/-- The changes the copy of the workbook is written with. -/
def releasedChanges (r : Released F) : Option (List (Json F)) :=
  plannedChanges r.run.gathered r.text

/-- The copy of the attached workbook, and its card. -/
def writeWorkbook (r : Released F) : Chain F PyStr := do
  let name := r.run.gathered.sheetName
  if name.isEmpty then return []
  match releasedChanges r with
  | none => return []
  | some changes =>
    status (py "tool") (py "TOOL: writing a copy of " ++ name)
    let made ← useTool env (.writeSheet changes name false)
    if startsWith (py "**Excel workbook**") made then
      useAgain (py "write_sheet")
      addTrace (py "**TOOL** `write_sheet` wrote the approved changes to a copy of `" ++ name ++
        py "` as live formulas; the file itself was not changed.")
      let card := match partition (py "\n\n") made with
        | some (card, _) => card
        | none => made
      return py "\n\n" ++ fileCard F card
    else if made.isEmpty then return []
    else
      addTrace (py "**TOOL** `write_sheet` did not write the copy: " ++ made)
      return py "\n\n*The workbook was not written: " ++ made ++ py "*"

/-- The Word report of a document or a vision task, and its card. -/
def makeWord (r : Released F) (answer : PyStr) : Chain F PyStr := do
  let c := r.run.gathered.intake
  if c.taskType ≠ .document && c.taskType ≠ .vision then return []
  status (py "tool") (py "TOOL: writing the Word deliverable")
  let made ← useTool env (.createWordDocument (env.helpers.documentTitle c.request.prompt) answer
    (documentType r.approval) (signoffBlock r) r.record (c.sources.map Source.name)
    r.run.verdict.revision r.run.verdict.checks (env.helpers.passages answer c.sources)
    (citedNumbers answer c.sources.length))
  if usable made then
    useAgain (py "create_word_document")
    addTrace (py "**TOOL** `create_word_document` wrote the released result to a .docx.")
    return py "\n\n" ++ fileCard F made
  else return []

/-- What is released on approval, or where none is required: the files, and the answer with their
cards behind it. -/
def releaseFiles (r : Finished F) (approval : Approval) (waited : F) (stamp : PyStr × PyStr)
    (fingerprint : PyStr) : Chain F PyStr := do
  let text := r.last.deliverable
  if !approval.releasing then return text
  let c := r.gathered.intake
  let chat := c.taskType = .chat
  let saved ← if chat then pure []
    else saveArtifacts env (env.helpers.documentTitle c.request.prompt) text
  let record ← if chat then pure [] else fileRecord env r approval waited stamp.1 fingerprint
  let released : Released F := ⟨r, approval, waited, stamp, fingerprint, record⟩
  let cards ← (if chat then [] else officeFormats c.request.prompt).mapM (makeOffice env released)
  let workbook ← writeWorkbook env released
  let answer := text ++ saved ++ cards.flatten ++ workbook
  let word ← makeWord env released answer
  let w ← get
  emit (.audit (py "release") [(py "fingerprint", .str fingerprint),
    (py "tools", if w.toolsUsed.isEmpty then .null else .arr (w.toolsUsed.map .str))])
  return answer ++ word

/-- `verdict["cited_text"] = deliverable`. -/
def Finished.cited (r : Finished F) : Finished F :=
  { r with verdict := { r.verdict with citedText := r.last.deliverable } }

/-- The fingerprint of a text that is released. -/
def fingerprintOf (approval : Approval) (deliverable : PyStr) : Chain F PyStr :=
  if approval.releasing then digest env (strip deliverable) else return []

/-- From the decision to the answer. -/
def release (r : Finished F) (approval : Approval) (waited : F) (stamp : PyStr × PyStr) :
    Chain F Ended := do
  let fingerprint ← fingerprintOf env approval r.last.deliverable
  let answer ← releaseFiles env r.cited approval waited stamp fingerprint
  statusDone (py "done") (py "Complete")
  if !env.valves.showReasoning then return .text .released answer
  let approver := if approval = .approved then strip r.gathered.intake.user.approver else []
  let trail := env.trailSpan (← history)
  let record ← provenanceText env r.cited approval waited approver stamp.2 fingerprint trail
  return .text .released (answer ++ py "\n\n" ++ record)

/-! ## The whole run -/

/-- The loop's result, at the gate. -/
def finished (g : Gathered F) (result : Attempt F × Option FirstTry) : Finished F :=
  ⟨g, result.1, withRevision env result.1 result.2⟩

/-- `_run_chain` from the gathering on. -/
def agentChain (c : Intake F) : Chain F Ended := do
  let g ← gather env c
  let result ← drafting env g
  let r := finished env g result
  auditVerdict env r
  let (approval, waited, stamp) ← signOff env r
  release env r approval waited stamp

/-- `_run_chain`. -/
def runChain : Chain F Ended := do
  let c ← intake env
  if c.taskType = .chat && !env.valves.orchestrateSmallTalk then directReply env c
  agentChain env c

/-- How a run ends, and what it leaves. -/
def run : Ended × World F :=
  match (runChain env).run.run {} with
  | (.ok ended, w) => (ended, w)
  | (.error ended, w) => (ended, w)

end

end FourCE.Orchestrator
