import FourCE.Orchestrator.Gather

/-!
# The verification loop

One attempt of the loop of `Pipe._run_chain`, from FRIDAY's analysis to the verdict, and the loop,
which asks for a second attempt once.
-/

namespace FourCE.Orchestrator

open FourCE.Python FourCE.Tools

section

variable [Unicode] [Casing] {F : Type} [PySeconds F] (env : Env F)

/-! ## FRIDAY -/

/-- `round_label`. -/
def roundLabel (attempts : ℕ) : PyStr :=
  if attempts = 1 then [] else py " (attempt " ++ natText attempts ++ py ")"

def fridayBrief (g : Gathered F) (challenge : Option PyStr) : FridayBrief where
  retrieved := g.intake.retrieved
  sources := g.intake.sources
  notFound := g.intake.searched && g.intake.sources.isEmpty && g.intake.taskType = .document
  image := if g.intake.request.hasImage then
      some (g.intake.request.imageKind, g.reading.map Reading.table)
    else none
  sheetText := g.sheetText
  sop := g.requestSop
  calculation := g.calculation
  prompt := g.intake.request.prompt
  challenge := challenge

/-- FRIDAY's analysis, and the rule pack's verdicts to work from. -/
def analyse (g : Gathered F) (attempts : ℕ) (challenge : Option PyStr) : Chain F (PyStr × PyStr) := do
  status (py "friday") (py "FRIDAY: grounding and analysing")
  let friday ← agentCall env .friday g.fridayModel
    (env.helpers.fridayInstruction (fridayBrief g challenge))
  if startsWith ERR friday.text then
    statusDone (py "error") (py "Run failed")
    finish .failed friday.text
  addStep (friday.step .friday (py "analysis" ++ roundLabel attempts))
  addTrace (py "**FRIDAY** analysed the request in " ++ PySeconds.fixed 1 friday.seconds ++ py "s.")
  let unread := g.requestSop.isEmpty && g.intake.taskType = .vision && g.reading.isNone &&
    !(g.intake.request.hasImage && g.intake.request.imageKind = .drawing)
  let sop ← if unread then sopCheck env friday.text (roundLabel attempts) else pure g.requestSop
  return (friday.text, sop)

/-- The deterministic findings JARVIS and ULTRON are given. -/
def groundedText (g : Gathered F) (sop : PyStr) : PyStr :=
  (if g.audit.isEmpty then []
    else py "\n\nSOVEREIGNTY AUDIT (read from the running configuration; authoritative)\n" ++ g.audit) ++
  (if sop.isEmpty then []
    else py "\n\nSOP THRESHOLD ASSESSMENT (deterministic rule pack; authoritative)\n" ++ sop) ++
  if g.calculation.isEmpty then []
  else py "\n\nCALCULATION (deterministic arithmetic, every step shown; authoritative)" ++
    (if g.sheetText.isEmpty then []
      else py " - worked by 4CE's calculation tool from the sheet's readings; " ++
        py "the spreadsheet itself does not contain these results") ++
    py "\n" ++ g.calculation

/-! ## JARVIS -/

def jarvisBrief (g : Gathered F) (challenge : Option PyStr) (analysis grounded : PyStr) :
    JarvisBrief where
  prompt := g.intake.request.prompt
  analysis := analysis
  grounded := grounded
  sources := g.intake.sources
  isCode := g.intake.taskType = .code
  challenge := challenge
  reading := g.reading.isSome
  sheetText := g.sheetText
  planned := (truthy g.sheetChanges).isSome
  sheetEdit := env.helpers.wantsSheetEdit g.intake.request.prompt

/-- The changes a draft plans for the workbook. -/
def plannedChanges (g : Gathered F) (text : PyStr) : Option (List (Json F)) :=
  (truthy g.sheetChanges).or (sheetBlock text)

/-- The section a successful preview adds to the draft. -/
def previewSection (preview : PyStr) : PyStr :=
  if startsWith (py "On approval") preview then
    py "\n\n### The workbook, on approval\n\n" ++ preview
  else []

/-- The planned changes, previewed. -/
def previewChanges (g : Gathered F) (text : PyStr) : Chain F (Option (List (Json F)) × PyStr) := do
  if g.sheetName.isEmpty then return (none, [])
  match plannedChanges g text with
  | none => return (none, [])
  | some changes =>
    let preview ← useTool env (.writeSheet changes g.sheetName true)
    return (some changes, previewSection preview)

/-- The section of the fields read from an image. -/
def fieldsSection (g : Gathered F) : PyStr :=
  match g.reading with
  | some reading => py "\n\n" ++ reading.section_
  | none => []

/-- A draft on its way to ULTRON: JARVIS's tidied text, what 4CE appended to it, and what was
planned for the workbook. -/
structure Drafted (F : Type) where
  tidied : PyStr
  appended : PyStr
  planned : Option (List (Json F))

def Drafted.text (d : Drafted F) : PyStr := d.tidied ++ d.appended

/-- JARVIS's deliverable, with the preview and the fields read behind it. -/
def draft (g : Gathered F) (attempts : ℕ) (challenge : Option PyStr) (analysis grounded : PyStr) :
    Chain F (Drafted F) := do
  status (py "jarvis") (py "JARVIS: producing the deliverable")
  let jarvis ← agentCall env .jarvis g.jarvisModel
    (env.helpers.jarvisInstruction (jarvisBrief env g challenge analysis grounded))
  let deliverable := checkCitations jarvis.text g.intake.sources.length
  if startsWith ERR deliverable then
    statusDone (py "error") (py "Run failed")
    finish .failed deliverable
  let tidied := tidy deliverable
  let (planned, preview) ← previewChanges env g tidied
  addStep (jarvis.step .jarvis (py "deliverable" ++ roundLabel attempts))
  addTrace (py "**JARVIS** produced the deliverable in " ++ PySeconds.fixed 1 jarvis.seconds ++ py "s.")
  return ⟨tidied, preview ++ fieldsSection g, planned⟩

/-! ## The sandbox -/

/-- A usable report of the sandbox, recorded. -/
def recordExecution (attempts : ℕ) (execution : PyStr) : Chain F Unit := do
  useOnce (py "run_python")
  addStep (toolStep (py "sandboxed execution" ++ roundLabel attempts) (py "container, no network")
    execution)
  addTrace (py "**TOOL** `run_python` executed the generated code in a " ++
    py "network-less container and returned its real output.")

/-- The section a usable report adds to the draft. -/
def executionSection (execution : PyStr) : PyStr :=
  if usable execution then py "\n\n### Sandboxed execution result\n\n" ++ execution else []

/-- Generated code is run: 4CE's check on the run, and the draft with the result behind it. -/
def execute (g : Gathered F) (attempts : ℕ) (d : Drafted F) : Chain F (Option Check × Drafted F) := do
  if g.intake.taskType ≠ .code then return (none, d)
  let code := extractPython env.helpers.unfencedPython d.text
  if code.isEmpty then return (some (executionCheck code [] g.intake.request.prompt), d)
  status (py "tool") (py "TOOL: executing the generated code in the sandbox")
  let execution ← useTool env (.runPython code)
  if usable execution then recordExecution attempts execution
  return (some (executionCheck code execution g.intake.request.prompt),
    { d with appended := d.appended ++ executionSection execution })

/-! ## ULTRON -/

/-- ULTRON's instruction. -/
def ultronInstruction (g : Gathered F) (grounded deliverable : PyStr) : PyStr :=
  py "ORIGINAL REQUEST\n" ++ g.intake.request.prompt ++ py "\n\n" ++
  (if g.intake.request.hasImage then
    py "SOURCE NOTE: the request carried a scanned document or image. FRIDAY " ++
    py "read it; you cannot see it. The fields read from it are listed at the end " ++
    py "of the result, numbered as the boxes the reviewer checks them against. " ++
    py "Judge internal consistency, arithmetic and whether the result claims more " ++
    py "than an extraction can support - above all, a value the table marks check " ++
    py "stated as certain. Do NOT fail it merely because you cannot inspect the " ++
    py "source yourself.\n\n"
  else []) ++
  (if grounded.isEmpty then []
    else py "AUTHORITATIVE FINDINGS — produced by deterministic tools, not by " ++
      py "a model. Treat them as correct. Do not re-derive them and do not " ++
      py "fail the result for disagreeing with them." ++ grounded ++ py "\n\n") ++
  py "RESULT TO CHALLENGE\n" ++ deliverable ++
  (py "\n\nReply with PASS or FAIL on the first line. Then go through the result's " ++
    py "claims in order and give each claim exactly one line - never two lines " ++
    py "about the same claim. Start the line with OK: when the claim holds, " ++
    py "PROBLEM: when the result contradicts itself, gets arithmetic wrong, or " ++
    py "states something neither the request nor the result gives any basis for, " ++
    py "or UNVERIFIED: when nothing supplied settles it. A difference of wording " ++
    py "(\"below\" and \"less than\") is not a problem. After the label, name the " ++
    py "claim in a few words and say why. PROBLEM lines are your reasons for a FAIL.")

/-- 4CE's own checks on a draft, beside that of the sandbox. -/
def ownChecks (g : Gathered F) (sop deliverable : PyStr) (planned : Option (List (Json F))) :
    List OwnCheck :=
  (match g.reading with
    | some reading => env.helpers.readingChecks reading
    | none => []) ++
  env.helpers.figureChecks deliverable
    { sources := g.intake.sources, request := g.intake.request.prompt, computed := g.calculation,
      ruled := sop, read := match g.reading with
        | some reading => reading.readings
        | none => [] } ++
  env.helpers.verdictChecks deliverable sop ++
  (match planned with
    | some changes => env.helpers.workbookChecks deliverable changes
    | none => []) ++
  if g.surveyIntervals.isEmpty then []
  else env.helpers.intervalChecks deliverable g.surveyIntervals g.rowBasis
    (env.helpers.surveyRows g.sheetText).length

/-- `_parse_verdict` with the checks of the card. -/
def withChecks (verdict : Verdict (Json F)) (ran : Option Check) (own : List OwnCheck)
    (deliverable : PyStr) : Verdict (Json F) :=
  { verdict with
    checks := ran.toList ++ own.map OwnCheck.signed ++ parseChecks verdict.detail
    citedText := deliverable }

/-- A check of 4CE's that objects. -/
def Check.objects (c : Check) : Bool := c.by_ = .fource && c.kind = .problem

/-- A draft 4CE objects to has failed, whatever ULTRON concluded. -/
def failOwn (ran : Option Check) (verdict : Verdict (Json F)) : Verdict (Json F) :=
  match verdict.checks.filter Check.objects with
  | [] => verdict
  | first :: others =>
    if verdict.passed then
      { verdict with
        status := py "FAIL"
        passed := false
        failedBy := some (py "4CE")
        failedOn := some (if ran.any fun r ↦ r.kind = .problem then py "execution"
          else first.on.getD (py "figure"))
        summary := clip first.text 90
        detail := join [10] ((first :: others).map fun c ↦ py "PROBLEM: " ++ c.text) ++ py "\n" ++
          verdict.detail }
    else verdict

/-- Code nobody ran has not been verified. -/
def failUnexecuted (ran : Option Check) (verdict : Verdict (Json F)) : Verdict (Json F) :=
  match ran with
  | some r =>
    if r.final && verdict.passed then
      { verdict with
        status := py "FAIL"
        passed := false
        failedBy := some (py "4CE")
        failedOn := some (py "not executed")
        summary := clip r.text 90
        detail := py "UNVERIFIED: " ++ r.text ++ py "\n" ++ verdict.detail }
    else verdict
  | none => verdict

/-- A pass records the objections listed beneath it. -/
def withReservations (verdict : Verdict (Json F)) : Verdict (Json F) :=
  if verdict.passed then
    let listed := verdict.checks.filter fun c ↦ c.by_ = .ultron && c.kind ≠ .ok
    { verdict with reservations := some listed.length }
  else verdict

/-- The verdict of an attempt, from ULTRON's reply. -/
def judge (reply : PyStr) (ran : Option Check) (own : List OwnCheck) (deliverable : PyStr) :
    Verdict (Json F) :=
  withReservations (failUnexecuted ran (failOwn ran
    (withChecks (parseVerdict reply) ran own deliverable)))

/-- One attempt, with its verdict. -/
structure Attempt (F : Type) where
  number : ℕ
  draft : Drafted F
  sop : PyStr
  ran : Option Check
  verdict : Verdict (Json F)

def Attempt.deliverable (a : Attempt F) : PyStr := a.draft.text

def skipped : Verdict (Json F) :=
  { status := py "SKIPPED", passed := true, detail := py "Verification disabled in Valves." }

/-- ULTRON's challenge. -/
def challengeDraft (g : Gathered F) (attempts : ℕ) (sop grounded : PyStr) (ran : Option Check)
    (d : Drafted F) : Chain F (Verdict (Json F)) := do
  status (py "ultron") (py "ULTRON: challenging the result")
  let ultron ← agentCall env .ultron g.ultronModel (ultronInstruction g grounded d.text)
  let verdict := judge ultron.text ran (ownChecks env g sop d.text d.planned) d.text
  addStep (ultron.step .ultron
    (py "verification" ++ roundLabel attempts ++ py " — " ++ verdict.status))
  addTrace (py "**ULTRON** returned `" ++ verdict.status ++ py "` in " ++
    PySeconds.fixed 1 ultron.seconds ++ py "s.")
  return verdict

/-- One turn of the loop, up to its verdict. -/
def attempt (g : Gathered F) (attempts : ℕ) (challenge : Option PyStr) : Chain F (Attempt F) := do
  let (analysis, sop) ← analyse env g attempts challenge
  let grounded := groundedText g sop
  let drafted ← draft env g attempts challenge analysis grounded
  let (ran, d) ← execute env g attempts drafted
  if !env.valves.enableVerification then return ⟨attempts, d, sop, ran, skipped⟩
  let verdict ← challengeDraft env g attempts sop grounded ran d
  return ⟨attempts, d, sop, ran, verdict⟩

/-! ## The loop -/

/-- The objections of a verdict, and who made each. -/
def objectionsOf (verdict : Verdict (Json F)) : List (PyStr × Maker) :=
  let of kind := (verdict.checks.filter fun c ↦ c.kind = kind).map fun c ↦ (c.text, c.by_)
  if !(of .problem).isEmpty then of .problem
  else if !(of .unverified).isEmpty then of .unverified
  else [(clip (if verdict.summary.isEmpty then verdict.detail else verdict.summary) 220, .ultron)]

def firstTry (a : Attempt F) : FirstTry :=
  ⟨a.deliverable, (a.verdict.failedBy.filter fun s ↦ !s.isEmpty).getD (py "ULTRON"),
    objectionsOf a.verdict⟩

/-- What FRIDAY and JARVIS are told of a rejected attempt. -/
def challengeOf (verdict : Verdict (Json F)) : PyStr :=
  let objections := (parseChecks verdict.detail).filter fun c ↦ c.kind ≠ .ok
  if objections.isEmpty then verdict.detail
  else join [10] (objections.map fun c ↦ py "- " ++ c.text)

/-- The loop goes round again. -/
def replans (a : Attempt F) : Bool :=
  env.valves.enableVerification && !a.verdict.passed && env.valves.enableReplan && a.number ≤ 1 &&
    !(a.ran.any Check.final)

/-- The loop of the chain, with what the first attempt left when there were two. -/
def draftLoop (g : Gathered F) : ℕ → ℕ → Option PyStr → Option FirstTry →
    Chain F (Attempt F × Option FirstTry)
  | 0, _, _, _ => throw .exhausted
  | fuel + 1, attempts, challenge, first => do
    let a ← attempt env g (attempts + 1) challenge
    if !env.valves.enableVerification then return (a, first)
    if a.verdict.passed then
      status (py "ultron") (py "ULTRON: PASS" ++ reservationsPhrase a.verdict (py ", with ") [])
      return (a, first)
    status (py "ultron") (py "ULTRON: FAIL" ++
      if a.verdict.summary.isEmpty then [] else py " — " ++ a.verdict.summary)
    if replans env a then
      status (py "tony_replan") (py "TONY: replanning after ULTRON challenge")
      addTrace (py "**TONY** replanned once and re-ran FRIDAY and JARVIS with the challenge attached.")
      draftLoop g fuel (attempts + 1) (some (challengeOf a.verdict)) (some (firstTry a))
    else
      addTrace (py "**TONY** exhausted the replan budget; delivering with the failure recorded.")
      return (a, first)

/-- The loop needs two turns. -/
def drafting (g : Gathered F) : Chain F (Attempt F × Option FirstTry) := draftLoop env g 2 0 none none

end

end FourCE.Orchestrator
