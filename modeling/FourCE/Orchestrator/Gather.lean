import FourCE.Orchestrator.World

/-!
# Before the loop

The first part of `Pipe._run_chain` of `functions/orchestrator.py`: classification, retrieval and
routing, and what the tools say before FRIDAY is asked anything.
-/

namespace FourCE.Orchestrator

open FourCE.Python FourCE.Tools

section

variable [Unicode] [Casing] {F : Type} [PySeconds F] (env : Env F)

/-! ## Classification and routing -/

/-- `_number_sources`: passages grouped by document, in order of first appearance. -/
def numberSources (passages : List Passage) : List Source :=
  ((passages.map Passage.name).reverse.dedup.reverse).map fun name ↦
    ⟨name, passages.filter fun p ↦ p.name = name⟩

/-- The numbered passages as the agents read them. -/
def numberedText (sources : List Source) (passages : List Passage) : PyStr :=
  join (py "\n\n---\n\n") (passages.map fun p ↦
    py "[" ++ natText ((sources.findIdx fun s ↦ s.name = p.name) + 1) ++ py "] " ++ p.name ++ py "\n" ++
      p.text)

/-- Text retrieved earlier, with what was found now behind it. -/
def withFound (text found : PyStr) : PyStr :=
  if text.isEmpty then found else strip (text ++ py "\n\n" ++ found)

/-- What the chain knows before it asks a model anything. -/
structure Intake (F : Type) where
  started : F
  request : Request
  user : User
  taskType : TaskType
  signals : List PyStr
  auditing : Bool
  retrieved : PyStr
  grounding : PyStr
  sources : List Source
  searched : Bool
  modelId : PyStr
  rationale : PyStr

def candidateLine (c : Candidate) : PyStr :=
  py "- `" ++ c.id ++ py "` — " ++
    (if c.capabilities.isEmpty then py "no capabilities listed" else join (py ", ") c.capabilities) ++
    (if c.licence.isEmpty then [] else py " · " ++ c.licence) ++ py " — **" ++ c.status ++ py "**"

/-- The step TONY leaves. -/
def routingStep (taskType : TaskType) (signals : List PyStr) (route : Route) : Step F :=
  ⟨.tony, py "classification and routing", py "deterministic signal match", PySeconds.zero, [],
    py "**Task type:** `" ++ taskType.text ++ py "`\n\n**Signals matched:** " ++
      (if signals.isEmpty then py "none — used the default route" else join (py ", ") signals) ++
      py "\n\n**Model selected:** `" ++ route.modelId ++ py "`\n\n**Reason:** " ++ route.rationale ++
      py "\n\n**Candidates considered** (model registry):\n\n" ++
      join [10] (route.candidates.map candidateLine)⟩

/-- The rationale, with what was passed over. -/
def fullRationale (route : Route) : PyStr :=
  let others := route.candidates.filter fun c ↦ c.status ≠ py "chosen" && c.status ≠ py "overridden"
  if others.isEmpty then route.rationale
  else route.rationale ++ py "; also considered " ++
    join (py ", ") (others.map fun c ↦ c.id ++ py " (" ++ c.status ++ py ")")

/-- `task_type in RETRIEVING_TASKS`. -/
def TaskType.retrieving (t : TaskType) : Bool := t = .document || t = .vision || t = .analysis

/-- From the first line to the routing. -/
def intake : Chain F (Intake F) := do
  if env.task then finish .task []
  let started := env.clock (← history)
  match env.request with
  | none => finish .noRequest (py "No request received.")
  | some request =>
    status (py "tony") (py "TONY: reading the request")
    match env.user with
    | none => finish .noUser (py "4CE could not resolve the requesting user.")
    | some user =>
      let (taskType, signals) := env.helpers.classify request.prompt request.hasImage
      let auditing := env.helpers.wantsAudit request.prompt
      let prompt ← digest env request.prompt
      emit (.audit (py "request") ([(py "task", .str taskType.text), (py "prompt", .str prompt),
        (py "chars", .int request.prompt.length)] ++
        if request.hasImage then [(py "image", .bool true)] else []))
      let looking := taskType.retrieving && !auditing
      let found := if looking then env.retrieve.1 else []
      let sources := numberSources found
      let text := numberedText sources found
      let retrieved := if found.isEmpty then request.retrieved else withFound request.retrieved text
      let grounding := if found.isEmpty then request.grounding else withFound request.grounding text
      if !found.isEmpty then
        for source in sources do
          emit (.source source)
        let passages ← digest env (Json.emit true (Json.arr (F := F)
          (sources.flatMap fun s ↦ s.passages.map fun p ↦ .str p.text)))
        emit (.audit (py "sources") [(py "documents", .arr (sources.map fun s ↦ .str s.name)),
          (py "passages", .str passages)])
      status (py "tony_plan") (py "TONY: classified as " ++ taskType.upper ++
        if signals.isEmpty then py " (no strong signal, defaulting)"
        else py " (" ++ join (py ", ") signals ++ py ")")
      addTrace (py "**TONY** classified the request as `" ++ taskType.text ++ py "` " ++
        if signals.isEmpty then py "with no strong signal; used the default route."
        else py "on signals: " ++ join (py ", ") signals ++ py ".")
      match env.route taskType with
      | none => finish .noModel (py "4CE could not resolve a local model for a `" ++ taskType.text ++
          py "` task. Check the model names in this function's Valves against the models your " ++
          py "local server actually serves.")
      | some route =>
        status (py "router") (py "ROUTER: selected " ++ route.modelId ++ py " — " ++ route.rationale)
        addTrace (py "**ROUTER** selected `" ++ route.modelId ++ py "` — " ++ route.rationale)
        emit (.audit (py "route") [(py "model", .str route.modelId)])
        addStep (routingStep taskType signals route)
        return ⟨started, request, user, taskType, signals, auditing, retrieved, grounding, sources,
          looking && env.retrieve.2, route.modelId, fullRationale route⟩

/-- Small talk, answered without the chain. -/
def directReply (c : Intake F) : Chain F Unit := do
  status (py "chat") (py "Answering directly")
  let reply ← agentCall env .tony c.modelId c.request.prompt
  if startsWith ERR reply.text then
    statusDone (py "error") (py "Run failed")
    finish .failed reply.text
  statusDone (py "chat") (py "Answered directly")
  addStep (reply.step .tony (py "direct reply"))
  let note := py "\n\n*Direct reply · `" ++ c.modelId ++ py "` · " ++ PySeconds.fixed 1 reply.seconds ++
    py "s — conversation needs no agent chain or approval*"
  finish .direct (reply.text ++ if env.valves.showTrace then note else [])

/-! ## What the tools say beforehand -/

def toolStep (label model text : PyStr) : Step F := ⟨.tool, label, model, PySeconds.zero, [], text⟩

/-- The sovereignty audit, when the request asks for one. -/
def sovereigntyAudit (c : Intake F) : Chain F PyStr := do
  if c.auditing then
    status (py "tool") (py "TOOL: auditing the configuration and the observed egress")
    let audit ← useTool env .verifySovereignty
    if usable audit then
      useAgain (py "verify_sovereignty")
      addStep (toolStep (py "sovereignty audit") (py "configuration read and egress observation") audit)
      addTrace (py "**TOOL** `verify_sovereignty` read the live configuration and " ++
        py "what the workbench was observed connecting to.")
      return audit
  return []

/-- The note under the fields read from an image. -/
def readingSection (kind : ImageKind) (fields : FieldsRead) (url : PyStr) : PyStr :=
  py "### Read from the image\n\n" ++ fields.table ++
    (if url.isEmpty then [] else py "\n\n![Each field boxed where it was read](" ++ url ++ py ")") ++
    py "\n\n*Each number marks where the vision model read that field. The boxes are " ++
    py "approximate - on a drawing one can sit beside its label - so take a value from the " ++
    py "image, not the box. " ++
    (if fields.flagged ≠ 0 then
      py "Orange marks a field read with less than full confidence: check it against the " ++
        py "original before relying on it.*"
    else py "Every field was read with full confidence.*") ++
    if kind = .drawing then
      py "\n\n*Types follow the ISA 5.1 letter code wherever it is one 4CE knows.*"
    else []

/-- `_count(n, noun)`. -/
def countOf (n : ℕ) (noun : PyStr) : PyStr := natText n ++ py " " ++ noun ++ plural n

/-- `_read_image`; the size the image was sent at is left out of the trace. -/
def readImage (c : Intake F) : Chain F (Option Reading) := do
  if !c.request.readable then return none
  let kind := c.request.imageKind
  status (py "friday") (py "FRIDAY: reading the image into fields")
  let read ← agentCall env .reader (env.agentModel .friday c.modelId) (env.helpers.readPrompt kind)
  if startsWith ERR read.text then
    addTrace (py "**FRIDAY**'s reading pass failed, so FRIDAY read the image unaided.")
    return none
  match env.helpers.parseFields kind read.text with
  | none =>
    addStep (read.step .friday (py "reading pass — no fields"))
    addTrace (py "**FRIDAY**'s reading pass returned no field 4CE could use, " ++
      py "so FRIDAY read the image unaided.")
    return none
  | some fields =>
    let url := env.storeImage (← history)
    let text := fields.table ++ py "\n\n**As the model returned it**\n\n```json\n" ++ strip read.text ++
      py "\n```"
    addStep { read.step .friday (py "reading pass — " ++ countOf fields.count (py "field")) with text }
    addTrace (py "**FRIDAY** read the image as a " ++ kind.text ++ py ", into " ++
      countOf fields.count (py "field") ++ py " in " ++ PySeconds.fixed 1 read.seconds ++ py "s" ++
      (if fields.flagged = 0 then []
        else py ", " ++ natText fields.flagged ++ py " with less than full confidence") ++
      py ". 4CE drew each field's box on a copy for the reviewer.")
    return some ⟨kind, fields, fields.table, readingSection kind fields url,
      if kind = .drawing then [] else fields.readings⟩

/-- `_sop_check`. -/
def sopCheck (readings roundLabel : PyStr) : Chain F PyStr := do
  status (py "tool") (py "TOOL: comparing readings against the SOP thresholds")
  let sop ← useTool env (.checkSopThresholds readings)
  if !usable sop then return []
  useOnce (py "check_sop_thresholds")
  addStep (toolStep (py "SOP threshold check" ++ roundLabel) (py "deterministic rule pack") sop)
  addTrace (py "**TOOL** `check_sop_thresholds` compared the readings against the " ++
    py "authored rule pack and cited the deciding clause.")
  return sop

/-- The readings the rule pack is asked about before the loop. -/
def sopInput (c : Intake F) (reading : Option Reading) : PyStr :=
  let asked := (c.taskType = .document || c.taskType = .analysis || c.taskType = .vision) &&
    env.helpers.hasReadings c.request.prompt
  join [10] (([if asked then c.request.prompt else [],
    match reading with
    | some r => r.readings
    | none => []]).filter fun t ↦ !t.isEmpty)

/-- The attached spreadsheet: its name, and its text when it could be read. -/
def readSheets (c : Intake F) : Chain F (PyStr × PyStr) := do
  match if c.taskType = .chat then none else c.request.sheets.head? with
  | none => return ([], [])
  | some name =>
    status (py "tool") (py "TOOL: reading " ++ name)
    let read ← useTool env (.readSheet name)
    if usable read && contains (py "**Sheet") read then
      useAgain (py "read_sheet")
      addStep (toolStep (py "read " ++ name) (py "openpyxl, on this machine") read)
      addTrace (py "**TOOL** `read_sheet` read `" ++ name ++ py "` cell by cell, with its formulas.")
      return (name, read)
    else
      addTrace (py "**TOOL** `read_sheet` could not read `" ++ name ++ py "`: " ++
        if read.isEmpty then py "the tool is not attached" else read)
      return ([], [])

/-- One location of `_survey_intervals`: the interval it needs, and its row. -/
def surveyInterval (row : SurveyRow F) : Chain F ((ℕ × F × PyStr) × PyStr) := do
  let out ← useTool env (.checkSopThresholds (env.helpers.surveyReadings row))
  let interval := env.helpers.sopInterval out
  return ((row.row, interval), env.helpers.surveyLine row interval)

/-- `_survey_intervals`. -/
def surveyIntervals (sheetText : PyStr) : Chain F (PyStr × PyStr × List (ℕ × F)) := do
  let rows := env.helpers.surveyRows sheetText
  if rows.isEmpty then return (sheetText, [], [])
  status (py "tool") (py "TOOL: checking " ++ natText rows.length ++
    py " locations against the SOP rule pack")
  let found ← rows.mapM (surveyInterval env)
  let needed := (found.map Prod.fst).filter fun p ↦ PySeconds.truthy p.2.1
  let intervals := needed.map fun p ↦ (p.1, p.2.1)
  let basis := ((needed.map fun p ↦ p.2.2).find? fun b ↦ !b.isEmpty).getD []
  useOnce (py "check_sop_thresholds")
  addStep (toolStep (py "SOP rule pack, location by location") (py "deterministic rule pack")
    (py "| Location | Wall margin | Interval the SOP requires |\n|---|---|---|\n" ++
      join [10] (found.map Prod.snd)))
  addTrace (py "**TOOL** `check_sop_thresholds` assessed each of the survey's " ++ natText rows.length ++
    py " locations; " ++ natText intervals.length ++ py " need a shorter interval" ++
    if basis.isEmpty then py "." else py " (" ++ basis ++ py ").")
  if intervals.isEmpty then return (sheetText, [], [])
  return (env.helpers.withIntervalColumn sheetText intervals, basis, intervals)

def calcBlock : Pattern :=
  re { dotAll := true } (py "```4ce-calc\\s*\\n(.*?)\\n```") (by decide)

/-- `_remaining_life`: the worked calculation, and its inputs for a workbook. -/
def remainingLife (text sop rowBasis : PyStr) : Chain F (PyStr × Option (Json F)) := do
  status (py "tool") (py "TOOL: calculating remaining life from the thickness readings")
  let (years, basis) := env.helpers.sopInterval sop
  let out ← useTool env
    (.calculateRemainingLife text years (if basis.isEmpty then rowBasis else basis))
  if !usable out then return ([], none)
  match reSearch calcBlock out with
  | none => return ([], none)
  | some block =>
    let worked := strip (out.take block.start ++ out.drop block.finish)
    useOnce (py "calculate_remaining_life")
    addStep (toolStep (py "remaining-life calculation") (py "deterministic arithmetic") worked)
    addTrace (py "**TOOL** `calculate_remaining_life` worked the corrosion rate, remaining life and " ++
      py "next measurement, every step shown.")
    return (worked, loads ((block.group 1).getD []))

/-- What the loop works from. -/
structure Gathered (F : Type) where
  intake : Intake F
  fridayModel : PyStr
  jarvisModel : PyStr
  ultronModel : PyStr
  audit : PyStr
  reading : Option Reading
  requestSop : PyStr
  sheetName : PyStr
  sheetText : PyStr
  sheetChanges : Option (List (Json F))
  calculation : PyStr
  calculationData : Option (Json F)
  surveyIntervals : List (ℕ × F)
  rowBasis : PyStr

def Gathered.agentModels (g : Gathered F) : List (Agent × PyStr) :=
  [(.friday, g.fridayModel), (.jarvis, g.jarvisModel), (.ultron, g.ultronModel)]

/-- From the routing to the loop. -/
def gather (c : Intake F) : Chain F (Gathered F) := do
  let fridayModel := env.agentModel .friday c.modelId
  let jarvisModel := env.agentModel .jarvis c.modelId
  let ultronModel := env.agentModel .ultron c.modelId
  let overrides := [(Agent.friday, fridayModel), (.jarvis, jarvisModel), (.ultron, ultronModel)].filter
    fun p ↦ p.2 ≠ c.modelId
  if !overrides.isEmpty then
    addTrace (py "**TONY** applied per-agent model overrides: " ++
      join (py ", ") (overrides.map fun p ↦ p.1.name ++ py " → `" ++ p.2 ++ py "`"))
  if env.tools.isNone then
    addTrace (py "**TONY** found no tools attached to this model, so the agents reasoned " ++
      py "unaided. Attach the 4CE tools to this model under Workspace to ground " ++
      py "threshold checks, code execution and deliverables.")
  let audit ← sovereigntyAudit env c
  let reading ← if c.request.hasImage && env.valves.visionExtraction then readImage env c else pure none
  let input := sopInput env c reading
  let requestSop ← if input.isEmpty then pure [] else sopCheck env input []
  let (sheetName, sheetText) ← readSheets env c
  let wantsLife := c.taskType ≠ .chat && env.helpers.wantsRemainingLife c.request.prompt
  let (surveyText, rowBasis, intervals) ←
    if wantsLife && !sheetText.isEmpty then surveyIntervals env sheetText
    else pure (sheetText, [], [])
  let (calculation, calculationData) ←
    if wantsLife then
      remainingLife env (c.request.prompt ++ if surveyText.isEmpty then [] else py "\n\n" ++ surveyText)
        requestSop rowBasis
    else pure ([], none)
  let sheetChanges :=
    if !sheetText.isEmpty && env.helpers.wantsSheetEdit c.request.prompt &&
        env.helpers.wantsRemainingLife c.request.prompt then
      env.helpers.surveyChanges sheetText intervals
    else none
  return ⟨c, fridayModel, jarvisModel, ultronModel, audit, reading, requestSop, sheetName, sheetText,
    sheetChanges, calculation, calculationData, intervals, rowBasis⟩

end

end FourCE.Orchestrator
