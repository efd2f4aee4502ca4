import FourCE.Orchestrator.Record
import FourCE.Tools.Sheets

/-!
# What a run is run against

The valves, the request, the models, the tools and the reviewer of a run.  Whatever answers, answers
as it likes at each point of the run: its answer is a function of everything that happened before.
The functions of the module that the chain calls without looking into are taken as they come.
-/

namespace FourCE.Orchestrator

open FourCE.Python FourCE.Tools

/-! ## Requests and replies -/

/-- The valves the chain reads. -/
structure Valves where
  orchestrateSmallTalk : Bool
  visionExtraction : Bool
  enableVerification : Bool
  enableReplan : Bool
  requireApproval : Bool
  showTrace : Bool
  showReasoning : Bool
  showModelThinking : Bool

inductive ImageKind
  | photo
  | page
  | drawing
  deriving DecidableEq, Repr

def ImageKind.text : ImageKind → PyStr
  | .photo => py "photo"
  | .page => py "page"
  | .drawing => py "drawing"

/-- The last message, and what comes with it. -/
structure Request where
  prompt : PyStr
  hasImage : Bool
  /-- The kind of the image, and whether it can be decoded. -/
  imageKind : ImageKind
  readable : Bool
  retrieved : PyStr
  grounding : PyStr
  /-- `_attached_sheets(metadata)`. -/
  sheets : List PyStr
  /-- Whether there is an event call and a session to send it to. -/
  interactive : Bool

structure User where
  id : PyStr
  name : PyStr
  email : PyStr

/-- `getattr(user, "name", "") or getattr(user, "email", "")`. -/
def User.approver (u : User) : PyStr := if u.name.isEmpty then u.email else u.name

/-- A model of the registry, as the router saw it. -/
structure Candidate where
  id : PyStr
  capabilities : List PyStr
  licence : PyStr
  status : PyStr

/-- What the router chose. -/
structure Route where
  modelId : PyStr
  rationale : PyStr
  candidates : List Candidate

/-- Whom a model call is for. -/
inductive Role
  | tony
  | reader
  | friday
  | jarvis
  | ultron
  deriving DecidableEq, Repr

def Role.name : Role → PyStr
  | .tony => py "TONY"
  | .reader => py "READER"
  | .friday => py "FRIDAY"
  | .jarvis => py "JARVIS"
  | .ultron => py "ULTRON"

/-- `_response_parts(response)`, and what `_explain` would say of the response. -/
structure Reply where
  content : PyStr
  reasoning : PyStr
  explained : PyStr

/-- The reviewer's response to the sign-off prompt. -/
inductive Response
  | str (text : PyStr)
  /-- `{"error": …}`. -/
  | error (text : PyStr)
  | other

/-! ## Tool calls -/

/-- The sign-off block of the Word report. -/
structure Signoff where
  fingerprint : PyStr
  verification : PyStr
  models : PyStr
  approvedBy : Option PyStr
  approvedAt : Option PyStr

inductive ToolCall (F : Type)
  | verifySovereignty
  | checkSopThresholds (readings : PyStr)
  | readSheet (file : PyStr)
  | calculateRemainingLife (readings : PyStr) (maxIntervalYears : F) (intervalBasis : PyStr)
  | runPython (code : PyStr)
  /-- `json.dumps` of the changes, which the tool's `json.loads` undoes. -/
  | writeSheet (changes : List (Json F)) (file : PyStr) (preview : Bool)
  | saveArtifact (filename content : PyStr)
  | createOffice (format : Office) (title body : PyStr) (record : List (PyStr × PyStr))
      (sources : List PyStr) (documentType : Option PyStr) (calculation : Option (Json F))
  | createWordDocument (title body documentType : PyStr) (signoff : Signoff)
      (record : List (PyStr × PyStr)) (sources : List PyStr) (revision : Option (Json F))
      (checks : List Check) (passages : List PyStr) (cited : List ℕ)

/-- `_OFFICE_TOOLS[fmt]`. -/
def Office.tool : Office → PyStr
  | .xlsx => py "create_spreadsheet"
  | .pptx => py "create_presentation"

def Office.kind : Office → PyStr
  | .xlsx => py "Excel workbook"
  | .pptx => py "PowerPoint deck"

def ToolCall.name {F : Type} : ToolCall F → PyStr
  | .verifySovereignty => py "verify_sovereignty"
  | .checkSopThresholds _ => py "check_sop_thresholds"
  | .readSheet _ => py "read_sheet"
  | .calculateRemainingLife _ _ _ => py "calculate_remaining_life"
  | .runPython _ => py "run_python"
  | .writeSheet _ _ _ => py "write_sheet"
  | .saveArtifact _ _ => py "save_artifact"
  | .createOffice format _ _ _ _ _ _ => format.tool
  | .createWordDocument _ _ _ _ _ _ _ _ _ _ => py "create_word_document"

/-! ## The ledger -/

/-- What the sign-off panel is sent. -/
structure Question (F : Type) where
  message : PyStr
  draft : PyStr
  verdict : PyStr
  reservations : ℕ
  verdictDetail : PyStr
  taskType : TaskType
  modelId : PyStr
  review : Json F

/-- Everything a run does that someone else can see. -/
inductive Event (F : Type)
  | status (action description : PyStr) (done : Bool)
  | source (source : Source)
  | audit (action : PyStr) (fields : List (PyStr × Json F))
  | agent (role : Role) (model instruction : PyStr)
  | tool (call : ToolCall F)
  | ask (question : Question F)

abbrev History (F : Type) := List (Event F)

/-- The lists a run appends to, and the files its tools have delivered. -/
structure World (F : Type) where
  events : History F := []
  files : List FileEffect := []
  steps : List (Step F) := []
  trace : List PyStr := []
  toolsUsed : List PyStr := []

/-! ## What the chain calls without looking into -/

/-- Fields read from an image: `_fields_table`, `_readings_text`, and how many there are, how many
of them flagged. -/
structure FieldsRead where
  table : PyStr
  readings : PyStr
  count : ℕ
  flagged : ℕ

/-- The dictionary `_read_image` returns. -/
structure Reading where
  kind : ImageKind
  fields : FieldsRead
  table : PyStr
  section_ : PyStr
  readings : PyStr

/-- A location of a thickness survey. -/
structure SurveyRow (F : Type) where
  row : ℕ
  location : PyStr
  current : F
  required : F

/-- `first_try`. -/
structure FirstTry where
  draft : PyStr
  failedBy : PyStr
  objections : List (PyStr × Maker)

/-- What FRIDAY's instruction is written from. -/
structure FridayBrief where
  retrieved : PyStr
  sources : List Source
  notFound : Bool
  image : Option (ImageKind × Option PyStr)
  sheetText : PyStr
  sop : PyStr
  calculation : PyStr
  prompt : PyStr
  challenge : Option PyStr

/-- What JARVIS's instruction is written from. -/
structure JarvisBrief where
  prompt : PyStr
  analysis : PyStr
  grounded : PyStr
  sources : List Source
  isCode : Bool
  challenge : Option PyStr
  reading : Bool
  sheetText : PyStr
  planned : Bool
  sheetEdit : Bool

/-- What `_figure_checks` compares the draft with. -/
structure FigureBrief where
  sources : List Source
  request : PyStr
  computed : PyStr
  ruled : PyStr
  read : PyStr

structure Helpers (F : Type) where
  classify : PyStr → Bool → TaskType × List PyStr
  wantsAudit : PyStr → Bool
  hasReadings : PyStr → Bool
  wantsRemainingLife : PyStr → Bool
  wantsSheetEdit : PyStr → Bool
  fridayInstruction : FridayBrief → PyStr
  jarvisInstruction : JarvisBrief → PyStr
  readPrompt : ImageKind → PyStr
  unfencedPython : PyStr → PyStr
  parseFields : ImageKind → PyStr → Option FieldsRead
  surveyRows : PyStr → List (SurveyRow F)
  /-- What the rule pack is asked of a location, and its row in the table of intervals. -/
  surveyReadings : SurveyRow F → PyStr
  surveyLine : SurveyRow F → F × PyStr → PyStr
  withIntervalColumn : PyStr → List (ℕ × F) → PyStr
  sopInterval : PyStr → F × PyStr
  surveyChanges : PyStr → List (ℕ × F) → Option (List (Json F))
  readingChecks : Reading → List OwnCheck
  figureChecks : PyStr → FigureBrief → List OwnCheck
  verdictChecks : PyStr → PyStr → List OwnCheck
  workbookChecks : PyStr → List (Json F) → List OwnCheck
  intervalChecks : PyStr → List (ℕ × F) → PyStr → ℕ → List OwnCheck
  revision : FirstTry → PyStr → Verdict (Json F) → Json F
  review : PyStr → Verdict (Json F) → List Source → ℕ → Json F
  artifacts : PyStr → PyStr → List (PyStr × PyStr)
  documentTitle : PyStr → PyStr
  /-- `_supporting_text` of each source for what the answer cites it for. -/
  passages : PyStr → List Source → List PyStr
  /-- `_remedy(detail)`. -/
  remedy : PyStr → PyStr

/-- The tools attached to the model. -/
structure Toolbox (F : Type) where
  attached : PyStr → Bool
  sandboxValves : SandboxValves
  sandbox : History F → SandboxHost
  sheets : History F → SheetHost F
  /-- The other tools: what they return or raise, and what they do to files where they make any. -/
  answer : History F → ToolCall F → Except PyStr PyStr
  delivered : History F → ToolCall F → List FileEffect

structure Env (F : Type) where
  valves : Valves
  /-- Whether the call is one of the platform's background tasks. -/
  task : Bool
  request : Option Request
  user : Option User
  helpers : Helpers F
  tools : Option (Toolbox F)
  /-- `_retrieve`: the passages found, and whether anything was searched. -/
  retrieve : List Passage × Bool
  route : TaskType → Option Route
  /-- `_agent_model` for each agent, on the routed model. -/
  agentModel : Agent → PyStr → PyStr
  model : History F → Role → PyStr → PyStr → Except PyStr Reply
  /-- `_store_image`: where the annotated copy can be seen, or nothing. -/
  storeImage : History F → PyStr
  reviewer : History F → Response
  clock : History F → F
  /-- When the receipt is written. -/
  now : History F → PyStr
  /-- The moment of approval, in full and as a time of day. -/
  stamp : History F → PyStr × PyStr
  egress : History F → Option (Egress F)
  /-- `_trail_span(trail_first)`. -/
  trailSpan : History F → PyStr
  sha256 : Bytes → PyStr

/-! ## Running -/

/-- Which `return` of the chain is reached. -/
inductive Way
  | task
  | noRequest
  | noUser
  | noModel
  | direct
  | failed
  | withheld
  | released
  deriving DecidableEq, Repr

/-- How a run ends: with a text, with an exception, or not within the tries it was given. -/
inductive Ended
  | text (way : Way) (text : PyStr)
  | raised
  | exhausted
  deriving DecidableEq, Repr

/-- A part of the chain: it may end the run. -/
abbrev Chain (F : Type) := ExceptT Ended (StateM (World F))

section

variable {F : Type}

theorem run_bind {A B : Type} (x : Chain F A) (f : A → Chain F B) (w : World F) :
    (x >>= f).run.run w = match x.run.run w with
      | (.ok a, v) => (f a).run.run v
      | (.error e, v) => (.error e, v) := by
  rw [ExceptT.run_bind, StateT.run_bind]
  rcases x.run.run w with ⟨e | a, v⟩ <;> rfl

/-- A part of the chain that goes through goes through each of its parts. -/
theorem run_bind_ok {A B : Type} {x : Chain F A} {f : A → Chain F B} {w w' : World F} {b : B}
    (h : (x >>= f).run.run w = (.ok b, w')) :
    ∃ a v, x.run.run w = (.ok a, v) ∧ (f a).run.run v = (.ok b, w') := by
  rw [run_bind] at h
  rcases hx : x.run.run w with ⟨e | a, v⟩
  · rw [hx] at h
    cases h
  · rw [hx] at h
    exact ⟨a, v, rfl, h⟩

/-- A part that ends the run ends it in one of its parts. -/
theorem run_bind_error {A B : Type} {x : Chain F A} {f : A → Chain F B} {w w' : World F} {e : Ended}
    (h : (x >>= f).run.run w = (.error e, w')) : x.run.run w = (.error e, w') ∨
      ∃ a v, x.run.run w = (.ok a, v) ∧ (f a).run.run v = (.error e, w') := by
  rw [run_bind] at h
  rcases hx : x.run.run w with ⟨_ | a, v⟩
  · rw [hx] at h
    cases h
    exact Or.inl rfl
  · rw [hx] at h
    exact Or.inr ⟨a, v, rfl, h⟩

def emit (e : Event F) : Chain F Unit := modify fun w ↦ { w with events := w.events ++ [e] }

def addTrace (line : PyStr) : Chain F Unit := modify fun w ↦ { w with trace := w.trace ++ [line] }

def addStep (s : Step F) : Chain F Unit := modify fun w ↦ { w with steps := w.steps ++ [s] }

def addFiles (files : List FileEffect) : Chain F Unit :=
  modify fun w ↦ { w with files := w.files ++ files }

/-- `tools_used.append(name)`. -/
def useAgain (name : PyStr) : Chain F Unit :=
  modify fun w ↦ { w with toolsUsed := w.toolsUsed ++ [name] }

/-- `if name not in tools_used: tools_used.append(name)`. -/
def useOnce (name : PyStr) : Chain F Unit :=
  modify fun w ↦ if name ∈ w.toolsUsed then w else { w with toolsUsed := w.toolsUsed ++ [name] }

def history : Chain F (History F) := do return (← get).events

/-- `_status(emitter, action, description)`; the facts of the live line are left out. -/
def status (action description : PyStr) : Chain F Unit := emit (.status action description false)

/-- `_status(…, done=True)`. -/
def statusDone (action description : PyStr) : Chain F Unit := emit (.status action description true)

/-- `return text`. -/
def finish {A : Type} (way : Way) (text : PyStr) : Chain F A := throw (.text way text)

variable (env : Env F)

/-- `_digest(text)`; a lone surrogate raises `UnicodeEncodeError`. -/
def digest (text : PyStr) : Chain F PyStr :=
  match encodeUtf8 text with
  | some bytes => return env.sha256 bytes
  | none => throw .raised

/-! ### Model calls -/

/-- `_failure(what, detail)`. -/
def failureText (what detail : PyStr) : PyStr :=
  let raw := what ++ if detail.isEmpty then py "." else py " — " ++ detail
  let advice := env.helpers.remedy detail
  if advice.isEmpty then ERR ++ py " " ++ raw
  else ERR ++ py " " ++ advice ++ py "\n\n*Detail: " ++ raw ++ py "*"

/-- The blocks between one pair of tags, taken out of a text: the text left, and the thoughts. -/
def splitTags (openTag closeTag : PyStr) : ℕ → PyStr → PyStr × List PyStr
  | 0, raw => (raw, [])
  | fuel + 1, raw => match partition openTag raw with
    | none => (raw, [])
    | some (head, rest) => match partition closeTag rest with
      | none => (head, [strip rest])
      | some (thought, tail) =>
        let others := splitTags openTag closeTag fuel (head ++ tail)
        (others.1, strip thought :: others.2)

/-- `_split_thinking(raw)`. -/
def splitThinking (raw : PyStr) : PyStr × PyStr :=
  let first := splitTags (py "<think>") (py "</think>") raw.length raw
  let second := splitTags (py "<thinking>") (py "</thinking>") raw.length first.1
  (strip second.1,
    strip (join [10, 10] ((first.2 ++ second.2).filter fun t ↦ !t.isEmpty)))

variable [PySeconds F]

/-- What `_agent_call` returns: a step without its agent and label. -/
structure Spoken (F : Type) where
  text : PyStr
  thinking : PyStr
  model : PyStr
  seconds : F

def Spoken.step (s : Spoken F) (agent : Agent) (label : PyStr) : Step F :=
  ⟨agent, label, s.model, s.seconds, s.thinking, s.text⟩

/-- The entry a model call leaves; the digest of its input is left out. -/
def modelEntry (role : Role) (model : PyStr) (outcome : List (PyStr × Json F)) : Event F :=
  .audit (py "model.call") ([(py "agent", .str role.name), (py "model", .str model)] ++ outcome)

/-- The roles called with `think=False`. -/
def Role.thinks : Role → Bool
  | .reader | .ultron => false
  | .tony | .friday | .jarvis => true

/-- `_agent_call`. -/
def agentCall (role : Role) (model instruction : PyStr) : Chain F (Spoken F) := do
  let content := if role.thinks then instruction else instruction ++ py "\n\n/no_think"
  let started := env.clock (← history)
  emit (.agent role model content)
  let reply := env.model (← history) role model content
  let seconds := PySeconds.sub (env.clock (← history)) started
  match reply with
  | .error detail =>
    emit (modelEntry role model [(py "ok", .bool false)])
    return ⟨failureText env (py "local model call to '" ++ model ++ py "' failed") detail, [], model,
      seconds⟩
  | .ok reply =>
    let output ← digest env (reply.content ++ reply.reasoning)
    emit (modelEntry role model [(py "output", .str output)])
    let reasoning := strip reply.reasoning
    if (strip reply.content).isEmpty && reasoning.isEmpty then
      return ⟨failureText env (py "local model '" ++ model ++ py "' returned no content")
        reply.explained, [], model, seconds⟩
    let parts := splitThinking (strip reply.content)
    let thinking := join [10, 10] ([reasoning, parts.2].filter fun t ↦ !t.isEmpty)
    return ⟨if parts.1.isEmpty then strip reply.content else parts.1, thinking, model, seconds⟩

/-! ### Tool calls -/

/-- What a tool returns or raises, and what it does to files. -/
def callTool (tools : Toolbox F) (user : Option PyStr) (history : History F) (call : ToolCall F) :
    Except PyStr PyStr × List FileEffect :=
  match call with
  | .runPython code => runPython tools.sandboxValves (tools.sandbox history) code user
  | .writeSheet changes file preview => writeSheet (tools.sheets history) changes file preview user
  | .verifySovereignty | .checkSopThresholds _ | .readSheet _ | .calculateRemainingLife _ _ _ =>
    (tools.answer history call, [])
  | .saveArtifact _ _ | .createOffice _ _ _ _ _ _ _ | .createWordDocument _ _ _ _ _ _ _ _ _ _ =>
    (tools.answer history call, tools.delivered history call)

/-- The entry a tool call leaves; the digest of its input is left out. -/
def toolEntry (call : ToolCall F) (outcome : List (PyStr × Json F)) : Event F :=
  .audit (py "tool.call") ((py "tool", .str call.name) :: outcome)

/-- `_use_tool(tools, name, …)`: nothing when the tool is not attached, an error line when it
raises. -/
def useTool (call : ToolCall F) : Chain F PyStr := do
  match env.tools.filter fun tools ↦ tools.attached call.name with
  | none => return []
  | some tools =>
    let result := callTool tools (env.user.map User.id) (← history) call
    emit (.tool call)
    addFiles result.2
    match result.1 with
    | .error why =>
      emit (toolEntry call [(py "ok", .bool false), (py "error", .str (why.take 160))])
      return ERR ++ py " " ++ call.name ++ py " failed: " ++ why
    | .ok text =>
      let output ← digest env (strip text)
      emit (toolEntry call [(py "output", .str output), (py "ok", .bool true)])
      return strip text

/-- A tool's output that is there and no error. -/
def usable (text : PyStr) : Bool := !text.isEmpty && !startsWith ERR text

end

end FourCE.Orchestrator
