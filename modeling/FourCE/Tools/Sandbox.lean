import FourCE.Python.Json
import FourCE.Python.Text

/-!
# The sandbox tool

`run_python` of `tools/sandbox.py`: what it reports of a run, and what it does with the files the
code left in `/output`.  Docker, the file system and the platform's file store are the host.
-/

namespace FourCE.Tools

open FourCE.Python

/-- What a tool does to files: a copy in a directory of this machine, a file registered for
download, a workbook written in the workspace. -/
inductive FileEffect
  | saved (target : PyStr) (bytes : Bytes)
  | registered (user name : PyStr) (bytes : Bytes)
  | wroteWorkbook (target : PyStr) (bytes : Bytes)
  deriving DecidableEq, Repr

/-- An entry of `produced`; `skipped` names the files left out of it. -/
structure Produced where
  name : PyStr
  bytes : Bytes
  size : ℕ
  skipped : List PyStr
  deriving DecidableEq, Repr

/-- `_result(…)`. -/
structure RunResult where
  exitCode : Option ℤ
  stdout : PyStr
  stderr : PyStr
  timedOut : Bool
  error : Option PyStr
  produced : List Produced

/-- The valves the report names, and `output_dir`. -/
structure SandboxValves where
  image : PyStr
  memory : PyStr
  cpus : PyStr
  pidsLimit : ℕ
  timeoutSeconds : ℕ
  outputDir : PyStr

/-- Docker, the directory of the operator and the file store, as one call finds them. -/
structure SandboxHost where
  /-- `_docker_available()`, with the reason when it is not. -/
  available : Bool
  detail : PyStr
  /-- What the container makes of the code, or the exception that kept it from starting. -/
  execute : PyStr → Except PyStr RunResult
  /-- The configured directory, resolved and made. -/
  destination : PyStr → Except PyStr PyStr
  /-- Whether a file can be written there. -/
  write : PyStr → Except PyStr Unit
  /-- `Storage.upload_file` and `Files.insert_new_file`: the id of the record, if one was made. -/
  register : PyStr → Bytes → Except PyStr (Option PyStr)

/-- `Path(name).name`. -/
def fileName (name : PyStr) : PyStr := (name.reverse.takeWhile (· ≠ 47)).reverse

section

variable (valves : SandboxValves) (host : SandboxHost)

/-- `target.write_bytes(…)` in the operator's directory. -/
def saveItem (destination : Option PyStr) (item : Produced) : PyStr × List FileEffect :=
  match destination with
  | none => ([], [])
  | some dir =>
    let target := dir ++ py "/" ++ fileName item.name
    match host.write target with
    | .ok () => (py " - saved to `" ++ target ++ py "`", [.saved target item.bytes])
    | .error why => (py " - could not be saved to the output directory: " ++ why, [])

/-- The file store's record of a produced file, for the requesting user. -/
def registerItem (user : Option PyStr) (item : Produced) : PyStr × List FileEffect :=
  match user with
  | none => ([], [])
  | some id => match host.register (fileName item.name) item.bytes with
    | .ok (some file) => (py " - [download](/api/v1/files/" ++ file ++ py "/content)",
        [.registered id (fileName item.name) item.bytes])
    | .ok none => ([], [])
    | .error why => (py " - could not be registered for download: " ++ why, [])

/-- One turn of the loop of `_deliver`. -/
def deliverItem (destination user : Option PyStr) (item : Produced) : PyStr × List FileEffect :=
  if !item.skipped.isEmpty then (py "- Not returned: " ++ join (py ", ") item.skipped, [])
  else
    let kb := if item.size / 1024 = 0 then 1 else item.size / 1024
    let saved := saveItem host destination item
    let link := registerItem host user item
    (py "- `" ++ item.name ++ py "` (" ++ natText kb ++ py " KB)" ++ link.1 ++ saved.1, saved.2 ++ link.2)

/-- The directory copies go to, or why it cannot be used. -/
def destinationOf : Except PyStr (Option PyStr) :=
  let keep := strip valves.outputDir
  if keep.isEmpty then .ok none else (host.destination keep).map some

/-- `_deliver(produced, user)`. -/
def deliver (produced : List Produced) (user : Option PyStr) : List PyStr × List FileEffect :=
  let keep := strip valves.outputDir
  let destination := match destinationOf valves host with
    | .ok d => d
    | .error _ => none
  let opening := match destinationOf valves host with
    | .ok _ => []
    | .error why =>
      [py "- Could not use the configured output directory `" ++ keep ++ py "`: " ++ why]
  let items := produced.map (deliverItem host destination user)
  let closing := if keep.isEmpty then
      [[], (py "_Set the sandbox tool's `output_dir` valve to also keep these files on this " ++
        py "machine._")]
    else []
  (opening ++ items.map Prod.fst ++ closing, items.flatMap Prod.snd)

def exitText (code : Option ℤ) : PyStr :=
  match code with
  | some n => intText n
  | none => py "None"

/-- The report's lines before those of the files. -/
def reportLines (result : RunResult) : List PyStr :=
  [py "### Sandbox execution: " ++ (if result.exitCode = some 0 then py "completed" else py "failed"), [],
    py "- Image: `" ++ valves.image ++ py "`",
    (py "- Isolation: `--network none`, `--read-only`, `--cap-drop ALL`, " ++
      py "`--security-opt no-new-privileges`"),
    py "- Limits: " ++ valves.memory ++ py " memory, " ++ valves.cpus ++ py " CPU, " ++
      natText valves.pidsLimit ++ py " PIDs, " ++ natText valves.timeoutSeconds ++ py "s wall clock",
    py "- Exit code: " ++ exitText result.exitCode] ++
  (if result.timedOut then [py "- **Timed out** before completing."] else []) ++
  (match result.error with
    | some why => [py "- Error: " ++ why]
    | none => []) ++
  (if result.stdout.isEmpty then []
    else [[], py "**stdout**", py "```", result.stdout, py "```"]) ++
  (if result.stderr.isEmpty then []
    else [[], py "**stderr**", py "```", result.stderr, py "```"]) ++
  if result.stdout.isEmpty && result.stderr.isEmpty && result.produced.isEmpty then
    [[], py "The program produced no output."]
  else []

/-- The report on a run of the code, and what was done with the files it left. -/
def reportOf (result : RunResult) (user : Option PyStr) : PyStr × List FileEffect :=
  if result.produced.isEmpty then (join [10] (reportLines valves result), [])
  else
    let files := deliver valves host result.produced user
    (join [10] (reportLines valves result ++ [[], py "**Files produced**", []] ++ files.1), files.2)

/-- `run_python(code)` for a user: the report or an exception, and what was done with the files. -/
def runPython (code : PyStr) (user : Option PyStr) : Except PyStr PyStr × List FileEffect :=
  if (strip code).isEmpty then (.ok (py "No code was supplied to execute."), [])
  else if !host.available then
    (.ok (py "The sovereign sandbox is unavailable, so this code was NOT executed.\n\nReason: " ++
      host.detail ++
      py "\n\nThe 4CE backend needs the `docker` CLI on its PATH and a reachable daemon. " ++
      py "Run the backend natively on the host (recommended), or mount the Docker socket " ++
      py "into its container."), [])
  else match host.execute code with
    | .error why => (.error why, [])
    | .ok result => ((.ok (reportOf valves host result user).1), (reportOf valves host result user).2)

end

end FourCE.Tools
