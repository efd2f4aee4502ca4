import FourCE.Orchestrator.Checks
import FourCE.Python.JsonRoundTrip
import FourCE.Python.ReClasses
import FourCE.Python.Words
import FourCE.Tools.Sandbox
import Mathlib.Data.List.Infix

/-!
# What the execution check sees of a run

`_execution_check` searches the report of `run_python`, which holds whatever the program printed.  The
exit code it finds is that of the run, since the valves alone stand in front of it.  The phrases it looks
for may be the program's own.
-/

namespace FourCE.Orchestrator

open FourCE.Library.Regex FourCE.Python FourCE.Tools

/-! ## A word in a text put together -/

section

variable (valves : SandboxValves)

def beforeImage (result : RunResult) : PyStr :=
  py "### Sandbox execution: " ++ (if result.exitCode = some 0 then py "completed" else py "failed") ++
    py "\n\n- Image: `"

def beforeMemory : PyStr :=
  py "`\n- Isolation: `--network none`, `--read-only`, `--cap-drop ALL`, " ++
    py "`--security-opt no-new-privileges`\n- Limits: "

def behindCpus : PyStr :=
  py " CPU, " ++ (natText valves.pidsLimit ++ (py " PIDs, " ++
    (natText valves.timeoutSeconds ++ py "s wall clock\n")))

/-- The lines of a report in front of its exit code. -/
def reportHead (result : RunResult) : PyStr :=
  beforeImage result ++ (valves.image ++ (beforeMemory ++ (valves.memory ++ (py " memory, " ++
    (valves.cpus ++ behindCpus valves)))))

variable (host : SandboxHost) (user : Option PyStr) (result : RunResult)

end

section

variable {valves : SandboxValves} (host : SandboxHost) (user : Option PyStr) {result : RunResult}

end

/-! ## The exit code -/

section

variable [Unicode]

/-- A number or `None`. -/
inductive ExitText : PyStr → Prop
  | number {d : PyStr} (hd : IsDigits d) : ExitText d
  | negative {d : PyStr} (hd : IsDigits d) : ExitText (45 :: d)
  | absent : ExitText (py "None")

theorem ExitText.ne_nil {g : PyStr} (h : ExitText g) : g ≠ [] := by
  cases h with
  | number hd => exact hd.ne_nil
  | negative hd => exact List.cons_ne_nil _ _
  | absent => exact List.cons_ne_nil _ _

/-- The kind of the check on a report. -/
def kindOf (code prompt report : PyStr) : Kind := (executionCheck code report prompt).kind

/-- The report says somewhere that the code was not executed. -/
def denied (report : PyStr) : Bool := contains (py "was NOT executed") report

/-- The report says somewhere that the run timed out. -/
def stopped (report : PyStr) : Bool := contains (py "**Timed out**") report

/-- An empty program is a problem, whatever the report. -/
theorem kindOf_nil (prompt report : PyStr) : kindOf [] prompt report = .problem := rfl

variable {valves : SandboxValves} {host host' : SandboxHost} {user user' : Option PyStr} {r r' : RunResult}

end

/-! ## Two runs of one program -/

end FourCE.Orchestrator
