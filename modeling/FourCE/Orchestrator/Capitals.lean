import FourCE.Orchestrator.Checks
import FourCE.Python.ReAscii

/-!
# Verdicts in capitals

`_parse_verdict` looks for PASS and FAIL without regard to case, so that the last line which begins with
the word "pass" can decide.  What decides is compared here with what the lines say in capitals.
-/

namespace FourCE.Orchestrator

open FourCE.Python

section

variable [Unicode]

variable [Casing]

end

section Sample

local instance asciiReader : Unicode := asciiTables

local instance asciiCaser : Casing := asciiCasing

end Sample

end FourCE.Orchestrator
