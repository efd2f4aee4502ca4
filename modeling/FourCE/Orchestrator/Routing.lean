import FourCE.Orchestrator.World
import FourCE.Python.Dict
import FourCE.Python.Object
import FourCE.Python.Words

/-!
# Which model does what

The router reads the registry: the first entry that has the capabilities of a task type and is served
is chosen.  Each agent may have a model of its own, and a blank one for ULTRON crosses to another model
than the routed one.  Ids of the registry and of the served models meet in `_match_model`, by
containment in either direction.  An entry that makes the code raise is `none`.
-/

namespace FourCE.Orchestrator

open FourCE.Python

/-- What `_registry()` returns: its models, and what it has under `routing`. -/
structure Registry (F : Type) where
  models : List (Json F)
  routing : Json F

/-- The valves that name models. -/
structure ModelValves where
  chatModel : PyStr
  codingModel : PyStr
  visionModel : PyStr
  analysisModel : PyStr
  fridayModel : PyStr
  jarvisModel : PyStr
  ultronModel : PyStr
  independentVerification : Bool

/-- The override of a task type. -/
def ModelValves.override (v : ModelValves) : TaskType → PyStr
  | .chat => strip v.chatModel
  | .code => strip v.codingModel
  | .vision => strip v.visionModel
  | .document | .analysis => strip v.analysisModel

/-- The entries of a registry that are dictionaries. -/
def Registry.entries {F : Type} (r : Registry F) : List (Dict F) :=
  r.models.filterMap fun
    | .obj d => some d
    | _ => none

section

variable [Casing]

/-- `_available_models(request)`, of the keys of the served models. -/
def availableModels (keys : List PyStr) : List PyStr :=
  keys.filter fun k ↦
    !contains (py "4ce") (Casing.lower k) && !startsWith (py "ace_orchestrator") (Casing.lower k)

/-- One of the two names in the other, whatever their case. -/
def alike (wanted candidate : PyStr) : Bool :=
  contains (Casing.lower wanted) (Casing.lower candidate) ||
    contains (Casing.lower candidate) (Casing.lower wanted)

/-- `_match_model(wanted, available, current)`. -/
def matchModel (wanted : PyStr) (available : List PyStr) (current : PyStr) : Option PyStr :=
  if wanted = [] then none
  else if wanted ∈ available then some wanted
  else available.find? fun candidate ↦ candidate ≠ current && alike wanted candidate

variable {F : Type} [Runtime F]

/-- `d.get(k) or []`, and the texts of its items. -/
def textsAt (d : Dict F) (k : PyStr) : Option (List PyStr) :=
  ((((dictGet d k).getD .null).orElse (.arr [])).iter).map fun xs ↦ xs.map Json.text

/-- `s in (d.get(k) or [])`. -/
def heldAt (d : Dict F) (k s : PyStr) : Option Bool :=
  match ((dictGet d k).getD .null).orElse (.arr []) with
  | .arr xs => some (xs.any (·.isStr s))
  | .str t => some (contains s t)
  | .obj e => some ((dictGet e s).isSome)
  | .null | .bool _ | .int _ | .float _ => none

/-- `str(entry.get("id") or "")`. -/
def entryId (d : Dict F) : PyStr := (((dictGet d (py "id")).getD .null).orElse (.str [])).text

/-! ## The models of the agents -/

/-- The entries of `_alternate_model`: those that can verify first. -/
def verifiersFirst (registry : Registry F) : Option (List (Dict F)) := do
  let marked ← registry.entries.mapM fun e ↦ do
    return (e, ← heldAt e (py "capabilities") (py "verification"))
  let verifying := marked.filter Prod.snd
  let others := marked.filter fun p ↦ !p.2
  return (verifying ++ others).map Prod.fst

/-- `_alternate_model(routed, available)`. -/
def alternateModel (registry : Registry F) (routed : PyStr) (available : List PyStr) :
    Option (Option PyStr) := do
  let entries ← verifiersFirst registry
  let named := entries.findSome? fun e ↦ (matchModel (entryId e) available []).filter (· ≠ routed)
  return named.or (available.find? (· ≠ routed))

/-- `a or b` of a model's name that may be missing. -/
def orModel (a : Option PyStr) (b : PyStr) : PyStr := (a.filter (· ≠ [])).getD b

/-- `_agent_model(override, routed, available, independent)`. -/
def agentModel (registry : Registry F) (valves : ModelValves) (override routed : PyStr)
    (available : List PyStr) (independent : Bool) : Option PyStr :=
  if strip override ≠ [] then some (orModel (matchModel (strip override) available []) routed)
  else if independent && valves.independentVerification then do
    return orModel (← alternateModel registry routed available) routed
  else some routed

/-- `agent_models`. -/
structure AgentModels where
  friday : PyStr
  jarvis : PyStr
  ultron : PyStr

def agentModels (registry : Registry F) (valves : ModelValves) (routed : PyStr)
    (available : List PyStr) : Option AgentModels := do
  return {
    friday := ← agentModel registry valves valves.fridayModel routed available false
    jarvis := ← agentModel registry valves valves.jarvisModel routed available false
    ultron := ← agentModel registry valves valves.ultronModel routed available true }

/-! ## The router -/

/-- Why a model was chosen. -/
inductive Why
  | override (model : PyStr)
  /-- `… is the first served model in the registry with it`. -/
  | registry (model : PyStr)
  /-- The server listed no models, so the first capable entry is taken unseen. -/
  | unlisted (model : PyStr)
  | fallback (model : PyStr)
  | nothing
  deriving DecidableEq, Repr

def Why.model : Why → Option PyStr
  | .override model | .registry model | .unlisted model | .fallback model => some model
  | .nothing => none

/-- The text of a reason, of a task type that needs these capabilities. -/
def Why.text (task_type : TaskType) (needs : List PyStr) : Why → PyStr :=
  let need := task_type.text ++ py " work" ++
    if needs.isEmpty then [] else py " needs " ++ join (py ", ") needs
  fun
  | .override model =>
    need ++ py "; the " ++ task_type.text ++ py " override in the valves names " ++ model
  | .registry model => need ++ py "; " ++ model ++ py " is the first served model in the registry with it"
  | .unlisted model =>
    need ++ py "; the model server did not list its models, so the registry's first capable entry, " ++ model
  | .fallback model =>
    need ++ py ", and no served model in the registry has it; fell back to " ++ model
  | .nothing => py "no local model available"

/-- An entry of the registry as the router reads it. -/
structure Entry where
  id : PyStr
  capabilities : List PyStr
  licence : PyStr

/-- The entries the router reads: dictionaries with an id. -/
def readEntries (registry : Registry F) : Option (List Entry) :=
  (registry.entries.filter fun d ↦ ((dictGet d (py "id")).getD .null).truth).mapM fun d ↦ do
    return ⟨entryId d, ← textsAt d (py "capabilities"),
      (((dictGet d (py "licence")).getD .null).orElse (.str [])).text⟩

/-- `(registry.get("routing") or {}).get(task_type) or []`. -/
def needsOf (registry : Registry F) (task_type : TaskType) : Option (List PyStr) :=
  match registry.routing.orElse (.obj []) with
  | .obj d => textsAt d task_type.text
  | _ => none

/-- The capabilities that an entry lacks. -/
def missing (needs : List PyStr) (e : Entry) : List PyStr := needs.filter (· ∉ e.capabilities)

/-- The served model that an entry stands for. -/
def servedAs (available : List PyStr) (e : Entry) : Option PyStr :=
  if available = [] then none else matchModel e.id available []

/-- The state of the loop: `chosen`, `first_capable` and `candidates`. -/
structure Standing where
  chosen : Option PyStr
  firstCapable : Option PyStr
  candidates : List Candidate

/-- One entry of the loop. -/
def weigh (needs : List PyStr) (available : List PyStr) (s : Standing) (e : Entry) : Standing :=
  let candidate status : Candidate := ⟨e.id, e.capabilities, e.licence, status⟩
  if missing needs e ≠ [] then
    { s with candidates := s.candidates ++ [candidate (py "lacks " ++ join (py ", ") (missing needs e))] }
  else if available ≠ [] ∧ (servedAs available e).all (· = []) then
    { s with candidates := s.candidates ++ [candidate (py "not served")] }
  else if s.chosen = none ∧ s.firstCapable = none then
    ⟨servedAs available e, some e.id, s.candidates ++ [candidate (py "chosen")]⟩
  else { s with candidates := s.candidates ++ [candidate (py "capable, not first")] }

/-- What the loop comes to. -/
def whyChosen (available : List PyStr) (current_model : PyStr) (s : Standing) : Why :=
  match s.chosen.filter (· ≠ []), s.firstCapable.filter fun m ↦ m ≠ [] ∧ available = [] with
  | some model, _ => .registry model
  | none, some model => .unlisted model
  | none, none => match (available.find? (· ≠ current_model)).filter (· ≠ []) with
    | some model => .fallback model
    | none => .nothing

/-- The model an override names. -/
def overridden (override : PyStr) (available : List PyStr) (current_model : PyStr) : Option PyStr :=
  if override = [] then none
  else if available = [] then some override
  else (matchModel override available current_model).filter (· ≠ [])

/-- `_route(task_type, request, current_model)`. -/
def route (registry : Registry F) (valves : ModelValves) (keys : List PyStr) (task_type : TaskType)
    (current_model : PyStr) : Option (Why × List PyStr × List Candidate) := do
  let needs ← needsOf registry task_type
  let available := availableModels keys
  let standing := (← readEntries registry).foldl (weigh needs available) ⟨none, none, []⟩
  match overridden (valves.override task_type) available current_model with
  | some model => return (.override model, needs, standing.candidates.map fun c ↦
      if c.status = py "chosen" then { c with status := py "overridden" } else c)
  | none => return (whyChosen available current_model standing, needs, standing.candidates)

end

end FourCE.Orchestrator
