import FourCE.Library.RegexFirst
import FourCE.Orchestrator.Release
import FourCE.Python.Object

/-!
# How a run ended, as the chat list shows it

`fource_outcome` of the backend: what the sidebar reads from the latest answer of a chat.
-/

namespace FourCE.Sidebar

open FourCE.Python FourCE.Orchestrator FourCE.Library.Regex

/-- The floats of a run, which the sidebar reads back. -/
class ChatFloat (F : Type) extends PySeconds F, Runtime F

/-- A cased letter sees no letter past a dash, so a text is lowered on either side of one. -/
class DashCasing extends Casing where
  lower_dash : ∀ s t : PyStr, lower (s ++ 8212 :: t) = lower s ++ 8212 :: lower t

/-! ## The chat -/

/-- An entry of `statusHistory`. -/
structure Status where
  action : Option PyStr
  done : Option Bool
  deriving DecidableEq, Repr

structure Message where
  id : Option PyStr
  parentId : Option PyStr
  role : Option PyStr
  model : Option PyStr
  done : Bool
  content : Option PyStr
  statusHistory : List Status
  deriving DecidableEq, Repr

/-- The `history` of a chat. -/
structure Chat where
  currentId : Option PyStr
  messages : List (PyStr × Message)
  deriving DecidableEq, Repr

/-- `messages.get(id or "")`. -/
def Chat.message (c : Chat) (id : Option PyStr) : Option Message :=
  (c.messages.find? fun p ↦ p.1 = id.getD []).map Prod.snd

/-- The climb from a message to the answer it follows.  No message is left twice, so there is
fuel for each of them. -/
def Chat.climb (c : Chat) : ℕ → List (Option PyStr) → Option Message → Option Message
  | 0, _, message => message
  | _ + 1, _, none => none
  | fuel + 1, seen, some message =>
    if message.role = some (py "assistant") ∨ message.id ∈ seen then some message
    else c.climb fuel (message.id :: seen) (c.message message.parentId)

/-- The latest answer on the branch in view. -/
def Chat.latest (c : Chat) : Option Message :=
  c.climb (c.messages.length + 1) [] (c.message c.currentId)

/-! ## The outcome -/

inductive Outcome
  | released
  | withheld
  | stopped
  | direct
  | done
  | none
  deriving DecidableEq, Repr

def Outcome.text : Outcome → PyStr
  | .released => py "released"
  | .withheld => py "withheld"
  | .stopped => py "stopped"
  | .direct => py "direct"
  | .done => py "done"
  | .none => []

/-- `_RECEIPT`. -/
def RECEIPT : Pattern := re { dotAll := true } (py "```4ce-receipt\\s*\\n(.*?)\\n```") (by decide)

def Message.acted (m : Message) (action : PyStr) : Bool := m.statusHistory.any fun s ↦ s.action = some action

/-- The last status was left open: the run was cut off. -/
def Message.cutOff (m : Message) : Bool := m.statusHistory.getLast?.any fun s ↦ s.done = some false

section

variable [Unicode] [Casing] (F : Type) [Runtime F]

/-- `str(json.loads(text).get("approval") or "").lower()`, and nothing where that raises. -/
def approvalIn (text : PyStr) : PyStr :=
  match (loads text : Option (Json F)) with
  | none => []
  | some data => match data.get (py "approval") with
    | none => []
    | some approval => Casing.lower ((approval.getD .null).orElse (.str [])).text

/-- What the receipt in an answer says of its approval. -/
def receiptApproval (content : PyStr) : Option PyStr :=
  (reSearch RECEIPT content).map fun found ↦ approvalIn F (groupText found 1)

/-- The end of `fource_outcome`: what the text of an answer says. -/
def contentOutcome (content : PyStr) : Outcome :=
  let approval := (receiptApproval F content).getD []
  if approval = py "approved" then .released
  else if startsWith (py "rejected") approval || contains (py "not obtained") approval then .withheld
  else if contains (py "### Deliverable withheld") content then .withheld
  else .done

/-- `fource_outcome` from the answer on. -/
def Message.outcome (m : Message) : Outcome :=
  let content := m.content.getD []
  if !startsWith (py "ace_orchestrator") (m.model.getD []) then .none
  else if !m.done then .none
  else if startsWith ERR (lstrip content) || m.acted (py "error") || m.acted (py "stopped") then .stopped
  else if m.cutOff then .stopped
  else if m.acted (py "chat") then .direct
  else contentOutcome F content

/-- `fource_outcome`. -/
def fourceOutcome (chat : Option Chat) : Outcome :=
  match chat.bind Chat.latest with
  | none => .none
  | some message => message.outcome F

end

/-! ## The climb -/

/-- The message that is in view is the answer, if it is one. -/
theorem latest_of_assistant {c : Chat} {m : Message} (h : c.message c.currentId = some m)
    (hrole : m.role = some (py "assistant")) : c.latest = some m := by
  rw [Chat.latest, h, Chat.climb, if_pos (Or.inl hrole)]

end FourCE.Sidebar
