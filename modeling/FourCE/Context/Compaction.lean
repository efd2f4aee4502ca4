import FourCE.Python.Text
import Mathlib.Algebra.GroupWithZero.Nat

/-!
# Context compaction

`utils/context_compaction.py`: once a chat is too long for the model's context, its older messages are
summarised, and the summary is stored on the first message that is kept.  A later request starts from the
last message with a summary.  What the model answers when it is asked for a summary is a parameter; a
message is known by the key it has in the history, beside the `id` it may carry.
-/

namespace FourCE.Context

open FourCE.Python

structure Message where
  key : PyStr
  id : Option PyStr
  role : PyStr
  content : PyStr
  contextSummary : Option PyStr
  context_summary : Option PyStr
  /-- The tokens its usage counts, 0 without one. -/
  usage : ℕ
  /-- The estimate for its content, output, tool calls and files. -/
  tokens : ℕ

structure Config where
  enable : Bool
  token_threshold : ℕ
  token_cap : ℕ
  retention_percentage : ℕ

structure Metadata where
  /-- The chat is one that is saved. -/
  saved : Bool
  user_message_id : Option PyStr
  message_id : Option PyStr
  compact_token_threshold : Option ℕ

/-- What `_generate_summary` is given. -/
structure Call where
  compacted : List Message
  recent : List Message
  previous : Option PyStr

/-- `a or b` for texts. -/
def orElse (a b : Option PyStr) : Option PyStr := if a.any (· ≠ []) then a else b

/-! ## The checkpoint -/

def summaryOf (message : Message) : Option PyStr :=
  (orElse message.contextSummary message.context_summary).filter fun value ↦ strip value ≠ []

/-- `_apply_latest_summary_checkpoint`: the messages from the last one with a summary on. -/
def applyLatestSummaryCheckpoint : List Message → List Message × Option PyStr
  | [] => ([], none)
  | m :: ms =>
    match applyLatestSummaryCheckpoint ms with
    | (kept, some summary) => (kept, some summary)
    | (_, none) =>
      match summaryOf m with
      | some summary => (m :: ms, some summary)
      | none => (m :: ms, none)

/-! ## Whether and where to cut -/

def estimateTokens (s : PyStr) : ℕ := if s = [] then 0 else max 1 (s.length / 4)

def estimateMessagesTokens (messages : List Message) : ℕ := (messages.map fun m ↦ 4 + m.tokens).sum

/-- The tokens up to the last message with a usage, and an estimate for those after it. -/
def usageFrom : List Message → Option ℕ
  | [] => none
  | m :: ms =>
    match usageFrom ms with
    | some tokens => some tokens
    | none => if m.usage = 0 then none else some (m.usage + estimateMessagesTokens ms)

def exceedsTokenThreshold (messages : List Message) (system_prompt : PyStr) (summary : Option PyStr)
    (threshold : ℕ) : Bool :=
  if threshold = 0 then false
  else match usageFrom messages with
    | some tokens => threshold < tokens
    | none => threshold < estimateTokens system_prompt + estimateTokens (summary.getD []) +
        estimateMessagesTokens messages

def resolveTokenThreshold (config : Config) (metadata : Metadata) : ℕ :=
  min ((metadata.compact_token_threshold.filter (0 < ·)).getD config.token_threshold) config.token_cap

def clampRetentionPercentage (value : ℕ) : ℕ := min 50 (max 10 value)

def isUser (message : Message) : Bool := message.role = py "user"

/-- The positions of the user's messages. -/
def userPositions (messages : List Message) : List ℕ :=
  (messages.zipIdx.filter fun e ↦ isUser e.1).map Prod.snd

def findCompactionBoundary (messages : List Message) (retention_percentage : ℕ) : ℕ :=
  let keep_count := max 2 (messages.length * clampRetentionPercentage retention_percentage / 100)
  let target := max 1 (messages.length - keep_count)
  (((userPositions messages).drop 1).reverse.find? (· ≤ target)).getD 0

/-! ## Compaction -/

/-- `_generate_summary` on what the model answers, `none` where the request raises. -/
def generateSummary (reply : Call → Option PyStr) (call : Call) : Option PyStr :=
  (reply call).map fun text ↦
    if strip text ≠ [] then strip text
    else
      let parts := (call.previous.filter (· ≠ [])).toList ++
        (call.compacted.filter fun m ↦ m.content ≠ []).map fun m ↦
          py "- " ++ m.role ++ py ": " ++ m.content.take 500
      (join (py "\n") parts).take 4000

/-- What a compaction gives back, the summary it asked for and where it stores it. -/
structure Compacted where
  messages : List Message
  summary : Option PyStr
  compacted : Bool
  call : Option (Call × PyStr)
  checkpoint : Option (PyStr × PyStr)

/-- The message that the checkpoint goes to. -/
def checkpointId (first : Message) (metadata : Metadata) : Option PyStr :=
  orElse first.id (orElse metadata.user_message_id metadata.message_id)

/-- The system message in front of the others. -/
def splitSystem : List Message → List Message × List Message
  | [] => ([], [])
  | m :: ms => if m.role = py "system" then ([m], ms) else ([], m :: ms)

def compactMessagesForRequest (config : Config) (metadata : Metadata) (reply : Call → Option PyStr)
    (system_prompt : PyStr) (messages : List Message) : Option Compacted :=
  if !config.enable then some ⟨messages, none, false, none, none⟩
  else
    let (system_messages, messages) := splitSystem messages
    let (messages, previous_summary) := applyLatestSummaryCheckpoint messages
    let unchanged : Compacted := ⟨system_messages ++ messages, previous_summary, false, none, none⟩
    if !exceedsTokenThreshold messages system_prompt previous_summary
        (resolveTokenThreshold config metadata) ∨ messages.length ≤ 3 then some unchanged
    else
      let boundary := findCompactionBoundary messages config.retention_percentage
      let compacted_messages := messages.take boundary
      match compacted_messages, messages.drop boundary with
      | _ :: _, first :: rest =>
        let call : Call := ⟨compacted_messages, first :: rest, previous_summary⟩
        (generateSummary reply call).map fun summary ↦
          { messages := system_messages ++ first :: rest
            summary := some summary
            compacted := true
            call := some (call, summary)
            checkpoint := if metadata.saved then
                ((checkpointId first metadata).filter (· ≠ [])).map fun id ↦ (id, summary)
              else none }
      | _, _ => some unchanged

/-- `compact_chat_branch` on the messages up to the current one. -/
def compactChatBranch (config : Config) (reply : Call → Option PyStr) (branch : List Message) :
    Option Compacted :=
  if !config.enable then some ⟨branch, none, false, none, none⟩
  else
    let (messages, previous_summary) := applyLatestSummaryCheckpoint branch
    match messages.dropLast, messages.getLast? with
    | first :: rest, some last =>
      let call : Call := ⟨first :: rest, [last], previous_summary⟩
      (generateSummary reply call).map fun summary ↦
        { messages := [last]
          summary := some summary
          compacted := true
          call := some (call, summary)
          checkpoint := some (last.key, summary) }
    | _, _ => some ⟨branch, previous_summary, false, none, none⟩

/-! ## A branch over its turns -/

/-- The branch, and the summaries that were generated so far, each with what it was generated from. -/
structure State where
  branch : List Message
  calls : List (Call × PyStr)

inductive Event
  | turn (messages : List Message)
  /-- A request for an answer, with or without a system message in front. -/
  | request (config : Config) (metadata : Metadata) (reply : Call → Option PyStr)
      (system_message : Option Message) (system_prompt : PyStr)
  /-- The command that compacts the branch. -/
  | command (config : Config) (reply : Call → Option PyStr)

/-- The upsert of a summary; an id that no message of the branch has leaves the branch as it is. -/
def storeCheckpoint (branch : List Message) (checkpoint : PyStr × PyStr) : List Message :=
  branch.map fun m ↦
    if m.key = checkpoint.1 then { m with contextSummary := some checkpoint.2 } else m

def State.after (s : State) : Option Compacted → State
  | none => s
  | some r =>
    { branch := match r.checkpoint with
        | none => s.branch
        | some checkpoint => storeCheckpoint s.branch checkpoint
      calls := s.calls ++ r.call.toList }

def step (s : State) : Event → State
  | .turn messages => { s with branch := s.branch ++ messages }
  | .request config metadata reply system_message system_prompt =>
    s.after (compactMessagesForRequest config metadata reply system_prompt
      (system_message.toList ++ s.branch))
  | .command config reply => s.after (compactChatBranch config reply s.branch)

def run (events : List Event) : State := events.foldl step ⟨[], []⟩

end FourCE.Context
