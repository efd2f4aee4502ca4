import Mathlib.Data.Finset.Dedup
import Mathlib.Data.Finset.Insert
import Mathlib.Data.Int.Notation
import FourCE.Library.Keyed
import FourCE.Python.Str

/-!
# Chat histories

`models/chats.py` keeps a conversation as a dictionary of messages that are linked twice: each message
names its parent and lists its children.  A message has below the fields that these functions read or
write; the others go along with it.  Of `output` it has the roles of its items, `none` for an item
without one.
-/

namespace FourCE.Chats

open FourCE.Library FourCE.Python

structure Message where
  id : Option PyStr
  parentId : Option PyStr
  childrenIds : List PyStr
  role : Option PyStr
  timestamp : ℕ
  contextSummary : Bool
  context_summary : Bool
  output : List (Option PyStr)

abbrev Messages := Keyed PyStr Message

structure History where
  messages : Messages
  currentId : Option PyStr

/-- The truth of a text or of none. -/
def truthy (s : Option PyStr) : Bool := s.any (· ≠ [])

/-- `a or b` for texts. -/
def orElse (a b : Option PyStr) : Option PyStr := if truthy a then a else b

def outputRole (output : List (Option PyStr)) : Option PyStr := (output.find? truthy).getD none

/-- The ids of a message's children, of a message that may not be there. -/
def childrenOf (messages : Messages) (id : PyStr) : List PyStr :=
  (messages.get? id).elim [] Message.childrenIds

def addChild (id : PyStr) (message : Message) : Message :=
  { message with childrenIds := message.childrenIds ++ [id] }

/-- `_add_child_id_to_parent`: the messages, and whether they changed. -/
def addChildIdToParent (messages : Messages) (parent_id : Option PyStr) (child_id : PyStr) :
    Messages × Bool :=
  match parent_id with
  | none => (messages, false)
  | some parent_id =>
    if parent_id = [] then (messages, false)
    else match messages.get? parent_id with
      | none => (messages, false)
      | some parent =>
        if child_id ∈ parent.childrenIds then (messages, false)
        else (messages.modify parent_id (addChild child_id), true)

/-! ## Inserting and updating a message -/

/-- A message as it comes in: each field is there or not, some as null. -/
structure Payload where
  id : Option (Option PyStr)
  parentId : Option (Option PyStr)
  childrenIds : Option (List PyStr)
  role : Option (Option PyStr)
  timestamp : Option ℕ
  contextSummary : Option Bool
  context_summary : Option Bool
  output : Option (List (Option PyStr))

/-- `{**message, **payload}`. -/
def Message.update (message : Message) (payload : Payload) : Message where
  id := payload.id.getD message.id
  parentId := payload.parentId.getD message.parentId
  childrenIds := payload.childrenIds.getD message.childrenIds
  role := payload.role.getD message.role
  timestamp := payload.timestamp.getD message.timestamp
  contextSummary := payload.contextSummary.getD message.contextSummary
  context_summary := payload.context_summary.getD message.context_summary
  output := payload.output.getD message.output

/-- The role of a message that names none. -/
def guessRole (parent : Option Message) : PyStr :=
  if parent.bind Message.role = some (py "user") then py "assistant"
  else if parent.bind Message.role = some (py "assistant") then py "user"
  else py "assistant"

/-- The first message that lists the id. -/
def listedUnder (messages : Messages) (message_id : PyStr) : Option PyStr :=
  (messages.entries.find? fun e : PyStr × Message ↦ message_id ∈ e.2.childrenIds).map Prod.fst

/-- A message under an id that was not there. -/
def newMessage (messages : Messages) (message_id : PyStr) (message : Payload) (now : ℕ) : Message :=
  let parent_id := (message.parentId.getD none).or (listedUnder messages message_id)
  let parent := if truthy parent_id then parent_id.bind messages.get? else none
  let output := message.output.getD []
  { id := orElse (message.id.getD none) (some message_id)
    parentId := parent_id
    childrenIds := message.childrenIds.getD []
    role := orElse (orElse (message.role.getD none) (outputRole output)) (some (guessRole parent))
    timestamp := if message.timestamp.getD 0 = 0 then now else message.timestamp.getD 0
    contextSummary := message.contextSummary.getD false
    context_summary := message.context_summary.getD false
    output := output }

/-- `upsert_message_to_history`: the history and the message as it is then. -/
def upsertMessageToHistory (history : History) (message_id : PyStr) (message : Payload) (now : ℕ) :
    History × Option Message :=
  let saved := match history.messages.get? message_id with
    | some old => old.update message
    | none => newMessage history.messages message_id message now
  let currentId := if message_id ∈ history.messages.keys then history.currentId else some message_id
  let messages := history.messages.set message_id saved
  let messages := (addChildIdToParent messages saved.parentId message_id).1
  (⟨messages, currentId⟩, messages.get? message_id)

/-! ## Deleting a message -/

/-- Down the last children until a message has none or was visited. -/
def lastChild (messages : Messages) : ℕ → List PyStr → Option PyStr → List PyStr → Option PyStr
  | 0, _, current_id, _ => current_id
  | n + 1, visited_ids, current_id, child_ids =>
    match child_ids.getLast? with
    | none => current_id
    | some id =>
      if id ∈ visited_ids then current_id
      else lastChild messages n (id :: visited_ids) (some id) (childrenOf messages id)

/-- The ids of a message's children that are there. -/
def childIds (messages : Messages) (id : PyStr) : List PyStr :=
  (childrenOf messages id).filter (· ∈ messages.keys)

def grandchildIds (messages : Messages) (message_id : PyStr) : List PyStr :=
  (childIds messages message_id).flatMap (childIds messages)

/-- The message and its children taken out, and its grandchildren put under its parent. -/
def takeOut (messages : Messages) (message_id : PyStr) (parent_id : Option PyStr) : Messages :=
  let child_ids := childIds messages message_id
  let grandchild_ids := grandchildIds messages message_id
  let reparented := messages.map fun id m ↦ { m with
    childrenIds := if parent_id = some id then m.childrenIds.filter (· ≠ message_id) ++ grandchild_ids
      else m.childrenIds
    parentId := if id ∈ grandchild_ids then parent_id else m.parentId }
  reparented.filterKeys fun id ↦ id ∉ message_id :: child_ids

/-- The children of a parent, of none the messages without one. -/
def childrenUnder (messages : Messages) : Option PyStr → List PyStr
  | none => (messages.entries.filter fun e : PyStr × Message ↦ e.2.parentId = none).map Prod.fst
  | some id => childrenOf messages id

/-- `delete_message_from_history`: the history and the ids that were deleted. -/
def deleteMessageFromHistory (history : History) (message_id : PyStr) : History × Finset PyStr :=
  match history.messages.get? message_id with
  | none => (history, ∅)
  | some message =>
    let messages := takeOut history.messages message_id message.parentId
    let current_id := lastChild messages (messages.entries.length + 1) [] message.parentId
      (childrenUnder messages message.parentId)
    (⟨messages, current_id.filter (· ∈ messages.keys)⟩,
      insert message_id (childIds history.messages message_id).toFinset)

/-! ## Merging two histories -/

/-- Every message put under its parent, in the order of the messages. -/
def linkChildren (messages : Messages) : Messages :=
  messages.entries.foldl (fun merged e ↦ match e.2.parentId with
    | none => merged
    | some p => merged.modify p (addChild e.1)) messages

/-- `merge_history`. -/
def mergeHistory (existing incoming : History) : History :=
  let merged := linkChildren ((existing.messages.union incoming.messages).map fun _ m ↦
    { m with childrenIds := [] })
  let current_id := incoming.currentId.filter (· ∈ merged.keys)
  ⟨merged, current_id.or (existing.currentId.filter (· ∈ merged.keys))⟩

/-! ## Repairing the current id -/

/-- `_last_descendant_id`. -/
def lastDescendantId (messages : Messages) : ℕ → List PyStr → PyStr → PyStr
  | 0, _, message_id => message_id
  | n + 1, seen_ids, message_id =>
    match messages.get? message_id with
    | none => message_id
    | some message =>
      if message_id ∈ seen_ids then message_id
      else match message.childrenIds.reverse.find? (· ∈ messages.keys) with
        | none => message_id
        | some next_id =>
          if next_id = [] then message_id
          else lastDescendantId messages n (message_id :: seen_ids) next_id

/-- The childless message with the latest time, the first of them. -/
def latestLeaf (messages : Messages) : Option PyStr :=
  (messages.entries.foldl (fun (latest : Option PyStr × ℤ) e ↦
    if truthy e.2.role ∧ e.2.childrenIds = [] ∧ latest.2 < e.2.timestamp
    then (some e.1, (e.2.timestamp : ℤ)) else latest) (none, -1)).1

/-- Every message listed under its parent. -/
def addChildIds (messages : Messages) : Messages × Bool :=
  messages.entries.foldl (fun acc e ↦
    let added := addChildIdToParent acc.1 e.2.parentId e.1
    (added.1, added.2 || acc.2)) (messages, false)

/-- The current message, if it can stay current. -/
def soundCurrent (messages : Messages) (currentId : Option PyStr) : Option Message :=
  (currentId.bind messages.get?).filter fun message ↦
    let current_is_bad_leaf : Bool := outputRole message.output = some (py "assistant") ∧
      message.parentId = none ∧ message.timestamp = 0 ∧ 1 < messages.entries.length
    truthy message.id && truthy message.role && !current_is_bad_leaf

/-- `_repair_chat_current_id`: the history, and whether it changed. -/
def repairChatCurrentId (history : History) : History × Bool :=
  let (messages, changed) := addChildIds history.messages
  match history.currentId, soundCurrent messages history.currentId with
  | some current_id, some message =>
    let last := lastDescendantId messages messages.entries.length [] current_id
    if (message.contextSummary ∨ message.context_summary) ∧ last ≠ current_id then
      (⟨messages, some last⟩, true)
    else (⟨messages, some current_id⟩, changed)
  | _, _ =>
    let latest_leaf_id := latestLeaf messages
    if ¬ truthy latest_leaf_id ∨ latest_leaf_id = history.currentId then
      (⟨messages, history.currentId⟩, changed)
    else (⟨messages, latest_leaf_id⟩, true)

/-! ## The messages up to one -/

/-- Up the parents until there is none or it was visited. -/
def messageChain (messages : Messages) : ℕ → List PyStr → PyStr → List Message
  | 0, _, _ => []
  | n + 1, visited, message_id =>
    match messages.get? message_id with
    | none => []
    | some message =>
      if message_id ∈ visited then []
      else message :: match message.parentId with
        | none => []
        | some p => if p = [] then [] else messageChain messages n (message_id :: visited) p

/-- `get_message_list`. -/
def getMessageList (messages : Messages) (message_id : PyStr) : List Message :=
  (messageChain messages messages.entries.length [] message_id).reverse

end FourCE.Chats
