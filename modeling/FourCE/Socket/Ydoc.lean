import FourCE.Library.Interleave
import FourCE.Python.Text
import Mathlib.Data.Finset.Card

/-!
# Documents edited together

`YdocManager` of `socket/utils.py` and the two handlers of `socket/main.py` that clear a document: the
updates of a document are a list, in Redis or in the process, whose older half is squashed into one
snapshot once it is long; its users are a set, and a document that a leaving session finds without
users is cleared.  A program may be interrupted at every `await`, which in Redis mode is every command
and in memory mode none of a method's.  An update is stored as the JSON list of its bytes and read
back as those bytes; what `pycrdt` makes of a list of updates is a parameter.
-/

namespace FourCE.Socket.Ydoc

open FourCE.Library FourCE.Python

variable {U : Type}

/-! ## What is shared -/

/-- Redis, and the two dictionaries of a manager without Redis. -/
structure Store (U : Type) where
  lists : PyStr → List U
  sets : PyStr → Finset PyStr
  updates : PyStr → Option (List U)
  users : PyStr → Option (Finset PyStr)

inductive Command (U : Type)
  | rpush (key : PyStr) (update : U)
  | llen (key : PyStr)
  | lrange (key : PyStr)
  /-- The pipeline of a compaction: delete the list and push these. -/
  | replace (key : PyStr) (updates : List U)
  | sadd (key member : PyStr)
  | srem (key member : PyStr)
  | smembers (key : PyStr)
  | exists (key : PyStr)
  | delete (key : PyStr)
  | appendMemory (document_id : PyStr) (update : U)
  | getMemory (document_id : PyStr)
  | existsMemory (document_id : PyStr)
  | usersMemory (document_id : PyStr)
  | addMemory (document_id user_id : PyStr)
  | removeMemory (document_id user_id : PyStr)
  | removeAllMemory (user_id : PyStr)
  | clearMemory (document_id : PyStr)

def Reply : Command U → Type
  | .llen _ => ℕ
  | .lrange _ => List U
  | .smembers _ => Finset PyStr
  | .exists _ => Bool
  | .getMemory _ => List U
  | .existsMemory _ => Bool
  | .usersMemory _ => Finset PyStr
  | _ => Unit

def COMPACTION_THRESHOLD : ℕ := 500

/-- The older half as one snapshot, then the rest. -/
def compacted (squash : List U → U) (updates : List U) : List U :=
  squash (updates.take (updates.length / 2)) :: updates.drop (updates.length / 2)

/-- The list after `append_to_updates` without Redis; a single entry is never compacted. -/
def appended (squash : List U → U) (updates : List U) (update : U) : List U :=
  if COMPACTION_THRESHOLD ≤ (updates ++ [update]).length ∧ 1 < (updates ++ [update]).length then
    compacted squash (updates ++ [update])
  else updates ++ [update]

/-- Whether `remove_user_from_all_documents` takes the last user of the document. -/
def leavesEmpty (users : Option (Finset PyStr)) (user_id : PyStr) : Bool :=
  users.any fun s ↦ user_id ∈ s ∧ s.erase user_id = ∅

def exec (squash : List U → U) : (c : Command U) → Store U → Option (Reply c × Store U)
  | .rpush key update, s =>
    some ((), { s with lists := Function.update s.lists key (s.lists key ++ [update]) })
  | .llen key, s => some ((s.lists key).length, s)
  | .lrange key, s => some (s.lists key, s)
  | .replace key updates, s => some ((), { s with lists := Function.update s.lists key updates })
  | .sadd key member, s =>
    some ((), { s with sets := Function.update s.sets key (insert member (s.sets key)) })
  | .srem key member, s =>
    some ((), { s with sets := Function.update s.sets key ((s.sets key).erase member) })
  | .smembers key, s => some (s.sets key, s)
  | .exists key, s => some (decide (s.lists key ≠ []) || decide (s.sets key ≠ ∅), s)
  | .delete key, s => some ((), { s with
      lists := Function.update s.lists key []
      sets := Function.update s.sets key ∅ })
  | .appendMemory document_id update, s => some ((), { s with
      updates := Function.update s.updates document_id
        (some (appended squash ((s.updates document_id).getD []) update)) })
  | .getMemory document_id, s => some ((s.updates document_id).getD [], s)
  | .existsMemory document_id, s => some ((s.updates document_id).isSome, s)
  | .usersMemory document_id, s => some ((s.users document_id).getD ∅, s)
  | .addMemory document_id user_id, s => some ((), { s with
      users := Function.update s.users document_id (some (insert user_id ((s.users document_id).getD ∅))) })
  | .removeMemory document_id user_id, s => some ((), { s with
      users := Function.update s.users document_id ((s.users document_id).map (·.erase user_id)) })
  | .removeAllMemory user_id, s => some ((), { s with
      updates := fun d ↦ if leavesEmpty (s.users d) user_id then none else s.updates d,
      users := fun d ↦ if leavesEmpty (s.users d) user_id then none
        else (s.users d).map (·.erase user_id) })
  | .clearMemory document_id, s => some ((), { s with
      updates := Function.update s.updates document_id none
      users := Function.update s.users document_id none })

/-! ## The manager -/

inductive Result (U : Type)
  | none
  | updates (updates : List U)

/-- A program that talks to the store. -/
abbrev Client (U : Type) := Proc (Command U) Reply

def send (c : Command U) : Client U (Reply c) := Proc.send c

/-- `document_id.replace(':', '_')`. -/
def stored (document_id : PyStr) : PyStr := document_id.map fun c ↦ if c = 58 then 95 else c

structure Manager where
  redis : Bool
  keyPrefix : PyStr

namespace Manager

variable (m : Manager)

def updatesKey (document_id : PyStr) : PyStr :=
  m.keyPrefix ++ py ":" ++ document_id ++ py ":updates"

def usersKey (document_id : PyStr) : PyStr := m.keyPrefix ++ py ":" ++ document_id ++ py ":users"

def sessionKey (user_id : PyStr) : PyStr :=
  m.keyPrefix ++ py ":session:" ++ user_id ++ py ":documents"

variable (squash : List U → U)

/-- `_compact_updates_redis`; the caller passes the stored id. -/
def compactUpdatesRedis (document_id : PyStr) : Client U (Result U) := do
  let all_updates : List U ← send (.lrange (m.updatesKey document_id))
  if all_updates.length ≤ 1 then return .none
  send (.replace (m.updatesKey document_id) (compacted squash all_updates))
  return .none

def appendToUpdates (document_id : PyStr) (update : U) : Client U (Result U) :=
  if m.redis then do
    send (.rpush (m.updatesKey (stored document_id)) update)
    let list_len : ℕ ← send (.llen (m.updatesKey (stored document_id)))
    if COMPACTION_THRESHOLD ≤ list_len then m.compactUpdatesRedis squash (stored document_id)
    else return .none
  else do
    send (.appendMemory (stored document_id) update)
    return .none

def getUpdates (document_id : PyStr) : Client U (Result U) :=
  if m.redis then do
    let updates : List U ← send (.lrange (m.updatesKey (stored document_id)))
    return .updates updates
  else do
    let updates : List U ← send (.getMemory (stored document_id))
    return .updates updates

def addUser (document_id user_id : PyStr) : Client U (Result U) :=
  if m.redis then do
    send (.sadd (m.usersKey (stored document_id)) user_id)
    send (.sadd (m.sessionKey user_id) (stored document_id))
    return .none
  else do
    send (.addMemory (stored document_id) user_id)
    return .none

def clearDocument (document_id : PyStr) : Client U (Result U) :=
  if m.redis then do
    send (.delete (m.updatesKey (stored document_id)))
    send (.delete (m.usersKey (stored document_id)))
    return .none
  else do
    send (.clearMemory (stored document_id))
    return .none

/-- The loop of `remove_user_from_all_documents` over the documents of the session. -/
def removeFromEach (user_id : PyStr) : List PyStr → Client U (Result U)
  | [] => do
    send (.delete (m.sessionKey user_id))
    return .none
  | document_id :: rest => do
    send (.srem (m.usersKey document_id) user_id)
    let users : Finset PyStr ← send (.smembers (m.usersKey (stored document_id)))
    if users.card = 0 then
      send (.delete (m.updatesKey (stored document_id)))
      send (.delete (m.usersKey (stored document_id)))
    removeFromEach user_id rest

/-- `remove_user_from_all_documents`; a set is walked in some order. -/
def removeUserFromAllDocuments (order : Finset PyStr → List PyStr) (user_id : PyStr) : Client U (Result U) :=
  if m.redis then do
    let document_ids : Finset PyStr ← send (.smembers (m.sessionKey user_id))
    m.removeFromEach user_id (order document_ids)
  else do
    send (.removeAllMemory user_id)
    return .none

/-- `yjs_document_leave`: the session is taken off the document, which is cleared when it is found
without users. -/
def leave (document_id user_id : PyStr) : Client U (Result U) :=
  if m.redis then do
    send (.srem (m.usersKey (stored document_id)) user_id)
    send (.srem (m.sessionKey user_id) (stored document_id))
    let found : Bool ← send (.exists (m.updatesKey (stored document_id)))
    if found then
      let users : Finset PyStr ← send (.smembers (m.usersKey (stored document_id)))
      if users.card = 0 then m.clearDocument document_id
      else return .none
    else return .none
  else do
    send (.removeMemory (stored document_id) user_id)
    let found : Bool ← send (.existsMemory (stored document_id))
    if found then
      let users : Finset PyStr ← send (.usersMemory (stored document_id))
      if users.card = 0 then m.clearDocument document_id
      else return .none
    else return .none

inductive Op (U : Type)
  | append (document_id : PyStr) (update : U)
  | getUpdates (document_id : PyStr)
  | join (document_id user_id : PyStr)
  | leave (document_id user_id : PyStr)
  | disconnect (order : Finset PyStr → List PyStr) (user_id : PyStr)

def program : Op U → Client U (Result U)
  | .append document_id update => m.appendToUpdates squash document_id update
  | .getUpdates document_id => m.getUpdates document_id
  | .join document_id user_id => m.addUser document_id user_id
  | .leave document_id user_id => m.leave document_id user_id
  | .disconnect order user_id => m.removeUserFromAllDocuments order user_id

/-! ## The programs, command by command -/

theorem compactUpdatesRedis_eq (document_id : PyStr) :
    m.compactUpdatesRedis squash document_id =
      .cmd (.lrange (m.updatesKey document_id)) fun (all_updates : List U) ↦
        if all_updates.length ≤ 1 then .ret .none
        else .cmd (.replace (m.updatesKey document_id) (compacted squash all_updates)) fun _ ↦
          .ret .none := rfl

theorem appendToUpdates_eq (document_id : PyStr) (update : U) :
    m.appendToUpdates squash document_id update =
      if m.redis then
        .cmd (.rpush (m.updatesKey (stored document_id)) update) fun _ ↦
          .cmd (.llen (m.updatesKey (stored document_id))) fun (list_len : ℕ) ↦
            if COMPACTION_THRESHOLD ≤ list_len then
              m.compactUpdatesRedis squash (stored document_id)
            else .ret .none
      else .cmd (.appendMemory (stored document_id) update) fun _ ↦ .ret .none := rfl

theorem getUpdates_eq (document_id : PyStr) : (m.getUpdates document_id : Client U (Result U)) =
    if m.redis then
      .cmd (.lrange (m.updatesKey (stored document_id))) fun (updates : List U) ↦
        .ret (.updates updates)
    else .cmd (.getMemory (stored document_id)) fun (updates : List U) ↦ .ret (.updates updates) := rfl

theorem addUser_eq (document_id user_id : PyStr) :
    (m.addUser document_id user_id : Client U (Result U)) =
      if m.redis then
        .cmd (.sadd (m.usersKey (stored document_id)) user_id) fun _ ↦
          .cmd (.sadd (m.sessionKey user_id) (stored document_id)) fun _ ↦ .ret .none
      else .cmd (.addMemory (stored document_id) user_id) fun _ ↦ .ret .none := rfl

theorem clearDocument_eq (document_id : PyStr) :
    (m.clearDocument document_id : Client U (Result U)) =
      if m.redis then
        .cmd (.delete (m.updatesKey (stored document_id))) fun _ ↦
          .cmd (.delete (m.usersKey (stored document_id))) fun _ ↦ .ret .none
      else .cmd (.clearMemory (stored document_id)) fun _ ↦ .ret .none := rfl

theorem removeFromEach_nil (user_id : PyStr) : (m.removeFromEach user_id [] : Client U (Result U)) =
    .cmd (.delete (m.sessionKey user_id)) fun _ ↦ .ret .none := rfl

theorem removeFromEach_cons (user_id document_id : PyStr) (rest : List PyStr) :
    (m.removeFromEach user_id (document_id :: rest) : Client U (Result U)) =
      .cmd (.srem (m.usersKey document_id) user_id) fun _ ↦
        .cmd (.smembers (m.usersKey (stored document_id))) fun (users : Finset PyStr) ↦
          if users.card = 0 then
            .cmd (.delete (m.updatesKey (stored document_id))) fun _ ↦
              .cmd (.delete (m.usersKey (stored document_id))) fun _ ↦ m.removeFromEach user_id rest
          else m.removeFromEach user_id rest := rfl

theorem removeUserFromAllDocuments_eq (order : Finset PyStr → List PyStr) (user_id : PyStr) :
    (m.removeUserFromAllDocuments order user_id : Client U (Result U)) =
      if m.redis then
        .cmd (.smembers (m.sessionKey user_id)) fun (document_ids : Finset PyStr) ↦
          m.removeFromEach user_id (order document_ids)
      else .cmd (.removeAllMemory user_id) fun _ ↦ .ret .none := rfl

theorem leave_eq (document_id user_id : PyStr) :
    (m.leave document_id user_id : Client U (Result U)) =
      if m.redis then
        .cmd (.srem (m.usersKey (stored document_id)) user_id) fun _ ↦
          .cmd (.srem (m.sessionKey user_id) (stored document_id)) fun _ ↦
            .cmd (.exists (m.updatesKey (stored document_id))) fun (found : Bool) ↦
              if found then
                .cmd (.smembers (m.usersKey (stored document_id))) fun (users : Finset PyStr) ↦
                  if users.card = 0 then m.clearDocument document_id else .ret .none
              else .ret .none
      else
        .cmd (.removeMemory (stored document_id) user_id) fun _ ↦
          .cmd (.existsMemory (stored document_id)) fun (found : Bool) ↦
            if found then
              .cmd (.usersMemory (stored document_id)) fun (users : Finset PyStr) ↦
                if users.card = 0 then m.clearDocument document_id else .ret .none
            else .ret .none := rfl

end Manager

end FourCE.Socket.Ydoc
