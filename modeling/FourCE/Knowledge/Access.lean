import FourCE.Knowledge.Tables

/-!
# Who may read and write

Grants, and access to a file through whatever holds it (`utils/access_control/files.py`).
-/

namespace FourCE.Knowledge

open FourCE.Library FourCE.Python

variable {F : Type}

/-- A grant that is one to this user: to everyone, to the user or to a group of the user. -/
def AccessGrant.isTo (grant : AccessGrant) (user_id : PyStr) (user_group_ids : List PyStr) : Bool :=
  match grant.principalType with
  | .user => grant.principalId = py "*" || grant.principalId = user_id
  | .group => grant.principalId ∈ user_group_ids
  | .anyone => false

namespace State

variable (s : State F)

/-- `AccessGrants.has_access` -/
def hasAccess (user_id : PyStr) (resource_type : ResourceType) (resource_id : PyStr)
    (permission : Permission) : Bool :=
  s.accessGrants.any fun grant ↦ grant.resourceType = resource_type && grant.resourceId = resource_id &&
    grant.permission = permission && grant.isTo user_id (s.groups user_id)

/-- `AccessGrants.get_accessible_resource_ids` -/
def getAccessibleResourceIds (user_id : PyStr) (resource_type : ResourceType) (resource_ids : List PyStr)
    (permission : Permission) : List PyStr :=
  resource_ids.filter fun id ↦ s.hasAccess user_id resource_type id permission

/-- A knowledge base that gives the user this access to a file of `owner`. -/
def knowledgeConfers (owner : PyStr) (access_type : Permission) (user : User)
    (knowledge_base : PyStr × KnowledgeBase F) : Bool :=
  (knowledge_base.2.userId = user.id ||
    s.hasAccess user.id .knowledge knowledge_base.1 access_type) &&
  (access_type = .read || knowledge_base.2.userId = owner)

/-- The knowledge base that a file's own metadata names. -/
def knowledgeOfMeta (file : File F) : Option (PyStr × KnowledgeBase F) :=
  match column file.metadata (py "collection_name") with
  | some (.str knowledge_base_id) =>
    if knowledge_base_id = [] then none
    else (s.knowledges.get? knowledge_base_id).map fun knowledge ↦ (knowledge_base_id, knowledge)
  | _ => none

def hasAccessToFile (file_id : PyStr) (access_type : Permission) (user : User) : Bool :=
  match s.files.get? file_id with
  | none => false
  | some file =>
    -- Direct ownership
    if file.userId = user.id then true
    else if (s.getKnowledgesByFileId file_id).any (s.knowledgeConfers file.userId access_type user) then true
    else if (s.knowledgeOfMeta file).any (s.knowledgeConfers file.userId access_type user) then true
    else if access_type = .read && s.inChannel file_id user.id then true
    else if access_type = .read && !(s.getAccessibleResourceIds user.id .sharedChat
        (s.sharedChats file_id) .read).isEmpty then true
    else
      let model_owners := s.getModelOwnersAttachingFile file_id
      let model_owners := if access_type ≠ .read then model_owners.filter (·.2 = file.userId)
        else model_owners
      if user.id ∈ model_owners.map Prod.snd then true
      else !(s.getAccessibleResourceIds user.id .model (model_owners.map Prod.fst) access_type).isEmpty

/-- `Knowledges.check_access_by_user_id` -/
def checkAccessByUserId (id user_id : PyStr) (permission : Permission) : Bool :=
  match s.knowledges.get? id with
  | none => false
  | some knowledge => knowledge.userId = user_id || s.hasAccess user_id .knowledge id permission

/-- What the routes of a knowledge base ask first, `_verify_knowledge_write_access` among them. -/
def verifyKnowledgeWriteAccess (id : PyStr) (user : User) : Bool :=
  match s.knowledges.get? id with
  | none => false
  | some knowledge => !isExternalKnowledge knowledge &&
    (knowledge.userId = user.id || s.hasAccess user.id .knowledge id .write || user.admin)

end State

/-! ## Names of collections -/

/-- A letter, a digit, `_` or `-`. -/
def safeChar (c : CodePoint) : Bool :=
  (48 ≤ c.val && c.val ≤ 57) || (65 ≤ c.val && c.val ≤ 90) || (97 ≤ c.val && c.val ≤ 122) ||
    c.val = 95 || c.val = 45

/-- `^[A-Za-z0-9_-]{1,255}$`, whose `$` also stands before a line break at the end. -/
def isSafeCollectionName (name : PyStr) : Bool :=
  let body := if name.getLast? = some 10 then name.dropLast else name
  body.all safeChar && 1 ≤ body.length && body.length ≤ 255

/-- `filter_accessible_collections` on one name. -/
def State.accessibleCollection (s : State F) (unscoped : Bool) (user : User) (access_type : Permission)
    (name : PyStr) : Bool :=
  if !isSafeCollectionName name then false
  else if user.admin then true
  else if name = py "knowledge-bases" then false
  else if (py "file-").isPrefixOf name then
    s.hasAccessToFile (name.drop (py "file-").length) access_type user
  else if (py "user-memory-").isPrefixOf name then name = py "user-memory-" ++ user.id
  else if (py "web-search-").isPrefixOf name then
    (py "web-search-" ++ user.id ++ py "-").isPrefixOf name
  else s.checkAccessByUserId name user.id access_type ||
    (unscoped && (s.knowledges.get? name).isNone)

end FourCE.Knowledge
