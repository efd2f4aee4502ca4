import FourCE.Library.Keyed
import FourCE.Python.Dict

/-!
# The tables behind knowledge bases

Files, knowledge bases, their directories and what is placed in them, as `models/files.py`,
`models/knowledge.py`, `models/models.py` and `models/access_grants.py` keep them.  A row has the columns
that access to a file or the shape of a knowledge base depends on.  What the tables of channels and of
chats say is given as it is asked.
-/

namespace FourCE.Knowledge

open FourCE.Library FourCE.Python

variable {F : Type}

structure User where
  id : PyStr
  /-- `user.role == 'admin'` -/
  admin : Bool
  deriving DecidableEq

structure File (F : Type) where
  userId : PyStr
  filename : PyStr
  hash : Option PyStr
  data : Option (Dict F)
  metadata : Option (Dict F)

structure KnowledgeBase (F : Type) where
  userId : PyStr
  metadata : Option (Dict F)

structure Directory where
  knowledgeId : PyStr
  parentId : Option PyStr
  name : PyStr
  userId : PyStr
  deriving DecidableEq

/-- A file placed in a knowledge base; which of each is the key of the row. -/
structure KnowledgeFile where
  directoryId : Option PyStr
  userId : PyStr
  deriving DecidableEq

/-- A workspace model with the entries of `meta['knowledge']`. -/
structure Model (F : Type) where
  userId : PyStr
  baseModelId : Option PyStr
  knowledge : List (Json F)

inductive Permission
  | read
  | write
  deriving DecidableEq

inductive PrincipalType
  | user
  | group
  | anyone
  deriving DecidableEq

inductive ResourceType
  | knowledge
  | model
  | sharedChat
  | other (name : PyStr)
  deriving DecidableEq

structure AccessGrant where
  resourceType : ResourceType
  resourceId : PyStr
  principalType : PrincipalType
  principalId : PyStr
  permission : Permission
  deriving DecidableEq

structure State (F : Type) where
  files : Keyed PyStr (File F)
  knowledges : Keyed PyStr (KnowledgeBase F)
  directories : Keyed PyStr Directory
  knowledgeFiles : Keyed (PyStr × PyStr) KnowledgeFile
  models : Keyed PyStr (Model F)
  accessGrants : List AccessGrant
  /-- The groups a user is a member of. -/
  groups : PyStr → List PyStr
  /-- Whether a file lies in a channel that a user may see. -/
  inChannel : PyStr → PyStr → Bool
  /-- The shared chats a file lies in. -/
  sharedChats : PyStr → List PyStr

/-- The truth of a text or of none. -/
def truthy (s : Option PyStr) : Bool := s.any (· ≠ [])

/-- The column of a dictionary or of none: `(d or {}).get(key)`. -/
def column (d : Option (Dict F)) (key : PyStr) : Option (Json F) := d.bind fun d ↦ dictGet d key

/-- `{**(d or {}), **e}` -/
def merged (d : Option (Dict F)) (e : Dict F) : Option (Dict F) := some (dictUpdate (d.getD []) e)

def isExternalKnowledge (knowledge : KnowledgeBase F) : Bool :=
  match column knowledge.metadata (py "source") with
  | some (.str source) => source = py "external"
  | _ => false

/-! ## Queries -/

namespace State

variable (s : State F)

def getKnowledgesByFileId (file_id : PyStr) : List (PyStr × KnowledgeBase F) :=
  s.knowledges.entries.filter fun k ↦ (s.knowledgeFiles.get? (k.1, file_id)).isSome

def hasFile (knowledge_id file_id : PyStr) : Bool :=
  (s.knowledgeFiles.get? (knowledge_id, file_id)).isSome

def getFileByIdAndUserId (id user_id : PyStr) : Option (File F) :=
  (s.files.get? id).filter fun file ↦ file.userId = user_id

def getFilesByIds (ids : List PyStr) : List (PyStr × File F) :=
  s.files.entries.filter fun file ↦ file.1 ∈ ids

/-- An entry of a model's knowledge that is this file. -/
def attaches (file_id : PyStr) : Json F → Bool
  | .obj item => match dictGet item (py "type"), dictGet item (py "id") with
    | some (.str kind), some (.str id) => kind = py "file" && id = file_id
    | _, _ => false
  | _ => false

/-- The workspace models that attach the file, with their owners. -/
def getModelOwnersAttachingFile (file_id : PyStr) : List (PyStr × PyStr) :=
  (s.models.entries.filter fun m ↦ m.2.baseModelId.isSome && m.2.knowledge.any (attaches file_id)).map
    fun m ↦ (m.1, m.2.userId)

end State

end FourCE.Knowledge
