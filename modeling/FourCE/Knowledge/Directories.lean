import FourCE.Knowledge.Process

/-!
# Directories of a knowledge base

The directory operations of `models/knowledge.py` and the routes over them: creating, moving, renaming
and deleting directories, moving a file, and the cleanup before a sync.
-/

namespace FourCE.Knowledge

open FourCE.Library FourCE.Python

variable {F : Type} (services : Services)

namespace State

variable (s : State F)

/-! ## Directory rows -/

/-- The parent of a directory, of an id that may name none. -/
def parentOf (id : PyStr) : Option PyStr := (s.directories.get? id).bind Directory.parentId

/-- Another directory has the name under the same parent; the constraint does not see the root. -/
def nameTaken (directory : Directory) : Bool :=
  directory.parentId.isSome && s.directories.entries.any fun d ↦
    d.2.knowledgeId = directory.knowledgeId && d.2.parentId = directory.parentId &&
      d.2.name = directory.name

def createDirectory (directory : Directory) : Option (State F) :=
  if services.accepts (.insertDirectory services.uuid) && services.uuid ∉ s.directories.keys &&
      !s.nameTaken directory then
    some { s with directories := s.directories.set services.uuid directory }
  else none

/-- The walk up from a new parent: whether it comes to the directory that is moved. -/
def walkMeets (directory_id : PyStr) : ℕ → Option PyStr → List PyStr → Bool
  | 0, _, _ => false
  | n + 1, current, seen =>
    match current with
    | none => false
    | some current =>
      if current = [] || current ∈ seen then false
      else if current = directory_id then true
      else walkMeets directory_id n (s.parentOf current) (current :: seen)

/-- Every step but the last is from a directory that was not seen, so the walk has an end. -/
def wouldCycle (directory_id : PyStr) (new_parent_id : Option PyStr) : Bool :=
  s.walkMeets directory_id (s.directories.keys.length + 2) new_parent_id []

def moveDirectory (directory_id : PyStr) (new_parent_id : Option PyStr) : Option (State F) :=
  if s.wouldCycle directory_id new_parent_id then none
  else if services.accepts (.moveDirectory directory_id) then
    some { s with directories := s.directories.modify directory_id fun d ↦
      { d with parentId := new_parent_id } }
  else none

def renameDirectory (directory_id name : PyStr) : Option (State F) :=
  if services.accepts (.renameDirectory directory_id) then
    some { s with directories := s.directories.modify directory_id fun d ↦ { d with name := name } }
  else none

/-- The second half of an update: a new name, if there is one. -/
def renameIfGiven (directory_id : PyStr) (name : Option PyStr) : State F × Bool :=
  match name with
  | none => (s, true)
  | some name => match s.renameDirectory services directory_id name with
    | none => (s, false)
    | some s => (s, true)

/-- `update_directory`: the move stays where the rename is refused. -/
def updateDirectory (directory_id : PyStr) (name parent_id : Option PyStr) : State F × Bool :=
  let moved := if parent_id ≠ some (py "__unset__") then s.moveDirectory services directory_id parent_id
    else some s
  match moved with
  | none => (s, false)
  | some s => s.renameIfGiven services directory_id name

/-! ## Deleting a directory -/

def childIds (directory_id : PyStr) : List PyStr :=
  (s.directories.entries.filter fun d ↦ d.2.parentId = some directory_id).map Prod.fst

/-- The files of one directory are placed in another. -/
def moveFiles (directory_id : PyStr) (target : Option PyStr) : State F :=
  { s with knowledgeFiles := s.knowledgeFiles.map fun _ row ↦
      if row.directoryId = some directory_id then { row with directoryId := target } else row }

/-- The files of one directory are removed. -/
def deleteFiles (directory_id : PyStr) : State F :=
  { s with knowledgeFiles := s.knowledgeFiles.filter fun _ row ↦ row.directoryId ≠ some directory_id }

end State

/-- `_move_files_from_subtree`, of so many calls within each other. -/
def moveFilesFromSubtree (target_directory_id : Option PyStr) : ℕ → State F → PyStr → Option (State F)
  | 0, _, _ => none
  | n + 1, s, directory_id => (s.childIds directory_id).foldlM (fun s child_id ↦
      moveFilesFromSubtree target_directory_id n (s.moveFiles child_id target_directory_id) child_id) s

/-- `_delete_files_in_subtree` -/
def deleteFilesInSubtree : ℕ → State F → PyStr → Option (State F)
  | 0, _, _ => none
  | n + 1, s, directory_id =>
    (s.childIds directory_id).foldlM (fun s child_id ↦ deleteFilesInSubtree n s child_id)
      (s.deleteFiles directory_id)

namespace State

variable (s : State F)

/-- A directory that is the one or lies below it. -/
def liesUnder (directory_id : PyStr) : ℕ → PyStr → Bool
  | 0, id => id = directory_id
  | n + 1, id => id = directory_id || (s.parentOf id).any (liesUnder directory_id n)

/-- The row goes with the rows below it, and what refers to them to no directory. -/
def cascadeDirectory (directory_id : PyStr) : State F :=
  let gone := s.liesUnder directory_id s.directories.keys.length
  { s with
    directories := s.directories.filterKeys fun id ↦ !gone id
    knowledgeFiles := if services.enforces then
        s.knowledgeFiles.map fun _ row ↦
          if row.directoryId.any fun id ↦ id ∈ s.directories.keys && gone id then
            { row with directoryId := none }
          else row
      else s.knowledgeFiles }

/-- `delete_directory`, in one transaction. -/
def deleteDirectory (directory_id : PyStr) (move_files_to_parent : Bool) : State F × Bool :=
  match s.directories.get? directory_id with
  | none => (s, false)
  | some directory =>
    let emptied :=
      if move_files_to_parent then
        moveFilesFromSubtree directory.parentId services.recursionLimit
          (s.moveFiles directory_id directory.parentId) directory_id
      else deleteFilesInSubtree services.recursionLimit s directory_id
    match emptied with
    | none => (s, false)
    | some emptied =>
      if services.accepts (.deleteDirectory directory_id) then
        (emptied.cascadeDirectory services directory_id, true)
      else (s, false)

/-! ## Rows of files -/

def moveFileToDirectory (knowledge_id file_id : PyStr) (directory_id : Option PyStr) : State F × Bool :=
  if services.accepts (.moveKnowledgeFile knowledge_id file_id) then
    ({ s with knowledgeFiles := s.knowledgeFiles.modify (knowledge_id, file_id) fun row ↦
        { row with directoryId := directory_id } }, true)
  else (s, false)

def removeFileFromKnowledgeById (knowledge_id file_id : PyStr) : State F :=
  if services.accepts (.removeKnowledgeFile knowledge_id file_id) then
    { s with knowledgeFiles := s.knowledgeFiles.filterKeys (· ≠ (knowledge_id, file_id)) }
  else s

/-- `delete_file_resource`: the row of the file, and where the database sees to it what refers to it. -/
def deleteFileResource (id : PyStr) : State F :=
  if services.accepts (.deleteFile id) then
    { s with
      files := s.files.filterKeys (· ≠ id)
      knowledgeFiles := if services.enforces then s.knowledgeFiles.filterKeys (·.2 ≠ id)
        else s.knowledgeFiles }
  else s

end State

/-! ## Routes -/

section

variable (s : State F) (user : User) (id : PyStr)

def createKnowledgeDirectory (name : PyStr) (parent_id : Option PyStr) : State F × Bool :=
  if !s.verifyKnowledgeWriteAccess id user then (s, false)
  else match s.createDirectory services ⟨id, parent_id, name, user.id⟩ with
    | none => (s, false)
    | some s => (s, true)

/-- Whether a directory belongs to the knowledge base, as the routes ask. -/
def State.ownsDirectory (directory_id : PyStr) : Bool :=
  (s.directories.get? directory_id).any fun directory ↦ directory.knowledgeId = id

def updateKnowledgeDirectory (dir_id : PyStr) (name parent_id : Option PyStr) : State F × Bool :=
  if !s.verifyKnowledgeWriteAccess id user then (s, false)
  else if !s.ownsDirectory id dir_id then (s, false)
  else s.updateDirectory services dir_id name parent_id

def deleteKnowledgeDirectory (dir_id : PyStr) (move_files : Bool) : State F × Bool :=
  if !s.verifyKnowledgeWriteAccess id user then (s, false)
  else if !s.ownsDirectory id dir_id then (s, false)
  else s.deleteDirectory services dir_id move_files

def moveFileInKnowledge (file_id : PyStr) (directory_id : Option PyStr) : State F × Bool :=
  if !s.verifyKnowledgeWriteAccess id user then (s, false)
  else if !s.hasFile id file_id then (s, false)
  -- If target directory is set, verify it belongs to this knowledge base
  else if truthy directory_id && !directory_id.any (s.ownsDirectory id) then (s, false)
  else s.moveFileToDirectory services id file_id directory_id

/-- One file of a cleanup. -/
def cleanupFile (s : State F) (file_id : PyStr) : State F :=
  match s.files.get? file_id with
  | none => s
  | some file =>
    if !s.hasFile id file_id then s
    else
      let s := s.removeFileFromKnowledgeById services id file_id
      if !services.fileRetention && (s.getKnowledgesByFileId file_id).isEmpty &&
          (file.userId = user.id || user.admin) then
        s.deleteFileResource services file_id
      else s

/-- One directory of a cleanup. -/
def cleanupDirectory (s : State F) (dir_id : PyStr) : State F :=
  if !s.ownsDirectory id dir_id then s
  else (s.deleteDirectory services dir_id false).1

def syncKnowledgeCleanup (file_ids dir_ids : List PyStr) : State F × Bool :=
  if !s.verifyKnowledgeWriteAccess id user then (s, false)
  else
    let s := file_ids.foldl (cleanupFile services user id) s
    (dir_ids.reverse.foldl (cleanupDirectory services id) s, true)

end

end FourCE.Knowledge
