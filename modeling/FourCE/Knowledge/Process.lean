import FourCE.Knowledge.Access
import FourCE.Python.Object

/-!
# Creating knowledge bases and filling them

The requests with which a user creates a knowledge base (`create_new_knowledge`) and puts files into one
(`add_file_to_knowledge_by_id`, `add_files_to_knowledge_batch`), with the processing of a file that goes
before (`process_file`, `process_files_batch`).  The second component of what a request leaves is whether
it answered without an error.
-/

namespace FourCE.Knowledge

open FourCE.Library FourCE.Python

/-- What a request may ask of the database. -/
inductive Write
  | insertKnowledge (id : PyStr)
  | setAccessGrants (id : PyStr)
  | insertKnowledgeFile (knowledge_id file_id : PyStr)
  | removeKnowledgeFile (knowledge_id file_id : PyStr)
  | moveKnowledgeFile (knowledge_id file_id : PyStr)
  | fileContent (id : PyStr)
  | fileMetadata (id : PyStr)
  | fileStatus (id : PyStr)
  | fileHash (id : PyStr)
  | deleteFile (id : PyStr)
  | insertDirectory (id : PyStr)
  | moveDirectory (id : PyStr)
  | renameDirectory (id : PyStr)
  | deleteDirectory (id : PyStr)
  deriving DecidableEq

/-- What stands around the tables during one request. -/
structure Services where
  /-- Whether the database carries a write out. -/
  accepts : Write → Bool
  /-- Whether it also acts on the references of `knowledge_file`: `SET NULL` on a directory that goes,
  `CASCADE` on a file that goes. -/
  enforces : Bool
  /-- `uuid.uuid4()` -/
  uuid : PyStr
  uuid_ne_nil : uuid ≠ []
  /-- How many calls may stand within each other before one raises. -/
  recursionLimit : ℕ
  /-- `has_permission` of the user on a key. -/
  hasPermission : PyStr → Bool
  /-- `BYPASS_EMBEDDING_AND_RETRIEVAL` -/
  bypassEmbedding : Bool
  /-- `ENABLE_RETRIEVAL_UNSCOPED_COLLECTIONS` -/
  unscopedCollections : Bool
  /-- `ENABLE_KNOWLEDGE_FILE_RETENTION` -/
  fileRetention : Bool
  /-- Whether the vector database has chunks of a file. -/
  hasVectorResults : PyStr → Bool
  /-- `save_docs_to_vector_db` into a collection, which may raise. -/
  saveDocs : PyStr → Option Bool
  /-- `calculate_sha256_string`, which raises on a text that cannot be encoded. -/
  sha256 : PyStr → Option PyStr
  /-- The text of what was raised. -/
  error : PyStr

/-- Services of which none fails. -/
def openServices (uuid : PyStr) (uuid_ne_nil : uuid ≠ []) : Services where
  accepts _ := true
  enforces := true
  uuid := uuid
  uuid_ne_nil := uuid_ne_nil
  recursionLimit := 1000
  hasPermission _ := true
  bypassEmbedding := false
  unscopedCollections := false
  fileRetention := false
  hasVectorResults _ := true
  saveDocs _ := some true
  sha256 := some
  error := []

variable {F : Type} (services : Services)

/-! ## Rows -/

namespace State

variable (s : State F)

/-- A row of a file rewritten, if the database takes it. -/
def updateFile (write : Write) (id : PyStr) (f : File F → File F) : State F :=
  if services.accepts write then { s with files := s.files.modify id f } else s

def updateFileContent (id : PyStr) (content : Json F) : State F :=
  s.updateFile services (.fileContent id) id fun file ↦
    { file with data := merged file.data [(py "content", content)] }

def updateFileMetadata (id collection_name : PyStr) : State F :=
  s.updateFile services (.fileMetadata id) id fun file ↦
    { file with metadata := merged file.metadata [(py "collection_name", .str collection_name)] }

def updateFileStatus (id : PyStr) (status : PyStr) (error : Json F) : State F :=
  s.updateFile services (.fileStatus id) id fun file ↦
    { file with data := merged file.data [(py "status", .str status), (py "error", error)] }

def updateFileHash (id : PyStr) (hash : Option PyStr) : State F :=
  s.updateFile services (.fileHash id) id fun file ↦ { file with hash := hash }

/-- `Knowledges.add_file_to_knowledge_by_id`: a file is in a knowledge base at most once. -/
def addKnowledgeFile (knowledge_id file_id user_id : PyStr) (directory_id : Option PyStr) : State F :=
  if services.accepts (.insertKnowledgeFile knowledge_id file_id) && !s.hasFile knowledge_id file_id then
    { s with knowledgeFiles := s.knowledgeFiles.set (knowledge_id, file_id) ⟨directory_id, user_id⟩ }
  else s

end State

/-! ## Creating a knowledge base -/

/-- A grant as a form has it, each part a text the code knows or not. -/
structure GrantForm where
  principalType : Option PrincipalType
  principalId : Option PyStr
  permission : Option Permission
  deriving DecidableEq

/-- A grant of a form that is one; `anyone` may only read. -/
def GrantForm.normalize (grant : GrantForm) : Option (PrincipalType × PyStr × Permission) :=
  match grant.principalType, grant.permission, grant.principalId with
  | some principal_type, some permission, some principal_id =>
    if principal_id = [] then none
    else if principal_type = .anyone && (principal_id ≠ py "*" || permission ≠ .read) then none
    else some (principal_type, principal_id, permission)
  | _, _, _ => none

def normalizeAccessGrants (access_grants : List GrantForm) : List (PrincipalType × PyStr × Permission) :=
  (access_grants.filterMap GrantForm.normalize).eraseDups

/-- `filter_allowed_access_grants`, for a resource without a permission for `anyone`. -/
def filterAllowedAccessGrants (user : User) (access_grants : List GrantForm) (public_permission_key : PyStr) :
    List GrantForm :=
  let access_grants :=
    if (normalizeAccessGrants access_grants).any (· = (.anyone, py "*", .read)) then
      access_grants.filter (·.principalType ≠ some .anyone)
    else access_grants
  if user.admin then access_grants
  else
    let access_grants :=
      if (normalizeAccessGrants access_grants).any (fun g ↦ g.1 = .user && g.2.1 = py "*") &&
          !services.hasPermission public_permission_key then
        access_grants.filter fun g ↦ !(g.principalType = some .user && g.principalId = some (py "*"))
      else access_grants
    let access_grants :=
      if (normalizeAccessGrants access_grants).any (fun g ↦ g.1 = .user && g.2.1 ≠ py "*") &&
          !services.hasPermission (py "access_grants.allow_users") then
        access_grants.filter fun g ↦ !(g.principalType = some .user && g.principalId ≠ some (py "*"))
      else access_grants
    if access_grants.any (·.principalType = some .group) &&
        !services.hasPermission (py "access_grants.allow_groups") then
      access_grants.filter (·.principalType ≠ some .group)
    else access_grants

/-- `AccessGrants.set_access_grants`: the grants of a resource are replaced. -/
def setAccessGrants (s : State F) (resource_type : ResourceType) (resource_id : PyStr)
    (access_grants : List GrantForm) : State F :=
  { s with accessGrants :=
      s.accessGrants.filter (fun g ↦ !(g.resourceType = resource_type && g.resourceId = resource_id)) ++
      (normalizeAccessGrants access_grants).map fun g ↦ ⟨resource_type, resource_id, g.1, g.2.1, g.2.2⟩ }

/-- `Knowledges.insert_new_knowledge`; the row stays where its grants are refused. -/
def insertNewKnowledge (s : State F) (user_id : PyStr) (access_grants : List GrantForm) : State F × Bool :=
  if services.accepts (.insertKnowledge services.uuid) && services.uuid ∉ s.knowledges.keys then
    let s := { s with knowledges := s.knowledges.set services.uuid ⟨user_id, none⟩ }
    if services.accepts (.setAccessGrants services.uuid) then
      (setAccessGrants s .knowledge services.uuid access_grants, true)
    else (s, false)
  else (s, false)

def createNewKnowledge (s : State F) (user : User) (access_grants : List GrantForm) : State F × Bool :=
  if !user.admin && !services.hasPermission (py "workspace.knowledge") then (s, false)
  else
    let access_grants :=
      filterAllowedAccessGrants services user access_grants (py "sharing.public_knowledge")
    insertNewKnowledge services s user.id access_grants

/-! ## Processing files -/

/-- What `process_file` does with what it catches. -/
def processFailed (s : State F) (id : PyStr) : State F × Bool :=
  ((s.updateFileStatus services id (py "failed") (.str services.error)).updateFileHash services id none,
    false)

section

variable {services} {s s' s'' : State F}

/-- Only files for which `P` holds are rewritten, and none gets another owner. -/
structure Rewrites (P : PyStr → Prop) (s s' : State F) : Prop where
  rest : ∃ files, s' = { s with files := files }
  frame : ∀ id, ¬ P id → s'.files.get? id = s.files.get? id
  owner : ∀ id, (s'.files.get? id).map File.userId = (s.files.get? id).map File.userId

namespace Rewrites

variable {P Q : PyStr → Prop}

theorem refl (P : PyStr → Prop) (s : State F) : Rewrites P s s :=
  ⟨⟨s.files, rfl⟩, fun _ _ ↦ rfl, fun _ ↦ rfl⟩

theorem trans (h : Rewrites P s s') (h' : Rewrites P s' s'') : Rewrites P s s'' where
  rest := by
    obtain ⟨files, hfiles⟩ := h.rest
    obtain ⟨files', hfiles'⟩ := h'.rest
    exact ⟨files', by rw [hfiles', hfiles]⟩
  frame id hid := (h'.frame id hid).trans (h.frame id hid)
  owner id := (h'.owner id).trans (h.owner id)

theorem mono (h : Rewrites P s s') (hPQ : ∀ id, P id → Q id) : Rewrites Q s s' :=
  ⟨h.rest, fun id hid ↦ h.frame id fun hP ↦ hid (hPQ id hP), h.owner⟩

theorem isSome (h : Rewrites P s s') (id : PyStr) : (s'.files.get? id).isSome = (s.files.get? id).isSome := by
  have howner := congrArg Option.isSome (h.owner id)
  rwa [Option.isSome_map, Option.isSome_map] at howner

end Rewrites

theorem rewrites_updateFile (write : Write) (id : PyStr) {f : File F → File F}
    (hf : ∀ file, (f file).userId = file.userId) :
    Rewrites (· = id) s (s.updateFile services write id f) := by
  unfold State.updateFile
  split_ifs
  · refine ⟨⟨_, rfl⟩, fun id' hid ↦ ?_, fun id' ↦ ?_⟩
    · rw [Keyed.get?_modify, if_neg hid]
    · rw [Keyed.get?_modify]
      split_ifs
      · rw [Option.map_map]
        exact congrArg (Option.map · _) (funext hf)
      · rfl
  · exact .refl _ _

theorem rewrites_updateFileStatus (id status : PyStr) (error : Json F) :
    Rewrites (· = id) s (s.updateFileStatus services id status error) :=
  rewrites_updateFile _ id fun _ ↦ rfl

theorem rewrites_updateFileMetadata (id collection_name : PyStr) :
    Rewrites (· = id) s (s.updateFileMetadata services id collection_name) :=
  rewrites_updateFile _ id fun _ ↦ rfl

theorem rewrites_updateFileHash (id : PyStr) (hash : Option PyStr) :
    Rewrites (· = id) s (s.updateFileHash services id hash) :=
  rewrites_updateFile _ id fun _ ↦ rfl

theorem rewrites_processFailed (id : PyStr) : Rewrites (· = id) s (processFailed services s id).1 :=
  (rewrites_updateFileStatus id _ _).trans (rewrites_updateFileHash id none)

end

/-- Every collection takes the documents; what the last one answers counts. -/
def savedInto (collection_names : List PyStr) : Bool :=
  collection_names.all (fun name ↦ (services.saveDocs name).isSome) &&
    (collection_names.getLast?.map fun name ↦ (services.saveDocs name).getD false).getD true

/-- The text of a file may be stored with its chunks missing: then it needs a text and metadata. -/
def storedDocument (file : File F) : Bool :=
  match column file.data (py "content"), file.metadata with
  | some (.str _), some _ => true
  | _, _ => false

variable [Runtime F]

/-- `stored_content or ''` -/
def textContent (file : File F) : Json F :=
  match column file.data (py "content") with
  | some content => if content.truth then content else .str []
  | none => .str []

def sha256OfJson : Json F → Option PyStr
  | .str text => services.sha256 text
  | _ => none

/-- The file that `process_file` takes: for anyone but an administrator it must be their own. -/
def State.fileToProcess (s : State F) (user : User) (file_id : PyStr) : Option (File F) :=
  if user.admin then s.files.get? file_id else s.getFileByIdAndUserId file_id user.id

/-- `process_file` for a file that goes into a collection. -/
def processFile (s : State F) (user : User) (file_id collection_name : PyStr) : State F × Bool :=
  match s.fileToProcess user file_id with
  | none => (s, false)
  | some file =>
    if !s.accessibleCollection services.unscopedCollections user .write collection_name then
      processFailed services s file_id
    else
      let chunked := services.hasVectorResults file_id
      let collection_names := if chunked then [collection_name] else [collection_name, py "file-" ++ file_id]
      if !chunked && !storedDocument file then processFailed services s file_id
      else
        let text_content := textContent file
        let s := s.updateFileContent services file_id text_content
        match sha256OfJson services text_content with
        | none => processFailed services s file_id
        | some hash =>
          if services.bypassEmbedding then
            ((s.updateFileStatus services file_id (py "completed") .null).updateFileHash services file_id
              (some hash), true)
          else if savedInto services collection_names then
            let s := s.updateFileMetadata services file_id collection_name
            ((s.updateFileStatus services file_id (py "completed") .null).updateFileHash services file_id
              (some hash), true)
          else processFailed services s file_id

/-- A file of a batch: whether there is a document of it, and what to write if it is prepared. -/
def prepareFile (s : State F) (user : User) (file : PyStr × File F) : Bool × Option (PyStr × PyStr × PyStr) :=
  match s.files.get? file.1 with
  | none => (false, none)
  | some db_file =>
    if db_file.userId ≠ user.id && !user.admin then (false, none)
    else match file.2.data, file.2.metadata with
    | some data, some _ =>
      match (dictGet data (py "content")).getD (.str []) with
      | .str text_content =>
        (true, (services.sha256 text_content).map fun hash ↦ (file.1, hash, text_content))
      | _ => (false, none)
    | _, _ => (false, none)

/-- `Files.update_file_by_id` with a hash and a content. -/
def updatePrepared (s : State F) (update : PyStr × PyStr × PyStr) : State F :=
  s.updateFile services (.fileContent update.1) update.1 fun file ↦
    { file with hash := some update.2.1, data := merged file.data [(py "content", .str update.2.2)] }

/-- `process_files_batch`: the files that are completed, unless it raises. -/
def processFilesBatch (s : State F) (user : User) (files : List (PyStr × File F))
    (collection_name : PyStr) : Option (State F × List PyStr) :=
  if collection_name ≠ [] &&
      !s.accessibleCollection services.unscopedCollections user .write collection_name then none
  else
    let prepared := files.map (prepareFile services s user)
    let updates := prepared.filterMap Prod.snd
    if prepared.any Prod.fst && (services.saveDocs collection_name).isSome then
      some (updates.foldl (updatePrepared services) s, updates.map Prod.fst)
    else some (s, [])

section

variable {services} {s s' s'' : State F}

/-- Whose files processing rewrites. -/
def mayProcess (s : State F) (user : User) (id : PyStr) : Prop :=
  user.admin = true ∨ (s.files.get? id).map File.userId = some user.id

theorem prepareFile_mayProcess {user : User} {file : PyStr × File F} {update : PyStr × PyStr × PyStr}
    (h : (prepareFile services s user file).2 = some update) : mayProcess s user update.1 := by
  unfold prepareFile at h
  split at h
  · cases h
  next db_file hdb =>
  split at h
  · cases h
  next howner =>
  split at h
  · split at h
    · obtain ⟨hash, -, rfl⟩ := Option.map_eq_some_iff.mp h
      rw [Bool.and_eq_true, not_and_or] at howner
      unfold mayProcess
      rw [hdb]
      rcases howner with howner | hadmin
      · exact Or.inr (by simpa using howner)
      · exact Or.inl (by simpa using hadmin)
    · cases h
  · cases h

theorem rewrites_updatePrepared {P : PyStr → Prop} {updates : List (PyStr × PyStr × PyStr)}
    (hupdates : ∀ update ∈ updates, P update.1) (s : State F) :
    Rewrites P s (updates.foldl (updatePrepared services) s) := by
  induction updates generalizing s with
  | nil => exact .refl P s
  | cons update updates ih =>
    have hfirst : Rewrites (· = update.1) s (updatePrepared services s update) :=
      rewrites_updateFile _ update.1 fun _ ↦ rfl
    refine (hfirst.mono fun id hid ↦ ?_).trans (ih (fun u hu ↦ hupdates u (List.mem_cons_of_mem _ hu)) _)
    rw [hid]
    exact hupdates update List.mem_cons_self

/-- A batch rewrites and completes files that the user may process. -/
theorem processFilesBatch_spec {user : User} {files : List (PyStr × File F)} {collection_name : PyStr}
    {successful : List PyStr}
    (h : processFilesBatch services s user files collection_name = some (s', successful)) :
    Rewrites (mayProcess s user) s s' ∧ ∀ id ∈ successful, mayProcess s user id := by
  unfold processFilesBatch at h
  have hall : ∀ update ∈ (files.map (prepareFile services s user)).filterMap Prod.snd,
      mayProcess s user update.1 := by
    intro update hupdate
    obtain ⟨prepared, hprepared, hsnd⟩ := List.mem_filterMap.mp hupdate
    obtain ⟨file, -, rfl⟩ := List.mem_map.mp hprepared
    exact prepareFile_mayProcess hsnd
  split at h
  · cases h
  dsimp only at h
  split at h
  · cases h
    refine ⟨rewrites_updatePrepared hall s, fun id hid ↦ ?_⟩
    obtain ⟨update, hupdate, rfl⟩ := List.mem_map.mp hid
    exact hall update hupdate
  · cases h
    exact ⟨.refl _ s, nofun⟩

theorem rewrites_processFile (user : User) (file_id collection_name : PyStr) :
    Rewrites (fun id ↦ id = file_id ∧ mayProcess s user id) s
      (processFile services s user file_id collection_name).1 := by
  unfold processFile
  split
  · exact .refl _ _
  · next file hfile =>
    have hmay : mayProcess s user file_id := by
      unfold State.fileToProcess at hfile
      split_ifs at hfile with hadmin
      · exact Or.inl hadmin
      · unfold State.getFileByIdAndUserId at hfile
        obtain ⟨hget, howner⟩ := Option.filter_eq_some_iff.mp hfile
        refine Or.inr ?_
        rw [hget]
        simpa using howner
    suffices h : Rewrites (· = file_id) s _ from h.mono fun id hid ↦ ⟨hid, hid ▸ hmay⟩
    have hcontent : Rewrites (· = file_id) s (s.updateFileContent services file_id (textContent file)) :=
      rewrites_updateFile _ file_id fun _ ↦ rfl
    dsimp only
    generalize (if services.hasVectorResults file_id = true then [collection_name]
      else [collection_name, py "file-" ++ file_id]) = collection_names
    split
    · exact rewrites_processFailed file_id
    split
    · exact rewrites_processFailed file_id
    split
    · exact hcontent.trans (rewrites_processFailed file_id)
    split
    · exact (hcontent.trans (rewrites_updateFileStatus file_id _ _)).trans
        (rewrites_updateFileHash file_id _)
    split
    · exact ((hcontent.trans (rewrites_updateFileMetadata file_id _)).trans
        (rewrites_updateFileStatus file_id _ _)).trans (rewrites_updateFileHash file_id _)
    · exact hcontent.trans (rewrites_processFailed file_id)

end

/-! ## Adding files -/

/-- The gate to a file that a request wants to put into a knowledge base. -/
def mayReadFile (s : State F) (user : User) (file_id : PyStr) (file : File F) : Bool :=
  file.userId = user.id || user.admin || s.hasAccessToFile file_id .read user

structure KnowledgeFileIdForm where
  fileId : PyStr
  directoryId : Option PyStr
  deriving DecidableEq

def addFileToKnowledgeById (s : State F) (user : User) (id : PyStr) (form_data : KnowledgeFileIdForm) :
    State F × Bool :=
  if !s.verifyKnowledgeWriteAccess id user then (s, false)
  else match s.files.get? form_data.fileId with
  | none => (s, false)
  | some file =>
    if file.data.getD [] = [] then (s, false)
    else if !mayReadFile s user form_data.fileId file then (s, false)
    else
      let processed := processFile services s user form_data.fileId id
      if processed.2 then
        (processed.1.addKnowledgeFile services id form_data.fileId user.id form_data.directoryId, true)
      else (processed.1, false)

/-- `dir_map.get(file_id)`: the last form of a file has the say. -/
def directoryOf (new_entries : List KnowledgeFileIdForm) (file_id : PyStr) : Option PyStr :=
  (new_entries.reverse.find? (·.fileId = file_id)).bind KnowledgeFileIdForm.directoryId

def addFilesToKnowledgeBatch (s : State F) (user : User) (id : PyStr)
    (form_data : List KnowledgeFileIdForm) : State F × Bool :=
  if !s.verifyKnowledgeWriteAccess id user then (s, false)
  else
    let file_ids := form_data.map KnowledgeFileIdForm.fileId
    let files := s.getFilesByIds file_ids
    if file_ids.any (· ∉ files.map Prod.fst) then (s, false)
    else if files.any fun file ↦ !mayReadFile s user file.1 file.2 then (s, false)
    else
      -- Files already in this knowledge base are left alone.
      let new_entries := form_data.filter fun form ↦ !s.hasFile id form.fileId
      if new_entries = [] then (s, true)
      else
        let files := files.filter fun file ↦ file.1 ∈ new_entries.map KnowledgeFileIdForm.fileId
        match processFilesBatch services s user files id with
        | none => (s, false)
        | some (s, successful) =>
          (successful.foldl (fun s file_id ↦
            s.addKnowledgeFile services id file_id user.id (directoryOf new_entries file_id)) s, true)

end FourCE.Knowledge
