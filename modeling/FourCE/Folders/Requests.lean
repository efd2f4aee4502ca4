import FourCE.Folders.Healing
import FourCE.Folders.Shared
import FourCE.Python.Text

/-!
# Requests to the folders

The requests of `routers/folders.py` that change names and parents, one after another, by owners and by users with
write access.  What the forms hold beside the name and the parent is left out, but for the checks of its files, and so
are chats, events and automations.
-/

namespace FourCE.Folders

open FourCE.Library FourCE.Python Relation

/-- An `HTTPException`, or any other exception. -/
inductive Failure where
  | http (status_code : ℕ) (detail : PyStr)
  | raised
  deriving DecidableEq

def accessProhibited : Failure :=
  .http 403 (py "You do not have permission to access this resource. Please contact your administrator for assistance.")

def notFound : Failure := .http 404 (py "We could not find what you're looking for :/")

def folderExists : Failure := .http 400 (py "[ERROR: Folder already exists]")

def errorCreating : Failure := .http 400 (py "[ERROR: Error creating folder]")

def errorUpdating : Failure := .http 400 (py "[ERROR: Error updating folder]")

def cannotMove : Failure := .http 400 (py "[ERROR: Cannot move a folder into itself or one of its subfolders]")

/-- The user of a request, with the grants at its time and what the checks of permissions say. -/
structure Session where
  user : User
  admin : Bool
  foldersPermission : Bool
  chatDeletePermission : Bool
  grants : List AccessGrant
  now : ℤ

/-- A name and a parent, and how the check of the form's files for a user fails. -/
structure FolderForm where
  name : PyStr
  parentId : Option PyStr
  files : PyStr → Option Failure

/-- A name that may be unset or null, the check of the files, and whether the data or the metadata is null. -/
structure FolderUpdateForm where
  name : Option (Option PyStr)
  files : PyStr → Option Failure
  nullData : Bool

namespace Table

/-- `get_folder_by_id_and_user_id(id, user_id)` -/
def getFolderByIdAndUserId (t : Table) (id user_id : PyStr) : Option Folder :=
  (t.get? id).filter fun folder ↦ folder.userId = user_id && folder.valid

/-- `get_folder_by_parent_id_and_user_id_and_name`, with the database's `lower`. -/
def findByName (lower : PyStr → PyStr) (t : Table) (parent_id : Option PyStr) (user_id name : PyStr) :
    Option (PyStr × Folder) :=
  t.entries.find? fun e ↦ e.2.parentId = parent_id && e.2.userId = user_id && e.2.name.map lower = some (lower name)

/-- `get_folder_ids_by_id_and_user_id_in_subtree(id, user_id)`, which raises where a row makes no model.  The other
option is that it takes too many turns. -/
def getFolderIdsInSubtree (t : Table) (id user_id : PyStr) : Option (Option (List PyStr)) :=
  match (t.get? id).filter (·.userId = user_id) with
  | none => some (some [])
  | some _ => (gather (fun a ↦ (t.childRows (some a) user_id).map Prod.fst) t.keys.length [id] [id]).map fun ids ↦
      if ids.all fun a ↦ (t.get? a).any Folder.valid then some ids else none

/-- `insert_new_folder(user_id, form_data, parent_id)` under a new id. -/
def insertNewFolder (t : Table) (user_id : PyStr) (form : FolderForm) (id : PyStr) (now : ℤ) : Table × Option Folder :=
  if id ∈ t.keys then (t, none)
  else
    let folder : Folder := ⟨form.parentId, user_id, some form.name, now⟩
    (t.set id folder, some folder)

/-- `update_folder_by_id_and_user_id(id, user_id, form_data)` -/
def updateFolder (t : Table) (id user_id : PyStr) (form : FolderUpdateForm) (now : ℤ) : Table × Option Folder :=
  match (t.get? id).filter (·.userId = user_id) with
  | none => (t, none)
  | some folder =>
    let existing := t.entries.find? fun e ↦
      e.2.name = form.name.join && e.2.parentId = folder.parentId && e.2.userId = user_id
    if existing.any (·.1 ≠ id) || form.nullData then (t, none)
    else
      let folder := { folder with name := form.name.getD folder.name, updatedAt := now }
      (t.set id folder, if folder.valid then some folder else none)

def delete (t : Table) (id : PyStr) : Table := t.filterKeys (· ≠ id)

/-- What `delete_children` changes. -/
structure Deleting where
  table : Table
  seenIds : List PyStr
  folderIds : List PyStr

/-- `delete_children(folder)`, for a depth of the interpreter's stack.  Where it raises the rows deleted stay so. -/
def deleteChildren (user_id : PyStr) : ℕ → PyStr → Deleting → Except Table Deleting
  | 0, _, s => .error s.table
  | depth + 1, id, s =>
    match models (s.table.childRows (some id) user_id) with
    | none => .error s.table
    | some children => children.foldlM (fun s child ↦
        if child.1 ∈ s.seenIds then .ok s
        else (deleteChildren user_id depth child.1 { s with seenIds := child.1 :: s.seenIds }).map fun s ↦
          { s with table := s.table.delete child.1, folderIds := s.folderIds ++ [child.1] }) s

/-- `delete_folder_by_id_and_user_id(id, user_id)` -/
def deleteFolder (t : Table) (id user_id : PyStr) (depth : ℕ) : Table × List PyStr :=
  match (t.get? id).filter (·.userId = user_id) with
  | none => (t, [])
  | some _ =>
    match deleteChildren user_id depth id ⟨t, [id], [id]⟩ with
    | .error t => (t, [])
    | .ok s => (s.table.delete id, s.folderIds)

end Table

section Requests

variable (lower : PyStr → PyStr) (s : Session) (t : Table)

/-- Whether an admin or a user with write access asks. -/
def Session.mayWrite (id : PyStr) (folder : Folder) : Bool :=
  s.admin || (hasFolderAccess t s.grants s.user id folder .write).getD false

/-- The checks of `create_folder`, and the user that gets the folder. -/
def createOwner (form : FolderForm) : Except Failure PyStr :=
  if !s.foldersPermission then .error accessProhibited
  else if (t.findByName lower form.parentId s.user.id form.name).isSome then .error folderExists
  else
    let parent := ((form.parentId.filter (· ≠ [])).bind fun parent_id ↦
      (t.getFolderById parent_id).map fun parent ↦ (parent_id, parent)).filter (·.2.userId ≠ s.user.id)
    match parent with
    | some (parent_id, parent) =>
      if !s.mayWrite t parent_id parent then .error accessProhibited
      else match form.files parent.userId with
        | some failure => .error failure
        | none => .ok parent.userId
    | none =>
      match form.files s.user.id with
      | some failure => .error failure
      | none => .ok s.user.id

/-- `create_folder`, which puts a subfolder of another's folder among the other's. -/
def createFolder (form : FolderForm) (id : PyStr) : Table × Except Failure Folder :=
  match createOwner lower s t form with
  | .error failure => (t, .error failure)
  | .ok user_id =>
    let inserted := t.insertNewFolder user_id form id s.now
    (inserted.1, inserted.2.elim (.error errorCreating) .ok)

/-- `update_folder_name_by_id` -/
def updateFolderNameById (id : PyStr) (form : FolderUpdateForm) : Table × Except Failure Folder :=
  if !s.foldersPermission then (t, .error accessProhibited)
  else
    match (t.getFolderByIdAndUserId id s.user.id).or ((t.getFolderById id).filter (s.mayWrite t id ·)) with
    | none => (t, .error notFound)
    | some folder =>
      let existing := form.name.join.bind (t.findByName lower folder.parentId folder.userId)
      if existing.any (·.1 ≠ id) then (t, .error folderExists)
      else match form.files folder.userId with
        | some failure => (t, .error failure)
        | none =>
          let updated := t.updateFolder id folder.userId form s.now
          (updated.1, updated.2.elim (.error errorUpdating) .ok)

/-- `update_folder_parent_id_by_id` -/
def updateFolderParentIdById (id : PyStr) (parent_id : Option PyStr) : Table × Except Failure Folder :=
  if !s.foldersPermission then (t, .error accessProhibited)
  else
    match t.getFolderByIdAndUserId id s.user.id with
    | none => (t, .error notFound)
    | some folder =>
      if (folder.name.bind (t.findByName lower parent_id s.user.id)).isSome then (t, .error folderExists)
      else
        let subtree := if (parent_id.filter (· ≠ [])).isSome then t.getFolderIdsInSubtree id s.user.id else some (some [])
        match subtree.join with
        | none => (t, .error .raised)
        | some ids =>
          if parent_id.any (· ∈ ids) then (t, .error cannotMove)
          else
            let updated := t.updateFolderParentId id s.user.id parent_id s.now
            (updated.1, updated.2.elim (.error errorUpdating) .ok)

/-- `delete_folder_by_id`, where some folders hold chats. -/
def deleteFolderById (id : PyStr) (chats : List PyStr → Bool) (depth : ℕ) : Table × Except Failure Unit :=
  if !s.foldersPermission then (t, .error accessProhibited)
  else
    match (t.getFolderByIdAndUserId id s.user.id).or (t.getFolderById id) with
    | none => (t, .error notFound)
    | some folder =>
      if folder.userId ≠ s.user.id && !s.admin then (t, .error accessProhibited)
      else match (t.getFolderIdsInSubtree id folder.userId).join with
        | none => (t, .error .raised)
        | some folder_ids =>
          if chats folder_ids && !s.admin && !s.chatDeletePermission then (t, .error accessProhibited)
          else
            let deleted := t.deleteFolder id folder.userId depth
            -- the subfolders are asked for once more
            (deleted.1, if (Table.models (deleted.1.childRows (some id) folder.userId)).isSome then .ok () else .error .raised)

/-- The table that `get_folders` leaves. -/
def getFoldersTable : Table :=
  if !s.foldersPermission then t
  else ((t.getFoldersByUserId s.user.id).bind fun folders ↦
    folders.foldlM (heal s.user.id s.now) ⟨parentById folders, t, []⟩).elim t Healing.table

end Requests

/-- A request to the folders. -/
inductive FolderRequest where
  | getFolders
  | createFolder (form : FolderForm) (id : PyStr)
  | updateFolderNameById (id : PyStr) (form : FolderUpdateForm)
  | updateFolderParentIdById (id : PyStr) (parent_id : Option PyStr)
  | deleteFolderById (id : PyStr) (chats : List PyStr → Bool) (depth : ℕ)

/-- The table after a request. -/
def after (lower : PyStr → PyStr) (t : Table) : Session × FolderRequest → Table
  | (s, .getFolders) => getFoldersTable s t
  | (s, .createFolder form id) => (createFolder lower s t form id).1
  | (s, .updateFolderNameById id form) => (updateFolderNameById lower s t id form).1
  | (s, .updateFolderParentIdById id parent_id) => (updateFolderParentIdById lower s t id parent_id).1
  | (s, .deleteFolderById id chats depth) => (deleteFolderById s t id chats depth).1

/-- The table after a run of requests from no folders. -/
def run (lower : PyStr → PyStr) (requests : List (Session × FolderRequest)) : Table :=
  requests.foldl (after lower) .empty

/-! ## What the requests keep -/

/-- Two folders side by side with one name. -/
structure Twin (lower : PyStr → PyStr) (f g : Folder) : Prop where
  owner : f.userId = g.userId
  parent : f.parentId = g.parentId
  name : f.name.map lower = g.name.map lower

/-- Names side by side differ, and no chain of parents cycles. -/
structure Sound (lower : PyStr → PyStr) (t : Table) : Prop where
  apart : ∀ id id' f f', t.get? id = some f → t.get? id' = some f' → Twin lower f f' → id = id'
  acyclic : Acyclic (Leads (up t))

section

variable {lower : PyStr → PyStr} {s : Session} {t : Table}

theorem Twin.symm {f g : Folder} (h : Twin lower f g) : Twin lower g f := ⟨h.owner.symm, h.parent.symm, h.name.symm⟩

theorem leads_up {x y : PyStr} :
    Leads (up t) x y ↔ ∃ f, t.get? x = some f ∧ f.parentId = some y ∧ y ≠ [] ∧ y ∈ t.keys := by
  unfold Leads
  rw [up_eq_some]
  constructor
  · rintro ⟨f, g, hf, hparent, hne, hg⟩
    exact ⟨f, hf, hparent, hne, Keyed.mem_keys.mpr ⟨g, hg⟩⟩
  · rintro ⟨f, hf, hparent, hne, hy⟩
    obtain ⟨g, hg⟩ := Keyed.mem_keys.mp hy
    exact ⟨f, g, hf, hparent, hne, hg⟩

theorem mem_keys_set {id x : PyStr} {f : Folder} : x ∈ (t.set id f).keys ↔ x = id ∨ x ∈ t.keys := by
  rw [Keyed.mem_keys, Keyed.mem_keys]
  simp only [Keyed.get?_set]
  by_cases hx : x = id
  · simp [hx]
  · simp [hx]

theorem apart_set_iff (h : Sound lower t) {id : PyStr} {f : Folder} :
    (∀ a b g g', (t.set id f).get? a = some g → (t.set id f).get? b = some g' → Twin lower g g' → a = b) ↔
      ∀ id' f', id' ≠ id → t.get? id' = some f' → ¬ Twin lower f f' := by
  constructor
  · intro hset id' f' hne hget htwin
    refine hne (hset id id' f f' ?_ ?_ htwin).symm
    · rw [Keyed.get?_set, if_pos rfl]
    · rw [Keyed.get?_set, if_neg hne, hget]
  · intro hfree a b g g' hg hg' htwin
    rw [Keyed.get?_set] at hg hg'
    by_cases ha : a = id <;> by_cases hb : b = id
    · rw [ha, hb]
    · rw [if_pos ha] at hg
      rw [if_neg hb] at hg'
      exact absurd (Option.some.inj hg ▸ htwin) (hfree b g' hb hg')
    · rw [if_neg ha] at hg
      rw [if_pos hb] at hg'
      exact absurd (Option.some.inj hg' ▸ htwin.symm) (hfree a g ha hg)
    · rw [if_neg ha] at hg
      rw [if_neg hb] at hg'
      exact h.apart a b g g' hg hg' htwin

theorem findByName_eq_none {parent_id : Option PyStr} {user_id name : PyStr} :
    t.findByName lower parent_id user_id name = none ↔ ∀ id f, t.get? id = some f → f.parentId = parent_id →
      f.userId = user_id → f.name.map lower ≠ some (lower name) := by
  unfold Table.findByName
  rw [List.find?_eq_none]
  simp only [Bool.and_eq_true, decide_eq_true_eq, not_and, Prod.forall, ← Keyed.get?_eq_some_iff, and_imp]

/-! ### New folders -/

theorem acyclic_insert (h : Acyclic (Leads (up t))) {id : PyStr} {f : Folder} (hrow : id ∉ t.keys)
    (hnamed : ∀ x g, t.get? x = some g → g.parentId ≠ some id) (hown : f.parentId ≠ some id) :
    Acyclic (Leads (up (t.set id f))) := by
  have hold {x y : PyStr} (hne : x ≠ id) (hxy : Leads (up (t.set id f)) x y) : Leads (up t) x y := by
    obtain ⟨g, hg, hparent, hnil, hy⟩ := leads_up.mp hxy
    rw [Keyed.get?_set, if_neg hne] at hg
    refine leads_up.mpr ⟨g, hg, hparent, hnil, (mem_keys_set.mp hy).resolve_left ?_⟩
    exact fun heq ↦ hnamed x g hg (heq ▸ hparent)
  have hfirst {x y : PyStr} (heq : x = id) (hxy : Leads (up (t.set id f)) x y) : f.parentId = some y := by
    obtain ⟨g, hg, hparent, -⟩ := leads_up.mp hxy
    rw [Keyed.get?_set, if_pos heq] at hg
    exact Option.some.inj hg ▸ hparent
  rcases hparent : f.parentId with - | p
  · refine h.shorten fun x y hxy ↦ .single (hold (fun heq ↦ ?_) hxy)
    have hsome := hfirst heq hxy
    rw [hparent] at hsome
    cases hsome
  · have hleaf : Acyclic fun x y ↦ Leads (up t) x y ∨ x = id ∧ y = p := by
      refine h.leaf (fun b hb ↦ ?_) fun hp ↦ hown (hp ▸ hparent)
      obtain ⟨-, -, -, -, hid⟩ := leads_up.mp hb
      exact hrow hid
    refine hleaf.shorten fun x y hxy ↦ .single ?_
    by_cases hx : x = id
    · exact .inr ⟨hx, Option.some.inj ((hfirst hx hxy).symm.trans hparent)⟩
    · exact .inl (hold hx hxy)

/-- A new id, which no row and not the form itself names as a parent. -/
structure NewId (t : Table) (form : FolderForm) (id : PyStr) : Prop where
  row : id ∉ t.keys
  named : ∀ x f, t.get? x = some f → f.parentId ≠ some id
  own : form.parentId ≠ some id

theorem sound_insertNewFolder_iff (h : Sound lower t) {form : FolderForm} {id : PyStr} (hnew : NewId t form id)
    (user_id : PyStr) (now : ℤ) : Sound lower (t.insertNewFolder user_id form id now).1 ↔
      t.findByName lower form.parentId user_id form.name = none := by
  have hfree : (∀ id' f', id' ≠ id → t.get? id' = some f' → ¬ Twin lower ⟨form.parentId, user_id, some form.name, now⟩ f') ↔
      t.findByName lower form.parentId user_id form.name = none := by
    rw [findByName_eq_none]
    constructor
    · intro hfree x f hf hparent huser hname
      refine hfree x f (fun hx ↦ hnew.row (hx ▸ Keyed.mem_keys.mpr ⟨f, hf⟩)) hf ?_
      exact ⟨huser.symm, hparent.symm, hname.symm⟩
    · intro hnone x f _ hf htwin
      exact hnone x f hf htwin.parent.symm htwin.owner.symm htwin.name.symm
  unfold Table.insertNewFolder
  rw [if_neg hnew.row]
  constructor
  · exact fun hsound ↦ hfree.mp ((apart_set_iff h).mp hsound.apart)
  · exact fun hnone ↦ ⟨(apart_set_iff h).mpr (hfree.mpr hnone), acyclic_insert h.acyclic hnew.row hnew.named hnew.own⟩

/-- The caller has no folder of the name there. -/
theorem createOwner_free {form : FolderForm} {owner : PyStr} (h : createOwner lower s t form = .ok owner) :
    t.findByName lower form.parentId s.user.id form.name = none := by
  unfold createOwner at h
  by_cases hpermission : !s.foldersPermission
  · rw [if_pos hpermission] at h
    cases h
  · rw [if_neg hpermission] at h
    by_cases hfound : (t.findByName lower form.parentId s.user.id form.name).isSome
    · rw [if_pos hfound] at h
      cases h
    · exact Option.not_isSome_iff_eq_none.mp hfound

theorem sound_createFolder_iff (h : Sound lower t) {form : FolderForm} {id : PyStr} (hnew : NewId t form id) :
    Sound lower (createFolder lower s t form id).1 ↔ ∀ owner, createOwner lower s t form = .ok owner →
      owner ≠ s.user.id → t.findByName lower form.parentId owner form.name = none := by
  unfold createFolder
  rcases howner : createOwner lower s t form with failure | owner
  · exact iff_of_true h nofun
  · simp only
    rw [sound_insertNewFolder_iff h hnew]
    constructor
    · rintro hnone _ ⟨⟩ -
      exact hnone
    · intro hfree
      by_cases hself : owner = s.user.id
      · rw [hself]
        exact createOwner_free howner
      · exact hfree owner rfl hself

/-! ### New names -/

/-- Where no other row is found first, a row like the ones sought is the only one or the folder is one too. -/
theorem of_find?_any {p : PyStr × Folder → Bool} {id id' : PyStr} {f' : Folder}
    (hfound : (t.entries.find? p).any (·.1 ≠ id) = false) (hget : t.get? id' = some f') (hp : p (id', f') = true) :
    ∃ f, t.get? id = some f ∧ p (id, f) = true := by
  rcases he : t.entries.find? p with - | ⟨a, f⟩
  · exact absurd hp (List.find?_eq_none.mp he (id', f') (Keyed.get?_eq_some_iff.mp hget))
  · rw [he, Option.any_some, decide_eq_false_iff_not, not_not] at hfound
    have ha : a = id := hfound
    subst ha
    exact ⟨f, Keyed.get?_eq_some_iff.mpr (List.mem_of_find?_eq_some he), List.find?_some he⟩

/-- A folder that keeps its owner and its parent keeps the chains of parents. -/
theorem acyclic_set (h : Acyclic (Leads (up t))) {id : PyStr} {f g : Folder} (hf : t.get? id = some f)
    (hparent : g.parentId = f.parentId) : Acyclic (Leads (up (t.set id g))) := by
  refine h.shorten fun x y hxy ↦ .single ?_
  obtain ⟨g', hg', hparent', hnil, hy⟩ := leads_up.mp hxy
  have hy' : y ∈ t.keys := by
    rcases mem_keys_set.mp hy with rfl | hy
    · exact Keyed.mem_keys.mpr ⟨f, hf⟩
    · exact hy
  rw [Keyed.get?_set] at hg'
  by_cases hx : x = id
  · rw [if_pos hx] at hg'
    obtain rfl := Option.some.inj hg'
    exact leads_up.mpr ⟨f, hx ▸ hf, hparent ▸ hparent', hnil, hy'⟩
  · rw [if_neg hx] at hg'
    exact leads_up.mpr ⟨g', hg', hparent', hnil, hy'⟩

/-- A name is changed to one that no other folder beside has, as far as case goes or exactly. -/
theorem sound_updateFolder (h : Sound lower t) {id : PyStr} {folder : Folder} (hfolder : t.get? id = some folder)
    {form : FolderUpdateForm}
    (hfree : (form.name.join.bind (t.findByName lower folder.parentId folder.userId)).any (·.1 ≠ id) = false) (now : ℤ) :
    Sound lower (t.updateFolder id folder.userId form now).1 := by
  unfold Table.updateFolder
  rw [hfolder, Option.filter_some, if_pos (decide_eq_true rfl)]
  simp only
  split
  · exact h
  · next hexact =>
    obtain ⟨hexact, -⟩ := Bool.or_eq_false_iff.mp (eq_false_of_ne_true hexact)
    refine ⟨(apart_set_iff h).mpr fun id' f' hne hget htwin ↦ ?_, acyclic_set h.acyclic hfolder rfl⟩
    have hbeside (hname : folder.name.map lower = f'.name.map lower) : False :=
      hne (h.apart id id' folder f' hfolder hget ⟨htwin.owner, htwin.parent, hname⟩).symm
    have hparent : f'.parentId = folder.parentId := htwin.parent.symm
    have howner : f'.userId = folder.userId := htwin.owner.symm
    rcases hform : form.name with - | - | name
    · refine hbeside ?_
      have hname := htwin.name
      rw [hform] at hname
      exact hname
    · -- null is compared exactly
      have hnull : f'.name = none := by
        have hname := htwin.name
        rw [hform] at hname
        exact Option.map_eq_none_iff.mp hname.symm
      rw [hform] at hexact
      obtain ⟨f, hf, hp⟩ := of_find?_any hexact hget (by simp [hnull, hparent, howner])
      obtain rfl := Option.some.inj (hfolder.symm.trans hf)
      simp only [Option.join_some, Bool.and_eq_true, decide_eq_true_eq] at hp
      exact hbeside (by rw [hp.1.1, hnull])
    · have hname : f'.name.map lower = some (lower name) := by
        have hname := htwin.name
        rw [hform] at hname
        exact hname.symm
      rw [hform, Option.join_some, Option.bind_some] at hfree
      obtain ⟨f, hf, hp⟩ := of_find?_any hfree hget (by simp [hname, hparent, howner])
      obtain rfl := Option.some.inj (hfolder.symm.trans hf)
      simp only [Bool.and_eq_true, decide_eq_true_eq] at hp
      exact hbeside (by rw [hp.2, hname])

theorem sound_updateFolderNameById (h : Sound lower t) (id : PyStr) (form : FolderUpdateForm) :
    Sound lower (updateFolderNameById lower s t id form).1 := by
  unfold updateFolderNameById
  split
  · exact h
  · rcases hrow : (t.getFolderByIdAndUserId id s.user.id).or ((t.getFolderById id).filter (s.mayWrite t id ·)) with - | folder
    · exact h
    · have hfolder : t.get? id = some folder := by
        rcases Option.or_eq_some_iff.mp hrow with hown | ⟨-, hshared⟩
        · exact (Option.filter_eq_some_iff.mp hown).1
        · exact (Option.filter_eq_some_iff.mp (Option.filter_eq_some_iff.mp hshared).1).1
      simp only
      split
      · exact h
      · next hfree =>
        rcases form.files folder.userId with - | failure
        · exact sound_updateFolder h hfolder (eq_false_of_ne_true hfree) s.now
        · exact h

/-! ### New parents -/

theorem leads_move {id x y : PyStr} {g : Folder} (hid : id ∈ t.keys) : Leads (up (t.set id g)) x y ↔
    x ≠ id ∧ Leads (up t) x y ∨ x = id ∧ g.parentId = some y ∧ y ≠ [] ∧ y ∈ t.keys := by
  have hkeys : y ∈ (t.set id g).keys ↔ y ∈ t.keys := by
    rw [mem_keys_set]
    exact or_iff_right_of_imp fun h ↦ h ▸ hid
  rw [leads_up, leads_up, hkeys, Keyed.get?_set]
  by_cases hx : x = id
  · simp [hx]
  · simp [hx]

/-- A folder gets a new parent; it makes a cycle just where the folder is above that parent already. -/
theorem acyclic_move_iff (h : Acyclic (Leads (up t))) {id : PyStr} {g : Folder} (hid : id ∈ t.keys) :
    Acyclic (Leads (up (t.set id g))) ↔ ∀ p, g.parentId = some p → p ≠ [] → ¬ Above t p id := by
  constructor
  · intro hacyclic p hparent hnil habove
    have hp : p ∈ t.keys := by
      rcases ReflTransGen.cases_head habove with rfl | ⟨c, hc, -⟩
      · exact hid
      · obtain ⟨f, hf, -⟩ := leads_up.mp hc
        exact Keyed.mem_keys.mpr ⟨f, hf⟩
    have hway : ReflTransGen (Leads (up (t.set id g))) p id := by
      clear hparent hnil hp
      induction habove using ReflTransGen.head_induction_on with
      | refl => exact .refl
      | @head a c hac _ ih =>
        by_cases ha : a = id
        · rw [ha]
        · exact .head ((leads_move hid).mpr (.inl ⟨ha, hac⟩)) ih
    exact hacyclic id (.head' ((leads_move hid).mpr (.inr ⟨rfl, hparent, hnil, hp⟩)) hway)
  · intro hfree
    by_cases hlink : ∃ p, g.parentId = some p ∧ p ≠ []
    · obtain ⟨p, hparent, hnil⟩ := hlink
      refine (h.redirect (hfree p hparent hnil)).shorten fun x y hxy ↦ .single ?_
      refine ((leads_move hid).mp hxy).imp_right fun hnew ↦ ⟨hnew.1, ?_⟩
      exact Option.some.inj (hnew.2.1.symm.trans hparent)
    · refine h.shorten fun x y hxy ↦ .single ?_
      rcases (leads_move hid).mp hxy with ⟨-, hold⟩ | ⟨-, hparent, hnil, -⟩
      · exact hold
      · exact absurd ⟨y, hparent, hnil⟩ hlink

/-- The folders that the check of a move knows are those below in the user's own table. -/
theorem getFolderIdsInSubtree_spec {id : PyStr} {f : Folder} (hf : t.get? id = some f) :
    ∃ r, t.getFolderIdsInSubtree id f.userId = some r ∧ ∀ ids, r = some ids → ∀ b, b ∈ ids ↔
      ReflTransGen (fun x y ↦ y ∈ (t.childRows (some x) f.userId).map Prod.fst) id b := by
  have hxs : ∀ a, ∀ c ∈ (t.childRows (some a) f.userId).map Prod.fst, c ∈ t.keys := by
    intro a c hc
    obtain ⟨g, hg, -⟩ := mem_childRows.mp hc
    exact Keyed.mem_keys.mpr ⟨g, hg⟩
  obtain ⟨found, hgather, hfound⟩ := @gather_spec _ _ _ _ hxs t.keys.length [id] [id]
    (List.nodup_singleton id) (List.forall_mem_singleton.mpr (Keyed.mem_keys.mpr ⟨f, hf⟩)) (fun _ h ↦ h)
    (fun b hb hout ↦ absurd hb hout) (by rw [Nat.add_comm])
  unfold Table.getFolderIdsInSubtree
  rw [hf, Option.filter_some, if_pos (decide_eq_true rfl)]
  simp only
  rw [hgather, Option.map_some]
  refine ⟨_, rfl, fun ids hids b ↦ ?_⟩
  obtain ⟨-, hsame⟩ := Option.ite_none_right_eq_some.mp hids
  rw [← Option.some.inj hsame, hfound]
  simp only [List.mem_singleton, exists_eq_left]
  exact or_iff_right_of_imp fun h ↦ h ▸ .refl

theorem sound_updateFolderParentId_iff (h : Sound lower t) {id : PyStr} {folder : Folder} {name : PyStr}
    (hfolder : t.get? id = some folder) (hname : folder.name = some name) {parent_id : Option PyStr}
    (hfree : t.findByName lower parent_id folder.userId name = none) (now : ℤ) :
    Sound lower (t.updateFolderParentId id folder.userId parent_id now).1 ↔
      ∀ p, parent_id = some p → p ≠ [] → ¬ Above t p id := by
  have hid : id ∈ t.keys := Keyed.mem_keys.mpr ⟨folder, hfolder⟩
  have hmove := acyclic_move_iff h.acyclic hid (g := { folder with parentId := parent_id, updatedAt := now })
  unfold Table.updateFolderParentId
  rw [hfolder, Option.filter_some, if_pos (decide_eq_true rfl)]
  constructor
  · exact fun hsound ↦ hmove.mp hsound.acyclic
  · intro hchain
    refine ⟨(apart_set_iff h).mpr fun id' f' _ hget htwin ↦ ?_, hmove.mpr hchain⟩
    refine findByName_eq_none.mp hfree id' f' hget htwin.parent.symm htwin.owner.symm ?_
    rw [← htwin.name, hname, Option.map_some]

theorem sound_updateFolderParentIdById_iff (h : Sound lower t) (id : PyStr) (parent_id : Option PyStr) :
    Sound lower (updateFolderParentIdById lower s t id parent_id).1 ↔ (s.foldersPermission = true →
      ∀ folder, t.getFolderByIdAndUserId id s.user.id = some folder →
        folder.name.bind (t.findByName lower parent_id s.user.id) = none →
        ∀ p ids, parent_id = some p → p ≠ [] → t.getFolderIdsInSubtree id s.user.id = some (some ids) → p ∉ ids →
          ¬ Above t p id) := by
  unfold updateFolderParentIdById
  by_cases hpermission : s.foldersPermission = true
  · rw [hpermission]
    simp only [Bool.not_true, Bool.false_eq_true, if_false, true_imp_iff]
    rcases hrow : t.getFolderByIdAndUserId id s.user.id with - | folder
    · exact iff_of_true h nofun
    · obtain ⟨hfolder, hcheck⟩ := Option.filter_eq_some_iff.mp hrow
      obtain ⟨huser, hvalid⟩ := Bool.and_eq_true_iff.mp hcheck
      have huser : folder.userId = s.user.id := by simpa using huser
      obtain ⟨name, hname⟩ := Option.isSome_iff_exists.mp hvalid
      simp only [Option.some.injEq, forall_eq']
      rw [hname, Option.bind_some, ← huser]
      by_cases hfound : (t.findByName lower parent_id folder.userId name).isSome
      · rw [if_pos hfound]
        refine iff_of_true h fun hnone ↦ ?_
        rw [hnone] at hfound
        cases hfound
      · have hfree := Option.not_isSome_iff_eq_none.mp hfound
        have hmove := sound_updateFolderParentId_iff h hfolder hname hfree s.now
        rw [if_neg hfound]
        rcases hlink : parent_id.filter (· ≠ []) with - | p
        · have hnolink : ∀ p, parent_id = some p → p ≠ [] → ¬ Above t p id := by
            rintro p rfl hnil
            simp [hnil] at hlink
          refine iff_of_true ?_ fun _ p _ hp hnil _ _ ↦ hnolink p hp hnil
          have hany : (parent_id.any fun p ↦ decide (p ∈ ([] : List PyStr))) = false := by cases parent_id <;> simp
          simp only [Option.isSome_none, Bool.false_eq_true, if_false, Option.join_some, hany]
          exact hmove.mpr hnolink
        · obtain ⟨rfl, hnil⟩ := Option.filter_eq_some_iff.mp hlink
          have hnil : p ≠ [] := by simpa using hnil
          obtain ⟨r, hr, -⟩ := getFolderIdsInSubtree_spec hfolder
          simp only [Option.isSome_some, if_true, Option.any_some, hr, Option.join_some, Option.some.injEq]
          rcases r with - | ids
          · exact iff_of_true h nofun
          · by_cases hmem : p ∈ ids
            · simp only [decide_eq_true hmem, if_true]
              refine iff_of_true h fun _ p' ids' hp' _ hids' hout ↦ ?_
              obtain rfl := Option.some.inj hids'
              exact absurd (hp' ▸ hmem) hout
            · simp only [decide_eq_false hmem, Bool.false_eq_true, if_false]
              rw [hmove]
              constructor
              · exact fun hall _ p' _ hp' hnil' _ _ ↦ hall p' (congrArg some hp') hnil'
              · intro hall p' hp' hnil'
                have hpp := Option.some.inj hp'
                exact hall hfree p' ids hpp hnil' rfl (hpp ▸ hmem)
  · rw [eq_false_of_ne_true hpermission]
    exact iff_of_true h fun hgranted ↦ absurd hgranted Bool.false_ne_true

/-! ### Deleted folders -/

/-- Every row of a table is one of another. -/
def Within (t t' : Table) : Prop := ∀ id f, t.get? id = some f → t'.get? id = some f

theorem Within.refl (t : Table) : Within t t := fun _ _ h ↦ h

theorem Within.trans {t₁ t₂ t₃ : Table} (h : Within t₁ t₂) (h' : Within t₂ t₃) : Within t₁ t₃ :=
  fun id f hf ↦ h' id f (h id f hf)

theorem within_delete (t : Table) (id : PyStr) : Within (t.delete id) t := by
  intro x f hf
  unfold Table.delete at hf
  rw [Keyed.get?_filterKeys] at hf
  exact (Option.ite_none_right_eq_some.mp hf).2

theorem Sound.within (h : Sound lower t) {t' : Table} (hsub : Within t' t) : Sound lower t' := by
  refine ⟨fun id id' f f' hf hf' htwin ↦ h.apart id id' f f' (hsub id f hf) (hsub id' f' hf') htwin, ?_⟩
  refine h.acyclic.shorten fun x y hxy ↦ .single ?_
  obtain ⟨f, hf, hparent, hnil, hy⟩ := leads_up.mp hxy
  obtain ⟨g, hg⟩ := Keyed.mem_keys.mp hy
  exact leads_up.mpr ⟨f, hsub x f hf, hparent, hnil, Keyed.mem_keys.mpr ⟨g, hsub y g hg⟩⟩

/-- The table of a deletion that has gone through, or of one that has raised. -/
def Table.deleted : Except Table Table.Deleting → Table
  | .error t => t
  | .ok d => d.table

theorem within_deleteChildren (user_id : PyStr) (depth : ℕ) (id : PyStr) (d : Table.Deleting) :
    Within (Table.deleted (Table.deleteChildren user_id depth id d)) d.table := by
  induction depth generalizing id d with
  | zero => exact .refl d.table
  | succ depth ih =>
    rw [Table.deleteChildren]
    rcases Table.models (d.table.childRows (some id) user_id) with - | children
    · exact .refl d.table
    · simp only
      induction children generalizing d with
      | nil => exact .refl d.table
      | cons child children ihc =>
        rw [List.foldlM_cons]
        by_cases hseen : child.1 ∈ d.seenIds
        · rw [if_pos hseen]
          exact ihc d
        · rw [if_neg hseen]
          have hchild := ih child.1 { d with seenIds := child.1 :: d.seenIds }
          rcases hdelete : Table.deleteChildren user_id depth child.1 { d with seenIds := child.1 :: d.seenIds }
            with t' | d'
          · rw [hdelete] at hchild
            exact hchild
          · rw [hdelete] at hchild
            have hhere : Within (d'.table.delete child.1) d.table := (within_delete d'.table child.1).trans hchild
            exact (ihc { d' with table := d'.table.delete child.1, folderIds := d'.folderIds ++ [child.1] }).trans hhere

theorem within_deleteFolder (t : Table) (id user_id : PyStr) (depth : ℕ) :
    Within (t.deleteFolder id user_id depth).1 t := by
  have hdelete := within_deleteChildren user_id depth id ⟨t, [id], [id]⟩
  unfold Table.deleteFolder
  rcases hrow : (t.get? id).filter (·.userId = user_id) with - | folder
  · rw [hrow]
    exact .refl t
  · rw [hrow]
    rcases hresult : Table.deleteChildren user_id depth id ⟨t, [id], [id]⟩ with t' | d
    · rw [hresult] at hdelete
      exact hdelete
    · rw [hresult] at hdelete
      exact (within_delete d.table id).trans hdelete

theorem sound_deleteFolderById (h : Sound lower t) (id : PyStr) (chats : List PyStr → Bool) (depth : ℕ) :
    Sound lower (deleteFolderById s t id chats depth).1 := by
  unfold deleteFolderById
  split
  · exact h
  · rcases (t.getFolderByIdAndUserId id s.user.id).or (t.getFolderById id) with - | folder
    · exact h
    · simp only
      split
      · exact h
      · rcases (t.getFolderIdsInSubtree id folder.userId).join with - | folder_ids
        · exact h
        · simp only
          split
          · exact h
          · exact h.within (within_deleteFolder t id folder.userId depth)

/-! ### Folders put back at the root -/

/-- A folder of the user that is at the root, or is put there. -/
def AtRoot (t : Table) (user_id id : PyStr) (f : Folder) : Prop := Missing t user_id id ∨ f.parentId = none

/-- The folders of the user that have no parent among them go to the root; the names there must differ. -/
theorem sound_getFoldersTable_iff (h : Sound lower t) : Sound lower (getFoldersTable s t) ↔
    (s.foldersPermission = true → (∀ e ∈ t.owned s.user.id, e.2.valid = true) →
      ∀ id id' f f', Missing t s.user.id id → t.get? id = some f → t.get? id' = some f' → f'.userId = s.user.id →
        AtRoot t s.user.id id' f' → f.name.map lower = f'.name.map lower → id = id') := by
  unfold getFoldersTable
  by_cases hpermission : s.foldersPermission = true
  · rw [hpermission]
    simp only [Bool.not_true, Bool.false_eq_true, if_false, true_imp_iff]
    by_cases hvalid : ∀ e ∈ t.owned s.user.id, e.2.valid = true
    · obtain ⟨r, healed, hfold, hgone⟩ := gone_foldlM (@gone_start _ _ s.now) (List.nil_append _) hvalid
      have htable : ((t.getFoldersByUserId s.user.id).bind fun folders ↦
          folders.foldlM (heal s.user.id s.now) ⟨parentById folders, t, []⟩).elim t Healing.table = r.table := by
        unfold Table.getFoldersByUserId Table.models
        rw [if_pos (List.all_eq_true.mpr hvalid), Option.bind_some, hfold]
        rfl
      have hback : ∀ x y, Leads (parentOf t s.user.id) x y → Leads (up t) x y ∨ y ∉ t.keys := by
        intro x y hxy
        obtain ⟨f, hf, hparent⟩ := Option.bind_eq_some_iff.mp hxy
        obtain ⟨hget, -⟩ := Option.filter_eq_some_iff.mp hf
        obtain ⟨hparent, hnil⟩ := Option.filter_eq_some_iff.mp hparent
        by_cases hy : y ∈ t.keys
        · exact .inl (leads_up.mpr ⟨f, hget, hparent, by simpa using hnil, hy⟩)
        · exact .inr hy
      have hnocycle : ∀ id, ¬ TransGen (Leads (parentOf t s.user.id)) id id := by
        intro id hcycle
        have hall : ∀ x y, ReflTransGen (Leads (parentOf t s.user.id)) id x → Leads (parentOf t s.user.id) x y →
            Leads (up t) x y := by
          intro x y hidx hxy
          refine (hback x y hxy).resolve_right fun hy ↦ hy ?_
          obtain ⟨z, hz, -⟩ := TransGen.head'_iff.mp (cycle_of_reach hcycle (hidx.tail hxy))
          obtain ⟨e, he, rfl⟩ := List.mem_map.mp (mem_owned_of_parentOf hz)
          exact Keyed.mem_keys.mpr ⟨e.2, (mem_owned.mp he).1⟩
        have hway : ∀ y, TransGen (Leads (parentOf t s.user.id)) id y → TransGen (Leads (up t)) id y := by
          intro y hy
          induction hy with
          | single hstep => exact .single (hall _ _ .refl hstep)
          | tail hidb hbc ih => exact ih.tail (hall _ _ hidb.to_reflTransGen hbc)
        exact h.acyclic id (hway id hcycle)
      have hhealed (id : PyStr) : id ∈ healed ↔ Missing t s.user.id id := by
        constructor
        · intro hid
          exact (hgone.mended.cause id hid).2.resolve_right (hnocycle id)
        · rintro ⟨parent, hparent, hnone⟩
          exact hgone.mended.missing id (mem_owned_of_parentOf hparent) ⟨parent, hparent, hnone⟩
      have hrow (id : PyStr) (hid : Missing t s.user.id id) {f : Folder} (hf : t.get? id = some f) :
          f.userId = s.user.id := by
        obtain ⟨parent, hparent, -⟩ := hid
        obtain ⟨e, he, rfl⟩ := List.mem_map.mp (mem_owned_of_parentOf hparent)
        obtain ⟨hget, huser⟩ := mem_owned.mp he
        exact Option.some.inj (hget.symm.trans hf) ▸ huser
      rw [htable]
      constructor
      · intro hsound _ id id' f f' hid hf hf' huser hroot hname
        have hget : r.table.get? id = some (f.atRoot s.now) := by
          rw [hgone.table, hf, Option.map_some, if_pos ((hhealed id).mpr hid)]
        have hget' : ∃ g, r.table.get? id' = some g ∧ g.userId = f'.userId ∧ g.parentId = none ∧ g.name = f'.name := by
          rw [hgone.table, hf', Option.map_some]
          by_cases hid' : id' ∈ healed
          · exact ⟨f'.atRoot s.now, by rw [if_pos hid'], rfl, rfl, rfl⟩
          · refine ⟨f', by rw [if_neg hid'], rfl, ?_, rfl⟩
            exact hroot.resolve_left fun hmissing ↦ hid' ((hhealed id').mpr hmissing)
        obtain ⟨g, hg, hguser, hgparent, hgname⟩ := hget'
        refine hsound.apart id id' _ g hget hg ⟨?_, hgparent.symm, ?_⟩
        · exact (hrow id hid hf).trans (huser.symm.trans hguser.symm)
        · exact hname.trans (congrArg _ hgname.symm)
      · intro hnames
        have hnames := hnames hvalid
        refine ⟨fun a b g g' hg hg' htwin ↦ ?_, h.acyclic.shorten fun x y hxy ↦ .single ?_⟩
        · rw [hgone.table] at hg hg'
          obtain ⟨f, hf, rfl⟩ := Option.map_eq_some_iff.mp hg
          obtain ⟨f', hf', rfl⟩ := Option.map_eq_some_iff.mp hg'
          by_cases ha : a ∈ healed <;> by_cases hb : b ∈ healed
          · rw [if_pos ha, if_pos hb] at htwin
            have hb' := (hhealed b).mp hb
            exact hnames a b f f' ((hhealed a).mp ha) hf hf' (hrow b hb' hf') (.inl hb') htwin.name
          · rw [if_pos ha, if_neg hb] at htwin
            have ha' := (hhealed a).mp ha
            have huser : f'.userId = s.user.id := Eq.trans htwin.owner.symm (hrow a ha' (f := f) hf)
            exact hnames a b f f' ha' hf hf' huser (.inr htwin.parent.symm) htwin.name
          · rw [if_neg ha, if_pos hb] at htwin
            have hb' := (hhealed b).mp hb
            have huser : f.userId = s.user.id := Eq.trans htwin.owner (hrow b hb' (f := f') hf')
            exact (hnames b a f' f hb' hf' hf huser (.inr htwin.parent) htwin.name.symm).symm
          · rw [if_neg ha, if_neg hb] at htwin
            exact h.apart a b f f' hf hf' htwin
        · obtain ⟨g, hg, hparent, hnil, hy⟩ := leads_up.mp hxy
          rw [hgone.table] at hg
          obtain ⟨f, hf, rfl⟩ := Option.map_eq_some_iff.mp hg
          by_cases hx : x ∈ healed
          · rw [if_pos hx] at hparent
            cases hparent
          · rw [if_neg hx] at hparent
            exact leads_up.mpr ⟨f, hf, hparent, hnil, hgone.tableKeys ▸ hy⟩
    · have hraises : t.getFoldersByUserId s.user.id = none := by
        unfold Table.getFoldersByUserId Table.models
        exact if_neg fun hall ↦ hvalid (List.all_eq_true.mp hall)
      rw [hraises, Option.bind_none]
      exact iff_of_true h fun hv ↦ absurd hv hvalid
  · rw [eq_false_of_ne_true hpermission]
    exact iff_of_true h fun hgranted ↦ absurd hgranted Bool.false_ne_true

/-! ## Runs -/

/-- The id of a new folder is new. -/
def Fresh (t : Table) : Session × FolderRequest → Prop
  | (_, .createFolder form id) => NewId t form id
  | _ => True

/-- What a request has to avoid, where nothing refuses it.  What is put back at the root meets no folder of its name
there; a folder made under another's folder has no name of the other's there; no folder is moved below one whose
parents lead over another's folders back to it. -/
def Careful (lower : PyStr → PyStr) (t : Table) : Session × FolderRequest → Prop
  | (s, .getFolders) => s.foldersPermission = true → (∀ e ∈ t.owned s.user.id, e.2.valid = true) →
      ∀ id id' f f', Missing t s.user.id id → t.get? id = some f → t.get? id' = some f' → f'.userId = s.user.id →
        AtRoot t s.user.id id' f' → f.name.map lower = f'.name.map lower → id = id'
  | (s, .createFolder form _) => ∀ owner, createOwner lower s t form = .ok owner → owner ≠ s.user.id →
      t.findByName lower form.parentId owner form.name = none
  | (s, .updateFolderParentIdById id parent_id) => s.foldersPermission = true →
      ∀ folder, t.getFolderByIdAndUserId id s.user.id = some folder →
        folder.name.bind (t.findByName lower parent_id s.user.id) = none →
        ∀ p ids, parent_id = some p → p ≠ [] → t.getFolderIdsInSubtree id s.user.id = some (some ids) → p ∉ ids →
          ¬ Above t p id
  | (_, .updateFolderNameById _ _) => True
  | (_, .deleteFolderById _ _ _) => True

/-- One request keeps the names apart and the parents without cycles just where it is careful. -/
theorem sound_after_iff (h : Sound lower t) {x : Session × FolderRequest} (hfresh : Fresh t x) :
    Sound lower (after lower t x) ↔ Careful lower t x := by
  rcases x with ⟨s, - | ⟨form, id⟩ | ⟨id, form⟩ | ⟨id, parent_id⟩ | ⟨id, chats, depth⟩⟩
  · exact sound_getFoldersTable_iff h
  · exact sound_createFolder_iff h hfresh
  · exact iff_of_true (sound_updateFolderNameById h id form) trivial
  · exact sound_updateFolderParentIdById_iff h id parent_id
  · exact iff_of_true (sound_deleteFolderById h id chats depth) trivial

theorem sound_empty (lower : PyStr → PyStr) : Sound lower (.empty : Table) := by
  refine ⟨fun _ _ _ _ hf ↦ absurd hf nofun, fun id hcycle ↦ ?_⟩
  obtain ⟨y, hy, -⟩ := TransGen.head'_iff.mp hcycle
  obtain ⟨f, hf, -⟩ := leads_up.mp hy
  cases hf

theorem run_concat (lower : PyStr → PyStr) (before : List (Session × FolderRequest)) (x : Session × FolderRequest) :
    run lower (before ++ [x]) = after lower (run lower before) x := by
  unfold run
  rw [List.foldl_append]
  rfl

/-- All states of a run are sound just where each of its requests is careful. -/
theorem run_sound_iff (lower : PyStr → PyStr) (requests : List (Session × FolderRequest))
    (hfresh : ∀ before x rest, requests = before ++ x :: rest → Fresh (run lower before) x) :
    (∀ before, before <+: requests → Sound lower (run lower before)) ↔
      ∀ before x rest, requests = before ++ x :: rest → Careful lower (run lower before) x := by
  constructor
  · intro hsound before x rest heq
    have hnext : before ++ [x] <+: requests := ⟨rest, by rw [heq, List.append_assoc]; rfl⟩
    have hafter := hsound (before ++ [x]) hnext
    rw [run_concat] at hafter
    exact (sound_after_iff (hsound before ⟨x :: rest, heq.symm⟩) (hfresh before x rest heq)).mp hafter
  · intro hcareful before
    induction before using List.reverseRecOn with
    | nil => exact fun _ ↦ sound_empty lower
    | append_singleton before x ih =>
      rintro ⟨rest, hrest⟩
      have heq : requests = before ++ x :: rest := by rw [← hrest, List.append_assoc]; rfl
      rw [run_concat]
      exact (sound_after_iff (ih ⟨x :: rest, heq.symm⟩) (hfresh before x rest heq)).mpr (hcareful before x rest heq)

end

/-- Ann, or bob with a write grant on her folder. -/
def sessionOf (user_id : PyStr) : Session :=
  ⟨⟨user_id, []⟩, false, true, true, [⟨py "folder", py "top", .user, py "bob", .write⟩], 1⟩

/-- Ann makes a folder with a subfolder; bob makes one of the same name beside it. -/
def sharedRun : List (Session × FolderRequest) := [
  (sessionOf (py "ann"), .createFolder ⟨py "Top", none, fun _ ↦ none⟩ (py "top")),
  (sessionOf (py "ann"), .createFolder ⟨py "Plan", some (py "top"), fun _ ↦ none⟩ (py "plan")),
  (sessionOf (py "bob"), .createFolder ⟨py "plan", some (py "top"), fun _ ↦ none⟩ (py "copy"))]

theorem newId_of_rows {t : Table} {form : FolderForm} {id : PyStr} (hrow : id ∉ t.keys)
    (hnamed : (t.entries.all fun e ↦ e.2.parentId ≠ some id) = true) (hown : form.parentId ≠ some id) :
    NewId t form id := by
  refine ⟨hrow, fun x f hf ↦ ?_, hown⟩
  simpa using List.all_eq_true.mp hnamed (x, f) (Keyed.get?_eq_some_iff.mp hf)

theorem sharedRun_fresh : ∀ before x rest, sharedRun = before ++ x :: rest →
    Fresh (run asciiCasing.lower before) x := by
  intro before x rest heq
  rcases before with - | ⟨a, - | ⟨b, - | ⟨c, before⟩⟩⟩
  · obtain ⟨hx, -⟩ := List.cons.inj heq
    subst hx
    exact newId_of_rows (by decide) (by decide) (by decide)
  · obtain ⟨ha, htail⟩ := List.cons.inj heq
    obtain ⟨hx, -⟩ := List.cons.inj htail
    subst ha hx
    exact newId_of_rows (by decide) (by decide) (by decide)
  · obtain ⟨ha, htail⟩ := List.cons.inj heq
    obtain ⟨hb, htail'⟩ := List.cons.inj htail
    obtain ⟨hx, -⟩ := List.cons.inj htail'
    subst ha hb hx
    exact newId_of_rows (by decide) (by decide) (by decide)
  · have hlength := congrArg List.length heq
    have hthree : sharedRun.length = 3 := rfl
    simp only [List.length_append, List.length_cons, hthree] at hlength
    omega

theorem sharedRun_sound_iff : (∀ before, before <+: sharedRun → Sound asciiCasing.lower (run asciiCasing.lower before)) ↔
    ∀ before x rest, sharedRun = before ++ x :: rest → Careful asciiCasing.lower (run asciiCasing.lower before) x :=
  run_sound_iff asciiCasing.lower sharedRun sharedRun_fresh

/-- Ann has two folders named alike in one place. -/
theorem sharedRun_not_sound : (∀ before x rest, sharedRun = before ++ x :: rest → Fresh (run asciiCasing.lower before) x) ∧
    ¬ Sound asciiCasing.lower (run asciiCasing.lower sharedRun) := by
  refine ⟨sharedRun_fresh, fun hsound ↦ ?_⟩
  have hplan : (run asciiCasing.lower sharedRun).get? (py "plan") =
      some ⟨some (py "top"), py "ann", some (py "Plan"), 1⟩ := by decide
  have hcopy : (run asciiCasing.lower sharedRun).get? (py "copy") =
      some ⟨some (py "top"), py "ann", some (py "plan"), 1⟩ := by decide
  exact absurd (hsound.apart _ _ _ _ hplan hcopy ⟨rfl, rfl, by decide⟩) (by decide)

end FourCE.Folders
