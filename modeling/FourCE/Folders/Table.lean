import FourCE.Library.Keyed
import FourCE.Library.Walk
import FourCE.Python.Str
import Mathlib.Data.List.Sort

/-!
# The table of folders

`models/folders.py`: rows under their ids, and the requests to them.  A row whose name is NULL makes no
`FolderModel`, and what reads one raises.
-/

namespace FourCE.Folders

open FourCE.Library FourCE.Python

structure Folder where
  parentId : Option PyStr
  userId : PyStr
  name : Option PyStr
  updatedAt : ℤ
  deriving DecidableEq

/-- Whether `FolderModel.model_validate(folder)` passes. -/
def Folder.valid (f : Folder) : Bool := f.name.isSome

abbrev Table := Keyed PyStr Folder

namespace Table

variable (t : Table)

/-- The rows that a query selects; they do not all make models. -/
def models (selected : List (PyStr × Folder)) : Option (List (PyStr × Folder)) :=
  if selected.all (·.2.valid) then some selected else none

/-- The rows of a user. -/
def owned (user_id : PyStr) : List (PyStr × Folder) := t.entries.filter (·.2.userId = user_id)

/-- `get_folder_by_id(id)` -/
def getFolderById (id : PyStr) : Option Folder := (t.get? id).filter Folder.valid

/-- `order_by(Folder.updated_at.desc())` -/
def sortRecent (selected : List (PyStr × Folder)) : List (PyStr × Folder) :=
  selected.insertionSort fun a b ↦ b.2.updatedAt ≤ a.2.updatedAt

/-- `get_folders_by_ids(ids)` -/
def getFoldersByIds (ids : List PyStr) : Option (List (PyStr × Folder)) :=
  models (sortRecent (t.entries.filter (·.1 ∈ ids)))

/-- The rows of a user under a parent, as `get_folders_by_parent_id_and_user_id` selects them. -/
def childRows (parent_id : Option PyStr) (user_id : PyStr) : List (PyStr × Folder) :=
  sortRecent (t.entries.filter fun e ↦ e.2.parentId = parent_id ∧ e.2.userId = user_id)

/-- `get_children_folders_by_id_and_user_id(id, user_id)`.  The search raises where it meets a row that makes no model,
and then there are no folders; the other option is that it takes too many turns. -/
def getChildrenFolders (id user_id : PyStr) : Option (Option (List (PyStr × Folder))) :=
  match (t.get? id).filter (·.userId = user_id) with
  | none => some none
  | some _ =>
    (search (fun a ↦ (t.childRows (some a) user_id).map Prod.fst) t.keys.length id ([id], [])).map fun s ↦
      models (s.2.filterMap fun child ↦ (t.get? child).map fun folder ↦ (child, folder))

/-- `get_folders_by_user_id(user_id)` -/
def getFoldersByUserId (user_id : PyStr) : Option (List (PyStr × Folder)) := models (t.owned user_id)

/-- `update_folder_parent_id_by_id_and_user_id(id, user_id, parent_id)` at a time. -/
def updateFolderParentId (id user_id : PyStr) (parent_id : Option PyStr) (now : ℤ) : Table × Option Folder :=
  match (t.get? id).filter (·.userId = user_id) with
  | none => (t, none)
  | some folder =>
    let folder := { folder with parentId := parent_id, updatedAt := now }
    (t.set id folder, if folder.valid then some folder else none)

end Table

/-! ## Parents -/

/-- `{folder.id: folder.parent_id for folder in folders}` -/
def parentById (folders : List (PyStr × Folder)) : Keyed PyStr (Option PyStr) :=
  .ofList (folders.map fun folder ↦ (folder.1, folder.2.parentId))

/-- `parent_by_id.get(id)`, where it counts as true. -/
def nextOf (parent_by_id : Keyed PyStr (Option PyStr)) (id : PyStr) : Option PyStr :=
  (parent_by_id.get? id).join.filter (· ≠ [])

/-- The parent of a user's folder. -/
def parentOf (t : Table) (user_id id : PyStr) : Option PyStr :=
  ((t.get? id).filter (·.userId = user_id)).bind fun folder ↦ folder.parentId.filter (· ≠ [])

section

variable {t : Table} {user_id : PyStr}

theorem mem_owned {id : PyStr} {folder : Folder} :
    (id, folder) ∈ t.owned user_id ↔ t.get? id = some folder ∧ folder.userId = user_id := by
  rw [Table.owned, List.mem_filter, Keyed.get?_eq_some_iff, decide_eq_true_eq]

theorem owned_nodup (t : Table) (user_id : PyStr) : ((t.owned user_id).map Prod.fst).Nodup :=
  (List.filter_sublist.map Prod.fst).nodup t.nodup

theorem entries_parentById (t : Table) (user_id : PyStr) :
    (parentById (t.owned user_id)).entries = (t.owned user_id).map fun folder ↦ (folder.1, folder.2.parentId) := by
  refine Keyed.entries_ofList ?_
  rw [List.map_map]
  exact owned_nodup t user_id

theorem keys_parentById (t : Table) (user_id : PyStr) :
    (parentById (t.owned user_id)).keys = (t.owned user_id).map Prod.fst := by
  unfold Keyed.keys
  rw [entries_parentById, List.map_map]
  rfl

theorem get?_parentById (t : Table) (user_id id : PyStr) :
    (parentById (t.owned user_id)).get? id = ((t.get? id).filter (·.userId = user_id)).map Folder.parentId := by
  apply Option.ext
  intro parent
  rw [Keyed.get?_eq_some_iff, entries_parentById, List.mem_map, Option.map_eq_some_iff]
  constructor
  · rintro ⟨⟨id', folder⟩, hmem, heq⟩
    obtain ⟨rfl, rfl⟩ := Prod.mk.inj heq
    obtain ⟨hget, huser⟩ := mem_owned.mp hmem
    exact ⟨folder, Option.filter_eq_some_iff.mpr ⟨hget, by simpa using huser⟩, rfl⟩
  · rintro ⟨folder, hfilter, rfl⟩
    obtain ⟨hget, huser⟩ := Option.filter_eq_some_iff.mp hfilter
    exact ⟨(id, folder), mem_owned.mpr ⟨hget, by simpa using huser⟩, rfl⟩

theorem nextOf_parentById (t : Table) (user_id : PyStr) :
    nextOf (parentById (t.owned user_id)) = parentOf t user_id := by
  funext id
  unfold nextOf parentOf
  rw [get?_parentById]
  cases (t.get? id).filter (·.userId = user_id) <;> rfl

/-- A folder with a parent is the user's. -/
theorem mem_owned_of_parentOf {id parent : PyStr} (h : parentOf t user_id id = some parent) :
    id ∈ (t.owned user_id).map Prod.fst := by
  obtain ⟨folder, hfilter, -⟩ := Option.bind_eq_some_iff.mp h
  obtain ⟨hget, huser⟩ := Option.filter_eq_some_iff.mp hfilter
  exact List.mem_map.mpr ⟨(id, folder), mem_owned.mpr ⟨hget, by simpa using huser⟩, rfl⟩

end

end FourCE.Folders
