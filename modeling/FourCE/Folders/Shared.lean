import FourCE.Folders.Table

/-!
# Shared folders

`has_folder_access` of `utils/access_control/folders.py`, which asks for one permission up the parents of a folder,
and `get_shared_folders` of `routers/folders.py`, which goes down from the folders with a grant.
-/

namespace FourCE.Folders

open FourCE.Library FourCE.Python Relation

inductive PrincipalType where
  | user
  | group
  | anyone
  deriving DecidableEq

inductive Permission where
  | read
  | write
  deriving DecidableEq

/-- A row of the table of grants. -/
structure AccessGrant where
  resourceType : PyStr
  resourceId : PyStr
  principalType : PrincipalType
  principalId : PyStr
  permission : Permission
  deriving DecidableEq

/-- A user with the groups that `get_groups_by_member_id` finds. -/
structure User where
  id : PyStr
  groups : List PyStr

/-- The conditions on the principal of a grant. -/
def AccessGrant.isFor (g : AccessGrant) (u : User) : Bool :=
  (g.principalType = .user && (g.principalId = py "*" || g.principalId = u.id)) ||
    (g.principalType = .group && g.principalId ∈ u.groups)

section

variable (t : Table) (grants : List AccessGrant) (u : User)

/-- `AccessGrants.has_access` for a folder. -/
def hasAccess (resource_id : PyStr) (permission : Permission) : Bool :=
  grants.any fun g ↦ g.resourceType = py "folder" && g.resourceId = resource_id && g.permission = permission && g.isFor u

/-- The loop of `has_folder_access`. -/
def hasFolderAccessFrom (permission : Permission) : ℕ → Option (PyStr × Folder) → List PyStr → Option Bool
  | _, none, _ => some false
  | 0, some _, _ => none
  | n + 1, some (id, folder), seen_ids =>
    if id ∈ seen_ids then some false
    else if folder.userId = u.id then some true
    else if hasAccess grants u id permission then some true
    else
      let parent := (folder.parentId.filter (· ≠ [])).bind fun parent_id ↦
        (t.getFolderById parent_id).map fun parent ↦ (parent_id, parent)
      hasFolderAccessFrom permission n parent (id :: seen_ids)

/-- `has_folder_access(user_id, folder, permission)` -/
def hasFolderAccess (id : PyStr) (folder : Folder) (permission : Permission) : Option Bool :=
  hasFolderAccessFrom t grants u permission (t.keys.length + 1) (some (id, folder)) []

/-- The loop of `get_shared_folder_ids_for_user`. -/
def addGrant (folder_perms : Keyed PyStr Permission) (g : AccessGrant) : Keyed PyStr Permission :=
  if folder_perms.get? g.resourceId ≠ some .write then folder_perms.set g.resourceId g.permission else folder_perms

/-- `get_shared_folder_ids_for_user` -/
def getSharedFolderIds : Keyed PyStr Permission :=
  (grants.filter fun g ↦ g.resourceType = py "folder" && g.isFor u).foldl addGrant .empty

/-- What a listed folder is shown with. -/
structure Listed where
  id : PyStr
  folder : Folder
  permission : Permission

/-- The folders below one, as far as they are not listed yet. -/
def addChildren (permission : Permission) (s : List PyStr × List Listed) (children : List (PyStr × Folder)) :
    List PyStr × List Listed :=
  children.foldl (fun s child ↦
    if child.1 ∈ s.1 then s else (child.1 :: s.1, s.2 ++ [⟨child.1, child.2, permission⟩])) s

/-- `get_shared_folders` for a user.  It has no result where something raises. -/
def getSharedFolders : Option (List Listed) := do
  let folder_perms := getSharedFolderIds grants u
  let folders ← t.getFoldersByIds folder_perms.keys
  let shared_folders := folders.filter (·.2.userId ≠ u.id)
  let shared ← shared_folders.mapM fun folder ↦
    (folder_perms.get? folder.1).map fun permission ↦ (⟨folder.1, folder.2, permission⟩ : Listed)
  let s ← shared.foldlM
    (fun s parent ↦ (t.getChildrenFolders parent.id parent.folder.userId).map fun children ↦
      addChildren parent.permission s (children.getD []))
    (shared_folders.map Prod.fst, shared)
  return s.2

end

/-! ## Up the parents -/

/-- The parent of a folder, where there is one. -/
def up (t : Table) (id : PyStr) : Option PyStr :=
  ((t.get? id).bind fun folder ↦ folder.parentId.filter (· ≠ [])).filter fun parent_id ↦ (t.get? parent_id).isSome

/-- A folder is above another, or is it. -/
def Above (t : Table) (id above : PyStr) : Prop := ReflTransGen (Leads (up t)) id above

section Access

variable {t : Table} {grants : List AccessGrant} {u : User}

theorem up_eq_some {id parent : PyStr} : up t id = some parent ↔ ∃ f g, t.get? id = some f ∧ f.parentId = some parent ∧
    parent ≠ [] ∧ t.get? parent = some g := by
  unfold up
  constructor
  · intro h
    obtain ⟨hbind, hsome⟩ := Option.filter_eq_some_iff.mp h
    obtain ⟨f, hf, hparent⟩ := Option.bind_eq_some_iff.mp hbind
    obtain ⟨hparent, hne⟩ := Option.filter_eq_some_iff.mp hparent
    obtain ⟨g, hg⟩ := Option.isSome_iff_exists.mp hsome
    exact ⟨f, g, hf, hparent, by simpa using hne, hg⟩
  · rintro ⟨f, g, hf, hparent, hne, hg⟩
    simp [hf, hparent, hne, hg]

theorem exists_of_above {id above : PyStr} (h : Above t id above) {f : Folder} (hf : t.get? id = some f) :
    ∃ g, t.get? above = some g := by
  rcases ReflTransGen.cases_tail h with rfl | ⟨b, -, hb⟩
  · exact ⟨f, hf⟩
  · obtain ⟨-, g, -, -, -, hg⟩ := up_eq_some.mp hb
    exact ⟨g, hg⟩

/-- Subfolders have their parent's owner. -/
def OneOwner (t : Table) : Prop :=
  ∀ id parent f g, t.get? id = some f → f.parentId = some parent → t.get? parent = some g → f.userId = g.userId

theorem OneOwner.above (h : OneOwner t) {id above : PyStr} (habove : Above t id above) {f g : Folder}
    (hf : t.get? id = some f) (hg : t.get? above = some g) : f.userId = g.userId := by
  induction habove generalizing g with
  | refl => rw [Option.some.inj (hf.symm.trans hg)]
  | tail hab hbc ih =>
    obtain ⟨f', g', hf', hparent, -, hg'⟩ := up_eq_some.mp hbc
    obtain rfl := Option.some.inj (hg'.symm.trans hg)
    rw [ih hf', h _ _ f' g' hf' hparent hg']

theorem getFolderById_eq (hvalid : ∀ id f, t.get? id = some f → f.valid = true) (id : PyStr) :
    t.getFolderById id = t.get? id := by
  unfold Table.getFolderById
  rcases hf : t.get? id with - | f
  · rfl
  · rw [Option.filter_some, if_pos (hvalid id f hf)]

/-- The loop asks each folder that the walk up visits. -/
theorem hasFolderAccessFrom_of_walk {permission : Permission} (hvalid : ∀ id f, t.get? id = some f → f.valid = true)
    {n : ℕ} {link : Option PyStr} {seen visited : List PyStr} {stop : Option PyStr} {row : Option (PyStr × Folder)}
    (hwalk : walk (up t) n link seen = some (visited, stop))
    (hrow : row = link.bind fun id ↦ (t.get? id).map fun f ↦ (id, f)) (hlink : ∀ id, link = some id → (t.get? id).isSome) :
    hasFolderAccessFrom t grants u permission n row seen = some (visited.any fun a ↦
      (t.get? a).any (·.userId = u.id) || hasAccess grants u a permission) := by
  induction n generalizing link seen visited stop row with
  | zero =>
    rcases link with - | id
    · obtain ⟨rfl, -⟩ := Prod.mk.inj (Option.some.inj hwalk)
      rw [hrow]
      rfl
    · cases hwalk
  | succ n ih =>
    rcases link with - | id
    · obtain ⟨rfl, -⟩ := Prod.mk.inj (Option.some.inj hwalk)
      rw [hrow]
      rfl
    · obtain ⟨f, hf⟩ := Option.isSome_iff_exists.mp (hlink id rfl)
      rw [Option.bind_some, hf, Option.map_some] at hrow
      rw [hrow, hasFolderAccessFrom]
      rw [walk] at hwalk
      by_cases hid : id ∈ seen
      · rw [if_pos hid] at hwalk ⊢
        obtain ⟨rfl, -⟩ := Prod.mk.inj (Option.some.inj hwalk)
        rfl
      · rw [if_neg hid] at hwalk ⊢
        obtain ⟨⟨rest, stop'⟩, hrest, heq⟩ := Option.map_eq_some_iff.mp hwalk
        have hvisited : id :: rest = visited := congrArg Prod.fst heq
        have hnext : ((f.parentId.filter (· ≠ [])).bind fun parent_id ↦
            (t.getFolderById parent_id).map fun parent ↦ (parent_id, parent)) =
            (up t id).bind fun id ↦ (t.get? id).map fun f ↦ (id, f) := by
          unfold up
          rw [hf, Option.bind_some]
          rcases f.parentId.filter (· ≠ []) with - | p
          · rfl
          · rw [Option.bind_some, getFolderById_eq hvalid, Option.filter_some]
            rcases hp : t.get? p with - | g
            · rfl
            · rw [Option.isSome_some, if_pos rfl, Option.bind_some, hp]
        have hlink' : ∀ p, up t id = some p → (t.get? p).isSome := fun p hp ↦ (Option.filter_eq_some_iff.mp hp).2
        have hmore := ih hrest hnext hlink'
        rw [← hvisited, List.any_cons, hf, Option.any_some]
        by_cases howner : f.userId = u.id
        · rw [if_pos howner, decide_eq_true howner, Bool.true_or, Bool.true_or]
        · rw [if_neg howner, decide_eq_false howner, Bool.false_or]
          by_cases haccess : hasAccess grants u id permission = true
          · rw [if_pos haccess, haccess, Bool.true_or]
          · rw [if_neg haccess, eq_false_of_ne_true haccess, Bool.false_or]
            exact hmore

/-- A permission is granted on a folder that is not the user's just where a grant on it or above it gives it. -/
theorem hasFolderAccess_spec (hvalid : ∀ id f, t.get? id = some f → f.valid = true) (howner : OneOwner t) {id : PyStr}
    {f : Folder} (hf : t.get? id = some f) (hother : f.userId ≠ u.id) (permission : Permission) :
    ∃ b, hasFolderAccess t grants u id f permission = some b ∧
      (b = true ↔ ∃ above, Above t id above ∧ hasAccess grants u above permission = true) := by
  have hxs : ∀ a b, up t a = some b → a ∈ t.keys := by
    intro a b hab
    obtain ⟨g, -, hg, -⟩ := up_eq_some.mp hab
    exact Keyed.mem_keys.mpr ⟨g, hg⟩
  obtain ⟨visited, stop, hwalk, hwalked⟩ := @walk_spec _ _ _ _ hxs _ (some id) _ List.nodup_nil (List.forall_mem_nil _)
    (Nat.lt_succ_self _)
  refine ⟨_, hasFolderAccessFrom_of_walk hvalid hwalk (by rw [Option.bind_some, hf]; rfl)
    (fun a ha ↦ by rw [← Option.some.inj ha, hf]; rfl), ?_⟩
  rw [List.any_eq_true]
  constructor
  · rintro ⟨a, ha, hcheck⟩
    have habove : Above t id a := hwalked.mem_iff.mp ha
    obtain ⟨g, hg⟩ := exists_of_above habove hf
    have hne : g.userId ≠ u.id := howner.above habove hf hg ▸ hother
    rw [hg, Option.any_some, decide_eq_false hne, Bool.false_or] at hcheck
    exact ⟨a, habove, hcheck⟩
  · rintro ⟨a, habove, haccess⟩
    exact ⟨a, hwalked.mem_iff.mpr habove, by rw [haccess, Bool.or_true]⟩

/-! ## The granted folders -/

theorem get?_addGrant (folder_perms : Keyed PyStr Permission) (g : AccessGrant) (id : PyStr) :
    (addGrant folder_perms g).get? id =
      if id = g.resourceId ∧ folder_perms.get? id ≠ some .write then some g.permission else folder_perms.get? id := by
  unfold addGrant
  by_cases hid : id = g.resourceId
  · subst hid
    by_cases hwrite : folder_perms.get? g.resourceId = some .write
    · simp [hwrite]
    · rw [if_pos hwrite, if_pos ⟨rfl, hwrite⟩, Keyed.get?_set, if_pos rfl]
  · rw [if_neg (c := id = g.resourceId ∧ _) fun h ↦ hid h.1]
    split
    · rw [Keyed.get?_set, if_neg hid]
    · rfl

theorem foldl_addGrant_write (gs : List AccessGrant) (folder_perms : Keyed PyStr Permission) (id : PyStr) :
    (gs.foldl addGrant folder_perms).get? id = some .write ↔
      folder_perms.get? id = some .write ∨ ∃ g ∈ gs, g.resourceId = id ∧ g.permission = .write := by
  induction gs generalizing folder_perms with
  | nil => simp
  | cons g gs ih =>
    rw [List.foldl_cons, ih, get?_addGrant]
    simp only [List.mem_cons, exists_eq_or_imp]
    split <;> grind

theorem foldl_addGrant_isSome (gs : List AccessGrant) (folder_perms : Keyed PyStr Permission) (id : PyStr) :
    ((gs.foldl addGrant folder_perms).get? id).isSome ↔
      (folder_perms.get? id).isSome ∨ ∃ g ∈ gs, g.resourceId = id := by
  induction gs generalizing folder_perms with
  | nil => simp
  | cons g gs ih =>
    rw [List.foldl_cons, ih, get?_addGrant]
    simp only [List.mem_cons, exists_eq_or_imp]
    split <;> grind

theorem hasAccess_iff {id : PyStr} {permission : Permission} : hasAccess grants u id permission = true ↔
    ∃ g ∈ grants.filter fun g ↦ g.resourceType = py "folder" && g.isFor u, g.resourceId = id ∧
      g.permission = permission := by
  unfold hasAccess
  rw [List.any_eq_true]
  constructor
  · rintro ⟨g, hg, hcheck⟩
    simp only [Bool.and_eq_true, decide_eq_true_eq] at hcheck
    exact ⟨g, List.mem_filter.mpr ⟨hg, by simp [hcheck]⟩, hcheck.1.1.2, hcheck.1.2⟩
  · rintro ⟨g, hg, hid, hpermission⟩
    obtain ⟨hg, hcheck⟩ := List.mem_filter.mp hg
    exact ⟨g, hg, by simpa [hid, hpermission] using hcheck⟩

theorem getSharedFolderIds_write {id : PyStr} :
    (getSharedFolderIds grants u).get? id = some .write ↔ hasAccess grants u id .write = true := by
  unfold getSharedFolderIds
  rw [foldl_addGrant_write, hasAccess_iff]
  exact or_iff_right nofun

/-- The folders with a grant are those with access. -/
theorem mem_getSharedFolderIds {id : PyStr} : id ∈ (getSharedFolderIds grants u).keys ↔
    ∃ permission, hasAccess grants u id permission = true := by
  have hsome := foldl_addGrant_isSome (grants.filter fun g ↦ g.resourceType = py "folder" && g.isFor u) .empty id
  rw [Keyed.mem_keys, ← Option.isSome_iff_exists]
  unfold getSharedFolderIds
  rw [hsome, or_iff_right nofun]
  constructor
  · rintro ⟨g, hg, hid⟩
    exact ⟨g.permission, hasAccess_iff.mpr ⟨g, hg, hid, rfl⟩⟩
  · rintro ⟨permission, haccess⟩
    obtain ⟨g, hg, hid, -⟩ := hasAccess_iff.mp haccess
    exact ⟨g, hg, hid⟩

/-! ## Down the children -/

theorem mem_sortRecent {selected : List (PyStr × Folder)} {e : PyStr × Folder} :
    e ∈ Table.sortRecent selected ↔ e ∈ selected := (List.perm_insertionSort _ _).mem_iff

theorem mem_childRows {a user_id b : PyStr} : b ∈ (t.childRows (some a) user_id).map Prod.fst ↔
    ∃ f, t.get? b = some f ∧ f.parentId = some a ∧ f.userId = user_id := by
  unfold Table.childRows
  rw [List.mem_map]
  constructor
  · rintro ⟨⟨b, f⟩, hmem, rfl⟩
    obtain ⟨hmem, hchild⟩ := List.mem_filter.mp (mem_sortRecent.mp hmem)
    exact ⟨f, Keyed.get?_eq_some_iff.mpr hmem, by simpa using hchild⟩
  · rintro ⟨f, hf, hchild⟩
    exact ⟨(b, f), mem_sortRecent.mpr (List.mem_filter.mpr ⟨Keyed.get?_eq_some_iff.mp hf, by simpa using hchild⟩), rfl⟩

/-- Going down the owner's folders is going up the parents. -/
theorem reach_iff_above (howner : OneOwner t) (hids : [] ∉ t.keys) {id : PyStr} {f : Folder} (hf : t.get? id = some f)
    {b : PyStr} : ReflTransGen (fun x y ↦ y ∈ (t.childRows (some x) f.userId).map Prod.fst) id b ↔ Above t b id := by
  constructor
  · intro h
    have hrow : (∃ g, t.get? b = some g) ∧ Above t b id := by
      induction h with
      | refl => exact ⟨⟨f, hf⟩, .refl⟩
      | @tail c d _ hcd ih =>
        obtain ⟨⟨g, hg⟩, habove⟩ := ih
        obtain ⟨g', hg', hparent, -⟩ := mem_childRows.mp hcd
        have hne : c ≠ [] := fun hc ↦ hids (hc ▸ Keyed.mem_keys.mpr ⟨g, hg⟩)
        exact ⟨⟨g', hg'⟩, .head (up_eq_some.mpr ⟨g', g, hg', hparent, hne, hg⟩) habove⟩
    exact hrow.2
  · intro h
    induction h using ReflTransGen.head_induction_on with
    | refl => exact .refl
    | @head a c hac hcid ih =>
      obtain ⟨g, g', hg, hparent, -, -⟩ := up_eq_some.mp hac
      have huser := howner.above (.head hac hcid) hg hf
      exact ih.tail (mem_childRows.mpr ⟨g, hg, hparent, huser⟩)

/-- The children of a folder are the folders below it. -/
theorem getChildrenFolders_spec (hvalid : ∀ id f, t.get? id = some f → f.valid = true) (howner : OneOwner t)
    (hids : [] ∉ t.keys) {id : PyStr} {f : Folder} (hf : t.get? id = some f) :
    ∃ cs, t.getChildrenFolders id f.userId = some (some cs) ∧ (cs.map Prod.fst).Nodup ∧
      ∀ b g, (b, g) ∈ cs ↔ b ≠ id ∧ t.get? b = some g ∧ Above t b id := by
  have hxs : ∀ a, ∀ c ∈ (t.childRows (some a) f.userId).map Prod.fst, c ∈ t.keys := by
    intro a c hc
    obtain ⟨g, hg, -⟩ := mem_childRows.mp hc
    exact Keyed.mem_keys.mpr ⟨g, hg⟩
  obtain ⟨found, s, hsearch, hfound, hnodup, hmem⟩ := search_from hxs (Keyed.mem_keys.mpr ⟨f, hf⟩) le_rfl
  have hrow {b : PyStr} (hb : b ∈ found) : ∃ g, t.get? b = some g := by
    rcases ReflTransGen.cases_tail ((hmem b).mp hb).2 with rfl | ⟨c, -, hcb⟩
    · exact ⟨f, hf⟩
    · obtain ⟨g, hg, -⟩ := mem_childRows.mp hcb
      exact ⟨g, hg⟩
  have hcs (b : PyStr) (g : Folder) : (b, g) ∈ found.filterMap (fun child ↦ (t.get? child).map fun folder ↦
      (child, folder)) ↔ b ∈ found ∧ t.get? b = some g := by
    simp only [List.mem_filterMap, Option.map_eq_some_iff, Prod.mk.injEq]
    constructor
    · rintro ⟨c, hc, h, hh, rfl, rfl⟩
      exact ⟨hc, hh⟩
    · exact fun h ↦ ⟨b, h.1, g, h.2, rfl, rfl⟩
  refine ⟨found.filterMap fun child ↦ (t.get? child).map fun folder ↦ (child, folder), ?_, ?_, fun b g ↦ ?_⟩
  · unfold Table.getChildrenFolders
    rw [hf, Option.filter_some, if_pos (decide_eq_true rfl)]
    simp only
    rw [hsearch, Option.map_some, hfound]
    unfold Table.models
    rw [if_pos]
    rw [List.all_eq_true]
    exact fun e he ↦ hvalid e.1 e.2 ((hcs e.1 e.2).mp he).2
  · have hfst : (found.filterMap fun child ↦ (t.get? child).map fun folder ↦ (child, folder)).map Prod.fst = found := by
      rw [List.map_filterMap]
      refine (List.filterMap_congr fun b hb ↦ ?_).trans List.filterMap_some
      obtain ⟨g, hg⟩ := hrow hb
      rw [hg]
      rfl
    rw [hfst]
    exact hnodup
  · rw [hcs, hmem, reach_iff_above howner hids hf]
    tauto

/-! ## The list -/

/-- A folder and the folders above it. -/
def ancestors (t : Table) (id : PyStr) : List PyStr :=
  ((walk (up t) (t.keys.length + 1) (some id) []).map Prod.fst).getD []

theorem mem_ancestors {id above : PyStr} : above ∈ ancestors t id ↔ Above t id above := by
  have hxs : ∀ a b, up t a = some b → a ∈ t.keys := by
    intro a b hab
    obtain ⟨g, -, hg, -⟩ := up_eq_some.mp hab
    exact Keyed.mem_keys.mpr ⟨g, hg⟩
  obtain ⟨visited, stop, hwalk, hwalked⟩ := @walk_spec _ _ _ _ hxs _ (some id) _ List.nodup_nil (List.forall_mem_nil _)
    (Nat.lt_succ_self _)
  unfold ancestors
  rw [hwalk]
  exact hwalked.mem_iff

/-- The folders of others with a grant, as the query gives them. -/
def sharedFolders (t : Table) (grants : List AccessGrant) (u : User) : List (PyStr × Folder) :=
  (Table.sortRecent (t.entries.filter (·.1 ∈ (getSharedFolderIds grants u).keys))).filter (·.2.userId ≠ u.id)

theorem mem_sharedFolders {e : PyStr × Folder} : e ∈ sharedFolders t grants u ↔
    t.get? e.1 = some e.2 ∧ e.1 ∈ (getSharedFolderIds grants u).keys ∧ e.2.userId ≠ u.id := by
  unfold sharedFolders
  rw [List.mem_filter, mem_sortRecent, List.mem_filter, Keyed.get?_eq_some_iff, decide_eq_true_eq, decide_eq_true_eq,
    and_assoc]

theorem sharedFolders_nodup (t : Table) (grants : List AccessGrant) (u : User) :
    ((sharedFolders t grants u).map Prod.fst).Nodup := by
  refine (List.filter_sublist.map Prod.fst).nodup ?_
  refine ((List.perm_insertionSort _ _).map Prod.fst).nodup_iff.mpr ?_
  exact (List.filter_sublist.map Prod.fst).nodup t.nodup

/-- The children that are not listed yet are listed with the folder's permission. -/
theorem addChildren_eq {permission : Permission} {cs : List (PyStr × Folder)} (hcs : (cs.map Prod.fst).Nodup)
    (s : List PyStr × List Listed) : addChildren permission s cs =
      (((cs.filter (·.1 ∉ s.1)).map Prod.fst).reverse ++ s.1,
        s.2 ++ (cs.filter (·.1 ∉ s.1)).map fun c ↦ ⟨c.1, c.2, permission⟩) := by
  unfold addChildren
  induction cs generalizing s with
  | nil => simp
  | cons c cs ih =>
    obtain ⟨hc, hcs⟩ := List.nodup_cons.mp hcs
    rw [List.foldl_cons]
    by_cases hseen : c.1 ∈ s.1
    · rw [if_pos hseen, ih hcs, List.filter_cons_of_neg (by simpa using hseen)]
    · have hrest : cs.filter (·.1 ∉ c.1 :: s.1) = cs.filter (·.1 ∉ s.1) := by
        refine List.filter_congr fun d hd ↦ ?_
        have hne : d.1 ≠ c.1 := fun h ↦ hc (h ▸ List.mem_map_of_mem hd)
        simp [hne]
      rw [if_neg hseen, ih hcs, hrest, List.filter_cons_of_pos (by simpa using hseen)]
      simp

/-- What the loop lists below the folders, each with the permission of the first one above it. -/
theorem foldlM_addChildren (hvalid : ∀ id f, t.get? id = some f → f.valid = true) (howner : OneOwner t)
    (hids : [] ∉ t.keys) {rest : List Listed} (hrest : ∀ p ∈ rest, t.get? p.id = some p.folder)
    {s : List PyStr × List Listed} (hseen : ∀ p ∈ rest, p.id ∈ s.1) :
    ∃ s' extra, rest.foldlM (fun s parent ↦ (t.getChildrenFolders parent.id parent.folder.userId).map fun children ↦
        addChildren parent.permission s (children.getD [])) s = some s' ∧ s'.2 = s.2 ++ extra ∧
      (extra.map Listed.id).Nodup ∧ ∀ e, e ∈ extra ↔ e.id ∉ s.1 ∧ t.get? e.id = some e.folder ∧
        ∃ parent, rest.find? (·.id ∈ ancestors t e.id) = some parent ∧ e.permission = parent.permission := by
  induction rest generalizing s with
  | nil => exact ⟨s, [], rfl, by simp, List.nodup_nil, by simp⟩
  | cons parent rest ih =>
    obtain ⟨hparent, hrest⟩ := List.forall_mem_cons.mp hrest
    obtain ⟨hmem, hseen⟩ := List.forall_mem_cons.mp hseen
    obtain ⟨cs, hchildren, hnodup, hcs⟩ := getChildrenFolders_spec hvalid howner hids hparent
    obtain ⟨s', extra, hfold, houtput, honce, hextra⟩ := ih (s := addChildren parent.permission s cs) hrest (by
      intro p hp
      rw [addChildren_eq hnodup]
      exact List.mem_append_right _ (hseen p hp))
    have hnew (e : Listed) : e ∈ (cs.filter (·.1 ∉ s.1)).map (fun c ↦ (⟨c.1, c.2, parent.permission⟩ : Listed)) ↔
        e.id ∉ s.1 ∧ t.get? e.id = some e.folder ∧ Above t e.id parent.id ∧ e.permission = parent.permission := by
      obtain ⟨id, folder, permission⟩ := e
      simp only [List.mem_map, List.mem_filter, Prod.exists, Listed.mk.injEq, hcs, decide_eq_true_eq]
      constructor
      · rintro ⟨id, folder, ⟨⟨-, hget, habove⟩, hfresh⟩, rfl, rfl, rfl⟩
        exact ⟨hfresh, hget, habove, rfl⟩
      · rintro ⟨hfresh, hget, habove, rfl⟩
        exact ⟨id, folder, ⟨⟨fun h ↦ hfresh (h ▸ hmem), hget, habove⟩, hfresh⟩, rfl, rfl, rfl⟩
    have hseen' {id : PyStr} {f : Folder} (hf : t.get? id = some f) :
        id ∉ (addChildren parent.permission s cs).1 ↔ id ∉ s.1 ∧ ¬ Above t id parent.id := by
      rw [addChildren_eq hnodup]
      simp only [List.mem_append, List.mem_reverse, List.mem_map, List.mem_filter, Prod.exists, hcs, decide_eq_true_eq]
      constructor
      · intro h
        refine ⟨fun hid ↦ h (.inr hid), fun habove ↦ h (.inl ⟨id, f, ⟨⟨?_, hf, habove⟩, ?_⟩, rfl⟩)⟩
        · exact fun heq ↦ h (.inr (heq ▸ hmem))
        · exact fun hid ↦ h (.inr hid)
      · rintro ⟨hfresh, habove⟩ (⟨a, g, ⟨⟨-, -, ha⟩, -⟩, rfl⟩ | hid)
        · exact habove ha
        · exact hfresh hid
    refine ⟨s', (cs.filter (·.1 ∉ s.1)).map (fun c ↦ (⟨c.1, c.2, parent.permission⟩ : Listed)) ++ extra, ?_, ?_, ?_, ?_⟩
    · rw [List.foldlM_cons, hchildren]
      exact hfold
    · rw [houtput, addChildren_eq hnodup, List.append_assoc]
    · rw [List.map_append]
      refine List.Nodup.append ?_ honce ?_
      · rw [List.map_map]
        exact (List.filter_sublist.map Prod.fst).nodup hnodup
      · intro id hid hid'
        obtain ⟨e, he, rfl⟩ := List.mem_map.mp hid
        obtain ⟨e', he', heq⟩ := List.mem_map.mp hid'
        obtain ⟨-, hget, habove, -⟩ := (hnew e).mp he
        have hfresh := ((hextra e').mp he').1
        rw [heq] at hfresh
        exact ((hseen' hget).mp hfresh).2 habove
    · intro e
      rw [List.mem_append, hnew, hextra, List.find?_cons]
      by_cases habove : Above t e.id parent.id
      · simp only [decide_eq_true (mem_ancestors.mpr habove), Option.some.injEq, exists_eq_left', habove, true_and]
        refine or_iff_left_of_imp ?_
        rintro ⟨hfresh, hget, -⟩
        exact absurd habove ((hseen' hget).mp hfresh).2
      · simp only [decide_eq_false (mem_ancestors.not.mpr habove), habove, false_and, and_false, false_or]
        constructor
        · rintro ⟨hfresh, hget, hfirst⟩
          exact ⟨((hseen' hget).mp hfresh).1, hget, hfirst⟩
        · rintro ⟨hfresh, hget, hfirst⟩
          exact ⟨(hseen' hget).mpr ⟨hfresh, habove⟩, hget, hfirst⟩

/-- The folder whose grants a folder is listed with: itself, or the most recent one above it that is shared. -/
def source (t : Table) (grants : List AccessGrant) (u : User) (id : PyStr) : Option PyStr :=
  if id ∈ (sharedFolders t grants u).map Prod.fst then some id
  else ((sharedFolders t grants u).find? (·.1 ∈ ancestors t id)).map Prod.fst

theorem source_spec {id above : PyStr} (h : source t grants u id = some above) :
    Above t id above ∧ above ∈ (getSharedFolderIds grants u).keys := by
  unfold source at h
  split at h
  · next hmem =>
    obtain rfl := Option.some.inj h
    obtain ⟨e, he, rfl⟩ := List.mem_map.mp hmem
    exact ⟨.refl, (mem_sharedFolders.mp he).2.1⟩
  · obtain ⟨e, hfind, rfl⟩ := Option.map_eq_some_iff.mp h
    have habove := List.find?_some hfind
    exact ⟨mem_ancestors.mp (by simpa using habove), (mem_sharedFolders.mp (List.mem_of_find?_eq_some hfind)).2.1⟩

theorem exists_source (howner : OneOwner t) {id : PyStr} {f : Folder} (hf : t.get? id = some f)
    (hother : f.userId ≠ u.id) {above : PyStr} (habove : Above t id above)
    (hgranted : above ∈ (getSharedFolderIds grants u).keys) : ∃ a, source t grants u id = some a := by
  obtain ⟨g, hg⟩ := exists_of_above habove hf
  have hmem : (above, g) ∈ sharedFolders t grants u :=
    mem_sharedFolders.mpr ⟨hg, hgranted, howner.above habove hf hg ▸ hother⟩
  unfold source
  split
  · exact ⟨id, rfl⟩
  · have hfind : ((sharedFolders t grants u).find? (·.1 ∈ ancestors t id)).isSome :=
      List.find?_isSome.mpr ⟨(above, g), hmem, by simpa using mem_ancestors.mpr habove⟩
    obtain ⟨e, he⟩ := Option.isSome_iff_exists.mp hfind
    exact ⟨e.1, by rw [he, Option.map_some]⟩

theorem mapM_eq_some_map {α β : Type} {f : α → Option β} {g : α → β} {xs : List α}
    (h : ∀ x ∈ xs, f x = some (g x)) : xs.mapM f = some (xs.map g) := by
  induction xs with
  | nil => rfl
  | cons x xs ih =>
    obtain ⟨hx, hxs⟩ := List.forall_mem_cons.mp h
    rw [List.mapM_cons, hx, ih hxs]
    rfl

/-- Each folder with a source is listed once, with the permission of its source. -/
theorem getSharedFolders_spec (hvalid : ∀ id f, t.get? id = some f → f.valid = true) (howner : OneOwner t)
    (hids : [] ∉ t.keys) : ∃ results, getSharedFolders t grants u = some results ∧ (results.map Listed.id).Nodup ∧
      ∀ e, e ∈ results ↔ t.get? e.id = some e.folder ∧ ∃ above, source t grants u e.id = some above ∧
        (getSharedFolderIds grants u).get? above = some e.permission := by
  let perms := getSharedFolderIds grants u
  let folders := sharedFolders t grants u
  let shared := folders.map fun folder ↦ (⟨folder.1, folder.2, (perms.get? folder.1).getD .read⟩ : Listed)
  have hperm {folder : PyStr × Folder} (h : folder ∈ folders) :
      perms.get? folder.1 = some ((perms.get? folder.1).getD .read) := by
    obtain ⟨permission, hp⟩ := Keyed.mem_keys.mp (mem_sharedFolders.mp h).2.1
    rw [hp, Option.getD_some]
  have hmodels : t.getFoldersByIds perms.keys = some (Table.sortRecent (t.entries.filter (·.1 ∈ perms.keys))) := by
    unfold Table.getFoldersByIds Table.models
    rw [if_pos]
    rw [List.all_eq_true]
    intro e he
    exact hvalid e.1 e.2 (Keyed.get?_eq_some_iff.mpr (List.mem_filter.mp (mem_sortRecent.mp he)).1)
  have hshared : folders.mapM (fun folder ↦ (perms.get? folder.1).map fun permission ↦
      (⟨folder.1, folder.2, permission⟩ : Listed)) = some shared := by
    refine mapM_eq_some_map fun folder hfolder ↦ ?_
    rw [hperm hfolder]
    rfl
  have hids' : shared.map Listed.id = folders.map Prod.fst := List.map_map
  have hrows : ∀ p ∈ shared, t.get? p.id = some p.folder := by
    intro p hp
    obtain ⟨folder, hfolder, rfl⟩ := List.mem_map.mp hp
    exact (mem_sharedFolders.mp hfolder).1
  obtain ⟨s', extra, hfold, houtput, honce, hextra⟩ := foldlM_addChildren hvalid howner hids hrows (s := (folders.map Prod.fst, shared))
    fun p hp ↦ hids' ▸ List.mem_map_of_mem hp
  refine ⟨shared ++ extra, ?_, ?_, fun e ↦ ?_⟩
  · unfold getSharedFolders
    change Option.bind (t.getFoldersByIds perms.keys) _ = _
    rw [hmodels, Option.bind_some]
    change Option.bind (List.mapM _ folders) _ = _
    rw [hshared, Option.bind_some]
    change Option.bind (List.foldlM _ (folders.map Prod.fst, shared) shared) _ = _
    rw [hfold, Option.bind_some]
    exact congrArg some houtput
  · rw [List.map_append, hids']
    refine (sharedFolders_nodup t grants u).append honce fun id hid hid' ↦ ?_
    obtain ⟨e, he, rfl⟩ := List.mem_map.mp hid'
    exact ((hextra e).mp he).1 hid
  · rw [List.mem_append, hextra]
    unfold source
    by_cases hid : e.id ∈ folders.map Prod.fst
    · rw [if_pos hid]
      simp only [hid, not_true_eq_false, false_and, or_false, Option.some.injEq, exists_eq_left']
      constructor
      · intro he
        obtain ⟨folder, hfolder, rfl⟩ := List.mem_map.mp he
        exact ⟨(mem_sharedFolders.mp hfolder).1, hperm hfolder⟩
      · rintro ⟨hget, hpermission⟩
        obtain ⟨folder, hfolder, heq⟩ := List.mem_map.mp hid
        have hsame : folder.2 = e.folder := by
          have h := (mem_sharedFolders.mp hfolder).1
          rw [heq, hget] at h
          exact (Option.some.inj h).symm
        refine List.mem_map.mpr ⟨folder, hfolder, ?_⟩
        rw [heq, hsame]
        change Listed.mk e.id e.folder ((perms.get? e.id).getD .read) = e
        rw [hpermission]
        rfl
    · rw [if_neg hid]
      have hnot : e ∉ shared := fun he ↦ hid (hids' ▸ List.mem_map_of_mem he)
      have hfind : shared.find? (·.id ∈ ancestors t e.id) = (folders.find? (·.1 ∈ ancestors t e.id)).map fun folder ↦
          (⟨folder.1, folder.2, (perms.get? folder.1).getD .read⟩ : Listed) := List.find?_map
      rw [hfind]
      simp only [hnot, hid, not_false_eq_true, true_and, false_or, Option.map_eq_some_iff]
      refine and_congr_right fun _ ↦ ?_
      constructor
      · rintro ⟨-, ⟨folder, hfolder, rfl⟩, hpermission⟩
        refine ⟨folder.1, ⟨folder, hfolder, rfl⟩, ?_⟩
        rw [hpermission]
        exact hperm (List.mem_of_find?_eq_some hfolder)
      · rintro ⟨-, ⟨folder, hfolder, rfl⟩, hpermission⟩
        refine ⟨_, ⟨folder, hfolder, rfl⟩, ?_⟩
        have h := hperm (List.mem_of_find?_eq_some hfolder)
        exact Option.some.inj (hpermission.symm.trans h)

/-- A list of shared folders is right about a user's access to the folders of others. -/
def TellsTruth (t : Table) (grants : List AccessGrant) (u : User) (results : List Listed) : Prop :=
  ∀ id f, t.get? id = some f → f.userId ≠ u.id → ∃ read write,
    hasFolderAccess t grants u id f .read = some read ∧ hasFolderAccess t grants u id f .write = some write ∧
      (results.map Listed.id).count id = (if read then 1 else 0) ∧
      ((∃ e ∈ results, e.id = id ∧ e.permission = .write) ↔ write = true)

/-- Wherever a write grant stands on a folder of another or above it, a read grant does, and the folder that it is
listed with has a write grant. -/
def Covered (t : Table) (grants : List AccessGrant) (u : User) : Prop :=
  ∀ id f, t.get? id = some f → f.userId ≠ u.id → (∃ above ∈ ancestors t id, hasAccess grants u above .write = true) →
    (∃ above ∈ ancestors t id, hasAccess grants u above .read = true) ∧
      ∀ above, source t grants u id = some above → hasAccess grants u above .write = true

theorem getSharedFolders_truth_iff (hvalid : ∀ id f, t.get? id = some f → f.valid = true) (howner : OneOwner t)
    (hids : [] ∉ t.keys) :
    (∃ results, getSharedFolders t grants u = some results ∧ TellsTruth t grants u results) ↔ Covered t grants u := by
  obtain ⟨results, hresults, hnodup, hmem⟩ := @getSharedFolders_spec _ grants u hvalid howner hids
  have hlisted {id : PyStr} {f : Folder} (hf : t.get? id = some f) (hother : f.userId ≠ u.id) :
      id ∈ results.map Listed.id ↔ ∃ permission, ∃ above ∈ ancestors t id, hasAccess grants u above permission = true := by
    constructor
    · intro hid
      obtain ⟨e, he, rfl⟩ := List.mem_map.mp hid
      obtain ⟨-, above, hsource, -⟩ := (hmem e).mp he
      obtain ⟨habove, hgranted⟩ := source_spec hsource
      obtain ⟨permission, haccess⟩ := mem_getSharedFolderIds.mp hgranted
      exact ⟨permission, above, mem_ancestors.mpr habove, haccess⟩
    · rintro ⟨permission, above, habove, haccess⟩
      obtain ⟨a, ha⟩ := exists_source howner hf hother (mem_ancestors.mp habove)
        (mem_getSharedFolderIds.mpr ⟨permission, haccess⟩)
      obtain ⟨p, hp⟩ := Keyed.mem_keys.mp (source_spec ha).2
      exact List.mem_map_of_mem ((hmem ⟨id, f, p⟩).mpr ⟨hf, a, ha, hp⟩)
  have hwritten {id : PyStr} {f : Folder} (hf : t.get? id = some f) :
      (∃ e ∈ results, e.id = id ∧ e.permission = .write) ↔
        ∃ above, source t grants u id = some above ∧ hasAccess grants u above .write = true := by
    constructor
    · rintro ⟨e, he, rfl, hwrite⟩
      obtain ⟨-, above, hsource, hp⟩ := (hmem e).mp he
      exact ⟨above, hsource, getSharedFolderIds_write.mp (hwrite ▸ hp)⟩
    · rintro ⟨above, hsource, haccess⟩
      exact ⟨⟨id, f, .write⟩, (hmem _).mpr ⟨hf, above, hsource, getSharedFolderIds_write.mpr haccess⟩, rfl, rfl⟩
  have haccess {id : PyStr} {f : Folder} (hf : t.get? id = some f) (hother : f.userId ≠ u.id) (permission : Permission) :
      ∃ b, hasFolderAccess t grants u id f permission = some b ∧
        (b = true ↔ ∃ above ∈ ancestors t id, hasAccess grants u above permission = true) := by
    obtain ⟨b, hb, hiff⟩ := @hasFolderAccess_spec _ grants _ hvalid howner _ _ hf hother permission
    simp only [mem_ancestors]
    exact ⟨b, hb, hiff⟩
  constructor
  · rintro ⟨results', hresults', htruth⟩ id f hf hother hwrite
    obtain rfl := Option.some.inj (hresults.symm.trans hresults')
    obtain ⟨read, write, hread, hwrite', hcount, hpermission⟩ := htruth id f hf hother
    obtain ⟨b, hb, hread'⟩ := haccess hf hother .read
    obtain ⟨b', hb', hwrite''⟩ := haccess hf hother .write
    obtain rfl := Option.some.inj (hread.symm.trans hb)
    obtain rfl := Option.some.inj (hwrite'.symm.trans hb')
    constructor
    · have hid := (hlisted hf hother).mpr ⟨.write, hwrite⟩
      rw [List.count_eq_one_of_mem hnodup hid] at hcount
      refine hread'.mp ?_
      by_contra hno
      rw [if_neg hno] at hcount
      exact one_ne_zero hcount
    · intro above hsource
      obtain ⟨a, ha, hgrant⟩ := (hwritten hf).mp (hpermission.mpr (hwrite''.mpr hwrite))
      rw [Option.some.inj (hsource.symm.trans ha)]
      exact hgrant
  · intro hcovered
    refine ⟨results, hresults, fun id f hf hother ↦ ?_⟩
    obtain ⟨read, hread, hread'⟩ := haccess hf hother .read
    obtain ⟨write, hwrite, hwrite'⟩ := haccess hf hother .write
    refine ⟨read, write, hread, hwrite, ?_, ?_⟩
    · have hiff : id ∈ results.map Listed.id ↔ read = true := by
        rw [hlisted hf hother, hread']
        constructor
        · rintro ⟨- | -, h⟩
          · exact h
          · exact (hcovered id f hf hother h).1
        · exact fun h ↦ ⟨.read, h⟩
      rw [hnodup.count, if_congr hiff rfl rfl]
    · rw [hwritten hf, hwrite']
      constructor
      · rintro ⟨above, hsource, hgrant⟩
        exact ⟨above, mem_ancestors.mpr (source_spec hsource).1, hgrant⟩
      · intro h
        obtain ⟨above, habove, hgrant⟩ := h
        obtain ⟨a, ha⟩ := exists_source howner hf hother (mem_ancestors.mp habove)
          (mem_getSharedFolderIds.mpr ⟨.write, hgrant⟩)
        exact ⟨a, ha, (hcovered id f hf hother ⟨above, habove, hgrant⟩).2 a ha⟩

end Access

/-- A folder of ann's with a subfolder. -/
def nestedTable : Table :=
  .ofList [(py "top", ⟨none, py "ann", some (py "Top"), 1⟩), (py "sub", ⟨some (py "top"), py "ann", some (py "Sub"), 2⟩)]

/-- Bob may write the folder; on the subfolder he has a read grant of its own. -/
def nestedGrants : List AccessGrant :=
  [⟨py "folder", py "top", .user, py "bob", .read⟩, ⟨py "folder", py "top", .user, py "bob", .write⟩,
    ⟨py "folder", py "sub", .user, py "bob", .read⟩]

def nestedReader : User := ⟨py "bob", []⟩

theorem nested_truth_iff : (∃ results, getSharedFolders nestedTable nestedGrants nestedReader = some results ∧
    TellsTruth nestedTable nestedGrants nestedReader results) ↔ Covered nestedTable nestedGrants nestedReader := by
  have hrows : ∀ e ∈ nestedTable.entries, e.2.valid = true := by decide
  have howners : ∀ e ∈ nestedTable.entries, ∀ e' ∈ nestedTable.entries, e.2.userId = e'.2.userId := by decide
  refine getSharedFolders_truth_iff (fun id f hf ↦ hrows _ (Keyed.get?_eq_some_iff.mp hf)) ?_ (by decide)
  intro id parent f g hf _ hg
  exact howners _ (Keyed.get?_eq_some_iff.mp hf) _ (Keyed.get?_eq_some_iff.mp hg)

/-- The subfolder is listed for reading though bob may write it. -/
theorem nested_not_truth : ¬ ∃ results, getSharedFolders nestedTable nestedGrants nestedReader = some results ∧
    TellsTruth nestedTable nestedGrants nestedReader results := by
  have hlist : (getSharedFolders nestedTable nestedGrants nestedReader).map (List.map fun e ↦ (e.id, e.permission)) =
      some [(py "sub", .read), (py "top", .write)] := by decide
  have hwrite : hasFolderAccess nestedTable nestedGrants nestedReader (py "sub")
      ⟨some (py "top"), py "ann", some (py "Sub"), 2⟩ .write = some true := by decide
  rintro ⟨results, hresults, htruth⟩
  rw [hresults, Option.map_some] at hlist
  obtain ⟨read, write, -, hwrite', -, hpermission⟩ := htruth (py "sub") ⟨some (py "top"), py "ann", some (py "Sub"), 2⟩
    (by decide) (by decide)
  obtain rfl := Option.some.inj (hwrite.symm.trans hwrite')
  obtain ⟨e, he, hid, hp⟩ := hpermission.mpr rfl
  have hpair : (e.id, e.permission) ∈ results.map fun e ↦ (e.id, e.permission) := List.mem_map_of_mem he
  rw [Option.some.inj hlist, hid, hp] at hpair
  exact absurd hpair (by decide)

end FourCE.Folders
