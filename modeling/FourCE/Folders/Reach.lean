import FourCE.Folders.Requests

/-!
# Whose folders a request changes

The table functions behind the folder routes select the rows of one user before they write.  What they write is
therefore that user's; the rows of others stay as they are, whatever the requests and their order.
-/

namespace FourCE.Folders

open FourCE.Library FourCE.Python

/-! ## The rows of other users -/

section Others

variable {t t' : Table} {user_id : PyStr}

/-- The rows of other users are as they were. -/
def KeepsOthers (user_id : PyStr) (t t' : Table) : Prop :=
  ∀ id f, t.get? id = some f → f.userId ≠ user_id → t'.get? id = some f

theorem KeepsOthers.refl (user_id : PyStr) (t : Table) : KeepsOthers user_id t t := fun _ _ hf _ ↦ hf

theorem KeepsOthers.trans {t₁ t₂ t₃ : Table} (h : KeepsOthers user_id t₁ t₂) (h' : KeepsOthers user_id t₂ t₃) :
    KeepsOthers user_id t₁ t₃ := fun id f hf hother ↦ h' id f (h id f hf hother) hother

theorem keepsOthers_set {id : PyStr} {f : Folder} (hf : t.get? id = some f) (huser : f.userId = user_id) (g : Folder) :
    KeepsOthers user_id t (t.set id g) := by
  intro x h hx hother
  rw [Keyed.get?_set, if_neg]
  · exact hx
  · rintro rfl
    exact hother (Option.some.inj (hf.symm.trans hx) ▸ huser)

theorem keepsOthers_delete {id : PyStr} (hrow : ∀ f, t.get? id = some f → f.userId = user_id) :
    KeepsOthers user_id t (t.delete id) := by
  intro x h hx hother
  unfold Table.delete
  rw [Keyed.get?_filterKeys, if_pos]
  · exact hx
  · refine decide_eq_true ?_
    rintro rfl
    exact hother (hrow h hx)

theorem keepsOthers_updateFolderParentId (t : Table) (id user_id : PyStr) (parent_id : Option PyStr) (now : ℤ) :
    KeepsOthers user_id t (t.updateFolderParentId id user_id parent_id now).1 := by
  unfold Table.updateFolderParentId
  rcases hrow : (t.get? id).filter (·.userId = user_id) with - | folder
  · rw [hrow]
    exact .refl user_id t
  · obtain ⟨hget, huser⟩ := Option.filter_eq_some_iff.mp hrow
    rw [hrow]
    exact keepsOthers_set hget (of_decide_eq_true huser) _

theorem keepsOthers_updateFolder (t : Table) (id user_id : PyStr) (form : FolderUpdateForm) (now : ℤ) :
    KeepsOthers user_id t (t.updateFolder id user_id form now).1 := by
  unfold Table.updateFolder
  rcases hrow : (t.get? id).filter (·.userId = user_id) with - | folder
  · rw [hrow]
    exact .refl user_id t
  · obtain ⟨hget, huser⟩ := Option.filter_eq_some_iff.mp hrow
    rw [hrow]
    simp only
    split
    · exact .refl user_id t
    · exact keepsOthers_set hget (of_decide_eq_true huser) _

theorem keepsOthers_heal {now : ℤ} {s s' : Healing} {folder : PyStr × Folder} (h : heal user_id now s folder = some s') :
    KeepsOthers user_id s.table s'.table := by
  have hgo (broken : Bool) (keep : Healing) (hkeep : keep.table = s.table) (h : (if broken = true then
      (s.table.updateFolderParentId folder.1 user_id none now).2.bind fun moved ↦
        some ⟨s.parentById.set folder.1 none, (s.table.updateFolderParentId folder.1 user_id none now).1,
          s.folderList ++ [(folder.1, moved)]⟩ else some keep) = some s') : KeepsOthers user_id s.table s'.table := by
    cases broken with
    | false =>
      obtain rfl := Option.some.inj h
      rw [hkeep]
      exact .refl user_id s.table
    | true =>
      obtain ⟨moved, -, h⟩ := Option.bind_eq_some_iff.mp h
      obtain rfl := Option.some.inj h
      exact keepsOthers_updateFolderParentId s.table folder.1 user_id none now
  unfold heal at h
  simp only at h
  rcases hparent : folder.2.parentId.filter (· ≠ []) with - | parent_id
  · rw [hparent] at h
    obtain rfl := Option.some.inj h
    exact .refl user_id s.table
  · rw [hparent] at h
    simp only at h
    split at h <;> obtain ⟨broken, -, h⟩ := Option.bind_eq_some_iff.mp h <;>
      exact hgo broken ⟨s.parentById, s.table, s.folderList ++ [folder]⟩ rfl h

theorem keepsOthers_foldlM_heal {now : ℤ} (folders : List (PyStr × Folder)) {s s' : Healing}
    (h : folders.foldlM (heal user_id now) s = some s') : KeepsOthers user_id s.table s'.table := by
  induction folders generalizing s with
  | nil =>
    obtain rfl := Option.some.inj h
    exact .refl user_id s.table
  | cons folder folders ih =>
    rw [List.foldlM_cons] at h
    obtain ⟨s₁, hstep, hrest⟩ := Option.bind_eq_some_iff.mp h
    exact (keepsOthers_heal hstep).trans (ih hrest)

theorem keepsOthers_deleteChildren (user_id : PyStr) (depth : ℕ) (id : PyStr) (d : Table.Deleting) :
    KeepsOthers user_id d.table (Table.deleted (Table.deleteChildren user_id depth id d)) := by
  induction depth generalizing id d with
  | zero => exact .refl user_id d.table
  | succ depth ih =>
    rw [Table.deleteChildren]
    rcases hmodels : Table.models (d.table.childRows (some id) user_id) with - | children
    · exact .refl user_id d.table
    · have hrows : ∀ e ∈ children, ∀ f, d.table.get? e.1 = some f → f.userId = user_id := by
        intro e he f hf
        unfold Table.models at hmodels
        obtain rfl := (Option.some.inj (Option.ite_none_right_eq_some.mp hmodels).2).symm
        obtain ⟨g, hg, -, huser⟩ := mem_childRows.mp (List.mem_map_of_mem he)
        exact Option.some.inj (hg.symm.trans hf) ▸ huser
      simp only
      clear hmodels
      -- the rows deleted on the way only go, so the children are the user's to the end
      suffices h : ∀ d₁ : Table.Deleting, Within d₁.table d.table →
          KeepsOthers user_id d₁.table (Table.deleted (children.foldlM (fun s child ↦
            if child.1 ∈ s.seenIds then .ok s
            else (Table.deleteChildren user_id depth child.1 { s with seenIds := child.1 :: s.seenIds }).map fun s ↦
              { s with table := s.table.delete child.1, folderIds := s.folderIds ++ [child.1] }) d₁)) from
        h d (.refl d.table)
      induction children with
      | nil => exact fun d₁ _ ↦ .refl user_id d₁.table
      | cons child children ihc =>
        intro d₁ hwithin
        have hrest := ihc fun e he ↦ hrows e (List.mem_cons_of_mem child he)
        rw [List.foldlM_cons]
        by_cases hseen : child.1 ∈ d₁.seenIds
        · rw [if_pos hseen]
          exact hrest d₁ hwithin
        · rw [if_neg hseen]
          have hchild := ih child.1 { d₁ with seenIds := child.1 :: d₁.seenIds }
          have hsub := within_deleteChildren user_id depth child.1 { d₁ with seenIds := child.1 :: d₁.seenIds }
          rcases hdelete : Table.deleteChildren user_id depth child.1 { d₁ with seenIds := child.1 :: d₁.seenIds }
            with t' | d'
          · rw [hdelete] at hchild
            exact hchild
          · rw [hdelete] at hchild hsub
            have hsub' : Within d'.table d.table := Within.trans hsub hwithin
            have hhere : KeepsOthers user_id d'.table (d'.table.delete child.1) :=
              keepsOthers_delete fun f hf ↦ hrows child List.mem_cons_self f (hsub' _ f hf)
            refine (KeepsOthers.trans hchild hhere).trans ?_
            exact hrest { d' with table := d'.table.delete child.1, folderIds := d'.folderIds ++ [child.1] }
              ((within_delete d'.table child.1).trans hsub')

theorem keepsOthers_deleteFolder (t : Table) (id user_id : PyStr) (depth : ℕ) :
    KeepsOthers user_id t (t.deleteFolder id user_id depth).1 := by
  have hdelete := keepsOthers_deleteChildren user_id depth id ⟨t, [id], [id]⟩
  have hwithin := within_deleteChildren user_id depth id ⟨t, [id], [id]⟩
  unfold Table.deleteFolder
  rcases hrow : (t.get? id).filter (·.userId = user_id) with - | folder
  · rw [hrow]
    exact .refl user_id t
  · obtain ⟨hget, huser⟩ := Option.filter_eq_some_iff.mp hrow
    rw [hrow]
    simp only
    rcases hresult : Table.deleteChildren user_id depth id ⟨t, [id], [id]⟩ with t' | d
    · rw [hresult] at hdelete
      exact hdelete
    · rw [hresult] at hdelete hwithin
      refine KeepsOthers.trans hdelete (keepsOthers_delete fun f hf ↦ ?_)
      exact Option.some.inj (hget.symm.trans (hwithin id f hf)) ▸ of_decide_eq_true huser

end Others

/-- A row of another user that the user of a session may not write, at the time of the request. -/
def OutOfReach (s : Session) (t : Table) (id : PyStr) (f : Folder) : Prop :=
  f.userId ≠ s.user.id ∧ s.mayWrite t id f = false

theorem OutOfReach.not_admin {s : Session} {t : Table} {id : PyStr} {f : Folder} (h : OutOfReach s t id f) :
    s.admin = false := (Bool.or_eq_false_iff.mp h.2).1

/-! ## The routes -/

section Reach

variable {lower : PyStr → PyStr} {s : Session} {t : Table} {id : PyStr} {f : Folder}

theorem getFoldersTable_outOfReach (hf : t.get? id = some f) (h : OutOfReach s t id f) :
    (getFoldersTable s t).get? id = some f := by
  unfold getFoldersTable
  split
  · exact hf
  · rcases hfold : (t.getFoldersByUserId s.user.id).bind fun folders ↦
      folders.foldlM (heal s.user.id s.now) ⟨parentById folders, t, []⟩ with - | healed
    · exact hf
    · obtain ⟨folders, -, hfold⟩ := Option.bind_eq_some_iff.mp hfold
      exact keepsOthers_foldlM_heal folders hfold id f hf h.1

theorem createFolder_outOfReach (hf : t.get? id = some f) (form : FolderForm) (id' : PyStr) :
    (createFolder lower s t form id').1.get? id = some f := by
  unfold createFolder
  rcases createOwner lower s t form with failure | owner
  · exact hf
  · simp only
    unfold Table.insertNewFolder
    split
    · exact hf
    · next hnew =>
      rw [Keyed.get?_set, if_neg]
      · exact hf
      · rintro rfl
        exact hnew (Keyed.mem_keys.mpr ⟨f, hf⟩)

theorem get?_updateFolder_of_ne {id' user_id : PyStr} (hid : id' ≠ id) (hf : t.get? id = some f) {form : FolderUpdateForm}
    {now : ℤ} : (t.updateFolder id' user_id form now).1.get? id = some f := by
  unfold Table.updateFolder
  rcases hrow : (t.get? id').filter (·.userId = user_id) with - | row
  · rw [hrow]
    exact hf
  · rw [hrow]
    simp only
    split
    · exact hf
    · rw [Keyed.get?_set, if_neg (Ne.symm hid)]
      exact hf

theorem updateFolderNameById_outOfReach (hf : t.get? id = some f) (h : OutOfReach s t id f) (id' : PyStr)
    (form : FolderUpdateForm) : (updateFolderNameById lower s t id' form).1.get? id = some f := by
  unfold updateFolderNameById
  split
  · exact hf
  · rcases hfolder : (t.getFolderByIdAndUserId id' s.user.id).or ((t.getFolderById id').filter (s.mayWrite t id' ·))
      with - | folder
    · exact hf
    · simp only
      split
      · exact hf
      · rcases form.files folder.userId with - | failure
        · simp only
          by_cases hid : id' = id
          · subst hid
            -- the folder found is the row, and the session's or within its reach
            exfalso
            rcases Option.or_eq_some_iff.mp hfolder with hown | ⟨-, hwrite⟩
            · obtain ⟨hget, huser⟩ := Option.filter_eq_some_iff.mp hown
              obtain rfl := Option.some.inj (hf.symm.trans hget)
              exact h.1 (of_decide_eq_true (Bool.and_eq_true_iff.mp huser).1)
            · obtain ⟨hget, hwrite⟩ := Option.filter_eq_some_iff.mp hwrite
              obtain ⟨hget, -⟩ := Option.filter_eq_some_iff.mp hget
              obtain rfl := Option.some.inj (hf.symm.trans hget)
              exact absurd hwrite (by rw [h.2]; exact Bool.false_ne_true)
          · exact get?_updateFolder_of_ne hid hf
        · exact hf

theorem updateFolderParentIdById_outOfReach (hf : t.get? id = some f) (h : OutOfReach s t id f) (id' : PyStr)
    (parent_id : Option PyStr) : (updateFolderParentIdById lower s t id' parent_id).1.get? id = some f := by
  unfold updateFolderParentIdById
  split
  · exact hf
  · rcases t.getFolderByIdAndUserId id' s.user.id with - | folder
    · exact hf
    · simp only
      split
      · exact hf
      · split
        · exact hf
        · split
          · exact hf
          · exact keepsOthers_updateFolderParentId t id' s.user.id parent_id s.now id f hf h.1

theorem deleteFolderById_outOfReach (hf : t.get? id = some f) (h : OutOfReach s t id f) (id' : PyStr)
    (chats : List PyStr → Bool) (depth : ℕ) : (deleteFolderById s t id' chats depth).1.get? id = some f := by
  unfold deleteFolderById
  split
  · exact hf
  · rcases (t.getFolderByIdAndUserId id' s.user.id).or (t.getFolderById id') with - | folder
    · exact hf
    · simp only
      rw [h.not_admin, Bool.not_false, Bool.and_true]
      split
      · exact hf
      · next howner =>
        have huser : folder.userId = s.user.id := by simpa using howner
        rcases (t.getFolderIdsInSubtree id' folder.userId).join with - | folder_ids
        · exact hf
        · simp only
          split
          · exact hf
          · rw [huser]
            exact keepsOthers_deleteFolder t id' s.user.id depth id f hf h.1

theorem after_outOfReach (hf : t.get? id = some f) {x : Session × FolderRequest} (h : OutOfReach x.1 t id f) :
    (after lower t x).get? id = some f := by
  obtain ⟨s, request⟩ := x
  cases request with
  | getFolders => exact getFoldersTable_outOfReach hf h
  | createFolder form id' => exact createFolder_outOfReach hf form id'
  | updateFolderNameById id' form => exact updateFolderNameById_outOfReach hf h id' form
  | updateFolderParentIdById id' parent_id => exact updateFolderParentIdById_outOfReach hf h id' parent_id
  | deleteFolderById id' chats depth => exact deleteFolderById_outOfReach hf h id' chats depth

end Reach

/-- A folder stays as it is in any run of requests by users who neither own it nor may write it when they ask. -/
theorem run_outOfReach (lower : PyStr → PyStr) {id : PyStr} {f : Folder} (first later : List (Session × FolderRequest))
    (hf : (run lower first).get? id = some f)
    (h : ∀ before x rest, later = before ++ x :: rest → OutOfReach x.1 (run lower (first ++ before)) id f) :
    (run lower (first ++ later)).get? id = some f := by
  induction later using List.reverseRecOn with
  | nil => rwa [List.append_nil]
  | append_singleton later x ih =>
    rw [← List.append_assoc, run_concat]
    refine after_outOfReach (ih fun before y rest heq ↦ h before y (rest ++ [x]) ?_) (h later x [] rfl)
    rw [heq, List.append_assoc, List.cons_append]

/-- Eve asks to delete Ann's folder. -/
theorem eve_outOfReach : (run asciiCasing.lower (sharedRun.take 1 ++
    [(sessionOf (py "eve"), .deleteFolderById (py "top") (fun _ ↦ false) 100)])).get? (py "top") =
      some ⟨none, py "ann", some (py "Top"), 1⟩ := by
  refine run_outOfReach asciiCasing.lower _ _ (by decide) fun before x rest heq ↦ ?_
  cases before with
  | nil =>
    obtain ⟨hx, -⟩ := List.cons.inj heq
    subst hx
    exact ⟨by decide, by decide⟩
  | cons y before =>
    obtain ⟨-, hnil⟩ := List.cons.inj heq
    exact absurd hnil.symm (List.append_ne_nil_of_right_ne_nil _ (List.cons_ne_nil x rest))

end FourCE.Folders
