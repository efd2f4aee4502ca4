import Mathlib.Data.List.Induction
import FourCE.Knowledge.Deletion
import FourCE.Sop.Disposition

/-!
# Requests on one knowledge base

Sequences of requests that change directories and the places of files, from knowledge bases that are
empty.  They stay inside exactly if no request gives a directory or a file a place that is not one of the
knowledge base it is on; `create_knowledge_directory`, `update_knowledge_directory` and
`add_file_to_knowledge_by_id` do not ask.
-/

namespace FourCE.Knowledge

open FourCE.Library FourCE.Python Relation

variable {F : Type} {services : Services} {s s' s'' : State F}

/-! ## Files -/

/-- Rows of files are removed. -/
theorem Inside.shrink (h : Inside s) (hdirectories : s'.directories = s.directories)
    (hrow : ∀ key row, s'.knowledgeFiles.get? key = some row → s.knowledgeFiles.get? key = some row) :
    Inside s' := by
  refine h.congr (fun x ↦ ?_) (parentOf_congr hdirectories) fun k f b hb hne ↦ h.placed k f b ?_ hne
  · unfold State.owner
    rw [hdirectories]
  · unfold State.placeOf at hb ⊢
    obtain ⟨row, hkey, hb⟩ := Option.bind_eq_some_iff.mp hb
    rw [hrow _ row hkey]
    exact hb

theorem Rows.shrink (h : Rows s) (hdirectories : s'.directories = s.directories)
    (hknowledges : s'.knowledges = s.knowledges)
    (hrow : ∀ key row, s'.knowledgeFiles.get? key = some row → s.knowledgeFiles.get? key = some row) :
    Rows s' where
  named := by
    have hnamed := h.named
    unfold State.owner at hnamed ⊢
    rwa [hdirectories]
  held k f hf := by
    rw [hknowledges]
    obtain ⟨row, hkey⟩ := Option.isSome_iff_exists.mp hf
    refine h.held k f ?_
    unfold State.hasFile
    rw [hrow _ row hkey]
    rfl

theorem confined_foldl {α : Type} {id : PyStr} {step : State F → α → State F}
    (hstep : ∀ s a, Inside s → Rows s → Confined id s (step s a)) (xs : List α) (h : Inside s)
    (hrows : Rows s) : Confined id s (xs.foldl step s) := by
  induction xs generalizing s with
  | nil => exact .refl id h hrows
  | cons x xs ih =>
    have hfirst := hstep s x h hrows
    exact hfirst.trans (ih hfirst.inside hfirst.rows)

theorem confined_removeFile (h : Inside s) (hrows : Rows s) (id f : PyStr) :
    Confined id s (s.removeFileFromKnowledgeById services id f) := by
  unfold State.removeFileFromKnowledgeById
  split_ifs
  · have hrow : ∀ key row, (s.knowledgeFiles.filterKeys (· ≠ (id, f))).get? key = some row →
        s.knowledgeFiles.get? key = some row := by
      intro key row hkey
      rw [Keyed.get?_filterKeys] at hkey
      split_ifs at hkey
      exact hkey
    refine ⟨h.shrink rfl hrow, hrows.shrink rfl rfl hrow, fun k hk ↦ ⟨fun _ _ hd _ ↦ hd, fun f' ↦ ?_,
      fun _ _ hf ↦ hf⟩⟩
    rw [Keyed.get?_filterKeys, if_pos]
    simp [hk]
  · exact .refl id h hrows

/-- A file that no knowledge base holds is deleted. -/
theorem confined_deleteFile (h : Inside s) (hrows : Rows s) (id : PyStr) {f : PyStr}
    (hfree : (s.getKnowledgesByFileId f).isEmpty = true) :
    Confined id s (s.deleteFileResource services f) := by
  have hnone : ∀ k, s.hasFile k f = false := by
    intro k
    by_contra hf
    rw [Bool.not_eq_false] at hf
    obtain ⟨knowledge, hk⟩ := Keyed.mem_keys.mp (hrows.held k f hf)
    have hmem : (k, knowledge) ∈ s.getKnowledgesByFileId f :=
      List.mem_filter.mpr ⟨Keyed.get?_eq_some_iff.mp hk, hf⟩
    rw [List.isEmpty_iff.mp hfree] at hmem
    exact List.not_mem_nil hmem
  unfold State.deleteFileResource
  split_ifs with haccepts henforces
  · have hkeep : ∀ key, (s.knowledgeFiles.filterKeys (·.2 ≠ f)).get? key = s.knowledgeFiles.get? key := by
      rintro ⟨k, f'⟩
      rw [Keyed.get?_filterKeys]
      split_ifs with hne
      · rfl
      · have heq : f' = f := by simpa using hne
        rw [heq]
        exact (Option.isNone_iff_eq_none.mp (Option.isSome_eq_false_iff.mp (hnone k))).symm
    have hrow : ∀ key row, (s.knowledgeFiles.filterKeys (·.2 ≠ f)).get? key = some row →
        s.knowledgeFiles.get? key = some row := fun key row hkey ↦ (hkeep key).symm.trans hkey
    refine ⟨h.shrink rfl hrow, hrows.shrink rfl rfl hrow, fun k _ ↦ ⟨fun _ _ hd _ ↦ hd,
      fun f' ↦ hkeep (k, f'), fun f' hheld hf ↦ ?_⟩⟩
    rw [Keyed.get?_filterKeys, if_pos]
    · exact hf
    · rw [decide_eq_true_eq]
      rintro rfl
      rw [hnone] at hheld
      cases hheld
  · refine ⟨h.shrink rfl fun _ _ hkey ↦ hkey, hrows.shrink rfl rfl fun _ _ hkey ↦ hkey, fun k _ ↦
      ⟨fun _ _ hd _ ↦ hd, fun _ ↦ rfl, fun f' hheld hf ↦ ?_⟩⟩
    rw [Keyed.get?_filterKeys, if_pos]
    · exact hf
    · rw [decide_eq_true_eq]
      rintro rfl
      rw [hnone] at hheld
      cases hheld
  · exact .refl id h hrows

theorem confined_cleanupFile (user : User) (id f : PyStr) (h : Inside s) (hrows : Rows s) :
    Confined id s (cleanupFile services user id s f) := by
  unfold cleanupFile
  split
  · exact .refl id h hrows
  split
  · exact .refl id h hrows
  have hremoved : Confined id s (s.removeFileFromKnowledgeById services id f) :=
    confined_removeFile h hrows id f
  dsimp only
  split
  · next hcond =>
    simp only [Bool.and_eq_true] at hcond
    exact hremoved.trans (confined_deleteFile hremoved.inside hremoved.rows id hcond.1.2)
  · exact hremoved

theorem confined_cleanupDirectory (id d : PyStr) (h : Inside s) (hrows : Rows s) :
    Confined id s (cleanupDirectory services id s d) := by
  unfold cleanupDirectory
  split_ifs with howns
  · exact .refl id h hrows
  · rw [Bool.not_eq_true, Bool.not_eq_false', State.ownsDirectory_iff] at howns
    exact confined_delete h hrows howns false

theorem confined_cleanup (user : User) (id : PyStr) (file_ids dir_ids : List PyStr) (h : Inside s)
    (hrows : Rows s) : Confined id s (syncKnowledgeCleanup services s user id file_ids dir_ids).1 := by
  unfold syncKnowledgeCleanup
  split_ifs
  · exact .refl id h hrows
  · have hfiles : Confined id s (file_ids.foldl (cleanupFile services user id) s) :=
      confined_foldl (fun s f ↦ confined_cleanupFile user id f) file_ids h hrows
    exact hfiles.trans (confined_foldl (fun s d ↦ confined_cleanupDirectory id d) dir_ids.reverse
      hfiles.inside hfiles.rows)

theorem confined_moveFile (h : Inside s) (hrows : Rows s) {id f : PyStr} {p : Option PyStr}
    (hown : Own s id p) : Confined id s (s.moveFileToDirectory services id f p).1 := by
  unfold State.moveFileToDirectory
  split_ifs
  · refine ⟨h.congr (fun _ ↦ rfl) (fun _ ↦ rfl) fun k f' b hb hne ↦ ?_, ⟨hrows.named, fun k f' hf ↦ ?_⟩,
      fun k hk ↦ ⟨fun _ _ hd _ ↦ hd, fun f' ↦ ?_, fun _ _ hf ↦ hf⟩⟩
    · unfold State.placeOf at hb
      dsimp only at hb
      rw [Keyed.get?_modify] at hb
      split_ifs at hb with hkey
      · obtain ⟨row', hrow', hdir⟩ := Option.bind_eq_some_iff.mp hb
        obtain ⟨row, -, rfl⟩ := Option.map_eq_some_iff.mp hrow'
        cases hkey
        exact hown b hdir hne
      · exact h.placed k f' b hb hne
    · refine hrows.held k f' ?_
      unfold State.hasFile at hf ⊢
      rw [Keyed.get?_modify] at hf
      split_ifs at hf
      · rwa [Option.isSome_map] at hf
      · exact hf
    · rw [Keyed.get?_modify, if_neg]
      simp [hk]
  · exact .refl id h hrows

/-- A file that is placed keeps the order exactly if its directory is one of the knowledge base. -/
theorem inside_addKnowledgeFile (h : Inside s) {id f user_id : PyStr} {p : Option PyStr} :
    Inside (s.addKnowledgeFile services id f user_id p) ↔
      (services.accepts (.insertKnowledgeFile id f) = true → s.hasFile id f = false → Own s id p) := by
  unfold State.addKnowledgeFile
  split_ifs with hcond
  · rw [Bool.and_eq_true, Bool.not_eq_true'] at hcond
    constructor
    · intro hin _ _ b hb hne
      refine hin.placed id f b ?_ hne
      unfold State.placeOf
      dsimp only
      rw [Keyed.get?_set, if_pos rfl]
      exact hb
    · intro hown
      refine h.congr (fun _ ↦ rfl) (fun _ ↦ rfl) fun k f' b hb hne ↦ ?_
      unfold State.placeOf at hb
      dsimp only at hb
      rw [Keyed.get?_set] at hb
      split_ifs at hb with hkey
      · cases hkey
        exact hown hcond.1 hcond.2 b hb hne
      · exact h.placed k f' b hb hne
  · refine iff_of_true h fun haccepts hfree ↦ ?_
    rw [haccepts, hfree] at hcond
    exact (hcond rfl).elim

theorem rows_addKnowledgeFile (hrows : Rows s) {id f user_id : PyStr} {p : Option PyStr}
    (hid : id ∈ s.knowledges.keys) : Rows (s.addKnowledgeFile services id f user_id p) := by
  unfold State.addKnowledgeFile
  split_ifs
  · refine ⟨hrows.named, fun k f' hf ↦ ?_⟩
    unfold State.hasFile at hf
    dsimp only at hf
    rw [Keyed.get?_set] at hf
    split_ifs at hf with hkey
    · cases hkey
      exact hid
    · exact hrows.held k f' hf
  · exact hrows

theorem untouched_addKnowledgeFile {id k f user_id : PyStr} {p : Option PyStr} (hk : k ≠ id) :
    Untouched k s (s.addKnowledgeFile services id f user_id p) := by
  unfold State.addKnowledgeFile
  split_ifs
  · refine ⟨fun _ _ hd _ ↦ hd, fun f' ↦ ?_, fun _ _ hf ↦ hf⟩
    dsimp only
    rw [Keyed.get?_set, if_neg]
    simp [hk]
  · exact .refl k s

theorem untouched_rewrites {P : PyStr → Prop} (h : Rewrites P s s') (k : PyStr) : Untouched k s s' := by
  have hfiles := h.isSome
  obtain ⟨files, rfl⟩ := h.rest
  exact ⟨fun _ _ hd _ ↦ hd, fun _ ↦ rfl, fun f _ hf ↦ (hfiles f).trans hf⟩

theorem inside_rewrites {P : PyStr → Prop} (h : Rewrites P s s') : Inside s' ↔ Inside s := by
  obtain ⟨files, rfl⟩ := h.rest
  exact ⟨fun hin ↦ hin.congr (fun _ ↦ rfl) (fun _ ↦ rfl) hin.placed,
    fun hin ↦ hin.congr (fun _ ↦ rfl) (fun _ ↦ rfl) hin.placed⟩

/-! ## Requests -/

inductive Request
  | createDirectory (name : PyStr) (parent_id : Option PyStr)
  | updateDirectory (dir_id : PyStr) (name parent_id : Option PyStr)
  | deleteDirectory (dir_id : PyStr) (move_files : Bool)
  | moveFile (file_id : PyStr) (directory_id : Option PyStr)
  | addFile (form_data : KnowledgeFileIdForm)
  | cleanup (file_ids dir_ids : List PyStr)

/-- A request of a user on a knowledge base, with what stands around it. -/
structure Call where
  services : Services
  user : User
  id : PyStr
  request : Request

variable [Runtime F]

def Call.run (c : Call) (s : State F) : State F :=
  match c.request with
  | .createDirectory name parent_id => (createKnowledgeDirectory c.services s c.user c.id name parent_id).1
  | .updateDirectory dir_id name parent_id =>
    (updateKnowledgeDirectory c.services s c.user c.id dir_id name parent_id).1
  | .deleteDirectory dir_id move_files =>
    (deleteKnowledgeDirectory c.services s c.user c.id dir_id move_files).1
  | .moveFile file_id directory_id => (moveFileInKnowledge c.services s c.user c.id file_id directory_id).1
  | .addFile form_data => (addFileToKnowledgeById c.services s c.user c.id form_data).1
  | .cleanup file_ids dir_ids => (syncKnowledgeCleanup c.services s c.user c.id file_ids dir_ids).1

/-- A directory or a file that the request is let to place gets a directory of the knowledge base, or
none. -/
def Call.PlacesInside (c : Call) (s : State F) : Prop :=
  s.verifyKnowledgeWriteAccess c.id c.user = true → match c.request with
    | .createDirectory name parent_id =>
      c.services.accepts (.insertDirectory c.services.uuid) = true → c.services.uuid ∉ s.directories.keys →
        s.nameTaken ⟨c.id, parent_id, name, c.user.id⟩ = false → Own s c.id parent_id
    | .updateDirectory dir_id _ parent_id =>
      s.owner dir_id = some c.id → parent_id ≠ some (py "__unset__") →
        s.wouldCycle dir_id parent_id = false → c.services.accepts (.moveDirectory dir_id) = true →
        Own s c.id parent_id
    | .addFile form_data => ∀ file, s.files.get? form_data.fileId = some file → file.data.getD [] ≠ [] →
      mayReadFile s c.user form_data.fileId file = true →
      (processFile c.services s c.user form_data.fileId c.id).2 = true →
      c.services.accepts (.insertKnowledgeFile c.id form_data.fileId) = true →
      s.hasFile c.id form_data.fileId = false → Own s c.id form_data.directoryId
    | _ => True

omit [Runtime F] in
theorem mem_of_verify {id : PyStr} {user : User} (h : s.verifyKnowledgeWriteAccess id user = true) :
    id ∈ s.knowledges.keys := by
  unfold State.verifyKnowledgeWriteAccess at h
  split at h
  · cases h
  · next knowledge hknowledge => exact Keyed.mem_keys.mpr ⟨knowledge, hknowledge⟩

omit [Runtime F] in
theorem rows_createDirectory (hrows : Rows s) {d : Directory}
    (hs : s.createDirectory services d = some s') : Rows s' := by
  obtain ⟨-, rfl⟩ := createDirectory_eq hs
  refine ⟨?_, hrows.held⟩
  unfold State.owner
  rw [Keyed.get?_set, if_neg services.uuid_ne_nil.symm]
  exact hrows.named

omit [Runtime F] in
theorem rows_updateDirectory (hrows : Rows s) (x : PyStr) (name p : Option PyStr) :
    Rows (s.updateDirectory services x name p).1 := by
  have hmodify : ∀ {s : State F} (f : Directory → Directory), Rows s →
      Rows { s with directories := s.directories.modify x f } := by
    intro s f hrows
    refine ⟨?_, hrows.held⟩
    have hnamed := hrows.named
    unfold State.owner at hnamed ⊢
    rw [Keyed.get?_modify]
    rw [Option.map_eq_none_iff] at hnamed
    rw [hnamed]
    simp
  have hrename : ∀ {s : State F}, Rows s → Rows (s.renameIfGiven services x name).1 := by
    intro s hrows
    unfold State.renameIfGiven
    cases name with
    | none => exact hrows
    | some name =>
      dsimp only
      split
      · exact hrows
      · next s' hs' =>
        rw [renameDirectory_eq hs']
        exact hmodify _ hrows
  unfold State.updateDirectory
  dsimp only
  split
  · exact hrows
  · next s' hmoved =>
    split_ifs at hmoved
    · obtain ⟨-, rfl⟩ := moveDirectory_eq hmoved
      exact hrename (hmodify _ hrows)
    · cases hmoved
      exact hrename hrows

/-- What one request does to a state in which directories stay inside. -/
structure Steps (c : Call) (s s' : State F) : Prop where
  inside : Inside s' ↔ c.PlacesInside s
  rows : Rows s'
  untouched : ∀ k, k ≠ c.id → Untouched k s s'

theorem Steps.of_confined {c : Call} (h : Confined c.id s s') (hplaces : c.PlacesInside s) : Steps c s s' :=
  ⟨iff_of_true h.inside hplaces, h.rows, h.untouched⟩

/-- A request that is not let in does nothing. -/
theorem steps_refused {c : Call} (h : Inside s) (hrows : Rows s)
    (hverify : s.verifyKnowledgeWriteAccess c.id c.user = false) : Steps c s s :=
  .of_confined (.refl c.id h hrows) fun hverify' ↦ by rw [hverify] at hverify'; cases hverify'

theorem steps_createDirectory {user : User} {id : PyStr} {name : PyStr} {parent_id : Option PyStr}
    (h : Inside s) (hrows : Rows s) (hverify : s.verifyKnowledgeWriteAccess id user = true) :
    Steps ⟨services, user, id, .createDirectory name parent_id⟩ s
      (createKnowledgeDirectory services s user id name parent_id).1 := by
  unfold createKnowledgeDirectory
  rw [hverify]
  rcases hcreate : s.createDirectory services ⟨id, parent_id, name, user.id⟩ with _ | s'
  · refine .of_confined (.refl id h hrows) fun _ haccepts hfresh hfree ↦ ?_
    have hcond : (services.accepts (.insertDirectory services.uuid) &&
        decide (services.uuid ∉ s.directories.keys) && !s.nameTaken ⟨id, parent_id, name, user.id⟩) = true := by
      simp only [Bool.and_eq_true, decide_eq_true_eq, Bool.not_eq_true']
      exact ⟨⟨haccepts, hfresh⟩, hfree⟩
    unfold State.createDirectory at hcreate
    rw [if_pos hcond] at hcreate
    cases hcreate
  · refine ⟨(inside_create h hcreate).trans ⟨fun hown _ _ _ _ ↦ hown, fun hplaces ↦ ?_⟩,
      rows_createDirectory hrows hcreate, fun k _ ↦ untouched_create hcreate k⟩
    unfold State.createDirectory at hcreate
    split_ifs at hcreate with hcond
    simp only [Bool.and_eq_true, decide_eq_true_eq, Bool.not_eq_true'] at hcond
    exact hplaces hverify hcond.1.1 hcond.1.2 hcond.2

theorem steps_updateDirectory {user : User} {id dir_id : PyStr} {name parent_id : Option PyStr}
    (h : Inside s) (hrows : Rows s) (hverify : s.verifyKnowledgeWriteAccess id user = true) :
    Steps ⟨services, user, id, .updateDirectory dir_id name parent_id⟩ s
      (updateKnowledgeDirectory services s user id dir_id name parent_id).1 := by
  unfold updateKnowledgeDirectory
  rw [hverify]
  by_cases hx : s.owner dir_id = some id
  · rw [(State.ownsDirectory_iff s id dir_id).mpr hx]
    refine ⟨(inside_update h name hx).trans ⟨fun hcond _ _ ↦ hcond, fun hplaces ↦ hplaces hverify hx⟩,
      rows_updateDirectory hrows dir_id name parent_id, fun k hk ↦ untouched_update name parent_id hx hk⟩
  · rw [Bool.eq_false_iff.mpr fun howns ↦ hx ((State.ownsDirectory_iff s id dir_id).mp howns)]
    exact .of_confined (.refl id h hrows) fun _ hx' ↦ (hx hx').elim

theorem confined_deleteDirectory (user : User) (id dir_id : PyStr) (move_files : Bool) (h : Inside s)
    (hrows : Rows s) : Confined id s (deleteKnowledgeDirectory services s user id dir_id move_files).1 := by
  unfold deleteKnowledgeDirectory
  split_ifs with _ howns
  · exact .refl id h hrows
  · exact .refl id h hrows
  · rw [Bool.not_eq_true, Bool.not_eq_false', State.ownsDirectory_iff] at howns
    exact confined_delete h hrows howns move_files

theorem confined_moveFileInKnowledge (user : User) (id file_id : PyStr) (directory_id : Option PyStr)
    (h : Inside s) (hrows : Rows s) :
    Confined id s (moveFileInKnowledge services s user id file_id directory_id).1 := by
  unfold moveFileInKnowledge
  split_ifs with _ _ htarget
  · exact .refl id h hrows
  · exact .refl id h hrows
  · exact .refl id h hrows
  · refine confined_moveFile h hrows fun p hp hne ↦ ?_
    subst hp
    have htruthy : truthy (some p) = true := by simp [truthy, hne]
    simpa [htruthy, State.ownsDirectory_iff] using htarget

theorem steps_addFile {user : User} {id : PyStr} {form_data : KnowledgeFileIdForm}
    (h : Inside s) (hrows : Rows s) (hverify : s.verifyKnowledgeWriteAccess id user = true) :
    Steps ⟨services, user, id, .addFile form_data⟩ s
      (addFileToKnowledgeById services s user id form_data).1 := by
  unfold addFileToKnowledgeById
  rw [hverify]
  rcases hfile : s.files.get? form_data.fileId with _ | file
  · refine .of_confined (.refl id h hrows) fun _ file hfile' ↦ ?_
    rw [hfile] at hfile'
    cases hfile'
  have honly : ∀ file', s.files.get? form_data.fileId = some file' → file' = file := by
    intro file' hfile'
    rw [hfile] at hfile'
    exact (Option.some.inj hfile').symm
  dsimp only
  rw [if_neg (by simp)]
  by_cases hdata : file.data.getD [] = []
  · rw [if_pos hdata]
    refine .of_confined (.refl id h hrows) fun _ file' hfile' hdata' ↦ ?_
    exact (hdata' (honly file' hfile' ▸ hdata)).elim
  rw [if_neg hdata]
  rcases hmay : mayReadFile s user form_data.fileId file with _ | _
  · refine .of_confined (.refl id h hrows) fun _ file' hfile' _ hmay' ↦ ?_
    rw [honly file' hfile', hmay] at hmay'
    cases hmay'
  rw [if_neg (by simp)]
  obtain ⟨s₁, processed, hprocess⟩ :
      ∃ s₁ processed, processFile services s user form_data.fileId id = (s₁, processed) := ⟨_, _, rfl⟩
  have hrewrites : Rewrites (fun f ↦ f = form_data.fileId ∧ mayProcess s user f) s
      (processFile services s user form_data.fileId id).1 := rewrites_processFile user form_data.fileId id
  rw [hprocess] at hrewrites
  have hinside := (inside_rewrites hrewrites).mpr h
  have huntouched := untouched_rewrites hrewrites
  obtain ⟨files, rfl⟩ := hrewrites.rest
  have hrows₁ : Rows { s with files := files } := ⟨hrows.named, hrows.held⟩
  rw [hprocess]
  dsimp only
  cases processed with
  | false =>
    rw [if_neg (by simp)]
    refine .of_confined ⟨hinside, hrows₁, fun k _ ↦ huntouched k⟩ fun _ _ _ _ _ hdone ↦ ?_
    dsimp only at hdone
    rw [hprocess] at hdone
    cases hdone
  | true =>
    rw [if_pos rfl]
    refine ⟨(inside_addKnowledgeFile hinside).trans ⟨fun hown _ _ _ _ _ _ ↦ hown, fun hplaces ↦ ?_⟩,
      rows_addKnowledgeFile hrows₁ (mem_of_verify hverify), fun k hk ↦
        (huntouched k).trans (untouched_addKnowledgeFile hk)⟩
    exact hplaces hverify file hfile hdata hmay (by dsimp only; rw [hprocess])

theorem steps_run (h : Inside s) (hrows : Rows s) (c : Call) : Steps c s (c.run s) := by
  obtain ⟨services, user, id, request⟩ := c
  rcases hverify : s.verifyKnowledgeWriteAccess id user with _ | _
  · have hrefused : (Call.mk services user id request).run s = s := by
      cases request <;>
        simp [Call.run, createKnowledgeDirectory, updateKnowledgeDirectory, deleteKnowledgeDirectory,
          moveFileInKnowledge, addFileToKnowledgeById, syncKnowledgeCleanup, hverify]
    rw [hrefused]
    exact steps_refused h hrows hverify
  cases request with
  | createDirectory name parent_id => exact steps_createDirectory h hrows hverify
  | updateDirectory dir_id name parent_id => exact steps_updateDirectory h hrows hverify
  | deleteDirectory dir_id move_files =>
    exact .of_confined (confined_deleteDirectory user id dir_id move_files h hrows) fun _ ↦ trivial
  | moveFile file_id directory_id =>
    exact .of_confined (confined_moveFileInKnowledge user id file_id directory_id h hrows) fun _ ↦ trivial
  | addFile form_data => exact steps_addFile h hrows hverify
  | cleanup file_ids dir_ids =>
    exact .of_confined (confined_cleanup user id file_ids dir_ids h hrows) fun _ ↦ trivial

/-! ## Sequences of requests -/

/-- The knowledge bases with nothing in them. -/
def State.emptied (s : State F) : State F :=
  { s with directories := ⟨[], List.nodup_nil⟩, knowledgeFiles := ⟨[], List.nodup_nil⟩ }

omit [Runtime F] in
theorem inside_emptied (s : State F) : Inside s.emptied ∧ Rows s.emptied := by
  have hnone : ∀ a b, ¬ s.emptied.IsParent a b := fun a b hab ↦ by cases hab.1
  have hacyclic : Acyclic s.emptied.IsParent := by
    intro a hcycle
    obtain ⟨b, hab, -⟩ := TransGen.head'_iff.mp hcycle
    exact hnone a b hab
  exact ⟨⟨fun a b _ _ hab ↦ (hnone a b hab).elim, fun _ _ _ hb ↦ (by cases hb), hacyclic⟩,
    ⟨rfl, fun _ _ hf ↦ by cases hf⟩⟩

def runAll (s : State F) (calls : List Call) : State F := calls.foldl (fun s c ↦ c.run s) s

/-- In every state reached directories stay inside, and no request moves or removes anything of another
knowledge base. -/
def StaysInside (s : State F) (calls : List Call) : Prop :=
  (∀ before, before <+: calls → Inside (runAll s before)) ∧
    ∀ before call, before ++ [call] <+: calls → ∀ k, k ≠ call.id →
      Untouched k (runAll s before) (call.run (runAll s before))

theorem inside_runAll (h : Inside s) (hrows : Rows s) {calls : List Call}
    (hplaces : ∀ before call, before ++ [call] <+: calls → call.PlacesInside (runAll s before)) :
    Inside (runAll s calls) ∧ Rows (runAll s calls) := by
  induction calls using List.reverseRecOn with
  | nil => exact ⟨h, hrows⟩
  | append_singleton before call ih =>
    obtain ⟨hinside, hrows'⟩ := ih fun before' call' hinit ↦
      hplaces before' call' (hinit.trans (List.prefix_append before [call]))
    have hstep := steps_run hinside hrows' call
    unfold runAll
    rw [List.foldl_append]
    exact ⟨hstep.inside.mpr (hplaces before call (List.prefix_refl _)), hstep.rows⟩

/-- Sequences of requests on empty knowledge bases stay inside exactly if every request places inside. -/
theorem stays_inside_iff (s : State F) (calls : List Call) :
    StaysInside s.emptied calls ↔
      ∀ before call, before ++ [call] <+: calls → call.PlacesInside (runAll s.emptied before) := by
  obtain ⟨hinside, hrows⟩ := inside_emptied s
  constructor
  · rintro ⟨hall, -⟩
    induction calls using List.reverseRecOn with
    | nil => intro before call hinit; simp at hinit
    | append_singleton calls last ih =>
      have hbefore := ih fun before hinit ↦ hall before (hinit.trans (List.prefix_append calls [last]))
      intro before call hinit
      rcases List.prefix_concat_iff.mp hinit with heq | hinit
      · obtain ⟨rfl, hlast⟩ := List.append_inj' heq rfl
        obtain rfl : call = last := List.singleton_inj.mp hlast
        have hreached := inside_runAll hinside hrows hbefore
        refine (steps_run hreached.1 hreached.2 call).inside.mp ?_
        have hafter := hall (before ++ [call]) (List.prefix_refl _)
        unfold runAll at hafter ⊢
        rwa [List.foldl_append] at hafter
      · exact hbefore before call hinit
  · intro hplaces
    have hreached : ∀ before, before <+: calls → Inside (runAll s.emptied before) ∧ Rows (runAll s.emptied before) :=
      fun before hbefore ↦ inside_runAll hinside hrows fun before' call hinit ↦
        hplaces before' call (hinit.trans hbefore)
    refine ⟨fun before hbefore ↦ (hreached before hbefore).1, fun before call hinit k hk ↦ ?_⟩
    obtain ⟨hin, hr⟩ := hreached before ((List.prefix_append before [call]).trans hinit)
    exact (steps_run hin hr call).untouched k hk

/-! ## A directory under another's -/

section

local instance textFloats : Runtime FloatLit := @Sop.textRuntime asciiTables

/-- Two knowledge bases of two users. -/
def twoBases : State FloatLit where
  files := ⟨[], List.nodup_nil⟩
  knowledges := ⟨[(py "a", ⟨py "ann", none⟩), (py "b", ⟨py "bob", none⟩)], by decide⟩
  directories := ⟨[], List.nodup_nil⟩
  knowledgeFiles := ⟨[], List.nodup_nil⟩
  models := ⟨[], List.nodup_nil⟩
  accessGrants := []
  groups _ := []
  inChannel _ _ := false
  sharedChats _ := []

/-- Bob has a directory; Ann puts one of hers under it; Bob deletes his. -/
def foreignParent : List Call :=
  [⟨openServices (py "d1") (by decide), ⟨py "bob", false⟩, py "b", .createDirectory (py "specs") none⟩,
    ⟨openServices (py "d2") (by decide), ⟨py "ann", false⟩, py "a", .createDirectory (py "notes") (some (py "d1"))⟩,
    ⟨openServices (py "d3") (by decide), ⟨py "bob", false⟩, py "b", .deleteDirectory (py "d1") true⟩]

theorem foreignParent_escapes : ¬ StaysInside twoBases.emptied foreignParent := by
  rintro ⟨-, huntouched⟩
  have hlast := huntouched (foreignParent.take 2)
    ⟨openServices (py "d3") (by decide), ⟨py "bob", false⟩, py "b", .deleteDirectory (py "d1") true⟩
    (List.prefix_refl _) (py "a") (by decide)
  have hbefore : (runAll twoBases.emptied (foreignParent.take 2)).directories.get? (py "d2") =
      some ⟨py "a", some (py "d1"), py "notes", py "ann"⟩ := by decide
  have hafter := hlast.directories (py "d2") _ hbefore rfl
  revert hafter
  decide

end

end FourCE.Knowledge
