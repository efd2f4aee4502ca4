import Mathlib.Data.List.Induction
import FourCE.Knowledge.Process
import FourCE.Sop.Disposition

/-!
# Read access does not become write access

A knowledge base gives write access only to files that its owner owns, and a user who is not an
administrator puts no other files into one: `process_file` and `process_files_batch` ask for the owner
where the routes before them ask for read access only.
-/

namespace FourCE.Knowledge

open FourCE.Library FourCE.Python

variable {F : Type} {services : Services} {s s' s'' : State F} {user : User} {file_id : PyStr}

/-- What a user's own requests leave as it was, of all that access to a file depends on. -/
structure Keeps (user : User) (file_id : PyStr) (s s' : State F) : Prop where
  file : s'.files.get? file_id = s.files.get? file_id
  held : ∀ k, s'.hasFile k file_id = s.hasFile k file_id
  knowledge : ∀ k, s'.knowledges.get? k = s.knowledges.get? k ∨
    s.knowledges.get? k = none ∧ ∃ created, s'.knowledges.get? k = some created ∧ created.userId = user.id
  grants : ∀ user_id k p, s.knowledges.get? k ≠ none →
    s'.hasAccess user_id .knowledge k p = s.hasAccess user_id .knowledge k p
  other : ∀ user_id t r p, t ≠ .knowledge → s'.hasAccess user_id t r p = s.hasAccess user_id t r p
  models : s'.models = s.models

theorem knowledgeOfMeta_eq_some {file : File F} {k : PyStr} {knowledge : KnowledgeBase F} :
    s.knowledgeOfMeta file = some (k, knowledge) ↔
      column file.metadata (py "collection_name") = some (.str k) ∧ k ≠ [] ∧
        s.knowledges.get? k = some knowledge := by
  unfold State.knowledgeOfMeta
  split
  · next id hid =>
    by_cases hne : id = []
    · rw [if_pos hne, hid]
      constructor
      · intro hnone
        cases hnone
      · rintro ⟨heq, hk, -⟩
        cases heq
        exact (hk hne).elim
    · rw [if_neg hne, Option.map_eq_some_iff, hid]
      constructor
      · rintro ⟨found, hfound, heq⟩
        cases heq
        exact ⟨rfl, hne, hfound⟩
      · rintro ⟨heq, -, hfound⟩
        cases heq
        exact ⟨knowledge, hfound, rfl⟩
  · next hnot =>
    constructor
    · intro hnone
      cases hnone
    · rintro ⟨heq, -⟩
      exact (hnot k heq).elim

namespace Keeps

theorem refl (user : User) (file_id : PyStr) (s : State F) : Keeps user file_id s s :=
  ⟨rfl, fun _ ↦ rfl, fun _ ↦ Or.inl rfl, fun _ _ _ _ ↦ rfl, fun _ _ _ _ _ ↦ rfl, rfl⟩

theorem trans (h : Keeps user file_id s s') (h' : Keeps user file_id s' s'') : Keeps user file_id s s'' where
  file := h'.file.trans h.file
  held k := (h'.held k).trans (h.held k)
  knowledge k := by
    rcases h.knowledge k with heq | ⟨hnone, created, hcreated, hown⟩
    · rw [← heq]
      exact h'.knowledge k
    · rcases h'.knowledge k with heq' | ⟨hnone', -⟩
      · exact Or.inr ⟨hnone, created, heq'.trans hcreated, hown⟩
      · rw [hcreated] at hnone'
        cases hnone'
  grants user_id k p hk := by
    refine (h'.grants user_id k p ?_).trans (h.grants user_id k p hk)
    rcases h.knowledge k with heq | ⟨hnone, -⟩
    · rwa [heq]
    · exact (hk hnone).elim
  other user_id t r p ht := (h'.other user_id t r p ht).trans (h.other user_id t r p ht)
  models := h'.models.trans h.models

/-- A knowledge base of the owner of the file is one that was there. -/
theorem knowledge_of_owner (h : Keeps user file_id s s') {k : PyStr} {knowledge : KnowledgeBase F}
    (hk : s'.knowledges.get? k = some knowledge) (howner : knowledge.userId ≠ user.id) :
    s.knowledges.get? k = some knowledge := by
  rcases h.knowledge k with heq | ⟨-, created, hcreated, hown⟩
  · exact heq.symm.trans hk
  · rw [hcreated] at hk
    cases hk
    exact (howner hown).elim

theorem confers (h : Keeps user file_id s s') {owner k : PyStr} {knowledge : KnowledgeBase F}
    (howner : owner ≠ user.id) (hk : s'.knowledges.get? k = some knowledge)
    (hconfers : s'.knowledgeConfers owner .write user (k, knowledge) = true) :
    s.knowledges.get? k = some knowledge ∧ s.knowledgeConfers owner .write user (k, knowledge) = true := by
  unfold State.knowledgeConfers at hconfers ⊢
  have heq : knowledge.userId = owner := by simpa using (Bool.and_eq_true_iff.mp hconfers).2
  have hold := h.knowledge_of_owner hk (heq ▸ howner)
  refine ⟨hold, ?_⟩
  rwa [h.grants user.id k .write (by rw [hold]; exact Option.some_ne_none knowledge)] at hconfers

/-- Access that is there afterwards was there before. -/
theorem hasAccessToFile (h : Keeps user file_id s s') {file : File F}
    (hfile : s.files.get? file_id = some file) (howner : file.userId ≠ user.id)
    (haccess : s'.hasAccessToFile file_id .write user = true) :
    s.hasAccessToFile file_id .write user = true := by
  unfold State.hasAccessToFile at haccess ⊢
  rw [h.file, hfile] at haccess
  rw [hfile]
  dsimp only at haccess ⊢
  rw [if_neg howner] at haccess ⊢
  by_cases hbases : (s.getKnowledgesByFileId file_id).any (s.knowledgeConfers file.userId .write user) = true
  · rw [if_pos hbases]
  have hbases' : ¬ (s'.getKnowledgesByFileId file_id).any (s'.knowledgeConfers file.userId .write user) = true := by
    intro hany
    obtain ⟨⟨k, knowledge⟩, hmem, hconfers⟩ := List.any_eq_true.mp hany
    obtain ⟨hentry, hheld⟩ := List.mem_filter.mp hmem
    obtain ⟨hold, hconfers'⟩ := h.confers howner (Keyed.get?_eq_some_iff.mpr hentry) hconfers
    refine hbases (List.any_eq_true.mpr ⟨(k, knowledge), List.mem_filter.mpr ⟨?_, ?_⟩, hconfers'⟩)
    · exact Keyed.get?_eq_some_iff.mp hold
    · exact (h.held k).symm.trans hheld
  rw [if_neg hbases'] at haccess
  rw [if_neg hbases]
  by_cases hmeta : (s.knowledgeOfMeta file).any (s.knowledgeConfers file.userId .write user) = true
  · rw [if_pos hmeta]
  have hmeta' : ¬ (s'.knowledgeOfMeta file).any (s'.knowledgeConfers file.userId .write user) = true := by
    intro hany
    obtain ⟨⟨k, knowledge⟩, hnamed, hconfers⟩ := (Option.any_eq_true _ _).mp hany
    obtain ⟨hnames, hne, hfound⟩ := knowledgeOfMeta_eq_some.mp hnamed
    obtain ⟨hold, hconfers'⟩ := h.confers howner hfound hconfers
    exact hmeta ((Option.any_eq_true _ _).mpr
      ⟨(k, knowledge), knowledgeOfMeta_eq_some.mpr ⟨hnames, hne, hold⟩, hconfers'⟩)
  rw [if_neg hmeta'] at haccess
  rw [if_neg hmeta]
  have howners : s'.getModelOwnersAttachingFile file_id = s.getModelOwnersAttachingFile file_id := by
    unfold State.getModelOwnersAttachingFile
    rw [h.models]
  have hgrants : ∀ ids, s'.getAccessibleResourceIds user.id .model ids .write =
      s.getAccessibleResourceIds user.id .model ids .write := by
    intro ids
    unfold State.getAccessibleResourceIds
    refine List.filter_congr fun id _ ↦ h.other user.id .model id .write nofun
  rw [howners, hgrants] at haccess
  exact haccess

end Keeps

/-! ## What a request leaves as it was -/

theorem keeps_rewrites {P : PyStr → Prop} (h : Rewrites P s s') (hP : ¬ P file_id) : Keeps user file_id s s' := by
  have hfile := h.frame file_id hP
  obtain ⟨files, rfl⟩ := h.rest
  exact ⟨hfile, fun _ ↦ rfl, fun _ ↦ Or.inl rfl, fun _ _ _ _ ↦ rfl, fun _ _ _ _ _ ↦ rfl, rfl⟩

/-- Another file is put somewhere. -/
theorem keeps_addKnowledgeFile {k f user_id : PyStr} {p : Option PyStr} (hf : f ≠ file_id) :
    Keeps user file_id s (s.addKnowledgeFile services k f user_id p) := by
  unfold State.addKnowledgeFile
  split_ifs
  · refine ⟨rfl, fun k' ↦ ?_, fun _ ↦ Or.inl rfl, fun _ _ _ _ ↦ rfl, fun _ _ _ _ _ ↦ rfl, rfl⟩
    unfold State.hasFile
    dsimp only
    rw [Keyed.get?_set, if_neg]
    simp [hf.symm]
  · exact .refl user file_id s

/-- The grants of a knowledge base that is new say nothing about what was there. -/
theorem keeps_setAccessGrants {k : PyStr} (hk : s.knowledges.get? k = none) (access_grants : List GrantForm) :
    Keeps user file_id s (setAccessGrants { s with knowledges := s.knowledges.set k ⟨user.id, none⟩ }
      .knowledge k access_grants) := by
  have hgrants : ∀ user_id t r p, ¬ (t = .knowledge ∧ r = k) →
      (setAccessGrants { s with knowledges := s.knowledges.set k ⟨user.id, none⟩ } .knowledge k
        access_grants).hasAccess user_id t r p = s.hasAccess user_id t r p := by
    intro user_id t r p hother
    rw [Bool.eq_iff_iff]
    unfold State.hasAccess setAccessGrants
    simp only [List.any_append, List.any_filter, List.any_map, Bool.or_eq_true, List.any_eq_true,
      Bool.and_eq_true, decide_eq_true_eq, Bool.not_eq_true', Bool.and_eq_false_iff,
      decide_eq_false_iff_not, Function.comp_apply]
    constructor
    · rintro (⟨g, hg, -, hthis⟩ | ⟨g, -, ⟨⟨hr, hid⟩, -⟩, -⟩)
      · exact ⟨g, hg, hthis⟩
      · exact (hother ⟨hr.symm, hid.symm⟩).elim
    · rintro ⟨g, hg, hthis⟩
      have hr := hthis.1.1.1
      have hid := hthis.1.1.2
      refine Or.inl ⟨g, hg, ?_, hthis⟩
      rw [hr, hid]
      exact not_and_or.mp hother
  refine ⟨rfl, fun _ ↦ rfl, fun k' ↦ ?_, fun user_id k' p hk' ↦ ?_, fun user_id t r p ht ↦ ?_, rfl⟩
  · unfold setAccessGrants
    dsimp only
    rw [Keyed.get?_set]
    split_ifs with heq
    · exact Or.inr ⟨heq ▸ hk, ⟨user.id, none⟩, rfl, rfl⟩
    · exact Or.inl rfl
  · refine hgrants user_id .knowledge k' p fun hboth ↦ hk' ?_
    rw [hboth.2]
    exact hk
  · exact hgrants user_id t r p fun hboth ↦ ht hboth.1

theorem keeps_insertNewKnowledge (access_grants : List GrantForm) :
    Keeps user file_id s (insertNewKnowledge services s user.id access_grants).1 := by
  unfold insertNewKnowledge
  split_ifs with hcond haccepts
  · simp only [Bool.and_eq_true, decide_eq_true_eq] at hcond
    exact keeps_setAccessGrants (Keyed.get?_eq_none.mpr hcond.2) access_grants
  · simp only [Bool.and_eq_true, decide_eq_true_eq] at hcond
    have hnone := Keyed.get?_eq_none.mpr hcond.2
    refine ⟨rfl, fun _ ↦ rfl, fun k ↦ ?_, fun _ _ _ _ ↦ rfl, fun _ _ _ _ _ ↦ rfl, rfl⟩
    dsimp only
    rw [Keyed.get?_set]
    split_ifs with heq
    · exact Or.inr ⟨heq ▸ hnone, ⟨user.id, none⟩, rfl, rfl⟩
    · exact Or.inl rfl
  · exact .refl user file_id s

theorem keeps_createNewKnowledge (access_grants : List GrantForm) :
    Keeps user file_id s (createNewKnowledge services s user access_grants).1 := by
  unfold createNewKnowledge
  split_ifs
  · exact .refl user file_id s
  · exact keeps_insertNewKnowledge _

variable [Runtime F]

/-- Only a file that the user may process is processed. -/
theorem mayProcess_of_processFile {f k : PyStr} (h : (processFile services s user f k).2 = true) :
    mayProcess s user f := by
  unfold processFile at h
  split at h
  · cases h
  · next file hfile =>
    unfold State.fileToProcess at hfile
    split_ifs at hfile with hadmin
    · exact Or.inl hadmin
    · unfold State.getFileByIdAndUserId at hfile
      obtain ⟨hget, howner⟩ := Option.filter_eq_some_iff.mp hfile
      refine Or.inr ?_
      rw [hget]
      simpa using howner

theorem keeps_addFileToKnowledgeById (hnot : ¬ mayProcess s user file_id) (id : PyStr)
    (form_data : KnowledgeFileIdForm) :
    Keeps user file_id s (addFileToKnowledgeById services s user id form_data).1 := by
  have hprocess : Keeps user file_id s (processFile services s user form_data.fileId id).1 :=
    keeps_rewrites (rewrites_processFile user form_data.fileId id) fun hP ↦ hnot hP.2
  unfold addFileToKnowledgeById
  split
  · exact .refl user file_id s
  split
  · exact .refl user file_id s
  split
  · exact .refl user file_id s
  split
  · exact .refl user file_id s
  dsimp only
  split
  · next hdone =>
    refine hprocess.trans (keeps_addKnowledgeFile fun heq ↦ hnot ?_)
    exact heq ▸ mayProcess_of_processFile hdone
  · exact hprocess

omit [Runtime F] in
theorem keeps_foldl_addKnowledgeFile {id user_id : PyStr} {directory : PyStr → Option PyStr} {ids : List PyStr}
    (hids : file_id ∉ ids) (s : State F) :
    Keeps user file_id s (ids.foldl (fun s f ↦ s.addKnowledgeFile services id f user_id (directory f)) s) := by
  induction ids generalizing s with
  | nil => exact .refl user file_id s
  | cons f ids ih =>
    obtain ⟨hne, hrest⟩ := List.ne_and_not_mem_of_not_mem_cons hids
    exact (keeps_addKnowledgeFile hne.symm).trans (ih hrest _)

theorem keeps_addFilesToKnowledgeBatch (hnot : ¬ mayProcess s user file_id) (id : PyStr)
    (form_data : List KnowledgeFileIdForm) :
    Keeps user file_id s (addFilesToKnowledgeBatch services s user id form_data).1 := by
  unfold addFilesToKnowledgeBatch
  split
  · exact .refl user file_id s
  dsimp only
  split
  · exact .refl user file_id s
  split
  · exact .refl user file_id s
  split
  · exact .refl user file_id s
  split
  · exact .refl user file_id s
  · next s' successful hbatch =>
    obtain ⟨hrewrites, hmay⟩ := processFilesBatch_spec hbatch
    refine (keeps_rewrites hrewrites hnot).trans (keeps_foldl_addKnowledgeFile (fun hmem ↦ ?_) s')
    exact hnot (hmay file_id hmem)

/-! ## A user's requests -/

inductive OwnRequest
  | createKnowledge (access_grants : List GrantForm)
  | addFile (id : PyStr) (form_data : KnowledgeFileIdForm)
  | addFiles (id : PyStr) (form_data : List KnowledgeFileIdForm)

def OwnRequest.run (request : OwnRequest) (services : Services) (user : User) (s : State F) : State F :=
  match request with
  | .createKnowledge access_grants => (createNewKnowledge services s user access_grants).1
  | .addFile id form_data => (addFileToKnowledgeById services s user id form_data).1
  | .addFiles id form_data => (addFilesToKnowledgeBatch services s user id form_data).1

def runOwn (user : User) (s : State F) (requests : List (Services × OwnRequest)) : State F :=
  requests.foldl (fun s r ↦ r.2.run r.1 user s) s

theorem keeps_run (hnot : ¬ mayProcess s user file_id) (services : Services) (request : OwnRequest) :
    Keeps user file_id s (request.run services user s) := by
  cases request with
  | createKnowledge access_grants => exact keeps_createNewKnowledge access_grants
  | addFile id form_data => exact keeps_addFileToKnowledgeById hnot id form_data
  | addFiles id form_data => exact keeps_addFilesToKnowledgeBatch hnot id form_data

theorem keeps_runOwn (hnot : ¬ mayProcess s user file_id) (requests : List (Services × OwnRequest)) :
    Keeps user file_id s (runOwn user s requests) := by
  induction requests using List.reverseRecOn with
  | nil => exact .refl user file_id s
  | append_singleton requests r ih =>
    unfold runOwn
    rw [List.foldl_append]
    refine ih.trans (keeps_run ?_ r.1 r.2)
    unfold mayProcess at hnot ⊢
    rwa [ih.file]

/-- A user who may not write to another's file may not write to it after any requests of their own. -/
theorem no_laundering (s : State F) (user : User) (hadmin : user.admin = false) (file_id : PyStr)
    (file : File F) (hfile : s.files.get? file_id = some file) (howner : file.userId ≠ user.id)
    (hno : s.hasAccessToFile file_id .write user = false) (requests : List (Services × OwnRequest)) :
    (runOwn user s requests).hasAccessToFile file_id .write user = false := by
  have hnot : ¬ mayProcess s user file_id := by
    unfold mayProcess
    rw [hadmin, hfile]
    simp [howner]
  by_contra haccess
  rw [Bool.not_eq_false] at haccess
  have hbefore := (keeps_runOwn hnot requests).hasAccessToFile hfile howner haccess
  rw [hno] at hbefore
  cases hbefore

section

local instance sharedFloats : Runtime FloatLit := @Sop.textRuntime asciiTables

/-- Bob's knowledge base with a file of his, which Ann may read. -/
def sharedBase : State FloatLit where
  files := ⟨[(py "f", ⟨py "bob", py "notes.txt", none, some [(py "content", .str (py "text"))], none⟩)],
    by decide⟩
  knowledges := ⟨[(py "b", ⟨py "bob", none⟩)], by decide⟩
  directories := ⟨[], List.nodup_nil⟩
  knowledgeFiles := ⟨[((py "b", py "f"), ⟨none, py "bob"⟩)], by decide⟩
  models := ⟨[], List.nodup_nil⟩
  accessGrants := [⟨.knowledge, py "b", .user, py "ann", .read⟩]
  groups _ := []
  inChannel _ _ := false
  sharedChats _ := []

/-- Ann may read the file, and putting it into a knowledge base of her own does not let her write. -/
theorem no_laundering_sharedBase :
    sharedBase.hasAccessToFile (py "f") .read ⟨py "ann", false⟩ = true ∧
    (runOwn ⟨py "ann", false⟩ sharedBase
      [(openServices (py "k") (by decide), .createKnowledge []),
        (openServices (py "l") (by decide), .addFile (py "k") ⟨py "f", none⟩)]).hasAccessToFile
      (py "f") .write ⟨py "ann", false⟩ = false :=
  ⟨by decide, no_laundering sharedBase ⟨py "ann", false⟩ rfl (py "f") _ rfl (by decide)
    (by decide) _⟩

end

end FourCE.Knowledge
