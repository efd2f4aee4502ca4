import FourCE.Knowledge.Inside

/-!
# Deleting a directory

The deletion goes down the parents, which the database follows as well for the rows of directories.  In
a state where these stay inside a knowledge base, it reaches what lies under the directory and nothing
else, and leaves no file in a directory that is gone.
-/

namespace FourCE.Knowledge

open FourCE.Library FourCE.Python Relation

variable {F : Type} {services : Services} {s s' s'' : State F}

/-- `x` is `d` or lies below it. -/
def Under (s : State F) (d x : PyStr) : Prop := ReflTransGen (fun a b ↦ s.parentOf a = some b) x d

theorem under_of_liesUnder {d : PyStr} {n : ℕ} {x : PyStr} (h : s.liesUnder d n x = true) : Under s d x := by
  induction n generalizing x with
  | zero =>
    unfold State.liesUnder at h
    rw [of_decide_eq_true h]
    exact .refl
  | succ n ih =>
    unfold State.liesUnder at h
    rw [Bool.or_eq_true, decide_eq_true_eq] at h
    rcases h with rfl | h
    · exact .refl
    · obtain ⟨b, hb, hunder⟩ := (Option.any_eq_true _ _).mp h
      exact .head hb (ih hunder)

/-- Everything under a directory belongs to the knowledge base of the directory. -/
theorem owner_of_under (h : Inside s) (hrows : Rows s) {d x id : PyStr} (hd : s.owner d = some id)
    (hx : Under s d x) : s.owner x = some id := by
  induction hx using ReflTransGen.head_induction_on with
  | refl => exact hd
  | @head a b hab _ ih =>
    obtain ⟨k, hk⟩ := State.owner_isSome_of_parentOf hab
    have hb : b ≠ [] := by
      rintro rfl
      rw [hrows.named] at ih
      cases ih
    have hkid := h.parent a b k hk ⟨hab, hb⟩
    rw [ih] at hkid
    rw [hk, ← hkid]

/-- The way up from a directory never comes to it again, so as many steps as there are directories are
enough. -/
theorem liesUnder_of_under (h : Inside s) (hrows : Rows s) {d x id : PyStr} {n : ℕ} {seen : List PyStr}
    (hd : s.owner d = some id) (hseen : seen.Nodup) (hway : ∀ y ∈ seen, TransGen s.IsParent y x)
    (hn : s.directories.keys.length ≤ n + seen.length) (hx : Under s d x) :
    s.liesUnder d n x = true := by
  have hsub : ∀ y ∈ seen, y ∈ s.directories.keys := by
    intro y hy
    obtain ⟨b, hb, -⟩ := TransGen.head'_iff.mp (hway y hy)
    obtain ⟨k, hk⟩ := State.owner_isSome_of_parentOf hb.1
    exact State.mem_keys_of_owner hk
  have hmem := State.mem_keys_of_owner (owner_of_under h hrows hd hx)
  have hfresh : x ∉ seen := fun hmem ↦ h.acyclic x (hway x hmem)
  have hlt := length_lt_of_fresh hseen hsub hmem hfresh
  induction n generalizing x seen with
  | zero => omega
  | succ n ih =>
    unfold State.liesUnder
    rw [Bool.or_eq_true, decide_eq_true_eq]
    rcases ReflTransGen.cases_head hx with rfl | ⟨b, hb, hrest⟩
    · exact Or.inl rfl
    · refine Or.inr ((Option.any_eq_true _ _).mpr ⟨b, hb, ?_⟩)
      have howner := owner_of_under h hrows hd hrest
      have hne : b ≠ [] := by
        rintro rfl
        rw [hrows.named] at howner
        cases howner
      have hway' : ∀ y ∈ x :: seen, TransGen s.IsParent y b := by
        intro y hy
        rcases List.mem_cons.mp hy with rfl | hy
        · exact .single ⟨hb, hne⟩
        · exact (hway y hy).tail ⟨hb, hne⟩
      have hsub' : ∀ y ∈ x :: seen, y ∈ s.directories.keys := by
        intro y hy
        rcases List.mem_cons.mp hy with rfl | hy
        · exact hmem
        · exact hsub y hy
      have hfresh' : b ∉ x :: seen := fun hb' ↦ h.acyclic b (hway' b hb')
      refine ih (List.nodup_cons.mpr ⟨hfresh, hseen⟩) hway' ?_ hrest hsub'
        (State.mem_keys_of_owner howner) hfresh' ?_
      · simp only [List.length_cons]
        omega
      · exact length_lt_of_fresh (List.nodup_cons.mpr ⟨hfresh, hseen⟩) hsub'
          (State.mem_keys_of_owner howner) hfresh'

open Classical in
/-- What becomes of a row whose directory is one of these: it gets another, or goes. -/
noncomputable def displaced (fate : Option (Option PyStr)) (P : PyStr → Prop) (row : KnowledgeFile) :
    Option KnowledgeFile :=
  if ∃ x, row.directoryId = some x ∧ P x then fate.map fun t ↦ { row with directoryId := t } else some row

theorem displaced_or (fate : Option (Option PyStr)) (P Q : PyStr → Prop) (row : KnowledgeFile) :
    (displaced fate P row).bind (displaced fate Q) = displaced fate (fun x ↦ P x ∨ Q x) row := by
  unfold displaced
  by_cases hP : ∃ x, row.directoryId = some x ∧ P x
  · have hPQ : ∃ x, row.directoryId = some x ∧ (P x ∨ Q x) := hP.imp fun x hx ↦ ⟨hx.1, Or.inl hx.2⟩
    rw [if_pos hP, if_pos hPQ]
    cases fate with
    | none => rfl
    | some t =>
      simp only [Option.map_some, Option.bind_some, ite_self]
  · have hiff : (∃ x, row.directoryId = some x ∧ Q x) ↔ ∃ x, row.directoryId = some x ∧ (P x ∨ Q x) := by
      refine exists_congr fun x ↦ and_congr_right fun hx ↦ (or_iff_right fun hPx ↦ hP ⟨x, hx, hPx⟩).symm
    rw [if_neg hP, Option.bind_some]
    by_cases hQ : ∃ x, row.directoryId = some x ∧ Q x
    · rw [if_pos hQ, if_pos (hiff.mp hQ)]
    · rw [if_neg hQ, if_neg fun hPQ ↦ hQ (hiff.mpr hPQ)]

/-- Only rows of files change, and of these those in the directories `P`. -/
structure Displaces (fate : Option (Option PyStr)) (P : PyStr → Prop) (s s' : State F) : Prop where
  rest : ∃ rows, s' = { s with knowledgeFiles := rows }
  row : ∀ key, s'.knowledgeFiles.get? key = (s.knowledgeFiles.get? key).bind (displaced fate P)

namespace Displaces

variable {fate : Option (Option PyStr)} {P Q : PyStr → Prop}

theorem refl (fate : Option (Option PyStr)) (s : State F) : Displaces fate (fun _ ↦ False) s s := by
  refine ⟨⟨s.knowledgeFiles, rfl⟩, fun key ↦ ?_⟩
  cases s.knowledgeFiles.get? key <;> simp [displaced]

theorem trans (h : Displaces fate P s s') (h' : Displaces fate Q s' s'') :
    Displaces fate (fun x ↦ P x ∨ Q x) s s'' where
  rest := by
    obtain ⟨rows, hrows⟩ := h.rest
    obtain ⟨rows', hrows'⟩ := h'.rest
    exact ⟨rows', by rw [hrows', hrows]⟩
  row key := by
    rw [h'.row, h.row, Option.bind_assoc]
    exact congrArg _ (funext fun row ↦ displaced_or fate P Q row)

theorem congr (h : Displaces fate P s s') (hPQ : ∀ x, P x ↔ Q x) : Displaces fate Q s s' := by
  have heq : P = Q := funext fun x ↦ propext (hPQ x)
  exact heq ▸ h

theorem directories (h : Displaces fate P s s') : s'.directories = s.directories := by
  obtain ⟨rows, rfl⟩ := h.rest
  rfl

end Displaces

theorem displaces_moveFiles (s : State F) (c : PyStr) (t : Option PyStr) :
    Displaces (some t) (· = c) s (s.moveFiles c t) := by
  refine ⟨⟨_, rfl⟩, fun key ↦ ?_⟩
  unfold State.moveFiles
  rw [Keyed.get?_map]
  cases s.knowledgeFiles.get? key with
  | none => rfl
  | some row =>
    unfold displaced
    by_cases h : row.directoryId = some c <;> simp [h]

theorem displaces_deleteFiles (s : State F) (c : PyStr) : Displaces none (· = c) s (s.deleteFiles c) := by
  refine ⟨⟨_, rfl⟩, fun key ↦ ?_⟩
  unfold State.deleteFiles
  rw [Keyed.get?_filter]
  cases s.knowledgeFiles.get? key with
  | none => rfl
  | some row =>
    unfold displaced
    by_cases h : row.directoryId = some c <;> simp [h]

theorem mem_childIds {d c : PyStr} : c ∈ s.childIds d ↔ s.parentOf c = some d := by
  unfold State.childIds State.parentOf
  rw [List.mem_map]
  constructor
  · rintro ⟨e, he, rfl⟩
    obtain ⟨hmem, hparent⟩ := List.mem_filter.mp he
    rw [Keyed.get?_eq_some_iff.mpr hmem]
    exact of_decide_eq_true hparent
  · intro h
    obtain ⟨dir, hdir, hparent⟩ := Option.bind_eq_some_iff.mp h
    exact ⟨(c, dir), List.mem_filter.mpr ⟨Keyed.get?_eq_some_iff.mp hdir, decide_eq_true hparent⟩, rfl⟩

theorem parentOf_congr (h : s'.directories = s.directories) (x : PyStr) : s'.parentOf x = s.parentOf x := by
  unfold State.parentOf
  rw [h]

theorem under_congr (h : s'.directories = s.directories) (d x : PyStr) : Under s' d x ↔ Under s d x := by
  have heq : s'.parentOf = s.parentOf := funext (parentOf_congr h)
  unfold Under
  rw [heq]

/-- A loop over directories that displaces what is under each. -/
theorem displaces_foldlM {fate : Option (Option PyStr)} {step : State F → PyStr → Option (State F)}
    (hstep : ∀ s₁ s₂ c, s₁.directories = s.directories → step s₁ c = some s₂ →
      Displaces fate (Under s c) s₁ s₂) {cs : List PyStr} {s₁ s₂ : State F}
    (hs₁ : s₁.directories = s.directories) (h : cs.foldlM step s₁ = some s₂) :
    Displaces fate (fun x ↦ ∃ c ∈ cs, Under s c x) s₁ s₂ := by
  induction cs generalizing s₁ with
  | nil =>
    cases h
    exact (Displaces.refl fate _).congr fun x ↦ by simp
  | cons c cs ih =>
    rw [List.foldlM_cons] at h
    obtain ⟨s₃, hs₃, hrest⟩ := Option.bind_eq_some_iff.mp h
    have hfirst := hstep s₁ s₃ c hs₁ hs₃
    refine (hfirst.trans (ih (hfirst.directories.trans hs₁) hrest)).congr fun x ↦ ?_
    simp

theorem under_iff_child {d x : PyStr} :
    Under s d x ↔ x = d ∨ ∃ c ∈ s.childIds d, Under s c x := by
  constructor
  · intro h
    rcases ReflTransGen.cases_tail h with rfl | ⟨c, hc, hcd⟩
    · exact Or.inl rfl
    · exact Or.inr ⟨c, mem_childIds.mpr hcd, hc⟩
  · rintro (rfl | ⟨c, hc, hunder⟩)
    · exact .refl
    · exact hunder.tail (mem_childIds.mp hc)

theorem displaces_moveFilesFromSubtree {t : Option PyStr} {n : ℕ} {d : PyStr}
    (h : moveFilesFromSubtree t n s d = some s') :
    Displaces (some t) (fun x ↦ ∃ c ∈ s.childIds d, Under s c x) s s' := by
  induction n generalizing s s' d with
  | zero => cases h
  | succ n ih =>
    refine displaces_foldlM (fun s₁ s₂ c hs₁ hs₂ ↦ ?_) rfl h
    have hmove := displaces_moveFiles s₁ c t
    refine (hmove.trans (ih hs₂)).congr fun x ↦ ?_
    rw [← under_congr hs₁ c x, ← under_congr hmove.directories c x]
    exact under_iff_child.symm

theorem displaces_deleteFilesInSubtree {n : ℕ} {d : PyStr} (h : deleteFilesInSubtree n s d = some s') :
    Displaces none (Under s d) s s' := by
  induction n generalizing s s' d with
  | zero => cases h
  | succ n ih =>
    have hdelete := displaces_deleteFiles s d
    have hloop : Displaces none (fun x ↦ ∃ c ∈ s.childIds d, Under (s.deleteFiles d) c x)
        (s.deleteFiles d) s' :=
      displaces_foldlM (fun s₁ s₂ c hs₁ hs₂ ↦ (ih hs₂).congr fun x ↦ under_congr hs₁ c x) rfl h
    refine (hdelete.trans hloop).congr fun x ↦ ?_
    rw [under_iff_child]
    refine or_congr Iff.rfl ⟨fun ⟨c, hc, hunder⟩ ↦ ?_, fun ⟨c, hc, hunder⟩ ↦ ?_⟩
    · exact ⟨c, hc, (under_congr hdelete.directories c x).mp hunder⟩
    · exact ⟨c, hc, (under_congr hdelete.directories c x).mpr hunder⟩

/-- What a directory that is deleted takes with it. -/
structure Deletes (d : PyStr) (s s' : State F) : Prop where
  owner : ∀ x, ¬ Under s d x → s'.owner x = s.owner x
  gone : ∀ x, Under s d x → s'.owner x = none
  directory : ∀ x, ¬ Under s d x → s'.directories.get? x = s.directories.get? x
  row : ∃ fate, (∀ p, fate = some p → p = s.parentOf d) ∧
    ∀ key, s'.knowledgeFiles.get? key = (s.knowledgeFiles.get? key).bind (displaced fate (Under s d))
  files : s'.files = s.files
  knowledges : s'.knowledges = s.knowledges

/-- The way up inside a knowledge base. -/
theorem way_of_under (h : Inside s) (hrows : Rows s) {d x id : PyStr} (hd : s.owner d = some id)
    (hx : Under s d x) : ReflTransGen s.IsParent x d := by
  induction hx using ReflTransGen.head_induction_on with
  | refl => exact .refl
  | @head a b hab hb ih =>
    refine .head ⟨hab, ?_⟩ ih
    rintro rfl
    have howner := owner_of_under h hrows hd hb
    rw [hrows.named] at howner
    cases howner

/-- Nothing above a directory is under it. -/
theorem not_under_parent (h : Inside s) (hrows : Rows s) {d b id : PyStr} (hd : s.owner d = some id)
    (hb : s.IsParent d b) : ¬ Under s d b := fun hunder ↦
  h.acyclic d (TransGen.head' hb (way_of_under h hrows hd hunder))

theorem deletes_deleteDirectory (h : Inside s) (hrows : Rows s) (d : PyStr) (move_files : Bool) :
    (s.deleteDirectory services d move_files).1 = s ∨
      Deletes d s (s.deleteDirectory services d move_files).1 := by
  unfold State.deleteDirectory
  rcases hd : s.directories.get? d with _ | dir
  · exact Or.inl rfl
  have hid : s.owner d = some dir.knowledgeId := by unfold State.owner; rw [hd]; rfl
  have hparent : s.parentOf d = dir.parentId := by unfold State.parentOf; rw [hd]; rfl
  dsimp only
  split
  · exact Or.inl rfl
  next emptied hemptied =>
  split_ifs
  swap
  · exact Or.inl rfl
  obtain ⟨fate, hfate, hdisplaces⟩ : ∃ fate, (∀ p, fate = some p → p = s.parentOf d) ∧
      Displaces fate (Under s d) s emptied := by
    split_ifs at hemptied
    · have hmove := displaces_moveFiles s d dir.parentId
      refine ⟨some dir.parentId, fun p hp ↦ by rw [hparent]; exact (Option.some.inj hp).symm, ?_⟩
      refine (hmove.trans (displaces_moveFilesFromSubtree hemptied)).congr fun x ↦ ?_
      rw [under_iff_child]
      refine or_congr Iff.rfl (exists_congr fun c ↦ and_congr Iff.rfl ?_)
      exact under_congr hmove.directories c x
    · exact ⟨none, nofun, displaces_deleteFilesInSubtree hemptied⟩
  have hgone : ∀ x, emptied.liesUnder d emptied.directories.keys.length x = true ↔ Under s d x := by
    intro x
    have hback : Under emptied d x ↔ Under s d x := under_congr hdisplaces.directories d x
    have hsame : emptied.liesUnder d emptied.directories.keys.length x =
        s.liesUnder d s.directories.keys.length x := by
      have heq : ∀ n x, emptied.liesUnder d n x = s.liesUnder d n x := by
        intro n
        induction n with
        | zero => exact fun _ ↦ rfl
        | succ n ih =>
          intro x
          unfold State.liesUnder
          rw [parentOf_congr hdisplaces.directories, funext ih]
      rw [hdisplaces.directories]
      exact heq _ x
    rw [hsame]
    exact ⟨under_of_liesUnder, liesUnder_of_under h hrows hid List.nodup_nil
      (fun _ hy ↦ (List.not_mem_nil hy).elim) (by simp)⟩
  refine Or.inr ?_
  unfold State.cascadeDirectory
  obtain ⟨rows, rfl⟩ := hdisplaces.rest
  dsimp only at hgone ⊢
  have hget : ∀ x, ((s.directories.filterKeys fun id ↦
      !State.liesUnder { s with knowledgeFiles := rows } d s.directories.keys.length id).get? x) =
      if State.liesUnder { s with knowledgeFiles := rows } d s.directories.keys.length x then none
        else s.directories.get? x := by
    intro x
    rw [Keyed.get?_filterKeys]
    cases State.liesUnder { s with knowledgeFiles := rows } d s.directories.keys.length x <;> rfl
  refine ⟨fun x hx ↦ ?_, fun x hx ↦ ?_, fun x hx ↦ ?_, ⟨fate, hfate, fun key ↦ ?_⟩, rfl, rfl⟩
  · unfold State.owner
    rw [hget, if_neg fun hl ↦ hx ((hgone x).mp hl)]
  · unfold State.owner
    rw [hget, if_pos ((hgone x).mpr hx)]
    rfl
  · rw [hget, if_neg fun hl ↦ hx ((hgone x).mp hl)]
  · rw [← hdisplaces.row key]
    dsimp only
    split_ifs with henforces
    · rw [Keyed.get?_map]
      have hrow := hdisplaces.row key
      dsimp only at hrow
      rcases hkey : rows.get? key with _ | row
      · rfl
      -- No row is left in a directory that goes.
      · have hout : ¬ ∃ x, row.directoryId = some x ∧ Under s d x := by
          rintro ⟨x, hx, hunder⟩
          rw [hkey] at hrow
          obtain ⟨old, -, hold⟩ := Option.bind_eq_some_iff.mp hrow.symm
          unfold displaced at hold
          split_ifs at hold with hP
          · obtain ⟨p, hp, rfl⟩ := Option.map_eq_some_iff.mp hold
            have hpx : s.parentOf d = some x := (hfate p hp).symm.trans hx
            refine not_under_parent h hrows hid ⟨hpx, ?_⟩ hunder
            rintro rfl
            have howner := owner_of_under h hrows hid hunder
            rw [hrows.named] at howner
            cases howner
          · cases hold
            exact hP ⟨x, hx, hunder⟩
        simp only [Option.map_some, Option.some.injEq, ite_eq_right_iff]
        intro hany
        obtain ⟨x, hx, hgonex⟩ := (Option.any_eq_true _ _).mp hany
        rw [Bool.and_eq_true] at hgonex
        exact (hout ⟨x, hx, (hgone x).mp hgonex.2⟩).elim
    · rfl

namespace Deletes

variable {d : PyStr}

theorem owner_eq_some (hs : Deletes d s s') {x k : PyStr} :
    s'.owner x = some k ↔ ¬ Under s d x ∧ s.owner x = some k := by
  by_cases hx : Under s d x
  · rw [hs.gone x hx]
    simp [hx]
  · rw [hs.owner x hx]
    simp [hx]

theorem parentOf_eq_some (hs : Deletes d s s') {x b : PyStr} (h : s'.parentOf x = some b) :
    ¬ Under s d x ∧ s.parentOf x = some b := by
  obtain ⟨k, hk⟩ := State.owner_isSome_of_parentOf h
  have hx := (hs.owner_eq_some.mp hk).1
  unfold State.parentOf at h ⊢
  rw [hs.directory x hx] at h
  exact ⟨hx, h⟩

theorem hasFile (hs : Deletes d s s') {k f : PyStr} (h : s'.hasFile k f = true) : s.hasFile k f = true := by
  obtain ⟨fate, -, hrow⟩ := hs.row
  unfold State.hasFile at h ⊢
  rw [hrow] at h
  cases hkey : s.knowledgeFiles.get? (k, f) with
  | none => rw [hkey] at h; exact h
  | some row => rfl

/-- A file lies where it lay, or where the directory lay that is gone. -/
theorem placeOf_eq_some (hs : Deletes d s s') {k f b : PyStr} (h : s'.placeOf k f = some b) :
    s.placeOf k f = some b ∧ ¬ Under s d b ∨
      s.parentOf d = some b ∧ ∃ x, s.placeOf k f = some x ∧ Under s d x := by
  obtain ⟨fate, hfate, hrow⟩ := hs.row
  unfold State.placeOf at h ⊢
  rw [hrow] at h
  obtain ⟨row', hrow', hb⟩ := Option.bind_eq_some_iff.mp h
  obtain ⟨row, hkey, hdisplaced⟩ := Option.bind_eq_some_iff.mp hrow'
  rw [hkey, Option.bind_some]
  unfold displaced at hdisplaced
  split_ifs at hdisplaced with hP
  · obtain ⟨p, hp, rfl⟩ := Option.map_eq_some_iff.mp hdisplaced
    exact Or.inr ⟨(hfate p hp).symm.trans hb, hP⟩
  · cases hdisplaced
    exact Or.inl ⟨hb, fun hunder ↦ hP ⟨b, hb, hunder⟩⟩

theorem inside (hs : Deletes d s s') (h : Inside s) (hrows : Rows s) {id : PyStr}
    (hd : s.owner d = some id) : Inside s' where
  parent a b k ha hab := by
    obtain ⟨hnot, hparent⟩ := hs.parentOf_eq_some hab.1
    have ha' := (hs.owner_eq_some.mp ha).2
    exact hs.owner_eq_some.mpr ⟨fun hunder ↦ hnot (.head hparent hunder), h.parent a b k ha' ⟨hparent, hab.2⟩⟩
  placed k f b hb hne := by
    rcases hs.placeOf_eq_some hb with ⟨hold, hnot⟩ | ⟨hparent, x, hx, hunder⟩
    · exact hs.owner_eq_some.mpr ⟨hnot, h.placed k f b hold hne⟩
    · have hxid := owner_of_under h hrows hd hunder
      have hxne : x ≠ [] := by
        rintro rfl
        rw [hrows.named] at hxid
        cases hxid
      have hkid := h.placed k f x hx hxne
      rw [hxid] at hkid
      cases hkid
      exact hs.owner_eq_some.mpr ⟨not_under_parent h hrows hd ⟨hparent, hne⟩, h.parent d b id hd ⟨hparent, hne⟩⟩
  acyclic := h.acyclic.shorten fun a b hab ↦ .single ⟨(hs.parentOf_eq_some hab.1).2, hab.2⟩

theorem rows (hs : Deletes d s s') (hrows : Rows s) : Rows s' where
  named := by
    by_cases hx : Under s d []
    · exact hs.gone [] hx
    · rw [hs.owner [] hx, hrows.named]
  held k f hf := by
    rw [hs.knowledges]
    exact hrows.held k f (hs.hasFile hf)

theorem untouched (hs : Deletes d s s') (h : Inside s) (hrows : Rows s) {id k : PyStr}
    (hd : s.owner d = some id) (hk : k ≠ id) : Untouched k s s' where
  directories x dir hdir hdk := by
    have hx : ¬ Under s d x := by
      intro hunder
      have hxid := owner_of_under h hrows hd hunder
      unfold State.owner at hxid
      rw [hdir] at hxid
      exact hk (hdk.symm.trans (Option.some.inj hxid))
    rw [hs.directory x hx, hdir]
  placed f := by
    obtain ⟨fate, -, hrow⟩ := hs.row
    rw [hrow]
    rcases hkey : s.knowledgeFiles.get? (k, f) with _ | row
    · rfl
    · rw [Option.bind_some]
      unfold displaced
      refine if_neg ?_
      rintro ⟨x, hx, hunder⟩
      have hxid := owner_of_under h hrows hd hunder
      have hxne : x ≠ [] := by
        rintro rfl
        rw [hrows.named] at hxid
        cases hxid
      have hplace : s.placeOf k f = some x := by unfold State.placeOf; rw [hkey]; exact hx
      have hkid := h.placed k f x hplace hxne
      rw [hxid] at hkid
      exact hk (Option.some.inj hkid).symm
  files f _ hf := by rw [hs.files]; exact hf

end Deletes

theorem confined_delete (h : Inside s) (hrows : Rows s) {d id : PyStr} (hd : s.owner d = some id)
    (move_files : Bool) : Confined id s (s.deleteDirectory services d move_files).1 := by
  rcases deletes_deleteDirectory h hrows d move_files with heq | hs
  · rw [heq]
    exact .refl id h hrows
  · exact ⟨hs.inside h hrows hd, hs.rows hrows, fun k hk ↦ hs.untouched h hrows hd hk⟩

end FourCE.Knowledge
