import FourCE.Knowledge.Directories
import FourCE.Library.Acyclic

/-!
# Directories stay inside their knowledge base

What every request does to the parents of directories and to the places of files.  Deleting a directory
follows these references alone, so that it stays in its knowledge base depends on them doing so; and a
request that gives a directory or a file a place is the only one that may lead them out.
-/

namespace FourCE.Knowledge

open FourCE.Library FourCE.Python Relation

variable {F : Type} {services : Services} {s s' s'' : State F}

namespace State

/-- The knowledge base of a directory. -/
def owner (s : State F) (x : PyStr) : Option PyStr := (s.directories.get? x).map Directory.knowledgeId

/-- The directory a file has in a knowledge base. -/
def placeOf (s : State F) (k f : PyStr) : Option PyStr :=
  (s.knowledgeFiles.get? (k, f)).bind KnowledgeFile.directoryId

/-- `b` is the parent of `a`. -/
def IsParent (s : State F) (a b : PyStr) : Prop := s.parentOf a = some b ∧ b ≠ []

end State

structure Inside (s : State F) : Prop where
  parent : ∀ a b k, s.owner a = some k → s.IsParent a b → s.owner b = some k
  placed : ∀ k f b, s.placeOf k f = some b → b ≠ [] → s.owner b = some k
  acyclic : Acyclic s.IsParent

/-- What holds whatever is asked: ids of rows are texts, and files are in knowledge bases. -/
structure Rows (s : State F) : Prop where
  named : s.owner [] = none
  held : ∀ k f, s.hasFile k f = true → k ∈ s.knowledges.keys

/-- Nothing of the knowledge base is moved or removed. -/
structure Untouched (k : PyStr) (s s' : State F) : Prop where
  directories : ∀ x d, s.directories.get? x = some d → d.knowledgeId = k → s'.directories.get? x = some d
  placed : ∀ f, s'.knowledgeFiles.get? (k, f) = s.knowledgeFiles.get? (k, f)
  files : ∀ f, s.hasFile k f = true → (s.files.get? f).isSome = true → (s'.files.get? f).isSome = true

theorem Untouched.refl (k : PyStr) (s : State F) : Untouched k s s :=
  ⟨fun _ _ hd _ ↦ hd, fun _ ↦ rfl, fun _ _ hf ↦ hf⟩

theorem Untouched.hasFile {k : PyStr} (h : Untouched k s s') (f : PyStr) :
    s'.hasFile k f = s.hasFile k f := congrArg Option.isSome (h.placed f)

theorem Untouched.trans {k : PyStr} (h : Untouched k s s') (h' : Untouched k s' s'') :
    Untouched k s s'' where
  directories x d hd hk := h'.directories x d (h.directories x d hd hk) hk
  placed f := (h'.placed f).trans (h.placed f)
  files f hheld hf := h'.files f ((h.hasFile f).trans hheld) (h.files f hheld hf)

/-- What is kept, and what nobody else notices, by a request on a knowledge base. -/
structure Confined (id : PyStr) (s s' : State F) : Prop where
  inside : Inside s'
  rows : Rows s'
  untouched : ∀ k, k ≠ id → Untouched k s s'

theorem Confined.refl (id : PyStr) (h : Inside s) (hrows : Rows s) : Confined id s s :=
  ⟨h, hrows, fun k _ ↦ .refl k s⟩

theorem Confined.trans {id : PyStr} (h : Confined id s s') (h' : Confined id s' s'') : Confined id s s'' :=
  ⟨h'.inside, h'.rows, fun k hk ↦ (h.untouched k hk).trans (h'.untouched k hk)⟩

namespace State

theorem ownsDirectory_iff (s : State F) (id x : PyStr) : s.ownsDirectory id x = true ↔ s.owner x = some id := by
  unfold ownsDirectory owner
  cases s.directories.get? x <;> simp

theorem owner_isSome_of_parentOf {a b : PyStr} (h : s.parentOf a = some b) : ∃ k, s.owner a = some k := by
  unfold parentOf at h
  obtain ⟨d, hd, -⟩ := Option.bind_eq_some_iff.mp h
  exact ⟨d.knowledgeId, by unfold owner; rw [hd]; rfl⟩

theorem mem_keys_of_owner {x k : PyStr} (h : s.owner x = some k) : x ∈ s.directories.keys := by
  unfold owner at h
  obtain ⟨d, hd, -⟩ := Option.map_eq_some_iff.mp h
  exact Keyed.mem_keys.mpr ⟨d, hd⟩

theorem owner_of_mem_keys {x : PyStr} (h : x ∈ s.directories.keys) : ∃ k, s.owner x = some k := by
  obtain ⟨d, hd⟩ := Keyed.mem_keys.mp h
  exact ⟨d.knowledgeId, by unfold owner; rw [hd]; rfl⟩

theorem placeOf_isSome {k f b : PyStr} (h : s.placeOf k f = some b) : s.hasFile k f = true := by
  unfold placeOf at h
  obtain ⟨row, hrow, -⟩ := Option.bind_eq_some_iff.mp h
  unfold hasFile
  rw [hrow]
  rfl

end State

/-- What only depends on the references. -/
theorem Inside.congr (h : Inside s) (howner : ∀ x, s'.owner x = s.owner x)
    (hparent : ∀ x, s'.parentOf x = s.parentOf x)
    (hplace : ∀ k f b, s'.placeOf k f = some b → b ≠ [] → s.owner b = some k) : Inside s' where
  parent a b k ha hab := by
    rw [howner] at ha ⊢
    exact h.parent a b k ha ⟨hparent a ▸ hab.1, hab.2⟩
  placed k f b hb hne := (howner b).trans (hplace k f b hb hne)
  acyclic := by
    have heq : s'.IsParent = s.IsParent := by
      funext a b
      unfold State.IsParent
      rw [hparent]
    rw [heq]
    exact h.acyclic

/-! ## Creating and moving directories -/

/-- The directory of a reference belongs to the knowledge base, where it names one. -/
def Own (s : State F) (id : PyStr) (directory_id : Option PyStr) : Prop :=
  ∀ p, directory_id = some p → p ≠ [] → s.owner p = some id

theorem createDirectory_eq {d : Directory} (h : s.createDirectory services d = some s') :
    services.uuid ∉ s.directories.keys ∧
      s' = { s with directories := s.directories.set services.uuid d } := by
  unfold State.createDirectory at h
  split_ifs at h with hcond
  cases h
  simp only [Bool.and_eq_true, decide_eq_true_eq] at hcond
  exact ⟨hcond.1.2, rfl⟩

/-- A directory that is created keeps the order exactly if its parent is one of the knowledge base. -/
theorem inside_create (h : Inside s) {d : Directory} (hs : s.createDirectory services d = some s') :
    Inside s' ↔ Own s d.knowledgeId d.parentId := by
  obtain ⟨hfresh, rfl⟩ := createDirectory_eq hs
  set s' : State F := { s with directories := s.directories.set services.uuid d } with hs'
  have howner : ∀ x, s'.owner x = if x = services.uuid then some d.knowledgeId else s.owner x := by
    intro x
    unfold State.owner
    rw [hs', Keyed.get?_set]
    split_ifs <;> rfl
  have hparent : ∀ x, s'.parentOf x = if x = services.uuid then d.parentId else s.parentOf x := by
    intro x
    unfold State.parentOf
    rw [hs', Keyed.get?_set]
    split_ifs <;> rfl
  have hnone : s.owner services.uuid = none := by
    unfold State.owner
    rw [Keyed.get?_eq_none.mpr hfresh]
    rfl
  constructor
  · intro hin p hp hne
    have hstep : s'.IsParent services.uuid p := ⟨by rw [hparent, if_pos rfl, hp], hne⟩
    have hself : p ≠ services.uuid := (hin.acyclic.ne hstep).symm
    have howned := hin.parent services.uuid p d.knowledgeId (by rw [howner, if_pos rfl]) hstep
    rwa [howner, if_neg hself] at howned
  · intro hown
    have hold : ∀ x k, s.owner x = some k → s'.owner x = some k := by
      intro x k hx
      rw [howner, if_neg (fun he ↦ by rw [he, hnone] at hx; cases hx)]
      exact hx
    refine ⟨fun a b k ha hab ↦ ?_, fun k f b hb hne ↦ hold b k (h.placed k f b hb hne), ?_⟩
    · obtain ⟨hab, hne⟩ := hab
      rw [hparent] at hab
      rw [howner] at ha
      split_ifs at ha hab
      · cases ha
        exact hold b _ (hown b hab hne)
      · exact hold b k (h.parent a b k ha ⟨hab, hne⟩)
    · by_cases hp : ∃ p, d.parentId = some p ∧ p ≠ []
      · obtain ⟨p, hp, hne⟩ := hp
        have hpown := hown p hp hne
        refine (h.acyclic.leaf (a := services.uuid) (p := p) (fun b hb ↦ ?_) ?_).shorten fun a b hab ↦ ?_
        · obtain ⟨k, hk⟩ := State.owner_isSome_of_parentOf hb.1
          rw [h.parent b _ k hk hb] at hnone
          cases hnone
        · rintro rfl
          rw [hpown] at hnone
          cases hnone
        · obtain ⟨hab, hbne⟩ := hab
          rw [hparent] at hab
          split_ifs at hab with ha
          · rw [hp] at hab
            cases hab
            exact .single (Or.inr ⟨ha, rfl⟩)
          · exact .single (Or.inl ⟨hab, hbne⟩)
      · refine h.acyclic.shorten fun a b hab ↦ ?_
        obtain ⟨hab, hne⟩ := hab
        rw [hparent] at hab
        split_ifs at hab
        · exact (hp ⟨b, hab, hne⟩).elim
        · exact .single ⟨hab, hne⟩

theorem untouched_create {d : Directory} (hs : s.createDirectory services d = some s') (k : PyStr) :
    Untouched k s s' := by
  obtain ⟨hfresh, rfl⟩ := createDirectory_eq hs
  refine ⟨fun x d' hd' _ ↦ ?_, fun _ ↦ rfl, fun _ _ hf ↦ hf⟩
  rw [Keyed.get?_set, if_neg]
  · exact hd'
  · rintro rfl
    exact hfresh (Keyed.mem_keys.mpr ⟨d', hd'⟩)

/-- The walk finds the directory if it is on the way up: it stops only at the root, for a directory it
comes to again would be above itself. -/
theorem walkMeets_complete (h : Acyclic s.IsParent) {directory_id : PyStr} {n : ℕ} {current : PyStr}
    {seen : List PyStr} (hseen : seen.Nodup) (hway : ∀ y ∈ seen, TransGen s.IsParent y current)
    (hn : s.directories.keys.length + 2 ≤ n + seen.length) (hne : current ≠ [])
    (hreach : ReflTransGen s.IsParent current directory_id) :
    s.walkMeets directory_id n (some current) seen = true := by
  have hsub : ∀ y ∈ seen, y ∈ s.directories.keys := by
    intro y hy
    obtain ⟨b, hb, -⟩ := TransGen.head'_iff.mp (hway y hy)
    obtain ⟨k, hk⟩ := State.owner_isSome_of_parentOf hb.1
    exact State.mem_keys_of_owner hk
  induction n generalizing current seen with
  | zero =>
    have hle := (hseen.subperm hsub).length_le
    omega
  | succ n ih =>
    have hfresh : current ∉ seen := fun hmem ↦ h current (hway current hmem)
    unfold State.walkMeets
    dsimp only
    rw [if_neg (by simp [hne, hfresh])]
    split_ifs with heq
    · rfl
    · obtain ⟨b, hb, hrest⟩ := (ReflTransGen.cases_head hreach).resolve_left heq
      rw [hb.1]
      have hway' : ∀ y ∈ current :: seen, TransGen s.IsParent y b := by
        intro y hy
        rcases List.mem_cons.mp hy with rfl | hy
        · exact .single hb
        · exact (hway y hy).tail hb
      obtain ⟨k, hk⟩ := State.owner_isSome_of_parentOf hb.1
      refine ih (List.nodup_cons.mpr ⟨hfresh, hseen⟩) hway' ?_ hb.2 hrest fun y hy ↦ ?_
      · simp only [List.length_cons]
        omega
      · rcases List.mem_cons.mp hy with rfl | hy
        · exact State.mem_keys_of_owner hk
        · exact hsub y hy

theorem moveDirectory_eq {x : PyStr} {p : Option PyStr} (h : s.moveDirectory services x p = some s') :
    s.wouldCycle x p = false ∧
      s' = { s with directories := s.directories.modify x fun d ↦ { d with parentId := p } } := by
  unfold State.moveDirectory at h
  split_ifs at h with hcycle haccepts
  cases h
  exact ⟨by simpa using hcycle, rfl⟩

/-- A directory that is moved keeps the order exactly if its new parent is one of the knowledge base. -/
theorem inside_move (h : Inside s) {x id : PyStr} {p : Option PyStr} (hx : s.owner x = some id)
    (hs : s.moveDirectory services x p = some s') : Inside s' ↔ Own s id p := by
  obtain ⟨hcycle, rfl⟩ := moveDirectory_eq hs
  set s' : State F := { s with directories := s.directories.modify x fun d ↦ { d with parentId := p } }
    with hs'
  have howner : ∀ y, s'.owner y = s.owner y := by
    intro y
    unfold State.owner
    rw [hs', Keyed.get?_modify]
    split_ifs
    · rw [Option.map_map]
      rfl
    · rfl
  have hparent : ∀ y, s'.parentOf y = if y = x then p else s.parentOf y := by
    intro y
    unfold State.parentOf
    rw [hs', Keyed.get?_modify]
    split_ifs with hy
    · obtain ⟨d, hd⟩ := Keyed.mem_keys.mp (State.mem_keys_of_owner hx)
      rw [hy, hd]
      rfl
    · rfl
  constructor
  · intro hin q hq hne
    have hstep : s'.IsParent x q := ⟨by rw [hparent, if_pos rfl, hq], hne⟩
    have howned := hin.parent x q id (by rw [howner, hx]) hstep
    rwa [howner] at howned
  · intro hown
    refine ⟨fun a b k ha hab ↦ ?_, fun k f b hb hne ↦ by rw [howner]; exact h.placed k f b hb hne, ?_⟩
    · obtain ⟨hab, hne⟩ := hab
      rw [hparent] at hab
      rw [howner] at ha ⊢
      split_ifs at hab with hax
      · rw [hax, hx] at ha
        cases ha
        exact hown b hab hne
      · exact h.parent a b k ha ⟨hab, hne⟩
    · by_cases hp : ∃ q, p = some q ∧ q ≠ []
      · obtain ⟨q, rfl, hne⟩ := hp
        have hnot : ¬ ReflTransGen s.IsParent q x := by
          intro hreach
          have hmeets : s.wouldCycle x (some q) = true :=
            walkMeets_complete h.acyclic List.nodup_nil (fun _ hy ↦ (List.not_mem_nil hy).elim)
              (by simp) hne hreach
          rw [hmeets] at hcycle
          cases hcycle
        refine (h.acyclic.redirect hnot).shorten fun a b hab ↦ .single ?_
        obtain ⟨hab, hbne⟩ := hab
        rw [hparent] at hab
        split_ifs at hab with ha
        · cases hab
          exact Or.inr ⟨ha, rfl⟩
        · exact Or.inl ⟨ha, hab, hbne⟩
      · refine h.acyclic.shorten fun a b hab ↦ ?_
        obtain ⟨hab, hne⟩ := hab
        rw [hparent] at hab
        split_ifs at hab
        · exact (hp ⟨b, hab, hne⟩).elim
        · exact .single ⟨hab, hne⟩

theorem untouched_modify {x id k : PyStr} (hx : s.owner x = some id) (hk : k ≠ id)
    (f : Directory → Directory) : Untouched k s { s with directories := s.directories.modify x f } := by
  refine ⟨fun y d hd hdk ↦ ?_, fun _ ↦ rfl, fun _ _ hf ↦ hf⟩
  rw [Keyed.get?_modify, if_neg]
  · exact hd
  · rintro rfl
    unfold State.owner at hx
    rw [hd] at hx
    exact hk (hdk.symm.trans (Option.some.inj hx))

theorem renameDirectory_eq {x name : PyStr} (h : s.renameDirectory services x name = some s') :
    s' = { s with directories := s.directories.modify x fun d ↦ { d with name := name } } := by
  unfold State.renameDirectory at h
  split_ifs at h
  cases h
  rfl

theorem inside_rename {x name : PyStr} (hs : s.renameDirectory services x name = some s') :
    Inside s' ↔ Inside s := by
  rw [renameDirectory_eq hs]
  set s' : State F := { s with directories := s.directories.modify x fun d ↦ { d with name := name } }
    with hs'
  have howner : ∀ y, s'.owner y = s.owner y := by
    intro y
    unfold State.owner
    rw [hs', Keyed.get?_modify]
    split_ifs
    · rw [Option.map_map]
      rfl
    · rfl
  have hparent : ∀ y, s'.parentOf y = s.parentOf y := by
    intro y
    unfold State.parentOf
    rw [hs', Keyed.get?_modify]
    split_ifs
    · cases s.directories.get? y <;> rfl
    · rfl
  constructor
  · intro h
    exact h.congr (fun y ↦ (howner y).symm) (fun y ↦ (hparent y).symm) h.placed
  · intro h
    exact h.congr howner hparent h.placed

theorem inside_renameIfGiven (s : State F) (x : PyStr) (name : Option PyStr) :
    Inside (s.renameIfGiven services x name).1 ↔ Inside s := by
  unfold State.renameIfGiven
  cases name with
  | none => exact Iff.rfl
  | some name =>
    dsimp only
    split
    · exact Iff.rfl
    · next s' hs' => exact inside_rename hs'

theorem untouched_renameIfGiven {x id k : PyStr} (name : Option PyStr) (hx : s.owner x = some id)
    (hk : k ≠ id) : Untouched k s (s.renameIfGiven services x name).1 := by
  unfold State.renameIfGiven
  cases name with
  | none => exact .refl k s
  | some name =>
    dsimp only
    split
    · exact .refl k s
    · next s' hs' =>
      rw [renameDirectory_eq hs']
      exact untouched_modify hx hk _

/-- What an update comes to: it moves the directory, or leaves it where it is. -/
theorem inside_update (h : Inside s) {x id : PyStr} (name : Option PyStr) {p : Option PyStr}
    (hx : s.owner x = some id) : Inside (s.updateDirectory services x name p).1 ↔
      (p ≠ some (py "__unset__") → s.wouldCycle x p = false →
        services.accepts (.moveDirectory x) = true → Own s id p) := by
  unfold State.updateDirectory
  dsimp only
  by_cases hp : p = some (py "__unset__")
  · rw [if_neg (by simp [hp])]
    exact iff_of_true ((inside_renameIfGiven s x name).mpr h) fun hne ↦ (hne hp).elim
  rw [if_pos hp]
  rcases hmoved : s.moveDirectory services x p with _ | s'
  · refine iff_of_true h fun _ hcycle haccepts ↦ ?_
    unfold State.moveDirectory at hmoved
    rw [hcycle, haccepts] at hmoved
    cases hmoved
  · refine (inside_renameIfGiven s' x name).trans ((inside_move h hx hmoved).trans
      ⟨fun hown _ _ _ ↦ hown, fun hcond ↦ ?_⟩)
    unfold State.moveDirectory at hmoved
    split_ifs at hmoved with hcycle haccepts
    exact hcond hp (by simpa using hcycle) haccepts

theorem untouched_update {x id k : PyStr} (name p : Option PyStr) (hx : s.owner x = some id)
    (hk : k ≠ id) : Untouched k s (s.updateDirectory services x name p).1 := by
  unfold State.updateDirectory
  dsimp only
  split
  · exact .refl k s
  · next s' hmoved =>
    split_ifs at hmoved
    · obtain ⟨-, rfl⟩ := moveDirectory_eq hmoved
      refine (untouched_modify hx hk _).trans (untouched_renameIfGiven name ?_ hk)
      unfold State.owner at hx ⊢
      rw [Keyed.get?_modify, if_pos rfl, Option.map_map]
      exact hx
    · cases hmoved
      exact untouched_renameIfGiven name hx hk

end FourCE.Knowledge
