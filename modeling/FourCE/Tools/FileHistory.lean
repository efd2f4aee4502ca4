import FourCE.Tools.FileSteps

/-!
# The history of a workspace

Whether a run of `write_file` keeps what it replaces.  The number of a new version is one more than
the number of names that match a pattern made from the file's own name, so a name with a set in it,
which its own versions need not match, and a history with a version missing can send a version
over an earlier one.
-/

namespace FourCE.Tools

open FourCE.Python FourCE.Library FileTree

/-! ## What a run keeps -/

section Runs

variable [Casing]

/-- The disk after a run of calls, each with its path and its content. -/
def runCalls (host : FilesHost) (t : Disk) (calls : List (PyStr × PyStr)) : Disk :=
  calls.foldl (fun t c ↦ (writeFile host c.1 c.2 t).2) t

/-- What may happen to a place in one call: a new folder, inside the workspace unless its own folder
had to be made, a new version of a file that was there, or new contents for a file in the workspace,
outside `.versions` and of a type 4CE writes. -/
inductive Change (host : FilesHost) (t t' : Disk) (p : Place) : Prop
  | folder (free : t.get p = none) (made : t'.get p = some .dir) (room : Room host t p)
  | version (base target previous number) (base_eq : t.resolve host.hops [] host.workspace = some base)
      (place : p = versionOf base target number) (held : t.get target = some (.file previous))
      (free : t.get p = none) (made : t'.get p = some (.file previous))
  | contents (base payload) (base_eq : t.resolve host.hops [] host.workspace = some base)
      (within : base <+: p) (ne : p ≠ base) (unversioned : VERSIONS ∉ p.drop base.length)
      (writable : writableName (nameOf p) = true)
      (before : ∀ node, t.get p = some node → ∃ previous, node = .file previous)
      (made : t'.get p = some (.file payload))

/-- A place under the workspace's `.versions`. -/
def Versioned (host : FilesHost) (t : Disk) (q : Place) : Prop :=
  ∃ base, t.resolve host.hops [] host.workspace = some base ∧ base ++ [VERSIONS] <+: q

/-- Every write of a run keeps what it replaces, and touches nothing else. -/
structure EveryWriteKeeps (host : FilesHost) (t : Disk) (calls : List (PyStr × PyStr)) : Prop where
  frame : ∀ before c after, calls = before ++ c :: after → ∀ p,
    (runCalls host t (before ++ [c])).get p ≠ (runCalls host t before).get p →
      Change host (runCalls host t before) (runCalls host t (before ++ [c])) p
  kept : ∀ before c after, calls = before ++ c :: after → ∀ p previous,
    (runCalls host t before).get p = some (.file previous) →
      (runCalls host t (before ++ [c])).get p ≠ some (.file previous) →
        ∃ q, Versioned host t q ∧ (runCalls host t before).get q = none ∧
          ∀ later, later <+: after →
            (runCalls host t (before ++ c :: later)).get q = some (.file previous)
  history : ∀ before after, calls = before ++ after → ∀ p data,
    (runCalls host t before).get p = some (.file data) →
      ∃ q, (q = p ∨ Versioned host t q) ∧ (runCalls host t calls).get q = some (.file data)

/-- A call that replaces a file finds no link on the way to its versions, and no version whose
number is one more than the number of names that its pattern matches. -/
def Fits (host : FilesHost) (t : Disk) (path content : PyStr) : Prop :=
  ∀ base target payload previous, Names host t path base target → Admitted host content payload →
    t.get target = some (.file previous) → previous ≠ payload →
      (∀ n, t.Linkless (versionOf base target n)) ∧
        (contains (py "**") (versionPattern (nameOf target)) = false →
          t.get (versionOf base target (versionCount t base target + 1)) = none)

/-! ## One call -/

section Step

variable {host : FilesHost} {t t' : Disk}

/-- The steps a call takes that fits: folders alone, a new file, or a version and then new contents. -/
inductive Shape (host : FilesHost) (t t' : Disk) : Prop
  | folders (made : AddsFolders (Room host t) t t')
  | created (base target payload) (base_eq : t.resolve host.hops [] host.workspace = some base)
      (within : base <+: target) (ne : target ≠ base) (unversioned : VERSIONS ∉ target.drop base.length)
      (writable : writableName (nameOf target) = true) (free : t.get target = none) (t₁ : Disk)
      (made : AddsFolders (Room host t) t t₁) (written : Written t₁ t' target payload)
  | replaced (base target payload previous number)
      (base_eq : t.resolve host.hops [] host.workspace = some base) (within : base <+: target)
      (ne : target ≠ base) (unversioned : VERSIONS ∉ target.drop base.length)
      (writable : writableName (nameOf target) = true) (held : t.get target = some (.file previous))
      (counted : t.isDir host.hops host.workspace = true → number = versionCount t base target + 1)
      (free : t.get (versionOf base target number) = none) (t₁ t₂ t₃ : Disk)
      (made : AddsFolders (Room host t) t t₁)
      (kept : Written t₁ t₂ (versionOf base target number) previous)
      (more : AddsFolders (Room host t) t₂ t₃) (written : t' = t₃ ∨ Written t₃ t' target payload)

theorem shape_of_writeFile {path content : PyStr} {r : Except Raised PyStr}
    (h : writeFile host path content t = (r, t'))
    (hfits : Fits host (workspace host t).2 path content) : Shape host t t' := by
  have hready := addsFolders_workspace host t
  have hready' := (workspace_effect (Prod.mk.eta (p := workspace host t)).symm).2.1
  set t₀ := (workspace host t).2
  have hback {p : Place} (hnone : t₀.get p = none) : t.get p = none := by
    rcases hready p with h | ⟨hnone, -, -⟩
    · rwa [← h]
    · exact hnone
  cases writeFile_effect h with
  | refused same =>
    rw [same]
    exact .folders hready
  | created base target payload names free stored =>
    have hbase := (hready.sameLinks.resolve _ _).trans names.base_eq
    obtain ⟨t₁, hmade, hwritten⟩ := stored
    have hroom := hready.trans
      (addsFolders_parent hbase names.within names.ne names.unversioned hready.grows hmade)
    rcases hwritten with rfl | hwritten
    · exact .folders hroom
    · exact .created base target payload hbase names.within names.ne names.unversioned names.writable
        (hback free) t₁ hroom hwritten
  | @replaced base target payload previous names admitted held differ r t₁ kept stored =>
    have hbase := (hready.sameLinks.resolve _ _).trans names.base_eq
    obtain ⟨hlinkless, hfree⟩ := hfits base target payload previous names admitted held differ
    obtain ⟨t₂, hmade, hkept⟩ := keep_effect hlinkless kept
    have hheld : t.get target = some (.file previous) := by
      rcases hready target with h | ⟨-, hdir, -⟩
      · rwa [← h]
      · rw [hdir] at held
        cases held
    have hroom := hready.trans
      (addsFolders_history hbase names.within names.unversioned hheld hready.grows hmade)
    rcases hkept with ⟨⟨e, rfl⟩, rfl⟩ | ⟨hstars, q, rfl, rfl, hwritten⟩
    · rcases stored with ⟨-, rfl⟩ | ⟨⟨q, hq⟩, -⟩
      · exact .folders hroom
      · cases hq
    · rcases stored with ⟨⟨e, he⟩, -⟩ | ⟨-, hstored⟩
      · cases he
      · have hgrows := hroom.grows.trans hwritten.grows
        have hsame := hready.grows.links.symm.trans hgrows.links
        obtain ⟨t₃, hmore, hlast⟩ := hstored (hsame.linkless names.linkless)
        refine .replaced base target payload previous _ hbase names.within names.ne names.unversioned
          names.writable hheld (fun hdir ↦ ?_) (hback (hfree hstars)) t₂ t₁ t₃ hroom hwritten
          (addsFolders_parent hbase names.within names.ne names.unversioned hgrows hmore) hlast
        rw [hready' hdir]

/-- The links of a disk, and so where its workspace is, and its folders outlive every call that
fits. -/
theorem Shape.grows (h : Shape host t t') : Grows t t' := by
  cases h with
  | folders made => exact made.grows
  | created base target payload _ _ _ _ _ _ t₁ made written => exact made.grows.trans written.grows
  | replaced base target payload previous number _ _ _ _ _ _ _ _ t₁ t₂ t₃ made kept more written =>
    have hfirst := (made.grows.trans kept.grows).trans more.grows
    rcases written with rfl | written
    · exact hfirst
    · exact hfirst.trans written.grows

theorem change_of_shape (h : Shape host t t') {p : Place} (hp : t'.get p ≠ t.get p) :
    Change host t t' p := by
  have hfolder {t₁ t₂ : Disk} (hmade : AddsFolders (Room host t) t₁ t₂) (hbefore : t₁.get p = t.get p)
      (hafter : t'.get p = t₂.get p) : Change host t t' p := by
    rcases hmade p with hsame | ⟨hnone, hdir, hroom⟩
    · exact absurd (hafter.trans (hsame.trans hbefore)) hp
    · exact .folder (hbefore ▸ hnone) (hafter.trans hdir) hroom
  cases h with
  | folders made => exact hfolder made rfl rfl
  | created base target payload base_eq within ne unversioned writable free t₁ made written =>
    by_cases hpt : p = target
    · subst hpt
      exact .contents base payload base_eq within ne unversioned writable
        (fun node hnode ↦ by rw [free] at hnode; cases hnode) written.get_self
    · exact hfolder made rfl (written.get_other p hpt)
  | replaced base target payload previous number base_eq within ne unversioned writable held _ free t₁ t₂
      t₃ made kept more written =>
    have hversion := versionOf_versioned base target number
    have hother {q : Place} (hq : q ≠ target) : t'.get q = t₃.get q := by
      rcases written with rfl | written
      · rfl
      · exact written.get_other q hq
    by_cases hpv : p = versionOf base target number
    · subst hpv
      have hafter := (hother (versioned_ne hversion unversioned)).trans (more.get_eq kept.get_self)
      exact .version base target previous number base_eq rfl held free hafter
    · have hkept : t₂.get p = t₁.get p := kept.get_other p hpv
      by_cases hpt : p = target
      · subst hpt
        have hbefore := more.get_eq (hkept.trans (made.get_eq held))
        rcases written with rfl | written
        · exact absurd (hbefore.trans held.symm) hp
        · refine .contents base payload base_eq within ne unversioned writable (fun node hnode ↦ ?_)
            written.get_self
          rw [held] at hnode
          exact ⟨previous, (Option.some.inj hnode).symm⟩
      · by_cases hsame : t₁.get p = t.get p
        · exact hfolder more (hkept.trans hsame) (hother hpt)
        · rcases made p with hmade | ⟨hnone, hdir, hroom⟩
          · exact absurd hmade hsame
          · exact .folder hnone ((hother hpt).trans (more.get_eq (hkept.trans hdir))) hroom

theorem kept_of_shape (h : Shape host t t') {p : Place} {previous : Bytes}
    (hp : t.get p = some (.file previous)) (hp' : t'.get p ≠ some (.file previous)) :
    ∃ q, Versioned host t q ∧ t.get q = none ∧ t'.get q = some (.file previous) := by
  cases h with
  | folders made => exact absurd (made.get_eq hp) hp'
  | created base target payload _ _ _ _ _ free t₁ made written =>
    have hpt : p ≠ target := by
      rintro rfl
      rw [free] at hp
      cases hp
    exact absurd ((written.get_other p hpt).trans (made.get_eq hp)) hp'
  | replaced base target payload previous' number base_eq _ _ unversioned _ held _ free t₁ t₂ t₃ made
      kept more written =>
    have hversion := versionOf_versioned base target number
    have hother {q : Place} (hq : q ≠ target) : t'.get q = t₃.get q := by
      rcases written with rfl | written
      · rfl
      · exact written.get_other q hq
    have hpv : p ≠ versionOf base target number := by
      rintro rfl
      rw [free] at hp
      cases hp
    have hpt : p = target := by
      by_contra hpt
      exact hp' ((hother hpt).trans (more.get_eq ((kept.get_other p hpv).trans (made.get_eq hp))))
    subst hpt
    obtain rfl : previous' = previous := by
      rw [held] at hp
      cases hp
      rfl
    exact ⟨_, ⟨base, base_eq, hversion⟩, free,
      (hother (versioned_ne hversion unversioned)).trans (more.get_eq kept.get_self)⟩

/-- A file under `.versions` outlives every call that fits. -/
theorem versioned_stays (h : Shape host t t') {q : Place} (hq : Versioned host t q) {data : Bytes}
    (hget : t.get q = some (.file data)) : t'.get q = some (.file data) := by
  by_contra hne
  rw [← hget] at hne
  cases change_of_shape h hne with
  | folder free => rw [free] at hget; cases hget
  | version _ _ _ _ _ _ _ free => rw [free] at hget; cases hget
  | contents base payload base_eq within ne unversioned =>
    obtain ⟨base', hbase', hversion⟩ := hq
    obtain rfl : base' = base := Option.some.inj (hbase'.symm.trans base_eq)
    exact versioned_ne hversion unversioned rfl

end Step

/-! ## Runs whose calls fit -/

section Run

variable {host : FilesHost} {t : Disk} {calls : List (PyStr × PyStr)}

theorem runCalls_append (host : FilesHost) (t : Disk) (before after : List (PyStr × PyStr)) :
    runCalls host t (before ++ after) = runCalls host (runCalls host t before) after :=
  List.foldl_append ..

theorem runCalls_concat (host : FilesHost) (t : Disk) (before : List (PyStr × PyStr))
    (c : PyStr × PyStr) : runCalls host t (before ++ [c]) =
      (writeFile host c.1 c.2 (runCalls host t before)).2 :=
  runCalls_append host t before [c]

/-- Every call of a run fits the disk that it finds, with the workspace's folder made. -/
def FitsAll (host : FilesHost) (t : Disk) (calls : List (PyStr × PyStr)) : Prop :=
  ∀ before c after, calls = before ++ c :: after →
    Fits host (workspace host (runCalls host t before)).2 c.1 c.2

theorem FitsAll.shape (h : FitsAll host t calls) {before after : List (PyStr × PyStr)}
    {c : PyStr × PyStr} (hcalls : calls = before ++ c :: after) :
    Shape host (runCalls host t before) (runCalls host t (before ++ [c])) := by
  rw [runCalls_concat]
  exact shape_of_writeFile (Prod.mk.eta ..).symm (h before c after hcalls)

theorem FitsAll.sameLinks (h : FitsAll host t calls) {before after : List (PyStr × PyStr)}
    (hcalls : calls = before ++ after) : SameLinks t (runCalls host t before) := by
  induction before using List.reverseRecOn generalizing after with
  | nil => exact fun _ _ ↦ Iff.rfl
  | append_singleton before c ih =>
    rw [List.append_assoc, List.singleton_append] at hcalls
    exact (ih hcalls).trans (h.shape hcalls).grows.links

omit [Casing] in
theorem Versioned.of_sameLinks {t' : Disk} (h : SameLinks t t') {q : Place}
    (hq : Versioned host t q) : Versioned host t' q := by
  obtain ⟨base, hbase, hle⟩ := hq
  exact ⟨base, (h.resolve _ _).symm.trans hbase, hle⟩

/-- A file under `.versions` outlives the rest of a run. -/
theorem FitsAll.versioned_stays (h : FitsAll host t calls) {before later after : List (PyStr × PyStr)}
    (hcalls : calls = before ++ later ++ after) {q : Place} (hq : Versioned host t q) {data : Bytes}
    (hget : (runCalls host t before).get q = some (.file data)) :
    (runCalls host t (before ++ later)).get q = some (.file data) := by
  induction later using List.reverseRecOn generalizing after with
  | nil => rwa [List.append_nil]
  | append_singleton later c ih =>
    have hcalls' : calls = before ++ later ++ c :: after := by simpa using hcalls
    rw [← List.append_assoc]
    exact Tools.versioned_stays (h.shape hcalls') (hq.of_sameLinks (h.sameLinks hcalls')) (ih hcalls')

theorem everyWriteKeeps_of_fits (h : FitsAll host t calls) : EveryWriteKeeps host t calls where
  frame before c after hcalls p hp := change_of_shape (h.shape hcalls) hp
  kept before c after hcalls p previous hp hp' := by
    obtain ⟨q, hq, hfree, hmade⟩ := kept_of_shape (h.shape hcalls) hp hp'
    have hq := hq.of_sameLinks (h.sameLinks hcalls).symm
    refine ⟨q, hq, hfree, ?_⟩
    rintro later ⟨rest, rfl⟩
    have hsplit : calls = before ++ [c] ++ later ++ rest := by simpa using hcalls
    have hstays := h.versioned_stays hsplit hq hmade
    simpa using hstays
  history before after hcalls p data hp := by
    -- From here on, the contents are at the file itself or in a version.
    have hkept : ∀ later rest, after = later ++ rest → ∃ q, (q = p ∨ Versioned host t q) ∧
        (runCalls host t (before ++ later)).get q = some (.file data) := by
      intro later
      induction later using List.reverseRecOn with
      | nil => exact fun _ _ ↦ ⟨p, Or.inl rfl, by rwa [List.append_nil]⟩
      | append_singleton later c ih =>
        intro rest hafter
        have hcalls' : calls = before ++ later ++ c :: rest := by simpa [hafter] using hcalls
        obtain ⟨q, hq, hget⟩ := ih (c :: rest) (by simpa using hafter)
        rw [← List.append_assoc]
        by_cases hsame : (runCalls host t (before ++ later ++ [c])).get q = some (.file data)
        · exact ⟨q, hq, hsame⟩
        · obtain ⟨q', hq', -, hget'⟩ := kept_of_shape (h.shape hcalls') hget hsame
          exact ⟨q', Or.inr (hq'.of_sameLinks (h.sameLinks hcalls').symm), hget'⟩
    obtain ⟨q, hq, hget⟩ := hkept after [] (by simp)
    exact ⟨q, hq, by rwa [hcalls]⟩

end Run

/-! ## Runs from an orderly start -/

section Start

variable {host : FilesHost} {t t' : Disk} {base target : Place}

theorem InOrder.of_shape (h : InOrder t base target) (hshape : Shape host t t')
    (hready : t.isDir host.hops host.workspace = true)
    (hbase : t.resolve host.hops [] host.workspace = some base) (hwithin : base <+: target)
    (hfile : t.get target ≠ some .dir) (hmatch : SelfMatching (nameOf target)) :
    InOrder t' base target := by
  have hlinkless (n : ℕ) := hshape.grows.links.linkless (h.linkless n)
  have hstays {t₁ t₂ : Disk} (hmade : AddsFolders (Room host t) t₁ t₂) (name : PyStr) :=
    get_history_of_addsFolders hmade hready hbase hwithin hfile name
  have hsame (hget : ∀ name, t'.get (historyOf base target ++ [name]) =
      t.get (historyOf base target ++ [name])) : InOrder t' base target := by
    refine ⟨hlinkless, fun n hn ↦ ?_⟩
    rw [versionCount_congr hget]
    rw [versionOf, hget] at hn
    exact h.numbered n hn
  have hversioned (name : PyStr) : base ++ [VERSIONS] <+: historyOf base target ++ [name] :=
    ⟨target.drop base.length ++ [name], by simp [historyOf]⟩
  cases hshape with
  | folders made => exact hsame (hstays made)
  | created base' other payload base_eq _ _ unversioned _ _ t₁ made written =>
    obtain rfl : base = base' := Option.some.inj (hbase.symm.trans base_eq)
    refine hsame fun name ↦ ?_
    rw [written.get_other _ (versioned_ne (hversioned name) unversioned)]
    exact hstays made name
  | replaced base' other payload previous number base_eq within' _ unversioned _ _ counted free t₁ t₂ t₃
      made kept more written =>
    obtain rfl : base = base' := Option.some.inj (hbase.symm.trans base_eq)
    have hother (name : PyStr) (hne : historyOf base target ++ [name] ≠ versionOf base other number) :
        t'.get (historyOf base target ++ [name]) = t.get (historyOf base target ++ [name]) := by
      have hlast : t'.get (historyOf base target ++ [name]) = t₃.get (historyOf base target ++ [name]) := by
        rcases written with rfl | written
        · rfl
        · exact written.get_other _ (versioned_ne (hversioned name) unversioned)
      rw [hlast, hstays more, kept.get_other _ hne, hstays made]
    by_cases htarget : other = target
    · subst htarget
      have hnew : t'.get (versionOf base other number) = some (.file previous) := by
        have hthird := more.get_eq kept.get_self
        rcases written with rfl | written
        · exact hthird
        · rwa [written.get_other _ (versioned_ne (versionOf_versioned base other number) unversioned)]
      have hcount := versionCount_of_written hmatch free hnew hother
      refine ⟨hlinkless, fun n hn ↦ ?_⟩
      rw [hcount]
      by_cases hnumber : n = number
      · exact (hnumber.trans (counted hready)).le
      · have hne : versionOf base other n ≠ versionOf base other number := by
          intro he
          exact hnumber (versionName_injective _ (by simpa [versionOf] using he))
        rw [versionOf, hother _ hne] at hn
        exact (h.numbered n hn).trans (Nat.le_succ _)
    · refine hsame fun name ↦ hother name ?_
      intro he
      obtain ⟨own, rfl⟩ := hwithin
      obtain ⟨others, rfl⟩ := within'
      have hown : own = others := by
        simpa [historyOf] using (List.append_inj' he rfl).1
      exact htarget (by rw [hown])

omit [Casing] in
/-- Which path a call asks for depends on the links alone. -/
theorem inside_of_sameLinks (h : SameLinks t t') {root : List (Step PyStr)} {requested : PyStr}
    {r : Except Raised (Option Place)} (hr : inside host root requested t = (r, t)) :
    inside host root requested t' = (r, t') := by
  have hresolved (path : List (Step PyStr)) (u : Disk) : resolved host path u =
      ((u.resolve host.hops [] path).elim (.error .linkLoop) .ok, u) := by
    rw [resolved]
    cases u.resolve host.hops [] path <;> rfl
  rw [inside] at hr ⊢
  split_ifs at hr ⊢
  · cases hr
    rfl
  · rw [bind_apply, hresolved, h.resolve] at hr
    rw [bind_apply, hresolved]
    cases hbase : t'.resolve host.hops [] root with
    | none =>
      rw [hbase] at hr
      cases hr
      rfl
    | some base =>
      rw [hbase] at hr
      simp only [Option.elim_some, bind_apply, hresolved, h.resolve] at hr ⊢
      obtain ⟨found, hfound⟩ : ∃ found, t'.resolve host.hops []
          (steps base ++ stepsOf (strip (replace (py "\\") (py "/") (strip requested)))) = found :=
        ⟨_, rfl⟩
      rw [hfound] at hr ⊢
      cases found <;>
      · cases hr
        rfl

theorem Names.of_sameLinks (h : SameLinks t t') {path : PyStr} (hn : Names host t path base target) :
    Names host t' path base target :=
  { base_eq := (h.symm.resolve _ _).trans hn.base_eq
    within := hn.within
    ne := hn.ne
    linkless := h.linkless hn.linkless
    named := inside_of_sameLinks h hn.named
    unversioned := hn.unversioned
    writable := hn.writable }

/-- The workspace is there, and each file that the calls name has an orderly history and a name that
its versions match. -/
structure OrderlyStart (host : FilesHost) (t : Disk) (calls : List (PyStr × PyStr)) : Prop where
  ready : t.isDir host.hops host.workspace = true
  inOrder : ∀ c ∈ calls, ∀ base target, Names host t c.1 base target →
    InOrder t base target ∧ SelfMatching (nameOf target)

/-- What an orderly start comes to in the course of a run: a path that is a folder stays one. -/
structure Orderly (host : FilesHost) (t u : Disk) (calls : List (PyStr × PyStr)) : Prop where
  ready : u.isDir host.hops host.workspace = true
  links : SameLinks t u
  inOrder : ∀ c ∈ calls, ∀ base target, Names host t c.1 base target →
    u.get target = some .dir ∨ InOrder u base target

theorem Orderly.fits {u : Disk} {calls : List (PyStr × PyStr)} (h : Orderly host t u calls)
    {c : PyStr × PyStr} (hc : c ∈ calls) : Fits host (workspace host u).2 c.1 c.2 := by
  rw [(workspace_effect (Prod.mk.eta (p := workspace host u)).symm).2.1 h.ready]
  intro base target payload previous hnames _ hheld _
  rcases h.inOrder c hc base target (hnames.of_sameLinks h.links.symm) with hdir | horder
  · rw [hheld] at hdir
    cases hdir
  · exact ⟨horder.linkless, fun _ ↦ horder.free⟩

theorem Orderly.step {u u' : Disk} {calls : List (PyStr × PyStr)} (hstart : OrderlyStart host t calls)
    (h : Orderly host t u calls) (hshape : Shape host u u') : Orderly host t u' calls where
  ready := hshape.grows.isDir h.ready
  links := h.links.trans hshape.grows.links
  inOrder c hc base target hnames := by
    have hnow := hnames.of_sameLinks h.links
    by_cases hdir : u.get target = some .dir
    · exact Or.inl (hshape.grows.dirs _ hdir)
    · have horder := (h.inOrder c hc base target hnames).resolve_left hdir
      exact Or.inr (horder.of_shape hshape h.ready hnow.base_eq hnow.within hdir
        (hstart.inOrder c hc base target hnames).2)

theorem OrderlyStart.fits {calls : List (PyStr × PyStr)} (h : OrderlyStart host t calls) :
    FitsAll host t calls := by
  have hrun : ∀ before after, calls = before ++ after → Orderly host t (runCalls host t before) calls := by
    intro before
    induction before using List.reverseRecOn with
    | nil =>
      exact fun _ _ ↦ ⟨h.ready, fun _ _ ↦ Iff.rfl,
        fun c hc base target hnames ↦ Or.inr (h.inOrder c hc base target hnames).1⟩
    | append_singleton before c ih =>
      intro after hcalls
      have hbefore := ih (c :: after) (by simpa using hcalls)
      have hfits := hbefore.fits (c := c) (by rw [hcalls]; simp)
      rw [runCalls_concat]
      exact hbefore.step h (shape_of_writeFile (Prod.mk.eta ..).symm hfits)
  intro before c after hcalls
  exact (hrun before (c :: after) hcalls).fits (by rw [hcalls]; simp)

/-- A run keeps every content and touches nothing else when each call that replaces a file finds the
next version free; it does when it starts in a workspace where every file that the run names has a
name that matches its own versions, which are reached without links and numbered within their
count. -/
theorem every_write_keeps (host : FilesHost) (t : Disk) (calls : List (PyStr × PyStr))
    (h : FitsAll host t calls ∨ OrderlyStart host t calls) : EveryWriteKeeps host t calls :=
  everyWriteKeeps_of_fits (h.elim id OrderlyStart.fits)

end Start

end Runs

/-! ## Two runs -/

def sampleHost : FilesHost where
  workspace := [.down (py "w")]
  maxWriteKb := 2048
  hops := 40
  sha256 _ := py "h"
  logged _ := none

/-- A disk with an empty workspace. -/
def sampleDisk : Disk :=
  FileTree.empty.put [py "w"] .dir (by rw [List.dropLast_singleton, get_nil]) (by simp [get_empty])

theorem get_sampleDisk (p : Place) :
    sampleDisk.get p = if p = [] ∨ p = [py "w"] then some .dir else none := by
  rw [sampleDisk, get_put]
  by_cases hp : p = [py "w"]
  · simp [hp]
  · by_cases hnil : p = []
    · simp [hnil]
    · rw [if_neg hp, get_empty hnil, if_neg (by simp [hp, hnil])]

/-- A file written three times, and another one. -/
def orderlyCalls : List (PyStr × PyStr) :=
  [(py "n/b.md", py "one"), (py "n/b.md", py "two"), (py "c.txt", py "three"),
    (py "n/b.md", py "four")]

theorem every_write_keeps_orderly : @EveryWriteKeeps asciiCasing sampleHost sampleDisk orderlyCalls := by
  refine @every_write_keeps asciiCasing sampleHost sampleDisk orderlyCalls (Or.inr ?_)
  refine @OrderlyStart.mk asciiCasing sampleHost sampleDisk orderlyCalls (by decide) ?_
  intro c hc base target hnames
  have hbase : base = [py "w"] := by
    have hresolve : sampleDisk.resolve sampleHost.hops [] sampleHost.workspace = some [py "w"] := by
      decide
    exact Option.some.inj ((@Names.toInside asciiCasing _ _ _ _ _ hnames).base_eq.symm.trans hresolve)
  subst hbase
  constructor
  · have hversion (n : ℕ) : sampleDisk.get (versionOf [py "w"] target n) = none := by
      rw [get_sampleDisk, if_neg]
      simp [versionOf, historyOf]
    refine ⟨fun n q _ l hl ↦ ?_, fun n hn ↦ absurd (hversion n) hn⟩
    rw [get_sampleDisk] at hl
    split_ifs at hl
    cases hl
  · -- No path of the run has a bracket in it.
    have hplain : ∀ c ∈ orderlyCalls, ∀ found ∈ (inside sampleHost sampleHost.workspace c.1 sampleDisk).1.toOption,
        ∀ target ∈ found, 91 ∉ nameOf target := by
      decide
    refine selfMatching_of_notMem (hplain c hc (some target) ?_ target rfl)
    rw [@Names.named asciiCasing _ _ _ _ _ hnames]
    rfl

/-- The second version of `a[1].md` goes over the first: the set in the pattern `a[1].v*.md` does not
match the brackets of `a[1].v1.md`. -/
theorem version_overwritten : ¬ @EveryWriteKeeps asciiCasing sampleHost sampleDisk
    [(py "a[1].md", py "one"), (py "a[1].md", py "two"), (py "a[1].md", py "three")] := by
  intro h
  obtain ⟨q, -, hq⟩ := @EveryWriteKeeps.history asciiCasing _ _ _ h [(py "a[1].md", py "one")]
    [(py "a[1].md", py "two"), (py "a[1].md", py "three")] rfl [py "w", py "a[1].md"]
    [111, 110, 101] (by decide)
  have hnone : (@runCalls asciiCasing sampleHost sampleDisk [(py "a[1].md", py "one"),
      (py "a[1].md", py "two"), (py "a[1].md", py "three")]).nodes.entries.all
        (fun e ↦ e.2 ≠ .file [111, 110, 101]) = true := by
    decide
  have hne : q ≠ [] := by
    rintro rfl
    cases hq
  rw [get_of_ne_nil _ hne, ← Option.mem_def, AList.mem_lookup_iff] at hq
  simpa using List.all_eq_true.mp hnone _ hq

end FourCE.Tools
