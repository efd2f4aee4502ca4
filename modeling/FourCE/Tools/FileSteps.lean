import FourCE.Python.JsonRoundTrip
import FourCE.Tools.Files

/-!
# What a call of `write_file` does

Each operation of the tool and each call by what it changes on the disk, whatever is there.
-/

namespace FourCE.Tools

open FourCE.Python FourCE.Library FileTree

/-! ## What each operation does -/

section Effects

variable {host : FilesHost} {t t' : Disk}

theorem bind_apply {α β : Type} (m : FileM α) (f : α → FileM β) (t : Disk) :
    (m >>= f) t = match m t with
      | (.ok a, t') => f a t'
      | (.error e, t') => (.error e, t') := by
  simp only [bind, ExceptT.bind, ExceptT.mk, StateT.bind]
  rcases m t with ⟨r | r, t'⟩ <;> rfl

/-- A computation in two parts ends with the second, or with what the first raised. -/
theorem eq_of_bind {α β : Type} {m : FileM α} {f : α → FileM β} {r : Except Raised β}
    (h : (m >>= f) t = (r, t')) :
    (∃ a t₁, m t = (.ok a, t₁) ∧ f a t₁ = (r, t')) ∨ ∃ e, m t = (.error e, t') ∧ r = .error e := by
  rw [bind_apply] at h
  split at h
  · next a t₁ hm => exact Or.inl ⟨a, t₁, hm, h⟩
  · next e t₁ hm =>
    cases h
    exact Or.inr ⟨e, hm, rfl⟩

theorem mkdirs_effect {path : List (Step PyStr)} {r : Except Raised Unit}
    (h : mkdirs host path t = (r, t')) : AddsFolders (OnTheWay t path) t t' := by
  have heffect : AddsFolders (OnTheWay t path) t (t.makeDirs host.hops path.length path).1 :=
    addsFolders_of_makeDirs path.length path
  rw [mkdirs] at h
  split at h <;>
  · next hmake =>
    rw [hmake] at heffect
    cases h
    exact heffect

theorem addsFolders_of_mkdirs {p : Place} {r : Except Raised Unit} (hp : t.Linkless p)
    (h : mkdirs host (steps p) t = (r, t')) : AddsFolders (· <+: p) t t' :=
  (mkdirs_effect h).mono fun _ hq ↦ hq p rfl hp

theorem resolved_effect {path : List (Step PyStr)} {r : Except Raised Place}
    (h : resolved host path t = (r, t')) :
    t' = t ∧ ∀ p, r = .ok p → t.resolve host.hops [] path = some p := by
  rw [resolved] at h
  split at h
  · next p hresolve =>
    cases h
    exact ⟨rfl, fun q hq ↦ hresolve.trans (congrArg some (Except.ok.inj hq))⟩
  · cases h
    exact ⟨rfl, nofun⟩

theorem writeBytes_effect {p : Place} {data : Bytes} {r : Except Raised Unit} (hp : t.Linkless p)
    (h : writeBytes host p data t = (r, t')) :
    (∃ e, r = .error e) ∧ t' = t ∨
      r = .ok () ∧ t.locate host.hops [] (steps p) = .ok p ∧ Written t t' p data := by
  rw [writeBytes] at h
  split at h
  · next written hwrite =>
    cases h
    obtain ⟨q, hq, heffect⟩ := written_of_write hwrite
    obtain rfl : q = p := locate_steps [] hp hq
    exact Or.inr ⟨rfl, hq, heffect⟩
  · next e he =>
    cases h
    exact Or.inl ⟨⟨_, rfl⟩, rfl⟩

/-- The path a call asks for, inside the workspace. -/
structure Inside (host : FilesHost) (t : Disk) (base target : Place) : Prop where
  base_eq : t.resolve host.hops [] host.workspace = some base
  within : base <+: target
  ne : target ≠ base
  linkless : t.Linkless target

theorem inside_effect {requested : PyStr} {r : Except Raised (Option Place)}
    (h : inside host host.workspace requested t = (r, t')) :
    t' = t ∧ ∀ target, r = .ok (some target) → ∃ base, Inside host t base target := by
  rw [inside] at h
  split at h
  · cases h
    exact ⟨rfl, nofun⟩
  · rcases eq_of_bind h with ⟨base, t₁, hbase, hrest⟩ | ⟨e, hbase, rfl⟩
    · obtain ⟨rfl, hbase⟩ := resolved_effect hbase
      rcases eq_of_bind hrest with ⟨target, t₂, htarget, hend⟩ | ⟨e, htarget, rfl⟩
      · obtain ⟨rfl, htarget⟩ := resolved_effect htarget
        cases hend
        refine ⟨rfl, fun found hfound ↦ ?_⟩
        have hfound := Except.ok.inj hfound
        split_ifs at hfound with hwithin
        cases hfound
        refine ⟨base, hbase base rfl, List.isPrefixOf_iff_prefix.mp hwithin.1, hwithin.2, ?_⟩
        exact linkless_of_resolve (linkless_nil _) (htarget target rfl)
      · exact ⟨(resolved_effect htarget).1, nofun⟩
    · exact ⟨(resolved_effect hbase).1, nofun⟩

/-- The folder a file's earlier versions are kept in. -/
def historyOf (base target : Place) : Place := base ++ VERSIONS :: target.drop base.length

/-- Where the version of a number is kept. -/
def versionOf (base target : Place) (number : ℕ) : Place :=
  historyOf base target ++ [versionName (nameOf target) number]

/-- How many names in a file's history its pattern matches. -/
def versionCount (t : Disk) (base target : Place) : ℕ :=
  (t.names (historyOf base target)).countP fun name ↦ fnmatch name (versionPattern (nameOf target))

theorem globCount_effect {p : Place} {pattern : PyStr} {r : Except Raised ℕ}
    (h : globCount host p pattern t = (r, t')) :
    t' = t ∧ ∀ n, r = .ok n → contains (py "**") pattern = false ∧
      ∀ q, t.locate host.hops [] (steps p) = .ok q →
        n = (t.names q).countP fun name ↦ fnmatch name pattern := by
  rw [globCount] at h
  split_ifs at h with hstars
  · cases h
    exact ⟨rfl, nofun⟩
  · split at h
    · next folder hfolder =>
      cases h
      refine ⟨rfl, fun n hn ↦ ⟨by simpa using hstars, fun q hq ↦ ?_⟩⟩
      rw [hfolder] at hq
      cases hq
      exact (Except.ok.inj hn).symm
    · next e he =>
      cases h
      refine ⟨rfl, fun n hn ↦ ⟨by simpa using hstars, fun q hq ↦ ?_⟩⟩
      rw [he] at hq
      cases hq

/-- New folders on the way to a folder leave the names in it as they are. -/
theorem names_of_addsFolders {folder : Place} (h : AddsFolders (· <+: folder) t t') :
    (t'.names folder).Perm (t.names folder) := by
  rw [List.perm_ext_iff_of_nodup (nodup_names t' folder) (nodup_names t folder)]
  intro name
  rw [mem_names, mem_names]
  rcases h (folder ++ [name]) with h | ⟨-, -, hle⟩
  · rw [h]
  · exact absurd hle.length_le (by simp)

/-- What `keep` does where no link stands on the way to the versions: folders, and then the file
of the next number. -/
theorem keep_effect {base target : Place} {previous : Bytes} {r : Except Raised Place}
    (hlinkless : ∀ n, t.Linkless (versionOf base target n))
    (h : keep host base (target.drop base.length) target previous t = (r, t')) :
    ∃ t₁, AddsFolders (· <+: historyOf base target) t t₁ ∧
      ((∃ e, r = .error e) ∧ t' = t₁ ∨
        contains (py "**") (versionPattern (nameOf target)) = false ∧
        ∃ kept, kept = versionOf base target (versionCount t base target + 1) ∧ r = .ok kept ∧
          Written t₁ t' kept previous) := by
  have hhistory : t.Linkless (historyOf base target) :=
    (hlinkless 0).of_isPrefix (List.prefix_append _ _)
  rw [keep] at h
  rcases eq_of_bind h with ⟨_, t₁, hmake, hrest⟩ | ⟨e, hmake, rfl⟩
  · have hfolders := addsFolders_of_mkdirs hhistory hmake
    refine ⟨t₁, hfolders, ?_⟩
    rcases eq_of_bind hrest with ⟨count, t₂, hcount, hwriting⟩ | ⟨e, hcount, rfl⟩
    · obtain ⟨rfl, hcount⟩ := globCount_effect hcount
      obtain ⟨hstars, hcount⟩ := hcount count rfl
      rcases eq_of_bind hwriting with ⟨_, t₃, hwrite, hend⟩ | ⟨e, hwrite, rfl⟩
      · cases hend
        have hplace := hfolders.sameLinks.linkless (hlinkless (count + 1))
        rcases writeBytes_effect hplace hwrite with ⟨⟨e, he⟩, -⟩ | ⟨-, hlocate, hwritten⟩
        · cases he
        · -- The version is reached through the folder whose names were counted.
          rw [versionOf, steps, List.map_append, ← steps] at hlocate
          obtain ⟨q, left, hq, -⟩ := locate_append hlocate
          obtain rfl : q = historyOf base target :=
            locate_steps [] (hfolders.sameLinks.linkless hhistory) hq
          have hsame : count = versionCount t base target :=
            (hcount _ hq).trans ((names_of_addsFolders hfolders).countP_eq _)
          exact Or.inr ⟨hstars, _, by rw [← hsame]; rfl, rfl, hwritten⟩
      · have hplace := hfolders.sameLinks.linkless (hlinkless (count + 1))
        rcases writeBytes_effect hplace hwrite with ⟨-, rfl⟩ | ⟨he, -⟩
        · exact Or.inl ⟨⟨e, rfl⟩, rfl⟩
        · cases he
    · exact Or.inl ⟨⟨e, rfl⟩, (globCount_effect hcount).1⟩
  · exact ⟨t', addsFolders_of_mkdirs hhistory hmake, Or.inl ⟨⟨e, rfl⟩, rfl⟩⟩

/-- What `store` does: folders, and then the file. -/
theorem store_effect {base relative target : Place} {payload : Bytes}
    {earlier : Option (Bytes × Place)} {r : Except Raised PyStr} (hlinkless : t.Linkless target)
    (h : store host base relative target payload earlier t = (r, t')) :
    ∃ t₁, AddsFolders (· <+: target.dropLast) t t₁ ∧ (t' = t₁ ∨ Written t₁ t' target payload) := by
  have hparent := hlinkless.of_isPrefix (List.dropLast_prefix target)
  rw [store] at h
  rcases eq_of_bind h with ⟨_, t₁, hmake, hrest⟩ | ⟨e, hmake, rfl⟩
  · have hfolders := addsFolders_of_mkdirs hparent hmake
    refine ⟨t₁, hfolders, ?_⟩
    have hplace := hfolders.sameLinks.linkless hlinkless
    rcases eq_of_bind hrest with ⟨_, t₂, hwrite, hend⟩ | ⟨e, hwrite, rfl⟩
    · cases hend
      rcases writeBytes_effect hplace hwrite with ⟨⟨e, he⟩, -⟩ | ⟨-, -, hwritten⟩
      · cases he
      · exact Or.inr hwritten
    · rcases writeBytes_effect hplace hwrite with ⟨-, rfl⟩ | ⟨he, -⟩
      · exact Or.inl rfl
      · cases he
  · exact ⟨t', addsFolders_of_mkdirs hparent hmake, Or.inl rfl⟩

theorem get_of_read {p : Place} {data : Bytes} (hp : t.Linkless p)
    (h : t.read host.hops (steps p) = .ok data) : t.get p = some (.file data) := by
  rw [FileTree.read, stat] at h
  cases hlocate : t.locate host.hops [] (steps p) with
  | error e => simp [hlocate, bind, Except.bind] at h
  | ok q =>
    obtain rfl : q = p := locate_steps [] hp hlocate
    rw [hlocate] at h
    simp only [bind, Except.bind] at h
    cases hget : t.get q with
    | none => simp [hget] at h
    | some node =>
      cases node with
      | dir => simp [hget] at h
      | file old => simpa [hget] using h
      | link l => simp [hget] at h

theorem get_of_not_present {p : Place} (hp : t.Linkless p)
    (h : t.present host.hops (steps p) = false) : t.get p = none := by
  by_contra hget
  obtain ⟨node, hnode⟩ := Option.ne_none_iff_exists'.mp hget
  rw [present, stat, locate_of_get hp hget] at h
  simp [bind, Except.bind, hnode] at h

theorem workspace_effect {r : Except Raised (List (Step PyStr))}
    (h : workspace host t = (r, t')) :
    AddsFolders (OnTheWay t host.workspace) t t' ∧
      (t.isDir host.hops host.workspace = true → t' = t) ∧ ∀ root, r = .ok root → root = host.workspace := by
  rw [workspace] at h
  rcases eq_of_bind h with ⟨_, t₁, hmake, hrest⟩ | ⟨e, hmake, rfl⟩
  · cases hrest
    refine ⟨mkdirs_effect hmake, fun hdir ↦ ?_, fun root hroot ↦ (Except.ok.inj hroot).symm⟩
    rw [mkdirs, makeDirs_of_isDir hdir] at hmake
    exact (Prod.ext_iff.mp hmake).2.symm
  · refine ⟨mkdirs_effect hmake, fun hdir ↦ ?_, nofun⟩
    rw [mkdirs, makeDirs_of_isDir hdir] at hmake
    exact (Prod.ext_iff.mp hmake).2.symm

end Effects

/-! ## What a call does -/

section Call

variable [Casing] {host : FilesHost} {t t' : Disk} {base target : Place}

/-- A call names a file that 4CE writes. -/
structure Names (host : FilesHost) (t : Disk) (path : PyStr) (base target : Place) : Prop
    extends Inside host t base target where
  named : inside host host.workspace path t = (.ok (some target), t)
  unversioned : VERSIONS ∉ target.drop base.length
  writable : writableName (nameOf target) = true

/-- Contents that are neither empty nor too large. -/
structure Admitted (host : FilesHost) (content : PyStr) (payload : Bytes) : Prop where
  encoded : encodeUtf8 content = some payload
  filled : (payload.all fun b ↦ 9 ≤ b.toNat && b.toNat ≤ 13 || b.toNat = 32) = false
  small : (payload.length : ℤ) ≤ host.maxWriteKb * 1024

/-- What the end of a call does: folders on the way to the file, and the file. -/
def Stored (t t' : Disk) (target : Place) (payload : Bytes) : Prop :=
  ∃ t₁, AddsFolders (· <+: target.dropLast) t t₁ ∧ (t' = t₁ ∨ Written t₁ t' target payload)

/-- What a call does to the disk once the workspace is there. -/
inductive Effect (host : FilesHost) (path content : PyStr) (t t' : Disk) : Prop
  | refused (same : t' = t)
  | created (base target payload) (names : Names host t path base target)
      (free : t.get target = none) (stored : Stored t t' target payload)
  | replaced (base target payload previous) (names : Names host t path base target)
      (admitted : Admitted host content payload) (held : t.get target = some (.file previous))
      (differ : previous ≠ payload) {r : Except Raised Place} {t₁ : Disk}
      (kept : keep host base (target.drop base.length) target previous t = (r, t₁))
      (stored : (∃ e, r = .error e) ∧ t' = t₁ ∨ (∃ q, r = .ok q) ∧
        (t₁.Linkless target → Stored t₁ t' target payload))

theorem save_effect {path content : PyStr} {payload : Bytes} {r : Except Raised PyStr}
    (names : Names host t path base target) (admitted : Admitted host content payload)
    (h : save host base (target.drop base.length) target payload t = (r, t')) :
    Effect host path content t t' := by
  have hlinkless := names.linkless
  have hreading {r : Except Raised Bytes} {t₁ : Disk}
      (h : reading (fun t ↦ t.read host.hops (steps target)) t = (r, t₁)) :
      t₁ = t ∧ ∀ data, r = .ok data → t.read host.hops (steps target) = .ok data := by
    rw [reading] at h
    split at h
    · next data hdata =>
      cases h
      exact ⟨rfl, fun other hother ↦ hdata.trans (congrArg _ (Except.ok.inj hother))⟩
    · cases h
      exact ⟨rfl, nofun⟩
  rw [save] at h
  rcases eq_of_bind h with ⟨now, t₁, hnow, hrest⟩ | ⟨e, hnow, -⟩
  · cases hnow
    split_ifs at hrest with hpresent
    · rcases eq_of_bind hrest with ⟨previous, t₂, hread, hdiffer⟩ | ⟨e, hread, -⟩
      · obtain ⟨rfl, hread⟩ := hreading hread
        split_ifs at hdiffer with hequal
        · cases hdiffer
          exact .refused rfl
        · have hheld := get_of_read hlinkless (hread previous rfl)
          rcases eq_of_bind hdiffer with ⟨q, t₃, hkeep, hstore⟩ | ⟨e, hkeep, -⟩
          · exact .replaced base target payload previous names admitted hheld hequal hkeep
              (Or.inr ⟨⟨q, rfl⟩, fun hlink ↦ store_effect hlink hstore⟩)
          · exact .replaced base target payload previous names admitted hheld hequal hkeep
              (Or.inl ⟨⟨e, rfl⟩, rfl⟩)
      · exact .refused (hreading hread).1
    · have hfree := get_of_not_present hlinkless (by simpa using hpresent)
      exact .created base target payload names hfree (store_effect hlinkless hrest)
  · cases hnow

theorem writeFile_effect {path content : PyStr} {r : Except Raised PyStr}
    (h : writeFile host path content t = (r, t')) :
    Effect host path content (workspace host t).2 t' := by
  rw [writeFile] at h
  rcases eq_of_bind h with ⟨root, t₀, hroot, hrest⟩ | ⟨e, hroot, rfl⟩
  · obtain rfl := (workspace_effect hroot).2.2 root rfl
    rw [hroot]
    rcases eq_of_bind hrest with ⟨found, t₁, hinside, hfound⟩ | ⟨e, hinside, rfl⟩
    · obtain ⟨rfl, hnamed⟩ := inside_effect hinside
      split at hfound
      · cases hfound
        exact .refused rfl
      · next target =>
        obtain ⟨base, hinside'⟩ := hnamed target rfl
        rcases eq_of_bind hfound with ⟨base', t₂, hbase, hchecks⟩ | ⟨e, hbase, rfl⟩
        · obtain ⟨rfl, hbase⟩ := resolved_effect hbase
          obtain rfl : base' = base := Option.some.inj ((hbase base' rfl).symm.trans hinside'.base_eq)
          dsimp only at hchecks
          split_ifs at hchecks with hversions hwritable
          · cases hchecks
            exact .refused rfl
          · cases hchecks
            exact .refused rfl
          · have hnames : Names host t₂ path base' target :=
              ⟨hinside', hinside, hversions, by simpa using hwritable⟩
            cases hpayload : encodeUtf8 content with
            | none =>
              simp only [hpayload] at hchecks
              cases hchecks
              exact .refused rfl
            | some payload =>
              simp only [hpayload] at hchecks
              split_ifs at hchecks with hblank hlarge
              · cases hchecks
                exact .refused rfl
              · cases hchecks
                exact .refused rfl
              · refine save_effect hnames ⟨hpayload, ?_, ?_⟩ hchecks
                · simpa using hblank
                · omega
        · exact .refused (resolved_effect hbase).1
    · exact .refused (inside_effect hinside).1
  · exact .refused (by rw [hroot])

end Call

/-! ## Room for new folders -/

section Room

variable {host : FilesHost} {t t' t'' : Disk}

/-- A place for a new folder, unless the workspace's own folder is missing: inside the workspace, on
the way to a file outside `.versions` or to the versions of a file that is there. -/
def Room (host : FilesHost) (t : Disk) (q : Place) : Prop :=
  t.isDir host.hops host.workspace = false ∨
    ∃ base target, t.resolve host.hops [] host.workspace = some base ∧ base <+: q ∧ base <+: target ∧
      VERSIONS ∉ target.drop base.length ∧
        (q <+: target.dropLast ∨ q <+: historyOf base target ∧ ∃ data, t.get target = some (.file data))

theorem addsFolders_workspace (host : FilesHost) (t : Disk) :
    AddsFolders (Room host t) t (workspace host t).2 := by
  obtain ⟨hfolders, hsame, -⟩ := workspace_effect (Prod.mk.eta (p := workspace host t)).symm
  by_cases hdir : t.isDir host.hops host.workspace = true
  · rw [hsame hdir]
    exact addsFolders_refl _ t
  · exact hfolders.mono fun q _ ↦ Or.inl (by simpa using hdir)

/-- Folders made on the way to a place inside the workspace are inside it themselves. -/
theorem isPrefix_of_addsFolders {base w : Place}
    (hbase : t.resolve host.hops [] host.workspace = some base) (hw : base <+: w)
    (hgrows : Grows t t') (h : AddsFolders (· <+: w) t' t'') :
    AddsFolders (fun q ↦ t.isDir host.hops host.workspace = false ∨ base <+: q ∧ q <+: w) t' t'' := by
  intro q
  refine (h q).imp_right fun ⟨hnone, hmade, hq⟩ ↦ ⟨hnone, hmade, ?_⟩
  by_cases hdir : t.isDir host.hops host.workspace = true
  · rcases List.prefix_or_prefix_of_prefix hq hw with ⟨rest, rfl⟩ | hle
    · -- A folder above the workspace is there already.
      have hget := hgrows.dirs _ (get_of_isDir hdir hbase)
      by_cases hrest : rest = []
      · rw [hrest, List.append_nil, hnone] at hget
        cases hget
      · have habove : t'.get q = some .dir := t'.get_of_append (by rw [hget]; simp) hrest
        rw [hnone] at habove
        cases habove
    · exact Or.inr ⟨hle, hq⟩
  · exact Or.inl (by simpa using hdir)

theorem isPrefix_dropLast {base target : Place} (h : base <+: target) (hne : target ≠ base) :
    base <+: target.dropLast := by
  obtain ⟨rest, rfl⟩ := h
  have hrest : rest ≠ [] := by
    rintro rfl
    exact hne (List.append_nil base)
  exact ⟨rest.dropLast, (List.dropLast_append_of_ne_nil hrest).symm⟩

theorem versioned_ne {base target q : Place} (hq : base ++ [VERSIONS] <+: q)
    (htarget : VERSIONS ∉ target.drop base.length) : q ≠ target := by
  rintro rfl
  obtain ⟨rest, rfl⟩ := hq
  exact htarget (by simp)

theorem versionOf_versioned (base target : Place) (number : ℕ) :
    base ++ [VERSIONS] <+: versionOf base target number :=
  ⟨target.drop base.length ++ [versionName (nameOf target) number], by simp [versionOf, historyOf]⟩

theorem addsFolders_parent {base target : Place}
    (hbase : t.resolve host.hops [] host.workspace = some base) (hw : base <+: target)
    (hne : target ≠ base) (hunversioned : VERSIONS ∉ target.drop base.length) (hgrows : Grows t t')
    (h : AddsFolders (· <+: target.dropLast) t' t'') : AddsFolders (Room host t) t' t'' :=
  (isPrefix_of_addsFolders hbase (isPrefix_dropLast hw hne) hgrows h).mono fun _ hq ↦
    hq.imp_right fun ⟨hle, hq⟩ ↦ ⟨base, target, hbase, hle, hw, hunversioned, Or.inl hq⟩

theorem addsFolders_history {base target : Place} {data : Bytes}
    (hbase : t.resolve host.hops [] host.workspace = some base) (hw : base <+: target)
    (hunversioned : VERSIONS ∉ target.drop base.length) (hheld : t.get target = some (.file data))
    (hgrows : Grows t t') (h : AddsFolders (· <+: historyOf base target) t' t'') :
    AddsFolders (Room host t) t' t'' :=
  (isPrefix_of_addsFolders hbase (List.prefix_append _ _) hgrows h).mono fun _ hq ↦
    hq.imp_right fun ⟨hle, hq⟩ ↦ ⟨base, target, hbase, hle, hw, hunversioned, Or.inr ⟨hq, data, hheld⟩⟩

end Room

/-! ## Names that match their own versions -/

section Matching

/-- Every version of a file matches the pattern its versions are counted by. -/
def SelfMatching (name : PyStr) : Prop :=
  ∀ n, fnmatch (versionName name n) (versionPattern name) = true

theorem stem_append_suffix (name : PyStr) : stem name ++ suffix name = name := by
  have hcut := List.takeWhile_append_dropWhile (p := fun c ↦ decide (c ≠ 46)) (l := name.reverse)
  rw [stem, suffix, cutName]
  cases hfront : name.reverse.dropWhile (fun c ↦ decide (c ≠ 46)) with
  | nil => exact List.append_nil name
  | cons c before =>
    have hc : c = 46 := by
      have hhead := List.head?_dropWhile_not (fun c ↦ decide (c ≠ 46)) name.reverse
      rw [hfront] at hhead
      simpa using hhead
    dsimp only
    split_ifs with hends
    · exact List.append_nil name
    · rw [hfront, hc] at hcut
      have hname := congrArg List.reverse hcut
      rw [List.reverse_reverse, List.reverse_append, List.reverse_cons, List.append_assoc,
        List.singleton_append] at hname
      exact hname

/-- A name with no opening bracket matches its own versions. -/
theorem selfMatching_of_notMem {name : PyStr} (h : 91 ∉ name) : SelfMatching name := by
  intro n
  rw [← stem_append_suffix name, List.mem_append, not_or] at h
  have hstem : 91 ∉ stem name ++ py ".v" := by
    rw [List.mem_append, not_or]
    exact ⟨h.1, by decide⟩
  have hpattern : versionPattern name = (stem name ++ py ".v") ++ 42 :: suffix name := by
    simp [versionPattern, py, CodePoint.ofChar]
  rw [hpattern, versionName]
  exact fnmatch_star hstem h.2 (natText n)

theorem natText_injective : Function.Injective natText := by
  intro m n h
  have hread (k : ℕ) : takeNat (natText k ++ []) = some (k, []) := takeNat_natText k nofun
  have hm := hread m
  rw [h, hread n] at hm
  cases hm
  rfl

theorem versionName_injective (name : PyStr) : Function.Injective (versionName name) := by
  intro m n h
  exact natText_injective (List.append_cancel_left (List.append_cancel_right h))

end Matching

/-! ## Orderly histories -/

section Order

variable {host : FilesHost} {t t' : Disk} {base target : Place}

/-- No link is on the way to a file's versions, and none has a number beyond the count. -/
structure InOrder (t : Disk) (base target : Place) : Prop where
  linkless : ∀ n, t.Linkless (versionOf base target n)
  numbered : ∀ n, t.get (versionOf base target n) ≠ none → n ≤ versionCount t base target

theorem InOrder.free (h : InOrder t base target) :
    t.get (versionOf base target (versionCount t base target + 1)) = none := by
  by_contra hne
  have := h.numbered _ hne
  omega

/-- New folders leave the history of a file as it is: nothing is inside a file. -/
theorem get_history_of_addsFolders {t₁ t₂ : Disk} (hmade : AddsFolders (Room host t) t₁ t₂)
    (hready : t.isDir host.hops host.workspace = true)
    (hbase : t.resolve host.hops [] host.workspace = some base) (hwithin : base <+: target)
    (hfile : t.get target ≠ some .dir) (name : PyStr) :
    t₂.get (historyOf base target ++ [name]) = t₁.get (historyOf base target ++ [name]) := by
  rcases hmade (historyOf base target ++ [name]) with hsame | ⟨-, -, hroom⟩
  · exact hsame
  · exfalso
    rcases hroom with hmissing | ⟨base', other, hbase', -, hother, hunversioned, hway⟩
    · rw [hready] at hmissing
      cases hmissing
    · obtain rfl : base' = base := Option.some.inj (hbase'.symm.trans hbase)
      have hversioned : base' ++ [VERSIONS] <+: historyOf base' target ++ [name] :=
        ⟨target.drop base'.length ++ [name], by simp [historyOf]⟩
      rcases hway with hway | ⟨hway, data, hheld⟩
      · -- The way to a file outside `.versions` does not lead through it.
        obtain ⟨rest, hrest⟩ := hversioned.trans (hway.trans (List.dropLast_prefix other))
        exact hunversioned (by rw [← hrest]; simp)
      · -- The way to another file's versions leads through this one's only when it is in it.
        obtain ⟨own, rfl⟩ := hwithin
        obtain ⟨inner, rfl⟩ := hother
        simp only [historyOf, List.drop_left, List.append_assoc, List.cons_append,
          List.prefix_append_right_inj, List.cons_prefix_cons, true_and] at hway
        obtain ⟨deeper, rfl⟩ := hway
        refine hfile (t.get_of_append (q := name :: deeper) ?_ (List.cons_ne_nil _ _))
        rw [List.append_assoc own, List.singleton_append] at hheld
        rw [List.append_assoc, hheld]
        simp

theorem versionCount_congr
    (h : ∀ name, t'.get (historyOf base target ++ [name]) = t.get (historyOf base target ++ [name])) :
    versionCount t' base target = versionCount t base target := by
  refine List.Perm.countP_eq _ ?_
  rw [List.perm_ext_iff_of_nodup (nodup_names _ _) (nodup_names _ _)]
  intro name
  rw [mem_names, mem_names, h]

/-- A new version that its pattern matches counts for one. -/
theorem versionCount_of_written {number : ℕ} {data : Bytes}
    (hmatch : SelfMatching (nameOf target)) (hfree : t.get (versionOf base target number) = none)
    (hnew : t'.get (versionOf base target number) = some (.file data))
    (hother : ∀ name, historyOf base target ++ [name] ≠ versionOf base target number →
      t'.get (historyOf base target ++ [name]) = t.get (historyOf base target ++ [name])) :
    versionCount t' base target = versionCount t base target + 1 := by
  have hperm : (t'.names (historyOf base target)).Perm
      (versionName (nameOf target) number :: t.names (historyOf base target)) := by
    have hfresh : versionName (nameOf target) number ∉ t.names (historyOf base target) := by
      rw [mem_names, not_not]
      exact hfree
    rw [List.perm_ext_iff_of_nodup (nodup_names _ _) ((nodup_names _ _).cons hfresh)]
    intro name
    rw [List.mem_cons, mem_names, mem_names]
    by_cases hname : name = versionName (nameOf target) number
    · subst hname
      rw [versionOf] at hnew
      simp [hnew]
    · rw [hother name (by simpa [versionOf] using hname)]
      simp [hname]
  rw [versionCount, hperm.countP_eq]
  exact List.countP_cons_of_pos (hmatch number)

end Order

end FourCE.Tools
