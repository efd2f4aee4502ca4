import FourCE.Library.FileTree
import FourCE.Tools.Sandbox
import Mathlib.Data.List.Sort
import Mathlib.Data.List.Lex

/-!
# What the sandbox collects

After the container has stopped, `_collect` walks over the output directory of the run on the host
and returns what it finds.  Folders are entered and links are not, but whether an entry is a file,
its size and its contents are asked of the system, which follows links: a link the run left may
lead to any file of the host.
-/

namespace FourCE.Tools

open FourCE.Python FourCE.Library

/-- A file tree with names and contents as the host has them. -/
abbrev HostTree := FileTree PyStr Bytes

/-- The valves that limit what a run may return. -/
structure CollectValves where
  maxOutputFiles : ℕ
  maxOutputFileMb : ℕ

/-- The output directory of a run: a path of the host, and the folder it leads to. -/
structure OutputDir (t : HostTree) (hops : ℕ) where
  path : List PyStr
  place : List PyStr
  located : t.locate hops [] (FileTree.steps path) = .ok place
  folder : t.get place = some .dir

/-- A file read back: its path below the output directory, and its contents. -/
structure Collected where
  path : List PyStr
  bytes : Bytes
  deriving DecidableEq, Repr

/-- `path.relative_to(outdir).as_posix()`. -/
def Collected.name (c : Collected) : PyStr := join (py "/") c.path

def Collected.produced (c : Collected) : Produced := ⟨c.name, c.bytes, c.bytes.length, []⟩

section

variable (valves : CollectValves) {t : HostTree} {hops : ℕ} (out : OutputDir t hops)

/-- The file an entry of the output directory leads to. -/
def OutputDir.read (path : List PyStr) : Except FileTree.Fault Bytes :=
  t.read hops (FileTree.steps (out.path ++ path))

/-- `p.is_file()`. -/
def OutputDir.isFile (path : List PyStr) : Bool :=
  match out.read path with
  | .ok _ => true
  | .error _ => false

/-- `outdir.rglob("*")`: whatever lies in the folder or in a folder below it. -/
def OutputDir.entries : List (List PyStr) :=
  t.nodes.keys.filterMap fun p ↦
    if out.place <+: p ∧ p ≠ out.place then some (p.drop out.place.length) else none

/-- `cap`. -/
def CollectValves.cap : ℕ := valves.maxOutputFileMb * 1024 * 1024

/-- One turn of the loop of `_collect`, on the files read and the names of those skipped. -/
def collectStep (state : List Collected × List PyStr) (path : List PyStr) :
    Except FileTree.Fault (List Collected × List PyStr) :=
  let name := path.getLast?.getD []
  if valves.maxOutputFiles ≤ state.1.length then .ok (state.1, state.2 ++ [name])
  else do
    let bytes ← out.read path
    if valves.cap < bytes.length then
      return (state.1, state.2 ++ [name ++ py " (" ++ natText (bytes.length / (1024 * 1024)) ++
        py " MB, over the limit)"])
    else return (state.1 ++ [⟨path, bytes⟩], state.2)

/-- The entries `_collect` goes through. -/
def OutputDir.files : List (List PyStr) := (out.entries.filter out.isFile).insertionSort (· ≤ ·)

/-- What `_collect` reads, and the names of what it skips. -/
def gather : Except FileTree.Fault (List Collected × List PyStr) :=
  out.files.foldlM (collectStep valves out) ([], [])

/-- `_collect`. -/
def collect : Except FileTree.Fault (List Produced) := do
  let (collected, skipped) ← gather valves out
  return collected.map Collected.produced ++ if skipped.isEmpty then [] else [⟨[], [], 0, skipped⟩]

/-! ## What is read -/

/-- A file that is read back when its turn comes: one within the limit. -/
def OutputDir.small (path : List PyStr) : Option Collected :=
  match out.read path with
  | .ok bytes => if valves.cap < bytes.length then none else some ⟨path, bytes⟩
  | .error _ => none

/-- The number of files read back ahead of an entry. -/
def OutputDir.ahead (path : List PyStr) : ℕ :=
  out.entries.countP fun r ↦ r < path && (out.small valves r).isSome

/-- The file a collected one was read from lies in the output directory. -/
def OutputDir.ReadInside (c : Collected) : Prop :=
  ∃ q, t.locate hops [] (FileTree.steps (out.path ++ c.path)) = .ok q ∧
    t.get q = some (.file c.bytes) ∧ out.place <+: q

variable {valves} {out}

theorem foldlM_collectStep {paths : List (List PyStr)} (h : ∀ path ∈ paths, out.isFile path = true)
    (state : List Collected × List PyStr) (hstate : state.1.length ≤ valves.maxOutputFiles) :
    ∃ skipped, paths.foldlM (collectStep valves out) state =
      .ok (state.1 ++ (paths.filterMap (out.small valves)).take
        (valves.maxOutputFiles - state.1.length), skipped) := by
  induction paths generalizing state with
  | nil => exact ⟨state.2, by simp [pure, Except.pure]⟩
  | cons path paths ih =>
    have hrest := fun p hp ↦ h p (List.mem_cons_of_mem _ hp)
    obtain ⟨bytes, hbytes⟩ : ∃ bytes, out.read path = .ok bytes := by
      have hfile := h path List.mem_cons_self
      rw [OutputDir.isFile] at hfile
      split at hfile
      · next bytes hbytes => exact ⟨bytes, hbytes⟩
      · cases hfile
    have hsmall : out.small valves path =
        if valves.cap < bytes.length then none else some ⟨path, bytes⟩ := by
      rw [OutputDir.small, hbytes]
    rw [List.foldlM_cons, collectStep]
    by_cases hfull : valves.maxOutputFiles ≤ state.1.length
    · -- the limit is reached, and nothing is read any more
      rw [if_pos hfull]
      obtain ⟨skipped, hrun⟩ := ih hrest (state.1, state.2 ++ [path.getLast?.getD []]) hstate
      refine ⟨skipped, hrun.trans ?_⟩
      simp [Nat.sub_eq_zero_of_le hfull]
    · rw [if_neg hfull, hbytes]
      by_cases hcap : valves.cap < bytes.length
      · rw [if_pos hcap] at hsmall
        simp only [bind, Except.bind, pure, Except.pure, if_pos hcap]
        obtain ⟨skipped, hrun⟩ := ih hrest (state.1, state.2 ++ [path.getLast?.getD [] ++ py " (" ++
          natText (bytes.length / (1024 * 1024)) ++ py " MB, over the limit)"]) hstate
        exact ⟨skipped, by rw [List.filterMap_cons_none hsmall]; exact hrun⟩
      · rw [if_neg hcap] at hsmall
        simp only [bind, Except.bind, pure, Except.pure, if_neg hcap]
        obtain ⟨skipped, hrun⟩ := ih hrest (state.1 ++ [⟨path, bytes⟩], state.2)
          (by rw [List.length_append, List.length_singleton]; omega)
        refine ⟨skipped, hrun.trans ?_⟩
        obtain ⟨room, hroom⟩ : ∃ room, valves.maxOutputFiles - state.1.length = room + 1 :=
          ⟨valves.maxOutputFiles - state.1.length - 1, by omega⟩
        rw [List.filterMap_cons_some hsmall, hroom, List.take_succ_cons, List.length_append,
          List.length_singleton, Nat.sub_add_eq, hroom, Nat.add_sub_cancel, List.append_assoc,
          List.singleton_append]

variable (valves out) in
/-- `_collect` returns the first files within the limit, and never raises. -/
theorem gather_eq : ∃ skipped, gather valves out =
    .ok ((out.files.filterMap (out.small valves)).take valves.maxOutputFiles, skipped) := by
  have hfiles : ∀ path ∈ out.files, out.isFile path = true := by
    intro path hpath
    exact (List.mem_filter.mp ((List.mem_insertionSort _).mp hpath)).2
  obtain ⟨skipped, h⟩ := foldlM_collectStep hfiles ([], []) (Nat.zero_le _)
  exact ⟨skipped, by rw [gather, h, List.nil_append, List.length_nil, Nat.sub_zero]⟩

/-- In a list in order, an element is among the first so many when fewer come before it. -/
theorem mem_take_iff_of_sorted {α : Type*} [Preorder α] [DecidableLT α] {l : List α}
    (h : l.Pairwise (· < ·)) (n : ℕ) (x : α) : x ∈ l.take n ↔ x ∈ l ∧ l.countP (· < x) < n := by
  induction l generalizing n with
  | nil => simp
  | cons y l ih =>
    obtain ⟨hy, hl⟩ := List.pairwise_cons.mp h
    cases n with
    | zero => simp
    | succ n =>
      rw [List.take_succ_cons, List.mem_cons, ih hl, List.mem_cons, List.countP_cons]
      by_cases hxy : x = y
      · subst hxy
        have hzero : l.countP (· < x) = 0 :=
          List.countP_eq_zero.mpr fun z hz ↦ by simpa using lt_asymm (hy z hz)
        simp [hzero]
      · by_cases hx : x ∈ l
        · simp [hxy, hx, hy x hx]
        · simp [hxy, hx]

theorem path_of_small {path : List PyStr} {c : Collected} (h : out.small valves path = some c) :
    c.path = path ∧ out.read path = .ok c.bytes ∧ c.bytes.length ≤ valves.cap := by
  rw [OutputDir.small] at h
  split at h
  · next bytes hbytes =>
    split_ifs at h with hcap
    obtain rfl := Option.some.inj h
    exact ⟨rfl, hbytes, not_lt.mp hcap⟩
  · cases h

theorem mem_take_filterMap_small {paths : List (List PyStr)} (n : ℕ) (c : Collected) :
    c ∈ (paths.filterMap (out.small valves)).take n ↔ out.small valves c.path = some c ∧
      c.path ∈ (paths.filter fun r ↦ (out.small valves r).isSome).take n := by
  induction paths generalizing n with
  | nil => simp
  | cons path paths ih =>
    cases hsmall : out.small valves path with
    | none =>
      rw [List.filterMap_cons_none hsmall, List.filter_cons_of_neg (by simp [hsmall]), ih]
    | some d =>
      rw [List.filterMap_cons_some hsmall, List.filter_cons_of_pos (by simp [hsmall])]
      cases n with
      | zero => simp
      | succ n =>
        obtain ⟨hpath, -, -⟩ := path_of_small hsmall
        rw [List.take_succ_cons, List.take_succ_cons, List.mem_cons, List.mem_cons, ih]
        constructor
        · rintro (rfl | ⟨hc, hmem⟩)
          · exact ⟨hpath ▸ hsmall, Or.inl hpath⟩
          · exact ⟨hc, Or.inr hmem⟩
        · rintro ⟨hc, hpath' | hmem⟩
          · rw [hpath', hsmall] at hc
            exact Or.inl (Option.some.inj hc).symm
          · exact Or.inr ⟨hc, hmem⟩

theorem mem_entries {path : List PyStr} :
    path ∈ out.entries ↔ path ≠ [] ∧ t.get (out.place ++ path) ≠ none := by
  rw [OutputDir.entries, List.mem_filterMap]
  constructor
  · rintro ⟨p, hp, h⟩
    split_ifs at h with hbelow
    obtain ⟨⟨rest, rfl⟩, hne⟩ := hbelow
    obtain rfl : rest = path := by simpa using h
    have hrest : rest ≠ [] := by
      rintro rfl
      exact hne (List.append_nil _)
    refine ⟨hrest, ?_⟩
    rw [t.get_of_ne_nil (by simp [hrest]), ← Option.isSome_iff_ne_none]
    exact AList.lookup_isSome.mpr hp
  · rintro ⟨hne, hget⟩
    rw [t.get_of_ne_nil (by simp [hne]), ← Option.isSome_iff_ne_none] at hget
    exact ⟨out.place ++ path, AList.lookup_isSome.mp hget, by simp [hne]⟩

theorem nodup_entries : out.entries.Nodup := by
  refine t.nodes.keys_nodup.filterMap fun p q path hp hq ↦ ?_
  simp only [Option.mem_def] at hp hq
  split_ifs at hp hq with hp' hq'
  obtain ⟨⟨r, rfl⟩, -⟩ := hp'
  obtain ⟨⟨r', rfl⟩, -⟩ := hq'
  simp only [List.drop_left, Option.some.injEq] at hp hq
  rw [hp, hq]

theorem files_sorted : out.files.Pairwise (· < ·) := by
  have hnodup : out.files.Nodup :=
    ((List.perm_insertionSort (· ≤ ·) _).nodup_iff).mpr (nodup_entries.filter _)
  have hsorted : out.files.Pairwise (· ≤ ·) := List.pairwise_insertionSort (· ≤ ·) _
  exact (hsorted.and hnodup).imp fun h ↦ lt_of_le_of_ne h.1 h.2

theorem isFile_of_small {path : List PyStr} (h : (out.small valves path).isSome = true) :
    out.isFile path = true := by
  obtain ⟨c, hc⟩ := Option.isSome_iff_exists.mp h
  rw [OutputDir.isFile, (path_of_small hc).2.1]

/-- What `_collect` returns: the files within the limit that fewer than the limit come ahead of. -/
theorem mem_gathered {c : Collected} :
    c ∈ (out.files.filterMap (out.small valves)).take valves.maxOutputFiles ↔
      c.path ∈ out.entries ∧ out.small valves c.path = some c ∧
        out.ahead valves c.path < valves.maxOutputFiles := by
  have hcount : (out.files.filter fun r ↦ (out.small valves r).isSome).countP (· < c.path) =
      out.ahead valves c.path := by
    rw [List.countP_filter, OutputDir.files, (List.perm_insertionSort _ _).countP_eq,
      List.countP_filter, OutputDir.ahead]
    refine List.countP_congr fun r _ ↦ ?_
    cases hsmall : (out.small valves r).isSome with
    | false => simp
    | true => simp [isFile_of_small hsmall]
  have hmem : c.path ∈ out.files ↔ c.path ∈ out.entries ∧ out.isFile c.path = true := by
    rw [OutputDir.files, List.mem_insertionSort, List.mem_filter]
  rw [mem_take_filterMap_small, mem_take_iff_of_sorted (files_sorted.filter _), List.mem_filter,
    hcount, hmem]
  constructor
  · rintro ⟨hc, ⟨⟨hentry, -⟩, -⟩, hahead⟩
    exact ⟨hentry, hc, hahead⟩
  · rintro ⟨hentry, hc, hahead⟩
    have hsome : (out.small valves c.path).isSome = true := by rw [hc]; rfl
    exact ⟨hc, ⟨⟨hentry, isFile_of_small hsome⟩, hsome⟩, hahead⟩

/-! ## Where it was read -/

/-- An entry that is no link leads to itself. -/
theorem locate_entry {path q : List PyStr} (hpath : t.get (out.place ++ path) ≠ none)
    (hlink : ∀ target, t.get (out.place ++ path) ≠ some (.link target))
    (hq : t.locate hops [] (FileTree.steps (out.path ++ path)) = .ok q) :
    q = out.place ++ path := by
  rw [FileTree.steps, List.map_append] at hq
  obtain ⟨place, left, hplace, hrest⟩ := FileTree.locate_append hq
  obtain rfl : out.place = place := Except.ok.inj (out.located.symm.trans hplace)
  have hlinkless : t.Linkless (out.place ++ path) := by
    intro p hp target hget
    obtain ⟨r, hr⟩ := hp
    by_cases hnil : r = []
    · rw [hnil, List.append_nil] at hr
      exact hlink target (hr ▸ hget)
    · -- above whatever the tree holds there are folders
      have hdir := t.get_of_append (p := p) (q := r) (by rwa [hr]) hnil
      rw [hdir] at hget
      cases hget
  exact FileTree.locate_steps _ hlinkless hrest

theorem read_eq_ok_iff {path : List PyStr} {bytes : Bytes} :
    out.read path = .ok bytes ↔
      ∃ q, t.locate hops [] (FileTree.steps (out.path ++ path)) = .ok q ∧
        t.get q = some (.file bytes) := by
  rw [OutputDir.read, FileTree.read, FileTree.stat]
  cases t.locate hops [] (FileTree.steps (out.path ++ path)) with
  | error e => simp [bind, Except.bind]
  | ok q =>
    simp only [bind, Except.bind, Except.ok.injEq, exists_eq_left']
    cases hget : t.get q with
    | none => simp
    | some node => cases node <;> simp

variable (valves out) in
/-- What a run gets back was read in its output directory exactly when every link it left that
leads to a file elsewhere leads to one over the limit, or comes after as many files as are
returned. -/
theorem collects_inside_iff :
    (∃ g, gather valves out = .ok g ∧ ∀ c ∈ g.1, out.ReadInside c) ↔
      ∀ path target q bytes, t.get (out.place ++ path) = some (.link target) →
        t.locate hops [] (FileTree.steps (out.path ++ path)) = .ok q →
        t.get q = some (.file bytes) → ¬out.place <+: q →
          valves.cap < bytes.length ∨ valves.maxOutputFiles ≤ out.ahead valves path := by
  obtain ⟨skipped, hgather⟩ := gather_eq valves out
  constructor
  · rintro ⟨g, hg, hinside⟩ path target q bytes hlink hq hfile houtside
    obtain rfl := Except.ok.inj (hgather.symm.trans hg)
    by_contra hcon
    obtain ⟨hcap, hahead⟩ := not_or.mp hcon
    have hsmall : out.small valves path = some ⟨path, bytes⟩ := by
      rw [OutputDir.small, read_eq_ok_iff.mpr ⟨q, hq, hfile⟩]
      exact if_neg hcap
    have hne : path ≠ [] := by
      rintro rfl
      rw [List.append_nil, out.folder] at hlink
      cases hlink
    have hmem : (⟨path, bytes⟩ : Collected) ∈
        (out.files.filterMap (out.small valves)).take valves.maxOutputFiles :=
      mem_gathered.mpr ⟨mem_entries.mpr ⟨hne, by simp [hlink]⟩, hsmall, not_le.mp hahead⟩
    obtain ⟨q', hq', -, hbelow⟩ := hinside ⟨path, bytes⟩ hmem
    obtain rfl := Except.ok.inj (hq.symm.trans hq')
    exact houtside hbelow
  · intro hlinks
    refine ⟨_, hgather, fun c hc ↦ ?_⟩
    obtain ⟨hentry, hsmall, hahead⟩ := mem_gathered.mp hc
    obtain ⟨-, hread, hcap⟩ := path_of_small hsmall
    obtain ⟨q, hq, hfile⟩ := read_eq_ok_iff.mp hread
    refine ⟨q, hq, hfile, ?_⟩
    by_cases hlink : ∃ target, t.get (out.place ++ c.path) = some (.link target)
    · obtain ⟨target, hlink⟩ := hlink
      by_contra houtside
      rcases hlinks c.path target q c.bytes hlink hq hfile houtside with h | h
      · exact absurd h (not_lt.mpr hcap)
      · exact absurd hahead (not_lt.mpr h)
    · have hself := locate_entry (mem_entries.mp hentry).2
        (fun target h ↦ hlink ⟨target, h⟩) hq
      exact ⟨c.path, hself.symm⟩

end

/-! ## A link out of the output directory -/

/-- A host with a secret, and a run that left a link to it in its output directory. -/
def linkedNodes : AList fun _ : List PyStr ↦ FileTree.Node PyStr Bytes where
  entries :=
    [⟨[py "secret"], .file [83, 51]⟩, ⟨[py "run"], .dir⟩, ⟨[py "run", py "output"], .dir⟩,
      ⟨[py "run", py "output", py "x"], .link ⟨true, [.down (py "secret")]⟩⟩]
  nodupKeys := by
    have hkeys : ([[py "secret"], [py "run"], [py "run", py "output"],
        [py "run", py "output", py "x"]] : List (List PyStr)).Nodup := by decide
    exact hkeys

def linkedHost : HostTree where
  nodes := linkedNodes
  rooted p name h := by
    have hall : ∀ q ∈ linkedNodes.keys, FileTree.find linkedNodes q.dropLast = some .dir := by
      decide
    have hp := hall _ (AList.mem_keys.mp h)
    rwa [List.dropLast_concat] at hp

def linkedOutput : OutputDir linkedHost 40 where
  path := [py "run", py "output"]
  place := [py "run", py "output"]
  located := by decide
  folder := by decide

/-- The contents of the secret come back as those of a file the run wrote. -/
theorem link_reads_secret :
    collect ⟨20, 10⟩ linkedOutput = .ok [⟨py "x", [83, 51], 2, []⟩] ∧
      linkedHost.locate 40 [] (FileTree.steps [py "run", py "output", py "x"]) =
        .ok [py "secret"] := by
  decide

end FourCE.Tools
