import FourCE.Library.Keyed
import FourCE.Python.Text

/-!
# The processes in scope

`_descendants` of `utils/fource_egress.py`: what a process started, less any browser and what that started.  A
process may refuse to tell its name or its children.
-/

namespace FourCE.Egress

open FourCE.Library FourCE.Python

/-- `BROWSERS` -/
def BROWSERS : List PyStr := [
  py "brave.exe", py "chrome.exe", py "msedge.exe", py "firefox.exe", py "opera.exe", py "vivaldi.exe",
  py "iexplore.exe", py "arc.exe", py "brave", py "brave browser", py "chrome", py "chromium",
  py "google chrome", py "firefox", py "opera", py "vivaldi", py "safari", py "microsoft edge"]

/-- A process with what it started.  It raises a `psutil.Error` where it refuses. -/
inductive Process where
  | mk (pid : ℕ) (name : PyStr) (refusesName refusesChildren : Bool) (children : List Process)

namespace Process

def pid : Process → ℕ
  | .mk pid _ _ _ _ => pid

def name : Process → PyStr
  | .mk _ name _ _ _ => name

def refusesName : Process → Bool
  | .mk _ _ refusesName _ _ => refusesName

def refusesChildren : Process → Bool
  | .mk _ _ _ refusesChildren _ => refusesChildren

def children : Process → List Process
  | .mk _ _ _ _ children => children

/-- The process that a path of places among the children leads to. -/
def at? : Process → List ℕ → Option Process
  | p, [] => some p
  | p, i :: path => p.children[i]?.bind (·.at? path)

end Process

variable [Casing]

/-- `name.lower() in BROWSERS` -/
def Process.isBrowser (p : Process) : Bool := Casing.lower p.name ∈ BROWSERS

abbrev Excluded := Option (Keyed ℕ PyStr)

mutual
/-- `_descendants(process, excluded)`, with what is in `excluded` afterwards. -/
def descendants : Process → Excluded → List Process × Excluded
  | .mk _ _ _ true _, excluded => ([], excluded)
  | .mk _ _ _ false children, excluded => fromChildren children excluded
/-- The loop over the children. -/
def fromChildren : List Process → Excluded → List Process × Excluded
  | [], excluded => ([], excluded)
  | child :: children, excluded =>
    if child.refusesName then fromChildren children excluded
    else if child.isBrowser then fromChildren children (excluded.map fun d ↦ d.set child.pid child.name)
    else
      let below := descendants child excluded
      let rest := fromChildren children below.2
      (child :: (below.1 ++ rest.1), rest.2)
end

/-- A child that the walk goes on from. -/
def Process.Followed (p : Process) : Prop := p.refusesName = false ∧ p.isBrowser = false

/-- A path below some processes without a browser or a refusal on it, but perhaps that of the last one's children. -/
def KeptIn : List Process → List ℕ → Prop
  | _, [] => False
  | ps, i :: path => ∃ p, ps[i]? = some p ∧ p.Followed ∧
      (path = [] ∨ p.refusesChildren = false ∧ KeptIn p.children path)

/-- A path below some processes to a browser, without another one before it and without a refusal. -/
def BrowserIn : List Process → List ℕ → Prop
  | _, [] => False
  | ps, [i] => ∃ p, ps[i]? = some p ∧ p.refusesName = false ∧ p.isBrowser = true
  | ps, i :: path => ∃ p, ps[i]? = some p ∧ p.Followed ∧ p.refusesChildren = false ∧ BrowserIn p.children path

/-- The process that a path below some processes leads to. -/
def atIn : List Process → List ℕ → Option Process
  | _, [] => none
  | ps, i :: path => ps[i]?.bind (·.at? path)

/-- What a walk returns, by the paths that it keeps and those to the browsers that it records. -/
structure Walked (target : List ℕ → Option Process) (Kept Browser : List ℕ → Prop) (excluded : Excluded)
    (result : List Process × Excluded) (kept browsers : List (List ℕ)) : Prop where
  kept_nodup : kept.Nodup
  mem_kept : ∀ path, path ∈ kept ↔ Kept path
  browsers_nodup : browsers.Nodup
  mem_browsers : ∀ path, path ∈ browsers ↔ Browser path
  found : result.1.map some = kept.map target
  recorded : result.2 = excluded.map fun d ↦
    (browsers.filterMap target).foldl (fun d browser ↦ d.set browser.pid browser.name) d

/-! ## Paths below a list -/

/-- A path with its first place moved on by one. -/
def moved : List ℕ → List ℕ
  | [] => []
  | i :: path => (i + 1) :: path

/-- Paths below the first process, given from it, and paths below the others. -/
def graft (first others : List (List ℕ)) : List (List ℕ) := first.map (0 :: ·) ++ others.map moved

theorem moved_injective : Function.Injective moved := by
  intro p q h
  cases p <;> cases q <;> simp_all [moved]

theorem nodup_graft {first others : List (List ℕ)} (hfirst : first.Nodup) (hothers : others.Nodup) :
    (graft first others).Nodup := by
  refine (hfirst.map (List.cons_injective)).append (hothers.map moved_injective) fun path hpath hpath' ↦ ?_
  obtain ⟨p, -, rfl⟩ := List.mem_map.mp hpath
  obtain ⟨q, -, hq⟩ := List.mem_map.mp hpath'
  cases q <;> simp [moved] at hq

section Paths

variable {first others : List (List ℕ)}

theorem nil_mem_graft : [] ∈ graft first others ↔ [] ∈ others := by
  unfold graft
  constructor
  · intro h
    rcases List.mem_append.mp h with h | h
    · simp at h
    · obtain ⟨q, hq, hmoved⟩ := List.mem_map.mp h
      cases q with
      | nil => exact hq
      | cons i path => cases hmoved
  · exact fun h ↦ List.mem_append_right _ (List.mem_map.mpr ⟨[], h, rfl⟩)

theorem zero_mem_graft {path : List ℕ} : 0 :: path ∈ graft first others ↔ path ∈ first := by
  unfold graft
  constructor
  · intro h
    rcases List.mem_append.mp h with h | h
    · simpa using h
    · obtain ⟨q, -, hmoved⟩ := List.mem_map.mp h
      cases q <;> simp [moved] at hmoved
  · exact fun h ↦ List.mem_append_left _ (List.mem_map_of_mem h)

theorem succ_mem_graft {i : ℕ} {path : List ℕ} : (i + 1) :: path ∈ graft first others ↔ i :: path ∈ others := by
  unfold graft
  constructor
  · intro h
    rcases List.mem_append.mp h with h | h
    · simp at h
    · obtain ⟨q, hq, hmoved⟩ := List.mem_map.mp h
      have hsame : q = i :: path := moved_injective hmoved
      rwa [hsame] at hq
  · exact fun h ↦ List.mem_append_right _ (List.mem_map.mpr ⟨_, h, rfl⟩)

/-- The paths of a list from those below its first process and those below the others. -/
theorem mem_graft {P : List ℕ → Prop} {First Others : List ℕ → Prop} (hfirst : ∀ path, path ∈ first ↔ First path)
    (hothers : ∀ path, path ∈ others ↔ Others path) (hnil : P [] ↔ Others []) (hzero : ∀ path, P (0 :: path) ↔ First path)
    (hsucc : ∀ i path, P ((i + 1) :: path) ↔ Others (i :: path)) (path : List ℕ) :
    path ∈ graft first others ↔ P path := by
  rcases path with - | ⟨- | i, path⟩
  · rw [nil_mem_graft, hothers, hnil]
  · rw [zero_mem_graft, hfirst, hzero]
  · rw [succ_mem_graft, hothers, hsucc]

omit [Casing] in
theorem map_atIn_graft {p : Process} {ps : List Process} (hothers : [] ∉ others) :
    (graft first others).map (atIn (p :: ps)) = first.map p.at? ++ others.map (atIn ps) := by
  unfold graft
  rw [List.map_append, List.map_map, List.map_map]
  congr 1
  refine List.map_congr_left fun path hpath ↦ ?_
  cases path with
  | nil => exact absurd hpath hothers
  | cons i path => rfl

omit [Casing] in
theorem filterMap_atIn_graft {p : Process} {ps : List Process} (hothers : [] ∉ others) :
    (graft first others).filterMap (atIn (p :: ps)) = first.filterMap p.at? ++ others.filterMap (atIn ps) := by
  unfold graft
  rw [List.filterMap_append, List.filterMap_map, List.filterMap_map]
  congr 1
  refine List.filterMap_congr fun path hpath ↦ ?_
  cases path with
  | nil => exact absurd hpath hothers
  | cons i path => rfl

end Paths

/-! ## The walk -/

theorem not_keptIn_nil (ps : List Process) : ¬ KeptIn ps [] := by
  cases ps <;> exact id

theorem not_browserIn_nil (ps : List Process) : ¬ BrowserIn ps [] := by
  cases ps <;> exact id

theorem keptIn_zero {p : Process} {ps : List Process} {path : List ℕ} : KeptIn (p :: ps) (0 :: path) ↔
    p.Followed ∧ (path = [] ∨ p.refusesChildren = false ∧ KeptIn p.children path) := by
  simp [KeptIn]

theorem keptIn_succ {p : Process} {ps : List Process} {i : ℕ} {path : List ℕ} :
    KeptIn (p :: ps) ((i + 1) :: path) ↔ KeptIn ps (i :: path) := by
  simp [KeptIn]

theorem browserIn_cons {ps : List Process} {i : ℕ} {path : List ℕ} : BrowserIn ps (i :: path) ↔
    ∃ p, ps[i]? = some p ∧ (path = [] ∧ p.refusesName = false ∧ p.isBrowser = true ∨
      p.Followed ∧ p.refusesChildren = false ∧ BrowserIn p.children path) := by
  cases path with
  | nil => simp [BrowserIn, not_browserIn_nil]
  | cons j path => simp [BrowserIn]

theorem browserIn_zero {p : Process} {ps : List Process} {path : List ℕ} : BrowserIn (p :: ps) (0 :: path) ↔
    path = [] ∧ p.refusesName = false ∧ p.isBrowser = true ∨
      p.Followed ∧ p.refusesChildren = false ∧ BrowserIn p.children path := by
  simp [browserIn_cons]

theorem browserIn_succ {p : Process} {ps : List Process} {i : ℕ} {path : List ℕ} :
    BrowserIn (p :: ps) ((i + 1) :: path) ↔ BrowserIn ps (i :: path) := by
  simp [browserIn_cons]

/-- What a walk below one process keeps and records. -/
def WalkedFrom (p : Process) (excluded : Excluded) (result : List Process × Excluded)
    (kept browsers : List (List ℕ)) : Prop :=
  Walked p.at? (fun path ↦ p.refusesChildren = false ∧ KeptIn p.children path)
    (fun path ↦ p.refusesChildren = false ∧ BrowserIn p.children path) excluded result kept browsers

def WalkedIn (ps : List Process) (excluded : Excluded) (result : List Process × Excluded)
    (kept browsers : List (List ℕ)) : Prop :=
  Walked (atIn ps) (KeptIn ps) (BrowserIn ps) excluded result kept browsers

/-- The paths that start with the first process, and those below the others. -/
theorem walkedIn_cons {p : Process} {ps head : List Process} {excluded excluded' : Excluded}
    {result : List Process × Excluded} {kept browsers firstKept firstBrowsers : List (List ℕ)}
    (h : WalkedIn ps excluded' result kept browsers) (hkeptNodup : firstKept.Nodup)
    (hkept : ∀ path, path ∈ firstKept ↔ KeptIn (p :: ps) (0 :: path)) (hbrowsersNodup : firstBrowsers.Nodup)
    (hbrowsers : ∀ path, path ∈ firstBrowsers ↔ BrowserIn (p :: ps) (0 :: path))
    (hfound : head.map some = firstKept.map p.at?)
    (hrecorded : excluded' = excluded.map fun d ↦
      (firstBrowsers.filterMap p.at?).foldl (fun d browser ↦ d.set browser.pid browser.name) d) :
    WalkedIn (p :: ps) excluded (head ++ result.1, result.2) (graft firstKept kept) (graft firstBrowsers browsers) := by
  have hnil : [] ∉ kept := fun hmem ↦ not_keptIn_nil ps ((h.mem_kept []).mp hmem)
  have hnil' : [] ∉ browsers := fun hmem ↦ not_browserIn_nil ps ((h.mem_browsers []).mp hmem)
  refine ⟨nodup_graft hkeptNodup h.kept_nodup, ?_, nodup_graft hbrowsersNodup h.browsers_nodup, ?_, ?_, ?_⟩
  · refine mem_graft hkept h.mem_kept ?_ (fun path ↦ Iff.rfl) fun i path ↦ keptIn_succ
    exact iff_of_false (not_keptIn_nil _) (not_keptIn_nil _)
  · refine mem_graft hbrowsers h.mem_browsers ?_ (fun path ↦ Iff.rfl) fun i path ↦ browserIn_succ
    exact iff_of_false (not_browserIn_nil _) (not_browserIn_nil _)
  · rw [map_atIn_graft hnil, List.map_append, hfound]
    exact congrArg (_ ++ ·) h.found
  · rw [filterMap_atIn_graft hnil', h.recorded, hrecorded, Option.map_map]
    congr 1
    funext d
    rw [List.foldl_append]
    rfl

mutual
theorem descendants_walked : ∀ (p : Process) (excluded : Excluded), ∃ kept browsers,
    WalkedFrom p excluded (descendants p excluded) kept browsers
  | .mk pid name refusesName true children, excluded => by
    refine ⟨[], [], List.nodup_nil, fun path ↦ ?_, List.nodup_nil, fun path ↦ ?_, rfl, ?_⟩
    · exact iff_of_false List.not_mem_nil fun h ↦ Bool.noConfusion h.1
    · exact iff_of_false List.not_mem_nil fun h ↦ Bool.noConfusion h.1
    · exact Option.map_id'.symm
  | .mk pid name refusesName false children, excluded => by
    obtain ⟨kept, browsers, h⟩ := fromChildren_walked children excluded
    refine ⟨kept, browsers, h.kept_nodup, fun path ↦ ?_, h.browsers_nodup, fun path ↦ ?_, ?_, ?_⟩
    · exact (h.mem_kept path).trans (and_iff_right rfl).symm
    · exact (h.mem_browsers path).trans (and_iff_right rfl).symm
    · refine h.found.trans (List.map_congr_left fun path hpath ↦ ?_)
      cases path with
      | nil => exact absurd ((h.mem_kept []).mp hpath) (not_keptIn_nil _)
      | cons i path => rfl
    · refine h.recorded.trans ?_
      congr 1
      funext d
      congr 1
      refine List.filterMap_congr fun path hpath ↦ ?_
      cases path with
      | nil => exact absurd ((h.mem_browsers []).mp hpath) (not_browserIn_nil _)
      | cons i path => rfl
theorem fromChildren_walked : ∀ (children : List Process) (excluded : Excluded), ∃ kept browsers,
    WalkedIn children excluded (fromChildren children excluded) kept browsers
  | [], excluded => by
    refine ⟨[], [], List.nodup_nil, fun path ↦ ?_, List.nodup_nil, fun path ↦ ?_, rfl, ?_⟩
    · cases path <;> simp [KeptIn]
    · rcases path with - | ⟨i, - | ⟨j, path⟩⟩ <;> simp [BrowserIn]
    · exact Option.map_id'.symm
  | child :: children, excluded => by
    rw [fromChildren]
    by_cases hname : child.refusesName = true
    · obtain ⟨kept, browsers, h⟩ := fromChildren_walked children excluded
      have hnot : ¬ child.Followed := fun hf ↦ Bool.noConfusion (hname.symm.trans hf.1)
      rw [if_pos hname]
      refine ⟨_, _, @walkedIn_cons _ _ _ [] _ _ _ _ _ _ _ h List.nodup_nil (fun path ↦ ?_) List.nodup_nil (fun path ↦ ?_) rfl ?_⟩
      · rw [keptIn_zero]
        exact iff_of_false List.not_mem_nil fun hf ↦ hnot hf.1
      · rw [browserIn_zero, hname]
        simp [hnot]
      · exact Option.map_id'.symm
    · rw [if_neg hname]
      rw [Bool.not_eq_true] at hname
      by_cases hbrowser : child.isBrowser = true
      · obtain ⟨kept, browsers, h⟩ := fromChildren_walked children (excluded.map fun d ↦ d.set child.pid child.name)
        have hnot : ¬ child.Followed := fun hf ↦ Bool.noConfusion (hbrowser.symm.trans hf.2)
        rw [if_pos hbrowser]
        refine ⟨_, _, @walkedIn_cons _ _ _ [] _ _ _ _ _ _ _ h List.nodup_nil (fun path ↦ ?_) (List.nodup_singleton [])
          (fun path ↦ ?_) rfl ?_⟩
        · rw [keptIn_zero]
          exact iff_of_false List.not_mem_nil fun hf ↦ hnot hf.1
        · rw [browserIn_zero]
          simp [hnot, hname, hbrowser]
        · cases child
          rfl
      · rw [if_neg hbrowser]
        rw [Bool.not_eq_true] at hbrowser
        obtain ⟨below, belowBrowsers, hbelow⟩ := descendants_walked child excluded
        obtain ⟨kept, browsers, h⟩ := fromChildren_walked children (descendants child excluded).2
        have hfollowed : child.Followed := ⟨hname, hbrowser⟩
        have hfresh : [] ∉ below := fun hmem ↦ not_keptIn_nil _ ((hbelow.mem_kept []).mp hmem).2
        refine ⟨_, _, @walkedIn_cons _ _ _ (child :: (descendants child excluded).1) _ _ _ _ _ _ _ h
          (List.nodup_cons.mpr ⟨hfresh, hbelow.kept_nodup⟩) (fun path ↦ ?_) hbelow.browsers_nodup (fun path ↦ ?_) ?_
          hbelow.recorded⟩
        · rw [keptIn_zero, and_iff_right hfollowed, List.mem_cons, hbelow.mem_kept]
        · rw [browserIn_zero, hbrowser]
          simp [hfollowed, hbelow.mem_browsers]
        · rw [List.map_cons, List.map_cons, hbelow.found]
          cases child
          rfl
end

/-! ## Paths from the root -/

/-- A path to a process, on which each process before it tells its children, and those below the root are no browsers
and tell their names. -/
def Reached (root : Process) (path : List ℕ) (p : Process) : Prop :=
  path ≠ [] ∧ root.at? path = some p ∧
    ∀ q x, q <+: path → q ≠ path → root.at? q = some x → x.refusesChildren = false ∧ (q ≠ [] → x.Followed)

omit [Casing] in
theorem Process.at?_cons (root : Process) (i : ℕ) (path : List ℕ) :
    root.at? (i :: path) = root.children[i]?.bind (·.at? path) := by
  cases root
  rfl

omit [Casing] in
theorem Process.at?_nil (root : Process) : root.at? [] = some root := by
  cases root
  rfl

/-- A path goes to a child, and on from it where it is followed. -/
theorem reached_cons {root p : Process} {i : ℕ} {path : List ℕ} : Reached root (i :: path) p ↔
    root.refusesChildren = false ∧ ∃ c, root.children[i]? = some c ∧
      (path = [] ∧ c = p ∨ c.Followed ∧ Reached c path p) := by
  constructor
  · rintro ⟨-, hp, hbefore⟩
    rw [Process.at?_cons] at hp
    obtain ⟨c, hc, hp⟩ := Option.bind_eq_some_iff.mp hp
    have hroot := hbefore [] root List.nil_prefix (List.cons_ne_nil i path).symm root.at?_nil
    refine ⟨hroot.1, c, hc, ?_⟩
    have hbelow (q : List ℕ) (x : Process) (hq : q <+: path) (hne : q ≠ path) (hx : c.at? q = some x) :
        x.refusesChildren = false ∧ x.Followed := by
      have hx' : root.at? (i :: q) = some x := by
        rw [Process.at?_cons, hc]
        exact hx
      have hboth := hbefore (i :: q) x ((List.prefix_cons_inj i).mpr hq) (fun h ↦ hne (List.cons.inj h).2) hx'
      exact ⟨hboth.1, hboth.2 (List.cons_ne_nil i q)⟩
    by_cases hpath : path = []
    · subst hpath
      rw [Process.at?_nil] at hp
      exact .inl ⟨rfl, Option.some.inj hp⟩
    · have hfollowed := (hbelow [] c List.nil_prefix (Ne.symm hpath) c.at?_nil).2
      exact .inr ⟨hfollowed, hpath, hp, fun q x hq hne hx ↦ ⟨(hbelow q x hq hne hx).1, fun _ ↦ (hbelow q x hq hne hx).2⟩⟩
  · rintro ⟨hroot, c, hc, hend⟩
    have hp : c.at? path = some p := by
      rcases hend with ⟨rfl, rfl⟩ | ⟨-, -, hp, -⟩
      · exact c.at?_nil
      · exact hp
    refine ⟨List.cons_ne_nil i path, ?_, fun q x hq hne hx ↦ ?_⟩
    · rw [Process.at?_cons, hc]
      exact hp
    · cases q with
      | nil =>
        rw [Process.at?_nil] at hx
        obtain rfl := Option.some.inj hx
        exact ⟨hroot, fun h ↦ absurd rfl h⟩
      | cons j q =>
        obtain ⟨rfl, hrest⟩ := List.cons_prefix_cons.mp hq
        rw [Process.at?_cons, hc] at hx
        have hq' : q ≠ path := fun h ↦ hne (congrArg (j :: ·) h)
        rcases hend with ⟨rfl, -⟩ | ⟨hfollowed, -, -, hbefore⟩
        · exact absurd (List.prefix_nil.mp hrest) hq'
        · obtain ⟨hchildren, hother⟩ := hbefore q x hrest hq' hx
          refine ⟨hchildren, fun _ ↦ ?_⟩
          cases q with
          | nil =>
            rw [Option.bind_some, Process.at?_nil] at hx
            exact Option.some.inj hx ▸ hfollowed
          | cons k q => exact hother (List.cons_ne_nil k q)

theorem not_reached_nil (root p : Process) : ¬ Reached root [] p := fun h ↦ h.1 rfl

theorem keptIn_iff {root : Process} {path : List ℕ} :
    root.refusesChildren = false ∧ KeptIn root.children path ↔ ∃ p, Reached root path p ∧ p.Followed := by
  induction path generalizing root with
  | nil => exact iff_of_false (fun h ↦ not_keptIn_nil _ h.2) fun ⟨p, h, _⟩ ↦ not_reached_nil root p h
  | cons i path ih =>
    simp only [reached_cons, KeptIn]
    constructor
    · rintro ⟨hroot, c, hc, hfollowed, rfl | hbelow⟩
      · exact ⟨c, ⟨hroot, c, hc, .inl ⟨rfl, rfl⟩⟩, hfollowed⟩
      · obtain ⟨p, hp, hpf⟩ := ih.mp hbelow
        exact ⟨p, ⟨hroot, c, hc, .inr ⟨hfollowed, hp⟩⟩, hpf⟩
    · rintro ⟨p, ⟨hroot, c, hc, ⟨rfl, rfl⟩ | ⟨hfollowed, hp⟩⟩, hpf⟩
      · exact ⟨hroot, c, hc, hpf, .inl rfl⟩
      · exact ⟨hroot, c, hc, hfollowed, .inr (ih.mpr ⟨p, hp, hpf⟩)⟩

theorem browserIn_iff {root : Process} {path : List ℕ} :
    root.refusesChildren = false ∧ BrowserIn root.children path ↔
      ∃ p, Reached root path p ∧ p.refusesName = false ∧ p.isBrowser = true := by
  induction path generalizing root with
  | nil => exact iff_of_false (fun h ↦ not_browserIn_nil _ h.2) fun ⟨p, h, _⟩ ↦ not_reached_nil root p h
  | cons i path ih =>
    simp only [reached_cons, browserIn_cons]
    constructor
    · rintro ⟨hroot, c, hc, ⟨rfl, hbrowser⟩ | ⟨hfollowed, hbelow⟩⟩
      · exact ⟨c, ⟨hroot, c, hc, .inl ⟨rfl, rfl⟩⟩, hbrowser⟩
      · obtain ⟨p, hp, hbrowser⟩ := ih.mp hbelow
        exact ⟨p, ⟨hroot, c, hc, .inr ⟨hfollowed, hp⟩⟩, hbrowser⟩
    · rintro ⟨p, ⟨hroot, c, hc, ⟨rfl, rfl⟩ | ⟨hfollowed, hp⟩⟩, hbrowser⟩
      · exact ⟨hroot, c, hc, .inl ⟨rfl, hbrowser⟩⟩
      · exact ⟨hroot, c, hc, .inr ⟨hfollowed, ih.mpr ⟨p, hp, hbrowser⟩⟩⟩

/-- The walk returns the processes in scope, one for each path to one, and records the browsers that the paths end at. -/
theorem descendants_spec (root : Process) (excluded : Excluded) : ∃ kept browsers : List (List ℕ),
    kept.Nodup ∧ (∀ path, path ∈ kept ↔ ∃ p, Reached root path p ∧ p.Followed) ∧
    (descendants root excluded).1.map some = kept.map root.at? ∧
    browsers.Nodup ∧
    (∀ path, path ∈ browsers ↔ ∃ p, Reached root path p ∧ p.refusesName = false ∧ p.isBrowser = true) ∧
    (descendants root excluded).2 = excluded.map fun d ↦
      (browsers.filterMap root.at?).foldl (fun d browser ↦ d.set browser.pid browser.name) d := by
  obtain ⟨kept, browsers, h⟩ := descendants_walked root excluded
  refine ⟨kept, browsers, h.kept_nodup, fun path ↦ ?_, h.found, h.browsers_nodup, fun path ↦ ?_, h.recorded⟩
  · exact (h.mem_kept path).trans keptIn_iff
  · exact (h.mem_browsers path).trans browserIn_iff

/-- A process that started one that refuses its name. -/
def refusingTree : Process := .mk 1 (py "ollama.exe") false false [.mk 2 (py "node.exe") true false []]

omit [Casing] in
/-- What refuses its name is left out, though it is no browser. -/
theorem refusingTree_left_out : (@descendants asciiCasing refusingTree none).1 = [] ∧
    ∃ p, refusingTree.at? [0] = some p ∧ @Process.isBrowser asciiCasing p = false :=
  ⟨rfl, _, rfl, by decide⟩

end FourCE.Egress
