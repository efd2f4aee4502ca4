import Mathlib.Data.List.AList
import Mathlib.Data.List.Induction
import Mathlib.Tactic.Common

/-!
# File trees with symbolic links

A tree maps paths to folders, files and symbolic links, and whatever it holds lies in a folder.  A
path given to the system is a list of steps that may lead up and through links; `resolve` follows
it by name alone, as `realpath` does, and `locate` as the system does, which fails where it would
leave a folder that is not there.  Two names for one file (hard links) are not modelled.
-/

namespace FourCE.Library

variable {Name Data : Type}

/-- A step of a path: to the parent, or to a name. -/
inductive FileTree.Step (Name : Type)
  | up
  | down (name : Name)
  deriving DecidableEq, Repr

/-- What a symbolic link holds. -/
structure FileTree.Link (Name : Type) where
  absolute : Bool
  steps : List (FileTree.Step Name)
  deriving DecidableEq, Repr

inductive FileTree.Node (Name Data : Type)
  | dir
  | file (data : Data)
  | link (target : FileTree.Link Name)
  deriving DecidableEq, Repr

instance (o : Option (FileTree.Node Name Data)) : Decidable (o = some .dir) :=
  match o with
  | some .dir => .isTrue rfl
  | none => .isFalse nofun
  | some (.file _) => .isFalse nofun
  | some (.link _) => .isFalse nofun

open FileTree in
/-- What stands at a place: the root is a folder. -/
def FileTree.find [DecidableEq Name] (nodes : AList fun _ : List Name ↦ Node Name Data)
    (p : List Name) : Option (Node Name Data) :=
  if p = [] then some .dir else nodes.lookup p

/-- A file tree, by its places: whatever it holds lies in a folder. -/
structure FileTree (Name Data : Type) [DecidableEq Name] where
  nodes : AList fun _ : List Name ↦ FileTree.Node Name Data
  rooted : ∀ p name, p ++ [name] ∈ nodes → FileTree.find nodes p = some .dir

namespace FileTree

variable [DecidableEq Name]

/-- What the tree holds at a place. -/
def get (t : FileTree Name Data) (p : List Name) : Option (Node Name Data) := find t.nodes p

@[simp]
theorem get_nil (t : FileTree Name Data) : t.get [] = some .dir := rfl

theorem get_of_ne_nil (t : FileTree Name Data) {p : List Name} (h : p ≠ []) :
    t.get p = t.nodes.lookup p := if_neg h

theorem get_dropLast (t : FileTree Name Data) {p : List Name} (h : t.get p ≠ none) :
    t.get p.dropLast = some .dir := by
  rcases List.eq_nil_or_concat p with rfl | ⟨q, name, rfl⟩
  · exact t.get_nil
  · rw [List.concat_eq_append, get_of_ne_nil t (by simp)] at h
    rw [List.concat_eq_append, List.dropLast_concat]
    exact t.rooted q name (AList.lookup_isSome.mp (Option.isSome_iff_ne_none.mpr h))

/-- Above whatever a tree holds there are only folders. -/
theorem get_of_append (t : FileTree Name Data) {p q : List Name} (h : t.get (p ++ q) ≠ none)
    (hq : q ≠ []) : t.get p = some .dir := by
  induction q using List.reverseRecOn with
  | nil => exact absurd rfl hq
  | append_singleton q name ih =>
    have hparent := t.get_dropLast h
    rw [← List.append_assoc, List.dropLast_concat] at hparent
    by_cases hq : q = []
    · simpa [hq] using hparent
    · exact ih (by simp [hparent]) hq

/-- The tree of an empty root. -/
def empty : FileTree Name Data := ⟨∅, fun _ _ h ↦ absurd h (AList.notMem_empty _)⟩

theorem get_empty {p : List Name} (h : p ≠ []) : (empty : FileTree Name Data).get p = none := by
  rw [get_of_ne_nil _ h]
  exact AList.lookup_empty p

/-- The tree with a node placed in a folder of it, where no folder is. -/
def put (t : FileTree Name Data) (p : List Name) (node : Node Name Data)
    (hparent : t.get p.dropLast = some .dir) (hfree : t.get p ≠ some .dir) : FileTree Name Data where
  nodes := t.nodes.insert p node
  rooted q name h := by
    have hqp : q ≠ p := by
      rintro rfl
      rcases (AList.mem_insert _).mp h with h | h
      · exact absurd (congrArg List.length h) (by simp)
      · exact hfree (t.rooted q name h)
    have hq : t.get q = some .dir := by
      rcases (AList.mem_insert _).mp h with h | h
      · rwa [← h, List.dropLast_concat] at hparent
      · exact t.rooted q name h
    rw [find]
    split_ifs with hnil
    · rfl
    · rw [AList.lookup_insert_ne hqp]
      rwa [get_of_ne_nil t hnil] at hq

theorem get_put (t : FileTree Name Data) {p : List Name} {node : Node Name Data}
    (hparent : t.get p.dropLast = some .dir) (hfree : t.get p ≠ some .dir) (q : List Name) :
    (t.put p node hparent hfree).get q = if q = p then some node else t.get q := by
  have hp : p ≠ [] := fun h ↦ hfree (h ▸ t.get_nil)
  by_cases hq : q = []
  · rw [hq, if_neg hp.symm]
    rfl
  · rw [get_of_ne_nil _ hq, get_of_ne_nil _ hq, put]
    split_ifs with h
    · rw [h, AList.lookup_insert]
    · rw [AList.lookup_insert_ne h]

/-- The names a folder holds. -/
def names (t : FileTree Name Data) (folder : List Name) : List Name :=
  t.nodes.keys.filterMap fun p ↦ if p.dropLast = folder then p.getLast? else none

/-! ## Following a path -/

/-- Why the system refused. -/
inductive Fault
  | missing
  | notDirectory
  | exists
  | isDirectory
  | loop
  deriving DecidableEq, Repr

/-- A path followed from a place to its end or to the first link on it, which leaves a place to
start from and the steps to follow from there. -/
def advance (t : FileTree Name Data) :
    List Name → List (Step Name) → List Name ⊕ (List Name × List (Step Name))
  | here, [] => .inl here
  | here, .up :: rest => advance t here.dropLast rest
  | here, .down name :: rest =>
    match t.get (here ++ [name]) with
    | some (.link target) => .inr (if target.absolute then [] else here, target.steps ++ rest)
    | _ => advance t (here ++ [name]) rest

/-- Where a path leads by name alone, through at most `hops` links. -/
def resolve (t : FileTree Name Data) (hops : ℕ) (here : List Name) (path : List (Step Name)) :
    Option (List Name) :=
  match t.advance here path with
  | .inl p => some p
  | .inr (start, left) => match hops with
    | 0 => none
    | hops + 1 => resolve t hops start left

/-- `advance`, where every step must start from a folder. -/
def walk (t : FileTree Name Data) :
    List Name → List (Step Name) → Except Fault (List Name ⊕ (List Name × List (Step Name)))
  | here, [] => .ok (.inl here)
  | here, step :: rest =>
    match t.get here with
    | none => .error .missing
    | some .dir => match step with
      | .up => walk t here.dropLast rest
      | .down name => match t.get (here ++ [name]) with
        | some (.link target) => .ok (.inr (if target.absolute then [] else here, target.steps ++ rest))
        | _ => walk t (here ++ [name]) rest
    | some _ => .error .notDirectory

/-- Where the system gets to along a path; nothing need be there. -/
def locate (t : FileTree Name Data) (hops : ℕ) (here : List Name) (path : List (Step Name)) :
    Except Fault (List Name) :=
  match t.walk here path with
  | .error e => .error e
  | .ok (.inl p) => .ok p
  | .ok (.inr (start, left)) => match hops with
    | 0 => .error .loop
    | hops + 1 => locate t hops start left

/-- A place by its path. -/
def steps (p : List Name) : List (Step Name) := p.map .down

/-! ## What the system does -/

section System

variable (hops : ℕ)

/-- What a path leads to. -/
def stat (t : FileTree Name Data) (path : List (Step Name)) : Except Fault (Node Name Data) := do
  let p ← t.locate hops [] path
  match t.get p with
  | none => .error .missing
  | some node => .ok node

def present (t : FileTree Name Data) (path : List (Step Name)) : Bool :=
  match t.stat hops path with
  | .ok _ => true
  | .error _ => false

def isDir (t : FileTree Name Data) (path : List (Step Name)) : Bool :=
  match t.stat hops path with
  | .ok .dir => true
  | _ => false

def read (t : FileTree Name Data) (path : List (Step Name)) : Except Fault Data := do
  match ← t.stat hops path with
  | .file data => .ok data
  | _ => .error .isDirectory

/-- A file's contents written, through links, in an existing folder. -/
def write (t : FileTree Name Data) (path : List (Step Name)) (data : Data) :
    Except Fault (FileTree Name Data) := do
  let p ← t.locate hops [] path
  if hfree : t.get p = some .dir then .error .isDirectory
  else if hparent : t.get p.dropLast = some .dir then .ok (t.put p (.file data) hparent hfree)
  else .error .missing

/-- A folder made, in an existing one, at a name nothing has. -/
def makeDir (t : FileTree Name Data) (path : List (Step Name)) : Except Fault (FileTree Name Data) :=
  match path.getLast? with
  | some (.down name) => do
    let parent ← t.locate hops [] path.dropLast
    if hparent : t.get parent = some .dir then
      if hfree : t.get (parent ++ [name]) = none then
        .ok (t.put (parent ++ [name]) .dir (by rwa [List.dropLast_concat]) (by simp [hfree]))
      else .error .exists
    else if t.get parent = none then .error .missing
    else .error .notDirectory
  | _ => match t.stat hops path with
    | .ok _ => .error .exists
    | .error e => .error e

/-- A folder made with those above it; one that is there already will do.  The tree is what is
left even where it fails. -/
def makeDirs (t : FileTree Name Data) (depth : ℕ) (path : List (Step Name)) :
    FileTree Name Data × Option Fault :=
  match t.makeDir hops path, depth with
  | .ok made, _ => (made, none)
  | .error .missing, depth + 1 =>
    match t.makeDirs depth path.dropLast with
    | (above, some e) => (above, some e)
    | (above, none) => match above.makeDir hops path with
      | .ok made => (made, none)
      | .error e => (above, if above.isDir hops path then none else some e)
  | .error e, _ => (t, if t.isDir hops path then none else some e)

end System

/-! ## Places without links -/

section Places

variable {t t' : FileTree Name Data} {hops : ℕ}

/-- No link on the way to a place, nor at it. -/
def Linkless (t : FileTree Name Data) (p : List Name) : Prop :=
  ∀ q, q <+: p → ∀ target, t.get q ≠ some (.link target)

theorem linkless_nil (t : FileTree Name Data) : t.Linkless [] := by
  intro q hq target h
  rw [List.prefix_nil.mp hq, get_nil] at h
  cases h

theorem Linkless.of_isPrefix {p q : List Name} (h : t.Linkless p) (hq : q <+: p) : t.Linkless q :=
  fun r hr ↦ h r (hr.trans hq)

theorem linkless_concat {p : List Name} (h : t.Linkless p) {name : Name}
    (hname : ∀ target, t.get (p ++ [name]) ≠ some (.link target)) : t.Linkless (p ++ [name]) := by
  intro q hq target
  rcases List.prefix_concat_iff.mp hq with rfl | hq
  · exact hname target
  · exact h q hq target

theorem linkless_of_advance {here : List Name} {path : List (Step Name)} (h : t.Linkless here) :
    (∀ p, t.advance here path = .inl p → t.Linkless p) ∧
      ∀ p left, t.advance here path = .inr (p, left) → t.Linkless p := by
  fun_induction advance t here path with
  | case1 here =>
    refine ⟨fun p hp ↦ ?_, nofun⟩
    cases hp
    exact h
  | case2 here rest ih => exact ih (h.of_isPrefix (List.dropLast_prefix here))
  | case3 here name rest target hlink =>
    refine ⟨nofun, fun p left hp ↦ ?_⟩
    cases hp
    split_ifs
    · exact t.linkless_nil
    · exact h
  | case4 here name rest hlink ih => exact ih (linkless_concat h fun target hget ↦ hlink target hget)

/-- A resolved path has no link on it. -/
theorem linkless_of_resolve {here p : List Name} {path : List (Step Name)} (h : t.Linkless here)
    (hp : t.resolve hops here path = some p) : t.Linkless p := by
  fun_induction resolve t hops here path with
  | case1 hops here path q hq =>
    cases hp
    exact (linkless_of_advance h).1 _ hq
  | case2 here path start left hadvance => cases hp
  | case3 here path start left hadvance hops ih =>
    exact ih ((linkless_of_advance h).2 _ _ hadvance) hp

theorem linkless_of_walk {here : List Name} {path : List (Step Name)} (h : t.Linkless here) :
    (∀ p, t.walk here path = .ok (.inl p) → t.Linkless p) ∧
      ∀ p left, t.walk here path = .ok (.inr (p, left)) → t.Linkless p := by
  fun_induction walk t here path with
  | case1 here =>
    refine ⟨fun p hp ↦ ?_, nofun⟩
    cases hp
    exact h
  | case2 here step rest hnone => exact ⟨nofun, nofun⟩
  | case3 here rest hdir ih => exact ih (h.of_isPrefix (List.dropLast_prefix here))
  | case4 here rest hdir name target hlink =>
    refine ⟨nofun, fun p left hp ↦ ?_⟩
    cases hp
    split_ifs
    · exact t.linkless_nil
    · exact h
  | case5 here rest hdir name hlink ih =>
    exact ih (linkless_concat h fun target hget ↦ hlink target hget)
  | case6 here step rest node hnode hget => exact ⟨nofun, nofun⟩

theorem linkless_of_locate {here p : List Name} {path : List (Step Name)} (h : t.Linkless here)
    (hp : t.locate hops here path = .ok p) : t.Linkless p := by
  fun_induction locate t hops here path with
  | case1 hops here path e he => cases hp
  | case2 hops here path q hq =>
    cases hp
    exact (linkless_of_walk h).1 _ hq
  | case3 here path start left hwalk => cases hp
  | case4 here path start left hwalk hops ih => exact ih ((linkless_of_walk h).2 _ _ hwalk) hp

/-- Where nothing on the way is a link, the system gets to the place that the path names. -/
theorem walk_steps {here p : List Name} (h : t.Linkless (here ++ p)) {found}
    (hfound : t.walk here (steps p) = .ok found) : found = .inl (here ++ p) := by
  induction p generalizing here with
  | nil =>
    cases hfound
    rw [List.append_nil]
  | cons name rest ih =>
    rw [steps, List.map_cons, walk] at hfound
    have hplace : t.Linkless (here ++ [name]) :=
      h.of_isPrefix ⟨rest, by rw [List.append_assoc, List.singleton_append]⟩
    split at hfound
    · cases hfound
    · split at hfound
      · next target hlink => exact absurd hlink (hplace _ List.prefix_rfl target)
      · have hrest := @ih (here ++ [name]) (by simpa using h) hfound
        rwa [List.append_assoc, List.singleton_append] at hrest
    · cases hfound

theorem locate_steps (here : List Name) {p q : List Name} (h : t.Linkless (here ++ p))
    (hq : t.locate hops here (steps p) = .ok q) : q = here ++ p := by
  rw [locate.eq_def] at hq
  cases hwalk : t.walk here (steps p) with
  | error e =>
    rw [hwalk] at hq
    cases hq
  | ok found =>
    obtain rfl := walk_steps h hwalk
    rw [hwalk] at hq
    cases hq
    rfl

theorem walk_down {here : List Name} {name : Name} (hdir : t.get here = some .dir)
    (hlink : ∀ target, t.get (here ++ [name]) ≠ some (.link target)) (rest : List (Step Name)) :
    t.walk here (.down name :: rest) = t.walk (here ++ [name]) rest := by
  rw [walk, hdir]
  split
  · next h => cases h
  · split
    · next target hget => exact absurd hget (hlink target)
    · rfl
  · next h => exact absurd (Option.some.inj h).symm ‹_›

theorem walk_append (here : List Name) (path more : List (Step Name)) :
    t.walk here (path ++ more) = match t.walk here path with
      | .error e => .error e
      | .ok (.inl p) => t.walk p more
      | .ok (.inr (p, left)) => .ok (.inr (p, left ++ more)) := by
  fun_induction t.walk here path with
  | case1 here => rfl
  | case2 here step rest hnone =>
    rw [List.cons_append, walk.eq_def]
    simp only [hnone]
  | case3 here rest hdir ih =>
    rw [List.cons_append, walk, hdir]
    exact ih
  | case4 here rest hdir name target hlink =>
    rw [List.cons_append, walk, hdir]
    simp only [hlink, List.append_assoc]
  | case5 here rest hdir name hlink ih =>
    rw [List.cons_append, walk_down hdir fun target hget ↦ hlink target hget]
    exact ih
  | case6 here step rest node hnode hget =>
    rw [List.cons_append, walk.eq_def]
    simp only [hget]

/-- The system gets to the end of a path through every place on it. -/
theorem locate_append {here p : List Name} {path more : List (Step Name)}
    (h : t.locate hops here (path ++ more) = .ok p) :
    ∃ q left, t.locate hops here path = .ok q ∧ t.locate left q more = .ok p := by
  induction hops generalizing here path with
  | zero =>
    rw [locate, walk_append] at h
    rw [locate]
    cases hwalk : t.walk here path with
    | error e => simp [hwalk] at h
    | ok found =>
      cases found with
      | inl q => exact ⟨q, 0, rfl, by rw [locate]; simpa [hwalk] using h⟩
      | inr left => simp [hwalk] at h
  | succ hops ih =>
    rw [locate, walk_append] at h
    rw [locate]
    cases hwalk : t.walk here path with
    | error e => simp [hwalk] at h
    | ok found =>
      cases found with
      | inl q => exact ⟨q, hops + 1, rfl, by rw [locate]; simpa [hwalk] using h⟩
      | inr left => exact ih (by simpa [hwalk] using h)

theorem locate_down {here p : List Name} {name : Name}
    (h : t.locate hops here [.down name] = .ok p) :
    t.get here = some .dir ∧ (t.get (here ++ [name]) = none → p = here ++ [name]) := by
  rw [locate.eq_def, walk] at h
  cases hhere : t.get here with
  | none => simp [hhere] at h
  | some node =>
    cases node with
    | file data => simp [hhere] at h
    | link target => simp [hhere] at h
    | dir =>
      refine ⟨rfl, fun hnone ↦ ?_⟩
      simpa [hhere, hnone, walk, eq_comm] using h

/-- What a tree holds at a place without links is found there. -/
theorem locate_of_get {p : List Name} (h : t.Linkless p) (hget : t.get p ≠ none) :
    t.locate hops [] (steps p) = .ok p := by
  have hwalk : t.walk [] (steps p) = .ok (.inl p) := by
    induction p using List.reverseRecOn with
    | nil => rfl
    | append_singleton q name ih =>
      have hdir := t.get_of_append hget (by simp)
      rw [steps, List.map_append, ← steps, walk_append,
        ih (h.of_isPrefix (List.prefix_append q [name])) (by simp [hdir])]
      exact walk_down hdir (h _ List.prefix_rfl) []
  rw [locate.eq_def, hwalk]

/-- Where the system gets to is where the path leads by name. -/
theorem advance_of_walk {here : List Name} {path : List (Step Name)} {found}
    (h : t.walk here path = .ok found) : t.advance here path = found := by
  fun_induction t.walk here path with
  | case1 here => exact Except.ok.inj h
  | case2 here step rest hnone => cases h
  | case3 here rest hdir ih => exact ih h
  | case4 here rest hdir name target hlink =>
    rw [advance, hlink]
    exact Except.ok.inj h
  | case5 here rest hdir name hlink ih =>
    rw [advance]
    split
    · next target hget => exact absurd hget (hlink target)
    · exact ih h
  | case6 here step rest node hnode hget => cases h

theorem resolve_of_locate {here p : List Name} {path : List (Step Name)}
    (h : t.locate hops here path = .ok p) : t.resolve hops here path = some p := by
  fun_induction t.locate hops here path with
  | case1 hops here path e he => cases h
  | case2 hops here path q hq => rw [resolve.eq_def, advance_of_walk hq, Except.ok.inj h]
  | case3 here path start left hwalk => cases h
  | case4 here path start left hwalk hops ih =>
    rw [resolve.eq_def, advance_of_walk hwalk]
    exact ih h

/-- A folder reached along a path stands where the path leads by name. -/
theorem get_of_isDir {p : List Name} {path : List (Step Name)} (h : t.isDir hops path = true)
    (hp : t.resolve hops [] path = some p) : t.get p = some .dir := by
  rw [isDir, stat] at h
  cases hlocate : t.locate hops [] path with
  | error e => simp [hlocate, bind, Except.bind] at h
  | ok q =>
    obtain rfl : q = p := Option.some.inj ((resolve_of_locate hlocate).symm.trans hp)
    rw [hlocate] at h
    simp only [bind, Except.bind] at h
    cases hget : t.get q with
    | none => simp [hget] at h
    | some node => cases node <;> simp_all

/-- A folder that is there is not made again. -/
theorem makeDirs_of_isDir {path : List (Step Name)} (h : t.isDir hops path = true) (depth : ℕ) :
    t.makeDirs hops depth path = (t, none) := by
  have hmake : t.makeDir hops path = .error .exists := by
    have hstat : t.stat hops path = .ok .dir := by
      rw [isDir] at h
      split at h
      · next hstat => exact hstat
      · cases h
    rw [makeDir]
    split
    · next name hlast =>
      obtain ⟨front, rfl⟩ : ∃ front, path = front ++ [.down name] :=
        ⟨path.dropLast, (List.dropLast_append_getLast? _ hlast).symm⟩
      rw [stat] at hstat
      cases hlocate : t.locate hops [] (front ++ [.down name]) with
      | error e => simp [hlocate, bind, Except.bind] at hstat
      | ok p =>
        -- The folder above is reached, and the name stands in it.
        obtain ⟨q, left, hq, hp⟩ := locate_append hlocate
        obtain ⟨hdir, hnone⟩ := locate_down hp
        have hfree : t.get (q ++ [name]) ≠ none := by
          intro hfree
          rw [hlocate] at hstat
          simp [bind, Except.bind, hnone hfree, hfree] at hstat
        rw [List.dropLast_concat, hq]
        simp only [bind, Except.bind]
        rw [dif_pos hdir, dif_neg hfree]
    · rw [hstat]
  rw [makeDirs.eq_def, hmake]
  simp [h]

end Places

/-! ## What an operation changes -/

section Changes

variable {t t' t'' : FileTree Name Data} {hops : ℕ}

/-- Two trees hold the same links. -/
def SameLinks (t t' : FileTree Name Data) : Prop :=
  ∀ p target, t.get p = some (.link target) ↔ t'.get p = some (.link target)

theorem SameLinks.trans (h : SameLinks t t') (h' : SameLinks t' t'') : SameLinks t t'' :=
  fun p target ↦ (h p target).trans (h' p target)

theorem SameLinks.symm (h : SameLinks t t') : SameLinks t' t := fun p target ↦ (h p target).symm

theorem SameLinks.linkless (h : SameLinks t t') {p : List Name} (hp : t.Linkless p) : t'.Linkless p :=
  fun q hq target hget ↦ hp q hq target ((h q target).mpr hget)

theorem SameLinks.advance (h : SameLinks t t') (here : List Name) (path : List (Step Name)) :
    t.advance here path = t'.advance here path := by
  fun_induction t.advance here path with
  | case1 here => rfl
  | case2 here rest ih => exact ih
  | case3 here name rest target hlink =>
    rw [FileTree.advance, (h _ target).mp hlink]
  | case4 here name rest hlink ih =>
    rw [FileTree.advance, ih]
    split
    · next target hget => exact absurd ((h _ target).mpr hget) (hlink target)
    · rfl

/-- Where a path leads by name alone depends on the links alone. -/
theorem SameLinks.resolve (h : SameLinks t t') (here : List Name) (path : List (Step Name)) :
    t.resolve hops here path = t'.resolve hops here path := by
  induction hops generalizing here path with
  | zero => rw [FileTree.resolve, FileTree.resolve, h.advance]
  | succ hops ih =>
    rw [FileTree.resolve.eq_def, FileTree.resolve.eq_def t', h.advance]
    split
    · rfl
    · exact ih _ _

/-- A tree with a file at a place where no folder and no link was. -/
structure Written (t t' : FileTree Name Data) (p : List Name) (data : Data) : Prop where
  get_self : t'.get p = some (.file data)
  get_other : ∀ q, q ≠ p → t'.get q = t.get q
  replaced : ∀ node, t.get p = some node → ∃ old, node = .file old

theorem written_of_write {path : List (Step Name)} {data : Data}
    (h : t.write hops path data = .ok t') : ∃ p, t.locate hops [] path = .ok p ∧ Written t t' p data := by
  cases hlocate : t.locate hops [] path with
  | error e =>
    rw [write, hlocate] at h
    cases h
  | ok p =>
    rw [write, hlocate] at h
    have hlink := linkless_of_locate t.linkless_nil hlocate p List.prefix_rfl
    simp only [bind, Except.bind] at h
    split_ifs at h with hfree hparent
    cases h
    refine ⟨p, rfl, by rw [get_put, if_pos rfl], fun q hq ↦ by rw [get_put, if_neg hq], ?_⟩
    intro node hnode
    cases node with
    | dir => exact absurd hnode hfree
    | file old => exact ⟨old, rfl⟩
    | link target => exact absurd hnode (hlink target)

theorem Written.sameLinks {p : List Name} {data : Data} (h : Written t t' p data) : SameLinks t t' := by
  intro q target
  by_cases hq : q = p
  · subst hq
    constructor
    · intro hget
      obtain ⟨old, hold⟩ := h.replaced _ hget
      cases hold
    · intro hget
      rw [h.get_self] at hget
      cases hget
  · rw [h.get_other q hq]

/-- A tree with new folders, at places of which `P` holds. -/
def AddsFolders (P : List Name → Prop) (t t' : FileTree Name Data) : Prop :=
  ∀ q, t'.get q = t.get q ∨ t.get q = none ∧ t'.get q = some .dir ∧ P q

theorem addsFolders_refl (P : List Name → Prop) (t : FileTree Name Data) : AddsFolders P t t :=
  fun _ ↦ Or.inl rfl

theorem AddsFolders.trans {P : List Name → Prop} (h : AddsFolders P t t') (h' : AddsFolders P t' t'') :
    AddsFolders P t t'' := by
  intro q
  rcases h q, h' q with ⟨h | ⟨hnone, hdir, hP⟩, h' | ⟨hnone', hdir', hP'⟩⟩
  · exact Or.inl (h'.trans h)
  · exact Or.inr ⟨h ▸ hnone', hdir', hP'⟩
  · exact Or.inr ⟨hnone, h'.trans hdir, hP⟩
  · rw [hdir] at hnone'
    cases hnone'

theorem AddsFolders.sameLinks {P : List Name → Prop} (h : AddsFolders P t t') : SameLinks t t' := by
  intro q target
  rcases h q with h | ⟨hnone, hdir, -⟩
  · rw [h]
  · simp [hnone, hdir]

theorem AddsFolders.mono {P Q : List Name → Prop} (h : AddsFolders P t t') (hPQ : ∀ q, P q → Q q) :
    AddsFolders Q t t' :=
  fun q ↦ (h q).imp_right fun ⟨hnone, hdir, hP⟩ ↦ ⟨hnone, hdir, hPQ q hP⟩

theorem AddsFolders.get_eq {P : List Name → Prop} (h : AddsFolders P t t') {p : List Name}
    {node : Node Name Data} (hp : t.get p = some node) : t'.get p = some node := by
  rcases h p with h | ⟨hnone, -, -⟩
  · rwa [h]
  · rw [hp] at hnone
    cases hnone

theorem addsFolders_put {p : List Name} (hparent : t.get p.dropLast = some .dir)
    (hfree : t.get p = none) :
    AddsFolders (· = p) t (t.put p .dir hparent (by simp [hfree])) := by
  intro q
  rw [get_put]
  by_cases hq : q = p
  · exact Or.inr ⟨hq ▸ hfree, if_pos hq, hq⟩
  · exact Or.inl (if_neg hq)

/-- What a path says of the place it leads to, when it names one without links. -/
def OnTheWay (t : FileTree Name Data) (path : List (Step Name)) (q : List Name) : Prop :=
  ∀ p, path = steps p → t.Linkless p → q <+: p

theorem OnTheWay.of_dropLast {path : List (Step Name)} {q : List Name}
    (h : OnTheWay t path.dropLast q) (hsame : SameLinks t t') : OnTheWay t' path q := by
  rintro p rfl hp
  have hlinkless := (hsame.symm.linkless hp).of_isPrefix (List.dropLast_prefix p)
  exact (h p.dropLast (List.map_dropLast ..).symm hlinkless).trans (List.dropLast_prefix p)

theorem addsFolders_of_makeDir {path : List (Step Name)} (h : t.makeDir hops path = .ok t') :
    AddsFolders (OnTheWay t path) t t' := by
  rw [makeDir] at h
  split at h
  · next name hlast =>
    cases hlocate : t.locate hops [] path.dropLast with
    | error e =>
      rw [hlocate] at h
      cases h
    | ok parent =>
      rw [hlocate] at h
      simp only [bind, Except.bind] at h
      split_ifs at h with hparent hfree
      cases h
      refine (addsFolders_put _ hfree).mono ?_
      rintro q rfl p rfl hp
      -- A path without links leads to the place it names.
      have hp' := locate_steps [] (p := p.dropLast) (q := parent)
        (hp.of_isPrefix (List.dropLast_prefix p)) (by rwa [steps, List.map_dropLast])
      rw [steps, List.getLast?_map, Option.map_eq_some_iff] at hlast
      obtain ⟨last, hlast, hname⟩ := hlast
      cases hname
      simp only [hp', List.nil_append, List.dropLast_append_getLast? name hlast, List.prefix_rfl]
  · split at h <;> cases h

theorem addsFolders_of_makeDirs (depth : ℕ) (path : List (Step Name)) :
    AddsFolders (OnTheWay t path) t (t.makeDirs hops depth path).1 := by
  induction depth generalizing path with
  | zero =>
    rw [makeDirs.eq_def]
    split
    · next made hmade => exact addsFolders_of_makeDir hmade
    · next h => cases h
    · exact addsFolders_refl _ t
  | succ depth ih =>
    rw [makeDirs.eq_def]
    split
    · next made hmade => exact addsFolders_of_makeDir hmade
    · next fewer hmissing heq =>
      cases heq
      have habove := ih path.dropLast
      have hlift {above : FileTree Name Data}
          (h : AddsFolders (OnTheWay t path.dropLast) t above) : AddsFolders (OnTheWay t path) t above :=
        h.mono fun q hq ↦ hq.of_dropLast fun _ _ ↦ Iff.rfl
      split
      · next above e hrec =>
        rw [hrec] at habove
        exact hlift habove
      · next above hrec =>
        rw [hrec] at habove
        split
        · next made hmade =>
          refine (hlift habove).trans ((addsFolders_of_makeDir hmade).mono fun q hq p hp hlinkless ↦ ?_)
          exact hq p hp (habove.sameLinks.linkless hlinkless)
        · exact hlift habove
    · exact addsFolders_refl _ t

/-- A tree with the links of another and all its folders. -/
structure Grows (t t' : FileTree Name Data) : Prop where
  links : SameLinks t t'
  dirs : ∀ p, t.get p = some .dir → t'.get p = some .dir

theorem Grows.refl (t : FileTree Name Data) : Grows t t := ⟨fun _ _ ↦ Iff.rfl, fun _ h ↦ h⟩

theorem Grows.trans (h : Grows t t') (h' : Grows t' t'') : Grows t t'' :=
  ⟨h.links.trans h'.links, fun p hp ↦ h'.dirs p (h.dirs p hp)⟩

theorem AddsFolders.grows {P : List Name → Prop} (h : AddsFolders P t t') : Grows t t' :=
  ⟨h.sameLinks, fun _ hp ↦ h.get_eq hp⟩

theorem Written.grows {p : List Name} {data : Data} (h : Written t t' p data) : Grows t t' := by
  refine ⟨h.sameLinks, fun q hq ↦ ?_⟩
  by_cases hqp : q = p
  · subst hqp
    obtain ⟨old, hold⟩ := h.replaced _ hq
    cases hold
  · rwa [h.get_other q hqp]

theorem Grows.walk (h : Grows t t') {here : List Name} {path : List (Step Name)} {found}
    (hfound : t.walk here path = .ok found) : t'.walk here path = .ok found := by
  fun_induction t.walk here path with
  | case1 here => exact hfound
  | case2 here step rest hnone => cases hfound
  | case3 here rest hdir ih =>
    rw [FileTree.walk, h.dirs here hdir]
    exact ih hfound
  | case4 here rest hdir name target hlink =>
    rw [FileTree.walk, h.dirs here hdir]
    simp only [(h.links _ target).mp hlink]
    exact hfound
  | case5 here rest hdir name hlink ih =>
    rw [walk_down (h.dirs here hdir) fun target hget ↦ hlink target ((h.links _ target).mpr hget)]
    exact ih hfound
  | case6 here step rest node hnode hget => cases hfound

theorem Grows.locate (h : Grows t t') {here p : List Name} {path : List (Step Name)}
    (hp : t.locate hops here path = .ok p) : t'.locate hops here path = .ok p := by
  fun_induction t.locate hops here path with
  | case1 hops here path e he => cases hp
  | case2 hops here path q hq => rw [FileTree.locate.eq_def, h.walk hq, ← hp]
  | case3 here path start left hwalk => cases hp
  | case4 here path start left hwalk hops ih =>
    rw [FileTree.locate.eq_def, h.walk hwalk]
    exact ih hp

/-- What is a folder stays one. -/
theorem Grows.isDir (h : Grows t t') {path : List (Step Name)} (hdir : t.isDir hops path = true) :
    t'.isDir hops path = true := by
  rw [FileTree.isDir, stat] at hdir ⊢
  cases hlocate : t.locate hops [] path with
  | error e => simp [hlocate, bind, Except.bind] at hdir
  | ok p =>
    rw [h.locate hlocate]
    rw [hlocate] at hdir
    simp only [bind, Except.bind] at hdir ⊢
    cases hget : t.get p with
    | none => simp [hget] at hdir
    | some node =>
      cases node with
      | dir => simp [h.dirs p hget]
      | file data => simp [hget] at hdir
      | link target => simp [hget] at hdir

/-! ## The names in a folder -/

theorem mem_names {folder : List Name} {name : Name} :
    name ∈ t.names folder ↔ t.get (folder ++ [name]) ≠ none := by
  rw [get_of_ne_nil t (by simp), ne_eq, AList.lookup_eq_none, not_not, AList.mem_keys, names,
    List.mem_filterMap]
  constructor
  · rintro ⟨p, hp, hname⟩
    split_ifs at hname with hfolder
    rwa [← hfolder, List.dropLast_append_getLast? name hname]
  · intro hp
    exact ⟨_, hp, by simp⟩

theorem nodup_names (t : FileTree Name Data) (folder : List Name) : (t.names folder).Nodup := by
  refine List.Nodup.filterMap ?_ t.nodes.keys_nodup
  intro p q name hp hq
  rw [Option.mem_def] at hp hq
  split_ifs at hp hq with hp' hq'
  rw [← List.dropLast_append_getLast? name hp, ← List.dropLast_append_getLast? name hq, hp', hq']

end Changes

end FileTree

end FourCE.Library
