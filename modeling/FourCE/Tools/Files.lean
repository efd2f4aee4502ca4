import FourCE.Library.FileTree
import FourCE.Python.Glob

/-!
# The workspace files

`write_file` of `tools/files.py`: which paths it takes, how it keeps the version it replaces, and
what it answers.  The disk is a file tree; the working directory and the home of the user are
already in the workspace's path, and its parts are separated by `/`.
-/

namespace FourCE.Tools

open FourCE.Python FourCE.Library

abbrev Place := List PyStr

abbrev Disk := FileTree PyStr Bytes

/-- What stops a call. -/
inductive Raised
  | os (fault : FileTree.Fault)
  | linkLoop
  | encoding
  | badPattern
  deriving DecidableEq, Repr

/-- Code that reads and changes the disk, and may raise on the way. -/
abbrev FileM := ExceptT Raised (StateM Disk)

/-- An entry for the audit trail; `replaced` and `kept` are those of an overwritten file. -/
structure WriteEntry where
  file : PyStr
  sha256 : PyStr
  bytes : ℕ
  replaced : Option PyStr
  kept : Option PyStr

/-- The valves, and what the tool calls on: the number of links the system follows, the hash, and
the trail, which may return the number of the entry. -/
structure FilesHost where
  workspace : List (FileTree.Step PyStr)
  maxWriteKb : ℤ
  hops : ℕ
  sha256 : Bytes → PyStr
  logged : WriteEntry → Option ℕ

/-- `WRITABLE`. -/
def WRITABLE : List PyStr :=
  [py ".txt", py ".md", py ".csv", py ".tsv", py ".json", py ".yaml", py ".yml", py ".xml",
    py ".html", py ".log", py ".ini", py ".toml", py ".py", py ".sql"]

/-- `VERSIONS`. -/
def VERSIONS : PyStr := py ".versions"

/-! ## Names -/

/-- A name cut at its last dot, when something stands on either side of it. -/
def cutName (name : PyStr) : PyStr × PyStr :=
  let tail := (name.reverse.takeWhile (· ≠ 46)).reverse
  match name.reverse.dropWhile (· ≠ 46) with
  | [] => (name, [])
  | _ :: before => if before = [] ∨ tail = [] then (name, []) else (before.reverse, 46 :: tail)

/-- `path.stem`. -/
def stem (name : PyStr) : PyStr := (cutName name).1

/-- `path.suffix`. -/
def suffix (name : PyStr) : PyStr := (cutName name).2

/-- `path.name`. -/
def nameOf (p : Place) : PyStr := p.getLast?.getD []

/-- The steps of a relative path. -/
def stepsOf (raw : PyStr) : List (FileTree.Step PyStr) :=
  (raw.splitOn 47).filterMap fun part ↦
    if part = [] ∨ part = py "." then none
    else if part = py ".." then some .up
    else some (.down part)

/-- `re.match(r"^[A-Za-z]:", raw)`. -/
def hasDrive : PyStr → Bool
  | c :: d :: _ => (65 ≤ c.val && c.val ≤ 90 || 97 ≤ c.val && c.val ≤ 122) && d = 58
  | _ => false

/-- `_kb(size)`, whose division is exact. -/
def kb (size : ℕ) : PyStr :=
  let whole := size / 1024
  let twice := 2 * (size % 1024)
  let rounded := if twice < 1024 ∨ twice = 1024 ∧ whole % 2 = 0 then whole else whole + 1
  natText (max 1 rounded) ++ py " KB"

/-- `f"{stem}.v{number}{suffix}"` of a file's name. -/
def versionName (name : PyStr) (number : ℕ) : PyStr :=
  stem name ++ py ".v" ++ natText number ++ suffix name

/-- `f"{stem}.v*{suffix}"`. -/
def versionPattern (name : PyStr) : PyStr := stem name ++ py ".v*" ++ suffix name

/-! ## The disk -/

/-- What the system answers, with no change to the disk. -/
def reading {α : Type} (op : Disk → Except FileTree.Fault α) : FileM α := fun t ↦
  match op t with
  | .ok a => (.ok a, t)
  | .error e => (.error (.os e), t)

/-- `path.resolve()`. -/
def resolved (host : FilesHost) (path : List (FileTree.Step PyStr)) : FileM Place := fun t ↦
  match t.resolve host.hops [] path with
  | some p => (.ok p, t)
  | none => (.error .linkLoop, t)

/-- `path.mkdir(parents=True, exist_ok=True)`. -/
def mkdirs (host : FilesHost) (path : List (FileTree.Step PyStr)) : FileM Unit := fun t ↦
  match t.makeDirs host.hops path.length path with
  | (made, none) => (.ok (), made)
  | (made, some e) => (.error (.os e), made)

/-- `path.write_bytes(data)`. -/
def writeBytes (host : FilesHost) (path : Place) (data : Bytes) : FileM Unit := fun t ↦
  match t.write host.hops (FileTree.steps path) data with
  | .ok written => (.ok (), written)
  | .error e => (.error (.os e), t)

/-- `len(list(path.glob(pattern)))`, with a pattern for names in a folder. -/
def globCount (host : FilesHost) (path : Place) (pattern : PyStr) : FileM ℕ := fun t ↦
  if contains (py "**") pattern then (.error .badPattern, t)
  else match t.locate host.hops [] (FileTree.steps path) with
    | .ok folder => (.ok ((t.names folder).countP fun name ↦ fnmatch name pattern), t)
    | .error _ => (.ok 0, t)

/-! ## The tool -/

/-- `_workspace()`. -/
def workspace (host : FilesHost) : FileM (List (FileTree.Step PyStr)) := do
  mkdirs host host.workspace
  return host.workspace

/-- `_inside(root, requested)`. -/
def inside (host : FilesHost) (root : List (FileTree.Step PyStr)) (requested : PyStr) :
    FileM (Option Place) := do
  let raw := strip (replace (py "\\") (py "/") (strip requested))
  if raw = [] ∨ 0 ∈ raw ∨ startsWith (py "/") raw ∨ hasDrive raw ∨ startsWith (py "~") raw then
    return none
  else
    let base ← resolved host root
    let target ← resolved host (FileTree.steps base ++ stepsOf raw)
    return if base.isPrefixOf target ∧ target ≠ base then some target else none

/-- The earlier contents of a file, kept under `.versions`; where they are. -/
def keep (host : FilesHost) (base relative target : Place) (previous : Bytes) : FileM Place := do
  let history := base ++ VERSIONS :: relative
  mkdirs host (FileTree.steps history)
  let number := (← globCount host history (versionPattern (nameOf target))) + 1
  let kept := history ++ [versionName (nameOf target) number]
  writeBytes host kept previous
  return kept

/-- The contents written, and what is recorded and said of it. -/
def store (host : FilesHost) (base relative target : Place) (payload : Bytes)
    (earlier : Option (Bytes × Place)) : FileM PyStr := do
  mkdirs host (FileTree.steps target.dropLast)
  writeBytes host target payload
  let posix (p : Place) : PyStr := join (py "/") p
  let kept := earlier.map fun e ↦ posix (e.2.drop base.length)
  let entry := host.logged ⟨posix relative, host.sha256 payload, payload.length,
    earlier.map fun e ↦ host.sha256 e.1, kept⟩
  return py "**Written** `" ++ posix relative ++ py "` in the workspace · " ++ kb payload.length ++
    (match kept with
      | some k => py " · the earlier version kept as `" ++ k ++ py "`"
      | none => []) ++
    (match entry with
      | some n => py " · audit trail entry " ++ natText n
      | none => [])

/-- The end of `write_file`, with the contents it has admitted: an earlier file is kept first. -/
def save (host : FilesHost) (base relative target : Place) (payload : Bytes) : FileM PyStr := do
  if (← get).present host.hops (FileTree.steps target) then
    let previous ← reading fun t ↦ t.read host.hops (FileTree.steps target)
    if previous = payload then
      return py "`" ++ join (py "/") relative ++ py "` already holds exactly this; nothing was written."
    else
      let kept ← keep host base relative target previous
      store host base relative target payload (some (previous, kept))
  else store host base relative target payload none

variable [Casing]

/-- Whether 4CE writes files of a name. -/
def writableName (name : PyStr) : Bool := Casing.lower (suffix name) ∈ WRITABLE

/-- `write_file(path, content)`. -/
def writeFile (host : FilesHost) (path content : PyStr) : FileM PyStr := do
  let root ← workspace host
  match ← inside host root path with
  | none => return py "`" ++ path ++ py "` is outside the workspace, so nothing was written."
  | some target =>
    -- Nothing below makes a link, so this is what `root.resolve()` gives to the end.
    let base ← resolved host root
    let relative := target.drop base.length
    if VERSIONS ∈ relative then
      return py "The earlier versions of files are kept, not rewritten; nothing was written."
    else if !writableName (nameOf target) then
      return py "`" ++ nameOf target ++ py "` is not a type 4CE writes into the workspace. It writes: " ++
        join (py ", ") (WRITABLE.insertionSort (· ≤ ·)) ++ py "."
    else match encodeUtf8 content with
      | none => throw .encoding
      | some payload =>
        if payload.all fun b ↦ 9 ≤ b.toNat && b.toNat ≤ 13 || b.toNat = 32 then
          return py "The content is empty; nothing was written."
        else if (payload.length : ℤ) > host.maxWriteKb * 1024 then
          return py "That is " ++ kb payload.length ++ py ", over the " ++ intText host.maxWriteKb ++
            py " KB limit; nothing was written."
        else save host base relative target payload

end FourCE.Tools
