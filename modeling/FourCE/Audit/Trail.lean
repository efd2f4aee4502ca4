import FourCE.Python.Json

/-!
# The audit trail

`AuditTrail` of `fource_audit.py`: an append-only file of JSON lines, each entry carrying the hash
of the one before it.  The file is a byte string, or absent; an object caches the sequence number
and hash of the last line and forgets them whenever a write fails.  SHA-256, `json.loads`, and
`int` and `str` on values the trail never writes are parameters of the model.
-/

namespace FourCE.Audit

open FourCE.Python

/-! ## What the interpreter supplies -/

/-- An exception; `json.JSONDecodeError` and `UnicodeDecodeError` are both a `ValueError`. -/
inductive PyError
  | valueError (message : PyStr)
  | unicodeEncodeError
  | attributeError
  | keyError (key : PyStr)
  | typeError (message : PyStr)
  | osError (message : PyStr)
  | other (kind message : PyStr)
  deriving DecidableEq, Repr

/-- `f"{type(exc).__name__}: {exc}"`. -/
def PyError.text : PyError → PyStr
  | .valueError m => py "ValueError: " ++ m
  | .unicodeEncodeError => py "UnicodeEncodeError: surrogates not allowed"
  | .attributeError => py "AttributeError: object has no attribute 'get'"
  | .keyError k => py "KeyError: '" ++ k ++ py "'"
  | .typeError m => py "TypeError: " ++ m
  | .osError m => py "OSError: " ++ m
  | .other kind m => kind ++ py ": " ++ m

structure Interp (F : Type) where
  sha256 : Bytes → List (Fin 16)
  loads : Bytes → Except PyError (Value F)
  intOther : Json F → Except PyError ℤ
  strOther : Json F → PyStr

/-- `json.loads` reads what `json.dumps` wrote, with or without the newline after it. -/
def LoadsInvertsDumps {F : Type} [PyFloat F] (loads : Bytes → Except PyError (Value F)) : Prop :=
  ∀ (v : Value F) (b : Bytes), encodeUtf8 (dumps v.json) = some b →
    ∀ newline, newline = [] ∨ newline = [10] →
      ∃ u, loads (b ++ newline) = .ok u ∧ u.json = v.json.sortKeys

abbrev Entry (F : Type) := List (PyStr × Json F)

section

variable {F : Type} [PyFloat F] (I : Interp F)

/-- `int(value)`. -/
def toInt : Json F → Except PyError ℤ
  | .int i => .ok i
  | .bool b => .ok (if b then 1 else 0)
  | j => I.intOther j

/-- `str(value)`. -/
def toStr : Json F → PyStr
  | .str s => s
  | j => I.strOther j

/-- `value[key]`. -/
def getItem (v : Json F) (key : PyStr) : Except PyError (Json F) :=
  match v with
  | .obj d => match dictGet d key with
    | some x => .ok x
    | none => .error (.keyError key)
  | _ => .error (.typeError (py "indices must be integers"))

/-- `value == n`: `True` is 1, and a float may be whole. -/
def eqInt (v : Json F) (n : ℤ) : Bool :=
  match v with
  | .int i => i = n
  | .bool b => (if b then 1 else 0) = n
  | .float x => PyFloat.eqInt x n
  | _ => false

/-- `isinstance(value, int) and value > n`. -/
def intAbove (v : Json F) (n : ℤ) : Bool :=
  match v with
  | .int i => n < i
  | .bool b => n < (if b then 1 else 0)
  | _ => false

def isStr (v : Option (Json F)) (s : PyStr) : Bool :=
  match v with
  | some (.str t) => t = s
  | _ => false

/-! ## Hashes -/

def GENESIS : PyStr := List.replicate 64 48

def keySeq : PyStr := py "seq"

def keyAt : PyStr := py "at"

def keyAction : PyStr := py "action"

def keyPrev : PyStr := py "prev"

def keyHash : PyStr := py "hash"

/-- `_canonical(entry)`. -/
def canonical (entry : Entry F) : Except PyError Bytes :=
  match encodeUtf8 (dumps (.obj entry)) with
  | some b => .ok b
  | none => .error .unicodeEncodeError

def hexdigest (b : Bytes) : PyStr := (I.sha256 b).map hexChar

/-- `_seal(entry)`: the hash covers everything but itself. -/
def sealOf (entry : Entry F) : Except PyError PyStr :=
  (canonical (dictErase entry keyHash)).map (hexdigest I)

/-! ## The file -/

/-- The trail's file, or nothing at its path. -/
abbrev File := Option Bytes

/-- `data.split(b"\n")`. -/
def splitNewline : Bytes → List Bytes
  | [] => [[]]
  | b :: rest =>
    if b = 10 then [] :: splitNewline rest
    else match splitNewline rest with
      | [] => [[b]]
      | piece :: pieces => (b :: piece) :: pieces

/-- The lines a binary file iterates over, each with its newline. -/
def fileLines : Bytes → List Bytes
  | [] => []
  | b :: rest =>
    if b = 10 then [b] :: fileLines rest
    else match fileLines rest with
      | [] => [[b]]
      | line :: lines => (b :: line) :: lines

/-- `not line.strip()`. -/
def blank (line : Bytes) : Bool := line.all fun b ↦ b = 32 || (9 ≤ b.toNat && b.toNat ≤ 13)

/-- `[line for line in data.split(b"\n") if line.strip()]`. -/
def pieces (data : Bytes) : List Bytes := (splitNewline data).filter fun line ↦ !blank line

/-- `handle.read(end - start)` at `start`, a block of 4096 bytes before `stop`. -/
def block (content : Bytes) (stop : ℕ) : Bytes := (content.take stop).drop (stop - 4096)

/-- The loop of `_last_line`: `data` is the file from `stop` on. -/
def lastLineLoop (content : Bytes) : ℕ → ℕ → Bytes → Bytes
  | 0, _, _ => []
  | fuel + 1, stop, data =>
    if stop = 0 then []
    else if 1 < (pieces (block content stop ++ data)).length ∨ stop - 4096 = 0 then
      (pieces (block content stop ++ data)).getLast?.getD []
    else lastLineLoop content fuel (stop - 4096) (block content stop ++ data)

/-- `_last_line`: the file read backwards in blocks until its last line is whole. -/
def lastLine (file : File) : Bytes :=
  match file with
  | none => []
  | some content => lastLineLoop content (content.length + 1) content.length []

/-! ## The object -/

structure AuditTrail where
  seq : Option ℤ
  head : PyStr
  lastError : PyStr
  failedWrites : ℕ

/-- `AuditTrail(path)`. -/
def AuditTrail.init : AuditTrail := ⟨none, GENESIS, [], 0⟩

/-- What `_load_head` computes, before it stores it. -/
def readHead (file : File) : Except PyError (ℤ × PyStr) :=
  match lastLine file with
  | [] => .ok (0, GENESIS)
  | last => do
    let entry ← I.loads last
    let seq ← (getItem entry.json keySeq).bind (toInt I)
    let hash ← getItem entry.json keyHash
    return (seq, toStr I hash)

/-- The object with its head read from the file when it holds none. -/
def AuditTrail.loaded (t : AuditTrail) (file : File) : Except PyError (AuditTrail × ℤ) :=
  match t.seq with
  | some seq => .ok (t, seq)
  | none => (readHead I file).map fun p ↦ ({ t with seq := some p.1, head := p.2 }, p.1)

/-- The `except` branch of `append`. -/
def AuditTrail.failed (t : AuditTrail) (e : PyError) : AuditTrail :=
  { t with seq := none, lastError := e.text, failedWrites := t.failedWrites + 1 }

/-- Keyword arguments whose names leave `seq` alone; no name occurs twice. -/
structure Fields (F : Type) where
  pairs : List (PyStr × Json F)
  unique : (pairs.map Prod.fst).Nodup
  values : ∀ p ∈ pairs, p.2.wf = true
  noSeq : keySeq ∉ pairs.map Prod.fst

/-- `v not in (None, "")`. -/
def inContext : Json F → Bool
  | .null | .str [] => false
  | _ => true

/-- `v not in (None, "", [], {})`. -/
def inFields : Json F → Bool
  | .null | .str [] | .arr [] | .obj [] => false
  | _ => true

/-- The entry `append` builds, before its hash. -/
def draftEntry (seq : ℤ) (head : PyStr) (now : F) (context : Fields F) (action : PyStr)
    (fields : Fields F) : Entry F :=
  let base := [(keySeq, .int (seq + 1)), (keyAt, .float now), (keyAction, .str action)]
  let withContext := dictUpdate base (context.pairs.filter fun p ↦ inContext p.2)
  let withFields := dictUpdate withContext (fields.pairs.filter fun p ↦ inFields p.2)
  dictSet withFields keyPrev (.str head)

/-- How writing a line ends: whole and synced; refused before the file is opened; cut after some
bytes reached the disk; or whole on disk with `fsync` failing. -/
inductive WriteOutcome
  | written
  | notOpened (e : PyError)
  | cut (persisted : ℕ) (e : PyError)
  | unsynced (e : PyError)
  deriving DecidableEq, Repr

structure Appended (F : Type) where
  entry : Option (Entry F)
  trail : AuditTrail
  file : File

/-- `append`, with the write ending as `outcome` says. -/
def AuditTrail.append (t : AuditTrail) (file : File) (outcome : WriteOutcome) (now : F)
    (context : Fields F) (action : PyStr) (fields : Fields F) : Appended F :=
  match t.loaded I file with
  | .error e => ⟨none, t.failed e, file⟩
  | .ok (t, seq) =>
    let draft := draftEntry seq t.head now context action fields
    match sealOf I draft with
    | .error e => ⟨none, t.failed e, file⟩
    | .ok hash =>
      let entry := dictSet draft keyHash (.str hash)
      match outcome with
      | .notOpened e => ⟨none, t.failed e, file⟩
      | .written | .cut _ _ | .unsynced _ =>
        let content := file.getD []
        match canonical entry with
        | .error e => ⟨none, t.failed e, some content⟩
        | .ok bytes =>
          let line := bytes ++ [10]
          match outcome with
          | .notOpened e => ⟨none, t.failed e, file⟩
          | .cut persisted e => ⟨none, t.failed e, some (content ++ line.take persisted)⟩
          | .unsynced e => ⟨none, t.failed e, some (content ++ line)⟩
          | .written =>
            ⟨some entry, { t with seq := some (seq + 1), head := hash }, some (content ++ line)⟩

structure Status where
  count : ℤ
  head : PyStr
  lastError : PyStr
  failedWrites : ℕ

/-- `status`, and the object after it. -/
def AuditTrail.status (t : AuditTrail) (file : File) : Status × AuditTrail :=
  let t := match t.loaded I file with
    | .ok (t, _) => t
    | .error e => { t with lastError := e.text }
  (⟨t.seq.getD 0, t.head, t.lastError, t.failedWrites⟩, t)

/-! ## Verification -/

/-- Why an entry was refused; the entry's own `seq` is quoted in the reason. -/
inductive Reason (F : Type)
  | none
  | notJson (line : ℕ)
  | missing (expected : ℕ)
  | outOfOrder (seq : Json F)
  | notFollowing (seq : Json F)
  | changed (seq : Json F)

structure VerifyResult (F : Type) where
  ok : Bool
  entries : Json F
  head : PyStr
  brokenAt : Option (Json F)
  reason : Reason F

/-- `entry.get("seq")`. -/
def seqOf (d : Entry F) : Json F := (dictGet d keySeq).getD .null

/-- The checks of `verify` on one entry: the report that ends the walk, or the hash to go on with. -/
def checkEntry (d : Entry F) (prev : PyStr) (expected : ℕ) (entries : Json F) :
    Except PyError (VerifyResult F ⊕ PyStr) :=
  if eqInt (seqOf d) expected = false then
    .ok (.inl ⟨false, entries, prev, some (.int expected),
      if intAbove (seqOf d) expected then .missing expected else .outOfOrder (seqOf d)⟩)
  else if isStr (dictGet d keyPrev) prev = false then
    .ok (.inl ⟨false, entries, prev, some (seqOf d), .notFollowing (seqOf d)⟩)
  else match sealOf I d with
    | .error e => .error e
    | .ok hash =>
      if isStr (dictGet d keyHash) hash = false then
        .ok (.inl ⟨false, entries, prev, some (seqOf d), .changed (seqOf d)⟩)
      else .ok (.inr hash)

/-- The loop of `verify` from line `number` on, `prev` being the hash before it. -/
def verifyLines : List Bytes → ℕ → PyStr → ℕ → Json F → Except PyError (VerifyResult F)
  | [], _, prev, _, entries => .ok ⟨true, entries, prev, none, .none⟩
  | line :: lines, number, prev, expected, entries =>
    if blank line then verifyLines lines (number + 1) prev expected entries
    else match I.loads line with
      | .error (.valueError _) =>
        .ok ⟨false, entries, prev, some (.int expected), .notJson number⟩
      | .error e => .error e
      | .ok v =>
        match v.json with
        | .obj d =>
          match checkEntry I d prev expected entries with
          | .error e => .error e
          | .ok (.inl report) => .ok report
          | .ok (.inr hash) => verifyLines lines (number + 1) hash (expected + 1) (seqOf d)
        | _ => .error .attributeError

/-- `verify`: every entry's hash must cover its content and name the entry before it. -/
def verify (file : File) : Except PyError (VerifyResult F) :=
  match file with
  | none => .ok ⟨true, .int 0, GENESIS, none, .none⟩
  | some content => verifyLines I (fileLines content) 1 GENESIS 1 (.int 0)

end

end FourCE.Audit
