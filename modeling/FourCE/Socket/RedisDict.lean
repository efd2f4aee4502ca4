import FourCE.Library.Fields
import FourCE.Library.Interleave
import FourCE.Python.Str
import Mathlib.Data.Finset.Sort

/-!
# The dictionary kept in Redis

`RedisDict` of `socket/utils.py`: a hash of serialized values and, for the model list, a digest of
what the last `set` wrote, in a key of its own, so that writing the same mapping again can be left
out.  Every operation is the sequence of Redis commands it issues; any number of operations, of one
instance or several, run side by side.  SHA-256 and the JSON codec are parameters.
-/

namespace FourCE.Socket

open FourCE.Library FourCE.Python

/-! ## The server -/

/-- The hash `name` and the string `name:signature`; a hash without fields is no key at all. -/
structure Hash where
  fields : Fields PyStr PyStr
  signature : Option PyStr

inductive Command
  | hset (mapping : Fields PyStr PyStr)
  | hget (key : PyStr)
  | hdel (keys : Finset PyStr)
  | hexists (key : PyStr)
  | hkeys
  | deleteHash
  | getSignature
  | setSignature (signature : PyStr)
  | deleteSignature

def Reply : Command → Type
  | .hset _ => Unit
  | .hget _ => Option PyStr
  | .hdel _ => ℕ
  | .hexists _ => Bool
  | .hkeys => Finset PyStr
  | .deleteHash => Unit
  | .getSignature => Option PyStr
  | .setSignature _ => Unit
  | .deleteSignature => Unit

def exec : (c : Command) → Hash → Option (Reply c × Hash)
  | .hset mapping, h => some ((), { h with fields := mapping ∪ h.fields })
  | .hget key, h => some (h.fields.lookup key, h)
  | .hdel keys, h => some ((h.fields.keys ∩ keys).card, { h with fields := h.fields.without keys })
  | .hexists key, h => some ((h.fields.lookup key).isSome, h)
  | .hkeys, h => some (h.fields.keys, h)
  | .deleteHash, h => some ((), { h with fields := ∅ })
  | .getSignature, h => some (h.signature, h)
  | .setSignature signature, h => some ((), { h with signature := some signature })
  | .deleteSignature, h => some ((), { h with signature := none })

/-! ## The operations -/

inductive Raised
  | keyError
  | unicodeEncodeError

/-- What an operation returns: for a lookup the stored text, before it is read as JSON. -/
abbrev Program := Proc Command Reply (Except Raised (Option PyStr))

def send (c : Command) : Proc Command Reply (Reply c) := Proc.send c

/-- The client encodes what it sends, and refuses lone surrogates. -/
def sendable (texts : List PyStr) : Bool := texts.all fun s ↦ (encodeUtf8 s).isSome

section

variable {V : Type} (dumps : V → PyStr) (sha256 : Bytes → PyStr)

/-- What the digest is taken of: keys and values in the order of the keys, a zero byte after each. -/
def joined : List (PyStr × PyStr) → Option Bytes
  | [] => some []
  | (key, value) :: rest => do
    return (← encodeUtf8 key) ++ [0] ++ ((← encodeUtf8 value) ++ [0]) ++ (← joined rest)

def sorted (fields : Fields PyStr PyStr) : List (PyStr × PyStr) :=
  (fields.keys.sort (· ≤ ·)).map fun key ↦ (key, (fields.lookup key).getD [])

/-- The signature of a mapping; `none` where encoding it raises. -/
def digest (fields : Fields PyStr PyStr) : Option PyStr := (joined (sorted fields)).map sha256

def serialized (mapping : Fields PyStr V) : Fields PyStr PyStr := mapping.mapValues dumps

variable (signed : Bool)

def setitem (key : PyStr) (value : V) : Program :=
  if sendable [key, dumps value] then do
    send (.hset (Finmap.singleton key (dumps value)))
    if signed then send .deleteSignature
    return .ok none
  else .ret (.error .unicodeEncodeError)

def getitem (key : PyStr) : Program :=
  if sendable [key] then do
    match ← send (.hget key) with
    | none => return .error .keyError
    | some value => return .ok (some value)
  else .ret (.error .unicodeEncodeError)

def delitem (key : PyStr) : Program :=
  if sendable [key] then do
    let result : ℕ ← send (.hdel {key})
    if result = 0 then return .error .keyError
    if signed then send .deleteSignature
    return .ok none
  else .ret (.error .unicodeEncodeError)

/-- The attribute it resets beside the fields, `_last_signature`, is read nowhere. -/
def deleteMany (keys : List PyStr) : Program :=
  if keys = [] then .ret (.ok none)
  else if sendable keys then do
    let _ ← send (.hdel keys.toFinset)
    return .ok none
  else .ret (.error .unicodeEncodeError)

def clear : Program := do
  send .deleteHash
  if signed then send .deleteSignature
  return .ok none

def set (mapping : Fields PyStr V) : Program :=
  if mapping.keys = ∅ then clear signed
  else match digest sha256 (serialized dumps mapping) with
    | none => .ret (.error .unicodeEncodeError)
    | some signature => do
      if signed then
        let stored : Option PyStr ← send .getSignature
        if stored = some signature then return .ok none
      let existing : Finset PyStr ← send .hkeys
      let stale : Finset PyStr := existing \ mapping.keys
      send (.hset (serialized dumps mapping))
      if stale ≠ ∅ then
        let _ ← send (.hdel stale)
      if signed then send (.setSignature signature)
      return .ok none

/-- `update(other, **kwargs)`: the items of `other`, then those of `kwargs`. -/
def update : List (PyStr × V) → Program
  | [] => .ret (.ok none)
  | (key, value) :: items => do
    match ← setitem dumps signed key value with
    | .error e => return .error e
    | .ok _ => update items

def setdefault (key : PyStr) (default : V) : Program :=
  if sendable [key] then do
    let found : Bool ← send (.hexists key)
    if found then getitem key
    else
      match ← setitem dumps signed key default with
      | .error e => return .error e
      | .ok _ => getitem key
  else .ret (.error .unicodeEncodeError)

inductive Op (V : Type)
  | set (mapping : Fields PyStr V)
  | setitem (key : PyStr) (value : V)
  | getitem (key : PyStr)
  | delitem (key : PyStr)
  | update (items : List (PyStr × V))
  | setdefault (key : PyStr) (default : V)
  | deleteMany (keys : List PyStr)
  | clear

def program : Op V → Program
  | .set mapping => set dumps sha256 signed mapping
  | .setitem key value => setitem dumps signed key value
  | .getitem key => getitem key
  | .delitem key => delitem signed key
  | .update items => update dumps signed items
  | .setdefault key default => setdefault dumps signed key default
  | .deleteMany keys => deleteMany keys
  | .clear => clear signed

/-! ## The operations of a dictionary that keeps a signature, command by command -/

theorem setitem_signed (key : PyStr) (value : V) : setitem dumps true key value =
    if sendable [key, dumps value] then
      .cmd (.hset (Finmap.singleton key (dumps value))) fun _ ↦
        .cmd .deleteSignature fun _ ↦ .ret (.ok none)
    else .ret (.error .unicodeEncodeError) := rfl

theorem delitem_signed (key : PyStr) : delitem true key =
    if sendable [key] then
      .cmd (.hdel {key}) fun (result : ℕ) ↦ if result = 0 then .ret (.error .keyError)
        else .cmd .deleteSignature fun _ ↦ .ret (.ok none)
    else .ret (.error .unicodeEncodeError) := rfl

theorem clear_signed : clear true =
    .cmd .deleteHash fun _ ↦ .cmd .deleteSignature fun _ ↦ .ret (.ok none) := rfl

theorem deleteMany_eq (keys : List PyStr) : deleteMany keys =
    if keys = [] then .ret (.ok none)
    else if sendable keys then .cmd (.hdel keys.toFinset) fun _ ↦ .ret (.ok none)
    else .ret (.error .unicodeEncodeError) := rfl

theorem getitem_eq (key : PyStr) : getitem key =
    if sendable [key] then
      .cmd (.hget key) fun (found : Option PyStr) ↦ match found with
        | none => .ret (.error .keyError)
        | some value => .ret (.ok (some value))
    else .ret (.error .unicodeEncodeError) := by
  unfold getitem
  split_ifs
  · apply congrArg
    funext found
    cases found with
    | none => rfl
    | some value => rfl
  · rfl

/-- Going on unless the first operation raised. -/
def andThen (next : Program) : Except Raised (Option PyStr) → Program
  | .error e => .ret (.error e)
  | .ok _ => next

theorem update_cons (key : PyStr) (value : V) (items : List (PyStr × V)) :
    update dumps true ((key, value) :: items) =
      (setitem dumps true key value >>= andThen (update dumps true items)) := by
  rw [update]
  congr 1

theorem setdefault_signed (key : PyStr) (default : V) : setdefault dumps true key default =
    if sendable [key] then
      .cmd (.hexists key) fun (found : Bool) ↦
        if found then getitem key
        else setitem dumps true key default >>= andThen (getitem key)
    else .ret (.error .unicodeEncodeError) := by
  unfold setdefault
  split_ifs
  · apply congrArg
    funext found
    cases found with
    | true => rfl
    | false =>
      show (setitem dumps true key default >>= _) = _
      congr 1
  · rfl

/-- What `set` does once the signature it found is not its own. -/
def rewrite (mapping : Fields PyStr V) (signature : PyStr) : Program :=
  .cmd .hkeys fun (existing : Finset PyStr) ↦
    .cmd (.hset (serialized dumps mapping)) fun _ ↦
      if existing \ mapping.keys ≠ ∅ then
        .cmd (.hdel (existing \ mapping.keys)) fun _ ↦
          .cmd (.setSignature signature) fun _ ↦ .ret (.ok none)
      else .cmd (.setSignature signature) fun _ ↦ .ret (.ok none)

theorem set_signed (mapping : Fields PyStr V) : set dumps sha256 true mapping =
    if mapping.keys = ∅ then clear true
    else match digest sha256 (serialized dumps mapping) with
      | none => .ret (.error .unicodeEncodeError)
      | some signature => .cmd .getSignature fun (stored : Option PyStr) ↦
        if stored = some signature then .ret (.ok none)
        else rewrite dumps mapping signature := by
  unfold set
  by_cases hkeys : mapping.keys = ∅
  · rw [if_pos hkeys, if_pos hkeys]
  · rw [if_neg hkeys, if_neg hkeys]
    cases digest sha256 (serialized dumps mapping) with
    | none => rfl
    | some signature => rfl

end

end FourCE.Socket
