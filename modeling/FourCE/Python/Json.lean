import FourCE.Python.Str
import Mathlib.Data.List.Sort
import Mathlib.Data.List.Lex

/-!
# JSON values, `json.dumps` and `json.loads`

A JSON value as Python holds it after parsing: dictionaries are association lists in insertion
order, integers are unbounded, and a float is known through its `repr`.  `emit` is
`json.dumps(…, ensure_ascii=False)` on a value whose dictionaries are already in output order;
`sort_keys=True` is `sortKeys` before it.  `parseValue` is the scanner of `json.loads`, with its
constants `NaN` and `Infinity` and its surrogate pairs, and without the interpreter's limits on
nesting depth and integer length.
-/

namespace FourCE.Python

/-! ## Numerals -/

/-- A nonempty run of decimal digits. -/
structure Digits where
  first : Fin 10
  others : List (Fin 10)
  deriving DecidableEq, Repr

def Digits.toList (d : Digits) : List (Fin 10) := d.first :: d.others

/-- A decimal numeral with a fraction or an exponent, as `float.__repr__` prints one. -/
structure Numeral where
  neg : Bool
  int : ℕ
  frac : Option Digits
  exp : Option (Option Bool × Digits)
  notInt : (frac.isSome || exp.isSome) = true
  deriving DecidableEq, Repr

inductive FloatLit
  | nan
  | inf (neg : Bool)
  | num (n : Numeral)
  deriving DecidableEq, Repr

/-- The interpreter's floats: their shortest `repr`, which reads back as the same float, and their
comparison with an integer, of which a float equals at most one. -/
class PyFloat (F : Type) where
  lit : F → FloatLit
  ofLit : FloatLit → F
  ofLit_lit : ∀ x, ofLit (lit x) = x
  eqInt : F → ℤ → Bool
  eqInt_unique : ∀ x m n, eqInt x m = true → eqInt x n = true → m = n

def digitChar (d : Fin 10) : CodePoint := ⟨48 + d.val, by omega⟩

def digitsText (ds : List (Fin 10)) : PyStr := ds.map digitChar

/-- Decimal digits of `n`, most significant first, in front of `acc`. -/
def digitsLoop : ℕ → ℕ → List (Fin 10) → List (Fin 10)
  | 0, _, acc => acc
  | fuel + 1, n, acc =>
    let next := ⟨n % 10, by omega⟩ :: acc
    if n / 10 = 0 then next else digitsLoop fuel (n / 10) next

def natDigits (n : ℕ) : List (Fin 10) := digitsLoop (n + 1) n []

def ofDigits (ds : List (Fin 10)) : ℕ := ds.foldl (fun n d ↦ 10 * n + d.val) 0

def natText (n : ℕ) : PyStr := digitsText (natDigits n)

def intText (i : ℤ) : PyStr := if i < 0 then py "-" ++ natText i.natAbs else natText i.natAbs

def signText (sign : Option Bool) : PyStr :=
  match sign with
  | none => []
  | some neg => if neg then py "-" else py "+"

def fracText (frac : Option Digits) : PyStr :=
  match frac with
  | none => []
  | some ds => py "." ++ digitsText ds.toList

def expText (exp : Option (Option Bool × Digits)) : PyStr :=
  match exp with
  | none => []
  | some (sign, ds) => py "e" ++ signText sign ++ digitsText ds.toList

def numeralText (n : Numeral) : PyStr :=
  (if n.neg then py "-" else []) ++ natText n.int ++ fracText n.frac ++ expText n.exp

def floatText : FloatLit → PyStr
  | .nan => py "NaN"
  | .inf neg => if neg then py "-Infinity" else py "Infinity"
  | .num n => numeralText n

/-! ## Values -/

inductive Json (F : Type)
  | null
  | bool (b : Bool)
  | int (i : ℤ)
  | float (x : F)
  | str (s : PyStr)
  | arr (xs : List (Json F))
  | obj (d : List (PyStr × Json F))

section Values

variable {F : Type}

/-- `d.get(k)`. -/
def dictGet (d : List (PyStr × Json F)) (k : PyStr) : Option (Json F) :=
  (d.find? (fun p ↦ p.1 = k)).map Prod.snd

/-- `d[k] = v`: an existing key keeps its place. -/
def dictSet : List (PyStr × Json F) → PyStr → Json F → List (PyStr × Json F)
  | [], k, v => [(k, v)]
  | p :: d, k, v => if p.1 = k then (k, v) :: d else p :: dictSet d k v

/-- `{**d, **e}`. -/
def dictUpdate (d e : List (PyStr × Json F)) : List (PyStr × Json F) :=
  e.foldl (fun d p ↦ dictSet d p.1 p.2) d

/-- `{k: v for k, v in d.items() if k != key}`. -/
def dictErase (d : List (PyStr × Json F)) (key : PyStr) : List (PyStr × Json F) :=
  d.filter (fun p ↦ p.1 ≠ key)

def keyLe (p q : PyStr × Json F) : Prop := p.1 ≤ q.1

instance : DecidableRel (keyLe (F := F)) := fun p q ↦ inferInstanceAs (Decidable (p.1 ≤ q.1))

mutual
/-- Every dictionary of the value in key order, as `sort_keys=True` emits it. -/
def Json.sortKeys : Json F → Json F
  | .arr xs => .arr (sortElems xs)
  | .obj d => .obj ((sortMembers d).insertionSort keyLe)
  | .null => .null
  | .bool b => .bool b
  | .int i => .int i
  | .float x => .float x
  | .str s => .str s
def sortElems : List (Json F) → List (Json F)
  | [] => []
  | x :: xs => x.sortKeys :: sortElems xs
def sortMembers : List (PyStr × Json F) → List (PyStr × Json F)
  | [] => []
  | (k, v) :: d => (k, v.sortKeys) :: sortMembers d
end

mutual
/-- No dictionary of the value holds a key twice. -/
def Json.wf : Json F → Bool
  | .arr xs => wfElems xs
  | .obj d => decide (d.map Prod.fst).Nodup && wfMembers d
  | .null | .bool _ | .int _ | .float _ | .str _ => true
def wfElems : List (Json F) → Bool
  | [] => true
  | x :: xs => x.wf && wfElems xs
def wfMembers : List (PyStr × Json F) → Bool
  | [] => true
  | (_, v) :: d => v.wf && wfMembers d
end

/-- A value Python can hold: its dictionaries have unique keys. -/
structure Value (F : Type) where
  json : Json F
  wf : json.wf = true

/-- Equal as Python compares dictionaries, whatever their insertion orders. -/
def Json.Same (v w : Json F) : Prop := v.sortKeys = w.sortKeys

end Values

/-! ## `json.dumps` -/

def hexChar (n : Fin 16) : CodePoint :=
  if n.val < 10 then ⟨48 + n.val, by omega⟩ else ⟨87 + n.val, by omega⟩

/-- One character inside a JSON string, escaped as `ensure_ascii=False` escapes it. -/
def escapeChar (c : CodePoint) : PyStr :=
  if c.val = 34 then py "\\\""
  else if c.val = 92 then py "\\\\"
  else if c.val = 10 then py "\\n"
  else if c.val = 13 then py "\\r"
  else if c.val = 9 then py "\\t"
  else if c.val = 12 then py "\\f"
  else if c.val = 8 then py "\\b"
  else if c.val < 32 then
    py "\\u00" ++ [hexChar ⟨c.val / 16 % 16, by omega⟩, hexChar ⟨c.val % 16, by omega⟩]
  else [c]

def quote (s : PyStr) : PyStr := py "\"" ++ s.flatMap escapeChar ++ py "\""

section Dumps

variable {F : Type} [PyFloat F]

/-- The separators of `json.dumps`: `(", ", ": ")`, or `(",", ":")` when compact. -/
def itemSep (spaced : Bool) : PyStr := if spaced then py ", " else py ","

def keySep (spaced : Bool) : PyStr := if spaced then py ": " else py ":"

mutual
def Json.emit (spaced : Bool) : Json F → PyStr
  | .null => py "null"
  | .bool b => if b then py "true" else py "false"
  | .int i => intText i
  | .float x => floatText (PyFloat.lit x)
  | .str s => quote s
  | .arr xs => py "[" ++ emitElems spaced xs
  | .obj d => py "\x7b" ++ emitMembers spaced d
def emitElems (spaced : Bool) : List (Json F) → PyStr
  | [] => py "]"
  | [x] => x.emit spaced ++ py "]"
  | x :: y :: xs => x.emit spaced ++ itemSep spaced ++ emitElems spaced (y :: xs)
def emitMembers (spaced : Bool) : List (PyStr × Json F) → PyStr
  | [] => py "\x7d"
  | [(k, v)] => quote k ++ keySep spaced ++ v.emit spaced ++ py "\x7d"
  | (k, v) :: p :: d =>
    quote k ++ keySep spaced ++ v.emit spaced ++ itemSep spaced ++ emitMembers spaced (p :: d)
end

/-- `json.dumps(v, sort_keys=True, ensure_ascii=False, separators=(",", ":"))`. -/
def dumps (v : Json F) : PyStr := v.sortKeys.emit false

end Dumps

/-! ## `json.loads` -/

def isSpace (c : CodePoint) : Bool := c.val = 32 || c.val = 9 || c.val = 10 || c.val = 13

def skipSpace (s : PyStr) : PyStr := s.dropWhile isSpace

def digitOf (c : CodePoint) : Option (Fin 10) :=
  if h : 48 ≤ c.val ∧ c.val < 58 then some ⟨c.val - 48, by omega⟩ else none

/-- The longest run of digits a text opens with, and what follows it. -/
def takeDigits : PyStr → List (Fin 10) × PyStr
  | [] => ([], [])
  | c :: s =>
    match digitOf c with
    | none => ([], c :: s)
    | some d => (d :: (takeDigits s).1, (takeDigits s).2)

/-- `0|[1-9]\d*`. -/
def takeNat (s : PyStr) : Option (ℕ × PyStr) :=
  match s with
  | [] => none
  | c :: r =>
    if c.val = 48 then some (0, r)
    else match takeDigits s with
      | ([], _) => none
      | (ds, rest) => some (ofDigits ds, rest)

/-- `(\.\d+)?`. -/
def takeFrac (s : PyStr) : Option Digits × PyStr :=
  match s with
  | [] => (none, s)
  | c :: r =>
    if c.val = 46 then
      match takeDigits r with
      | ([], _) => (none, s)
      | (d :: ds, rest) => (some ⟨d, ds⟩, rest)
    else (none, s)

def takeSign (s : PyStr) : Option Bool × PyStr :=
  match s with
  | [] => (none, s)
  | c :: r => if c.val = 45 then (some true, r) else if c.val = 43 then (some false, r) else (none, s)

/-- `([eE][-+]?\d+)?`. -/
def takeExp (s : PyStr) : Option (Option Bool × Digits) × PyStr :=
  match s with
  | [] => (none, s)
  | c :: r =>
    if c.val = 101 || c.val = 69 then
      match takeDigits (takeSign r).2 with
      | ([], _) => (none, s)
      | (d :: ds, rest) => (some ((takeSign r).1, ⟨d, ds⟩), rest)
    else (none, s)

section Loads

variable {F : Type} [PyFloat F]

def numberOf (neg : Bool) (int : ℕ) (frac : Option Digits)
    (exp : Option (Option Bool × Digits)) : Json F :=
  if h : (frac.isSome || exp.isSome) = true then
    .float (PyFloat.ofLit (.num ⟨neg, int, frac, exp, h⟩))
  else .int (if neg then -int else int)

/-- A number after its optional minus sign. -/
def parseUnsigned (neg : Bool) (s : PyStr) : Option (Json F × PyStr) :=
  match takeNat s with
  | none => none
  | some (int, s) =>
    let frac := takeFrac s
    let exp := takeExp frac.2
    some (numberOf neg int frac.1 exp.1, exp.2)

def dropPrefix (p s : PyStr) : Option PyStr :=
  if p.isPrefixOf s then some (s.drop p.length) else none

def hexOf (c : CodePoint) : Option ℕ :=
  if 48 ≤ c.val ∧ c.val < 58 then some (c.val - 48)
  else if 97 ≤ c.val ∧ c.val < 103 then some (c.val - 87)
  else if 65 ≤ c.val ∧ c.val < 71 then some (c.val - 55)
  else none

def hexFour (s : PyStr) : Option (ℕ × PyStr) :=
  match s with
  | a :: b :: c :: d :: rest => do
    return ((((← hexOf a) * 16 + (← hexOf b)) * 16 + (← hexOf c)) * 16 + (← hexOf d), rest)
  | _ => none

/-- The code point of `\uXXXX`, joined with the low half when a pair follows. -/
def unicodeEscape (s : PyStr) : Option (CodePoint × PyStr) := do
  let (high, rest) ← hexFour s
  let low := (dropPrefix (py "\\u") rest).bind hexFour
  match low with
  | some (low, after) =>
    if 0xD800 ≤ high ∧ high < 0xDC00 ∧ 0xDC00 ≤ low ∧ low < 0xE000 then
      return (← inRange 0 (0x10000 + (high - 0xD800) * 1024 + (low - 0xDC00)), after)
    else return (← inRange 0 high, rest)
  | none => return (← inRange 0 high, rest)

/-- What follows a backslash inside a string. -/
def parseEscape (s : PyStr) : Option (CodePoint × PyStr) :=
  match s with
  | [] => none
  | c :: r =>
    if c.val = 34 || c.val = 92 || c.val = 47 then some (c, r)
    else if c.val = 98 then some (8, r)
    else if c.val = 102 then some (12, r)
    else if c.val = 110 then some (10, r)
    else if c.val = 114 then some (13, r)
    else if c.val = 116 then some (9, r)
    else if c.val = 117 then unicodeEscape r
    else none

/-- The rest of a string after its opening quote. -/
def parseChars : ℕ → PyStr → Option (PyStr × PyStr)
  | 0, _ => none
  | _ + 1, [] => none
  | fuel + 1, c :: r =>
    if c.val = 34 then some ([], r)
    else if c.val = 92 then
      match parseEscape r with
      | none => none
      | some (e, r) => (parseChars fuel r).map fun p ↦ (e :: p.1, p.2)
    else if c.val < 32 then none
    else (parseChars fuel r).map fun p ↦ (c :: p.1, p.2)

def parseString (s : PyStr) : Option (PyStr × PyStr) := parseChars s.length s

mutual
def parseValue : ℕ → PyStr → Option (Json F × PyStr)
  | 0, _ => none
  | _ + 1, [] => none
  | fuel + 1, c :: r =>
    if c.val = 34 then (parseString r).map fun p ↦ (.str p.1, p.2)
    else if c.val = 91 then
      match dropPrefix (py "]") (skipSpace r) with
      | some r => some (.arr [], r)
      | none => (parseElems fuel (skipSpace r)).map fun p ↦ (.arr p.1, p.2)
    else if c.val = 123 then
      match dropPrefix (py "\x7d") (skipSpace r) with
      | some r => some (.obj [], r)
      | none => (parseMembers fuel (skipSpace r)).map fun p ↦ (.obj (dictUpdate [] p.1), p.2)
    else if c.val = 110 then (dropPrefix (py "ull") r).map fun r ↦ (.null, r)
    else if c.val = 116 then (dropPrefix (py "rue") r).map fun r ↦ (.bool true, r)
    else if c.val = 102 then (dropPrefix (py "alse") r).map fun r ↦ (.bool false, r)
    else if c.val = 78 then (dropPrefix (py "aN") r).map fun r ↦ (.float (PyFloat.ofLit .nan), r)
    else if c.val = 73 then
      (dropPrefix (py "nfinity") r).map fun r ↦ (.float (PyFloat.ofLit (.inf false)), r)
    else if c.val = 45 then
      match dropPrefix (py "Infinity") r with
      | some r => some (.float (PyFloat.ofLit (.inf true)), r)
      | none => parseUnsigned true r
    else parseUnsigned false (c :: r)
def parseElems : ℕ → PyStr → Option (List (Json F) × PyStr)
  | 0, _ => none
  | fuel + 1, s =>
    match parseValue fuel s with
    | none => none
    | some (v, r) =>
      match skipSpace r with
      | [] => none
      | c :: r =>
        if c.val = 93 then some ([v], r)
        else if c.val = 44 then (parseElems fuel (skipSpace r)).map fun p ↦ (v :: p.1, p.2)
        else none
def parseMembers : ℕ → PyStr → Option (List (PyStr × Json F) × PyStr)
  | 0, _ => none
  | fuel + 1, s =>
    match (dropPrefix (py "\"") s).bind parseString with
    | none => none
    | some (k, r) =>
      match dropPrefix (py ":") (skipSpace r) with
      | none => none
      | some r =>
        match parseValue fuel (skipSpace r) with
        | none => none
        | some (v, r) =>
          match skipSpace r with
          | [] => none
          | c :: r =>
            if c.val = 125 then some ([(k, v)], r)
            else if c.val = 44 then (parseMembers fuel (skipSpace r)).map fun p ↦ ((k, v) :: p.1, p.2)
            else none
end

/-- `json.loads` on a string; `none` is its `JSONDecodeError`. -/
def loads (s : PyStr) : Option (Json F) :=
  match parseValue s.length (skipSpace s) with
  | some (v, r) => if skipSpace r = [] then some v else none
  | none => none

end Loads

end FourCE.Python
