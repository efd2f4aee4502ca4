import FourCE.Python.Float
import FourCE.Python.Text

/-!
# The values of a sheet

`_Grid`, `_evaluate`, `_walk` and `_shown` of `tools/sheets.py`: cells, and the formulas among them,
which are rewritten to Python's syntax, parsed, and walked node by node.  The parser of Python's
expressions and the interpreter's floats are parameters.
-/

namespace FourCE.Tools

open FourCE.Python

/-! ## Values -/

/-- What a cell holds, or a node comes to. -/
inductive Value (K : Type)
  | none
  | bool (b : Bool)
  | int (i : ℤ)
  | float (x : K)
  | str (s : PyStr)
  | date (moment : ℤ) (day : PyStr)
  | complex (re im : K)
  | list (values : List (Value K))

/-- What `x ** y` comes to. -/
inductive Power (K : Type)
  | real (x : K)
  | complex (re im : K)
  | zeroDivision
  | overflow

/-- The interpreter's floats, as sheets use them; an operation that raises is `none`. -/
class Floats (K : Type) where
  /-- The number a float is shown as. -/
  double : K → Double
  zero : K
  one : K
  /-- `float(i)`. -/
  ofInt : ℤ → Option K
  /-- `float(s)`. -/
  ofText : PyStr → Option K
  neg : K → K
  abs : K → K
  add : K → K → K
  sub : K → K → K
  mul : K → K → K
  /-- `x / y`, unless `y` is zero. -/
  div : K → K → Option K
  pow : K → K → Power K
  sqrt : K → Option K
  /-- `round(x, n)`. -/
  round : K → ℤ → Option K
  /-- `int(x)`. -/
  truncate : K → Option ℤ
  sum : List K → K
  eq : K → K → Bool
  lt : K → K → Bool
  /-- The order of a float and an integer, unless the float is no number. -/
  compareInt : K → ℤ → Option Ordering
  /-- `str(x)` of a value that is neither a text nor a single number. -/
  text : Value K → PyStr

variable {K : Type} [Floats K]

omit [Floats K] in
/-- `isinstance(v, (int, float))`. -/
def Value.isNumber : Value K → Bool
  | .bool _ | .int _ | .float _ => true
  | _ => false

omit [Floats K] in
/-- `isinstance(v, (int, float)) and not isinstance(v, bool)`. -/
def Value.isPlainNumber : Value K → Bool
  | .int _ | .float _ => true
  | _ => false

/-- `_shown(value)`. -/
def shown : Value K → PyStr
  | .none => []
  | .bool b => if b then py "TRUE" else py "FALSE"
  | .float x => match Floats.double x with
    | .finite q => formatG (.finite q)
    | _ => py "#NUM!"
  | .date _ day => day
  | .int i => intText i
  | .str s => strip (replace (py "\n") (py " ") (replace (py "|") (py "/") s))
  | v => strip (replace (py "\n") (py " ") (replace (py "|") (py "/") (Floats.text v)))

/-! ## Columns -/

/-- `_column_number(letters)` of capital letters. -/
def columnNumber (letters : PyStr) : ℕ := letters.foldl (fun n c ↦ n * 26 + (c.val - 64)) 0

theorem letter_lt (n : ℕ) : 65 + (n - 1) % 26 < 0x110000 := by omega

def columnLettersFrom : ℕ → ℕ → PyStr → PyStr
  | 0, _, letters => letters
  | fuel + 1, n, letters =>
    if n = 0 then letters
    else columnLettersFrom fuel ((n - 1) / 26) (⟨65 + (n - 1) % 26, letter_lt n⟩ :: letters)

/-- `_column_letters(n)`. -/
def columnLetters (n : ℕ) : PyStr := columnLettersFrom n n []

/-- `f"{_column_letters(column)}{row}"`. -/
def refText (column row : ℕ) : PyStr := columnLetters column ++ natText row

section Patterns

/-- `_UNSAFE`. -/
def UNSAFE : Pattern :=
  re { ignoreCase := true } (py r"\[|\||://|\\\\|\b(?:WEBSERVICE|FILTERXML|CALL|REGISTER(?:\.ID)?|EXEC|RTD|DDE|IMPORT[A-Z]*|" ++
    py r"HYPERLINK|INDIRECT|OFFSET|INFO|CELL)\s*\(") (by decide +kernel)

/-- `_REF`. -/
def REF : Pattern :=
  re {} (py "(?<![A-Za-z_\"])" ++ py r"\$?([A-Z]{1,3})\$?([1-9][0-9]{0,6})(?![0-9A-Za-z_(])") (by decide)

/-- `_RANGE`. -/
def RANGE : Pattern :=
  re {} (py r"\$?([A-Z]{1,3})\$?([1-9][0-9]{0,6}):\$?([A-Z]{1,3})\$?([1-9][0-9]{0,6})") (by decide)

def quotedText : Pattern := re {} (py "(\"(?:[^\"]|\"\")*\")") (by decide)

def singleEquals : Pattern := re {} (py "(?<![<>!=])=(?!=)") (by decide)

def trueWord : Pattern := re { ignoreCase := true } (py r"\bTRUE\b") (by decide)

def falseWord : Pattern := re { ignoreCase := true } (py r"\bFALSE\b") (by decide)

end Patterns

/-! ## Formulas in Python's syntax -/

inductive BinOp
  | add
  | sub
  | mul
  | div
  | pow
  deriving DecidableEq

/-- The comparisons; `other` is `is`, `in` and their negations. -/
inductive Comparison
  | eq
  | ne
  | lt
  | le
  | gt
  | ge
  | other
  deriving DecidableEq

/-- An expression, as far as `_walk` tells its nodes apart; `other` says whether the node has a `value`. -/
inductive Node (K : Type)
  | int (i : ℤ)
  | float (x : K)
  | str (s : PyStr)
  | bool (b : Bool)
  | neg (operand : Node K)
  | pos (operand : Node K)
  | bin (op : BinOp) (left right : Node K)
  | compare (op : Comparison) (left right : Node K)
  | call (name : PyStr) (args : List (Node K))
  | other (hasValue : Bool)

omit [Floats K] in
/-- `node.value`: nothing, no text, or a text. -/
def Node.value : Node K → Option (Option PyStr)
  | .str s => some (some s)
  | .int _ | .float _ | .bool _ | .other true => some none
  | _ => none

section Rewrite

variable [Unicode]

/-- A piece of a formula between texts in quotes. -/
def rewritePiece (piece : PyStr) : PyStr :=
  let piece := replace (py "^") (py "**") (replace (py "<>") (py "!=") piece)
  let piece := reSub singleEquals (fun _ ↦ py "==") piece
  let piece := reSub RANGE (fun m ↦ py "__span(\"" ++ groupText m 1 ++ groupText m 2 ++ py "\",\"" ++
    groupText m 3 ++ groupText m 4 ++ py "\")") piece
  let piece := reSub REF (fun m ↦ py "__ref(\"" ++ groupText m 1 ++ groupText m 2 ++ py "\")") piece
  let piece := reSub trueWord (fun _ ↦ py "True") piece
  reSub falseWord (fun _ ↦ py "False") piece

/-- Excel's operators, as Python writes them; texts in quotes are kept as they are. -/
def rewrite (expr : PyStr) : PyStr :=
  let parts := reSplitKeeping quotedText expr
  parts.1.flatMap (fun part ↦ rewritePiece part.1 ++ part.2) ++ rewritePiece parts.2

end Rewrite

/-! ## Walking -/

/-- What stops the walk: an error of the formula, a division by zero, another exception that becomes
`#VALUE!`, or one that nothing catches. -/
inductive Fault
  | formula (text : PyStr)
  | zeroDivision
  | value
  | uncaught
  deriving DecidableEq

/-- The formulas being evaluated, and the cells that have been. -/
structure GridState (K : Type) where
  busy : List PyStr
  done : List (PyStr × Value K)

abbrev EvalM (K : Type) := ExceptT Fault (StateM (GridState K))

omit [Floats K] in
/-- What does not look at the grid. -/
def raising {α : Type} (result : Except Fault α) : EvalM K α := fun state ↦ (result, state)

def orFault {α : Type} (fault : Fault) : Option α → Except Fault α
  | some a => .ok a
  | none => .error fault

/-- `_number(v)`. -/
def number : Value K → Except Fault K
  | .none => pure Floats.zero
  | .bool b => pure (if b then Floats.one else Floats.zero)
  | .int i => orFault .value (Floats.ofInt i)
  | .float x => pure x
  | .str s =>
    if s.isEmpty then pure Floats.zero
    else if startsWith (py "#") s then throw (.formula s)
    else orFault (.formula (py "#VALUE!")) (Floats.ofText s)
  | v => orFault (.formula (py "#VALUE!")) (Floats.ofText (Floats.text v))

omit [Floats K] in
mutual
/-- `_flat(values)`, of one of them. -/
def Value.flat : Value K → List (Value K)
  | .list vs => flatAll vs
  | v => [v]
/-- `_flat(values)`. -/
def flatAll : List (Value K) → List (Value K)
  | [] => []
  | v :: vs => v.flat ++ flatAll vs
end

/-- The order of two numbers, a Boolean among them, unless one of them is no number. -/
def compareNumbers : Value K → Value K → Option Ordering
  | .bool a, y => compareNumbers.after (if a then 1 else 0) y
  | .int i, y => compareNumbers.after i y
  | .float x, .float y => if Floats.eq x y then some .eq else if Floats.lt x y then some .lt
      else if Floats.lt y x then some .gt else none
  | .float x, .bool b => Floats.compareInt x (if b then 1 else 0)
  | .float x, .int j => Floats.compareInt x j
  | _, _ => none
where
  after (i : ℤ) : Value K → Option Ordering
    | .bool b => some (compare i (if b then 1 else 0))
    | .int j => some (compare i j)
    | .float y => (Floats.compareInt y i).map Ordering.swap
    | _ => none

mutual
/-- `x == y`. -/
def Value.equal : Value K → Value K → Bool
  | .none, .none => true
  | .str s, .str t => s = t
  | .date m _, .date n _ => m = n
  | .complex a b, .complex c d => Floats.eq a c && Floats.eq b d
  | .list xs, .list ys => equalAll xs ys
  | x, y => compareNumbers x y == some .eq
def equalAll : List (Value K) → List (Value K) → Bool
  | [], [] => true
  | x :: xs, y :: ys => x.equal y && equalAll xs ys
  | _, _ => false
end

mutual
/-- The order of `x` and `y`: `none` when they have none, `some none` when one is no number. -/
def Value.order : Value K → Value K → Option (Option Ordering)
  | .str s, .str t => some (some (if s = t then .eq else if s < t then .lt else .gt))
  | .date m _, .date n _ => some (some (compare m n))
  | .list xs, .list ys => orderAll xs ys
  | x, y => if x.isNumber && y.isNumber then some (compareNumbers x y) else none
def orderAll : List (Value K) → List (Value K) → Option (Option Ordering)
  | [], [] => some (some .eq)
  | [], _ :: _ => some (some .lt)
  | _ :: _, [] => some (some .gt)
  | x :: xs, y :: ys => if x.equal y then orderAll xs ys else x.order y
end

/-- Whether an order meets a comparison. -/
def Comparison.meets : Comparison → Option Ordering → Bool
  | .lt, order => order == some .lt
  | .le, order => order == some .lt || order == some .eq
  | .gt, order => order == some .gt
  | .ge, order => order == some .gt || order == some .eq
  | _, _ => false

/-- A comparison of two values that have been walked. -/
def compareValues (op : Comparison) (left right : Value K) : Except Fault (Value K) := do
  let (left, right) ←
    if left.isNumber || right.isNumber then do
      let x ← number left
      let y ← number right
      pure (.float x, .float y)
    else pure (left, right)
  match op with
  | .eq => return .bool (left.equal right)
  | .ne => return .bool !(left.equal right)
  | .other => throw (.formula (py "#VALUE!"))
  | op => match left.order right with
    | none => throw .value
    | some order => return .bool (op.meets order)

def binary (op : BinOp) (x y : K) : Except Fault (Value K) :=
  match op with
  | .add => return .float (Floats.add x y)
  | .sub => return .float (Floats.sub x y)
  | .mul => return .float (Floats.mul x y)
  | .div => do return .float (← orFault .zeroDivision (Floats.div x y))
  | .pow => match Floats.pow x y with
    | .real z => return .float z
    | .complex re im => return .complex re im
    | .zeroDivision => throw .zeroDivision
    | .overflow => throw .value

/-- `bool(_number(v))`. -/
def truth (v : Value K) : Except Fault Bool := do return !Floats.eq (← number v) Floats.zero

omit [Floats K] in
/-- `result.startswith("#")` of a text. -/
def isErrorText : Value K → Bool
  | .str s => startsWith (py "#") s
  | _ => false

/-- The truth of what `IF` tests. -/
def condition (test : Value K) : Except Fault Bool :=
  match test with
  | .bool b => pure b
  | test => truth test

def numbers (vs : List (Value K)) : Except Fault (List K) :=
  ((flatAll vs).filter Value.isPlainNumber).mapM number

/-- `min(numbers)` or `max(numbers)`: the first that none comes before. -/
def best (before : K → K → Bool) (x : K) (xs : List K) : K :=
  xs.foldl (fun m y ↦ if before y m then y else m) x

/-- `_ALLOWED`. -/
def ALLOWED : List PyStr :=
  [py "MIN", py "MAX", py "ABS", py "ROUND", py "IF", py "N", py "ISNUMBER", py "SUM", py "AVERAGE",
    py "AND", py "OR", py "NOT", py "SQRT"]

/-- A function other than `IF`, of arguments that have been walked. -/
def applyFunction (name : PyStr) (args : List (Value K)) : Except Fault (Value K) := do
  let first := orFault .uncaught args.head?
  if name = py "N" then do
    let v ← first
    return if v.isPlainNumber then v else .int 0
  else if name = py "ISNUMBER" then do
    return .bool (← first).isPlainNumber
  else if name = py "AND" then do
    return .bool ((← (flatAll args).mapM truth).all id)
  else if name = py "OR" then do
    return .bool ((← (flatAll args).mapM truth).any id)
  else if name = py "NOT" then do
    return .bool !(← truth (← first))
  else if name = py "ROUND" then do
    let x ← number (← first)
    let n ← match args[1]? with
      | none => pure 0
      | some digits => do orFault .value (Floats.truncate (← number digits))
    return .float (← orFault .value (Floats.round x n))
  else if name = py "ABS" then do
    return .float (Floats.abs (← number (← first)))
  else if name = py "SQRT" then do
    return .float (← orFault .value (Floats.sqrt (← number (← first))))
  else
    match ← numbers args with
    | [] =>
      return if name = py "AVERAGE" then .str (py "#DIV/0!") else .int 0
    | x :: xs =>
      if name = py "SUM" then return .float (Floats.sum (x :: xs))
      else if name = py "MIN" then return .float (best Floats.lt x xs)
      else if name = py "MAX" then return .float (best (fun a b ↦ Floats.lt b a) x xs)
      else do
        let n ← orFault .value (Floats.ofInt (x :: xs).length)
        return .float (← orFault .zeroDivision (Floats.div (Floats.sum (x :: xs)) n))

section Walk

variable [Unicode] [Casing]

omit [Floats K] [Casing] in
/-- `_Grid.span(start, end)`. -/
def span (look : PyStr → EvalM K (Value K)) (start stop : PyStr) : EvalM K (Value K) :=
  match reFullmatch REF start, reFullmatch REF stop with
  | some a, some b => do
    let c1 := columnNumber (groupText a 1)
    let c2 := columnNumber (groupText b 1)
    let r1 := intOf (groupText a 2)
    let r2 := intOf (groupText b 2)
    let rows := List.range' (min r1 r2) (max r1 r2 + 1 - min r1 r2)
    let columns := List.range' (min c1 c2) (max c1 c2 + 1 - min c1 c2)
    return .list (← (rows.flatMap fun r ↦ columns.map fun c ↦ refText c r).mapM look)
  | _, _ => throw .uncaught

mutual
/-- `_walk(node, grid)`. -/
def walk (look : PyStr → EvalM K (Value K)) : Node K → EvalM K (Value K)
  | .int i => pure (.int i)
  | .float x => pure (.float x)
  | .str s => pure (.str s)
  | .bool b => pure (.bool b)
  | .neg operand => do return .float (Floats.neg (← raising (number (← walk look operand))))
  | .pos operand => do return .float (← raising (number (← walk look operand)))
  | .bin op left right => do
    let x ← raising (number (← walk look left))
    let y ← raising (number (← walk look right))
    raising (binary op x y)
  | .compare op left right => do
    let x ← walk look left
    let y ← walk look right
    raising (compareValues op x y)
  | .call name args =>
    if name = py "__ref" then
      match args.map Node.value with
      | some (some ref) :: _ => look ref
      | _ => throw .uncaught
    else if name = py "__span" then
      match args.map Node.value with
      | some (some start) :: some (some stop) :: _ => span look start stop
      | some _ :: some _ :: _ => throw .value
      | _ => throw .uncaught
    else if Casing.upper name ∉ ALLOWED then throw (.formula (py "#NAME?"))
    else if Casing.upper name = py "IF" then do
      match ← walkNth look args 0 with
      | none => throw .uncaught
      | some test =>
        if isErrorText test then return test
        else if ← raising (condition test) then return (← walkNth look args 1).getD (.bool true)
        else return (← walkNth look args 2).getD (.bool false)
    else do raising (applyFunction (Casing.upper name) (← walkAll look args))
  | .other _ => throw (.formula (py "#VALUE!"))
/-- One of the arguments, if there are so many. -/
def walkNth (look : PyStr → EvalM K (Value K)) : List (Node K) → ℕ → EvalM K (Option (Value K))
  | [], _ => pure none
  | arg :: _, 0 => do return some (← walk look arg)
  | _ :: args, n + 1 => walkNth look args n
def walkAll (look : PyStr → EvalM K (Value K)) : List (Node K) → EvalM K (List (Value K))
  | [] => pure []
  | arg :: args => do
    let v ← walk look arg
    return v :: (← walkAll look args)
end

/-! ## The grid -/

/-- A sheet, as `_load` returns one. -/
structure Sheet (K : Type) where
  name : PyStr
  cells : List (PyStr × Value K)
  cached : List (PyStr × Value K)
  rows : ℕ
  columns : ℕ

omit [Floats K] in
/-- The formula of a cell that holds one. -/
def formulaOf : Value K → Option PyStr
  | .str s => if startsWith (py "=") s then some s else none
  | _ => none

/-- The expression of a formula. -/
def expression (formula : PyStr) : PyStr :=
  if startsWith (py "=") (strip formula) then (strip formula).tail else strip formula

/-- What a formula comes to once its expression is walked. -/
def settle (walked : Except Fault (Value K)) : Except Fault (Value K) :=
  match walked with
  | .ok v => .ok v
  | .error (.formula text) => .ok (.str text)
  | .error .zeroDivision => .ok (.str (py "#DIV/0!"))
  | .error .value => .ok (.str (py "#VALUE!"))
  | .error .uncaught => .error .uncaught

variable (parse : PyStr → Option (Node K))

/-- `_evaluate(formula, grid)`, of a parser of Python's expressions. -/
def evaluate (look : PyStr → EvalM K (Value K)) (formula : PyStr) : EvalM K (Value K) :=
  let expr := expression formula
  if (reSearch UNSAFE expr).isSome then pure (.str (py "#BLOCKED!"))
  else match parse (rewrite expr) with
    | none => pure (.str (py "#VALUE!"))
    | some node => fun state ↦ ((settle (walk look node state).1), (walk look node state).2)

omit [Floats K] [Unicode] [Casing] in
/-- The value Excel last saved in place of an error, where there is one. -/
def orCached (cached : Option (Value K)) (result : Value K) : Value K :=
  match cached with
  | some .none | none => result
  | some kept => if isErrorText result then kept else result

omit [Floats K] [Unicode] in
/-- `ref.replace("$", "").upper()`. -/
def gridKey (ref : PyStr) : PyStr := Casing.upper (replace (py "$") [] ref)

/-- `_Grid.value(ref)`; `depth` is how far the interpreter recurses. -/
def gridValue (cells cached : List (PyStr × Value K)) : ℕ → PyStr → EvalM K (Value K)
  | 0, _ => raising (.error .value)
  | depth + 1, ref => fun state ↦
    let ref := gridKey ref
    match state.done.lookup ref with
    | some v => (.ok v, state)
    | none =>
      let raw := (cells.lookup ref).getD .none
      match formulaOf raw with
      | none => (.ok raw, { state with done := (ref, raw) :: state.done })
      | some formula =>
        if ref ∈ state.busy then (.ok (.str (py "#REF!")), state)
        else
          let (result, after) := evaluate parse (gridValue cells cached depth) formula
            { state with busy := ref :: state.busy }
          let after := { after with busy := after.busy.erase ref }
          match result with
          | .error e => (.error e, after)
          | .ok result =>
            let result := orCached (cached.lookup ref) result
            (.ok result, { after with done := (ref, result) :: after.done })

section GridValue

variable {parse} {cells cached : List (PyStr × Value K)} {depth : ℕ} {ref : PyStr} {state : GridState K}

theorem gridValue_done {v : Value K} (h : state.done.lookup (gridKey ref) = some v) :
    gridValue parse cells cached (depth + 1) ref state = (.ok v, state) := by
  rw [gridValue]
  simp only [h]

theorem gridValue_plain (hdone : state.done.lookup (gridKey ref) = none)
    (h : formulaOf ((cells.lookup (gridKey ref)).getD .none) = none) :
    gridValue parse cells cached (depth + 1) ref state =
      (.ok ((cells.lookup (gridKey ref)).getD .none),
        { state with done := (gridKey ref, (cells.lookup (gridKey ref)).getD .none) :: state.done }) := by
  rw [gridValue]
  simp only [hdone, h]

theorem gridValue_busy {formula : PyStr} (hdone : state.done.lookup (gridKey ref) = none)
    (h : formulaOf ((cells.lookup (gridKey ref)).getD .none) = some formula) (hbusy : gridKey ref ∈ state.busy) :
    gridValue parse cells cached (depth + 1) ref state = (.ok (.str (py "#REF!")), state) := by
  rw [gridValue]
  simp only [hdone, h, if_pos hbusy]

theorem gridValue_formula {formula : PyStr} (hdone : state.done.lookup (gridKey ref) = none)
    (h : formulaOf ((cells.lookup (gridKey ref)).getD .none) = some formula) (hbusy : gridKey ref ∉ state.busy) :
    gridValue parse cells cached (depth + 1) ref state =
      match evaluate parse (gridValue parse cells cached depth) formula
          { state with busy := gridKey ref :: state.busy } with
      | (.error e, after) => (.error e, { after with busy := after.busy.erase (gridKey ref) })
      | (.ok result, after) =>
        (.ok (orCached (cached.lookup (gridKey ref)) result),
          { busy := after.busy.erase (gridKey ref)
            done := (gridKey ref, orCached (cached.lookup (gridKey ref)) result) :: after.done }) := by
  rw [gridValue]
  simp only [hdone, h, if_neg hbusy]
  generalize evaluate parse (gridValue parse cells cached depth) formula _ = run
  obtain ⟨result, after⟩ := run
  cases result <;> rfl

end GridValue

end Walk

end FourCE.Tools
