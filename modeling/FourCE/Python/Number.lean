import FourCE.Python.Object

/-!
# Arithmetic of JSON values

`int(x)`, `x + y` and `x == y` where `x` and `y` came out of JSON.  A boolean counts as 0 or 1, an
integer beside a float becomes a float, and texts and lists are joined.  An operation that raises is
`none`.
-/

namespace FourCE.Python

/-- What the interpreter does with floats and with texts of numbers. -/
class PyNumber (F : Type) extends Runtime F where
  /-- `x + y`. -/
  add : F → F → F
  /-- `float(i)`, which overflows on what is too large. -/
  ofInt : ℤ → Option F
  /-- `int(x)`, which infinities and NaN do not have. -/
  trunc : F → Option ℤ
  /-- `int(s)` of a text. -/
  parseInt : PyStr → Option ℤ
  /-- `x == y`. -/
  eq : F → F → Bool

section

variable {F : Type}

/-- The integer that a boolean or an integer is. -/
def Json.whole : Json F → Option ℤ
  | .bool b => some (if b then 1 else 0)
  | .int i => some i
  | .null | .float _ | .str _ | .arr _ | .obj _ => none

variable [PyNumber F]

/-- `int(x)`. -/
def Json.toInt : Json F → Option ℤ
  | .float x => PyNumber.trunc x
  | .str s => PyNumber.parseInt F s
  | x => x.whole

/-- `x + y`. -/
def Json.plus (x y : Json F) : Option (Json F) :=
  match x, y with
  | .str s, .str t => some (.str (s ++ t))
  | .arr xs, .arr ys => some (.arr (xs ++ ys))
  | .float a, .float b => some (.float (PyNumber.add a b))
  | .float a, y => do return .float (PyNumber.add a (← PyNumber.ofInt (← y.whole)))
  | x, .float b => do return .float (PyNumber.add (← PyNumber.ofInt (← x.whole)) b)
  | x, y => do return .int ((← x.whole) + (← y.whole))

@[simp]
theorem Json.plus_int (m n : ℤ) : (Json.int m : Json F).plus (.int n) = some (.int (m + n)) := rfl

/-- `i == x` for an integer, which may be a boolean, and a value of another kind. -/
def eqWhole (i : ℤ) : Json F → Bool
  | .float x => PyFloat.eqInt x i
  | x => x.whole = some i

mutual

/-- `x == y`. -/
def Json.eq : Json F → Json F → Bool
  | .null, y => match y with
    | .null => true
    | _ => false
  | .bool b, y => eqWhole (if b then 1 else 0) y
  | .int i, y => eqWhole i y
  | .float x, y => match y with
    | .float z => PyNumber.eq x z
    | y => y.whole.any (PyFloat.eqInt x)
  | .str s, y => y.isStr s
  | .arr xs, y => match y with
    | .arr ys => xs.length = ys.length && eqItems xs ys
    | _ => false
  | .obj d, y => match y with
    | .obj e => d.length = e.length && eqMembers d e
    | _ => false

def eqItems : List (Json F) → List (Json F) → Bool
  | x :: xs, y :: ys => x.eq y && eqItems xs ys
  | _, _ => true

/-- Every member of the first has its equal in the second. -/
def eqMembers : List (PyStr × Json F) → List (PyStr × Json F) → Bool
  | [], _ => true
  | (k, x) :: d, e => (dictGet e k).any (x.eq ·) && eqMembers d e

end

end

end FourCE.Python
