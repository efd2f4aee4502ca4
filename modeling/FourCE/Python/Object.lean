import FourCE.Python.Float
import FourCE.Python.Re
import FourCE.Python.Text

/-!
# JSON values as Python objects

What untyped code does with a value `json.loads` returned: its truth, its text, its iteration, its
attributes.  An operation that raises is `none`.
-/

namespace FourCE.Python

/-- What untyped code asks the interpreter about floats, about texts it cannot know in advance, and
about patterns that come as text. -/
class Runtime (F : Type) extends PyFloat F where
  /-- The value of a float. -/
  double : F → Double
  /-- `float(s)` of a string. -/
  parseFloat : PyStr → Option Double
  /-- `str(x)` of a list or a dictionary. -/
  containerText : Json F → PyStr
  /-- `s.format(value=v)`. -/
  format : PyStr → PyStr → Option PyStr
  /-- `re.search(pattern, text, re.IGNORECASE)`. -/
  search : PyStr → PyStr → Option (Option Match)
  /-- `re.finditer(pattern, text, re.IGNORECASE)`. -/
  finditer : PyStr → PyStr → Option (List Match)

section

variable {F : Type} [Runtime F]

/-- `bool(x)`. -/
def Json.truth : Json F → Bool
  | .null => false
  | .bool b => b
  | .int i => i ≠ 0
  | .float x => !PyFloat.eqInt x 0
  | .str s => !s.isEmpty
  | .arr xs => !xs.isEmpty
  | .obj d => !d.isEmpty

/-- `str(x)`. -/
def Json.text : Json F → PyStr
  | .null => py "None"
  | .bool b => if b then py "True" else py "False"
  | .int i => intText i
  | .float x => match PyFloat.lit x with
    | .nan => py "nan"
    | .inf neg => if neg then py "-inf" else py "inf"
    | .num n => numeralText n
  | .str s => s
  | x => Runtime.containerText x

/-- `float(x)`; an integer too large for a float raises. -/
def Json.toDouble : Json F → Option Double
  | .bool b => some (.finite (if b then 1 else 0))
  | .int i => match Double.ofRat i with
    | .finite q => some (.finite q)
    | _ => none
  | .float x => some (Runtime.double x)
  | .str s => Runtime.parseFloat F s
  | .null | .arr _ | .obj _ => none

/-- `iter(x)`. -/
def Json.iter : Json F → Option (List (Json F))
  | .arr xs => some xs
  | .str s => some (s.map fun c ↦ .str [c])
  | .obj d => some (d.map fun p ↦ .str p.1)
  | .null | .bool _ | .int _ | .float _ => none

/-- `x.get(k)`, of a dictionary alone; `x.get(k, default)` is `(x.get k).map (·.getD default)`. -/
def Json.get (x : Json F) (k : PyStr) : Option (Option (Json F)) :=
  match x with
  | .obj d => some (dictGet d k)
  | _ => none

/-- `x[k]` of a dictionary. -/
def Json.item (x : Json F) (k : PyStr) : Option (Json F) := (x.get k).bind id

/-- `x or y`. -/
def Json.orElse (x y : Json F) : Json F := if x.truth then x else y

/-- `x == s` for a string. -/
def Json.isStr (x : Json F) (s : PyStr) : Bool :=
  match x with
  | .str t => t = s
  | _ => false

end

end FourCE.Python
