import FourCE.Python.Str

/-!
# What the interpreter knows about characters

The tables behind `str.isalnum` and `str.isdecimal` are known here on ASCII alone; everything is
proved for whatever they say beyond it.  White space is `str.isspace`, in full.
-/

namespace FourCE.Python

/-- The interpreter's character tables. -/
class Unicode where
  isAlnum : CodePoint → Bool
  decimal : CodePoint → Option (Fin 10)
  isAlnum_ascii : ∀ c : CodePoint, c.val < 128 →
    isAlnum c = (48 ≤ c.val && c.val ≤ 57 || 65 ≤ c.val && c.val ≤ 90 || 97 ≤ c.val && c.val ≤ 122)
  decimal_ascii : ∀ c : CodePoint, c.val < 128 →
    decimal c = if 48 ≤ c.val ∧ c.val ≤ 57 then some (Fin.ofNat 10 (c.val - 48)) else none

/-- `c.isspace()`. -/
def isWhite (c : CodePoint) : Bool :=
  9 ≤ c.val && c.val ≤ 13 || 28 ≤ c.val && c.val ≤ 32 || c.val = 0x85 || c.val = 0xA0 ||
    c.val = 0x1680 || 0x2000 ≤ c.val && c.val ≤ 0x200A || c.val = 0x2028 || c.val = 0x2029 ||
    c.val = 0x202F || c.val = 0x205F || c.val = 0x3000

/-- A word character: `\w`. -/
def isWord [Unicode] (c : CodePoint) : Bool := Unicode.isAlnum c || c.val = 95

/-- The tables of an interpreter that knows ASCII alone. -/
def asciiTables : Unicode where
  isAlnum c := 48 ≤ c.val && c.val ≤ 57 || 65 ≤ c.val && c.val ≤ 90 || 97 ≤ c.val && c.val ≤ 122
  decimal c := if 48 ≤ c.val ∧ c.val ≤ 57 then some (Fin.ofNat 10 (c.val - 48)) else none
  isAlnum_ascii _ _ := rfl
  decimal_ascii _ _ := rfl

/-- `s.strip()`. -/
def strip (s : PyStr) : PyStr := ((s.dropWhile isWhite).reverse.dropWhile isWhite).reverse

/-- Lower case, as far as patterns of ASCII letters and `Ω` can tell: besides the capitals only `İ`,
`ı`, `ſ` and the Kelvin sign match an ASCII letter when case is ignored, and the ohm sign `Ω`. -/
def foldCase (c : CodePoint) : CodePoint :=
  if h : 65 ≤ c.val ∧ c.val ≤ 90 then ⟨c.val + 32, by omega⟩
  else if c.val = 0x130 ∨ c.val = 0x131 then 105
  else if c.val = 0x17F then 115
  else if c.val = 0x212A then 107
  else if c.val = 0x3A9 ∨ c.val = 0x2126 then 0x3C9
  else c

/-- The ASCII capital of a small letter. -/
def upperAscii (c : CodePoint) : CodePoint :=
  if 97 ≤ c.val ∧ c.val ≤ 122 then ⟨c.val - 32, by omega⟩ else c

end FourCE.Python
