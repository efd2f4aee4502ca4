import FourCE.Python.Json
import FourCE.Python.Unicode
import Mathlib.Data.Rat.Floor

/-!
# Floats

Double-precision numbers by their exact values: a decimal numeral is rounded to the nearest double,
ties to even, and so is every difference.  `formatG` is `f"{x:g}"`.
-/

namespace FourCE.Python

/-- A float; a finite one is its value. -/
inductive Double
  | finite (q : ℚ)
  | inf (neg : Bool)
  | nan
  deriving DecidableEq, Repr

def roundHalfEven (q : ℚ) : ℤ :=
  let n := q.floor
  let rest := q - n
  if rest < 1 / 2 then n else if 1 / 2 < rest then n + 1 else if n % 2 = 0 then n else n + 1

def powTwo (e : ℤ) : ℚ := if 0 ≤ e then 2 ^ e.toNat else 1 / 2 ^ (-e).toNat

def powTen (e : ℤ) : ℚ := if 0 ≤ e then 10 ^ e.toNat else 1 / 10 ^ (-e).toNat

/-- `⌊log₂ q⌋` of a positive rational. -/
def binaryExponent (q : ℚ) : ℤ :=
  let e : ℤ := (Nat.log2 q.num.natAbs : ℤ) - Nat.log2 q.den
  if powTwo e ≤ q then e else e - 1

/-- The double nearest to a rational. -/
def Double.ofRat (q : ℚ) : Double :=
  if q = 0 then .finite 0
  else
    let size := if q < 0 then -q else q
    let e := max (binaryExponent size - 52) (-1074)
    let rounded := roundHalfEven (size / powTwo e) * powTwo e
    if powTwo 1024 ≤ rounded then .inf (q < 0)
    else .finite (if q < 0 then -rounded else rounded)

/-- `x < y`. -/
def Double.lt : Double → Double → Bool
  | .finite p, .finite q => p < q
  | .finite _, .inf neg => !neg
  | .inf neg, .finite _ => neg
  | .inf m, .inf n => m && !n
  | .nan, _ | _, .nan => false

/-- `x <= y`. -/
def Double.le : Double → Double → Bool
  | .finite p, .finite q => p ≤ q
  | .finite _, .inf neg => !neg
  | .inf neg, .finite _ => neg
  | .inf m, .inf n => m || !n
  | .nan, _ | _, .nan => false

/-- `x - y`. -/
def Double.sub : Double → Double → Double
  | .finite p, .finite q => .ofRat (p - q)
  | .finite _, .inf neg => .inf !neg
  | .inf neg, .finite _ => .inf neg
  | .inf m, .inf n => if m = n then .nan else .inf m
  | .nan, _ | _, .nan => .nan

/-- `-x`. -/
def Double.neg : Double → Double
  | .finite q => .finite (-q)
  | .inf neg => .inf !neg
  | .nan => .nan

/-- `abs(x)`. -/
def Double.abs : Double → Double
  | .finite q => .finite (if q < 0 then -q else q)
  | .inf _ => .inf false
  | .nan => .nan

/-- `x + y`. -/
def Double.add (x y : Double) : Double := x.sub y.neg

/-- `x * n` for a positive integer. -/
def Double.mulNat (n : ℕ) : Double → Double
  | .finite q => .ofRat (q * n)
  | x => x

/-- `x / y`, where `y` is not zero. -/
def Double.div : Double → Double → Double
  | .finite p, .finite q => .ofRat (p / q)
  | .finite _, .inf _ => .finite 0
  | .inf neg, .finite q => .inf (neg != decide (q < 0))
  | .inf _, .inf _ | .nan, _ | _, .nan => .nan

/-- `round(x)`; what is no number is an exception. -/
def Double.round : Double → Option ℤ
  | .finite q => some (roundHalfEven q)
  | .inf _ | .nan => none

/-- `max(xs)`: the first of the greatest; of nothing a `ValueError`. -/
def Double.max : List Double → Option Double
  | [] => none
  | x :: xs => some (xs.foldl (fun m y ↦ if m.lt y then y else m) x)

section Parse

variable [Unicode]

def decimals : PyStr → Option (List (Fin 10))
  | [] => some []
  | c :: s => do return (← Unicode.decimal c) :: (← decimals s)

/-- `int(s)` of decimal digits. -/
def intOf (s : PyStr) : ℕ := ((decimals s).map ofDigits).getD 0

theorem decimals_digitsText (ds : List (Fin 10)) : decimals (digitsText ds) = some ds := by
  induction ds with
  | nil => rfl
  | cons d ds ih =>
    have hd : Unicode.decimal (digitChar d) = some d := by
      rw [Unicode.decimal_ascii _ (by simp only [digitChar]; omega), if_pos (by simp only [digitChar]; omega)]
      simp only [digitChar, Option.some.injEq, Nat.add_sub_cancel_left]
      exact Fin.ofNat_val_eq_self d
    rw [digitsText, List.map_cons, decimals, hd, ← digitsText, ih]
    rfl

/-- `float(s)` of digits with or without a fraction; anything else is not a number here. -/
def floatOf (s : PyStr) : Option Double :=
  match s.span (· ≠ 46) with
  | ([], _) => none
  | (int, []) => (decimals int).map fun ds ↦ .ofRat (ofDigits ds)
  | (int, _ :: frac) =>
    if frac = [] then none
    else do
      let ds ← decimals int
      let fs ← decimals frac
      return .ofRat (ofDigits ds + ofDigits fs / powTen fs.length)

end Parse

/-! ## Formatting -/

/-- The decimal exponent of a positive rational. -/
def decimalExponent (q : ℚ) : ℤ :=
  if 1 ≤ q then (natDigits q.floor.toNat).length - 1
  else match (List.range 1100).find? fun k : ℕ ↦ 1 ≤ q * powTen k with
    | some k => -k
    | none => 0

/-- Six significant digits and the exponent of the first of them. -/
def sixDigits (q : ℚ) : ℕ × ℤ :=
  let e := decimalExponent q
  let n := (roundHalfEven (q / powTen (e - 5))).toNat
  if n = 10 ^ 6 then (10 ^ 5, e + 1) else (n, e)

/-- Digits after the point, without trailing zeros. -/
def fractionText (ds : List (Fin 10)) : PyStr :=
  match (ds.reverse.dropWhile (· = 0)).reverse with
  | [] => []
  | ds => py "." ++ digitsText ds

/-- The last `k` digits of `n`. -/
def lastDigits (k n : ℕ) : List (Fin 10) :=
  (List.range k).reverse.map fun i ↦ Fin.ofNat 10 (n / 10 ^ i)

def formatPositive (q : ℚ) : PyStr :=
  let (n, e) := sixDigits q
  if -4 ≤ e ∧ e < 6 then
    let places := (5 - e).toNat
    natText (n / 10 ^ places) ++ fractionText (lastDigits places n)
  else
    let size := natText e.natAbs
    natText (n / 10 ^ 5) ++ fractionText (lastDigits 5 n) ++
      (if e < 0 then py "e-" else py "e+") ++ (if size.length = 1 then py "0" ++ size else size)

/-- `f"{x:g}"`. -/
def formatG : Double → PyStr
  | .finite q =>
    if q = 0 then py "0" else if q < 0 then py "-" ++ formatPositive (-q) else formatPositive q
  | .inf neg => if neg then py "-inf" else py "inf"
  | .nan => py "nan"

/-- `f"{x:.1f}"` of a number that is not negative. -/
def formatOneDecimal : Double → PyStr
  | .finite q =>
    let tenths := (roundHalfEven (q * 10)).toNat
    natText (tenths / 10) ++ py "." ++ natText (tenths % 10)
  | .inf neg => if neg then py "-inf" else py "inf"
  | .nan => py "nan"

end FourCE.Python
