import FourCE.Tools.Formula

/-!
# Exact arithmetic

The evaluator of formulas over the rationals: nothing is rounded but what a formula rounds.  Roots and
powers that are no rational numbers are parameters, as are the texts of lists.
-/

namespace FourCE.Tools

open FourCE.Python

/-- What exact arithmetic does not say. -/
structure Beyond where
  sqrt : ℚ → Option ℚ
  pow : ℚ → ℚ → Power ℚ
  text : Value ℚ → PyStr

/-- `x ** y`, where it is rational for certain. -/
def exactPow (beyond : Beyond) (x y : ℚ) : Power ℚ :=
  if y.den ≠ 1 then beyond.pow x y
  else if x = 0 ∧ y < 0 then .zeroDivision
  else .real (x ^ y.num)

/-- `round(x, n)`: to the nearest, ties to even. -/
def exactRound (x : ℚ) (n : ℤ) : ℚ := roundHalfEven (x * powTen n) / powTen n

/-- The number a decimal text stands for. -/
def exactOfText [Unicode] (s : PyStr) : Option ℚ :=
  let (negative, digits) := match s with
    | 45 :: s => (true, s)
    | s => (false, s)
  match digits.span (· ≠ 46) with
  | ([], _) => none
  | (int, rest) => do
    let whole ← decimals int
    let frac ← decimals rest.tail
    let size : ℚ := ofDigits whole + ofDigits frac / 10 ^ frac.length
    return if negative then -size else size

/-- Floats that are rational numbers. -/
@[reducible]
def exactFloats [Unicode] (beyond : Beyond) : Floats ℚ where
  double := Double.ofRat
  zero := 0
  one := 1
  ofInt i := some i
  ofText := exactOfText
  neg x := -x
  abs x := if x < 0 then -x else x
  add x y := x + y
  sub x y := x - y
  mul x y := x * y
  div x y := if y = 0 then none else some (x / y)
  pow := exactPow beyond
  sqrt := beyond.sqrt
  round x n := some (exactRound x n)
  truncate x := some (if x < 0 then -(-x).floor else x.floor)
  sum := List.sum
  eq x y := x = y
  lt x y := x < y
  compareInt x i := some (compare x i)
  text := beyond.text

end FourCE.Tools
