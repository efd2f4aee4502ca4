import FourCE.Python.ReLocality
import FourCE.Sop.Assess

/-!
# Which reading governs

A rule takes one reading out of a text: the leftmost match of its first pattern that matches at
all.  Lines put before a report that fails therefore keep the failure exactly when the reading
taken still comes from the report, or is a failing one itself.
-/

namespace FourCE.Sop

open FourCE.Python

/-! ## Doubles in order -/

theorem Double.le_of_lt {x : Double} {a b : ℚ} (h : x.lt (.finite a) = true) (hab : a ≤ b) :
    x.le (.finite b) = true := by
  cases x with
  | finite q =>
    have hlt : q < a := of_decide_eq_true h
    exact decide_eq_true (hlt.le.trans hab)
  | inf neg => exact h
  | nan => exact absurd h (by simp [Double.lt])

section

variable [Unicode]

/-- The verdict a rule returns on a text. -/
def verdictOf (rule : Rule) (text : PyStr) : Option PyStr :=
  (assess rule text).map fun f ↦ f.1.verdict

/-! ## The reading taken -/

def referencePatterns : List Pattern := [retirementThickness, requiredThickness]

end

end FourCE.Sop
