import FourCE.Calculations.Readings

/-!
# Remaining life

`_remaining_life` and the choice of interval in `calculate_remaining_life`: three places can limit
the time to the next measurement, the text, the request and the location's own column.
-/

namespace FourCE.Calculations

open FourCE.Python

/-! ## One location -/

inductive Verdict
  | atOrBelow
  | noLoss
  | fit
  deriving DecidableEq, Repr

def Verdict.text : Verdict → PyStr
  | .atOrBelow => py "AT OR BELOW REQUIRED THICKNESS"
  | .noLoss => py "NO MEASURABLE WALL LOSS"
  | .fit => py "FIT FOR CONTINUED SERVICE"

/-- A location worked. -/
structure Result where
  survey : Survey
  maxInterval : Option Double
  rate : Option Double
  life : Option Double
  next : Option Double
  verdict : Verdict
  deriving DecidableEq, Repr

/-- `bool(x)` of a float or `None`. -/
def truthy (x : Option Double) : Bool := x ≠ none && x ≠ some (.finite 0)

/-- `min(half, max_interval) if max_interval else half`. -/
def sooner (half : Double) (maxInterval : Option Double) : Double :=
  match maxInterval with
  | none => half
  | some limit => if limit = .finite 0 then half else half.min limit

/-- `(prev - cur) / years if years else None`. -/
def rateOf (row : Survey) : Option Double :=
  if row.years = .finite 0 then none else some ((row.previous.sub row.current).div row.years)

/-- `_remaining_life(row, max_interval)`. -/
def remainingLife (row : Survey) (maxInterval : Option Double) : Result :=
  let rate := rateOf row
  if row.current.le row.required then
    ⟨row, maxInterval, rate, some (.finite 0), some (.finite 0), .atOrBelow⟩
  else match rate with
    | none => ⟨row, maxInterval, none, none, maxInterval, .noLoss⟩
    | some r =>
      if r.le (.finite 0) then ⟨row, maxInterval, rate, none, maxInterval, .noLoss⟩
      else
        let life := (row.current.sub row.required).div r
        let half := life.div (.finite 2)
        ⟨row, maxInterval, rate, some life, some (sooner half maxInterval), .fit⟩

/-! ## The interval -/

/-- An interval and what sets it. -/
structure Limit where
  interval : Option Double
  basis : PyStr
  deriving DecidableEq, Repr

/-- `interval is None or x < interval`. -/
def shortens (x : Double) : Option Double → Bool
  | none => true
  | some interval => x.lt interval

/-- The interval the text states, or else the valve's. -/
def statedOr (default : Double) (stated : Option Double) : Option Double :=
  match stated with
  | some interval => some interval
  | none => if (Double.finite 0).lt default then some default else none

/-- `interval_basis or …`. -/
def basisOr (intervalBasis fallback : PyStr) : PyStr :=
  if intervalBasis.isEmpty then fallback else intervalBasis

/-- The limit for every location: the request's where it is shorter. -/
def limitFor (default : Double) (stated : Option Double) (maxIntervalYears : Double)
    (intervalBasis : PyStr) : Limit :=
  let interval := statedOr default stated
  if (Double.finite 0).lt maxIntervalYears && shortens maxIntervalYears interval then
    ⟨some maxIntervalYears, basisOr intervalBasis (py "the stated maximum")⟩
  else ⟨interval, py "the code maximum"⟩

/-- The limit for a location with this interval of its own. -/
def Limit.forRow (limit : Limit) (intervalBasis : PyStr) (own : Option Double) : Limit :=
  match own with
  | none => limit
  | some own =>
    if (Double.finite 0).lt own && shortens own limit.interval then
      ⟨some own, basisOr intervalBasis (py "the interval set for it")⟩
    else limit

/-- A result and the basis of its interval. -/
structure Worked where
  result : Result
  basis : PyStr
  deriving DecidableEq, Repr

/-- One turn of the loop over the rows. -/
def work (limit : Limit) (intervalBasis : PyStr) (row : Survey × Option Double) : Worked :=
  let own := limit.forRow intervalBasis row.2
  ⟨remainingLife row.1 own.interval, own.basis⟩

/-! ## What `_remaining_life` gives -/

theorem remainingLife_atOrBelow {row : Survey} (h : row.current.le row.required = true)
    (limit : Option Double) :
    remainingLife row limit =
      ⟨row, limit, rateOf row, some (.finite 0), some (.finite 0), .atOrBelow⟩ := by
  unfold remainingLife
  simp only [h, if_true]

/-- A location has lost wall when it is above its required thickness and its rate is positive, or
no number. -/
def Survey.lost (row : Survey) : Option Double :=
  if row.current.le row.required then none
  else (rateOf row).filter fun r ↦ !r.le (.finite 0)

theorem remainingLife_noLoss {row : Survey} (h : row.current.le row.required = false)
    (hlost : row.lost = none) (limit : Option Double) :
    remainingLife row limit = ⟨row, limit, rateOf row, none, limit, .noLoss⟩ := by
  unfold Survey.lost at hlost
  unfold remainingLife
  simp only [h, Bool.false_eq_true, if_false] at hlost ⊢
  cases hrate : rateOf row with
  | none => rfl
  | some r =>
    have hr : r.le (.finite 0) = true := by simpa [hrate, Option.filter] using hlost
    simp only [hr, if_true]

theorem remainingLife_fit {row : Survey} {r : Double} (hlost : row.lost = some r)
    (limit : Option Double) :
    remainingLife row limit = ⟨row, limit, some r, some ((row.current.sub row.required).div r),
      some (sooner (((row.current.sub row.required).div r).div (.finite 2)) limit), .fit⟩ := by
  unfold Survey.lost at hlost
  split at hlost
  · cases hlost
  · rename_i h
    obtain ⟨hrate, hr⟩ := Option.filter_eq_some_iff.mp hlost
    unfold remainingLife
    simp only [h, hrate, Bool.false_eq_true, if_false]
    rw [if_neg (by simpa using hr)]

/-- The three ways a location can stand. -/
theorem remainingLife_cases (row : Survey) :
    row.current.le row.required = true ∨
      (row.current.le row.required = false ∧ row.lost = none) ∨ ∃ r, row.lost = some r := by
  cases h : row.current.le row.required with
  | true => exact .inl rfl
  | false => cases hlost : row.lost with
    | none => exact .inr (.inl ⟨rfl, rfl⟩)
    | some r => exact .inr (.inr ⟨r, rfl⟩)

end FourCE.Calculations
