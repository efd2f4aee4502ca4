import FourCE.Library.Keyed
import FourCE.Python.Dict
import FourCE.Python.Object

/-!
# Usage of models

`normalize_usage` and `merge_usage` of `utils/response.py`.  A usage that is not there and one that holds
nothing are told apart nowhere, and an operation that raises is `none`.
-/

namespace FourCE.Usage

open FourCE.Library FourCE.Python

/-- What is asked of the interpreter about numbers: sums of floats and the integers of floats and texts. -/
class Arithmetic (F : Type) extends Runtime F where
  ofInt : ℤ → F
  add : F → F → F
  toInt : F → Option ℤ
  parseInt : PyStr → Option ℤ

variable {F : Type} [Arithmetic F]

abbrev Payload (F : Type) := Keyed PyStr (Json F)

/-- `int(x)`. -/
def pyInt : Json F → Option ℤ
  | .bool b => some (if b then 1 else 0)
  | .int i => some i
  | .float x => Arithmetic.toInt x
  | .str s => Arithmetic.parseInt F s
  | .null | .arr _ | .obj _ => none

/-- `_is_numeric_usage_value(value)`. -/
def isNumericUsageValue : Json F → Bool
  | .int _ | .float _ => true
  | .null | .bool _ | .str _ | .arr _ | .obj _ => false

/-- The value where it is numeric, and zero where it is not. -/
def numeric (x : Json F) : Json F := if isNumericUsageValue x then x else .int 0

/-- The sum of two numeric values. -/
def sumNumeric : Json F → Json F → Json F
  | .int i, .int j => .int (i + j)
  | .int i, .float y => .float (Arithmetic.add (Arithmetic.ofInt i) y)
  | .float x, .int j => .float (Arithmetic.add x (Arithmetic.ofInt j))
  | .float x, .float y => .float (Arithmetic.add x y)
  | x, _ => x

/-- `x + y`, where it gives something that `int` takes. -/
def pyAdd : Json F → Json F → Option (Json F)
  | .str s, .str t => some (.str (s ++ t))
  | .bool b, y => pyAddInt (if b then 1 else 0) y
  | .int i, y => pyAddInt i y
  | .float x, .bool b => some (.float (Arithmetic.add x (Arithmetic.ofInt (if b then 1 else 0))))
  | .float x, .int j => some (sumNumeric (.float x) (.int j))
  | .float x, .float y => some (sumNumeric (.float x) (.float y))
  | _, _ => none
where
  pyAddInt (i : ℤ) : Json F → Option (Json F)
    | .bool b => some (.int (i + if b then 1 else 0))
    | .int j => some (.int (i + j))
    | .float y => some (sumNumeric (.int i) (.float y))
    | _ => none

/-- `usage.get(key)`. -/
def field (usage : Payload F) (key : PyStr) : Json F := (usage.get? key).getD .null

/-- The input tokens under one of their names. -/
def inputTokens (usage : Payload F) : Option (Json F) :=
  match (field usage (py "input_tokens")).orElse
      ((field usage (py "prompt_tokens")).orElse (field usage (py "prompt_eval_count"))) with
  | .null => do
    let prompt ← pyInt ((field usage (py "prompt_n")).orElse (.int 0))
    let cache ← pyInt ((field usage (py "cache_n")).orElse (.int 0))
    return .int (prompt + cache)
  | tokens => some tokens

def outputTokens (usage : Payload F) : Json F :=
  (field usage (py "output_tokens")).orElse ((field usage (py "completion_tokens")).orElse
    ((field usage (py "eval_count")).orElse ((field usage (py "predicted_n")).orElse (.int 0))))

/-- `normalize_usage(usage)`. -/
def normalizeUsage (usage : Payload F) : Option (Payload F) :=
  if usage.keys.isEmpty then some .empty
  else do
    let input ← inputTokens usage
    let output := outputTokens usage
    let total ← if (field usage (py "total_tokens")).truth then some (field usage (py "total_tokens"))
      else pyAdd input output
    return ((usage.set (py "input_tokens") (.int (← pyInt input))).set (py "output_tokens")
      (.int (← pyInt output))).set (py "total_tokens") (.int (← pyInt total))

/-- `USAGE_TOKEN_KEYS` -/
def usageTokenKeys : List PyStr := [py "input_tokens", py "output_tokens", py "total_tokens"]

/-- `USAGE_COST_KEYS` -/
def usageCostKeys : List PyStr :=
  [py "cost", py "total_cost", py "input_cost", py "output_cost", py "prompt_cost", py "completion_cost"]

/-- `USAGE_SUMMABLE_KEYS` -/
def usageSummableKeys : List PyStr := usageTokenKeys ++ usageCostKeys

/-- `USAGE_DETAIL_KEYS` -/
def usageDetailKeys : List PyStr :=
  [py "prompt_tokens_details", py "completion_tokens_details", py "input_tokens_details",
    py "output_tokens_details"]

/-- The dictionary that a value is, or an empty one. -/
def members : Json F → Dict F
  | .obj d => d
  | _ => []

def isDict : Json F → Bool
  | .obj _ => true
  | _ => false

omit [Arithmetic F] in
theorem sizeOf_members_getD (d : Dict F) (key : PyStr) :
    (isDict ((dictGet d key).getD (.int 0)) = true →
      sizeOf (members ((dictGet d key).getD (.int 0))) < sizeOf d) ∧
    sizeOf (members ((dictGet d key).getD (.int 0))) ≤ sizeOf d := by
  rcases hget : dictGet d key with - | v
  · refine ⟨nofun, ?_⟩
    cases d <;> simp [members] <;> omega
  · rw [Option.getD_some]
    obtain ⟨p, hp, rfl⟩ := Option.map_eq_some_iff.mp hget
    have hmem := List.sizeOf_lt_of_mem (List.mem_of_find?_eq_some hp)
    obtain ⟨k, v⟩ := p
    have hpair : sizeOf (k, v) = 1 + sizeOf k + sizeOf v := rfl
    cases v with
    | obj e =>
      have hobj := Json.obj.sizeOf_spec e
      have hlt : sizeOf e < sizeOf d := by simp only at *; omega
      exact ⟨fun _ ↦ hlt, hlt.le⟩
    | _ =>
      refine ⟨nofun, ?_⟩
      cases d <;> simp [members] <;> omega

/-- `_merge_numeric_usage_map(current, incoming)`. -/
def mergeNumericUsageMap (current incoming : Dict F) : Dict F :=
  (dictUpdate current incoming).map fun (key, value) ↦
    if _h : isDict ((dictGet current key).getD (.int 0)) = true ∨ isDict ((dictGet incoming key).getD (.int 0)) = true then
      (key, .obj (mergeNumericUsageMap (members ((dictGet current key).getD (.int 0)))
        (members ((dictGet incoming key).getD (.int 0)))))
    else if isNumericUsageValue ((dictGet current key).getD (.int 0)) ||
        isNumericUsageValue ((dictGet incoming key).getD (.int 0)) then
      (key, sumNumeric (numeric ((dictGet current key).getD (.int 0))) (numeric ((dictGet incoming key).getD (.int 0))))
    else (key, value)
termination_by sizeOf current + sizeOf incoming
decreasing_by
  obtain ⟨hc, hc'⟩ := sizeOf_members_getD current key
  obtain ⟨hi, hi'⟩ := sizeOf_members_getD incoming key
  rcases _h with hdict | hdict
  · have hless := hc hdict
    omega
  · have hless := hi hdict
    omega

/-- The sum under one of the summable keys. -/
def sumKey (current incoming result : Payload F) (key : PyStr) : Payload F :=
  if key ∈ current.keys ∨ key ∈ incoming.keys then
    let currentValue := (current.get? key).getD (.int 0)
    let incomingValue := (incoming.get? key).getD (.int 0)
    if isNumericUsageValue currentValue || isNumericUsageValue incomingValue then
      result.set key (sumNumeric (numeric currentValue) (numeric incomingValue))
    else result
  else result

/-- The details under one of their keys. -/
def mergeDetails (current incoming result : Payload F) (key : PyStr) : Payload F :=
  if isDict (field current key) || isDict (field incoming key) then
    result.set key (.obj (mergeNumericUsageMap (members (field current key)) (members (field incoming key))))
  else result

/-- `merge_usage` of two usages that are normalised and not empty. -/
def combine (current incoming : Payload F) : Payload F :=
  let result := usageSummableKeys.foldl (sumKey current incoming) (current.union incoming)
  let result := usageDetailKeys.foldl (mergeDetails current incoming) result
  (result.set (py "prompt_tokens") ((field incoming (py "prompt_tokens")).orElse
    ((field incoming (py "input_tokens")).orElse ((current.get? (py "prompt_tokens")).getD (.int 0))))).set
    (py "completion_tokens") ((field incoming (py "completion_tokens")).orElse
      ((field incoming (py "output_tokens")).orElse ((current.get? (py "completion_tokens")).getD (.int 0))))

/-- `merge_usage(current, incoming)`. -/
def mergeUsage (current incoming : Payload F) : Option (Payload F) := do
  let currentUsage ← normalizeUsage current
  let incomingUsage ← normalizeUsage incoming
  if incomingUsage.keys.isEmpty then return currentUsage
  else if currentUsage.keys.isEmpty then return incomingUsage
  else return combine currentUsage incomingUsage

end FourCE.Usage
