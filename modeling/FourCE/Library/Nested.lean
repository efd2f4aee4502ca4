import Mathlib.Data.List.Basic
import Mathlib.Data.List.Nodup
import Mathlib.Tactic.Common

/-!
# Nested dictionaries

Trees of dictionaries with values at their leaves.  A path of keys leads to what a tree holds there; what can be
seen without going on is a value, a dictionary with nothing in it, or one with something.
-/

namespace FourCE.Library

inductive Nested (K V : Type) where
  | leaf (value : V)
  | node (items : List (K × Nested K V))

namespace Nested

variable {K V : Type}

/-- What is seen of a tree from above. -/
inductive View (V : Type) where
  | leaf (value : V)
  | empty
  | full
  deriving DecidableEq, Repr

def view : Nested K V → View V
  | .leaf v => .leaf v
  | .node [] => .empty
  | .node (_ :: _) => .full

/-- No dictionary has a key twice. -/
inductive WF : Nested K V → Prop where
  | leaf (v : V) : WF (.leaf v)
  | node {items : List (K × Nested K V)} (keys : (items.map Prod.fst).Nodup) (below : ∀ e ∈ items, WF e.2) :
      WF (.node items)

theorem WF.nodup {items : List (K × Nested K V)} (h : WF (.node items)) : (items.map Prod.fst).Nodup := by
  cases h with
  | node keys _ => exact keys

theorem WF.of_mem {items : List (K × Nested K V)} (h : WF (.node items)) {e : K × Nested K V} (he : e ∈ items) :
    WF e.2 := by
  cases h with
  | node _ below => exact below e he

theorem WF.tail {e : K × Nested K V} {items : List (K × Nested K V)} (h : WF (.node (e :: items))) :
    WF (.node items) :=
  .node (List.nodup_cons.mp h.nodup).2 fun _ he ↦ h.of_mem (List.mem_cons_of_mem e he)

/-- A dictionary of values. -/
theorem WF.flat {items : List (K × V)} (h : (items.map Prod.fst).Nodup) :
    WF (.node (items.map fun e ↦ (e.1, .leaf e.2))) := by
  refine .node (by rwa [List.map_map]) fun e he ↦ ?_
  obtain ⟨e', -, rfl⟩ := List.mem_map.mp he
  exact .leaf _

variable [DecidableEq K]

/-- What is under a key. -/
def item? (k : K) : List (K × Nested K V) → Option (Nested K V)
  | [] => none
  | e :: items => if e.1 = k then some e.2 else item? k items

/-- What a path leads to. -/
def get? : Nested K V → List K → Option (Nested K V)
  | t, [] => some t
  | .leaf _, _ :: _ => none
  | .node items, k :: path => (item? k items).bind fun below ↦ below.get? path

@[simp]
theorem get?_leaf (v : V) (k : K) (path : List K) : (leaf v).get? (k :: path) = none := rfl

theorem get?_node (items : List (K × Nested K V)) (k : K) (path : List K) :
    (node items).get? (k :: path) = (item? k items).bind fun below ↦ below.get? path := rfl

/-- What is seen at a path. -/
def look (t : Nested K V) (path : List K) : Option (View V) := (t.get? path).map view

/-- `items[k] = v`. -/
def put (k : K) (v : Nested K V) : List (K × Nested K V) → List (K × Nested K V)
  | [] => [(k, v)]
  | e :: items => if e.1 = k then (k, v) :: items else e :: put k v items

end Nested

end FourCE.Library
