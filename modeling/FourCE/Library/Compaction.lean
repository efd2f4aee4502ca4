import Mathlib.Algebra.BigOperators.Group.List.Basic

/-!
# Logs whose oldest entries are squashed

A log holds entries in the order they came.  Squashing replaces a run of entries by one that stands
for all of them.  What a log holds is the sequence of entries that were put into it, each by itself or
within a squashed one.
-/

namespace FourCE.Library

variable {U : Type}

/-- The entries of a log hold a history, each its own part of it, in order. -/
inductive Holds (squash : List U → U) : List U → List U → Prop
  | nil : Holds squash [] []
  | entry (u : U) {entries history : List U} (h : Holds squash entries history) :
      Holds squash (u :: entries) (u :: history)
  | squashed {part early entries history : List U} (hpart : Holds squash part early)
      (h : Holds squash entries history) : Holds squash (squash part :: entries) (early ++ history)

namespace Holds

variable {squash : List U → U}

theorem append {entries entries' history history' : List U} (h : Holds squash entries history)
    (h' : Holds squash entries' history') : Holds squash (entries ++ entries') (history ++ history') := by
  induction h with
  | nil => exact h'
  | entry u _ ih => exact .entry u ih
  | squashed hpart _ _ ih =>
    rw [List.append_assoc]
    exact .squashed hpart ih

/-- Entries that were only ever put in hold themselves. -/
theorem self (entries : List U) : Holds squash entries entries := by
  induction entries with
  | nil => exact .nil
  | cons u entries ih => exact .entry u ih

theorem push {entries history : List U} (h : Holds squash entries history) (u : U) :
    Holds squash (entries ++ [u]) (history ++ [u]) := h.append (self [u])

/-- A log cut in two holds a history cut in two. -/
theorem split {entries entries' history : List U} (h : Holds squash (entries ++ entries') history) :
    ∃ early late, history = early ++ late ∧ Holds squash entries early ∧
      Holds squash entries' late := by
  induction entries generalizing history with
  | nil => exact ⟨[], history, rfl, .nil, h⟩
  | cons u entries ih =>
    cases h with
    | entry _ h =>
      obtain ⟨early, late, rfl, hearly, hlate⟩ := ih h
      exact ⟨u :: early, late, rfl, .entry u hearly, hlate⟩
    | squashed hpart h =>
      obtain ⟨early, late, rfl, hearly, hlate⟩ := ih h
      exact ⟨_, late, (List.append_assoc ..).symm, .squashed hpart hearly, hlate⟩

/-- Squashing the first `n` entries keeps what the log holds. -/
theorem compact {entries history : List U} (h : Holds squash entries history) (n : ℕ) :
    Holds squash (squash (entries.take n) :: entries.drop n) history := by
  rw [← List.take_append_drop n entries] at h
  obtain ⟨early, late, rfl, hearly, hlate⟩ := h.split
  exact .squashed hearly hlate

/-- A log holds the contents of its history, where squashing adds contents up. -/
theorem sum_content {M : Type} [AddMonoid M] (content : U → M)
    (hsquash : ∀ us, content (squash us) = (us.map content).sum) {entries history : List U}
    (h : Holds squash entries history) : (entries.map content).sum = (history.map content).sum := by
  induction h with
  | nil => rfl
  | entry u _ ih => rw [List.map_cons, List.map_cons, List.sum_cons, List.sum_cons, ih]
  | squashed _ _ ihpart ih =>
    rw [List.map_cons, List.sum_cons, hsquash, ihpart, ih, List.map_append, List.sum_append]

end Holds

end FourCE.Library
