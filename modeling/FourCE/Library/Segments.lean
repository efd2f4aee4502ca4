import Mathlib.Data.List.Basic
import Mathlib.Tactic.Common

/-!
# Segments of a sequence

A sequence that is read piece by piece consists of the segments that a separator has ended, and of a rest
that is still open.  What arrives next goes on from the rest alone.
-/

namespace FourCE.Library

variable {α : Type} [DecidableEq α]

/-- The segments that the separator has ended. -/
def ended (sep : α) (s : List α) : List (List α) := (s.splitOn sep).dropLast

/-- What stands behind the last separator. -/
def openRest (sep : α) (s : List α) : List α := (s.splitOn sep).getLast (List.splitOn_ne_nil sep s)

variable {sep : α}

theorem ended_of_notMem {s : List α} (hs : sep ∉ s) : ended sep s = [] := by
  rw [ended, List.splitOn_eq_singleton hs]
  rfl

theorem openRest_of_notMem {s : List α} (hs : sep ∉ s) : openRest sep s = s := by
  unfold openRest
  simp only [List.splitOn_eq_singleton hs, List.getLast_singleton]

theorem ended_append_cons (s t : List α) : ended sep (s ++ sep :: t) = s.splitOn sep ++ ended sep t := by
  rw [ended, List.splitOn_append_cons_self, List.dropLast_append_of_ne_nil (List.splitOn_ne_nil sep t)]
  rfl

theorem openRest_append_cons (s t : List α) : openRest sep (s ++ sep :: t) = openRest sep t := by
  unfold openRest
  simp only [List.splitOn_append_cons_self]
  exact List.getLast_append_of_ne_nil _ (List.splitOn_ne_nil sep t)

/-- A sequence with a separator goes up to the last of them. -/
theorem exists_last {s : List α} (hs : sep ∈ s) : ∃ t u, s = t ++ sep :: u ∧ sep ∉ u := by
  induction s with
  | nil => exact absurd hs List.not_mem_nil
  | cons a s ih =>
    by_cases hmem : sep ∈ s
    · obtain ⟨t, u, rfl, hu⟩ := ih hmem
      exact ⟨a :: t, u, rfl, hu⟩
    · obtain rfl : sep = a := (List.mem_cons.mp hs).resolve_right hmem
      exact ⟨[], s, rfl, hmem⟩

theorem notMem_openRest (s : List α) : sep ∉ openRest sep s := by
  by_cases hs : sep ∈ s
  · obtain ⟨t, u, rfl, hu⟩ := exists_last hs
    rwa [openRest_append_cons, openRest_of_notMem hu]
  · rwa [openRest_of_notMem hs]

/-- What follows ends the segment that was open, and then its own. -/
theorem ended_append (s t : List α) :
    ended sep (s ++ t) = ended sep s ++ ended sep (openRest sep s ++ t) := by
  by_cases hs : sep ∈ s
  · obtain ⟨u, v, rfl, hv⟩ := exists_last hs
    rw [List.append_assoc, List.cons_append, ended_append_cons, ended_append_cons, openRest_append_cons,
      ended_of_notMem hv, openRest_of_notMem hv, List.append_nil]
  · rw [ended_of_notMem hs, openRest_of_notMem hs, List.nil_append]

theorem openRest_append (s t : List α) : openRest sep (s ++ t) = openRest sep (openRest sep s ++ t) := by
  by_cases hs : sep ∈ s
  · obtain ⟨u, v, rfl, hv⟩ := exists_last hs
    rw [List.append_assoc, List.cons_append, openRest_append_cons, openRest_append_cons, openRest_of_notMem hv]
  · rw [openRest_of_notMem hs]

/-- The first segment that ends goes on from what was open, and the others stand alone. -/
theorem ended_of_mem {s : List α} (hs : sep ∈ s) : ∃ segment segments,
    ∀ t, sep ∉ t → ended sep (t ++ s) = (t ++ segment) :: segments ∧ openRest sep (t ++ s) = openRest sep s := by
  obtain ⟨u, v, rfl, hu⟩ := List.eq_append_cons_of_mem hs
  refine ⟨u, ended sep v, fun t ht ↦ ⟨?_, ?_⟩⟩
  · have htu : sep ∉ t ++ u := by
      rw [List.mem_append]
      exact not_or.mpr ⟨ht, hu⟩
    rw [← List.append_assoc, ended_append_cons, List.splitOn_eq_singleton htu, List.singleton_append]
  · rw [← List.append_assoc, openRest_append_cons, openRest_append_cons]

end FourCE.Library
