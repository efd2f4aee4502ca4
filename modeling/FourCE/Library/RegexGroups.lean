import FourCE.Library.RegexRuns

/-!
# Captures do not matter

Where a run can go does not depend on what has been captured before it.
-/

namespace FourCE.Library.Regex

variable {C A α : Type} {M : Meaning C A α}

/-- The two states are at the same place in the same text. -/
def SamePlace (s t : State α) : Prop := t.before = s.before ∧ t.after = s.after

theorem again_samePlace {step next : State α → List (State α)} (least : ℕ) (most : Option ℕ) {s t : State α}
    (hstep : ∀ s t, SamePlace s t → List.Forall₂ SamePlace (step s) (step t))
    (hnext : ∀ s t, SamePlace s t → List.Forall₂ SamePlace (next s) (next t)) (hst : SamePlace s t) :
    List.Forall₂ SamePlace (again step next least most s) (again step next least most t) := by
  unfold again
  split_ifs
  · exact .nil
  · refine List.rel_flatMap (hstep s t hst) fun u v huv ↦ ?_
    rw [huv.2, hst.2]
    split_ifs
    · exact hnext u v huv
    · exact .nil

theorem repeats_samePlace {step : State α → List (State α)} (greedy : Bool)
    (hstep : ∀ s t, SamePlace s t → List.Forall₂ SamePlace (step s) (step t)) (fuel : ℕ) :
    ∀ (least : ℕ) (most : Option ℕ) (s t : State α), SamePlace s t →
      List.Forall₂ SamePlace (repeats step greedy fuel least most s) (repeats step greedy fuel least most t) := by
  induction fuel with
  | zero => intro least most s t _; exact .nil
  | succ fuel ih =>
    intro least most s t hst
    have hmore := again_samePlace least most hstep (ih (least - 1) (most.map (· - 1))) hst
    rw [repeats, repeats]
    split_ifs
    · exact hmore
    · exact List.rel_append hmore (.cons hst .nil)
    · exact .cons hst hmore

theorem run_samePlace (r : Re C A) :
    ∀ s t, SamePlace s t → List.Forall₂ SamePlace (run M r s) (run M r t) := by
  induction r with
  | eps => intro s t hst; exact .cons hst .nil
  | char c =>
    intro s t hst
    rw [run, run, hst.2]
    split
    · exact .nil
    · rename_i x rest _
      split_ifs
      · exact .cons ⟨congrArg (x :: ·) hst.1, rfl⟩ .nil
      · exact .nil
  | test a =>
    intro s t hst
    rw [run, run, hst.1, hst.2]
    split_ifs
    · exact .cons hst .nil
    · exact .nil
  | seq r q ihr ihq =>
    intro s t hst
    exact List.rel_flatMap (ihr s t hst) ihq
  | alt r q ihr ihq =>
    intro s t hst
    exact List.rel_append (ihr s t hst) (ihq s t hst)
  | rep greedy least most r ih =>
    intro s t hst
    rw [run, run, hst.2]
    exact repeats_samePlace greedy ih _ least most s t hst
  | group n r ih =>
    intro s t hst
    rw [run, run, List.forall₂_map_left_iff, List.forall₂_map_right_iff]
    exact (ih s t hst).imp fun u v huv ↦ huv

/-- What can be read from a place can be read from it with other captures. -/
theorem exists_run_samePlace {r : Re C A} {s t u : State α} (hu : u ∈ run M r s) (hst : SamePlace s t) :
    ∃ v ∈ run M r t, SamePlace u v := by
  obtain ⟨i, hi, rfl⟩ := List.mem_iff_getElem.mp hu
  have hrel := run_samePlace (M := M) r s t hst
  have hi' : i < (run M r t).length := hrel.length_eq ▸ hi
  exact ⟨_, List.getElem_mem hi', hrel.get hi hi'⟩

/-- No group is captured. -/
def captureless : Re C A → Bool
  | .eps | .char _ | .test _ => true
  | .seq r q | .alt r q => captureless r && captureless q
  | .rep _ _ _ r => captureless r
  | .group _ _ => false

theorem repeats_captureless {step : State α → List (State α)} (greedy : Bool)
    (hstep : ∀ s, ∀ t ∈ step s, t.groups = s.groups) (fuel : ℕ) :
    ∀ (least : ℕ) (most : Option ℕ) (s : State α), ∀ t ∈ repeats step greedy fuel least most s,
      t.groups = s.groups := by
  induction fuel with
  | zero => intro least most s t ht; cases ht
  | succ fuel ih =>
    intro least most s t ht
    have hmore : t ∈ again step (repeats step greedy fuel (least - 1) (most.map (· - 1))) least most s →
        t.groups = s.groups := by
      intro hagain
      rw [again] at hagain
      split_ifs at hagain
      · cases hagain
      · obtain ⟨u, hu, htu⟩ := List.mem_flatMap.mp hagain
        split_ifs at htu
        · exact (ih _ _ u t htu).trans (hstep s u hu)
        · cases htu
    rw [repeats] at ht
    split_ifs at ht
    · exact hmore ht
    · rcases List.mem_append.mp ht with ht | ht
      · exact hmore ht
      · rw [List.mem_singleton.mp ht]
    · rcases List.mem_cons.mp ht with rfl | ht
      · rfl
      · exact hmore ht

theorem run_captureless {r : Re C A} (h : captureless r = true) :
    ∀ s, ∀ t ∈ run M r s, t.groups = s.groups := by
  induction r with
  | eps => exact fun s t ht ↦ by rw [mem_run_eps.mp ht]
  | char c =>
    intro s t ht
    obtain ⟨x, rest, -, -, rfl⟩ := mem_run_char.mp ht
    rfl
  | test a => exact fun s t ht ↦ by rw [(mem_run_test.mp ht).2]
  | seq r q ihr ihq =>
    rw [captureless, Bool.and_eq_true] at h
    intro s t ht
    obtain ⟨u, hu, htu⟩ := mem_run_seq.mp ht
    exact (ihq h.2 u t htu).trans (ihr h.1 s u hu)
  | alt r q ihr ihq =>
    rw [captureless, Bool.and_eq_true] at h
    intro s t ht
    exact (mem_run_alt.mp ht).elim (ihr h.1 s t) (ihq h.2 s t)
  | rep greedy least most r ih => exact fun s t ht ↦ repeats_captureless greedy (ih h) _ least most s t ht
  | group n r => cases h

end FourCE.Library.Regex
