import FourCE.Calibration.Values
import FourCE.Python.ReClasses
import FourCE.Python.ReCuts

/-!
# White space put together

What `re.sub(r"\s+", new, text)` makes of a text, stretch by stretch.
-/

namespace FourCE.Calibration

open FourCE.Library.Regex FourCE.Python

variable [Unicode]

theorem whiteSpace_eq : whiteSpace = .seq (.rep true 1 none (.char whiteClass)) .eps := by
  rw [whiteSpace, re]
  decide

theorem plain_whiteSpace : Plain whiteSpace := by
  constructor <;> rw [whiteSpace_eq] <;> rfl

/-- No white space stands here. -/
def Black (s : PyStr) : Prop := ∀ c ∈ s, isWhite c = false

theorem Black.append {s t : PyStr} (hs : Black s) (ht : Black t) : Black (s ++ t) := fun c hc ↦
  (List.mem_append.mp hc).elim (hs c) (ht c)

theorem readAt_whiteSpace {u w : PyStr} (hu : White u) (hne : u ≠ []) (hw : ∀ c ∈ w.head?, isWhite c = false) :
    readAt sre whiteSpace (u ++ w) = some ⟨u, []⟩ := by
  have hfirst : first sre whiteSpace ⟨[], u ++ w, []⟩ = some ⟨u.reverse, w, []⟩ := by
    rw [whiteSpace_eq]
    refine first_seq_of (@first_rep_least _ _ _ _ _ _ _ u w rfl (List.length_pos_iff.mpr hne) ?_ ?_) ?_
    · exact fun c hc ↦ (whiteClass_accepts c).trans (hu c hc)
    · rintro c more rfl
      exact (whiteClass_accepts c).trans (hw c rfl)
    · simp [first_eps, State.past]
  rw [readAt_eq_first, hfirst]
  simp

theorem readAt_whiteSpace_none {c : CodePoint} (hc : isWhite c = false) (s : PyStr) :
    readAt sre whiteSpace (c :: s) = none := by
  rw [readAt_eq_none_iff, whiteSpace_eq, List.eq_nil_iff_forall_not_mem]
  intro t ht
  obtain ⟨u, hu, -⟩ := mem_run_seq.mp ht
  obtain ⟨v, rest, hafter, hv, hone, -, -⟩ := mem_run_rep_char.mp hu
  cases v with
  | nil => exact absurd hone (by decide)
  | cons d v =>
    obtain ⟨rfl, -⟩ := List.cons_eq_cons.mp hafter
    have hwhite := hv c List.mem_cons_self
    rw [whiteClass_accepts, hc] at hwhite
    cases hwhite

theorem squeeze_nil (new : PyStr) : squeeze new [] = [] := plain_whiteSpace.reSub_nil (f := fun _ ↦ new) fun _ ↦ rfl

theorem squeeze_cons {c : CodePoint} (hc : isWhite c = false) (new s : PyStr) :
    squeeze new (c :: s) = c :: squeeze new s :=
  plain_whiteSpace.reSub_skip (f := fun _ ↦ new) (fun _ ↦ rfl) (readAt_whiteSpace_none hc s)

theorem squeeze_black {u : PyStr} (hu : Black u) (new s : PyStr) : squeeze new (u ++ s) = u ++ squeeze new s := by
  induction u with
  | nil => rfl
  | cons c u ih =>
    rw [List.cons_append, squeeze_cons (hu c List.mem_cons_self),
      ih fun d hd ↦ hu d (List.mem_cons_of_mem c hd)]
    rfl

theorem squeeze_white {u w : PyStr} (hu : White u) (hne : u ≠ []) (hw : ∀ c ∈ w.head?, isWhite c = false)
    (new : PyStr) : squeeze new (u ++ w) = new ++ squeeze new w :=
  plain_whiteSpace.reSub_hit (x := ⟨u, []⟩) (f := fun _ ↦ new) (fun _ ↦ rfl) (readAt_whiteSpace hu hne hw)

theorem squeeze_of_black {s : PyStr} (hs : Black s) (new : PyStr) : squeeze new s = s := by
  have h := squeeze_black hs new []
  rwa [squeeze_nil, List.append_nil] at h

/-- What is left of a text is not white, and the rest is what was put in. -/
theorem mem_squeeze {new s : PyStr} {c : CodePoint} (h : c ∈ squeeze new s) :
    c ∈ new ∨ c ∈ s ∧ isWhite c = false := by
  induction hn : s.length using Nat.strong_induction_on generalizing s with
  | h n ih =>
    cases s with
    | nil =>
      rw [squeeze_nil] at h
      cases h
    | cons d s =>
      cases hd : isWhite d with
      | false =>
        rw [squeeze_cons hd] at h
        rcases List.mem_cons.mp h with rfl | h
        · exact Or.inr ⟨List.mem_cons_self, hd⟩
        · exact (ih s.length (by rw [← hn]; exact Nat.lt_succ_self _) h rfl).imp_right
            fun hc ↦ ⟨List.mem_cons_of_mem d hc.1, hc.2⟩
      | true =>
        -- A stretch of white space goes as a whole, so the rest is shorter by one character at least.
        have hcut : d :: s = (d :: s.takeWhile isWhite) ++ s.dropWhile isWhite := by
          rw [List.cons_append, List.takeWhile_append_dropWhile]
        have hwhite : White (d :: s.takeWhile isWhite) :=
          List.forall_mem_cons.mpr ⟨hd, fun x hx ↦ white_of_mem_takeWhile hx⟩
        rw [hcut, squeeze_white hwhite (List.cons_ne_nil _ _) (head?_dropWhile_isWhite s)] at h
        have hshort : (s.dropWhile isWhite).length < n := by
          rw [← hn]
          exact Nat.lt_succ_of_le (List.dropWhile_sublist isWhite).length_le
        rcases List.mem_append.mp h with h | h
        · exact Or.inl h
        · exact (ih _ hshort h rfl).imp_right fun hc ↦
            ⟨List.mem_cons_of_mem d ((List.dropWhile_sublist isWhite).subset hc.1), hc.2⟩

/-- With nothing in place of white space what is not white is left. -/
theorem squeeze_empty (s : PyStr) : squeeze [] s = visible s := by
  induction hn : s.length using Nat.strong_induction_on generalizing s with
  | h n ih =>
    cases s with
    | nil => exact squeeze_nil []
    | cons d s =>
      cases hd : isWhite d with
      | false =>
        rw [squeeze_cons hd, ih s.length (by rw [← hn]; exact Nat.lt_succ_self _) s rfl]
        simp [visible, hd]
      | true =>
        have hcut : d :: s = (d :: s.takeWhile isWhite) ++ s.dropWhile isWhite := by
          rw [List.cons_append, List.takeWhile_append_dropWhile]
        have hwhite : White (d :: s.takeWhile isWhite) :=
          List.forall_mem_cons.mpr ⟨hd, fun x hx ↦ white_of_mem_takeWhile hx⟩
        have hshort : (s.dropWhile isWhite).length < n := by
          rw [← hn]
          exact Nat.lt_succ_of_le (List.dropWhile_sublist isWhite).length_le
        rw [hcut, squeeze_white hwhite (List.cons_ne_nil _ _) (head?_dropWhile_isWhite s), List.nil_append,
          ih _ hshort _ rfl, visible_append, visible_eq_nil hwhite, List.nil_append]

end FourCE.Calibration
