import FourCE.Library.RegexScan

/-!
# Meanings that agree on a text

Two meanings that agree on the characters of a text find the same matches in it.
-/

namespace FourCE.Library.Regex

variable {C A α : Type} {M N : Meaning C A α}

/-- Every character of the state's text satisfies `P`. -/
def State.In (P : α → Prop) (s : State α) : Prop := (∀ x ∈ s.before, P x) ∧ ∀ x ∈ s.after, P x

theorem State.Reaches.in_ {P : α → Prop} {s t : State α} (h : s.Reaches t) (hs : s.In P) : t.In P := by
  obtain ⟨u, hafter, hbefore⟩ := h
  have hu : ∀ x ∈ u, P x := fun x hx ↦ hs.2 x (by simp [hafter, hx])
  refine ⟨fun x hx ↦ ?_, fun x hx ↦ hs.2 x (by simp [hafter, hx])⟩
  rw [hbefore, List.mem_append, List.mem_reverse] at hx
  rcases hx with hx | hx
  · exact hu x hx
  · exact hs.1 x hx

variable (M N) in
/-- The two meanings cannot be told apart on characters that satisfy `P`. -/
structure AgreeOn (P : α → Prop) : Prop where
  accepts : ∀ c x, P x → M.accepts c x = N.accepts c x
  holds : ∀ a before after, (∀ x ∈ before, P x) → (∀ x ∈ after, P x) →
    M.holds a before after = N.holds a before after

theorem repeats_congr {P : α → Prop} {f g : State α → List (State α)}
    (hfg : ∀ s, s.In P → f s = g s) (hreach : ∀ s, ∀ t ∈ f s, s.Reaches t) (greedy : Bool) (fuel : ℕ) :
    ∀ (least : ℕ) (most : Option ℕ) (s : State α), s.In P →
      repeats f greedy fuel least most s = repeats g greedy fuel least most s := by
  induction fuel with
  | zero => intro least most s _; rfl
  | succ fuel ih =>
    intro least most s hs
    have hmore : again f (repeats f greedy fuel (least - 1) (most.map (· - 1))) least most s =
        again g (repeats g greedy fuel (least - 1) (most.map (· - 1))) least most s := by
      unfold again
      split_ifs
      · rfl
      · rw [← hfg s hs]
        refine List.flatMap_congr fun t ht ↦ ?_
        rw [ih _ _ t ((hreach s t ht).in_ hs)]
    rw [repeats, repeats, hmore]

theorem run_congr {P : α → Prop} (h : AgreeOn M N P) (r : Re C A) :
    ∀ s, s.In P → run M r s = run N r s := by
  induction r with
  | eps => intro s _; rfl
  | char c =>
    intro s hs
    rw [run, run]
    split
    · rfl
    · rename_i x rest hafter
      rw [h.accepts c x (hs.2 x (by simp [hafter]))]
  | test a =>
    intro s hs
    rw [run, run, h.holds a s.before s.after hs.1 hs.2]
  | seq r q ihr ihq =>
    intro s hs
    rw [run, run, ← ihr s hs]
    exact List.flatMap_congr fun t ht ↦ ihq t ((run_reaches r s t ht).in_ hs)
  | alt r q ihr ihq =>
    intro s hs
    rw [run, run, ihr s hs, ihq s hs]
  | rep greedy least most r ih =>
    intro s hs
    rw [run, run]
    exact repeats_congr ih (run_reaches r) greedy _ least most s hs
  | group n r ih =>
    intro s hs
    rw [run, run, ih s hs]

theorem matchAt_congr {P : α → Prop} (h : AgreeOn M N P) (r : Re C A) (must : Bool)
    {before after : List α} (hbefore : ∀ x ∈ before, P x) (hafter : ∀ x ∈ after, P x) :
    matchAt M r must before after = matchAt N r must before after := by
  rw [matchAt, matchAt, run_congr h r _ ⟨hbefore, hafter⟩]

theorem searchFrom_congr {P : α → Prop} (h : AgreeOn M N P) (r : Re C A) {before after : List α}
    (hbefore : ∀ x ∈ before, P x) (hafter : ∀ x ∈ after, P x) :
    searchFrom M r before after = searchFrom N r before after := by
  induction after generalizing before with
  | nil => exact matchAt_congr h r false hbefore hafter
  | cons x rest ih =>
    rw [searchFrom, searchFrom, matchAt_congr h r false hbefore hafter]
    have hx : P x := hafter x List.mem_cons_self
    rw [ih (fun y hy ↦ ?_) fun y hy ↦ hafter y (List.mem_cons_of_mem x hy)]
    rcases List.mem_cons.mp hy with rfl | hy
    · exact hx
    · exact hbefore y hy

theorem search_congr {P : α → Prop} (h : AgreeOn M N P) (r : Re C A) {text : List α}
    (htext : ∀ x ∈ text, P x) : search M r text = search N r text :=
  searchFrom_congr h r (fun _ hx ↦ absurd hx List.not_mem_nil) htext

end FourCE.Library.Regex
