import FourCE.Library.Regex
import Mathlib.Data.List.Forall2

/-!
# What a match cannot see

Runs of a backtracking matcher under a change of the text to the left of everything it reads, and
under an extension of the text to the right.
-/

namespace FourCE.Library.Regex

variable {C A α : Type} {M : Meaning C A α}

/-! ## Progress -/

/-- The later state stands further right in the same text. -/
def State.Reaches (s t : State α) : Prop :=
  ∃ u, s.after = u ++ t.after ∧ t.before = u.reverse ++ s.before

theorem State.Reaches.refl (s : State α) : s.Reaches s := ⟨[], rfl, rfl⟩

theorem State.Reaches.trans {s t v : State α} (hst : s.Reaches t) (htv : t.Reaches v) :
    s.Reaches v := by
  obtain ⟨u, hu, hub⟩ := hst
  obtain ⟨w, hw, hwb⟩ := htv
  exact ⟨u ++ w, by rw [hu, hw, List.append_assoc], by simp [hwb, hub]⟩

theorem State.Reaches.after_le {s t : State α} (h : s.Reaches t) :
    t.after.length ≤ s.after.length := by
  obtain ⟨u, hu, -⟩ := h
  simp [hu]

/-! ## What every step keeps -/

section Steps

variable {R : State α → State α → Prop} (hrefl : ∀ s, R s s)
  (htrans : ∀ s t v, R s t → R t v → R s v)

include htrans

theorem again_of_steps {step next : State α → List (State α)} {least : ℕ} {most : Option ℕ}
    {s t : State α} (hstep : ∀ s, ∀ t ∈ step s, R s t) (hnext : ∀ s, ∀ t ∈ next s, R s t)
    (ht : t ∈ again step next least most s) : R s t := by
  unfold again at ht
  split_ifs at ht
  · exact absurd ht List.not_mem_nil
  · obtain ⟨u, hu, htu⟩ := List.mem_flatMap.mp ht
    split_ifs at htu
    · exact htrans s u t (hstep s u hu) (hnext u t htu)
    · exact absurd htu List.not_mem_nil

include hrefl

theorem repeats_of_steps {step : State α → List (State α)} (greedy : Bool)
    (hstep : ∀ s, ∀ t ∈ step s, R s t) (fuel : ℕ) :
    ∀ (least : ℕ) (most : Option ℕ) (s : State α), ∀ t ∈ repeats step greedy fuel least most s,
      R s t := by
  induction fuel with
  | zero => intro least most s t ht; exact absurd ht List.not_mem_nil
  | succ fuel ih =>
    intro least most s t ht
    have hmore : t ∈ again step (repeats step greedy fuel (least - 1) (most.map (· - 1))) least most s →
        R s t := again_of_steps htrans hstep (ih _ _)
    rw [repeats] at ht
    split_ifs at ht
    · exact hmore ht
    · rcases List.mem_append.mp ht with ht | ht
      · exact hmore ht
      · rw [List.mem_singleton.mp ht]
        exact hrefl s
    · rcases List.mem_cons.mp ht with rfl | ht
      · exact hrefl t
      · exact hmore ht

/-- What holds from one character to the next and survives a capture holds of every run. -/
theorem run_of_steps
    (hchar : ∀ (s : State α) x rest, s.after = x :: rest → R s ⟨x :: s.before, rest, s.groups⟩)
    (hgroup : ∀ n (s t : State α), R s t → R s { t with groups := (n, s.upTo t) :: t.groups })
    (r : Re C A) : ∀ s, ∀ t ∈ run M r s, R s t := by
  induction r with
  | eps =>
    intro s t ht
    rw [List.mem_singleton.mp ht]
    exact hrefl s
  | char c =>
    intro s t ht
    rw [run] at ht
    split at ht
    · exact absurd ht List.not_mem_nil
    · rename_i x rest hafter
      split_ifs at ht
      · rw [List.mem_singleton.mp ht]
        exact hchar s x rest hafter
      · exact absurd ht List.not_mem_nil
  | test a =>
    intro s t ht
    rw [run] at ht
    split_ifs at ht
    · rw [List.mem_singleton.mp ht]
      exact hrefl s
    · exact absurd ht List.not_mem_nil
  | seq r q ihr ihq =>
    intro s t ht
    obtain ⟨u, hu, htu⟩ := List.mem_flatMap.mp ht
    exact htrans s u t (ihr s u hu) (ihq u t htu)
  | alt r q ihr ihq =>
    intro s t ht
    rcases List.mem_append.mp ht with ht | ht
    · exact ihr s t ht
    · exact ihq s t ht
  | rep greedy least most r ih =>
    intro s t ht
    exact repeats_of_steps hrefl htrans greedy ih _ least most s t ht
  | group n r ih =>
    intro s t ht
    obtain ⟨u, hu, rfl⟩ := List.mem_map.mp ht
    exact hgroup n s u (ih s u hu)

end Steps

theorem repeats_reaches {step : State α → List (State α)} (greedy : Bool)
    (hstep : ∀ s, ∀ t ∈ step s, s.Reaches t) (fuel : ℕ) :
    ∀ (least : ℕ) (most : Option ℕ) (s : State α), ∀ t ∈ repeats step greedy fuel least most s,
      s.Reaches t :=
  repeats_of_steps State.Reaches.refl (fun _ _ _ ↦ State.Reaches.trans) greedy hstep fuel

theorem run_reaches (r : Re C A) : ∀ s, ∀ t ∈ run M r s, s.Reaches t :=
  run_of_steps State.Reaches.refl (fun _ _ _ ↦ State.Reaches.trans) (fun _ x _ hafter ↦ ⟨[x], hafter, rfl⟩)
    (fun _ _ _ h ↦ h) r

/-- Everything captured on the way is part of the text that was read. -/
theorem groups_isInfix (r : Re C A) (s : State α) :
    ∀ t ∈ run M r s, ∀ g ∈ t.groups, g ∈ s.groups ∨ g.2 <:+: s.after := by
  intro t ht
  refine (run_of_steps
    (R := fun s t ↦ s.Reaches t ∧ ∀ g ∈ t.groups, g ∈ s.groups ∨ g.2 <:+: s.after)
    (fun s ↦ ⟨.refl s, fun g hg ↦ Or.inl hg⟩) ?_ ?_ ?_ r s t ht).2
  · rintro s t v ⟨hst, hs⟩ ⟨htv, ht⟩
    refine ⟨hst.trans htv, fun g hg ↦ (ht g hg).elim (hs g) fun hlater ↦ Or.inr ?_⟩
    obtain ⟨u, hu, -⟩ := hst
    exact hlater.trans (hu ▸ (List.suffix_append u t.after).isInfix)
  · exact fun s x rest hafter ↦ ⟨⟨[x], hafter, rfl⟩, fun g hg ↦ Or.inl hg⟩
  · rintro n s t ⟨hst, hs⟩
    refine ⟨hst, fun g hg ↦ ?_⟩
    rcases List.mem_cons.mp hg with rfl | hg
    · exact Or.inr (List.take_prefix _ _).isInfix
    · exact hs g hg

/-! ## A change far to the left -/

variable (M) in
/-- No test of the expression can tell `b` from `b'` at the far left. -/
def Blind (b b' : List α) : Re C A → Prop
  | .eps | .char _ => True
  | .test a => ∀ near after, M.holds a (near ++ b) after = M.holds a (near ++ b') after
  | .seq r q | .alt r q => Blind b b' r ∧ Blind b b' q
  | .rep _ _ _ r | .group _ r => Blind b b' r

/-- The two states differ in the far left only. -/
def Shifted (b b' : List α) (s t : State α) : Prop :=
  ∃ near, s.before = near ++ b ∧ t.before = near ++ b' ∧ t.after = s.after ∧ t.groups = s.groups

theorem Shifted.after_eq {b b' : List α} {s t : State α} (h : Shifted b b' s t) :
    t.after = s.after := by
  obtain ⟨-, -, -, hafter, -⟩ := h
  exact hafter

theorem again_shifted {b b' : List α} {step next : State α → List (State α)} (least : ℕ)
    (most : Option ℕ) {s t : State α}
    (hstep : ∀ s t, Shifted b b' s t → List.Forall₂ (Shifted b b') (step s) (step t))
    (hnext : ∀ s t, Shifted b b' s t → List.Forall₂ (Shifted b b') (next s) (next t))
    (hst : Shifted b b' s t) :
    List.Forall₂ (Shifted b b') (again step next least most s) (again step next least most t) := by
  unfold again
  split_ifs
  · exact .nil
  · refine List.rel_flatMap (hstep s t hst) fun u v huv ↦ ?_
    rw [huv.after_eq, hst.after_eq]
    split_ifs
    · exact hnext u v huv
    · exact .nil

theorem repeats_shifted {b b' : List α} {step : State α → List (State α)} (greedy : Bool)
    (hstep : ∀ s t, Shifted b b' s t → List.Forall₂ (Shifted b b') (step s) (step t)) (fuel : ℕ) :
    ∀ (least : ℕ) (most : Option ℕ) (s t : State α), Shifted b b' s t →
      List.Forall₂ (Shifted b b') (repeats step greedy fuel least most s)
        (repeats step greedy fuel least most t) := by
  induction fuel with
  | zero => intro least most s t _; exact .nil
  | succ fuel ih =>
    intro least most s t hst
    have hmore := again_shifted least most hstep (ih (least - 1) (most.map (· - 1))) hst
    rw [repeats, repeats]
    split_ifs
    · exact hmore
    · exact List.rel_append hmore (.cons hst .nil)
    · exact .cons hst hmore

/-- A run does not see what its tests do not see. -/
theorem run_shifted {b b' : List α} (r : Re C A) (hblind : Blind M b b' r) :
    ∀ s t, Shifted b b' s t → List.Forall₂ (Shifted b b') (run M r s) (run M r t) := by
  induction r with
  | eps => intro s t hst; exact .cons hst .nil
  | char c =>
    intro s t hst
    obtain ⟨near, hs, ht, hafter, hgroups⟩ := hst
    rw [run, run, hafter]
    split
    · exact .nil
    · rename_i x rest _
      split_ifs
      · exact .cons ⟨x :: near, by simp [hs], by simp [ht], rfl, hgroups⟩ .nil
      · exact .nil
  | test a =>
    intro s t hst
    have hholds : M.holds a t.before t.after = M.holds a s.before s.after := by
      obtain ⟨near, hs, ht, hafter, -⟩ := hst
      rw [hs, ht, hafter]
      exact (hblind near s.after).symm
    rw [run, run, hholds]
    split_ifs
    · exact .cons hst .nil
    · exact .nil
  | seq r q ihr ihq =>
    intro s t hst
    exact List.rel_flatMap (ihr hblind.1 s t hst) (ihq hblind.2)
  | alt r q ihr ihq =>
    intro s t hst
    exact List.rel_append (ihr hblind.1 s t hst) (ihq hblind.2 s t hst)
  | rep greedy least most r ih =>
    intro s t hst
    rw [run, run, hst.after_eq]
    exact repeats_shifted greedy (ih hblind) _ least most s t hst
  | group n r ih =>
    intro s t hst
    refine List.rel_map (fun u v huv ↦ ?_) (ih hblind s t hst)
    obtain ⟨near, hu, hv, hafter, hgroups⟩ := huv
    exact ⟨near, hu, hv, hafter, by simp [State.upTo, hst.after_eq, hafter, hgroups]⟩

/-- The two matches read the same text and differ in the far left only. -/
structure ShiftedFound (b b' : List α) (m n : Found α) : Prop where
  before : ∃ near, m.before = near ++ b ∧ n.before = near ++ b'
  text : n.text = m.text
  stop : Shifted b b' m.stop n.stop

theorem head?_rel {β γ : Type} {R : β → γ → Prop} {xs : List β} {ys : List γ}
    (h : List.Forall₂ R xs ys) : Option.Rel R xs.head? ys.head? := by
  cases h with
  | nil => exact .none
  | cons hxy _ => exact .some hxy

theorem matchAt_shifted {b b' : List α} {r : Re C A} (hblind : Blind M b b' r) (must : Bool)
    (near after : List α) :
    Option.Rel (ShiftedFound b b') (matchAt M r must (near ++ b) after)
      (matchAt M r must (near ++ b') after) := by
  have hrun := run_shifted r hblind ⟨near ++ b, after, []⟩ ⟨near ++ b', after, []⟩
    ⟨near, rfl, rfl, rfl, rfl⟩
  have hfilter := List.rel_filter (p := fun t ↦ !must || t.after.length < after.length)
    (q := fun t ↦ !must || t.after.length < after.length)
    (fun u v huv ↦ by simp only [huv.after_eq]) hrun
  have hhead := head?_rel hfilter
  unfold matchAt
  revert hhead
  generalize List.head? _ = x
  generalize List.head? _ = y
  intro hhead
  cases hhead with
  | none => exact .none
  | some huv => exact .some ⟨⟨near, rfl, rfl⟩, by simp only [huv.after_eq], huv⟩

theorem matchAt_before {r : Re C A} {must : Bool} {before after : List α} {m : Found α}
    (h : matchAt M r must before after = some m) : m.before = before := by
  unfold matchAt at h
  obtain ⟨t, -, rfl⟩ := Option.map_eq_some_iff.mp h
  rfl

end FourCE.Library.Regex
