import FourCE.Orchestrator.Draft
import FourCE.Python.ReClasses
import FourCE.Python.ReCuts

/-!
# Fenced blocks

A fenced block goes from three backticks to the next three.  Where the blocks of a text are is told by
counting its backticks by threes from the left: a text with fewer than two threes has no block, and a
stretch in front of a fence has none and does not end in a backtick.
-/

namespace FourCE.Orchestrator

open FourCE.Library.Regex FourCE.Python

/-- Three backticks. -/
def ticks : PyStr := [96, 96, 96]

/-! ## Counting backticks by threes -/

/-- How many threes of backticks a text has, counted from the left behind `k` backticks. -/
def threes : ℕ → PyStr → ℕ
  | _, [] => 0
  | k, c :: s => if c = 96 then (if 2 ≤ k then 1 + threes 0 s else threes (k + 1) s) else threes 0 s

theorem threes_tick (k : ℕ) (s : PyStr) :
    threes k (96 :: s) = if 2 ≤ k then 1 + threes 0 s else threes (k + 1) s := by
  rw [threes, if_pos rfl]

theorem threes_other {c : CodePoint} (hc : c ≠ 96) (k : ℕ) (s : PyStr) :
    threes k (c :: s) = threes 0 s := by
  rw [threes, if_neg hc]

/-- More backticks in front make at most one three more. -/
theorem threes_mono {j k : ℕ} (h : j ≤ k) (s : PyStr) :
    threes j s ≤ threes k s ∧ threes k s ≤ threes j s + 1 := by
  induction s generalizing j k with
  | nil => simp [threes]
  | cons c s ih =>
    by_cases hc : c = 96
    · subst hc
      rw [threes_tick, threes_tick]
      split_ifs with hj hk hk
      · exact ⟨le_rfl, by omega⟩
      · omega
      · have hnext := ih (Nat.zero_le (j + 1))
        omega
      · exact ih (Nat.succ_le_succ h)
    · rw [threes_other hc, threes_other hc]
      exact ⟨le_rfl, Nat.le_succ _⟩

theorem le_threes_append (k : ℕ) (a b : PyStr) : threes k a + threes 0 b ≤ threes k (a ++ b) := by
  induction a generalizing k with
  | nil =>
    rw [threes, Nat.zero_add]
    exact (threes_mono (Nat.zero_le k) b).1
  | cons c a ih =>
    rw [List.cons_append]
    by_cases hc : c = 96
    · subst hc
      rw [threes_tick, threes_tick]
      split_ifs
      · have hrest := ih 0
        omega
      · exact ih (k + 1)
    · rw [threes_other hc, threes_other hc]
      exact ih 0

theorem threes_append_other {c : CodePoint} (hc : c ≠ 96) (k : ℕ) (a b : PyStr) :
    threes k (a ++ c :: b) = threes k a + threes 0 b := by
  induction a generalizing k with
  | nil => rw [List.nil_append, threes_other hc, threes, Nat.zero_add]
  | cons d a ih =>
    rw [List.cons_append]
    by_cases hd : d = 96
    · subst hd
      rw [threes_tick, threes_tick]
      split_ifs
      · rw [ih, Nat.add_assoc]
      · exact ih (k + 1)
    · rw [threes_other hd, threes_other hd]
      exact ih 0

theorem threes_isInfix {a b : PyStr} (h : a <:+: b) : threes 0 a ≤ threes 0 b := by
  obtain ⟨front, back, rfl⟩ := h
  have hfront := le_threes_append 0 front (a ++ back)
  have hback := le_threes_append 0 a back
  rw [← List.append_assoc] at hfront
  omega

theorem threes_eq_zero {s : PyStr} (h : (96 : CodePoint) ∉ s) (k : ℕ) : threes k s = 0 := by
  induction s generalizing k with
  | nil => rfl
  | cons c s ih =>
    rw [List.mem_cons, not_or] at h
    rw [threes_other (Ne.symm h.1)]
    exact ih h.2 0

/-- What comes in front and is no backtick changes nothing. -/
theorem threes_append_of_notMem {a : PyStr} (h : (96 : CodePoint) ∉ a) (b : PyStr) :
    threes 0 (a ++ b) = threes 0 b := by
  induction a with
  | nil => rfl
  | cons c a ih =>
    rw [List.mem_cons, not_or] at h
    rw [List.cons_append, threes_other (Ne.symm h.1)]
    exact ih h.2

theorem threes_append_notMem {b : PyStr} (h : (96 : CodePoint) ∉ b) (a : PyStr) :
    threes 0 (a ++ b) = threes 0 a := by
  cases b with
  | nil => rw [List.append_nil]
  | cons c b =>
    rw [List.mem_cons, not_or] at h
    rw [threes_append_other (Ne.symm h.1), threes_eq_zero h.2, Nat.add_zero]

/-! ## Stretches in front of a fence -/

/-- A stretch in which no fence begins, also not with its end. -/
structure Clear (s : PyStr) : Prop where
  none : threes 0 s = 0
  last : s.getLast? ≠ some 96

theorem clear_nil : Clear [] := ⟨rfl, nofun⟩

theorem threes_fence (w : PyStr) : threes 0 (ticks ++ w) = 1 + threes 0 w := rfl

/-- Behind a clear stretch the counting begins anew. -/
theorem Clear.threes_append {u : PyStr} (h : Clear u) (w : PyStr) : threes 0 (u ++ w) = threes 0 w := by
  obtain ⟨hnone, hlast⟩ := h
  rcases List.eq_nil_or_concat u with rfl | ⟨a, c, rfl⟩
  · rfl
  · rw [List.concat_eq_append] at hnone hlast ⊢
    have hc : c ≠ 96 := fun heq ↦ hlast (by rw [heq, List.getLast?_concat])
    rw [threes_append_other hc, threes, Nat.add_zero] at hnone
    rw [List.append_assoc, List.singleton_append, threes_append_other hc, hnone, Nat.zero_add]

/-- No three begins in a clear stretch. -/
theorem Clear.not_ticks {u v z : PyStr} (h : Clear u) (hu : u = v ++ z) (hz : z ≠ []) (more rest : PyStr) :
    z ++ (ticks ++ more) ≠ ticks ++ rest := by
  intro heq
  obtain ⟨a, c, rfl⟩ := (List.eq_nil_or_concat z).resolve_left hz
  rw [List.concat_eq_append] at hu heq
  have hc : c ≠ 96 := fun hc ↦ h.last (by rw [hu, ← List.append_assoc, List.getLast?_concat, hc])
  match a, heq with
  | [], heq => exact hc (List.cons.inj heq).1
  | [x], heq => exact hc (List.cons.inj (List.cons.inj heq).2).1
  | [x, y], heq => exact hc (List.cons.inj (List.cons.inj (List.cons.inj heq).2).2).1
  | x :: y :: z :: a, heq =>
    obtain ⟨hx, heq⟩ := List.cons.inj heq
    obtain ⟨hy, heq⟩ := List.cons.inj heq
    obtain ⟨hz, -⟩ := List.cons.inj heq
    have hinfix : threes 0 (x :: y :: z :: (a ++ [c])) ≤ threes 0 u := by
      apply threes_isInfix
      rw [hu]
      exact (List.suffix_append _ _).isInfix
    rw [hx, hy, hz, h.none] at hinfix
    have hthree : threes 0 (96 :: 96 :: 96 :: (a ++ [c])) = 1 + threes 0 (a ++ [c]) := rfl
    omega

/-- The first three of a text. -/
theorem exists_first_ticks {k : ℕ} (hk : k ≤ 2) {s : PyStr} (h : 1 ≤ threes k s) :
    ∃ u w, List.replicate k 96 ++ s = u ++ (ticks ++ w) ∧ Clear u ∧ threes k s = 1 + threes 0 w := by
  induction s generalizing k with
  | nil => simp [threes] at h
  | cons c s ih =>
    by_cases hc : c = 96
    · subst hc
      rw [threes_tick] at h ⊢
      split_ifs at h ⊢ with htwo
      · obtain rfl : k = 2 := by omega
        exact ⟨[], s, rfl, clear_nil, rfl⟩
      · obtain ⟨u, w, heq, hu, hcount⟩ := ih (k := k + 1) (by omega) h
        refine ⟨u, w, ?_, hu, hcount⟩
        rw [← heq, List.replicate_succ', List.append_assoc]
        rfl
    · rw [threes_other hc] at h ⊢
      obtain ⟨u, w, heq, hu, hcount⟩ := ih (k := 0) (by omega) h
      refine ⟨List.replicate k 96 ++ c :: u, w, ?_, ?_, hcount⟩
      · rw [List.replicate_zero, List.nil_append] at heq
        rw [heq, List.append_assoc]
        rfl
      · constructor
        · rw [threes_append_other hc, hu.none, Nat.add_zero]
          have hfew : k = 0 ∨ k = 1 ∨ k = 2 := by omega
          rcases hfew with rfl | rfl | rfl <;> rfl
        · have hlast := hu.last
          cases u with
          | nil => simpa using hc
          | cons d u => simpa [List.getLast?_append] using hlast

/-! ## The blocks of a text -/

/-- A text cut at its fenced blocks: each with the stretch in front of it, without the fences. -/
inductive Fenced : PyStr → List (PyStr × PyStr) → PyStr → Prop
  | last {s : PyStr} (h : threes 0 s < 2) : Fenced s [] s
  | block {u g w tail : PyStr} {ps : List (PyStr × PyStr)} (hu : Clear u) (hg : Clear g)
      (hrest : Fenced w ps tail) : Fenced (u ++ (ticks ++ (g ++ (ticks ++ w)))) ((u, g) :: ps) tail

/-- A body between its fences. -/
def fenced (g : PyStr) : PyStr := ticks ++ (g ++ ticks)

theorem exists_fenced (s : PyStr) : ∃ ps tail, Fenced s ps tail := by
  induction hn : s.length using Nat.strongRecOn generalizing s with
  | ind n ih =>
    by_cases hfew : threes 0 s < 2
    · exact ⟨[], s, .last hfew⟩
    · obtain ⟨u, v, hs, hu, hcount⟩ := exists_first_ticks (k := 0) (by omega) (s := s) (by omega)
      obtain ⟨g, w, hv, hg, -⟩ := exists_first_ticks (k := 0) (by omega) (s := v) (by omega)
      rw [List.replicate_zero, List.nil_append] at hs hv
      subst hv hs
      obtain ⟨ps, tail, hw⟩ := ih w.length (by rw [← hn]; simp [ticks]; omega) w rfl
      exact ⟨_, _, .block hu hg hw⟩

def fence : Pattern := between one anything ticks ticks

theorem fences_eq : fences = .seq (.group 1 fence) .eps := by
  rw [fences, re]
  decide

section

variable [Unicode]

theorem testless_fences : testless fences = true := by
  rw [fences_eq]
  decide

theorem consumes_fences : consumes fences = true := by
  rw [fences_eq]
  decide

/-- A block is read up to its closing fence. -/
theorem readAt_fences {g : PyStr} (hg : Clear g) (w : PyStr) :
    readAt sre fences (fenced g ++ w) = some ⟨fenced g, [(1, fenced g)]⟩ := by
  have hafter : fenced g ++ w = ticks ++ (g ++ (ticks ++ w)) := by
    simp only [fenced, List.append_assoc]
  have hfirst : first sre fence ⟨[], fenced g ++ w, []⟩ =
      some ((⟨[], fenced g ++ w, []⟩ : State CodePoint).past (fenced g) w) :=
    first_between one_accepts anything_accepts hafter fun v z rest hvz hz ↦ hg.not_ticks hvz hz w rest
  have htake : (fenced g ++ w).take ((fenced g ++ w).length - w.length) = fenced g := by
    rw [List.length_append, Nat.add_sub_cancel, List.take_left]
  rw [readAt_eq_first, fences_eq, first_seq_of (first_group_of hfirst) (first_eps _),
    @upTo_past _ ⟨[], fenced g ++ w, []⟩ (fenced g) w rfl]
  simp only [Option.map_some, State.past, htake]

/-- Where no three begins there is no block, and where fewer than two are left neither. -/
theorem readAt_fences_none {s : PyStr} (h : ∀ g more, s ≠ ticks ++ (g ++ (ticks ++ more))) :
    readAt sre fences s = none := by
  rw [readAt_eq_none_iff, List.eq_nil_iff_forall_not_mem]
  intro t ht
  rw [fences_eq] at ht
  obtain ⟨v, hv, -⟩ := mem_run_seq.mp ht
  obtain ⟨z, hz, -⟩ := mem_run_group.mp hv
  obtain ⟨g, more, hafter⟩ := of_mem_run_between (M := sre) one_accepts hz
  exact h g more hafter

theorem Fenced.cuts {s tail : PyStr} {ps : List (PyStr × PyStr)} (h : Fenced s ps tail) :
    Cuts sre fences s (ps.map fun p ↦ (p.1, ⟨fenced p.2, [(1, fenced p.2)]⟩)) tail := by
  induction h with
  | @last s hfew =>
    refine .last fun v z hvz ↦ readAt_fences_none fun g more heq ↦ ?_
    have hsuffix : threes 0 z ≤ threes 0 s := threes_isInfix (hvz ▸ (List.suffix_append v z).isInfix)
    have hlater := le_threes_append 0 g (ticks ++ more)
    rw [heq, threes_fence] at hsuffix
    rw [threes_fence] at hlater
    omega
  | @block u g w tail ps hu hg hrest ih =>
    have heq : u ++ (ticks ++ (g ++ (ticks ++ w))) = u ++ (fenced g ++ w) := by
      simp only [fenced, List.append_assoc]
    rw [heq, List.map_cons]
    refine .hit (x := ⟨fenced g, [(1, fenced g)]⟩) (fun v z hvz hz ↦ readAt_fences_none fun g' more hmore ↦ ?_) (readAt_fences hg w) ih
    have hafter : z ++ (ticks ++ (g ++ ticks ++ w)) = ticks ++ (g' ++ (ticks ++ more)) := by
      rw [← hmore]
      simp only [fenced, List.append_assoc]
    exact hu.not_ticks hvz hz _ _ hafter

theorem Fenced.split {s tail : PyStr} {ps : List (PyStr × PyStr)} (h : Fenced s ps tail) :
    reSplitKeeping fences s = (ps.map fun p ↦ (p.1, fenced p.2), tail) := by
  rw [reSplitKeeping_of_cuts testless_fences consumes_fences h.cuts, List.map_map]
  rfl

/-- The complete fenced blocks of a text. -/
def blocksOf (text : PyStr) : List PyStr := (reSplitKeeping fences text).1.map Prod.snd

theorem Fenced.blocksOf {s tail : PyStr} {ps : List (PyStr × PyStr)} (h : Fenced s ps tail) :
    blocksOf s = ps.map fun p ↦ fenced p.2 := by
  rw [Orchestrator.blocksOf, h.split, List.map_map]
  rfl

end

/-- What is no backtick may stand around a text. -/
theorem Fenced.pad {s tail a b : PyStr} {ps : List (PyStr × PyStr)} (h : Fenced s ps tail)
    (ha : (96 : CodePoint) ∉ a) (hb : (96 : CodePoint) ∉ b) :
    ∃ qs, qs.map Prod.snd = ps.map Prod.snd ∧ ∃ tail', Fenced (a ++ s ++ b) qs tail' := by
  have hbehind : ∀ {s tail : PyStr} {ps : List (PyStr × PyStr)}, Fenced s ps tail →
      Fenced (s ++ b) ps (tail ++ b) := by
    intro s tail ps h
    induction h with
    | last hfew => exact .last (by rwa [threes_append_notMem hb])
    | block hu hg _ ih =>
      have hmore := Fenced.block hu hg ih
      simpa only [List.append_assoc] using hmore
  cases h with
  | last hfew =>
    refine ⟨[], rfl, a ++ s ++ b, .last ?_⟩
    rwa [threes_append_notMem hb, threes_append_of_notMem ha]
  | @block u g w tail ps hu hg hrest =>
    refine ⟨(a ++ u, g) :: ps, rfl, tail ++ b, ?_⟩
    have hclear : Clear (a ++ u) := by
      refine ⟨by rw [threes_append_of_notMem ha, hu.none], fun hlast ↦ ?_⟩
      rw [List.getLast?_append] at hlast
      rcases hu' : u.getLast? with _ | c
      · rw [hu', Option.none_or] at hlast
        exact ha (List.mem_of_getLast? hlast)
      · rw [hu', Option.some_or] at hlast
        exact hu.last (hu'.trans hlast)
    have hmore := hbehind (Fenced.block hclear hg hrest)
    simpa only [List.append_assoc] using hmore

end FourCE.Orchestrator
