import FourCE.Orchestrator.Fences

/-!
# What tidying does to backticks

Every line that is kept is made of a part of itself, with marks of a heading in front, so that a tidied
text has no more threes of backticks than before.
-/

namespace FourCE.Orchestrator

open FourCE.Library.Regex FourCE.Python

/-! ## Lines -/

/-- The threes of all lines together. -/
def threesIn (lines : List PyStr) : ℕ := (lines.map (threes 0)).sum

theorem splitNewline_ne_nil (s : PyStr) : splitNewline s ≠ [] := by
  cases s with
  | nil => exact List.cons_ne_nil _ _
  | cons c s =>
    rw [splitNewline]
    split_ifs
    · exact List.cons_ne_nil _ _
    · split <;> exact List.cons_ne_nil _ _

theorem join_splitNewline (s : PyStr) : join [10] (splitNewline s) = s := by
  induction s with
  | nil => rfl
  | cons c s ih =>
    rw [splitNewline]
    split_ifs with hc
    · subst hc
      cases hs : splitNewline s with
      | nil => exact absurd hs (splitNewline_ne_nil s)
      | cons line rest =>
        rw [hs] at ih
        rw [join, ih]
        rfl
    · split
      · next hs => exact absurd hs (splitNewline_ne_nil s)
      · next line rest hs =>
        rw [hs] at ih
        cases rest with
        | nil => exact congrArg (c :: ·) ih
        | cons next rest => exact congrArg (c :: ·) ih

theorem threesIn_splitNewline (s : PyStr) : threesIn (splitNewline s) = threes 0 s := by
  suffices h : ∀ k, k ≤ 2 → ∀ line rest, splitNewline s = line :: rest →
      threes k line + threesIn rest = threes k s by
    cases hs : splitNewline s with
    | nil => exact absurd hs (splitNewline_ne_nil s)
    | cons line rest => exact h 0 (Nat.zero_le 2) line rest hs
  induction s with
  | nil =>
    intro k hk line rest h
    cases h
    rfl
  | cons c s ih =>
    intro k hk line rest h
    rw [splitNewline] at h
    split_ifs at h with hc
    · obtain ⟨rfl, rfl⟩ := List.cons.inj h
      subst hc
      rw [threes_other (by decide), threes, Nat.zero_add]
      cases hs : splitNewline s with
      | nil => exact absurd hs (splitNewline_ne_nil s)
      | cons line rest => exact ih 0 (Nat.zero_le 2) line rest hs
    · split at h
      · next hs => exact absurd hs (splitNewline_ne_nil s)
      · next line' rest' hs =>
        obtain ⟨rfl, rfl⟩ := List.cons.inj h
        by_cases htick : c = 96
        · subst htick
          rw [threes_tick, threes_tick]
          split_ifs with htwo
          · have hrest := ih 0 (Nat.zero_le 2) line' rest' hs
            omega
          · exact ih (k + 1) (by omega) line' rest' hs
        · rw [threes_other htick, threes_other htick]
          exact ih 0 (Nat.zero_le 2) line' rest' hs

theorem threes_join (lines : List PyStr) : threes 0 (join [10] lines) = threesIn lines := by
  induction lines with
  | nil => rfl
  | cons line lines ih =>
    cases lines with
    | nil => simp [join, threesIn]
    | cons next lines =>
      have hnewline : (10 : CodePoint) ≠ 96 := by decide
      rw [join, List.append_assoc, List.singleton_append, threes_append_other hnewline, ih]
      rfl

/-! ## One line -/

theorem rstripOf_isPrefix (chars s : PyStr) : rstripOf chars s <+: s := by
  unfold rstripOf
  rw [← List.reverse_suffix, List.reverse_reverse]
  exact List.dropWhile_suffix _

theorem rstrip_isPrefix (s : PyStr) : rstrip s <+: s := by
  unfold rstrip
  rw [← List.reverse_suffix, List.reverse_reverse]
  exact List.dropWhile_suffix _

theorem stripOf_isInfix (chars s : PyStr) : stripOf chars s <:+: s :=
  (rstripOf_isPrefix chars _).isInfix.trans (List.dropWhile_suffix _).isInfix

theorem strip_isInfix (s : PyStr) : strip s <:+: s :=
  (rstrip_isPrefix _).isInfix.trans (List.dropWhile_suffix (l := s) _).isInfix

theorem anchored_sectionNumber : anchored sectionNumber = true := by
  rw [sectionNumber, re]
  decide

theorem consumes_sectionNumber : consumes sectionNumber = true := by
  rw [sectionNumber, re]
  decide

section

variable [Unicode]

theorem headingWords_isInfix (s : PyStr) : headingWords s <:+: s :=
  (reSub_anchored anchored_sectionNumber consumes_sectionNumber _).isInfix.trans (stripOf_isInfix _ s)

/-- The marks of a heading have no backticks. -/
theorem threes_heading (level : ℕ) (words : PyStr) :
    threes 0 (List.replicate level 35 ++ py " " ++ words) = threes 0 words := by
  have hmarks : (96 : CodePoint) ∉ List.replicate level 35 ++ py " " := by
    rw [List.mem_append, not_or]
    refine ⟨fun h ↦ ?_, by decide⟩
    have heq := List.eq_of_mem_replicate h
    exact absurd heq (by decide)
  exact threes_append_of_notMem hmarks words

theorem threes_words {g line : PyStr} (h : g <:+: line) :
    threes 0 (rstripOf (py ":") (headingWords g)) ≤ threes 0 line :=
  threes_isInfix (((rstripOf_isPrefix _ _).isInfix.trans (headingWords_isInfix g)).trans h)

theorem threes_tidyLine {line : PyStr} {heading bold : Option Match}
    (hheading : ∀ m ∈ heading, (m.group 2).getD [] <:+: line)
    (hbold : ∀ m ∈ bold, (m.group 1).getD [] <:+: line) :
    threes 0 (tidyLine line heading bold) ≤ threes 0 line := by
  unfold tidyLine
  cases heading with
  | some m =>
    rw [threes_heading]
    exact threes_words (hheading m rfl)
  | none =>
    cases bold with
    | none => exact le_rfl
    | some m =>
      dsimp only
      split_ifs
      · exact (threes_heading 3 _).le.trans (threes_words (hbold m rfl))
      · exact le_rfl

theorem infix_of_match {q : Pattern} {line : PyStr} {m : Match} {n : ℕ}
    (h : reMatch q (strip line) = some m) : (m.group n).getD [] <:+: line := by
  cases hg : m.group n with
  | none => exact List.nil_infix
  | some g => exact (infix_of_reMatch h hg).trans (strip_isInfix line)

/-- What a line adds to the lines that are kept has no more threes than the line. -/
theorem threesIn_tidyStep (state : Bool × List PyStr) (line : PyStr) :
    threesIn (tidyStep state line).2 ≤ threesIn state.2 + threes 0 line := by
  have hsnoc : ∀ (lines : List PyStr) (l : PyStr),
      threesIn (lines ++ [l]) = threesIn lines + threes 0 l := by
    intro lines l
    simp [threesIn]
  have hkept : ∀ bold : Option Match, (∀ m ∈ bold, (m.group 1).getD [] <:+: line) →
      threesIn (state.2 ++ [rstrip (tidyLine line (reMatch headingLine (strip line)) bold)]) ≤
        threesIn state.2 + threes 0 line := by
    intro bold hbold
    rw [hsnoc]
    refine Nat.add_le_add_left ((threes_isInfix (rstrip_isPrefix _).isInfix).trans ?_) _
    exact threes_tidyLine (fun m hm ↦ infix_of_match (Option.mem_def.mp hm)) hbold
  unfold tidyStep
  dsimp only
  by_cases hblank : (strip line).isEmpty
  · rw [if_pos hblank, hsnoc]
    exact Nat.add_le_add_left (Nat.zero_le _) _
  rw [if_neg hblank]
  split_ifs
  · exact Nat.le_add_right _ _
  · exact Nat.le_add_right _ _
  · exact hkept none nofun
  · exact Nat.le_add_right _ _
  · exact hkept _ fun m hm ↦ infix_of_match (Option.mem_def.mp hm)

theorem threes_tidyPart (opening : Bool) (text : PyStr) :
    threes 0 (tidyPart opening text).2 ≤ threes 0 text := by
  have hfold : ∀ (lines : List PyStr) (state : Bool × List PyStr),
      threesIn (lines.foldl tidyStep state).2 ≤ threesIn state.2 + threesIn lines := by
    intro lines
    induction lines with
    | nil => exact fun state ↦ Nat.le_add_right _ _
    | cons line lines ih =>
      intro state
      have hrest := ih (tidyStep state line)
      have hhere := threesIn_tidyStep state line
      have hcons : threesIn (line :: lines) = threes 0 line + threesIn lines := rfl
      rw [List.foldl_cons, hcons]
      omega
  have hwhole := hfold (splitNewline text) (opening, [])
  rw [threesIn_splitNewline] at hwhole
  unfold tidyPart
  dsimp only
  rw [threes_join]
  exact hwhole.trans (Nat.zero_add _).le

end

end FourCE.Orchestrator
