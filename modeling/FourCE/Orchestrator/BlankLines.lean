import FourCE.Orchestrator.TidyLines

/-!
# What collapsing blank lines does to backticks

Runs of newlines are cut to two wherever they stand, in prose or in a block: the fences stay where they
are, and what is between them is squeezed as well.
-/

namespace FourCE.Orchestrator

open FourCE.Library.Regex FourCE.Python

/-- A text without the newlines that stand behind two others; `k` stood in front of it. -/
def squeeze : ℕ → PyStr → PyStr
  | _, [] => []
  | k, c :: s => if c = 10 then (if 2 ≤ k then squeeze k s else 10 :: squeeze (k + 1) s) else c :: squeeze 0 s

theorem squeeze_newline (k : ℕ) (s : PyStr) :
    squeeze k (10 :: s) = if 2 ≤ k then squeeze k s else 10 :: squeeze (k + 1) s := by
  rw [squeeze, if_pos rfl]

theorem squeeze_other {c : CodePoint} (hc : c ≠ 10) (k : ℕ) (s : PyStr) :
    squeeze k (c :: s) = c :: squeeze 0 s := by
  rw [squeeze, if_neg hc]

/-- Behind what is no newline the squeezing begins anew. -/
theorem squeeze_append_other {c : CodePoint} (hc : c ≠ 10) (k : ℕ) (a b : PyStr) :
    squeeze k (a ++ c :: b) = squeeze k a ++ c :: squeeze 0 b := by
  induction a generalizing k with
  | nil => exact squeeze_other hc k b
  | cons d a ih =>
    rw [List.cons_append]
    by_cases hd : d = 10
    · subst hd
      rw [squeeze_newline, squeeze_newline]
      split_ifs
      · exact ih k
      · rw [ih (k + 1), List.cons_append]
    · rw [squeeze_other hd, squeeze_other hd, ih 0, List.cons_append]

theorem squeeze_ticks (k : ℕ) (a b : PyStr) :
    squeeze k (a ++ (ticks ++ b)) = squeeze k a ++ (ticks ++ squeeze 0 b) := by
  have htick : (96 : CodePoint) ≠ 10 := by decide
  change squeeze k (a ++ 96 :: 96 :: 96 :: b) = _
  rw [squeeze_append_other htick, squeeze_other htick, squeeze_other htick]
  rfl

/-- Newlines do not count as backticks. -/
theorem threes_squeeze {j k : ℕ} (h : k = 0 ∨ j = 0) (s : PyStr) :
    threes j (squeeze k s) = threes j s := by
  have hnewline : (10 : CodePoint) ≠ 96 := by decide
  induction s generalizing j k with
  | nil => rfl
  | cons c s ih =>
    by_cases hc : c = 10
    · subst hc
      rw [squeeze_newline, threes_other hnewline]
      split_ifs with htwo
      · obtain rfl : j = 0 := by omega
        exact ih (Or.inr rfl)
      · rw [threes_other hnewline]
        exact ih (Or.inr rfl)
    · rw [squeeze_other hc]
      by_cases htick : c = 96
      · subst htick
        rw [threes_tick, threes_tick, ih (Or.inl rfl), ih (Or.inl rfl)]
      · rw [threes_other htick, threes_other htick]
        exact ih (Or.inl rfl)

theorem count_squeeze (k : ℕ) (s : PyStr) : (squeeze k s).count 96 = s.count 96 := by
  induction s generalizing k with
  | nil => rfl
  | cons c s ih =>
    by_cases hc : c = 10
    · subst hc
      rw [squeeze_newline, List.count_cons_of_ne (by decide)]
      split_ifs
      · exact ih k
      · rw [List.count_cons_of_ne (by decide)]
        exact ih (k + 1)
    · rw [squeeze_other hc, List.count_cons, List.count_cons, ih 0]

theorem squeeze_ne_nil {s : PyStr} (h : s ≠ []) : squeeze 0 s ≠ [] := by
  cases s with
  | nil => exact absurd rfl h
  | cons c s =>
    by_cases hc : c = 10
    · subst hc
      rw [squeeze_newline, if_neg (by decide)]
      exact List.cons_ne_nil _ _
    · rw [squeeze_other hc]
      exact List.cons_ne_nil _ _

theorem squeeze_last_newline (k : ℕ) (a : PyStr) : (squeeze k (a ++ [10])).getLast? ≠ some 96 := by
  induction a generalizing k with
  | nil =>
    rw [List.nil_append, squeeze_newline]
    split_ifs
    · exact nofun
    · rw [squeeze]
      decide
  | cons d a ih =>
    rw [List.cons_append]
    by_cases hd : d = 10
    · subst hd
      rw [squeeze_newline]
      split_ifs
      · exact ih k
      · rw [List.getLast?_cons]
        have hlater := ih (k + 1)
        cases hlast : (squeeze (k + 1) (a ++ [10])).getLast? with
        | none => exact fun h ↦ absurd h (by decide)
        | some c => rwa [hlast] at hlater
    · rw [squeeze_other hd, List.getLast?_cons]
      have hlater := ih 0
      cases hlast : (squeeze 0 (a ++ [10])).getLast? with
      | none => exact absurd (List.getLast?_eq_none_iff.mp hlast) (squeeze_ne_nil (by simp))
      | some c => rwa [hlast] at hlater

theorem squeeze_last {s : PyStr} (k : ℕ) (h : s.getLast? ≠ some 96) :
    (squeeze k s).getLast? ≠ some 96 := by
  rcases List.eq_nil_or_concat s with rfl | ⟨a, c, rfl⟩
  · exact h
  rw [List.concat_eq_append] at h ⊢
  by_cases hc : c = 10
  · subst hc
    exact squeeze_last_newline k a
  · rw [squeeze_append_other hc, squeeze]
    rwa [List.getLast?_concat] at h ⊢

theorem Clear.squeeze {u : PyStr} (h : Clear u) : Clear (squeeze 0 u) :=
  ⟨(threes_squeeze (Or.inl rfl) u).trans h.none, squeeze_last 0 h.last⟩

/-- The blocks stay where they are and are squeezed themselves. -/
theorem Fenced.squeeze {s tail : PyStr} {ps : List (PyStr × PyStr)} (h : Fenced s ps tail) :
    Fenced (squeeze 0 s) (ps.map fun p ↦ (Orchestrator.squeeze 0 p.1, Orchestrator.squeeze 0 p.2))
      (Orchestrator.squeeze 0 tail) := by
  induction h with
  | @last s hfew => exact .last ((threes_squeeze (Or.inl rfl) s).trans_lt hfew)
  | block hu hg _ ih =>
    rw [squeeze_ticks, squeeze_ticks, List.map_cons]
    exact .block hu.squeeze hg.squeeze ih

theorem squeeze_fenced (g : PyStr) : squeeze 0 (fenced g) = fenced (squeeze 0 g) := by
  calc squeeze 0 (fenced g) = squeeze 0 [] ++ (ticks ++ squeeze 0 (g ++ (ticks ++ []))) :=
        squeeze_ticks 0 [] (g ++ (ticks ++ []))
    _ = fenced (squeeze 0 g) := by
      rw [squeeze_ticks]
      rfl

/-! ## What is left as it is -/

/-- Three newlines one behind the other. -/
def gap : PyStr := [10, 10, 10]

theorem length_squeeze_le (k : ℕ) (s : PyStr) : (squeeze k s).length ≤ s.length := by
  induction s generalizing k with
  | nil => exact le_rfl
  | cons c s ih =>
    by_cases hc : c = 10
    · subst hc
      rw [squeeze_newline]
      split_ifs
      · exact (ih k).trans (Nat.le_succ _)
      · exact Nat.succ_le_succ (ih (k + 1))
    · rw [squeeze_other hc]
      exact Nat.succ_le_succ (ih 0)

/-- Where nothing is cut there were never three newlines. -/
theorem squeeze_eq_self_iff {k : ℕ} (hk : k ≤ 2) (s : PyStr) :
    squeeze k s = s ↔ ¬ gap <:+: List.replicate k 10 ++ s := by
  induction s generalizing k with
  | nil =>
    rw [List.append_nil]
    refine iff_of_true rfl fun h ↦ ?_
    have hlength := h.length_le
    rw [List.length_replicate] at hlength
    exact absurd (hlength.trans hk) (by decide)
  | cons c s ih =>
    by_cases hc : c = 10
    · subst hc
      rw [squeeze_newline]
      split_ifs with htwo
      · obtain rfl : k = 2 := by omega
        refine iff_of_false (fun h ↦ ?_) (fun h ↦ h ⟨[], s, rfl⟩)
        have hlength := length_squeeze_le 2 s
        rw [h, List.length_cons] at hlength
        omega
      · rw [List.cons_inj_right, ih (by omega), List.replicate_succ', List.append_assoc,
          List.singleton_append]
    · have hfew : k = 0 ∨ k = 1 ∨ k = 2 := by omega
      rw [squeeze_other hc, List.cons_inj_right, ih (Nat.zero_le 2)]
      rcases hfew with rfl | rfl | rfl <;> simp [List.infix_cons_iff, gap, Ne.symm hc]

/-- What has been squeezed has no three newlines. -/
theorem squeeze_squeeze {j k : ℕ} (h : j ≤ k) (s : PyStr) : squeeze j (squeeze k s) = squeeze k s := by
  induction s generalizing j k with
  | nil => rfl
  | cons c s ih =>
    by_cases hc : c = 10
    · subst hc
      rw [squeeze_newline]
      split_ifs with htwo
      · exact ih h
      · rw [squeeze_newline, if_neg (by omega), ih (Nat.succ_le_succ h)]
    · rw [squeeze_other hc, squeeze_other hc, ih le_rfl]

theorem not_gap_squeeze (s : PyStr) : ¬ gap <:+: squeeze 0 s :=
  (squeeze_eq_self_iff (Nat.zero_le 2) _).mp (squeeze_squeeze le_rfl s)

/-! ## The substitution -/

theorem blankLines_eq : blankLines = .seq (.rep true 3 none (.char (one 10))) .eps := by
  rw [blankLines, re]
  decide

/-- What begins with newlines, and how many. -/
theorem exists_run {s : PyStr} (h : gap <+: s) :
    ∃ n w, s = List.replicate n 10 ++ w ∧ 3 ≤ n ∧ ∀ x more, w = x :: more → x ≠ 10 := by
  have hrun : ∀ x ∈ s.takeWhile (· = 10), x = 10 := fun x hx ↦
    of_decide_eq_true (List.all_eq_true.mp List.all_takeWhile x hx)
  refine ⟨(s.takeWhile (· = 10)).length, s.dropWhile (· = 10), ?_, ?_, fun x more hw ↦ ?_⟩
  · rw [← List.eq_replicate_of_mem hrun, List.takeWhile_append_dropWhile]
  · obtain ⟨rest, rfl⟩ := h
    simp [gap]
  · have hhead := List.head?_dropWhile_not (fun x : CodePoint ↦ decide (x = 10)) s
    rw [hw] at hhead
    simpa using hhead

theorem squeeze_run {n : ℕ} (hn : 2 ≤ n) {w : PyStr} (hw : ∀ x more, w = x :: more → x ≠ 10) :
    squeeze 0 (List.replicate n 10 ++ w) = [10, 10] ++ squeeze 0 w := by
  obtain ⟨m, rfl⟩ := Nat.exists_eq_add_of_le hn
  have hmore : ∀ m, squeeze 2 (List.replicate m 10 ++ w) = squeeze 0 w := by
    intro m
    induction m with
    | zero => cases w with
      | nil => rfl
      | cons x w =>
        have hx := hw x w rfl
        rw [List.replicate_zero, List.nil_append, squeeze_other hx, squeeze_other hx]
    | succ m ih =>
      rw [List.replicate_succ, List.cons_append, squeeze_newline]
      exact ih
  rw [List.replicate_add, List.append_assoc]
  change squeeze 0 (10 :: 10 :: (List.replicate m 10 ++ w)) = _
  rw [squeeze_newline, squeeze_newline]
  exact congrArg (fun s ↦ 10 :: 10 :: s) (hmore m)

theorem squeeze_append_last {u : PyStr} (h : u.getLast? ≠ some 10) (rest : PyStr) :
    squeeze 0 (u ++ rest) = squeeze 0 u ++ squeeze 0 rest := by
  rcases List.eq_nil_or_concat u with rfl | ⟨a, c, rfl⟩
  · rfl
  rw [List.concat_eq_append] at h ⊢
  have hc : c ≠ 10 := fun heq ↦ h (by rw [heq, List.getLast?_concat])
  rw [List.append_assoc, List.singleton_append, squeeze_append_other hc, squeeze_append_other hc,
    List.append_assoc]
  rfl

section

variable [Unicode]

theorem readAt_blankLines {n : ℕ} {w : PyStr} (hn : 3 ≤ n) (hw : ∀ x more, w = x :: more → x ≠ 10) :
    readAt sre blankLines (List.replicate n 10 ++ w) = some ⟨List.replicate n 10, []⟩ := by
  have hfirst : first sre (.rep true 3 none (.char (one 10)) : Pattern)
      ⟨[], List.replicate n 10 ++ w, []⟩ =
        some ((⟨[], List.replicate n 10 ++ w, []⟩ : State CodePoint).past (List.replicate n 10) w) := by
    refine first_rep_least rfl (by rwa [List.length_replicate]) (fun x hx ↦ ?_) fun x more heq ↦ ?_
    · exact (one_accepts 10 x).mpr (List.eq_of_mem_replicate hx)
    · exact Bool.eq_false_iff.mpr fun hx ↦ hw x more heq ((one_accepts 10 x).mp hx)
  have htake : (List.replicate n (10 : CodePoint) ++ w).take
      ((List.replicate n (10 : CodePoint) ++ w).length - w.length) = List.replicate n 10 := by
    rw [List.length_append, Nat.add_sub_cancel, List.take_left]
  rw [readAt_eq_first, blankLines_eq, first_seq_of hfirst (first_eps _)]
  simp only [Option.map_some, State.past, htake]

theorem readAt_blankLines_none {s : PyStr} (h : ¬ gap <+: s) : readAt sre blankLines s = none := by
  rw [readAt_eq_none_iff, List.eq_nil_iff_forall_not_mem]
  intro t ht
  rw [blankLines_eq] at ht
  obtain ⟨v, hv, -⟩ := mem_run_seq.mp ht
  obtain ⟨u, rest, hafter, hu, hthree, -, -⟩ := mem_run_rep_char.mp hv
  have hrun : u = List.replicate u.length 10 :=
    List.eq_replicate_of_mem fun x hx ↦ (one_accepts 10 x).mp (hu x hx)
  obtain ⟨m, hm⟩ := Nat.exists_eq_add_of_le hthree
  rw [hm, List.replicate_add] at hrun
  change s = u ++ rest at hafter
  refine h ⟨List.replicate m 10 ++ rest, ?_⟩
  rw [hafter, hrun, List.append_assoc]
  rfl

/-- The substitution squeezes the text. -/
theorem reSub_blankLines (s : PyStr) : reSub blankLines (fun _ ↦ [10, 10]) s = squeeze 0 s := by
  have htestless : testless blankLines = true := by
    rw [blankLines_eq]
    rfl
  have hconsumes : consumes blankLines = true := by
    rw [blankLines_eq]
    rfl
  obtain ⟨ps, tail, hcuts⟩ := exists_cuts (M := sre) hconsumes s
  rw [reSub_of_cuts htestless hconsumes hcuts (f := fun _ ↦ [10, 10]) fun _ ↦ rfl]
  clear htestless
  induction hcuts with
  | @last s hnone =>
    refine ((squeeze_eq_self_iff (Nat.zero_le 2) s).mpr fun hgap ↦ ?_).symm
    obtain ⟨v, z, rfl⟩ := hgap
    obtain ⟨n, w, hrun, hn, hw⟩ := exists_run (List.prefix_append gap z)
    have hhere := hnone v (gap ++ z) (by simp)
    rw [hrun, readAt_blankLines hn hw] at hhere
    cases hhere
  | @hit u w x ps tail hskip hhere hrest ih =>
    have hgap : gap <+: x.text ++ w := by
      by_contra hno
      rw [readAt_blankLines_none hno] at hhere
      cases hhere
    obtain ⟨n, w', hrun, hn, hw⟩ := exists_run hgap
    rw [hrun, readAt_blankLines hn hw] at hhere
    obtain rfl := Option.some.inj hhere
    obtain rfl := List.append_cancel_left hrun
    have hfree : ∀ v z, u = v ++ z → z ≠ [] → ¬ gap <+: z ++ (List.replicate n 10 ++ w) := by
      intro v z hvz hz hgap
      obtain ⟨k, w', hrun, hk, hw'⟩ := exists_run hgap
      have hnone := hskip v z hvz hz
      rw [hrun, readAt_blankLines hk hw'] at hnone
      cases hnone
    have hwhole : squeeze 0 u = u := by
      refine (squeeze_eq_self_iff (Nat.zero_le 2) u).mpr fun hinfix ↦ ?_
      obtain ⟨a, b, hu⟩ := hinfix
      rw [List.replicate_zero, List.nil_append, List.append_assoc] at hu
      refine hfree a (gap ++ b) hu.symm (List.cons_ne_nil _ _) ?_
      rw [List.append_assoc]
      exact List.prefix_append _ _
    have hlast : u.getLast? ≠ some 10 := by
      intro hlast
      obtain ⟨a, rfl⟩ := List.getLast?_eq_some_iff.mp hlast
      obtain ⟨m, rfl⟩ := Nat.exists_eq_add_of_le hn
      exact hfree a [10] rfl (List.cons_ne_nil _ _) ⟨10 :: (List.replicate m 10 ++ w), by
        rw [List.replicate_add, List.append_assoc]
        rfl⟩
    rw [squeeze_append_last hlast, hwhole, squeeze_run (by omega) hw, List.flatMap_cons, ← ih]
    simp only [List.append_assoc]

end

end FourCE.Orchestrator
