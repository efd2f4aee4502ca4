import FourCE.Python.Text
import Mathlib.Data.List.TakeWhile

/-!
# Lines and the cells of markdown rows

What `str.splitlines` makes of lines joined by newlines, and what is left of a row of cells when it
is split at its pipes.
-/

namespace FourCE.Python

/-! ## Lines -/

/-- A text without a character that ends a line. -/
def OneLine (s : PyStr) : Prop := ∀ c ∈ s, isLineEnd c = false

instance (s : PyStr) : Decidable (OneLine s) :=
  decidable_of_iff ((s.all fun c ↦ !isLineEnd c) = true) (by simp [OneLine])

theorem OneLine.append {s t : PyStr} (hs : OneLine s) (ht : OneLine t) : OneLine (s ++ t) := by
  intro c hc
  rcases List.mem_append.mp hc with hc | hc
  · exact hs c hc
  · exact ht c hc

theorem OneLine.subset {s t : PyStr} (h : OneLine t) (hs : s ⊆ t) : OneLine s := fun c hc ↦ h c (hs hc)

theorem splitLinesFrom_cons {line : PyStr} {c : CodePoint} (hc : isLineEnd c = false) (s : PyStr) :
    splitLinesFrom line (c :: s) = splitLinesFrom (c :: line) s := by
  have hne : c ≠ 13 := by
    rintro rfl
    exact absurd hc (by decide)
  rw [splitLinesFrom.eq_3, if_neg (by simp [hc])]
  rintro t h rfl
  exact hne h

theorem splitLinesFrom_append {s : PyStr} (hs : OneLine s) (line t : PyStr) :
    splitLinesFrom line (s ++ t) = splitLinesFrom (s.reverse ++ line) t := by
  induction s generalizing line with
  | nil => rfl
  | cons c s ih =>
    rw [List.cons_append, splitLinesFrom_cons (hs c List.mem_cons_self),
      ih fun d hd ↦ hs d (List.mem_cons_of_mem c hd)]
    simp

/-- A line and a newline in front of a text. -/
theorem splitLines_line {s : PyStr} (hs : OneLine s) (t : PyStr) :
    splitLines (s ++ 10 :: t) = s :: splitLines t := by
  rw [splitLines, splitLinesFrom_append hs, splitLinesFrom.eq_3]
  · simp [isLineEnd, splitLines]
  · intro u h
    exact absurd h (by decide)

theorem splitLines_of_oneLine {s : PyStr} (hs : OneLine s) (hne : s ≠ []) : splitLines s = [s] := by
  rw [splitLines, ← List.append_nil s, splitLinesFrom_append hs, splitLinesFrom]
  simp [hne]

/-- The first line of a text runs to the first character that ends a line. -/
theorem splitLinesFrom_head (line s : PyStr) (hne : line ≠ [] ∨ s ≠ []) :
    ∃ rest, splitLinesFrom line s = (line.reverse ++ s.takeWhile fun c ↦ !isLineEnd c) :: rest := by
  fun_induction splitLinesFrom line s with
  | case1 line hline => simp_all
  | case2 line hline => simp
  | case3 line s ih => exact ⟨splitLinesFrom [] s, by simp [isLineEnd]⟩
  | case4 line c s hcr hend ih => exact ⟨splitLinesFrom [] s, by simp [hend]⟩
  | case5 line c s hcr hend ih =>
    obtain ⟨rest, hrest⟩ := ih (Or.inl (List.cons_ne_nil c line))
    refine ⟨rest, ?_⟩
    rw [hrest, List.takeWhile_cons_of_pos (by simpa using hend)]
    simp

theorem splitLines_head {s : PyStr} (hne : s ≠ []) :
    ∃ rest, splitLines s = (s.takeWhile fun c ↦ !isLineEnd c) :: rest := by
  obtain ⟨rest, hrest⟩ := splitLinesFrom_head [] s (Or.inr hne)
  exact ⟨rest, by rw [splitLines, hrest]; rfl⟩

theorem oneLine_takeWhile (s : PyStr) : OneLine (s.takeWhile fun c ↦ !isLineEnd c) := by
  intro c hc
  simpa using List.all_eq_true.mp List.all_takeWhile c hc

theorem oneLine_of_mem_splitLinesFrom {line s : PyStr} (hline : OneLine line) :
    ∀ t ∈ splitLinesFrom line s, OneLine t := by
  have hreverse : ∀ {u : PyStr}, OneLine u → OneLine u.reverse :=
    fun hu ↦ hu.subset (List.reverse_subset.mpr (List.Subset.refl _))
  have hnil : OneLine [] := fun c hc ↦ absurd hc List.not_mem_nil
  fun_induction splitLinesFrom line s with
  | case1 line hempty => simp
  | case2 line hempty => simpa using hreverse hline
  | case3 line s ih =>
    intro t ht
    rcases List.mem_cons.mp ht with rfl | ht
    · exact hreverse hline
    · exact ih hnil t ht
  | case4 line c s hcr hend ih =>
    intro t ht
    rcases List.mem_cons.mp ht with rfl | ht
    · exact hreverse hline
    · exact ih hnil t ht
  | case5 line c s hcr hend ih =>
    refine ih fun d hd ↦ ?_
    rcases List.mem_cons.mp hd with rfl | hd
    · simpa using hend
    · exact hline d hd

theorem oneLine_of_mem_splitLines {s t : PyStr} (h : t ∈ splitLines s) : OneLine t :=
  oneLine_of_mem_splitLinesFrom (fun _ hc ↦ absurd hc List.not_mem_nil) t h

/-- A text that does not end within a line keeps its lines when a newline and a text follow it. -/
theorem splitLinesFrom_newline {line s : PyStr} (t : PyStr)
    (hlast : ∀ c ∈ (line.reverse ++ s).getLast?, isLineEnd c = false)
    (hne : line ≠ [] ∨ s ≠ []) :
    splitLinesFrom line (s ++ 10 :: t) = splitLinesFrom line s ++ splitLines t := by
  fun_induction splitLinesFrom line s with
  | case1 line hline => simp_all
  | case2 line hline => simp [splitLinesFrom, isLineEnd, splitLines]
  | case3 line s ih =>
    rw [List.cons_append, List.cons_append, splitLinesFrom]
    have hs : s ≠ [] := by
      rintro rfl
      exact absurd (hlast 10 (by simp)) (by decide)
    rw [ih _ (Or.inr hs)]
    · rfl
    · intro c hc
      refine hlast c ?_
      rw [List.reverse_nil, List.nil_append] at hc
      rw [List.getLast?_append_of_ne_nil _ (by simp), List.getLast?_cons_of_ne_nil (by simp),
        List.getLast?_cons_of_ne_nil hs]
      exact hc
  | case4 line c s hcr hend ih =>
    have hs : s ≠ [] := by
      rintro rfl
      rw [hlast c (by simp)] at hend
      cases hend
    rw [List.cons_append, splitLinesFrom.eq_3, if_pos hend]
    · rw [ih _ (Or.inr hs)]
      · rfl
      · intro d hd
        refine hlast d ?_
        rw [List.reverse_nil, List.nil_append] at hd
        rw [List.getLast?_append_of_ne_nil _ (by simp), List.getLast?_cons_of_ne_nil hs]
        exact hd
    · rintro u rfl hu
      cases s with
      | nil => exact hs rfl
      | cons d s =>
        cases hu
        exact hcr s rfl rfl
  | case5 line c s hcr hend ih =>
    rw [List.cons_append, splitLinesFrom_cons (by simpa using hend)]
    refine ih ?_ (Or.inl (List.cons_ne_nil c line))
    simpa using hlast

theorem splitLines_newline {s : PyStr} (t : PyStr) (hne : s ≠ [])
    (hlast : ∀ c ∈ s.getLast?, isLineEnd c = false) :
    splitLines (s ++ 10 :: t) = splitLines s ++ splitLines t :=
  splitLinesFrom_newline t (by simpa using hlast) (Or.inr hne)

theorem join_append {sep : PyStr} (xs : List PyStr) {ys : List PyStr} (hys : ys ≠ []) :
    join sep (xs ++ ys) = xs.flatMap (· ++ sep) ++ join sep ys := by
  induction xs with
  | nil => rfl
  | cons x xs ih =>
    obtain ⟨y, rest, hrest⟩ := List.exists_cons_of_ne_nil (List.append_ne_nil_of_right_ne_nil xs hys)
    rw [List.cons_append, hrest, join, ← hrest, ih]
    simp

/-- Lines joined by newlines are split into these lines. -/
theorem splitLines_join {xs : List PyStr} (hxs : ∀ x ∈ xs, OneLine x)
    (hlast : ∀ x ∈ xs.getLast?, x ≠ []) : splitLines (join [10] xs) = xs := by
  induction xs with
  | nil => rfl
  | cons x xs ih =>
    cases xs with
    | nil => exact splitLines_of_oneLine (hxs x List.mem_cons_self) (hlast x rfl)
    | cons y rest =>
      have hsplit := splitLines_line (hxs x List.mem_cons_self) (join [10] (y :: rest))
      rw [ih (fun z hz ↦ hxs z (List.mem_cons_of_mem x hz)) (by simpa using hlast)] at hsplit
      rw [join, List.append_assoc]
      exact hsplit

theorem oneLine_digitsText (ds : List (Fin 10)) : OneLine (digitsText ds) := by
  have hdigit : ∀ d : Fin 10, isLineEnd (digitChar d) = false := by decide
  intro c hc
  obtain ⟨d, -, rfl⟩ := List.mem_map.mp hc
  exact hdigit d

theorem oneLine_natText (n : ℕ) : OneLine (natText n) := oneLine_digitsText _

theorem oneLine_intText (i : ℤ) : OneLine (intText i) := by
  rw [intText]
  split
  · exact OneLine.append (by decide) (oneLine_natText _)
  · exact oneLine_natText _

theorem oneLine_join {sep : PyStr} (hsep : OneLine sep) {xs : List PyStr} (hxs : ∀ x ∈ xs, OneLine x) :
    OneLine (join sep xs) := by
  induction xs with
  | nil => exact fun c hc ↦ absurd hc List.not_mem_nil
  | cons x xs ih =>
    cases xs with
    | nil => exact hxs x List.mem_cons_self
    | cons y rest =>
      exact ((hxs x List.mem_cons_self).append hsep).append
        (ih fun z hz ↦ hxs z (List.mem_cons_of_mem x hz))

theorem head?_join (sep : PyStr) {x : PyStr} (hx : x ≠ []) (xs : List PyStr) :
    (join sep (x :: xs)).head? = x.head? := by
  cases xs with
  | nil => rfl
  | cons y rest => rw [join, List.append_assoc, List.head?_append_of_ne_nil x hx]

/-! ## Cells -/

/-- `"| " + " | ".join(cells) + " |"`. -/
def pipeRow (cells : List PyStr) : PyStr := py "| " ++ join (py " | ") cells ++ py " |"

/-- `[c.strip() for c in line.strip().strip("|").split("|")]`. -/
def pipeCells (line : PyStr) : List PyStr :=
  ((stripOf (py "|") (strip line)).splitOn 124).map strip

theorem length_splitOn (x : CodePoint) (s : PyStr) : (s.splitOn x).length = s.count x + 1 := by
  induction s with
  | nil => simp
  | cons c s ih =>
    rw [List.splitOn_cons_eq_if_modifyHead]
    by_cases hc : c = x
    · simp [hc, ih]
    · simp [hc, ih]

theorem of_mem_splitOn {x : CodePoint} {s t : PyStr} (h : t ∈ s.splitOn x) : t.Sublist s ∧ x ∉ t := by
  induction s generalizing t with
  | nil =>
    rw [List.splitOn_nil, List.mem_singleton] at h
    simp [h]
  | cons c s ih =>
    rw [List.splitOn_cons_eq_if_modifyHead] at h
    split at h
    case isTrue hc =>
      rcases List.mem_cons.mp h with rfl | h
      · simp
      · exact ⟨(ih h).1.trans (List.sublist_cons_self c s), (ih h).2⟩
    case isFalse hc =>
      obtain ⟨u, us, hus⟩ := List.exists_cons_of_ne_nil (List.splitOn_ne_nil x s)
      rw [hus] at ih
      rw [hus, List.modifyHead_cons] at h
      rcases List.mem_cons.mp h with rfl | h
      · obtain ⟨hsub, hu⟩ := ih List.mem_cons_self
        refine ⟨hsub.cons_cons c, fun hx ↦ ?_⟩
        rcases List.mem_cons.mp hx with rfl | hx
        · simp at hc
        · exact hu hx
      · obtain ⟨hsub, ht⟩ := ih (List.mem_cons_of_mem u h)
        exact ⟨hsub.trans (List.sublist_cons_self c s), ht⟩

theorem strip_sublist (s : PyStr) : (strip s).Sublist s := by
  have hback := (List.dropWhile_sublist isWhite (l := (s.dropWhile isWhite).reverse)).reverse
  rw [List.reverse_reverse] at hback
  exact hback.trans (List.dropWhile_sublist isWhite)

/-- Stripping takes white space only. -/
theorem mem_strip {c : CodePoint} (hc : isWhite c = false) {s : PyStr} (h : c ∈ s) : c ∈ strip s := by
  have hdrop : ∀ {t : PyStr}, c ∈ t → c ∈ t.dropWhile isWhite := by
    intro t ht
    rw [← List.takeWhile_append_dropWhile (p := isWhite) (l := t)] at ht
    rcases List.mem_append.mp ht with ht | ht
    · have hwhite := List.all_eq_true.mp List.all_takeWhile c ht
      rw [hc] at hwhite
      cases hwhite
    · exact ht
  rw [strip, List.mem_reverse]
  exact hdrop (List.mem_reverse.mpr (hdrop h))

theorem stripOf_sublist (chars s : PyStr) : (stripOf chars s).Sublist s := by
  have hback := (List.dropWhile_sublist (· ∈ chars) (l := (s.dropWhile (· ∈ chars)).reverse)).reverse
  rw [List.reverse_reverse] at hback
  exact hback.trans (List.dropWhile_sublist _)

/-- The cells of a line are stripped, and hold nothing that is not in the line, and no pipe. -/
theorem sublist_of_mem_pipeCells {s c : PyStr} (h : c ∈ pipeCells s) : c.Sublist s := by
  obtain ⟨t, ht, rfl⟩ := List.mem_map.mp h
  exact (strip_sublist t).trans ((of_mem_splitOn ht).1.trans
    ((stripOf_sublist _ _).trans (strip_sublist s)))

theorem not_mem_of_mem_pipeCells {s c : PyStr} (h : c ∈ pipeCells s) : 124 ∉ c := by
  obtain ⟨t, ht, rfl⟩ := List.mem_map.mp h
  exact fun hc ↦ (of_mem_splitOn ht).2 ((strip_sublist t).subset hc)

theorem stripped_of_mem_pipeCells {s c : PyStr} (h : c ∈ pipeCells s) : Stripped c := by
  obtain ⟨t, -, rfl⟩ := List.mem_map.mp h
  exact stripped_strip t

/-- A line that begins with a pipe has no more cells than pipes. -/
theorem length_pipeCells_le {s : PyStr} (h : s.head? = some 124) :
    (pipeCells s).length ≤ s.count 124 := by
  obtain ⟨t, rfl⟩ : ∃ t, s = 124 :: t := by
    cases s with
    | nil => cases h
    | cons c t => exact ⟨t, by rw [Option.some.inj h]⟩
  have hdrop : (124 :: t : PyStr).dropWhile isWhite = 124 :: t :=
    List.dropWhile_cons_of_neg (by decide)
  obtain ⟨u, hu, hsub⟩ : ∃ u, strip (124 :: t) = 124 :: u ∧ u.Sublist t := by
    -- Stripping on the right stops at the pipe at the latest.
    rw [strip, hdrop, List.reverse_cons]
    cases hrest : t.reverse.dropWhile isWhite with
    | nil =>
      have hall : ∀ c ∈ t.reverse, isWhite c = true := List.dropWhile_eq_nil_iff.mp hrest
      refine ⟨[], ?_, List.nil_sublist t⟩
      rw [List.dropWhile_append_of_pos hall, List.dropWhile_cons_of_neg (by decide)]
      rfl
    | cons c rest =>
      refine ⟨(c :: rest).reverse, ?_, ?_⟩
      · rw [List.dropWhile_append, hrest]
        simp
      · have hsub := (List.dropWhile_sublist isWhite (l := t.reverse)).reverse
        rwa [hrest, List.reverse_reverse] at hsub
  have hinner : (stripOf (py "|") (124 :: u)).Sublist u := by
    rw [stripOf, List.dropWhile_cons_of_pos (by decide)]
    exact stripOf_sublist (py "|") u
  rw [pipeCells, List.length_map, length_splitOn, hu, List.count_cons_self]
  exact Nat.succ_le_succ ((hinner.count_le 124).trans (hsub.count_le 124))

/-! ## Rows -/

theorem join_pipes (cells : List PyStr) (hne : cells ≠ []) :
    32 :: join (py " | ") cells ++ [32] =
      [124].intercalate (cells.map fun c ↦ 32 :: c ++ [32]) := by
  induction cells with
  | nil => exact absurd rfl hne
  | cons c cells ih =>
    cases cells with
    | nil => simp [join, List.intercalate]
    | cons d rest =>
      have hsep : py " | " = [32, 124, 32] := rfl
      have htail := ih (List.cons_ne_nil d rest)
      rw [join, List.map_cons, List.intercalate_cons_of_ne_nil (by simp), ← htail, hsep]
      simp

theorem head?_pipeRow (cells : List PyStr) : (pipeRow cells).head? = some 124 := rfl

theorem stripped_pipeRow (cells : List PyStr) : Stripped (pipeRow cells) := by
  constructor
  · intro c hc
    cases hc
    decide
  · intro c hc
    rw [pipeRow, List.getLast?_append_of_ne_nil _ (by decide)] at hc
    cases hc
    decide

theorem sublist_join {sep x : PyStr} {xs : List PyStr} (hx : x ∈ xs) : x.Sublist (join sep xs) := by
  induction xs with
  | nil => exact absurd hx List.not_mem_nil
  | cons y ys ih =>
    cases ys with
    | nil =>
      rw [List.mem_singleton.mp hx]
      exact List.Sublist.refl y
    | cons z rest =>
      rw [join]
      rcases List.mem_cons.mp hx with rfl | hx
      · exact (List.sublist_append_left x sep).trans (List.sublist_append_left _ _)
      · exact (ih hx).trans (List.sublist_append_right _ _)

theorem sublist_pipeRow {c : PyStr} {cells : List PyStr} (hc : c ∈ cells) : c.Sublist (pipeRow cells) :=
  (sublist_join hc).trans ((List.sublist_append_right _ _).trans (List.sublist_append_left _ _))

theorem oneLine_pipeRow_iff (cells : List PyStr) :
    OneLine (pipeRow cells) ↔ ∀ c ∈ cells, OneLine c := by
  constructor
  · exact fun h c hc ↦ h.subset (sublist_pipeRow hc).subset
  · intro h
    exact (OneLine.append (by decide) (oneLine_join (by decide) h)).append
      (by decide)

/-- A row is split into its cells, when none of them holds a pipe. -/
theorem pipeCells_pipeRow {cells : List PyStr} (hne : cells ≠ []) (hpipe : ∀ c ∈ cells, 124 ∉ c) :
    pipeCells (pipeRow cells) = cells.map strip := by
  have hrow : pipeRow cells = 124 :: ((32 :: join (py " | ") cells ++ [32]) ++ [124]) := by
    have hleft : py "| " = [124, 32] := rfl
    have hright : py " |" = [32, 124] := rfl
    rw [pipeRow, hleft, hright]
    simp
  have hstrip : stripOf (py "|") (pipeRow cells) = 32 :: join (py " | ") cells ++ [32] := by
    have hpiped : py "|" = [124] := rfl
    rw [hrow, hpiped, stripOf, List.dropWhile_cons_of_pos (by decide), List.cons_append, List.cons_append,
      List.dropWhile_cons_of_neg (by decide), rstripOf, ← List.cons_append, ← List.cons_append,
      List.reverse_append, List.reverse_singleton, List.singleton_append,
      List.dropWhile_cons_of_pos (by decide), List.reverse_append, List.reverse_singleton,
      List.singleton_append, List.dropWhile_cons_of_neg (by decide)]
    simp
  have hpad : ∀ c : PyStr, strip (32 :: c ++ [32]) = strip c := by
    intro c
    rw [strip, List.cons_append, List.dropWhile_cons_of_pos (by decide), strip]
    cases hc : c.dropWhile isWhite with
    | nil =>
      have hall : ∀ d ∈ c, isWhite d = true := List.dropWhile_eq_nil_iff.mp hc
      rw [List.dropWhile_append_of_pos hall]
      rfl
    | cons d rest =>
      rw [List.dropWhile_append, hc]
      simp only [List.isEmpty_cons, Bool.false_eq_true, if_false]
      rw [List.reverse_append, List.reverse_singleton, List.singleton_append,
        List.dropWhile_cons_of_pos (by decide)]
  rw [pipeCells, (stripped_pipeRow cells).strip_eq, hstrip, join_pipes cells hne,
    List.splitOn_intercalate]
  · rw [List.map_map]
    exact List.map_congr_left fun c _ ↦ hpad c
  · intro t ht
    obtain ⟨c, hc, rfl⟩ := List.mem_map.mp ht
    have hpc := hpipe c hc
    simp [hpc]
  · simpa using hne

end FourCE.Python
