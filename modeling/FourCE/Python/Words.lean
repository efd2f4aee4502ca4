import FourCE.Python.Text

/-!
# Words of a text

What `str.split` returns, and which texts occur in it.
-/

namespace FourCE.Python

theorem contains_iff (needle s : PyStr) : contains needle s = true ↔ needle <:+: s := by
  induction s with
  | nil => simp [contains]
  | cons c s ih => rw [contains, Bool.or_eq_true, ih, List.isPrefixOf_iff_prefix, List.infix_cons_iff]

/-- No white space in a text. -/
def Solid (s : PyStr) : Prop := ∀ c ∈ s, isWhite c = false

instance (s : PyStr) : Decidable (Solid s) := inferInstanceAs (Decidable (∀ c ∈ s, isWhite c = false))

theorem wordsFrom_append {x : PyStr} (h : Solid x) (word s : PyStr) :
    wordsFrom word (x ++ s) = wordsFrom (x.reverse ++ word) s := by
  induction x generalizing word with
  | nil => rfl
  | cons c x ih =>
    rw [List.cons_append, wordsFrom, h c List.mem_cons_self,
      if_neg Bool.false_ne_true, ih fun d hd ↦ h d (List.mem_cons_of_mem _ hd)]
    simp

/-- A word that has begun begins the first word. -/
theorem exists_word_of_begun {word : PyStr} (hword : word ≠ []) (s : PyStr) :
    ∃ x ∈ wordsFrom word s, word.reverse <+: x := by
  induction s generalizing word with
  | nil => exact ⟨word.reverse, by simp [wordsFrom, hword], List.prefix_rfl⟩
  | cons c s ih =>
    rw [wordsFrom]
    split_ifs with hwhite hnone
    · exact absurd (List.isEmpty_iff.mp hnone) hword
    · exact ⟨word.reverse, List.mem_cons_self, List.prefix_rfl⟩
    · obtain ⟨x, hx, hbegins⟩ := ih (List.cons_ne_nil c word)
      rw [List.reverse_cons] at hbegins
      exact ⟨x, hx, (List.prefix_append _ _).trans hbegins⟩

theorem mem_wordsFrom_of_white {word s x : PyStr} {c : CodePoint} (hc : isWhite c = true)
    (hx : x ∈ wordsFrom [] s) : x ∈ wordsFrom word (c :: s) := by
  rw [wordsFrom, if_pos hc]
  split_ifs
  · exact hx
  · exact List.mem_cons_of_mem _ hx

/-- A solid text occurs within a word. -/
theorem exists_word_of_infix {a s : PyStr} (ha : a ≠ []) (hsolid : Solid a) (h : a <:+: s) :
    ∃ x ∈ words s, a <:+: x := by
  obtain ⟨before, after, rfl⟩ := h
  suffices hfrom : ∀ word, ∃ x ∈ wordsFrom word (before ++ a ++ after), a <:+: x from hfrom []
  induction before with
  | nil =>
    intro word
    rw [List.nil_append, wordsFrom_append hsolid]
    have hbegun : a.reverse ++ word ≠ [] := by simp [ha]
    obtain ⟨x, hx, hbegins⟩ := exists_word_of_begun hbegun after
    refine ⟨x, hx, List.IsInfix.trans ?_ hbegins.isInfix⟩
    rw [List.reverse_append, List.reverse_reverse]
    exact (List.suffix_append _ _).isInfix
  | cons c before ih =>
    intro word
    cases hc : isWhite c with
    | true =>
      obtain ⟨x, hx, hmem⟩ := ih []
      exact ⟨x, mem_wordsFrom_of_white hc hx, hmem⟩
    | false =>
      rw [List.cons_append, List.cons_append, wordsFrom, hc, if_neg Bool.false_ne_true]
      exact ih (c :: word)

/-- A solid text with white space behind it ends a word. -/
theorem exists_word_of_suffix {a before after : PyStr} {c : CodePoint} (ha : a ≠ [])
    (hsolid : Solid a) (hc : isWhite c = true) :
    ∃ x ∈ words (before ++ a ++ c :: after), a <:+ x := by
  suffices hfrom : ∀ word, ∃ x ∈ wordsFrom word (before ++ a ++ c :: after), a <:+ x from hfrom []
  induction before with
  | nil =>
    intro word
    refine ⟨word.reverse ++ a, ?_, List.suffix_append _ _⟩
    rw [List.nil_append, wordsFrom_append hsolid, wordsFrom, if_pos hc,
      if_neg (by simp [List.isEmpty_iff, ha])]
    simp
  | cons d before ih =>
    intro word
    cases hd : isWhite d with
    | true =>
      obtain ⟨x, hx, hmem⟩ := ih []
      exact ⟨x, mem_wordsFrom_of_white hd hx, hmem⟩
    | false =>
      rw [List.cons_append, List.cons_append, wordsFrom, hd, if_neg Bool.false_ne_true]
      exact ih (d :: word)

theorem solid_of_mem_words {s x : PyStr} (h : x ∈ words s) : x ≠ [] ∧ Solid x := by
  suffices hfrom : ∀ word, Solid word → x ∈ wordsFrom word s → x ≠ [] ∧ Solid x from
    hfrom [] (by simp [Solid]) h
  clear h
  induction s with
  | nil =>
    intro word hword hx
    rw [wordsFrom] at hx
    split_ifs at hx with hnone
    · cases hx
    · rw [List.mem_singleton] at hx
      subst hx
      exact ⟨by simpa using hnone, fun c hc ↦ hword c (List.mem_reverse.mp hc)⟩
  | cons c s ih =>
    intro word hword hx
    rw [wordsFrom] at hx
    split_ifs at hx with hwhite hnone
    · exact ih [] (by simp [Solid]) hx
    · rcases List.mem_cons.mp hx with rfl | hx
      · exact ⟨by simpa using hnone, fun c hc ↦ hword c (List.mem_reverse.mp hc)⟩
      · exact ih [] (by simp [Solid]) hx
    · refine ih (c :: word) (fun d hd ↦ ?_) hx
      rcases List.mem_cons.mp hd with rfl | hd
      · simpa using hwhite
      · exact hword d hd

/-- Words joined by blanks are the words of what they make. -/
theorem words_join {ws : List PyStr} (h : ∀ x ∈ ws, x ≠ [] ∧ Solid x) :
    words (join (py " ") ws) = ws := by
  induction ws with
  | nil => rfl
  | cons x ws ih =>
    obtain ⟨hx, hsolid⟩ := h x List.mem_cons_self
    cases ws with
    | nil =>
      have hwords := wordsFrom_append hsolid [] []
      rw [List.append_nil, List.append_nil] at hwords
      rw [join, words, hwords, wordsFrom, if_neg (by simp [hx]), List.reverse_reverse]
    | cons y ws =>
      have hblank : isWhite 32 = true := by decide
      have hrest := ih fun z hz ↦ h z (List.mem_cons_of_mem _ hz)
      rw [join, words, List.append_assoc, wordsFrom_append hsolid, List.append_nil]
      change wordsFrom x.reverse (32 :: join (py " ") (y :: ws)) = _
      rw [wordsFrom, if_pos hblank, if_neg (by simp [hx]), List.reverse_reverse, ← words, hrest]

theorem words_join_words (s : PyStr) : words (join (py " ") (words s)) = words s :=
  words_join fun _ hx ↦ solid_of_mem_words hx

end FourCE.Python
