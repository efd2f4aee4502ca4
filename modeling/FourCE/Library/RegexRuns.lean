import FourCE.Library.RegexScan
import Mathlib.Logic.Relation

/-!
# What the ends of a run say about the text

Each operation of an expression by the states its runs end in, and what a search finds by them: a
search succeeds where some run does.
-/

namespace FourCE.Library.Regex

variable {C A α : Type} {M : Meaning C A α}

/-- The state behind a stretch of text. -/
def State.past (s : State α) (u rest : List α) : State α := ⟨u.reverse ++ s.before, rest, s.groups⟩

@[simp] theorem State.past_after (s : State α) (u rest : List α) : (s.past u rest).after = rest := rfl

@[simp] theorem State.past_groups (s : State α) (u rest : List α) : (s.past u rest).groups = s.groups := rfl

@[simp] theorem State.past_before (s : State α) (u rest : List α) :
    (s.past u rest).before = u.reverse ++ s.before := rfl

theorem State.past_past (s : State α) (u v r rest : List α) :
    (s.past u r).past v rest = s.past (u ++ v) rest := by
  simp [State.past]

theorem mem_run_seq {r q : Re C A} {s t : State α} :
    t ∈ run M (.seq r q) s ↔ ∃ u ∈ run M r s, t ∈ run M q u := List.mem_flatMap

theorem mem_run_alt {r q : Re C A} {s t : State α} :
    t ∈ run M (.alt r q) s ↔ t ∈ run M r s ∨ t ∈ run M q s := List.mem_append

theorem mem_run_eps {s t : State α} : t ∈ run M (.eps : Re C A) s ↔ t = s := List.mem_singleton

theorem mem_run_test {a : A} {s t : State α} :
    t ∈ run M (.test a : Re C A) s ↔ M.holds a s.before s.after = true ∧ t = s := by
  rw [run]
  split_ifs with h <;> simp [h]

theorem mem_run_char {c : C} {s t : State α} :
    t ∈ run M (.char c : Re C A) s ↔ ∃ x rest, s.after = x :: rest ∧ M.accepts c x = true ∧ t = s.past [x] rest := by
  rw [run]
  cases hafter : s.after with
  | nil => simp
  | cons x rest =>
    simp only
    split_ifs with h
    · simp [h, State.past]
    · simp [h]

theorem mem_run_group {n : ℕ} {r : Re C A} {s t : State α} :
    t ∈ run M (.group n r) s ↔ ∃ u ∈ run M r s, t = { u with groups := (n, s.upTo u) :: u.groups } := by
  rw [run, List.mem_map]
  simp only [eq_comm]

theorem upTo_past (s : State α) {u rest : List α} (h : s.after = u ++ rest) : s.upTo (s.past u rest) = u := by
  simp [State.upTo, h]

/-- One more iteration of a class, or none. -/
theorem mem_repeats_char_succ {c : C} {greedy : Bool} {fuel least : ℕ} {most : Option ℕ} {s t : State α} :
    t ∈ repeats (run M (.char c : Re C A)) greedy (fuel + 1) least most s ↔
      least = 0 ∧ t = s ∨
        most ≠ some 0 ∧ ∃ x rest, s.after = x :: rest ∧ M.accepts c x = true ∧
          t ∈ repeats (run M (.char c : Re C A)) greedy fuel (least - 1) (most.map (· - 1)) (s.past [x] rest) := by
  have hagain : t ∈ again (run M (.char c : Re C A))
      (repeats (run M (.char c : Re C A)) greedy fuel (least - 1) (most.map (· - 1))) least most s ↔
        most ≠ some 0 ∧ ∃ x rest, s.after = x :: rest ∧ M.accepts c x = true ∧
          t ∈ repeats (run M (.char c : Re C A)) greedy fuel (least - 1) (most.map (· - 1)) (s.past [x] rest) := by
    rw [again]
    split_ifs with hmost
    · simp [hmost]
    · simp only [List.mem_flatMap, mem_run_char, ne_eq, hmost, not_false_eq_true, true_and]
      constructor
      · rintro ⟨u, ⟨x, rest, hafter, hx, rfl⟩, ht⟩
        rw [if_pos (Or.inr (by simp [hafter]))] at ht
        exact ⟨x, rest, hafter, hx, ht⟩
      · rintro ⟨x, rest, hafter, hx, ht⟩
        refine ⟨_, ⟨x, rest, hafter, hx, rfl⟩, ?_⟩
        rwa [if_pos (Or.inr (by simp [hafter]))]
  rw [repeats, ← hagain]
  split_ifs with hleast hgreedy
  · simp [Nat.ne_of_gt hleast]
  · simp [Nat.eq_zero_of_not_pos hleast, or_comm]
  · simp [Nat.eq_zero_of_not_pos hleast]

theorem mem_repeats_char {c : C} {greedy : Bool} {fuel least : ℕ} {most : Option ℕ} {s t : State α}
    (hfuel : s.after.length < fuel) :
    t ∈ repeats (run M (.char c : Re C A)) greedy fuel least most s ↔
      ∃ u rest, s.after = u ++ rest ∧ (∀ x ∈ u, M.accepts c x = true) ∧ least ≤ u.length ∧
        (∀ k, most = some k → u.length ≤ k) ∧ t = s.past u rest := by
  induction fuel generalizing least most s with
  | zero => omega
  | succ fuel ih =>
    rw [mem_repeats_char_succ]
    constructor
    · rintro (⟨hleast, rfl⟩ | ⟨hmost, x, rest, hafter, hx, ht⟩)
      · exact ⟨[], t.after, rfl, by simp, by omega, by simp, rfl⟩
      · have hlength : rest.length < fuel := by
          rw [hafter, List.length_cons] at hfuel
          omega
        obtain ⟨u, more, hrest, hu, hle, hbound, rfl⟩ := (ih (s := s.past [x] rest) hlength).mp ht
        refine ⟨x :: u, more, by rw [hafter]; exact congrArg (x :: ·) hrest, by simpa [hx] using hu,
          by rw [List.length_cons]; omega, fun k hk ↦ ?_, State.past_past s [x] u rest more⟩
        subst hk
        have hle := hbound (k - 1) rfl
        have hk : k ≠ 0 := fun h ↦ hmost (by rw [h])
        rw [List.length_cons]
        omega
    · rintro ⟨u, rest, hafter, hu, hleast, hmost, rfl⟩
      cases u with
      | nil => exact Or.inl ⟨Nat.eq_zero_of_le_zero hleast, by cases s; simp_all [State.past]⟩
      | cons x u =>
        rw [List.length_cons] at hleast
        refine Or.inr ⟨fun h ↦ ?_, x, u ++ rest, hafter, hu x List.mem_cons_self, ?_⟩
        · have := hmost 0 h
          simp at this
        · rw [ih (s := s.past [x] (u ++ rest))]
          · refine ⟨u, rest, rfl, fun y hy ↦ hu y (List.mem_cons_of_mem x hy), by omega, fun k hk ↦ ?_,
              (State.past_past s [x] u (u ++ rest) rest).symm⟩
            obtain ⟨j, hj, rfl⟩ := Option.map_eq_some_iff.mp hk
            have := hmost j hj
            rw [List.length_cons] at this
            omega
          · rw [hafter, List.cons_append, List.length_cons] at hfuel
            rw [State.past_after]
            omega

/-- A repeated class reads a stretch of text that it accepts, of a length within its bounds. -/
theorem mem_run_rep_char {c : C} {greedy : Bool} {least : ℕ} {most : Option ℕ} {s t : State α} :
    t ∈ run M (.rep greedy least most (.char c) : Re C A) s ↔
      ∃ u rest, s.after = u ++ rest ∧ (∀ x ∈ u, M.accepts c x = true) ∧ least ≤ u.length ∧
        (∀ k, most = some k → u.length ≤ k) ∧ t = s.past u rest := by
  rw [run]
  exact mem_repeats_char (by omega)

/-- A repetition of what always reads something reaches what its steps reach. -/
theorem mem_run_rep_iff {r : Re C A} (hr : consumes r = true) {greedy : Bool} {s t : State α} :
    t ∈ run M (.rep greedy 0 none r) s ↔ Relation.ReflTransGen (fun a b ↦ b ∈ run M r a) s t := by
  have hshort := run_consumes (M := M) r hr
  have hrepeats : ∀ fuel (s t : State α), s.after.length < fuel →
      (t ∈ repeats (run M r) greedy fuel 0 none s ↔ Relation.ReflTransGen (fun a b ↦ b ∈ run M r a) s t) := by
    intro fuel
    induction fuel with
    | zero => exact fun s t h ↦ absurd h (Nat.not_lt_zero _)
    | succ fuel ih =>
      intro s t hfuel
      have hagain : t ∈ again (run M r) (repeats (run M r) greedy fuel 0 none) 0 none s ↔
          ∃ u ∈ run M r s, Relation.ReflTransGen (fun a b ↦ b ∈ run M r a) u t := by
        rw [again, if_neg (by simp), List.mem_flatMap]
        refine exists_congr fun u ↦ and_congr_right fun hu ↦ ?_
        have hlt := hshort s u hu
        rw [if_pos (Or.inr hlt)]
        exact ih u t (by omega)
      have hcases : t ∈ repeats (run M r) greedy (fuel + 1) 0 none s ↔
          t = s ∨ ∃ u ∈ run M r s, Relation.ReflTransGen (fun a b ↦ b ∈ run M r a) u t := by
        rw [← hagain, repeats, if_neg (Nat.lt_irrefl 0)]
        cases greedy <;> simp [or_comm]
      rw [hcases, Relation.ReflTransGen.cases_head_iff]
      exact or_congr eq_comm Iff.rfl
  rw [run]
  exact hrepeats _ s t (by omega)

/-! ## The first and the last character of a match -/

/-- The expression reads nothing. -/
def silent : Re C A → Bool
  | .eps | .test _ => true
  | _ => false

/-- Every run begins with a character of one of these classes. -/
def opens (p : C → Bool) : Re C A → Bool
  | .char c => p c
  | .seq r q => opens p r || silent r && opens p q
  | .alt r q => opens p r && opens p q
  | .group _ r => opens p r
  | _ => false

/-- Every run ends behind a character of one of these classes. -/
def closes (p : C → Bool) : Re C A → Bool
  | .char c => p c
  | .seq r q => closes p q || silent q && closes p r
  | .alt r q => closes p r && closes p q
  | .group _ r => closes p r
  | _ => false

theorem eq_of_mem_run_silent {r : Re C A} (h : silent r = true) {s t : State α} (ht : t ∈ run M r s) : t = s := by
  cases r with
  | eps => exact mem_run_eps.mp ht
  | test a => exact (mem_run_test.mp ht).2
  | char | seq | alt | rep | group => cases h

theorem run_opens {p : C → Bool} {r : Re C A} (h : opens p r = true) {s t : State α} (ht : t ∈ run M r s) :
    ∃ x rest, s.after = x :: rest ∧ ∃ c, p c = true ∧ M.accepts c x = true := by
  induction r generalizing s t with
  | eps | test | rep => cases h
  | char c =>
    obtain ⟨x, rest, hafter, hx, -⟩ := mem_run_char.mp ht
    exact ⟨x, rest, hafter, c, h, hx⟩
  | seq r q ihr ihq =>
    obtain ⟨u, hu, htu⟩ := mem_run_seq.mp ht
    rw [opens, Bool.or_eq_true, Bool.and_eq_true] at h
    rcases h with h | ⟨hsilent, h⟩
    · exact ihr h hu
    · rw [eq_of_mem_run_silent hsilent hu] at htu
      exact ihq h htu
  | alt r q ihr ihq =>
    rw [opens, Bool.and_eq_true] at h
    rcases mem_run_alt.mp ht with ht | ht
    · exact ihr h.1 ht
    · exact ihq h.2 ht
  | group n r ih =>
    obtain ⟨u, hu, -⟩ := mem_run_group.mp ht
    exact ih h hu

theorem run_closes {p : C → Bool} {r : Re C A} (h : closes p r = true) {s t : State α} (ht : t ∈ run M r s) :
    ∃ x before, t.before = x :: before ∧ t.after.length < s.after.length ∧ ∃ c, p c = true ∧ M.accepts c x = true := by
  induction r generalizing s t with
  | eps | test | rep => cases h
  | char c =>
    obtain ⟨x, rest, hafter, hx, rfl⟩ := mem_run_char.mp ht
    exact ⟨x, s.before, rfl, by simp [hafter], c, h, hx⟩
  | seq r q ihr ihq =>
    obtain ⟨u, hu, htu⟩ := mem_run_seq.mp ht
    rw [closes, Bool.or_eq_true, Bool.and_eq_true] at h
    rcases h with h | ⟨hsilent, h⟩
    · obtain ⟨x, before, hbefore, hlt, hc⟩ := ihq h htu
      exact ⟨x, before, hbefore, Nat.lt_of_lt_of_le hlt (run_reaches r s u hu).after_le, hc⟩
    · rw [eq_of_mem_run_silent hsilent htu]
      exact ihr h hu
  | alt r q ihr ihq =>
    rw [closes, Bool.and_eq_true] at h
    rcases mem_run_alt.mp ht with ht | ht
    · exact ihr h.1 ht
    · exact ihq h.2 ht
  | group n r ih =>
    obtain ⟨u, hu, rfl⟩ := mem_run_group.mp ht
    obtain ⟨x, before, hbefore, hlt, hc⟩ := ih h hu
    exact ⟨x, before, hbefore, hlt, hc⟩

/-- No test is made. -/
def testless : Re C A → Bool
  | .eps | .char _ => true
  | .test _ => false
  | .seq r q | .alt r q => testless r && testless q
  | .rep _ _ _ r | .group _ r => testless r

theorem blindRight_of_testless (w : List α) {r : Re C A} (h : testless r = true) : BlindRight M w r := by
  induction r with
  | eps | char => trivial
  | test => cases h
  | seq r q ihr ihq | alt r q ihr ihq =>
    rw [testless, Bool.and_eq_true] at h
    exact ⟨ihr h.1, ihq h.2⟩
  | rep _ _ _ r ih | group _ r ih => exact ih h

/-- A run that stops in front of the last `w` of its text is one of the text without `w`. -/
theorem run_of_extend {w : List α} {r : Re C A} (hblind : BlindRight M w r) {s t : State α}
    (ht : t ∈ run M r (s.extend w)) (hwithin : within w t = true) : ∃ u ∈ run M r s, t = u.extend w := by
  have hmem : t ∈ (run M r (s.extend w)).filter (within w) := List.mem_filter.mpr ⟨ht, hwithin⟩
  rw [run_extend w r hblind] at hmem
  obtain ⟨u, hu, rfl⟩ := List.mem_map.mp hmem
  exact ⟨u, hu, rfl⟩

/-! ## Searching -/

theorem matchAt_isSome_iff {r : Re C A} {before after : List α} :
    (matchAt M r false before after).isSome = true ↔ run M r ⟨before, after, []⟩ ≠ [] := by
  rw [matchAt, Option.isSome_map]
  simp

/-- A search succeeds where a run does. -/
theorem searchFrom_isSome_iff {r : Re C A} {before text : List α} :
    (searchFrom M r before text).isSome = true ↔
      ∃ prior rest, text = prior ++ rest ∧ run M r ⟨prior.reverse ++ before, rest, []⟩ ≠ [] := by
  induction text generalizing before with
  | nil =>
    rw [searchFrom, matchAt_isSome_iff]
    constructor
    · exact fun h ↦ ⟨[], [], rfl, h⟩
    · rintro ⟨prior, rest, heq, h⟩
      obtain ⟨rfl, rfl⟩ := List.append_eq_nil_iff.mp heq.symm
      exact h
  | cons x text ih =>
    rw [searchFrom]
    cases hhere : matchAt M r false before (x :: text) with
    | some m =>
      refine iff_of_true rfl ⟨[], x :: text, rfl, ?_⟩
      exact matchAt_isSome_iff.mp (by rw [List.reverse_nil, List.nil_append, hhere]; rfl)
    | none =>
      simp only
      rw [ih]
      constructor
      · rintro ⟨prior, rest, rfl, h⟩
        exact ⟨x :: prior, rest, rfl, by simpa using h⟩
      · rintro ⟨prior, rest, heq, h⟩
        cases prior with
        | nil =>
          obtain rfl : rest = x :: text := heq.symm
          have hsome := matchAt_isSome_iff.mpr h
          rw [List.reverse_nil, List.nil_append, hhere] at hsome
          cases hsome
        | cons y prior =>
          rw [List.cons_append, List.cons.injEq] at heq
          obtain ⟨rfl, rfl⟩ := heq
          exact ⟨prior, rest, rfl, by simpa using h⟩

theorem search_isSome_iff {r : Re C A} {text : List α} :
    (search M r text).isSome = true ↔
      ∃ prior rest, text = prior ++ rest ∧ run M r ⟨prior.reverse, rest, []⟩ ≠ [] := by
  rw [search, searchFrom_isSome_iff]
  simp only [List.append_nil]

end FourCE.Library.Regex
