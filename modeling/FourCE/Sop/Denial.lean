import FourCE.Library.RegexScan
import FourCE.Python.ReLocality
import FourCE.Sop.Worst

/-!
# How far a denial reaches

A presence rule fails a text on its first occurrence of a defect that is not denied, by the up to
thirty characters before it or within the match itself.  Neither stops at the end of a line: lines
before a report can deny what it says, and a greedy match can run over into lines behind it and
take a denial in with the defect.
-/

namespace FourCE.Sop

open FourCE.Python FourCE.Library.Regex

theorem exists_partner {α β : Type} {R : α → β → Prop} {xs : List α} {ys : List β}
    (h : List.Forall₂ R xs ys) : ∀ x ∈ xs, ∃ y ∈ ys, R x y := by
  induction h with
  | nil => simp
  | cons hxy _ ih =>
    intro z hz
    cases List.mem_cons.mp hz with
    | inl heq => exact ⟨_, List.mem_cons_self, heq ▸ hxy⟩
    | inr hmem =>
      obtain ⟨y, hy, hzy⟩ := ih z hmem
      exact ⟨y, List.mem_cons_of_mem _ hy, hzy⟩

section

variable [Unicode]

/-! ## Occurrences -/

/-- `denied` from where an occurrence stands and what it says. -/
def deniedAt (text : PyStr) (start : ℕ) (matched : PyStr) : Bool :=
  (reSearch deniedBefore (window text start)).isSome || (reSearch deniedWithin matched).isSome

/-- The occurrences of a pattern from a position of the text on. -/
def occurrencesFrom (p : Pattern) (text : PyStr) (k : ℕ) : List Match :=
  (scanFrom sre p false (text.take k).reverse (text.drop k)).map fun m ↦ ⟨m, groupCount p⟩

/-- How much of `S` the last occurrence that begins before it takes. -/
def overrun (p : Pattern) (T S : PyStr) : ℕ :=
  endOf ((finditer sre p (T ++ 10 :: S)).filter fun m ↦ m.start ≤ T.length) - (T.length + 1)

/-- A match seen from behind `T` and a line break. -/
structure Behind (T : PyStr) (m k : Match) : Prop where
  start : m.start = T.length + 1 + k.start
  text : m.text = k.text

/-- The occurrences in `T`, a line break and `S` that begin behind the break are those of `S` from
the end of the last one that begins before it. -/
theorem reFinditer_behind (T S : PyStr) {p : Pattern} (hp : insulated p = true) :
    ∃ A B, reFinditer p (T ++ 10 :: S) = A ++ B ∧ (∀ m ∈ A, m.start ≤ T.length) ∧
      (∀ m ∈ B, T.length < m.start) ∧
      List.Forall₂ (Behind T) B (occurrencesFrom p S (overrun p T S)) := by
  have hsplit : T ++ 10 :: S = (T ++ [10]) ++ S := by simp
  obtain ⟨A, c, S', hS, hscan, hA, hc⟩ := scanFrom_append (M := sre) p S false [] (T ++ [10]) (fun _ ↦ rfl)
  rw [List.length_nil, Nat.zero_add, List.length_append, List.length_singleton] at hA hc
  have hbehind : ∀ m ∈ scanFrom sre p false (c.reverse ++ ((T ++ [10]).reverse ++ [])) S',
      T.length < m.start := by
    intro m hm
    have hle := start_le_of_mem_scanFrom m hm
    simp only [List.length_append, List.length_reverse, List.length_nil, List.length_singleton] at hle
    omega
  have hoverrun : overrun p T S = c.length := by
    have hfilter : (finditer sre p (T ++ 10 :: S)).filter (fun m ↦ m.start ≤ T.length) = A := by
      rw [finditer_eq, hsplit, hscan, List.filter_append]
      have hkeep : A.filter (fun m ↦ decide (m.start ≤ T.length)) = A :=
        List.filter_eq_self.mpr fun m hm ↦ decide_eq_true (Nat.le_of_lt_succ (hA m hm))
      have hdrop : (scanFrom sre p false (c.reverse ++ ((T ++ [10]).reverse ++ [])) S').filter
          (fun m ↦ decide (m.start ≤ T.length)) = [] := by
        rw [List.filter_eq_nil_iff]
        intro m hm
        have hlt := hbehind m hm
        simpa using hlt
      rw [hkeep, hdrop, List.append_nil]
    rw [overrun, hfilter, hc]
  have hshift := scanFrom_shifted (blind_newline T.reverse hp) false c.reverse S'
  refine ⟨A.map fun m ↦ ⟨m, groupCount p⟩,
    (scanFrom sre p false (c.reverse ++ ((T ++ [10]).reverse ++ [])) S').map
      fun m ↦ ⟨m, groupCount p⟩, ?_, ?_, ?_, ?_⟩
  · rw [reFinditer, finditer_eq, hsplit, hscan, List.map_append]
  · intro m hm
    obtain ⟨k, hk, rfl⟩ := List.mem_map.mp hm
    exact Nat.le_of_lt_succ (hA k hk)
  · intro m hm
    obtain ⟨k, hk, rfl⟩ := List.mem_map.mp hm
    exact hbehind k hk
  · have htext : S.take c.length = c ∧ S.drop c.length = S' := by simp [hS]
    rw [occurrencesFrom, hoverrun, htext.1, htext.2]
    have hprior : c.reverse ++ ((T ++ [10]).reverse ++ []) = c.reverse ++ 10 :: T.reverse := by simp
    rw [hprior]
    rw [List.append_nil] at hshift
    refine List.rel_map (fun m k hmk ↦ ?_) hshift
    obtain ⟨near, hm, hk⟩ := hmk.before
    refine ⟨?_, hmk.text.symm⟩
    simp only [Match.start, Found.start, hm, hk, List.length_append, List.length_cons,
      List.length_reverse, List.length_nil]
    omega

/-- A match that the lines behind the text leave as it is. -/
structure Unmoved (m k : Match) : Prop where
  start : m.start = k.start
  finish : m.finish = k.finish
  text : m.text = k.text

/-- A match that begins behind `S` or runs past its end. -/
def past (S : PyStr) (m : Match) : Prop := S.length ≤ m.start ∨ S.length < m.finish

/-- The occurrences in `S`, a line break and `T` are those of `S` up to the first one that is past
its end. -/
theorem reFinditer_before (S T : PyStr) {p : Pattern} (hp : openEnded p = true) :
    ∃ A A' B C, reFinditer p S = A ++ A' ∧ reFinditer p (S ++ 10 :: T) = C ++ B ∧
      List.Forall₂ Unmoved C A ∧ (∀ m ∈ B, past S m) ∧
      (A' ≠ [] → ∃ x ∈ B, ∀ m ∈ A', x.start ≤ m.start) := by
  obtain ⟨A, A', B, hS, hall, hB, hA'⟩ :=
    scanFrom_extend (10 :: T) (blindRight_newline T hp) false [] S
  have hpair : ∀ m : Found CodePoint,
      Unmoved ⟨m.extend (10 :: T), groupCount p⟩ ⟨m, groupCount p⟩ := fun m ↦ ⟨rfl, rfl, rfl⟩
  refine ⟨A.map fun m ↦ ⟨m, groupCount p⟩, A'.map fun m ↦ ⟨m, groupCount p⟩,
    B.map fun m ↦ ⟨m, groupCount p⟩, (A.map (Found.extend (10 :: T))).map fun m ↦ ⟨m, groupCount p⟩,
    ?_, ?_, ?_, ?_, ?_⟩
  · rw [reFinditer, finditer_eq, hS, List.map_append]
  · rw [reFinditer, finditer_eq, hall, List.map_append]
  · rw [List.map_map, List.forall₂_map_left_iff, List.forall₂_map_right_iff]
    exact List.forall₂_same.mpr fun m _ ↦ hpair m
  · intro m hm
    obtain ⟨k, hk, rfl⟩ := List.mem_map.mp hm
    have hpast := hB k hk
    rw [List.length_nil, Nat.zero_add] at hpast
    exact hpast
  · intro hne
    obtain ⟨x, hx, hfirst⟩ := hA' fun h ↦ hne (by rw [h, List.map_nil])
    refine ⟨⟨x, groupCount p⟩, List.mem_map_of_mem hx, fun m hm ↦ ?_⟩
    obtain ⟨k, hk, rfl⟩ := List.mem_map.mp hm
    exact hfirst k hk

/-- Occurrences stand in order, within the text, and are not empty. -/
theorem reFinditer_ordered (p : Pattern) (text : PyStr) :
    (reFinditer p text).Pairwise (fun m k ↦ m.finish ≤ k.start) ∧
      ∀ m ∈ reFinditer p text, m.finish ≤ text.length ∧ (consumes p = true → m.start < m.finish) := by
  obtain ⟨hpair, hall⟩ := scanFrom_ordered (M := sre) p false [] text
  constructor
  · rw [reFinditer, finditer_eq, List.pairwise_map]
    exact hpair
  · intro m hm
    obtain ⟨k, hk, rfl⟩ := List.mem_map.mp hm
    have hbounds := hall k hk
    rw [List.length_nil, Nat.zero_add] at hbounds
    exact hbounds

/-! ## The verdict of a presence rule -/

/-- What the rules of the pack keep to. -/
def presenceSound (rule : Rule) : Bool :=
  match rule.kind with
  | .presence ps defect clear => defect.verdict == py "FAIL" && clear.verdict == py "PASS" &&
    ps.all fun p ↦ insulated p && openEnded p && consumes p
  | _ => true

omit [Unicode] in
theorem defaultRules_presenceSound : ∀ rule ∈ defaultRules, presenceSound rule = true := by
  decide +kernel

theorem presence_fail_iff {rule : Rule} {ps : List Pattern} {defect clear : Outcome}
    (hrule : rule ∈ defaultRules) (hkind : rule.kind = .presence ps defect clear) (text : PyStr) :
    verdictOf rule text = some (py "FAIL") ↔
      ∃ p ∈ ps, ∃ m ∈ reFinditer p text, deniedAt text m.start m.text = false := by
  have hsound := defaultRules_presenceSound rule hrule
  simp only [presenceSound, hkind, Bool.and_eq_true, beq_iff_eq] at hsound
  have hoccurs : (∃ p ∈ ps, ∃ m ∈ reFinditer p text, deniedAt text m.start m.text = false) ↔
      ∃ m ∈ occurrences ps text, (!denied text m) = true := by
    simp only [occurrences, List.mem_flatMap, Bool.not_eq_true']
    constructor
    · rintro ⟨p, hp, m, hm, hdenied⟩
      exact ⟨m, ⟨p, hp, hm⟩, hdenied⟩
    · rintro ⟨m, ⟨p, hp, hm⟩, hdenied⟩
      exact ⟨p, hp, m, hm, hdenied⟩
  rw [hoccurs, verdictOf, assess, hkind]
  simp only [Option.map_some, assessPresence, Option.some.injEq]
  cases hfind : (occurrences ps text).find? fun m ↦ !denied text m with
  | some m =>
    have hm := List.find?_some hfind
    exact iff_of_true hsound.1.1 ⟨m, List.mem_of_find?_eq_some hfind, hm⟩
  | none =>
    rw [List.find?_eq_none] at hfind
    apply iff_of_false
    · simp only [finding, hsound.1.2]
      decide
    · rintro ⟨m, hm, hdenied⟩
      exact hfind m hm hdenied

omit [Unicode] in
theorem window_before (S T : PyStr) {start : ℕ} (h : start ≤ S.length) :
    window (S ++ T) start = window S start := by
  rw [window, window, List.take_append_of_le_length h]

/-- Which occurrences can fail `T`, a line break and `S`. -/
theorem fails_behind_iff (T S : PyStr) {p : Pattern} (hp : insulated p = true) :
    (∃ m ∈ reFinditer p (T ++ 10 :: S), deniedAt (T ++ 10 :: S) m.start m.text = false) ↔
      (∃ m ∈ reFinditer p (T ++ 10 :: S), m.start ≤ T.length ∧
        deniedAt (T ++ 10 :: S) m.start m.text = false) ∨
      ∃ k ∈ occurrencesFrom p S (overrun p T S),
        deniedAt (T ++ 10 :: S) (T.length + 1 + k.start) k.text = false := by
  obtain ⟨A, B, hall, hA, hB, hrel⟩ := reFinditer_behind T S hp
  rw [hall]
  constructor
  · rintro ⟨m, hm, hdenied⟩
    cases List.mem_append.mp hm with
    | inl hmA => exact Or.inl ⟨m, hm, hA m hmA, hdenied⟩
    | inr hmB =>
      obtain ⟨k, hk, hmk⟩ := exists_partner hrel m hmB
      rw [hmk.start, hmk.text] at hdenied
      exact Or.inr ⟨k, hk, hdenied⟩
  · rintro (⟨m, hm, -, hdenied⟩ | ⟨k, hk, hdenied⟩)
    · exact ⟨m, hm, hdenied⟩
    · obtain ⟨m, hm, hmk⟩ := exists_partner hrel.flip k hk
      rw [← hmk.start, ← hmk.text] at hdenied
      exact ⟨m, List.mem_append_right A hm, hdenied⟩

/-- Which occurrences can fail `S`, a line break and `T`: those of `S` that no match past the end of
`S` comes before, and those past its end. -/
theorem fails_before_iff (S T : PyStr) {p : Pattern} (hp : openEnded p = true)
    (hconsumes : consumes p = true) :
    (∃ m ∈ reFinditer p (S ++ 10 :: T), deniedAt (S ++ 10 :: T) m.start m.text = false) ↔
      (∃ m ∈ reFinditer p S, deniedAt S m.start m.text = false ∧
        ∀ x ∈ reFinditer p (S ++ 10 :: T), past S x → m.start < x.start) ∨
      ∃ m ∈ reFinditer p (S ++ 10 :: T), past S m ∧
        deniedAt (S ++ 10 :: T) m.start m.text = false := by
  obtain ⟨A, A', B, C, hS, hall, hrel, hB, hA'⟩ := reFinditer_before S T hp
  have hwithin : ∀ m ∈ A, m.start ≤ S.length := fun m hm ↦
    have hbounds := (reFinditer_ordered p S).2 m (by rw [hS]; exact List.mem_append_left A' hm)
    (hbounds.2 hconsumes).le.trans hbounds.1
  have hsame : ∀ m k, Unmoved m k → k ∈ A →
      deniedAt (S ++ 10 :: T) m.start m.text = deniedAt S k.start k.text := by
    intro m k hmk hk
    rw [deniedAt, deniedAt, hmk.start, hmk.text, window_before S (10 :: T) (hwithin k hk)]
  constructor
  · rintro ⟨m, hm, hdenied⟩
    rw [hall] at hm
    cases List.mem_append.mp hm with
    | inl hmC =>
      obtain ⟨k, hk, hmk⟩ := exists_partner hrel m hmC
      rw [hsame m k hmk hk] at hdenied
      refine Or.inl ⟨k, by rw [hS]; exact List.mem_append_left A' hk, hdenied, ?_⟩
      intro x hx hpast
      have hk' := (reFinditer_ordered p S).2 k (by rw [hS]; exact List.mem_append_left A' hk)
      rw [hall] at hx
      cases List.mem_append.mp hx with
      | inl hxC =>
        obtain ⟨y, hy, hxy⟩ := exists_partner hrel x hxC
        have hy' := (reFinditer_ordered p S).2 y (by rw [hS]; exact List.mem_append_left A' hy)
        have hylt := hy'.2 hconsumes
        rw [past, hxy.start, hxy.finish] at hpast
        omega
      | inr hxB =>
        have hpair := (reFinditer_ordered p (S ++ 10 :: T)).1
        rw [hall] at hpair
        have hle := (List.pairwise_append.mp hpair).2.2 m hmC x hxB
        have hlt := hk'.2 hconsumes
        rw [hmk.finish] at hle
        exact hlt.trans_le hle
    | inr hmB => exact Or.inr ⟨m, by rw [hall]; exact hm, hB m hmB, hdenied⟩
  · rintro (⟨k, hk, hdenied, hfirst⟩ | ⟨m, hm, -, hdenied⟩)
    · rw [hS] at hk
      cases List.mem_append.mp hk with
      | inl hkA =>
        obtain ⟨m, hm, hmk⟩ := exists_partner hrel.flip k hkA
        rw [← hsame m k hmk hkA] at hdenied
        exact ⟨m, by rw [hall]; exact List.mem_append_left B hm, hdenied⟩
      | inr hkA' =>
        -- A match past the end of `S` begins no later than the first occurrence it displaces.
        obtain ⟨x, hx, hle⟩ := hA' (List.ne_nil_of_mem hkA')
        have hlt := hfirst x (by rw [hall]; exact List.mem_append_right C hx) (hB x hx)
        exact absurd (hle k hkA') (Nat.not_le_of_lt hlt)
    · exact ⟨m, hm, hdenied⟩

/-- When other lines leave a stated defect standing.  Lines before the report keep it failing
exactly when they hold an occurrence that is not denied, or one of the occurrences they leave of the
report is denied neither by itself nor by the thirty characters before it, wherever these stand;
lines behind it do exactly when an occurrence that is not denied stands in the report before any
match that runs past its end, or one of those past its end is not denied. -/
theorem denial_reaches {rule : Rule} {ps : List Pattern} {defect clear : Outcome}
    (hrule : rule ∈ defaultRules) (hkind : rule.kind = .presence ps defect clear) (T S : PyStr) :
    (verdictOf rule (T ++ 10 :: S) = some (py "FAIL") ↔
      ∃ p ∈ ps,
        (∃ m ∈ reFinditer p (T ++ 10 :: S), m.start ≤ T.length ∧
          deniedAt (T ++ 10 :: S) m.start m.text = false) ∨
        ∃ k ∈ occurrencesFrom p S (overrun p T S),
          deniedAt (T ++ 10 :: S) (T.length + 1 + k.start) k.text = false) ∧
    (verdictOf rule (S ++ 10 :: T) = some (py "FAIL") ↔
      ∃ p ∈ ps,
        (∃ m ∈ reFinditer p S, deniedAt S m.start m.text = false ∧
          ∀ x ∈ reFinditer p (S ++ 10 :: T), past S x → m.start < x.start) ∨
        ∃ m ∈ reFinditer p (S ++ 10 :: T), past S m ∧
          deniedAt (S ++ 10 :: T) m.start m.text = false) := by
  have hsound := defaultRules_presenceSound rule hrule
  simp only [presenceSound, hkind, Bool.and_eq_true, List.all_eq_true] at hsound
  constructor
  · rw [presence_fail_iff hrule hkind]
    exact exists_congr fun p ↦ and_congr_right fun hp ↦ fails_behind_iff T S (hsound.2 p hp).1.1
  · rw [presence_fail_iff hrule hkind]
    exact exists_congr fun p ↦ and_congr_right fun hp ↦
      fails_before_iff S T (hsound.2 p hp).1.2 (hsound.2 p hp).2

end

/-- Lines above that deny nothing leave the defect standing. -/
theorem denial_reaches_spray :
    @verdictOf asciiTables sealSpray (py "Seal inspected" ++ 10 :: py "Visible spray at the seal") =
      some (py "FAIL") := by
  have hrule : sealSpray ∈ defaultRules := by simp [defaultRules]
  apply (@denial_reaches asciiTables sealSpray _ _ _ hrule rfl (py "Seal inspected")
    (py "Visible spray at the seal")).1.mpr
  refine ⟨visibleSpray, by simp, Or.inr ?_⟩
  decide +kernel

/-- A line that ends in a denial of something else clears the defect on the line below it. -/
theorem defect_denied_by_line_above :
    ¬ ∀ (U : Unicode) (rule : Rule) (ps : List Pattern) (defect clear : Outcome),
      rule ∈ defaultRules → rule.kind = .presence ps defect clear →
      ∀ T S, @verdictOf U rule S = some (py "FAIL") →
        @verdictOf U rule (T ++ 10 :: S) = some (py "FAIL") ∧
        @verdictOf U rule (S ++ 10 :: T) = some (py "FAIL") := by
  intro hclaim
  have hrule : sealSpray ∈ defaultRules := by simp [defaultRules]
  have hfail : @verdictOf asciiTables sealSpray (py "Visible spray at the seal") =
      some (py "FAIL") := by decide +kernel
  have hpass : @verdictOf asciiTables sealSpray
      (py "Vibration alarm: no" ++ 10 :: py "Visible spray at the seal") = some (py "PASS") := by
    decide +kernel
  have hboth := hclaim asciiTables sealSpray _ _ _ hrule rfl (py "Vibration alarm: no")
    (py "Visible spray at the seal") hfail
  rw [hpass] at hboth
  exact absurd hboth.1 (by decide)

end FourCE.Sop
