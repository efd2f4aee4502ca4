import FourCE.Library.RegexRuns

/-!
# The words of an expression

An expression without unbounded repetition reads finitely many words, once characters that make no
difference are taken as one: `render` says what a character counts as, and `spell` what the characters of
a class can count as, for the classes where that is known.
-/

namespace FourCE.Library.Regex

variable {C A α β : Type} {M : Meaning C A α}

/-- `(r)?` reads what `r` reads, or nothing. -/
theorem mem_run_optional {r : Re C A} {greedy : Bool} {s t : State α}
    (h : t ∈ run M (.rep greedy 0 (some 1) r) s) : t = s ∨ t ∈ run M r s := by
  have hstop : ∀ fuel (u : State α), t ∈ repeats (run M r) greedy fuel 0 (some 0) u → t = u := by
    intro fuel u hu
    cases fuel with
    | zero => cases hu
    | succ fuel =>
      rw [repeats, again, if_pos rfl, if_neg (Nat.lt_irrefl 0)] at hu
      cases greedy <;> simpa using hu
  rw [run, Nat.zero_add, repeats, if_neg (Nat.lt_irrefl 0)] at h
  have hcases : t ∈ again (run M r) (repeats (run M r) greedy s.after.length 0 (some 0)) 0 (some 1) s ∨ t = s := by
    cases greedy
    · exact (List.mem_cons.mp h).symm
    · exact (List.mem_append.mp h).imp_right List.mem_singleton.mp
  refine hcases.symm.imp_right fun hagain ↦ ?_
  rw [again, if_neg (by simp), List.mem_flatMap] at hagain
  obtain ⟨u, hu, ht⟩ := hagain
  split_ifs at ht
  · rwa [hstop _ _ ht]
  · cases ht

theorem mem_run_optional_iff {r : Re C A} (hr : consumes r = true) {greedy : Bool} {s t : State α} :
    t ∈ run M (.rep greedy 0 (some 1) r) s ↔ t = s ∨ t ∈ run M r s := by
  refine ⟨mem_run_optional, fun h ↦ ?_⟩
  have hself : ∀ fuel (u : State α), u ∈ repeats (run M r) greedy (fuel + 1) 0 (some 0) u := by
    intro fuel u
    rw [repeats, again, if_pos rfl, if_neg (Nat.lt_irrefl 0)]
    cases greedy <;> simp
  have hagain : t ∈ run M r s →
      t ∈ again (run M r) (repeats (run M r) greedy s.after.length 0 (some 0)) 0 (some 1) s := by
    intro ht
    have hlt := run_consumes (M := M) r hr s t ht
    rw [again, if_neg (by simp), List.mem_flatMap]
    refine ⟨t, ht, ?_⟩
    rw [if_pos (Or.inr hlt)]
    obtain ⟨k, hk⟩ := Nat.exists_eq_add_of_lt hlt
    rw [hk]
    exact hself _ t
  rw [run, Nat.zero_add, repeats, if_neg (Nat.lt_irrefl 0)]
  cases greedy
  · exact List.mem_cons.mpr (h.imp_right hagain)
  · exact List.mem_append.mpr (h.symm.imp hagain List.mem_singleton.mpr)

/-- Every word of the first list with every word of the second behind it. -/
def concats (xs ys : List (List β)) : List (List β) := xs.flatMap fun x ↦ ys.map (x ++ ·)

theorem mem_concats {xs ys : List (List β)} {x y : List β} (hx : x ∈ xs) (hy : y ∈ ys) :
    x ++ y ∈ concats xs ys := List.mem_flatMap.mpr ⟨x, hx, List.mem_map.mpr ⟨y, hy, rfl⟩⟩

/-- The words of an expression, if there are finitely many: a class may be repeated only where none of
its characters counts. -/
def spellings [DecidableEq β] (spell : C → Option (List (List β))) : Re C A → Option (List (List β))
  | .eps | .test _ => some [[]]
  | .char c => spell c
  | .seq r q => do return concats (← spellings spell r) (← spellings spell q)
  | .alt r q => do return (← spellings spell r) ++ (← spellings spell q)
  | .rep _ least most (.char c) => do
    let words ← spell c
    if words.all (· == []) then return [[]]
    else if least = 0 ∧ most = some 1 then return [] :: words
    else none
  | .rep _ least most r =>
    if least = 0 ∧ most = some 1 then (spellings spell r).map ([] :: ·) else none
  | .group _ r => spellings spell r

section

variable [DecidableEq β] {render : α → List β} {spell : C → Option (List (List β))}
  (hspell : ∀ c words, spell c = some words → ∀ x, M.accepts c x = true → render x ∈ words)

include hspell

/-- A run reads one of the words. -/
theorem mem_spellings {r : Re C A} {words : List (List β)} (hr : spellings spell r = some words)
    {s t : State α} (ht : t ∈ run M r s) : ∃ u, s.after = u ++ t.after ∧ u.flatMap render ∈ words := by
  induction r generalizing words s t with
  | eps =>
    cases hr
    rw [mem_run_eps.mp ht]
    exact ⟨[], rfl, List.mem_cons_self⟩
  | test a =>
    cases hr
    rw [(mem_run_test.mp ht).2]
    exact ⟨[], rfl, List.mem_cons_self⟩
  | char c =>
    obtain ⟨x, rest, hafter, hx, rfl⟩ := mem_run_char.mp ht
    refine ⟨[x], hafter, ?_⟩
    rw [List.flatMap_singleton]
    exact hspell c words hr x hx
  | seq r q ihr ihq =>
    rw [spellings] at hr
    cases hwr : spellings spell r with
    | none => rw [hwr] at hr; cases hr
    | some wr =>
      cases hwq : spellings spell q with
      | none => rw [hwr, hwq] at hr; cases hr
      | some wq =>
        rw [hwr, hwq] at hr
        obtain rfl : concats wr wq = words := Option.some.inj hr
        obtain ⟨u, hu, htu⟩ := mem_run_seq.mp ht
        obtain ⟨v, hv, hvr⟩ := ihr hwr hu
        obtain ⟨w, hw, hwq'⟩ := ihq hwq htu
        refine ⟨v ++ w, by rw [hv, hw, List.append_assoc], ?_⟩
        rw [List.flatMap_append]
        exact mem_concats hvr hwq'
  | alt r q ihr ihq =>
    rw [spellings] at hr
    cases hwr : spellings spell r with
    | none => rw [hwr] at hr; cases hr
    | some wr =>
      cases hwq : spellings spell q with
      | none => rw [hwr, hwq] at hr; cases hr
      | some wq =>
        rw [hwr, hwq] at hr
        obtain rfl : wr ++ wq = words := Option.some.inj hr
        rcases mem_run_alt.mp ht with ht | ht
        · obtain ⟨u, hu, hmem⟩ := ihr hwr ht
          exact ⟨u, hu, List.mem_append_left _ hmem⟩
        · obtain ⟨u, hu, hmem⟩ := ihq hwq ht
          exact ⟨u, hu, List.mem_append_right _ hmem⟩
  | rep greedy least most r ih =>
    have hoptional : least = 0 ∧ most = some 1 → ∀ {wr}, spellings spell r = some wr → words = [] :: wr →
        ∃ u, s.after = u ++ t.after ∧ u.flatMap render ∈ words := by
      rintro ⟨rfl, rfl⟩ wr hwr rfl
      rcases mem_run_optional ht with rfl | ht
      · exact ⟨[], rfl, List.mem_cons_self⟩
      · obtain ⟨u, hu, hmem⟩ := ih hwr ht
        exact ⟨u, hu, List.mem_cons_of_mem _ hmem⟩
    by_cases hc : ∃ c, r = .char c
    · obtain ⟨c, rfl⟩ := hc
      rw [spellings] at hr
      obtain ⟨wc, hwc, hr⟩ := Option.bind_eq_some_iff.mp hr
      split_ifs at hr with hall hbounds
      · obtain rfl := Option.some.inj hr
        obtain ⟨u, rest, hafter, hu, -, -, rfl⟩ := mem_run_rep_char.mp ht
        refine ⟨u, hafter, List.mem_singleton.mpr ?_⟩
        rw [List.flatMap_eq_nil_iff]
        exact fun x hx ↦ by simpa using List.all_eq_true.mp hall _ (hspell c wc hwc x (hu x hx))
      · exact hoptional hbounds hwc (Option.some.inj hr).symm
    · have hrep : spellings spell (.rep greedy least most r : Re C A) =
          if least = 0 ∧ most = some 1 then (spellings spell r).map ([] :: ·) else none := by
        cases r with
        | char c => exact absurd ⟨c, rfl⟩ hc
        | _ => rfl
      rw [hrep] at hr
      split_ifs at hr with hbounds
      obtain ⟨wr, hwr, hwords⟩ := Option.map_eq_some_iff.mp hr
      exact hoptional hbounds hwr hwords.symm
  | group n r ih =>
    obtain ⟨v, hv, rfl⟩ := mem_run_group.mp ht
    obtain ⟨u, hu, hmem⟩ := ih hr hv
    exact ⟨u, hu, hmem⟩

end

end FourCE.Library.Regex
