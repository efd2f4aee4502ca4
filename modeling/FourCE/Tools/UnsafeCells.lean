import FourCE.Library.RegexRuns
import FourCE.Tools.SheetCopy

/-!
# Unsafe formulas in a copy

Which cells of a copy a list of changes writes, and which of these are checked before the copy is.
The name of an added column goes into a cell of its own and is checked nowhere.
-/

namespace FourCE.Tools

open FourCE.Python FourCE.Library.Regex

/-! ## The pattern of unsafe formulas -/

section Pattern

variable [Unicode]

/-- Word boundaries are asked for in front of a word alone, and nothing else is. -/
def boundaryFirst : Pattern → Bool
  | .alt r q => boundaryFirst r && boundaryFirst q
  | .seq (.test .wordBoundary) q => opens (fun _ ↦ true) q && testless q
  | r => testless r

theorem exists_run_of_extend {w : PyStr} {r : Pattern} (h : boundaryFirst r = true)
    {s t : State CodePoint} (ht : t ∈ run sre r (s.extend w)) (hwithin : within w t = true) :
    ∃ u, u ∈ run sre r s := by
  fun_induction boundaryFirst r with
  | case1 r q ihr ihq =>
    rw [Bool.and_eq_true] at h
    rcases mem_run_alt.mp ht with ht | ht
    · obtain ⟨u, hu⟩ := ihr h.1 ht
      exact ⟨u, mem_run_alt.mpr (Or.inl hu)⟩
    · obtain ⟨u, hu⟩ := ihq h.2 ht
      exact ⟨u, mem_run_alt.mpr (Or.inr hu)⟩
  | case2 q =>
    rw [Bool.and_eq_true] at h
    obtain ⟨v, hv, htv⟩ := mem_run_seq.mp ht
    obtain ⟨hholds, rfl⟩ := mem_run_test.mp hv
    obtain ⟨u, hu, -⟩ := run_of_extend (blindRight_of_testless w h.2) htv hwithin
    obtain ⟨x, rest, hafter, -⟩ := run_opens h.1 hu
    refine ⟨u, mem_run_seq.mpr ⟨s, mem_run_test.mpr ⟨?_, rfl⟩, hu⟩⟩
    -- A character stands in front of `w`, so the boundary is seen without it.
    change (wordAt s.before != wordAt (s.after ++ w)) = true at hholds
    change (wordAt s.before != wordAt s.after) = true
    rwa [hafter] at hholds ⊢
  | case3 r =>
    obtain ⟨u, hu, -⟩ := run_of_extend (blindRight_of_testless w h) ht hwithin
    exact ⟨u, hu⟩

/-- The only tests are word boundaries. -/
def boundariesOnly : Pattern → Bool
  | .eps | .char _ => true
  | .test a => a = .wordBoundary
  | .seq r q | .alt r q => boundariesOnly r && boundariesOnly q
  | .rep _ _ _ r | .group _ r => boundariesOnly r

theorem blind_of_not_isWord {c : CodePoint} (hc : isWord c = false) {r : Pattern}
    (h : boundariesOnly r = true) : Blind sre [c] [] r := by
  induction r with
  | eps | char => trivial
  | test a =>
    obtain rfl : a = .wordBoundary := by simpa [boundariesOnly] using h
    intro near after
    have hword : wordAt (near ++ [c]) = wordAt near := by
      cases near with
      | nil => exact hc
      | cons => rfl
    change (wordAt (near ++ [c]) != wordAt after) = (wordAt (near ++ []) != wordAt after)
    rw [hword, List.append_nil]
  | seq r q ihr ihq | alt r q ihr ihq =>
    rw [boundariesOnly, Bool.and_eq_true] at h
    exact ⟨ihr h.1, ihq h.2⟩
  | rep _ _ _ r ih | group _ r ih => exact ih h

/-- A class of one character other than `=`. -/
def notEquals (c : CharClass) : Bool :=
  !c.negated && c.items.all fun
    | .one x => foldCase x != 61 && x != 61
    | _ => false

theorem notEquals_accepts {c : CharClass} (h : notEquals c = true) : c.accepts 61 = false := by
  rw [notEquals, Bool.and_eq_true, Bool.not_eq_true', List.all_eq_true] at h
  have hitem : c.items.any (Item.accepts c.ignoreCase 61) = false := by
    rw [List.any_eq_false]
    intro item hmem
    have hone := h.2 item hmem
    cases item with
    | one x =>
      simp only [Bool.and_eq_true, bne_iff_ne, ne_eq] at hone
      have hfold : ¬ foldCase 61 = foldCase x := fun he ↦ hone.1 he.symm
      have hplain : ¬ 61 = x := fun he ↦ hone.2 he.symm
      simp only [Item.accepts]
      split_ifs <;> simp [hfold, hplain]
    | range | digit | space | word => cases hone
  rw [CharClass.accepts, hitem, h.1]
  rfl

/-- A class of one of the characters that an unsafe formula is known by. -/
def isMark (c : CharClass) : Bool :=
  !c.negated && match c.items with
    | [.one x] => x ∈ [91, 124, 47, 92, 40]
    | _ => false

omit [Unicode] in
theorem foldCase_eq_mark {x y : CodePoint} (hy : y ∈ ([91, 124, 47, 92, 40] : PyStr))
    (h : foldCase x = foldCase y) : x = y := by
  have hfold : foldCase y = y := by
    simp only [List.mem_cons, List.not_mem_nil, or_false] at hy
    rcases hy with rfl | rfl | rfl | rfl | rfl <;> rfl
  rw [hfold, foldCase] at h
  split_ifs at h with hcapital hi hs hk ho
  · subst h
    simp only [List.mem_cons, List.not_mem_nil, or_false, Fin.ext_iff] at hy
    have : 65 ≤ x.val := hcapital.1
    have : x.val ≤ 90 := hcapital.2
    simp at hy
    omega
  · subst h
    exact absurd hy (by decide)
  · subst h
    exact absurd hy (by decide)
  · subst h
    exact absurd hy (by decide)
  · subst h
    exact absurd hy (by decide)
  · exact h

theorem isMark_accepts {c : CharClass} (h : isMark c = true) {x : CodePoint} (hx : c.accepts x = true) :
    isWhite x = false := by
  rw [isMark, Bool.and_eq_true, Bool.not_eq_true'] at h
  obtain ⟨hnegated, hitems⟩ := h
  have hmark : x ∈ ([91, 124, 47, 92, 40] : PyStr) := by
    rw [CharClass.accepts, hnegated] at hx
    split at hitems
    · rename_i y heq
      have hy : y ∈ ([91, 124, 47, 92, 40] : PyStr) := by simpa using hitems
      have hxy : x = y := by
        rw [heq] at hx
        simp only [List.any_cons, List.any_nil, Bool.or_false, Bool.bne_false, Item.accepts] at hx
        split_ifs at hx
        · exact foldCase_eq_mark hy (by simpa using hx)
        · simpa using hx
      rwa [hxy]
    · cases hitems
  simp only [List.mem_cons, List.not_mem_nil, or_false] at hmark
  rcases hmark with rfl | rfl | rfl | rfl | rfl <;> rfl

omit [Unicode] in
theorem boundaryFirst_UNSAFE : boundaryFirst UNSAFE = true := by decide +kernel

omit [Unicode] in
theorem boundariesOnly_UNSAFE : boundariesOnly UNSAFE = true := by decide +kernel

omit [Unicode] in
theorem opens_UNSAFE : opens notEquals UNSAFE = true := by decide +kernel

omit [Unicode] in
theorem closes_UNSAFE : closes isMark UNSAFE = true := by decide +kernel

theorem isWord_equals : isWord 61 = false := by
  rw [isWord, Unicode.isAlnum_ascii 61 (by decide)]
  rfl

omit [Unicode] in
theorem rstrip_append_cons (l : PyStr) {x : CodePoint} (hx : isWhite x = false) (z : PyStr) :
    rstrip (l ++ x :: z) = l ++ x :: rstrip z := by
  have hreverse : (l ++ x :: z).reverse = z.reverse ++ x :: l.reverse := by simp
  have hkeep : (x :: l.reverse).dropWhile isWhite = x :: l.reverse :=
    dropWhile_eq_self_of_head (by simpa using hx)
  rw [rstrip, rstrip, hreverse, List.dropWhile_append, hkeep]
  split_ifs with hempty
  · simp [List.isEmpty_iff.mp hempty]
  · simp

omit [Unicode] in
theorem rstrip_append_white (z : PyStr) : ∃ w, z = rstrip z ++ w := by
  refine ⟨(z.reverse.takeWhile isWhite).reverse, ?_⟩
  rw [rstrip, ← List.reverse_append, List.takeWhile_append_dropWhile, List.reverse_reverse]

omit [Unicode] in
/-- The expression of a formula that has something visible in it. -/
theorem expression_eq (l : PyStr) {x : CodePoint} (hx : isWhite x = false) (z : PyStr) :
    expression (61 :: (l ++ x :: z)) = l ++ x :: rstrip z := by
  have hstrip : strip (61 :: (l ++ x :: z)) = 61 :: (l ++ x :: rstrip z) := by
    change rstrip ((61 :: (l ++ x :: z)).dropWhile isWhite) = _
    rw [dropWhile_eq_self_of_head (by simp; rfl), ← List.cons_append, rstrip_append_cons (61 :: l) hx,
      List.cons_append]
  rw [expression, hstrip]
  rfl

/-- What marks a formula as unsafe stands in its expression: neither the sign in front of it nor the
white space behind it takes part. -/
theorem unsafe_expression {s : PyStr} (hs : startsWith (py "=") s = true)
    (h : (reSearch UNSAFE s).isSome = true) : (reSearch UNSAFE (expression s)).isSome = true := by
  obtain ⟨e, rfl⟩ : ∃ e, s = 61 :: e := by
    obtain ⟨e, he⟩ := List.isPrefixOf_iff_prefix.mp hs
    exact ⟨e, he.symm⟩
  rw [reSearch, Option.isSome_map, search_isSome_iff] at h
  obtain ⟨prior, rest, hsplit, hrun⟩ := h
  obtain ⟨t, ht⟩ := List.exists_mem_of_ne_nil _ hrun
  cases prior with
  | nil =>
    obtain ⟨x, more, hafter, c, hc, hx⟩ := run_opens opens_UNSAFE ht
    rw [State.after, ← hsplit.trans (List.nil_append rest)] at hafter
    obtain ⟨rfl, -⟩ := List.cons.inj hafter
    rw [show sre.accepts c 61 = c.accepts 61 from rfl, notEquals_accepts hc] at hx
    cases hx
  | cons c prior =>
    obtain ⟨rfl, rfl⟩ : 61 = c ∧ e = prior ++ rest := List.cons.inj hsplit
    -- The match ends behind a visible character, so in front of the white space at the end.
    obtain ⟨x, before, hbefore, hlt, d, hd, hx⟩ := run_closes closes_UNSAFE ht
    have hwhite : isWhite x = false := isMark_accepts hd hx
    obtain ⟨u, hafter, hreach⟩ := run_reaches UNSAFE _ t ht
    obtain ⟨v, rfl⟩ : ∃ v, u = v ++ [x] := by
      cases hu : u.reverse with
      | nil =>
        rw [List.reverse_eq_nil_iff.mp hu] at hafter
        simp only [List.nil_append] at hafter
        rw [hafter] at hlt
        exact absurd hlt (lt_irrefl _)
      | cons y v =>
        rw [hu, hbefore] at hreach
        refine ⟨v.reverse, ?_⟩
        rw [← List.reverse_reverse u, hu, List.reverse_cons, (List.cons.inj hreach).1]
    obtain ⟨w, hw⟩ := rstrip_append_white t.after
    have hrest : rest = (v ++ x :: rstrip t.after) ++ w := by
      rw [List.append_assoc, List.cons_append, ← hw]
      simpa using hafter
    have hexpression : expression (61 :: (prior ++ rest)) = prior ++ (v ++ x :: rstrip t.after) := by
      have heq : prior ++ rest = (prior ++ v) ++ x :: t.after := by
        rw [show rest = v ++ [x] ++ t.after from hafter]
        simp
      rw [heq, expression_eq _ hwhite, List.append_assoc]
    rw [hexpression, reSearch, Option.isSome_map, search_isSome_iff]
    refine ⟨prior, _, rfl, fun hnone ↦ ?_⟩
    rw [hrest] at ht
    obtain ⟨t', ht'⟩ := exists_run_of_extend (s := ⟨(61 :: prior).reverse, v ++ x :: rstrip t.after, []⟩)
      boundaryFirst_UNSAFE ht (by rw [within, hw]; simp)
    have hshifted := run_shifted UNSAFE (blind_of_not_isWord isWord_equals boundariesOnly_UNSAFE)
      ⟨(61 :: prior).reverse, v ++ x :: rstrip t.after, []⟩ ⟨prior.reverse ++ [], v ++ x :: rstrip t.after, []⟩
      ⟨prior.reverse, by simp, rfl, rfl, rfl⟩
    rw [List.append_nil, hnone] at hshifted
    rw [List.forall₂_nil_right_iff.mp hshifted] at ht'
    cases ht'

end Pattern

/-! ## What evaluation leaves as it is -/

section Evaluation

variable {K : Type} [Floats K] [Unicode] [Casing]

/-- A formula that could reach outside the workbook. -/
def UnsafeFormula (s : PyStr) : Prop := startsWith (py "=") s = true ∧ (reSearch UNSAFE s).isSome = true

def blockedValue : Value K := .str (py "#BLOCKED!")

variable (cells : List (PyStr × Value K))

omit [Floats K] [Casing] in
/-- Unsafe formulas that have been evaluated are blocked. -/
def Good (state : GridState K) : Prop :=
  ∀ ref s v, cells.lookup ref = some (.str s) → UnsafeFormula s → state.done.lookup ref = some v →
    v = blockedValue

omit [Floats K] [Casing] in
/-- Code that evaluates cells, and forgets what it is busy with. -/
def Steady {α : Type} (m : EvalM K α) : Prop :=
  ∀ state, Good cells state → Good cells (m state).2 ∧ (m state).2.busy = state.busy

variable {cells}

omit [Floats K] [Casing] in
theorem steady_raising {α : Type} (result : Except Fault α) : Steady cells (raising result) :=
  fun _ hgood ↦ ⟨hgood, rfl⟩

omit [Floats K] [Casing] in
theorem steady_pure {α : Type} (a : α) : Steady cells (pure a : EvalM K α) := steady_raising (.ok a)

omit [Floats K] [Casing] in
theorem steady_throw {α : Type} (e : Fault) : Steady cells (throw e : EvalM K α) := steady_raising (.error e)

omit [Floats K] [Unicode] [Casing] in
theorem eval_bind {α β : Type} (m : EvalM K α) (f : α → EvalM K β) (state : GridState K) :
    (m >>= f) state = match m state with
      | (.ok a, after) => f a after
      | (.error e, after) => (.error e, after) := by
  change ExceptT.bind m f state = _
  rw [ExceptT.bind, ExceptT.mk]
  change (let p := m state; ExceptT.bindCont f p.1 p.2) = _
  rcases m state with ⟨result, after⟩
  cases result <;> rfl

omit [Floats K] [Unicode] [Casing] in
theorem eval_bind_ok {α β : Type} {m : EvalM K α} {f : α → EvalM K β} {state after : GridState K} {b : β}
    (h : (m >>= f) state = (.ok b, after)) : ∃ a mid, m state = (.ok a, mid) ∧ f a mid = (.ok b, after) := by
  rw [eval_bind] at h
  rcases hrun : m state with ⟨result, mid⟩
  rw [hrun] at h
  cases result with
  | error e => cases h
  | ok a => exact ⟨a, mid, rfl, h⟩

omit [Floats K] [Casing] in
theorem Steady.bind {α β : Type} {m : EvalM K α} {f : α → EvalM K β} (hm : Steady cells m)
    (hf : ∀ a, Steady cells (f a)) : Steady cells (m >>= f) := by
  intro state hgood
  have hfirst := hm state hgood
  rw [eval_bind]
  rcases hrun : m state with ⟨result, after⟩
  rw [hrun] at hfirst
  cases result with
  | error e => exact hfirst
  | ok a =>
    have hsecond := hf a after hfirst.1
    exact ⟨hsecond.1, hsecond.2.trans hfirst.2⟩

omit [Floats K] [Casing] in
theorem Steady.after {α : Type} {m : EvalM K α} (hm : Steady cells m) {state after : GridState K}
    {result : Except Fault α} (hgood : Good cells state) (h : m state = (result, after)) :
    Good cells after ∧ after.busy = state.busy := by
  have hsteady := hm state hgood
  rwa [h] at hsteady

omit [Floats K] [Casing] in
theorem Steady.mapM {α β : Type} {f : α → EvalM K β} (hf : ∀ a, Steady cells (f a)) (l : List α) :
    Steady cells (l.mapM f) := by
  induction l with
  | nil => exact steady_pure []
  | cons a l ih =>
    rw [List.mapM_cons]
    exact (hf a).bind fun b ↦ ih.bind fun bs ↦ steady_pure _

omit [Floats K] [Casing] in
theorem steady_span {look : PyStr → EvalM K (Value K)} (hlook : ∀ ref, Steady cells (look ref))
    (start stop : PyStr) : Steady cells (span look start stop) := by
  rw [span]
  split
  · exact (Steady.mapM hlook _).bind fun _ ↦ steady_pure _
  · exact steady_throw _

mutual
theorem steady_walk {look : PyStr → EvalM K (Value K)} (hlook : ∀ ref, Steady cells (look ref)) :
    ∀ node, Steady cells (walk look node)
  | .int i => steady_pure _
  | .float x => steady_pure _
  | .str s => steady_pure _
  | .bool b => steady_pure _
  | .neg a => (steady_walk hlook a).bind fun v ↦ (steady_raising _).bind fun _ ↦ steady_pure _
  | .pos a => (steady_walk hlook a).bind fun v ↦ (steady_raising _).bind fun _ ↦ steady_pure _
  | .bin op a b =>
    (steady_walk hlook a).bind fun v ↦ (steady_raising _).bind fun x ↦
      (steady_walk hlook b).bind fun w ↦ (steady_raising _).bind fun y ↦ steady_raising _
  | .compare op a b =>
    (steady_walk hlook a).bind fun v ↦ (steady_walk hlook b).bind fun w ↦ steady_raising _
  | .call name args => by
    have hnth := steady_walkNth hlook args
    have hall := steady_walkAll hlook args
    rw [walk]
    split_ifs
    · split
      · exact hlook _
      · exact steady_throw _
    · split
      · exact steady_span hlook _ _
      · exact steady_throw _
      · exact steady_throw _
    · refine (hnth 0).bind fun test ↦ ?_
      cases test with
      | none => exact steady_throw _
      | some test =>
        simp only
        split_ifs
        · exact steady_pure _
        · refine (steady_raising _).bind fun b ↦ ?_
          split_ifs
          · exact (hnth 1).bind fun _ ↦ steady_pure _
          · exact (hnth 2).bind fun _ ↦ steady_pure _
    · exact hall.bind fun vs ↦ steady_raising _
    · exact steady_throw _
  | .other _ => steady_throw _
theorem steady_walkNth {look : PyStr → EvalM K (Value K)} (hlook : ∀ ref, Steady cells (look ref)) :
    ∀ args n, Steady cells (walkNth look args n)
  | [], _ => steady_pure _
  | arg :: _, 0 => (steady_walk hlook arg).bind fun _ ↦ steady_pure _
  | _ :: args, n + 1 => steady_walkNth hlook args n
theorem steady_walkAll {look : PyStr → EvalM K (Value K)} (hlook : ∀ ref, Steady cells (look ref)) :
    ∀ args, Steady cells (walkAll look args)
  | [] => steady_pure _
  | arg :: args =>
    (steady_walk hlook arg).bind fun _ ↦ (steady_walkAll hlook args).bind fun _ ↦ steady_pure _
end

theorem steady_evaluate (parse : PyStr → Option (Node K)) {look : PyStr → EvalM K (Value K)}
    (hlook : ∀ ref, Steady cells (look ref)) (formula : PyStr) : Steady cells (evaluate parse look formula) := by
  rw [evaluate]
  split_ifs
  · exact steady_pure _
  · split
    · exact steady_pure _
    · exact fun state hgood ↦ steady_walk hlook _ state hgood

omit [Floats K] [Casing] in
/-- A cell that is done keeps the grid in order when its value is blocked where it must be. -/
theorem Good.add {state : GridState K} (hgood : Good cells state) {key : PyStr} {v : Value K}
    (hv : ∀ s, cells.lookup key = some (.str s) → UnsafeFormula s → v = blockedValue) (busy : List PyStr) :
    Good cells { busy := busy, done := (key, v) :: state.done } := by
  intro ref s w hcell hrisky hlookup
  rw [List.lookup_cons] at hlookup
  split at hlookup
  · rename_i heq
    rw [beq_iff_eq] at heq
    subst heq
    cases hlookup
    exact hv s hcell hrisky
  · exact hgood ref s w hcell hrisky hlookup

omit [Floats K] [Casing] in
theorem formulaOf_unsafe {s : PyStr} (h : UnsafeFormula s) : formulaOf (.str s : Value K) = some s :=
  if_pos h.1

theorem evaluate_unsafe (parse : PyStr → Option (Node K)) (look : PyStr → EvalM K (Value K)) {s : PyStr}
    (h : UnsafeFormula s) (state : GridState K) :
    evaluate parse look s state = (.ok blockedValue, state) := by
  rw [evaluate, if_pos (unsafe_expression h.1 h.2)]
  rfl

/-- Evaluating a cell leaves the grid in order: an unsafe formula is blocked before it is walked. -/
theorem steady_gridValue (parse : PyStr → Option (Node K)) (depth : ℕ) :
    ∀ ref, Steady cells (gridValue parse cells [] depth ref) := by
  induction depth with
  | zero => exact fun ref ↦ steady_raising _
  | succ depth ih =>
    intro ref state hgood
    cases hdone : state.done.lookup (gridKey ref) with
    | some v =>
      rw [gridValue_done hdone]
      exact ⟨hgood, rfl⟩
    | none =>
      cases hformula : formulaOf ((cells.lookup (gridKey ref)).getD .none) with
      | none =>
        rw [gridValue_plain hdone hformula]
        refine ⟨hgood.add (fun s hcell hrisky ↦ ?_) _, rfl⟩
        rw [hcell, Option.getD_some, formulaOf_unsafe hrisky] at hformula
        cases hformula
      | some formula =>
        by_cases hbusy : gridKey ref ∈ state.busy
        · rw [gridValue_busy hdone hformula hbusy]
          exact ⟨hgood, rfl⟩
        · rw [gridValue_formula hdone hformula hbusy]
          have hrun := steady_evaluate parse ih formula { state with busy := gridKey ref :: state.busy } hgood
          rcases heval : evaluate parse (gridValue parse cells [] depth) formula
            { state with busy := gridKey ref :: state.busy } with ⟨result, after⟩
          rw [heval] at hrun
          have herase : after.busy.erase (gridKey ref) = state.busy := by
            rw [show after.busy = gridKey ref :: state.busy from hrun.2, List.erase_cons_head]
          cases result with
          | error e => exact ⟨hrun.1, herase⟩
          | ok v =>
            refine ⟨hrun.1.add (fun s hcell hrisky ↦ ?_) _, herase⟩
            rw [hcell, Option.getD_some, formulaOf_unsafe hrisky, Option.some.injEq] at hformula
            rw [← hformula, evaluate_unsafe _ _ hrisky] at heval
            cases heval
            rfl

/-- An unsafe formula is blocked, wherever the evaluation has got to. -/
theorem gridValue_unsafe (parse : PyStr → Option (Node K)) {depth : ℕ} {ref s : PyStr} {v : Value K}
    {state : GridState K} (hkey : gridKey ref = ref) (hcell : cells.lookup ref = some (.str s))
    (hrisky : UnsafeFormula s) (hgood : Good cells state) (hbusy : state.busy = [])
    (hv : (gridValue parse cells [] depth ref state).1 = .ok v) : v = blockedValue := by
  cases depth with
  | zero => cases hv
  | succ depth =>
    cases hdone : state.done.lookup (gridKey ref) with
    | some w =>
      rw [gridValue_done hdone] at hv
      cases hv
      exact hgood ref s v hcell hrisky (by rwa [hkey] at hdone)
    | none =>
      have hformula : formulaOf ((cells.lookup (gridKey ref)).getD .none) = some s := by
        rw [hkey, hcell, Option.getD_some, formulaOf_unsafe hrisky]
      rw [gridValue_formula hdone hformula (by simp [hbusy]), evaluate_unsafe _ _ hrisky] at hv
      cases hv
      rfl

omit [Floats K] [Casing] in
/-- Each value of a list has been computed somewhere along the way. -/
theorem mem_mapM_eval {α β : Type} {f : α → EvalM K β} (hf : ∀ a, Steady cells (f a)) {l : List α}
    {out : List β} {state after : GridState K} (hgood : Good cells state)
    (h : l.mapM f state = (.ok out, after)) {a : α} (ha : a ∈ l) :
    ∃ mid b, Good cells mid ∧ mid.busy = state.busy ∧ (f a mid).1 = .ok b ∧ b ∈ out := by
  induction l generalizing state out with
  | nil => cases ha
  | cons x l ih =>
    rw [List.mapM_cons] at h
    obtain ⟨b, next, hx, h⟩ := eval_bind_ok h
    obtain ⟨bs, last, hl, h⟩ := eval_bind_ok h
    cases h
    have hfirst := hf x state hgood
    rw [hx] at hfirst
    rcases List.mem_cons.mp ha with rfl | ha
    · exact ⟨state, b, hgood, rfl, by rw [hx], List.mem_cons_self⟩
    · obtain ⟨mid, c, hmid, hbusy, hc, hmem⟩ := ih hfirst.1 hl ha
      exact ⟨mid, c, hmid, hbusy.trans hfirst.2, hc, List.mem_cons_of_mem b hmem⟩

/-- When no cell of the preview is blocked, no cell that was written holds an unsafe formula. -/
theorem safe_of_previewTable {parse : PyStr → Option (Node K)} {depth : ℕ} {written lines : List PyStr}
    {after : GridState K}
    (h : previewTable (gridValue parse cells [] depth) written ⟨[], []⟩ = (.ok (lines, []), after))
    {ref s : PyStr} (href : ref ∈ written) (hkey : gridKey ref = ref) (hcell : cells.lookup ref = some (.str s)) :
    ¬ UnsafeFormula s := by
  intro hrisky
  have hvalue : ∀ ref, Steady cells (gridValue parse cells [] depth ref) := steady_gridValue parse depth
  have hgood : Good cells (⟨[], []⟩ : GridState K) := fun _ _ _ _ _ hlookup ↦ by cases hlookup
  obtain ⟨head, first, hhead, h⟩ := eval_bind_ok h
  obtain ⟨rows, second, hrows, h⟩ := eval_bind_ok h
  obtain ⟨values, third, hvalues, h⟩ := eval_bind_ok h
  have hfirst : Good cells first ∧ first.busy = [] := by
    refine Steady.after ?_ hgood hhead
    exact Steady.mapM (fun c ↦ (hvalue _).bind fun _ ↦ steady_pure _) _
  have hsecond : Good cells second ∧ second.busy = first.busy := by
    refine Steady.after ?_ hfirst.1 hrows
    refine Steady.mapM (fun r ↦ Steady.bind ?_ fun _ ↦ steady_pure _) _
    exact Steady.mapM (fun c ↦ (hvalue _).bind fun _ ↦ steady_pure _) _
  obtain ⟨mid, pair, hmid, hbusy, hpair, hmem⟩ :=
    mem_mapM_eval (fun r ↦ (hvalue r).bind fun _ ↦ steady_pure _) hsecond.1 hvalues href
  rcases hrun : gridValue parse cells [] depth ref mid with ⟨result, last⟩
  rw [eval_bind, hrun] at hpair
  cases result with
  | error e => cases hpair
  | ok v =>
    cases hpair
    have hblocked := gridValue_unsafe parse hkey hcell hrisky hmid
      (hbusy.trans (hsecond.2.trans hfirst.2)) (by rw [hrun])
    subst hblocked
    have hlisted : (ref, blockedValue) ∈ values.filter fun v ↦ v.2.equal (.str (py "#BLOCKED!")) :=
      List.mem_filter.mpr ⟨hmem, by rfl⟩
    injection h with hresult
    injection hresult with hlines
    injection hlines with _ hnone
    rw [List.map_eq_nil_iff.mp hnone] at hlisted
    cases hlisted

end Evaluation

end FourCE.Tools
