import FourCE.Library.RegexCuts
import FourCE.Python.Text

/-!
# Substituting and splitting by pieces

What `re.sub`, `re.split` and `re.findall` make of a text that has been cut at the matches of a pattern
without tests.
-/

namespace FourCE.Python

open FourCE.Library.Regex

/-- What a match has read. -/
def Match.reading (m : Match) : Reading CodePoint := m.found.reading

variable [Unicode] {p : Pattern} {s tail : PyStr} {ps : List (PyStr × Reading CodePoint)}

theorem cutAt_of_cuts (ht : testless p = true) (hr : consumes p = true) (h : Cuts sre p s ps tail)
    (prior : PyStr) :
    let cut := cutAt (prior ++ s) prior.length
      ((scanFrom sre p false prior.reverse s).map fun m ↦ ⟨m, groupCount p⟩)
    cut.1.map (fun piece ↦ (piece.1, piece.2.reading)) = ps ∧ cut.2 = tail := by
  induction h generalizing prior with
  | @last s hnone =>
    have hscan := (Cuts.last hnone).scan_eq ht hr prior.reverse
    rw [List.map_nil, List.map_eq_nil_iff] at hscan
    rw [hscan]
    exact ⟨rfl, List.drop_left⟩
  | @hit u w x ps tail hskip hhere hrest ih =>
    obtain ⟨m, hm, hmx⟩ := exists_matchAt_of_readAt ht hhere (u.reverse ++ prior.reverse)
    obtain ⟨hafter, hbefore, hne⟩ := stop_of_matchAt hm
    have htext : m.text = x.text := congrArg Reading.text hmx
    have hw : m.stop.after = w := by
      rw [htext] at hafter
      exact (List.append_cancel_left hafter).symm
    have hmoved : decide (m.stop.after.length = (x.text ++ w).length) = false := by
      have hpos := List.length_pos_of_ne_nil (hne hr)
      rw [decide_eq_false_iff_not, hw, List.length_append, ← htext]
      omega
    have hprior : m.stop.before = (prior ++ u ++ x.text).reverse := by
      rw [hbefore, htext, List.reverse_append, List.reverse_append]
    have hscan : scanFrom sre p false prior.reverse (u ++ (x.text ++ w)) =
        m :: scanFrom sre p false (prior ++ u ++ x.text).reverse w := by
      rw [scanFrom_past _ fun v z hvz hz ↦ matchAt_eq_none_of_readAt ht (hskip v z hvz hz) _,
        scanFrom_some hm, hmoved, hw, hprior]
    have hstart : m.start = prior.length + u.length := by
      rw [Found.start, matchAt_before hm]
      simp [Nat.add_comm]
    have hfinish : m.finish = (prior ++ u ++ x.text).length := by
      rw [Found.finish, hprior, List.length_reverse]
    have hwhole : prior ++ (u ++ (x.text ++ w)) = (prior ++ u ++ x.text) ++ w := by
      simp only [List.append_assoc]
    have hgap : ((prior ++ (u ++ (x.text ++ w))).take (prior.length + u.length)).drop prior.length = u := by
      rw [← List.append_assoc, List.take_left' (List.length_append), List.drop_left]
    have hmore := ih (prior ++ u ++ x.text)
    rw [← hwhole] at hmore
    rw [hscan, List.map_cons, cutAt]
    refine ⟨?_, ?_⟩
    · rw [List.map_cons]
      congr 1
      · exact Prod.ext (by rw [Match.start, hstart]; exact hgap) hmx
      · change List.map _ (cutAt _ m.finish _).1 = _
        rw [hfinish]
        exact hmore.1
    · change (cutAt _ m.finish _).2 = _
      rw [hfinish]
      exact hmore.2

/-- `re.sub` goes piece by piece. -/
theorem reSub_of_cuts (ht : testless p = true) (hr : consumes p = true) (h : Cuts sre p s ps tail)
    {repl : Match → PyStr} {f : Reading CodePoint → PyStr} (hf : ∀ m, repl m = f m.reading) :
    reSub p repl s = ps.flatMap (fun piece ↦ piece.1 ++ f piece.2) ++ tail := by
  obtain ⟨hps, htail⟩ := cutAt_of_cuts ht hr h []
  have hfinditer : reFinditer p s =
      (scanFrom sre p false ([] : PyStr).reverse s).map fun m ↦ ⟨m, groupCount p⟩ := rfl
  rw [List.nil_append, ← hfinditer] at hps htail
  unfold reSub
  simp only [hf]
  rw [← hps, List.flatMap_map]
  exact congrArg _ htail

theorem reSplitKeeping_of_cuts (ht : testless p = true) (hr : consumes p = true)
    (h : Cuts sre p s ps tail) :
    reSplitKeeping p s = (ps.map fun piece ↦ (piece.1, piece.2.text), tail) := by
  obtain ⟨hps, htail⟩ := cutAt_of_cuts ht hr h []
  have hfinditer : reFinditer p s =
      (scanFrom sre p false ([] : PyStr).reverse s).map fun m ↦ ⟨m, groupCount p⟩ := rfl
  rw [List.nil_append, ← hfinditer] at hps htail
  unfold reSplitKeeping
  rw [← hps, List.map_map]
  exact Prod.ext rfl htail

/-- What is made of the matches one by one. -/
theorem reFinditer_of_cuts {β : Type} (ht : testless p = true) (hr : consumes p = true)
    (h : Cuts sre p s ps tail) {g : Match → β} {f : Reading CodePoint → β} (hf : ∀ m, g m = f m.reading) :
    (reFinditer p s).map g = ps.map fun piece ↦ f piece.2 := by
  have hreadings : (reFinditer p s).map g = ((finditer sre p s).map Found.reading).map f := by
    unfold reFinditer
    rw [List.map_map, List.map_map]
    exact List.map_congr_left fun m _ ↦ hf _
  rw [hreadings, finditer_eq, h.scan_eq ht hr [], List.map_map]
  rfl

theorem reFindall_of_cuts (ht : testless p = true) (hr : consumes p = true) (h : Cuts sre p s ps tail) :
    reFindall p s = ps.map fun piece ↦ (piece.2.group 1).getD [] :=
  reFinditer_of_cuts ht hr h (f := fun x ↦ (x.group 1).getD []) fun _ ↦ rfl

/-! ## Character by character -/

/-- What the matches of a pattern read, one after the other. -/
def readings (p : Pattern) (s : PyStr) : List (Reading CodePoint) := (reFinditer p s).map Match.reading

/-- The pattern reads something and has no tests. -/
structure Plain (p : Pattern) : Prop where
  testless : testless p = true
  consumes : consumes p = true

theorem Plain.readings_of_cuts (hp : Plain p) (h : Cuts sre p s ps tail) : readings p s = ps.map Prod.snd :=
  reFinditer_of_cuts hp.testless hp.consumes h (f := id) fun _ ↦ rfl

/-- At the end of a text there is nothing more to read. -/
theorem Plain.cuts_nil (hp : Plain p) : Cuts sre p [] [] [] := by
  refine .last fun v z hvz ↦ ?_
  rw [(List.append_eq_nil_iff.mp hvz.symm).2]
  cases hx : readAt sre p [] with
  | none => rfl
  | some x =>
    obtain ⟨⟨w, hw⟩, hne⟩ := text_of_readAt hx
    exact absurd (List.append_eq_nil_iff.mp hw.symm).1 (hne hp.consumes)

section Plain

variable (hp : Plain p)

include hp

theorem Plain.readings_nil : readings p [] = [] := hp.readings_of_cuts hp.cuts_nil

theorem Plain.readings_skip {c : CodePoint} (hc : readAt sre p (c :: s) = none) :
    readings p (c :: s) = readings p s := by
  obtain ⟨ps, tail, hs⟩ := exists_cuts (M := sre) hp.consumes s
  rw [hp.readings_of_cuts hs]
  rcases hs.cons hc with ⟨u, x, qs, rfl, h⟩ | ⟨rfl, h⟩ <;> exact (hp.readings_of_cuts h).trans rfl

theorem Plain.readings_hit {w : PyStr} {x : Reading CodePoint}
    (hhere : readAt sre p (x.text ++ w) = some x) : readings p (x.text ++ w) = x :: readings p w := by
  obtain ⟨ps, tail, hw⟩ := exists_cuts (M := sre) hp.consumes w
  rw [hp.readings_of_cuts (hw.first hhere), hp.readings_of_cuts hw, List.map_cons]

variable {repl : Match → PyStr} {f : Reading CodePoint → PyStr} (hf : ∀ m, repl m = f m.reading)

include hf

theorem Plain.reSub_nil : reSub p repl [] = [] := reSub_of_cuts hp.testless hp.consumes hp.cuts_nil hf

theorem Plain.reSub_skip {c : CodePoint} (hc : readAt sre p (c :: s) = none) :
    reSub p repl (c :: s) = c :: reSub p repl s := by
  obtain ⟨ps, tail, hs⟩ := exists_cuts (M := sre) hp.consumes s
  have htail : ps = [] → tail = s := by
    rintro rfl
    cases hs
    rfl
  rw [reSub_of_cuts hp.testless hp.consumes hs hf]
  rcases hs.cons hc with ⟨u, x, qs, rfl, h⟩ | ⟨rfl, h⟩
  · exact reSub_of_cuts hp.testless hp.consumes h hf
  · rw [reSub_of_cuts hp.testless hp.consumes h hf, htail rfl]
    rfl

theorem Plain.reSub_hit {w : PyStr} {x : Reading CodePoint}
    (hhere : readAt sre p (x.text ++ w) = some x) : reSub p repl (x.text ++ w) = f x ++ reSub p repl w := by
  obtain ⟨ps, tail, hw⟩ := exists_cuts (M := sre) hp.consumes w
  rw [reSub_of_cuts hp.testless hp.consumes (hw.first hhere) hf,
    reSub_of_cuts hp.testless hp.consumes hw hf, List.flatMap_cons, List.nil_append, List.append_assoc]

end Plain

/-! ## Patterns at the beginning of a text -/

/-- The pattern begins with `^`. -/
def anchored : Pattern → Bool
  | .test a => a = .textStart
  | .seq q _ => anchored q
  | _ => false

theorem run_anchored {q : Pattern} (h : anchored q = true) {t : State CodePoint}
    (ht : t.before ≠ []) : run sre q t = [] := by
  induction q with
  | test a =>
    rw [anchored, decide_eq_true_eq] at h
    subst h
    have hfalse : sre.holds .textStart t.before t.after = false := by
      simpa [sre, Anchor.holds] using ht
    rw [run, hfalse]
    rfl
  | seq q r ihq ihr =>
    rw [run, ihq h]
    rfl
  | _ => cases h

theorem matchAt_anchored {q : Pattern} (h : anchored q = true) (must : Bool) {before : PyStr}
    (hbefore : before ≠ []) (text : PyStr) : matchAt sre q must before text = none := by
  rw [matchAt, run_anchored h (t := ⟨before, text, []⟩) hbefore]
  rfl

theorem scanFrom_anchored {q : Pattern} (h : anchored q = true) (must : Bool) {before : PyStr}
    (hbefore : before ≠ []) (text : PyStr) : scanFrom sre q must before text = [] := by
  induction text generalizing must before with
  | nil => exact scanFrom_none_nil (matchAt_anchored h must hbefore [])
  | cons c text ih =>
    rw [scanFrom_none_cons (matchAt_anchored h must hbefore _)]
    exact ih false (List.cons_ne_nil c before)

/-- Either there is nothing to take out, or a match at the beginning has gone. -/
theorem reSub_anchored_cases {q : Pattern} (h : anchored q = true) (hr : consumes q = true) (text : PyStr) :
    reSub q (fun _ ↦ []) text = text ∨
      ∃ m, reMatch q text = some m ∧ text = m.text ++ reSub q (fun _ ↦ []) text := by
  have hnone : ∀ must (before : PyStr), before ≠ [] → ∀ text, scanFrom sre q must before text = [] :=
    fun must before hbefore ↦ scanFrom_anchored h must hbefore
  unfold reSub reFinditer
  rw [finditer_eq]
  cases hm : matchAt sre q false [] text with
  | some m =>
    obtain ⟨htext, hbefore, hne⟩ := stop_of_matchAt hm
    have hstop : m.stop.before ≠ [] := by
      rw [hbefore]
      simpa using hne hr
    have hstart : m.start = 0 := by rw [Found.start, matchAt_before hm, List.length_nil]
    have hfinish : m.finish = m.text.length := by
      rw [Found.finish, hbefore, List.append_nil, List.length_reverse]
    refine Or.inr ⟨⟨m, groupCount q⟩, by rw [reMatch, hm]; rfl, ?_⟩
    rw [scanFrom_some hm, hnone _ _ hstop]
    simp only [List.map_cons, List.map_nil, cutAt, Match.start, hstart, List.take_zero, List.drop_nil,
      List.flatMap_cons, List.flatMap_nil, List.append_nil, List.nil_append, Match.finish, hfinish]
    conv_rhs => rw [htext, List.drop_left]
    exact htext
  | none =>
    left
    cases text with
    | nil =>
      rw [scanFrom_none_nil hm]
      rfl
    | cons c text =>
      rw [scanFrom_none_cons hm, hnone _ _ (List.cons_ne_nil _ _)]
      rfl

/-- Taking out what is at the beginning leaves an end of the text. -/
theorem reSub_anchored {q : Pattern} (h : anchored q = true) (hr : consumes q = true) (text : PyStr) :
    reSub q (fun _ ↦ []) text <:+ text := by
  rcases reSub_anchored_cases h hr text with heq | ⟨m, -, heq⟩
  · exact ⟨[], by rw [heq, List.nil_append]⟩
  · exact ⟨m.text, heq.symm⟩

/-- What a group of a match captured is part of the text. -/
theorem infix_of_reMatch {q : Pattern} {text g : PyStr} {m : Match} {n : ℕ}
    (h : reMatch q text = some m) (hg : m.group n = some g) : g <:+: text := by
  obtain ⟨found, hfound, rfl⟩ := Option.map_eq_some_iff.mp h
  unfold matchAt at hfound
  obtain ⟨t, ht, rfl⟩ := Option.map_eq_some_iff.mp hfound
  have hmem := List.mem_of_mem_filter (List.mem_of_mem_head? ht)
  obtain ⟨pair, hpair, rfl⟩ := Option.map_eq_some_iff.mp hg
  exact (groups_isInfix q _ t hmem pair (List.mem_of_find?_eq_some hpair)).resolve_left List.not_mem_nil

/-! ## Patterns up to the end of a text -/

/-- The pattern ends with `$`. -/
def finished : Pattern → Bool
  | .seq (.test a) q => q = .eps && a = .textEnd || finished q
  | .seq _ q => finished q
  | _ => false

end FourCE.Python
