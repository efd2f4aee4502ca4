import FourCE.Sidebar.Outcome

/-!
# Where the sidebar finds a receipt

The search for the receipt passes over a text in which no receipt opens and reads the block behind
it.  Where one opens in the text, it reads that one, whatever stands behind the text.
-/

namespace FourCE.Sidebar

open FourCE.Python FourCE.Orchestrator FourCE.Library.Regex

/-- The fence a receipt opens with. -/
def fence : PyStr := py "```4ce-receipt"

/-- The fence it closes with. -/
def closing : PyStr := py "\n```"

/-- What stands between an answer and the fence of its receipt. -/
def glue : PyStr := py "\n\n---\n\n"

/-- The text begins with a receipt's fence, blanks and the end of a line. -/
def Opening (s : PyStr) : Prop := ∃ u post, s = fence ++ (u ++ 10 :: post) ∧ ∀ c ∈ u, isWhite c = true

/-- A receipt opens in the text, or at its end in front of the line break that follows it. -/
def OpensReceipt (deliverable : PyStr) : Prop :=
  ∃ prior rest, deliverable ++ [10] = prior ++ rest ∧ Opening rest

/-! ## Openings -/

/-- A fence holds no line break, and its blanks may stop at the first. -/
theorem Opening.of_append {w more : PyStr} (h : Opening (w ++ 10 :: more)) : Opening (w ++ [10]) := by
  obtain ⟨u, post, heq, hu⟩ := h
  obtain ⟨d, rfl, hd⟩ | ⟨v, hv, hmore⟩ := List.append_eq_append_iff.mp heq.symm
  · obtain ⟨e, rfl, he⟩ | ⟨e, rfl, -⟩ := List.append_eq_append_iff.mp hd
    · cases e with
      | nil => exact ⟨u, [], by simp, hu⟩
      | cons c e =>
        obtain rfl : 10 = c := (List.cons.inj he).1
        exact ⟨u, e ++ [10], by simp, hu⟩
    · exact ⟨d, [], by simp, fun c hc ↦ hu c (List.mem_append_left e hc)⟩
  · cases v with
    | nil => exact ⟨[], [], by simpa using hv.symm, by simp⟩
    | cons c v =>
      obtain rfl : 10 = c := (List.cons.inj hmore).1
      have hfence : (10 : CodePoint) ∉ fence := by decide
      exact absurd (by rw [hv]; simp) hfence

theorem not_opening_cons {c : CodePoint} {s : PyStr} (hc : c ≠ 96) : ¬ Opening (c :: s) := by
  rintro ⟨u, post, heq, -⟩
  exact hc (List.cons.inj heq).1

/-- No place in the answer or in the rule behind it opens a receipt, if none in the answer does. -/
theorem not_opening_of_glue {deliverable after v w : PyStr} (h : ¬ OpensReceipt deliverable)
    (hvw : deliverable ++ glue = v ++ w) (hw : w ≠ []) : ¬ Opening (w ++ after) := by
  obtain ⟨d, rfl, hd⟩ | ⟨d, rfl, rfl⟩ := List.append_eq_append_iff.mp hvw
  · cases w with
    | nil => exact absurd rfl hw
    | cons c w =>
      have hglue : glue.all (fun x ↦ x ≠ 96) = true := by decide
      have hc := List.all_eq_true.mp hglue c (by rw [hd]; simp)
      exact not_opening_cons (of_decide_eq_true hc)
  · intro hopen
    rw [List.append_assoc] at hopen
    exact h ⟨v, d ++ [10], by rw [List.append_assoc], hopen.of_append⟩

/-! ## Places in a text -/

/-- The first place at which a text has a property. -/
theorem exists_first_place {P : PyStr → Prop} {s : PyStr} (h : ∃ prior rest, s = prior ++ rest ∧ P rest) :
    ∃ prior rest, s = prior ++ rest ∧ P rest ∧ ∀ v w, prior = v ++ w → w ≠ [] → ¬ P (w ++ rest) := by
  induction s with
  | nil =>
    obtain ⟨prior, rest, heq, hP⟩ := h
    obtain ⟨rfl, rfl⟩ := List.append_eq_nil_iff.mp heq.symm
    exact ⟨[], [], rfl, hP, fun v w hvw hw ↦ absurd (List.append_eq_nil_iff.mp hvw.symm).2 hw⟩
  | cons c s ih =>
    by_cases hhere : P (c :: s)
    · exact ⟨[], c :: s, rfl, hhere, fun v w hvw hw ↦ absurd (List.append_eq_nil_iff.mp hvw.symm).2 hw⟩
    have hlater : ∃ prior rest, s = prior ++ rest ∧ P rest := by
      obtain ⟨prior, rest, heq, hP⟩ := h
      cases prior with
      | nil =>
        obtain rfl : rest = c :: s := heq.symm
        exact absurd hP hhere
      | cons x prior => exact ⟨prior, rest, (List.cons.inj heq).2, hP⟩
    obtain ⟨prior, rest, rfl, hP, hfirst⟩ := ih hlater
    refine ⟨c :: prior, rest, rfl, hP, fun v w hvw hw ↦ ?_⟩
    cases v with
    | nil =>
      obtain rfl : w = c :: prior := hvw.symm
      exact hhere
    | cons x v => exact hfirst v w (List.cons.inj hvw).2 hw

/-- The rule and the fence of the record's own receipt. -/
def mark : PyStr := py "---\n\n```"

theorem exists_last_line_end {u post : PyStr} (hu : ∀ c ∈ u, isWhite c = true) (hpost : mark <:+ post) :
    ∃ u' post', u ++ 10 :: post = u' ++ 10 :: post' ∧ (∀ c ∈ u', isWhite c = true) ∧ mark <:+ post' ∧
      ∀ v rest, post' = v ++ 10 :: rest → ∃ c ∈ v, isWhite c = false := by
  by_cases hlast : ∀ v rest, post = v ++ 10 :: rest → ∃ c ∈ v, isWhite c = false
  · exact ⟨u, post, rfl, hu, hpost, hlast⟩
  push Not at hlast
  obtain ⟨v, rest, rfl, hv⟩ := hlast
  have hwhite : ∀ c ∈ v ++ [10], isWhite c = true := by
    intro c hc
    rcases List.mem_append.mp hc with hc | hc
    · exact Bool.eq_true_of_not_eq_false (hv c hc)
    · rw [List.mem_singleton.mp hc]
      rfl
  have hrest : mark <:+ rest := by
    obtain ⟨a, ha⟩ := hpost
    have heq : a ++ mark = (v ++ [10]) ++ rest := by simpa using ha
    obtain ⟨d, hd, hmark⟩ | ⟨d, -, hd⟩ := List.append_eq_append_iff.mp heq
    · cases d with
      | nil => exact ⟨[], hmark⟩
      | cons x d =>
        obtain rfl : 45 = x := (List.cons.inj hmark).1
        have hdash := hwhite 45 (by rw [hd]; simp)
        cases hdash
    · exact ⟨d, hd.symm⟩
  obtain ⟨u', post', heq, hu', hmark, hlast⟩ := exists_last_line_end (u := u ++ 10 :: v)
    (by
      intro c hc
      rw [List.mem_append] at hc
      rcases hc with hc | hc
      · exact hu c hc
      · exact hwhite c (by simpa [or_comm] using hc)) hrest
  exact ⟨u', post', by rw [← heq]; simp, hu', hmark, hlast⟩
termination_by post.length

theorem glue_eq (more : PyStr) : glue ++ (py "```" ++ more) = 10 :: 10 :: (mark ++ more) := rfl

theorem mark_eq : mark = py "---\n" ++ closing := by decide

/-- Behind the last line end among the blanks every line end has something else in front of it, and
the rule that follows the answer sees to it that this holds of any text behind it. -/
theorem behind_append {post more v rest : PyStr} (hmark : mark <:+ post)
    (hlast : ∀ v rest, post = v ++ 10 :: rest → ∃ c ∈ v, isWhite c = false)
    (h : post ++ more = v ++ 10 :: rest) : ∃ c ∈ v, isWhite c = false := by
  obtain ⟨d, rfl, -⟩ | ⟨d, rfl, hd⟩ := List.append_eq_append_iff.mp h
  · obtain ⟨a, rfl⟩ := hmark
    exact ⟨45, by simp [mark, py, CodePoint.ofChar], by decide⟩
  · cases d with
    | nil =>
      obtain ⟨a, ha⟩ := hmark
      rw [List.append_nil] at ha
      exact ⟨45, by rw [← ha]; simp [mark, py, CodePoint.ofChar], by decide⟩
    | cons c d =>
      obtain rfl : 10 = c := (List.cons.inj hd).1
      exact hlast v d rfl

/-! ## The pattern -/

/-- The class of one character. -/
def one (c : CodePoint) : CharClass := ⟨false, [.one c], false⟩

def blank : CharClass := ⟨false, [.space true], false⟩

def anything : CharClass := ⟨true, [], false⟩

theorem RECEIPT_eq : RECEIPT = block one blank anything 1 fence 10 closing := by
  rw [RECEIPT, re]
  decide

section

variable [Unicode]

theorem one_accepts (x y : CodePoint) : sre.accepts (one x) y = true ↔ y = x := by
  simp [sre, one, CharClass.accepts, Item.accepts]

theorem blank_accepts (x : CodePoint) : sre.accepts blank x = isWhite x := by
  simp [sre, blank, CharClass.accepts, Item.accepts]

theorem anything_accepts (x : CodePoint) : sre.accepts anything x = true := rfl

/-- What the receipt block that is found holds. -/
def receiptBody (content : PyStr) : Option PyStr :=
  (reSearch RECEIPT content).map fun found ↦ groupText found 1

/-! ## One place -/

theorem run_receipt_eq_nil {before rest : PyStr} (h : ¬ Opening rest) :
    run sre RECEIPT ⟨before, rest, []⟩ = [] := by
  rw [List.eq_nil_iff_forall_not_mem]
  intro t ht
  rw [RECEIPT_eq] at ht
  obtain ⟨u, post, hafter, hu⟩ := opens_of_mem_run_block one_accepts ht
  exact h ⟨u, post, hafter, fun c hc ↦ by rw [← blank_accepts]; exact hu c hc⟩

/-- The block at a place: blanks, the last line end among them, and the text in front of the first
closing fence. -/
theorem first_receipt {before u g more : PyStr} (hu : ∀ c ∈ u, isWhite c = true)
    (hbehind : ∀ v rest, g ++ (closing ++ more) = v ++ 10 :: rest → ∃ c ∈ v, isWhite c = false)
    (hclose : ∀ v z rest, g = v ++ z → z ≠ [] → z ++ (closing ++ more) ≠ closing ++ rest) :
    ∃ t, first sre RECEIPT ⟨before, fence ++ (u ++ 10 :: (g ++ (closing ++ more))), []⟩ = some t ∧
      t.groups = [(1, g)] := by
  rw [RECEIPT_eq]
  refine ⟨_, first_block one_accepts anything_accepts rfl ?_ ?_ ?_ hclose, rfl⟩
  · exact fun c hc ↦ by rw [blank_accepts]; exact hu c hc
  · rw [blank_accepts]
    rfl
  · intro v rest hrest
    obtain ⟨c, hc, hwhite⟩ := hbehind v rest hrest
    exact ⟨c, hc, by rw [blank_accepts, hwhite]⟩

/-- The search passes over what opens no receipt. -/
theorem receiptBody_of_first {prior after g : PyStr} {t : State CodePoint}
    (hpast : ∀ v w, prior = v ++ w → w ≠ [] → ¬ Opening (w ++ after))
    (hfirst : first sre RECEIPT ⟨prior.reverse, after, []⟩ = some t) (hgroups : t.groups = [(1, g)]) :
    receiptBody (prior ++ after) = some g := by
  rw [receiptBody, reSearch, search, searchFrom_past [] fun v w hvw hw ↦
    run_receipt_eq_nil (hpast v w hvw hw), List.append_nil, searchFrom_first hfirst]
  simp [groupText, Match.group, Found.group, hgroups]

/-! ## The receipt that is found -/

/-- A block of one line is found whole. -/
theorem first_receipt_line {before g more : PyStr} {c : CodePoint} (hc : isWhite c = false)
    (hg : (10 : CodePoint) ∉ c :: g) :
    ∃ t, first sre RECEIPT ⟨before, fence ++ (10 :: (c :: g ++ (closing ++ more))), []⟩ = some t ∧
      t.groups = [(1, c :: g)] := by
  have hbehind (v rest : PyStr) (hv : c :: g ++ (closing ++ more) = v ++ 10 :: rest) :
      ∃ x ∈ v, isWhite x = false := by
    cases v with
    | nil =>
      obtain rfl : c = 10 := (List.cons.inj hv).1
      cases hc
    | cons x v =>
      obtain rfl : c = x := (List.cons.inj hv).1
      exact ⟨c, List.mem_cons_self, hc⟩
  have hclose (v z rest : PyStr) (hvz : c :: g = v ++ z) (hz : z ≠ []) :
      z ++ (closing ++ more) ≠ closing ++ rest := by
    cases z with
    | nil => exact absurd rfl hz
    | cons x z =>
      intro heq
      obtain rfl : x = 10 := (List.cons.inj heq).1
      exact hg (by rw [hvz]; simp)
  exact first_receipt (u := []) (by simp) hbehind hclose

/-- The block behind a text in which none opens is the one that is found. -/
theorem receiptBody_of_not_opens {deliverable g more : PyStr} {c : CodePoint}
    (h : ¬ OpensReceipt deliverable) (hc : isWhite c = false) (hg : (10 : CodePoint) ∉ c :: g) :
    receiptBody (deliverable ++ glue ++ (fence ++ (10 :: (c :: g ++ (closing ++ more))))) =
      some (c :: g) := by
  obtain ⟨t, hfirst, hgroups⟩ := first_receipt_line hc hg
  exact receiptBody_of_first (fun v w hvw hw ↦ not_opening_of_glue h hvw hw) hfirst hgroups

/-- Where a receipt opens in the answer, what the sidebar reads is settled by the answer. -/
theorem receiptBody_of_opens {deliverable : PyStr} (h : OpensReceipt deliverable) :
    ∃ g, ∀ more, receiptBody (deliverable ++ glue ++ (py "```" ++ more)) = some g := by
  obtain ⟨prior, rest, heq, hopen, hfirst⟩ := exists_first_place h
  obtain ⟨d, rfl, rfl⟩ : ∃ d, deliverable = prior ++ d ∧ rest = d ++ [10] := by
    obtain ⟨d, hd, hrest⟩ | ⟨d, hd, hrest⟩ := List.append_eq_append_iff.mp heq
    · obtain ⟨u, post, rfl, -⟩ := hopen
      have hlength := congrArg List.length hrest
      simp [fence, py] at hlength
      omega
    · exact ⟨d, hd, hrest⟩
  obtain ⟨u, post, hrest, hu⟩ := hopen
  have hmark : mark <:+ post ++ 10 :: mark := ⟨post ++ [10], by simp⟩
  obtain ⟨u', post', hline, hu', hmark, hlast⟩ := exists_last_line_end hu hmark
  obtain ⟨g, close, rfl, ⟨tail, rfl⟩, hshort⟩ := exists_first_place (P := (closing <+: ·)) (s := post') (by
    obtain ⟨a, rfl⟩ := hmark
    exact ⟨a ++ py "---\n", closing, by rw [mark_eq, List.append_assoc], List.prefix_rfl⟩)
  refine ⟨g, fun more ↦ ?_⟩
  have hafter : d ++ (glue ++ (py "```" ++ more)) =
      fence ++ (u' ++ 10 :: (g ++ (closing ++ (tail ++ more)))) := by
    calc d ++ (glue ++ (py "```" ++ more)) = (d ++ [10]) ++ 10 :: (mark ++ more) := by
          rw [glue_eq, List.append_assoc]
          rfl
      _ = fence ++ ((u ++ 10 :: (post ++ 10 :: mark)) ++ more) := by
          rw [hrest]
          simp
      _ = fence ++ (u' ++ 10 :: (g ++ (closing ++ (tail ++ more)))) := by
          rw [hline]
          simp
  have hbehind (v rest : PyStr) (hv : g ++ (closing ++ (tail ++ more)) = v ++ 10 :: rest) :
      ∃ c ∈ v, isWhite c = false :=
    behind_append hmark hlast (v := v) (show (g ++ (closing ++ tail)) ++ more = v ++ 10 :: rest by
      rw [← hv]; simp)
  have hclose (v z rest : PyStr) (hvz : g = v ++ z) (hz : z ≠ []) :
      z ++ (closing ++ (tail ++ more)) ≠ closing ++ rest := by
    intro hzr
    refine hshort v z hvz hz (List.prefix_of_prefix_length_le ⟨rest, hzr.symm⟩ ⟨more, by simp⟩ ?_)
    simp
    omega
  obtain ⟨t, ht, hgroups⟩ := @first_receipt _ prior.reverse _ _ _ hu' hbehind hclose
  have hpast (v w : PyStr) (hvw : prior = v ++ w) (hw : w ≠ []) :
      ¬ Opening (w ++ (fence ++ (u' ++ 10 :: (g ++ (closing ++ (tail ++ more)))))) := by
    rw [← hafter, glue_eq, ← List.append_assoc]
    intro hopen
    have hone := hopen.of_append
    rw [List.append_assoc] at hone
    exact hfirst v w hvw hw hone
  rw [List.append_assoc, List.append_assoc, hafter]
  exact receiptBody_of_first hpast ht hgroups

end

end FourCE.Sidebar
