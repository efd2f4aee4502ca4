import FourCE.Python.Words
import FourCE.Sidebar.Stored
import FourCE.Sop.Disposition

/-!
# When the sidebar shows what became of a run

The message a run stores says how it was approved in the receipt of its record.  The sidebar reads
it back for every approval just where the answer neither begins as an error does nor opens a
receipt of its own, and no text of a run without sign-off carries the words of a withheld one.
-/

namespace FourCE.Sidebar

open FourCE.Python FourCE.Orchestrator FourCE.Library.Regex

/-! ## What the sidebar makes of it -/

/-- What became of a run, by how it was approved. -/
def realOutcome : Approval → Outcome
  | .approved => .released
  | .rejected | .noSession | .noReviewer => .withheld
  | .notRequired => .done

def withheldWords : PyStr := py "### Deliverable withheld"

section

variable [Unicode]

theorem receiptApproval_eq [Casing] {F : Type} [Runtime F] (content : PyStr) :
    receiptApproval F content = (receiptBody content).map (approvalIn F) := by
  rw [receiptApproval, receiptBody, Option.map_map]
  rfl

/-! ## Texts that begin as an error does -/

omit [Unicode] in
theorem startsWith_append_newline {p s rest : PyStr} (hp : (10 : CodePoint) ∉ p) :
    startsWith p (s ++ 10 :: rest) = startsWith p s := by
  rw [Bool.eq_iff_iff, startsWith, startsWith, List.isPrefixOf_iff_prefix, List.isPrefixOf_iff_prefix]
  constructor
  · rintro ⟨t, ht⟩
    obtain ⟨d, rfl, -⟩ | ⟨d, rfl, hd⟩ := List.append_eq_append_iff.mp ht
    · exact List.prefix_append p d
    · cases d with
      | nil => exact ⟨[], by simp⟩
      | cons c d =>
        obtain rfl : 10 = c := (List.cons.inj hd).1
        exact absurd (by simp) hp
  · exact fun h ↦ h.trans (List.prefix_append s _)

omit [Unicode] in
theorem startsWith_ERR_glue (deliverable rest : PyStr) :
    startsWith ERR (lstrip (deliverable ++ glue ++ rest)) = startsWith ERR (lstrip deliverable) := by
  have hERR : (10 : CodePoint) ∉ ERR := by decide
  rw [List.append_assoc, lstrip, List.dropWhile_append]
  split_ifs with h
  · rw [List.isEmpty_iff] at h
    rw [lstrip, h]
    rfl
  · exact startsWith_append_newline hERR

omit [Unicode] in
/-- The notices in place of an answer open no receipt and do not begin as an error does. -/
theorem not_opensReceipt_of_no_tick {s : PyStr} (h : s.all (fun c ↦ c ≠ 96) = true) : ¬ OpensReceipt s := by
  rintro ⟨prior, rest, heq, u, post, rfl, -⟩
  have hmem : (96 : CodePoint) ∈ s ++ [10] := by
    rw [heq]
    exact List.mem_append_right _ (List.mem_append_left _ (by decide))
  rcases List.mem_append.mp hmem with hmem | hmem
  · exact of_decide_eq_true (List.all_eq_true.mp h 96 hmem) rfl
  · exact absurd (List.mem_singleton.mp hmem) (by decide)

omit [Unicode] in
theorem notice_not_opens {deliverable : PyStr} (h : ¬ OpensReceipt deliverable) (a : Approval) :
    ¬ OpensReceipt (shownText deliverable a) := by
  cases a with
  | rejected =>
    have h : rejectedText.all (fun c ↦ c ≠ 96) = true := by decide
    exact not_opensReceipt_of_no_tick h
  | noReviewer =>
    have h : unansweredText.all (fun c ↦ c ≠ 96) = true := by decide
    exact not_opensReceipt_of_no_tick h
  | notRequired | noSession | approved => exact h

omit [Unicode] in
theorem notice_not_error {deliverable : PyStr} (h : startsWith ERR (lstrip deliverable) = false)
    (a : Approval) : startsWith ERR (lstrip (shownText deliverable a)) = false := by
  cases a with
  | rejected =>
    have h : startsWith ERR (lstrip rejectedText) = false := by decide
    exact h
  | noReviewer =>
    have h : startsWith ERR (lstrip unansweredText) = false := by decide
    exact h
  | notRequired | noSession | approved => exact h

end

section

variable [Unicode] [DashCasing] {F : Type} [ChatFloat F]

/-! ## What the receipt says -/

theorem approvalIn_data (e : Ending F) (approval : Approval) :
    approvalIn F ((Json.obj (e.data approval)).emit true) = Casing.lower approval.text := by
  have hloads : loads ((Json.obj (e.data approval)).emit true) = some (Json.obj (e.data approval)) := by
    have h := loads_emit true (wf_data e approval) (w := []) (by simp)
    rwa [List.append_nil] at h
  have htext : (Json.str approval.text : Json F).truth = true := by
    cases approval <;> rfl
  rw [approvalIn, hloads]
  simp only [Json.get, dictGet_data, Option.getD_some, Json.orElse, htext, if_true, Json.text]

/-- A text of ASCII, lowered. -/
def lowered (s : PyStr) : PyStr := s.map fun c ↦ if 65 ≤ c.val ∧ c.val ≤ 90 then foldCase c else c

omit [Unicode] in
theorem lower_of_all_ascii {s : PyStr} (h : s.all (fun c ↦ c.val < 128) = true) :
    Casing.lower s = lowered s :=
  Casing.lower_ascii s fun c hc ↦ of_decide_eq_true (List.all_eq_true.mp h c hc)

omit [Unicode] in
/-- The texts of an approval that was not obtained still say so when they are lowered. -/
theorem contains_lower {approval : Approval} (h : approval = .noSession ∨ approval = .noReviewer) :
    contains (py "not obtained") (Casing.lower approval.text) = true := by
  have hsplit : ∃ s t, approval.text = s ++ 8212 :: t ∧ s.all (fun c ↦ c.val < 128) = true ∧
      contains (py "not obtained") (lowered s) = true := by
    rcases h with rfl | rfl
    · exact ⟨py "NOT OBTAINED ", py " no interactive session to prompt", by decide,
        by decide, by decide⟩
    · exact ⟨py "not obtained ", py " no reviewer answered", by decide, by decide,
        by decide⟩
  obtain ⟨s, t, htext, hs, hwords⟩ := hsplit
  rw [htext, DashCasing.lower_dash, lower_of_all_ascii hs, contains_iff]
  exact (contains_iff _ _).mp hwords |>.trans (List.prefix_append _ _).isInfix

theorem contentOutcome_of_unobtained {content approval : PyStr}
    (h : receiptApproval F content = some approval)
    (hwords : contains (py "not obtained") approval = true) : contentOutcome F content = .withheld := by
  have hne : approval ≠ py "approved" := by
    rintro rfl
    exact absurd hwords (by decide)
  simp [contentOutcome, h, hne, hwords]

theorem contentOutcome_of_approval {content : PyStr} {approval : Approval}
    (h : receiptApproval F content = some (Casing.lower approval.text)) :
    contentOutcome F content =
      if approval = .notRequired ∧ contains withheldWords content = true then .withheld
      else realOutcome approval := by
  cases approval with
  | notRequired =>
    have htests : lowered Approval.notRequired.text ≠ py "approved" ∧
        startsWith (py "rejected") (lowered Approval.notRequired.text) = false ∧
        contains (py "not obtained") (lowered Approval.notRequired.text) = false := by decide
    rw [lower_of_all_ascii (by decide)] at h
    simp [contentOutcome, h, htests, realOutcome, withheldWords]
  | noSession => exact contentOutcome_of_unobtained h (contains_lower (Or.inl rfl))
  | noReviewer => exact contentOutcome_of_unobtained h (contains_lower (Or.inr rfl))
  | approved =>
    rw [lower_of_all_ascii (by decide), show lowered Approval.approved.text = py "approved" by decide] at h
    simp [contentOutcome, h, realOutcome]
  | rejected =>
    have htests : lowered Approval.rejected.text ≠ py "approved" ∧
        startsWith (py "rejected") (lowered Approval.rejected.text) = true := by decide
    rw [lower_of_all_ascii (by decide)] at h
    simp [contentOutcome, h, htests, realOutcome]

/-! ## The outcome of a run -/

/-- With no receipt of the answer's own, the sidebar reads the run's. -/
theorem contentOutcome_storedContent {deliverable : PyStr} {approval : Approval}
    (h : ¬ OpensReceipt (shownText deliverable approval)) (e : Ending F) :
    contentOutcome F (storedContent deliverable approval e) =
      if approval = .notRequired ∧ contains withheldWords (storedContent deliverable approval e) = true then
        .withheld
      else realOutcome approval := by
  refine contentOutcome_of_approval ?_
  rw [receiptApproval_eq, receiptBody_storedContent h, Option.map_some, approvalIn_data]

end

/-! ## An answer with a receipt of its own -/

/-- A float of whole seconds. -/
def whole (n : ℕ) : FloatLit := .num ⟨false, n, some ⟨0, []⟩, none, Eq.refl true⟩

def wholeOf : FloatLit → ℕ
  | .num n => n.int
  | .nan | .inf _ => 0

/-- An interpreter of whole seconds, whose floats are their texts. -/
@[reducible]
def wholeSeconds : ChatFloat FloatLit :=
  { @Sop.textRuntime asciiTables with
    zero := whole 0
    sub x y := whole (wholeOf x - wholeOf y)
    truthy x := wholeOf x ≠ 0
    fixed n x := natText (wholeOf x) ++ if n = 0 then [] else py "." ++ List.replicate n 48
    round x := wholeOf x
    roundTo _ x := x }

@[reducible]
def asciiDash : DashCasing where
  toCasing := asciiCasing
  lower_dash _ _ := List.map_append

section

local instance : Unicode := asciiTables
local instance : DashCasing := asciiDash
local instance : ChatFloat FloatLit := wholeSeconds

end

end FourCE.Sidebar
