import FourCE.Library.RegexAround
import FourCE.Orchestrator.TidyBlocks

/-!
# What tidying keeps

`_tidy` goes through the prose line by line.  Blank space apart, what it leaves is made of the lines that
are no clutter, in their order: a heading with its words, any other line as it is.
-/

namespace FourCE.Orchestrator

open FourCE.Library.Regex FourCE.Python

/-! ## White space -/

section

variable [Unicode]

/-! ## Lines -/

/-- The heading a line is. -/
def headingOf (line : PyStr) : Option Match := reMatch headingLine (strip line)

/-- A line that is nothing but bold text, and no heading. -/
def boldOf (line : PyStr) : Option Match :=
  if (headingOf line).isSome then none else reMatch boldLine (strip line)

/-- Neither blank nor a rule nor a sign-off. -/
def bearing (line : PyStr) : Bool :=
  !(strip line).isEmpty &&
    !((reMatch ruleLine (strip line)).isSome || (reMatch signOffLine (strip line)).isSome)

/-- At the opening a title: a deliverable's, a heading of the first or second level, or bold text. -/
def titled (line : PyStr) : Bool :=
  (reMatch titleLine (strip line)).isSome || (boldOf line).isSome ||
    match headingOf line with
    | some m => ((m.group 1).getD []).length ≤ 2
    | none => false

/-- What becomes of a line that is kept. -/
def tidied (line : PyStr) : PyStr := rstrip (tidyLine line (headingOf line) (boldOf line))

theorem tidyStep_blank {line : PyStr} (h : (strip line).isEmpty = true) (state : Bool × List PyStr) :
    tidyStep state line = (state.1, state.2 ++ [[]]) := by
  unfold tidyStep
  exact if_pos h

theorem tidyStep_bearing {line : PyStr} (h : bearing line = true) (state : Bool × List PyStr) :
    tidyStep state line =
      (false, if (state.1 && titled line) = true then state.2 else state.2 ++ [tidied line]) := by
  unfold bearing at h
  rw [Bool.and_eq_true, Bool.not_eq_true', Bool.not_eq_true'] at h
  unfold tidyStep
  dsimp only
  rw [h.1, if_neg Bool.false_ne_true, h.2, if_neg Bool.false_ne_true]
  exact (apply_ite (Prod.mk false) _ _ _).symm

section Kept

variable (title : PyStr → Bool)

end Kept

/-- A line that becomes a heading: one already, or bold text that is no label with a value, no sentence
and not too long. -/
def heads (line : PyStr) : Bool :=
  (headingOf line).isSome || match boldOf line with
    | some m =>
      let words := headingWords ((m.group 1).getD [])
      !found labelAndValue words && !endsSentence words && words.length ≤ 70
    | none => false

/-- Tidying leaves each of these lines as it is, and the first that bears something is no title. -/
structure Settled (opening : Bool) (lines : List PyStr) : Prop where
  kept : ∀ line ∈ lines, line = [] ∨ bearing line = true ∧ tidied line = line
  untitled : opening = true → ∀ line ∈ (lines.filter bearing).head?, titled line = false

/-- The prose of a text is settled. -/
def SettledParts : Bool → List (PyStr × PyStr) → PyStr → Prop
  | opening, [], rest => Settled opening (splitNewline rest)
  | opening, (text, _) :: parts, rest => Settled opening (splitNewline text) ∧ SettledParts false parts rest

theorem bearing_nil : bearing [] = false := rfl

theorem Settled.foldl {opening : Bool} {lines : List PyStr} (h : Settled opening lines) (kept : List PyStr) :
    (lines.foldl tidyStep (opening, kept)).2 = kept ++ lines := by
  induction lines generalizing opening kept with
  | nil => exact (List.append_nil _).symm
  | cons line lines ih =>
    obtain ⟨hline, hlines⟩ := List.forall_mem_cons.mp h.kept
    rw [List.foldl_cons]
    rcases hline with rfl | ⟨hbearing, htidied⟩
    · have hrest : Settled opening lines := by
        refine ⟨hlines, fun hopening ↦ ?_⟩
        have huntitled := h.untitled hopening
        rwa [List.filter_cons_of_neg (by simp [bearing_nil])] at huntitled
      rw [tidyStep_blank rfl, ih hrest, List.append_assoc]
      rfl
    · have htitle : ¬ (opening && titled line) = true := by
        intro htitle
        rw [Bool.and_eq_true] at htitle
        have huntitled := h.untitled htitle.1 line
        rw [List.filter_cons_of_pos hbearing, htitle.2] at huntitled
        exact Bool.noConfusion (huntitled rfl)
      have hrest : Settled false lines := ⟨hlines, fun hopening ↦ Bool.noConfusion hopening⟩
      rw [tidyStep_bearing hbearing, if_neg htitle, ih hrest, htidied, List.append_assoc]
      rfl

theorem SettledParts.tidyParts_eq {opening : Bool} {parts : List (PyStr × PyStr)} {rest : PyStr}
    (h : SettledParts opening parts rest) :
    tidyParts opening parts rest = parts.flatMap (fun p ↦ p.1 ++ p.2) ++ rest := by
  have hpart : ∀ {opening : Bool} {text : PyStr}, Settled opening (splitNewline text) →
      (tidyPart opening text).2 = text := by
    intro opening text h
    unfold tidyPart
    dsimp only
    rw [h.foldl, List.nil_append, join_splitNewline]
  induction parts generalizing opening with
  | nil => exact hpart h
  | cons part parts ih =>
    rw [tidyParts, hpart h.1, ih h.2, List.flatMap_cons]
    simp only [List.append_assoc]

end

section Sample

local instance asciiKeeper : Unicode := asciiTables

end Sample

end FourCE.Orchestrator
