import FourCE.Library.RegexScan
import FourCE.Python.Re

/-!
# Matches and line breaks

A pattern that looks back only for words, or for characters other than a newline, matches behind a
line break as it does at the start of a text.
-/

namespace FourCE.Python

open FourCE.Library.Regex

section

variable [Unicode]

theorem isWord_newline : isWord 10 = false := by
  rw [isWord, Unicode.isAlnum_ascii 10 (by decide)]
  rfl

/-- Classes that are sets of plain characters, the newline not among them. -/
def CharClass.noNewline (c : CharClass) : Bool :=
  !c.negated && c.items.all fun
    | .one x => foldCase x != 10 && x != 10
    | _ => false

theorem CharClass.noNewline_accepts {c : CharClass} (h : c.noNewline = true) :
    c.accepts 10 = false := by
  rw [CharClass.noNewline, Bool.and_eq_true, Bool.not_eq_true', List.all_eq_true] at h
  have hitem : c.items.any (Item.accepts c.ignoreCase 10) = false := by
    rw [List.any_eq_false]
    intro item hmem
    have hone := h.2 item hmem
    cases item with
    | one x =>
      simp only [Bool.and_eq_true, bne_iff_ne, ne_eq] at hone
      have hfold : ¬ foldCase 10 = foldCase x := fun he ↦ hone.1 he.symm
      have hplain : ¬ 10 = x := fun he ↦ hone.2 he.symm
      simp only [Item.accepts]
      split_ifs <;> simp [hfold, hplain]
    | range low high => exact absurd hone (by simp)
    | digit is => exact absurd hone (by simp)
    | space is => exact absurd hone (by simp)
    | word is => exact absurd hone (by simp)
  rw [CharClass.accepts, hitem, h.1]
  rfl

/-- No test of the pattern asks for the start of the text or for a newline before it. -/
def insulated : Pattern → Bool
  | .eps | .char _ => true
  | .test (.behind _ cs) => cs.all CharClass.noNewline
  | .test .textStart => false
  | .test _ => true
  | .seq r s | .alt r s => insulated r && insulated s
  | .rep _ _ _ r | .group _ r => insulated r

theorem endsIn_newline {cs : List CharClass} (h : cs.all CharClass.noNewline = true)
    (near rest : List CodePoint) : endsIn cs (near ++ 10 :: rest) = endsIn cs near := by
  induction cs generalizing near with
  | nil => rfl
  | cons c cs ih =>
    rw [List.all_cons, Bool.and_eq_true] at h
    cases near with
    | nil => simp [endsIn, CharClass.noNewline_accepts h.1]
    | cons x near => simp only [List.cons_append, endsIn, ih h.2]

theorem wordAt_newline (near rest : List CodePoint) :
    wordAt (near ++ 10 :: rest) = wordAt near := by
  cases near with
  | nil => exact isWord_newline
  | cons x near => rfl

/-- What stands before a line break cannot be told from the start of the text. -/
theorem blind_newline (rest : List CodePoint) {p : Pattern} (h : insulated p = true) :
    Blind sre (10 :: rest) [] p := by
  induction p with
  | eps => trivial
  | char c => trivial
  | test a =>
    intro near after
    change a.holds (near ++ 10 :: rest) after = a.holds (near ++ []) after
    rw [List.append_nil]
    cases a with
    | wordBoundary => simp only [Anchor.holds, wordAt_newline]
    | textStart => exact absurd h (by simp [insulated])
    | textEnd => rfl
    | lineStart => cases near <;> rfl
    | lineEnd => rfl
    | behind is cs =>
      have hall : cs.reverse.all CharClass.noNewline = true := by
        rw [List.all_reverse]
        exact h
      simp only [Anchor.holds, endsIn_newline hall]
    | ahead is cs => rfl
  | seq r s ihr ihs =>
    rw [insulated, Bool.and_eq_true] at h
    exact ⟨ihr h.1, ihs h.2⟩
  | alt r s ihr ihs =>
    rw [insulated, Bool.and_eq_true] at h
    exact ⟨ihr h.1, ihs h.2⟩
  | rep greedy least most r ih => exact ih h
  | group n r ih => exact ih h

/-- No test of the pattern asks for the end of the text or for a newline behind it. -/
def openEnded : Pattern → Bool
  | .eps | .char _ => true
  | .test .textEnd => false
  | .test (.ahead _ cs) => cs.all CharClass.noNewline
  | .test _ => true
  | .seq r s | .alt r s => openEnded r && openEnded s
  | .rep _ _ _ r | .group _ r => openEnded r

/-- A line break behind the text cannot be told from its end. -/
theorem blindRight_newline (rest : List CodePoint) {p : Pattern} (h : openEnded p = true) :
    BlindRight sre (10 :: rest) p := by
  induction p with
  | eps => trivial
  | char c => trivial
  | test a =>
    intro before after
    change a.holds before (after ++ 10 :: rest) = a.holds before after
    cases a with
    | wordBoundary =>
      have hword := wordAt_newline after rest
      simp only [Anchor.holds, hword]
    | textStart => rfl
    | textEnd => exact absurd h (by simp [openEnded])
    | lineStart => rfl
    | lineEnd => cases after <;> rfl
    | behind is cs => rfl
    | ahead is cs =>
      have hahead := endsIn_newline h after rest
      simp only [Anchor.holds, hahead]
  | seq r s ihr ihs =>
    rw [openEnded, Bool.and_eq_true] at h
    exact ⟨ihr h.1, ihs h.2⟩
  | alt r s ihr ihs =>
    rw [openEnded, Bool.and_eq_true] at h
    exact ⟨ihr h.1, ihs h.2⟩
  | rep greedy least most r ih => exact ih h
  | group n r ih => exact ih h

/-! ## Readings behind a line break -/

/-- Two matches of one pattern that read the same text. -/
structure SameReading (m n : Match) : Prop where
  count : n.count = m.count
  group : ∀ k, n.group k = m.group k
  text : n.text = m.text

omit [Unicode] in
theorem SameReading.groups {m n : Match} (h : SameReading m n) : n.groups = m.groups := by
  rw [Match.groups, Match.groups, h.count]
  exact List.map_congr_left fun k _ ↦ h.group (k + 1)

end

end FourCE.Python
