import FourCE.Library.RegexFirst
import FourCE.Python.ReLines
import FourCE.Sop.Disposition

/-!
# The interval a report requires

`_sop_interval` of the orchestrator reads an inspection interval back out of the report of
`check_sop_thresholds`: it takes the first of the clause marks that names one.  That is the shortest
required only if the pack happens to put it there, in words the reader knows.
-/

namespace FourCE.Sop

open FourCE.Python FourCE.Library.Regex

/-! ## The reader -/

/-- What `str.isdigit` knows beside the decimals: digits that `float` refuses, such as `²`. -/
class Digits [Unicode] where
  isDigit : CodePoint → Bool
  isDigit_decimal : ∀ c, (Unicode.decimal c).isSome = true → isDigit c = true

/-- `_MONTH_WORDS`. -/
def MONTH_WORDS : List (PyStr × ℕ) :=
  [(py "one", 1), (py "two", 2), (py "three", 3), (py "four", 4), (py "five", 5), (py "six", 6),
    (py "seven", 7), (py "eight", 8), (py "nine", 9), (py "ten", 10), (py "eleven", 11),
    (py "twelve", 12)]

def assessedName : Pattern := re {} (py r"SOP assessment - ([A-Za-z0-9-]+)") (by decide)

def clauseMark : Pattern := re {} (py r"\*\*§([\d.]+)\*\* - ([^\n]+)") (by decide)

def intervalTo : Pattern := re ignoreCase (py r"interval to (\w+)\s+months?") (by decide)

/-- `s.replace(".", "", 1)`. -/
def withoutPoint (s : PyStr) : PyStr :=
  match partition (py ".") s with
  | some (front, back) => front ++ back
  | none => s

section Reader

variable [Unicode] [Casing] [Digits]

/-- The months a word stands for, zero for none; the outer `none` is the `ValueError` of `float`. -/
def monthsOf (word : PyStr) : Option Double :=
  match MONTH_WORDS.lookup word with
  | some n => some (.finite n)
  | none =>
    let digits := withoutPoint word
    if !digits.isEmpty && digits.all Digits.isDigit then floatOf word else some (.finite 0)

/-- The months an action's first `interval to` names. -/
def intervalOf (action : PyStr) : Option Double :=
  match reSearch intervalTo action with
  | none => some (.finite 0)
  | some found => monthsOf (Casing.lower (groupText found 1))

/-- The name of the SOP as the basis begins with it. -/
def nameIn (sop : PyStr) : PyStr :=
  match reSearch assessedName sop with
  | some id => groupText id 1 ++ py " "
  | none => []

def basisOf (name clause : PyStr) : PyStr := py "the interval " ++ name ++ py "§" ++ clause ++ py " requires"

/-- The loop of `_sop_interval` over the clause marks. -/
def firstInterval (name : PyStr) : List (PyStr × PyStr) → Option (Double × PyStr)
  | [] => some (.finite 0, [])
  | mark :: rest => do
    let months ← intervalOf mark.2
    if months = .finite 0 then firstInterval name rest
    else return (months.div (.finite 12), basisOf name mark.1)

/-- `_sop_interval(sop)`. -/
def sopInterval (sop : PyStr) : Option (Double × PyStr) :=
  firstInterval (nameIn sop) (reFindallPairs clauseMark sop)

/-! ## What the pack requires -/

/-- The number a text stands for: in digits, or a word of a language's numbers. -/
def Names (spoken : PyStr → Option ℕ) (number : PyStr) (n : Double) : Prop :=
  (floatOf number = some n ∨ ∃ k : ℕ, spoken (Casing.lower number) = some k ∧ n = .finite k) ∧
    (Double.finite 0).lt n = true

/-- The actions a report requires. -/
def Assessed.actions (a : Assessed) : List (PyStr × PyStr) := a.findings.flatMap Finding.actions

/-- The line of a required action. -/
def requiredLine (p : PyStr × PyStr) : PyStr := py "- **§" ++ p.1 ++ py "** - " ++ p.2

/-- The lines of the report in front of the required actions. -/
def Assessed.front (a : Assessed) : List PyStr :=
  [a.heading, [], a.headline, []] ++ tableHead ++ a.findings.map fun f ↦ pipeRow f.cells

/-- The lines behind the required actions. -/
def Assessed.rest (a : Assessed) : List PyStr := a.tail.drop a.required.length

/-- The clause marks of the report, part by part. -/
def Assessed.marks (a : Assessed) : List (PyStr × PyStr) :=
  a.front.flatMap (reFindallPairs clauseMark) ++
    (a.actions.flatMap fun p ↦ reFindallPairs clauseMark (requiredLine p)) ++
    a.rest.flatMap (reFindallPairs clauseMark)

/-- A single character, as a class. -/
def letter (c : CodePoint) : CharClass := ⟨false, [.one c], false⟩

/-- `[\d.]`. -/
def numberClass : CharClass := ⟨false, [.digit true, .one 46], false⟩

/-- `[^\n]`. -/
def lineClass : CharClass := ⟨true, [.one 10], false⟩

omit [Casing] [Digits] in
theorem letter_accepts (x y : CodePoint) : sre.accepts (letter x) y = true ↔ y = x := by
  simp [sre, letter, CharClass.accepts, Item.accepts]

omit [Casing] [Digits] in
theorem lineClass_accepts (x : CodePoint) : sre.accepts lineClass x = true ↔ x ≠ 10 := by
  simp [sre, lineClass, CharClass.accepts, Item.accepts]

omit [Unicode] [Casing] [Digits] in
theorem clauseMark_eq : clauseMark =
    exactly letter (py "**§") (.seq (.group 1 (.seq (.rep true 1 none (.char numberClass)) .eps))
      (exactly letter (py "** - ")
        (.seq (.group 2 (.seq (.rep true 1 none (.char lineClass)) .eps)) .eps))) := by
  unfold clauseMark re
  decide

/-- A clause in the reader's terms: digits and points. -/
def Numbered (clause : PyStr) : Prop := clause ≠ [] ∧ ∀ c ∈ clause, sre.accepts numberClass c = true

omit [Casing] [Digits] in
theorem first_clauseMark {before clause action : PyStr} (hclause : Numbered clause)
    (hne : action ≠ []) (hline : 10 ∉ action) :
    ∃ t, first sre clauseMark ⟨before, py "**§" ++ (clause ++ (py "** - " ++ action)), []⟩ = some t ∧
      t.after = [] ∧ t.groups = [(2, action), (1, clause)] := by
  obtain ⟨d, ds, rfl⟩ := List.exists_cons_of_ne_nil hclause.1
  obtain ⟨c, cs, rfl⟩ := List.exists_cons_of_ne_nil hne
  have hchars : ∀ x ∈ c :: cs, sre.accepts lineClass x = true := fun x hx ↦
    (lineClass_accepts x).mpr fun h ↦ hline (h ▸ hx)
  have hstar : ∀ x more, py "** - " ++ (c :: cs) = x :: more → sre.accepts numberClass x = false := by
    intro x more h
    obtain rfl : 42 = x := (List.cons.inj h).1
    have hascii : IsAscii 42 := by
      unfold IsAscii
      decide
    exact (accepts_ascii _ asciiTables numberClass hascii).trans (by decide)
  refine ⟨⟨(c :: cs).reverse ++ ((py "** - ").reverse ++ ((d :: ds).reverse ++
    ((py "**§").reverse ++ before))), [], [(2, c :: cs), (1, d :: ds)]⟩, ?_, rfl, rfl⟩
  rw [clauseMark_eq, first_exactly letter_accepts _ rfl]
  apply first_seq_of (first_capture rfl hclause.2 hstar)
  rw [first_exactly letter_accepts _ rfl]
  apply first_seq_of (@first_capture _ _ _ _ _ _ _ _ _ [] (List.append_nil _).symm hchars nofun)
  exact first_eps _

omit [Casing] [Digits] in
theorem matchAt_clauseMark_none {before after : PyStr} (h : after.head? ≠ some 42) (must : Bool) :
    matchAt sre clauseMark must before after = none := by
  have hrun : run sre clauseMark ⟨before, after, []⟩ = [] := by
    rw [← first_eq_none_iff, clauseMark_eq]
    apply first_exactly_none letter_accepts
    rintro rest hafter
    apply h
    have hhead := congrArg List.head? (show after = py "**§" ++ rest from hafter)
    exact hhead
  rw [matchAt_none_iff, hrun]
  rfl

omit [Casing] [Digits] in
/-- The line of a required action with a numbered clause is read as it was written. -/
theorem marks_requiredLine {p : PyStr × PyStr} (hclause : Numbered p.1) (hne : p.2 ≠ [])
    (hline : 10 ∉ p.2) : reFindallPairs clauseMark (requiredLine p) = [p] := by
  obtain ⟨t, ht, hafter, hgroups⟩ :=
    @first_clauseMark _ [32, 45] _ _ hclause hne hline
  have hmatch := matchAt_eq (M := sre) clauseMark [32, 45]
    (py "**§" ++ (p.1 ++ (py "** - " ++ p.2)))
  rw [ht, Option.map_some] at hmatch
  have hrequired : requiredLine p = 45 :: 32 :: (py "**§" ++ (p.1 ++ (py "** - " ++ p.2))) := by
    have hpy : py "- **§" = 45 :: 32 :: py "**§" := rfl
    simp only [requiredLine, hpy, List.append_assoc, List.cons_append]
  rw [reFindallPairs, reFinditer, finditer_eq, hrequired,
    scanFrom_none_cons (matchAt_clauseMark_none (by simp) _),
    scanFrom_none_cons (matchAt_clauseMark_none (by simp) _), scanFrom_some hmatch]
  simp only [hafter]
  rw [scanFrom_none_nil (matchAt_clauseMark_none (by decide) _)]
  simp [groupText, Match.group, Found.group, hgroups]

omit [Casing] [Digits] in
/-- Where every clause is numbered and every action stands on one line, the marks are the required
actions, between those of the other lines. -/
theorem marks_eq {a : Assessed} (h : ∀ p ∈ a.actions, Numbered p.1 ∧ p.2 ≠ [] ∧ 10 ∉ p.2) :
    a.marks = a.front.flatMap (reFindallPairs clauseMark) ++ a.actions ++
      a.rest.flatMap (reFindallPairs clauseMark) := by
  have hactions : (a.actions.flatMap fun p ↦ reFindallPairs clauseMark (requiredLine p)) = a.actions := by
    calc (a.actions.flatMap fun p ↦ reFindallPairs clauseMark (requiredLine p))
        = a.actions.flatMap fun p ↦ [p] :=
          List.flatMap_congr fun p hp ↦ marks_requiredLine (h p hp).1 (h p hp).2.1 (h p hp).2.2
      _ = a.actions := by simp
  rw [Assessed.marks, hactions]

end Reader

/-! ## Every report -/

section Reports

variable [Unicode] [Casing] [Digits] {F : Type} [Runtime F]

end Reports

/-! ## A number the reader does not know -/

section Sample

end Sample

end FourCE.Sop
