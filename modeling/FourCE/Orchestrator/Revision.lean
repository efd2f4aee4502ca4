import FourCE.Orchestrator.World
import FourCE.Python.Float
import Mathlib.Data.List.Sort

/-!
# What a second try changed

`_revision`: the two drafts compared sentence by sentence, the changes paired, and each objection matched
to the changes that answer it.  What `difflib` finds, in which order a set is gone through and how floats
are summed up is the interpreter's.
-/

namespace FourCE.Orchestrator

open FourCE.Python

/-! ## Sentences and words -/

section

variable [Unicode] [Casing]

def lineMark : Pattern := re {} (py r"^\s*(?:#{1,6}\s+|[-*+]\s+|\d+[.)]\s+|>\s*)") (by decide)

def sentenceEnd : Pattern := re {} (py "(?<=[.!?])\\s+(?=[A-Z0-9\\\"\u201c(])") (by decide)

def twoLetters : Pattern := re {} (py "[A-Za-z]{2,}") (by decide)

/-- `_strip_citations(text, repl)`. -/
def stripCitationsTo (repl text : PyStr) : PyStr :=
  reSub bracketed (fun m ↦ if (citation ((m.group 2).getD [])).isEmpty then m.text else repl) text

/-- The sentences of a line. -/
def lineUnits (line : PyStr) : List PyStr :=
  if startsWith (py "```") (strip line) then []
  else
    let line := replace (py "__") [] (replace (py "**") [] (reSub lineMark (fun _ ↦ []) line))
    let line := replace (py "*(unverified)*") [] (stripCitationsTo [] line)
    if (strip line).all (· ∈ py "-|: ") then []
    else
      let cells := ((stripOf (py "|") (strip line)).splitOn 124).map strip
      let sentences := reSplit sentenceEnd (join (py " · ") (cells.filter fun cell ↦ !cell.isEmpty))
      (sentences.filter fun s ↦ 2 ≤ (reFinditer twoLetters s).length).map strip

/-- `_units(text)`. -/
def unitsOf (text : PyStr) : List PyStr := (splitLines text).flatMap lineUnits

def lettersAndDigits : Pattern := re {} (py "[a-z0-9]+") (by decide)

def wordEnding : Pattern := re {} (py "(?:ing|ed|es|s)$") (by decide)

/-- `_STOP_WORDS`. -/
def STOP_WORDS : List PyStr :=
  words (py "the and for are but not with this that from into than then there their they " ++
    py "what when where which while will would should could must does did has have had " ++
    py "was were been being its any all per only also more most such other some each " ++
    py "answer result says said state states stated source sources document")

/-- `_words(text)`, each once. -/
def meaningWords (text : PyStr) : List PyStr :=
  let found := (reFinditer lettersAndDigits (Casing.lower text)).map Match.text
  let kept := found.filter fun w ↦ 2 < w.length && w ∉ STOP_WORDS
  (kept.map fun w ↦ if 4 < w.length then reSub wordEnding (fun _ ↦ []) w else w).eraseDups

def notWord : Pattern := re {} (py r"\W+") (by decide)

/-- `same(x, y)`: equal up to punctuation and case. -/
def sameText (x y : PyStr) : Bool :=
  reSub notWord (fun _ ↦ []) (Casing.lower x) = reSub notWord (fun _ ↦ []) (Casing.lower y)

end

/-! ## Changes -/

/-- An opcode of `SequenceMatcher.get_opcodes()`. -/
structure Opcode where
  equal : Bool
  i1 : ℕ
  i2 : ℕ
  j1 : ℕ
  j2 : ℕ

/-- What the interpreter decides about a comparison. -/
structure Comparing where
  /-- `SequenceMatcher(a=a, b=b, autojunk=False).get_opcodes()`. -/
  opcodes : List PyStr → List PyStr → List Opcode
  /-- `SequenceMatcher(a=a, b=b).ratio()`. -/
  ratio : PyStr → PyStr → Double
  /-- The order in which a set is gone through. -/
  iterate : List PyStr → List PyStr
  /-- `sum(xs)` of floats. -/
  sum : List Double → Double

inductive ChangeKind
  | reworded
  | removed
  | added
  deriving DecidableEq, Repr

/-- An entry of `changes`. -/
structure DraftChange where
  removed : PyStr
  added : PyStr
  kind : ChangeKind
  deriving DecidableEq, Repr

section

variable (c : Comparing)

/-- The added sentence most like a removed one, among those not used yet, with their likeness. -/
def mostLike (added : List PyStr) (used : List ℕ) (gone : PyStr) : Option ℕ × Double :=
  added.zipIdx.foldl (fun best new ↦
    if new.2 ∈ used then best
    else if best.2.lt (c.ratio gone new.1) then (some new.2, c.ratio gone new.1) else best) (none, .finite 0)

variable [Unicode] [Casing]

/-- One turn over the removed sentences: the changes so far, and the added sentences used. -/
def pairUp (added : List PyStr) (s : List DraftChange × List ℕ) (gone : PyStr) : List DraftChange × List ℕ :=
  match mostLike c added s.2 gone with
  | (some best, score) =>
    if (Double.ofRat (45 / 100)).le score then
      let new := added.getD best []
      (if sameText gone new then s.1 else s.1 ++ [⟨gone, new, .reworded⟩], s.2 ++ [best])
    else (s.1 ++ [⟨gone, [], .removed⟩], s.2)
  | (none, _) => (s.1 ++ [⟨gone, [], .removed⟩], s.2)

/-- The changes of a changed stretch. -/
def stretchChanges (removed added : List PyStr) : List DraftChange :=
  let paired := removed.foldl (pairUp c added) ([], [])
  paired.1 ++ (added.zipIdx.filter fun new ↦ new.2 ∉ paired.2).map fun new ↦ ⟨[], new.1, .added⟩

/-- `xs[i:j]`. -/
def slice (xs : List PyStr) (i j : ℕ) : List PyStr := (xs.take j).drop i

/-- The stretches in which two sequences of sentences differ: what was removed and what was added. -/
def changedStretches (a b : List PyStr) : List (List PyStr × List PyStr) :=
  ((c.opcodes a b).filter fun op ↦ !op.equal).map fun op ↦ (slice a op.i1 op.i2, slice b op.j1 op.j2)

/-- `changes`, before any is left out. -/
def allChanges (a b : List PyStr) : List DraftChange :=
  (changedStretches c a b).flatMap fun stretch ↦ stretchChanges c stretch.1 stretch.2

/-! ## Objections -/

/-- In how many of the texts of the changes a word is. -/
def spread (changes : List DraftChange) (w : PyStr) : ℕ :=
  ((changes.map fun x ↦ meaningWords x.added) ++ changes.map fun x ↦ meaningWords x.removed).countP (w ∈ ·)

/-- How much a change has of the words of an objection; the rarer ones count for more, and what was taken
out counts half. -/
def scoreOf (changes : List DraftChange) (wanted : List PyStr) (x : DraftChange) : Double :=
  let weigh (ws : List PyStr) : Double :=
    c.sum ((c.iterate ws).map fun w ↦ (Double.finite 1).div (.finite (spread changes w)))
  let added := meaningWords x.added
  let removed := meaningWords x.removed
  (weigh (wanted.filter (· ∈ added))).add
    ((weigh (wanted.filter fun w ↦ w ∈ removed && w ∉ added)).div (.finite 2))

/-- `fixes`: the two changes that have most of an objection's words, if they have enough. -/
def fixesOf (changes : List DraftChange) (objection : PyStr) : List ℕ :=
  let wanted := meaningWords objection
  let scored := changes.zipIdx.map fun x ↦ (scoreOf c changes wanted x.1, x.2)
  let sorted := scored.insertionSort fun s t ↦ t.1.lt s.1 || !s.1.lt t.1 && t.2 ≤ s.2
  ((sorted.take 2).filter fun s ↦ (Double.ofRat (1 / 4)).le s.1).map Prod.snd

/-- `fixed`: the changes that objections point to, in the order of the objections. -/
def fixedBy (changes : List DraftChange) (objections : List (PyStr × Maker)) : List ℕ :=
  objections.foldl (fun fixed o ↦ fixed ++ (fixesOf c changes o.1).filter (· ∉ fixed)) []

/-- An objection of the record. -/
structure RevisionObjection where
  text : PyStr
  by_ : Maker
  fixes : List ℕ

/-- The record of a revision. -/
structure RevisionRecord where
  objections : List RevisionObjection
  changes : List DraftChange
  more : ℕ
  by_ : PyStr
  verdict : PyStr

/-- `keep`: the places of the changes that are listed. -/
def keptPlaces (changes : List DraftChange) (objections : List (PyStr × Maker)) : List ℕ :=
  let fixed := fixedBy c changes objections
  (fixed ++ (List.range changes.length).filter (· ∉ fixed)).take 14

/-- `_revision(first, after, verdict)`. -/
def revisionOf (first : FirstTry) (after status : PyStr) : RevisionRecord :=
  let changes := allChanges c (unitsOf first.draft) (unitsOf after)
  let keep := keptPlaces c changes first.objections
  { objections := first.objections.map fun o ↦
      ⟨clip o.1 220, o.2, ((fixesOf c changes o.1).filter (· ∈ keep)).map keep.idxOf⟩
    changes := keep.filterMap fun i ↦ changes[i]?.map fun x ↦
      { x with removed := clip x.removed 240, added := clip x.added 240 }
    more := changes.length - keep.length
    by_ := first.failedBy
    verdict := Casing.upper status }

end

end FourCE.Orchestrator
