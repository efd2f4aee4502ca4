import FourCE.Orchestrator.World
import FourCE.Library.RegexFirst

/-!
# The figures an answer cites

`_figure_checks` looks every figure of a sentence that cites a source up in what it could be taken from.
The look-up takes a figure for present where it goes on as a longer number, so that a check without a
problem says that every such figure is somewhere, and no more.
-/

namespace FourCE.Orchestrator

open FourCE.Library.Regex FourCE.Python

/-! ## What the source computes -/

/-- `_FIGURE`. -/
def figureToken : Pattern := re {} (py r"(?<![\w.\-])\d+(?:[.,]\d+)?(?![\w])") (by decide)

/-- `_CLAUSE_REF`. -/
def clauseRef : Pattern :=
  re ignoringCase (py r"(?:§\s*|\bclauses?\s+|\bsections?\s+)(\d+(?:\.\d+)*)") (by decide)

/-- `_ATTRIBUTED`. -/
def attributed : Pattern :=
  re ignoringCase (py r"\bSOP[-\s]|\bclauses?\b|\bsections?\s+\d|§") (by decide)

def codeStretch : Pattern := re {} (py r"```[\s\S]*?```|`[^`\n]*`") (by decide)

def listNumber : Pattern := re { multiline := true } (py r"^\s*\d{1,3}[.)]\s+") (by decide)

def clockTime : Pattern := re {} (py r"\b\d{1,2}:\d{2}(?::\d{2})?\b") (by decide)

/-- `(?<=[.!?]|\n)\s+`. -/
def sentenceBreak : Pattern := re {} (py r"(?<=[.!?\n])\s+") (by decide)

def codeOfDocument : Pattern := re {} (py r"[A-Z]{2,}(?:-[A-Z0-9]+)*-\d+") (by decide)

def nameFiller : Pattern := re {} (py r"^[\s_\-.]+") (by decide)

/-- `_OWN_SECTIONS`. -/
def ownSections : List PyStr := [py "### Read from the image", py "### The workbook, on approval"]

/-- `_answer_only(deliverable)`. -/
def answerOnly (deliverable : PyStr) : PyStr :=
  match (ownSections.filterMap fun s ↦ (partition s deliverable).map fun p ↦ p.1.length).min? with
  | some cut => deliverable.take cut
  | none => deliverable

/-- `s.rsplit(".", 1)[0]`. -/
def beforeLastDot (s : PyStr) : PyStr :=
  if 46 ∈ s then ((s.reverse.dropWhile (· ≠ 46)).drop 1).reverse else s

def underscoresToSpaces (s : PyStr) : PyStr := s.map fun c ↦ if c = 95 then 32 else c

section

variable [Unicode]

/-- `code_of(title)`. -/
def documentCode (title : PyStr) : PyStr :=
  ((reMatch codeOfDocument (beforeLastDot title)).map Match.text).getD []

/-- `_doc_label(name, others)`. -/
def docLabel (name : PyStr) (others : List PyStr) : PyStr :=
  let stem := beforeLastDot name
  let code := documentCode name
  if code.isEmpty then underscoresToSpaces stem
  else
    let rest := strip (underscoresToSpaces (reSub nameFiller (fun _ ↦ []) (stem.drop code.length)))
    let shared := others.any fun other ↦ other ≠ name && documentCode other = code
    if shared && !rest.isEmpty then code ++ py " · " ++ rest else code

/-- `_strip_citations(text)`. -/
def stripCitations (text : PyStr) : PyStr :=
  reSub bracketed (fun m ↦ if (citation ((m.group 2).getD [])).isEmpty then m.text else py " ") text

/-- `[\w.]`. -/
def wordOrDot : CharClass := ⟨false, [.word true, .one 46], false⟩

/-- `rf"(?<![\w.]){re.escape(figure)}(?![\w])"`. -/
def figurePattern (figure : PyStr) : Pattern :=
  .seq (.test (.behind false [wordOrDot]))
    (exactly (fun c ↦ ⟨false, [.one c], false⟩) figure
      (.seq (.test (.ahead false [⟨false, [.word true], false⟩])) .eps))

/-- `present(figure, text)`. -/
def present (figure text : PyStr) : Bool := (reSearch (figurePattern figure) text).isSome

/-- The prose that is looked through: code, the numbers of lists and clock times are left out. -/
def checkedProse (deliverable : PyStr) : PyStr :=
  reSub clockTime (fun _ ↦ py " ") (reSub listNumber (fun _ ↦ [])
    (reSub codeStretch (fun _ ↦ py " ") (answerOnly deliverable)))

/-- Its sentences. -/
def sentencesOf (deliverable : PyStr) : List PyStr := reSplit sentenceBreak (checkedProse deliverable)

/-- `_FIGURE.findall(_CLAUSE_REF.sub(" ", _strip_citations(sentence)))`. -/
def figuresIn (sentence : PyStr) : List PyStr :=
  (reFinditer figureToken (reSub clauseRef (fun _ ↦ py " ") (stripCitations sentence))).map Match.text

/-- `_CLAUSE_REF.findall(bare)`. -/
def clausesIn (sentence : PyStr) : List PyStr := reFindall clauseRef (stripCitations sentence)

/-- The text of a source. -/
def Source.text (source : Source) : PyStr := join (py " ") (source.passages.map Passage.text)

/-- What the check has noted so far. -/
structure Noted where
  found : List PyStr := []
  missing : List (PyStr × PyStr) := []
  /-- A figure, the documents it is cited to, and where it is from when not from the request. -/
  borrowed : List (PyStr × PyStr × Option PyStr) := []
  misplaced : List (PyStr × PyStr × PyStr) := []
  unsourced : List PyStr := []

variable (brief : FigureBrief) (clauses : List PyStr)

/-- `texts[n]`, where there is a source with the number. -/
def sourceText (n : ℕ) : Option PyStr := if n = 0 then none else (brief.sources[n - 1]?).map Source.text

/-- The numbers of the sources. -/
def sourceNumbers : List ℕ := (List.range brief.sources.length).map (· + 1)

/-- The sources a sentence cites. -/
def citedIn (sentence : PyStr) : List ℕ :=
  (citations sentence).filter fun n ↦ (sourceText brief n).isSome

/-- Whether a source with one of the numbers has the figure. -/
def inSources (figure : PyStr) (numbers : List ℕ) : Bool :=
  numbers.any fun n ↦ match sourceText brief n with
    | some text => present figure text
    | none => false

def labelOf (n : ℕ) : PyStr :=
  docLabel (((brief.sources[n - 1]?).map Source.name).getD []) (brief.sources.map Source.name)

/-- `names`. -/
def namesOf (cited : List ℕ) : PyStr := join (py ", ") (cited.map (labelOf brief)).eraseDups

def noteBorrowed (noted : Noted) (figure names : PyStr) (origin : Option PyStr) : Noted :=
  if noted.borrowed.all fun b ↦ figure ≠ b.1 then
    { noted with borrowed := noted.borrowed ++ [(figure, names, origin)] }
  else noted

def noteMissing (noted : Noted) (what names : PyStr) : Noted :=
  if (what, names) ∈ noted.missing then noted
  else { noted with missing := noted.missing ++ [(what, names)] }

/-- What is noted of a figure that is neither in the sources it is cited to nor in what the requester or
4CE gave: it is another source's, the rule pack's, or missing. -/
def noteElsewhere (cited : List ℕ) (noted : Noted) (figure names : PyStr) : Noted :=
  match (sourceNumbers brief).filter fun m ↦ m ∉ cited && inSources brief figure [m] with
  | m :: _ =>
    if noted.misplaced.all fun p ↦ figure ≠ p.1 then
      { noted with misplaced := noted.misplaced ++ [(figure, names, labelOf brief m)] }
    else noted
  | [] =>
    if present figure brief.ruled then
      noteBorrowed noted figure names (some (py "the SOP rule pack's figure"))
    else noteMissing noted figure names

/-- What is noted of a figure that the sources `cited` are cited for. -/
def noteFigure (cited : List ℕ) (noted : Noted) (figure : PyStr) : Noted :=
  let names := namesOf brief cited
  if inSources brief figure cited then
    if figure ∈ noted.found then noted else { noted with found := noted.found ++ [figure] }
  else if present figure brief.request then noteBorrowed noted figure names none
  else if present figure brief.read then noteBorrowed noted figure names (some (py "read from the image"))
  else if present figure brief.computed then
    noteBorrowed noted figure names (some (py "4CE's own calculation"))
  else noteElsewhere brief cited noted figure names

/-- What is noted of a clause that is referred to. -/
def noteClause (cited : List ℕ) (noted : Noted) (ref : PyStr) : Noted :=
  if ref ∈ clauses || inSources brief ref cited then noted
  else noteMissing noted (py "Clause " ++ ref) (namesOf brief cited)

/-- What is noted of a figure that the SOP is said to state, where nothing is cited. -/
def noteUncited (noted : Noted) (figure : PyStr) : Noted :=
  let anywhere := join (py " ") (brief.sources.map Source.text)
  if [anywhere, brief.request, brief.computed, brief.ruled].any (present figure) then noted
  else if figure ∈ noted.unsourced then noted
  else { noted with unsourced := noted.unsourced ++ [figure] }

/-- One sentence. -/
def noteSentence (noted : Noted) (sentence : PyStr) : Noted :=
  let cited := citedIn brief sentence
  if cited.isEmpty then
    if found attributed sentence then (figuresIn sentence).foldl (noteUncited brief) noted else noted
  else
    (figuresIn sentence).foldl (noteFigure brief cited)
      ((clausesIn sentence).foldl (noteClause brief clauses cited) noted)

/-- The checks that are made of what was noted. -/
def Noted.checks (noted : Noted) : List OwnCheck :=
  (if !noted.found.isEmpty && noted.missing.isEmpty && noted.unsourced.isEmpty && noted.misplaced.isEmpty then
    [⟨.ok, py "Every figure the answer cites (" ++ join (py ", ") (noted.found.take 6) ++
      (if noted.found.length > 6 then py "…" else []) ++ py ") appears in the source it cites", none⟩]
  else []) ++
  ((noted.missing.take 4).map fun p ↦
    ⟨.problem, p.1 ++ py " is cited to " ++ p.2 ++ py ", which does not contain it", none⟩) ++
  ((noted.unsourced.take 3).map fun figure ↦
    ⟨.problem, figure ++ py " is stated as the SOP's with no citation, and no source, reading or check " ++
      py "contains it", none⟩) ++
  ((noted.misplaced.take 3).map fun p ↦
    ⟨.unverified, p.1 ++ py " is in " ++ p.2.2 ++ py ", but is cited to " ++ p.2.1, none⟩) ++
  ((noted.borrowed.take 3).map fun b ↦
    ⟨.unverified, b.1 ++ py " is " ++ b.2.2.getD (py "the request's own figure") ++ py ", cited to " ++
      b.2.1 ++ py " as if the document gave it", none⟩)

/-- `_figure_checks(deliverable, sources, request, clauses, computed, ruled, read)`. -/
def figureChecks (deliverable : PyStr) : List OwnCheck :=
  if brief.sources.isEmpty then []
  else ((sentencesOf deliverable).foldl (noteSentence brief clauses) {}).checks

/-! ## Figures that stand by themselves -/

variable {brief clauses}

end

section Sample

local instance asciiChecker : Unicode := asciiTables

end Sample

end FourCE.Orchestrator
