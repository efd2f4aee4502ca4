import FourCE.Orchestrator.Checks
import FourCE.Python.Float

/-!
# The draft

What happens to JARVIS's reply before it is a draft, and what 4CE reads out of a draft: its program,
the changes it proposes for a workbook, its tables.
-/

namespace FourCE.Orchestrator

open FourCE.Python

section

variable [Unicode]

/-! ## Citations -/

/-- `_BRACKETED`. -/
def bracketed : Pattern := re {} (py r"(\s*)\[(\d+(?:\s*,\s*\d+)*)\]") (by decide)

def commaRun : Pattern := re {} (py r"\s*,\s*") (by decide)

/-- `int(s)` of decimal digits. -/
def intOf (s : PyStr) : ℕ := ((decimals s).map ofDigits).getD 0

/-- `numbers == sorted(set(numbers))`. -/
def ascending (numbers : List ℕ) : Bool := numbers.Pairwise (· < ·)

/-- `_citation(group)`: one to four source numbers in ascending order, or none. -/
def citation (group : PyStr) : List ℕ :=
  let numbers := (reSplit commaRun group).map intOf
  if numbers.length > 4 || !ascending numbers then [] else numbers

/-- `_citations(text)`. -/
def citations (text : PyStr) : List ℕ :=
  (reFinditer bracketed text).flatMap fun m ↦ citation ((m.group 2).getD [])

/-- `_cited_numbers(text, count)`. -/
def citedNumbers (text : PyStr) (count : ℕ) : List ℕ :=
  ((List.range count).map (· + 1)).filter fun n ↦ (citations text).contains n

def codeSpans : Pattern := re {} (py r"(```[\s\S]*?```|`[^`\n]*`)") (by decide)

/-- `fix` of `_check_citations`. -/
def fixCitation (count : ℕ) (m : Match) : PyStr :=
  let numbers := citation ((m.group 2).getD [])
  if numbers.isEmpty then m.text
  else
    let keep := (numbers.filter fun n ↦ 1 ≤ n && n ≤ count).map natText
    if keep.isEmpty then py " *(unverified)*"
    else (m.group 1).getD [] ++ py "[" ++ join (py ", ") keep ++ py "]"

/-- `_check_citations(text, count)`. -/
def checkCitations (text : PyStr) (count : ℕ) : PyStr :=
  let parts := reSplitKeeping codeSpans text
  parts.1.flatMap (fun part ↦ reSub bracketed (fixCitation count) part.1 ++ part.2) ++
    reSub bracketed (fixCitation count) parts.2

/-! ## Tidying -/

def fences : Pattern := re {} (py r"(```[\s\S]*?```)") (by decide)

/-- `_RULE_LINE`. -/
def ruleLine : Pattern := re {} (py r"^\s*(?:-{3,}|\*{3,}|_{3,})\s*$") (by decide)

/-- `_HEADING_LINE`. -/
def headingLine : Pattern := re {} (py r"^(#{1,6})\s+(.*?)\s*#*\s*$") (by decide)

/-- `_BOLD_LINE`. -/
def boldLine : Pattern :=
  re {} (py r"^\s*(?:\*\*|__)\s*(.+?)\s*(?:\*\*|__)\s*:?\s*$") (by decide)

/-- `_TITLE_LINE`. -/
def titleLine : Pattern :=
  re ignoringCase (py r"^[*_\s]*(?:final\s+)?deliverable\b\s*[:\-–—]") (by decide)

/-- `_SIGN_OFF`. -/
def signOffLine : Pattern :=
  re ignoringCase
    (py r"^[*_\s]*(?:end of (?:the )?(?:deliverable|report|document|response)\b" ++
      py r"|(?:this|the above) (?:deliverable|document|report|response) (?:was|has been|is) " ++
      py r"(?:prepared|produced|generated|compiled)\b" ++
      py r"|(?:prepared|produced|generated) by (?:jarvis|4ce)\b)")
    (by decide +kernel)

def sectionNumber : Pattern := re {} (py r"^\d+(?:\.\d+)*[.)]?\s+") (by decide)

def labelAndValue : Pattern := re {} (py r"\S:\s+\S") (by decide)

def blankLines : Pattern := re {} (py r"\n{3,}") (by decide)

/-- The words of a heading, without the marks around them and the number before them. -/
def headingWords (s : PyStr) : PyStr := reSub sectionNumber (fun _ ↦ []) (stripOf (py "*_ ") s)

def endsSentence (s : PyStr) : Bool :=
  match s.getLast? with
  | some c => c = 46 || c = 33 || c = 63
  | none => false

/-- What becomes of a line that is not dropped. -/
def tidyLine (line : PyStr) (heading bold : Option Match) : PyStr :=
  match heading with
  | some m =>
    let level := max 3 ((m.group 1).getD []).length
    List.replicate level 35 ++ py " " ++ rstripOf (py ":") (headingWords ((m.group 2).getD []))
  | none => match bold with
    | some m =>
      let words := headingWords ((m.group 1).getD [])
      if !found labelAndValue words && !endsSentence words && words.length ≤ 70 then
        py "### " ++ rstripOf (py ":") words
      else line
    | none => line

/-- One line of the loop of `_tidy`: whether nothing but blank lines came before it, and the lines
kept so far. -/
def tidyStep (state : Bool × List PyStr) (line : PyStr) : Bool × List PyStr :=
  let bare := strip line
  if bare.isEmpty then (state.1, state.2 ++ [[]])
  else if (reMatch ruleLine bare).isSome || (reMatch signOffLine bare).isSome then state
  else
    let heading := reMatch headingLine bare
    let bold := if heading.isSome then none else reMatch boldLine bare
    let title := state.1 && ((reMatch titleLine bare).isSome || bold.isSome ||
      match heading with
      | some m => ((m.group 1).getD []).length ≤ 2
      | none => false)
    if title then (false, state.2)
    else (false, state.2 ++ [rstrip (tidyLine line heading bold)])

/-- The prose between two fenced blocks. -/
def tidyPart (opening : Bool) (text : PyStr) : Bool × PyStr :=
  let state := (splitNewline text).foldl tidyStep (opening, [])
  (state.1, join [10] state.2)

/-- The parts in front of a fenced block, each with the block. -/
def tidyParts : Bool → List (PyStr × PyStr) → PyStr → PyStr
  | opening, [], rest => (tidyPart opening rest).2
  | opening, (text, fence) :: parts, rest =>
    (tidyPart opening text).2 ++ fence ++ tidyParts false parts rest

/-- `_tidy(text)`. -/
def tidy (text : PyStr) : PyStr :=
  let parts := reSplitKeeping fences (strip text)
  strip (reSub blankLines (fun _ ↦ [10, 10]) (tidyParts true parts.1 parts.2))

def pythonBlock : Pattern :=
  re { ignoreCase := true, dotAll := true } (py "```(?:python|py)\\s*\\n(.*?)```") (by decide)

/-- `_extract_python(text)`; `unfenced` is `_unfenced_python`, which asks the interpreter's parser. -/
def extractPython (unfenced : PyStr → PyStr) (text : PyStr) : PyStr :=
  let usable := (reFindall pythonBlock text).filter fun block ↦
    !(strip block).isEmpty &&
      !(startsWith (py ">>>") (lstrip block) || startsWith (py "$ ") (lstrip block))
  if usable.isEmpty then unfenced text else join [10, 10] (usable.map strip)

/-- `_SHEET_BLOCK`. -/
def sheetFence : Pattern := re { dotAll := true } (py "```4ce-sheet\\s*\\n(.*?)```") (by decide)

/-- A list with something in it, as `or` and `if` see one. -/
def truthy {α : Type} : Option (List α) → Option (List α)
  | some [] => none
  | x => x

section Sheet

variable {F : Type} [PyFloat F]

/-- The list a ```` ```4ce-sheet ```` block holds, if it holds one with something in it. -/
def changesOf (block : PyStr) : Option (List (Json F)) :=
  match loads block with
  | some (.arr changes) => truthy (some changes)
  | _ => none

/-- `_sheet_block(text)`. -/
def sheetBlock (text : PyStr) : Option (List (Json F)) :=
  match reSearch sheetFence text with
  | none => none
  | some m => changesOf ((m.group 1).getD [])

end Sheet

def tableRule : Pattern := re {} (py r"^\s*\|?\s*:?-{2,}") (by decide)

def isRow (line : PyStr) : Bool := startsWith (py "|") (lstrip line)

/-- `_first_table(markdown)` on its lines. -/
def firstTableLines : List PyStr → List PyStr
  | [] => []
  | [_] => []
  | line :: next :: rest =>
    if isRow line && (reMatch tableRule next).isSome then (line :: next :: rest).takeWhile isRow
    else firstTableLines (next :: rest)

/-- `_first_table(markdown)`. -/
def firstTable (markdown : PyStr) : PyStr := join [10] (firstTableLines (splitLines markdown))

/-! ## Files asked for and files made -/

inductive Office
  | xlsx
  | pptx
  deriving DecidableEq, Repr

def xlsxWords : Pattern :=
  re ignoringCase (py r"\b(?:excel|xlsx|spreadsheet|workbook)\b") (by decide)

def pptxWords : Pattern :=
  re ignoringCase (py r"\b(?:power\s?point|pptx|slides?|slide deck|deck|presentation)\b")
    (by decide)

/-- `_office_formats(prompt)`. -/
def officeFormats (prompt : PyStr) : List Office :=
  (if found xlsxWords prompt then [.xlsx] else []) ++ if found pptxWords prompt then [.pptx] else []

/-- `_REPORT_LINE`. -/
def reportLine : Pattern :=
  re {} (py r"^\*\*([^*]+)\*\* · (.+?) · (\d+) KB, stored on this machine · " ++
    py r"\[Download [^\]]*\]\(([^)\s]+)\)([\s\S]*)$") (by decide)

/-- `_file_card(line)`. -/
def fileCard (F : Type) [PyFloat F] (line : PyStr) : PyStr :=
  match reMatch reportLine (strip line) with
  | none => line
  | some m =>
    let rest := strip ((m.group 5).getD [])
    let card : Json F := .obj ([(py "kind", .str (strip ((m.group 1).getD []))),
      (py "title", .str (strip ((m.group 2).getD []))),
      (py "kb", .int (intOf ((m.group 3).getD []))), (py "url", .str ((m.group 4).getD []))] ++
      if rest.isEmpty then [] else [(py "note", .str rest)])
    py "```4ce-file\n" ++ card.emit true ++ py "\n```"

end

end FourCE.Orchestrator
