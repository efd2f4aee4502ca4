import FourCE.Library.RegexFirst
import FourCE.Python.Float
import FourCE.Python.Text

/-!
# An answer in blocks

`_blocks` of the deliverables tool and what it calls: an answer as headings, paragraphs, lists, tables,
code and images, the words a cell shows of inline markdown, and the number a cell holds.
-/

namespace FourCE.Workbook

open FourCE.Python

/-! ## Inline text -/

def breakTag : Pattern := re { ignoreCase := true } (py "<br\\s*/?>") (by decide)

def htmlTag : Pattern := re {} (py "</?[a-zA-Z][^>]*>") (by decide)

def escapedMark : Pattern := re {} (py "\\\\([\\\\`*_\x7b\x7d\\[\\]()#+\\-.!|>])") (by decide)

def inlineLink : Pattern := re {} (py "!?\\[([^\\]]+)\\]\\([^)\\s]+\\)") (by decide)

def strong : Pattern :=
  re {} (py "\\*\\*\\*(.+?)\\*\\*\\*|\\*\\*(.+?)\\*\\*|__(.+?)__") (by decide)

def emphasis : Pattern :=
  re {} (py "(?<![\\w*])\\*(?=\\S)(.+?)(?<=\\S)\\*(?![\\w*])") (by decide)

def inlineCode : Pattern := re {} (py "`([^`]*)`") (by decide)

section

variable [Unicode]

/-- `_clean`. -/
def clean (text : PyStr) : PyStr := reSub htmlTag (fun _ ↦ []) (reSub breakTag (fun _ ↦ py " ") text)

/-- `_unescape`. -/
def unescape (text : PyStr) : PyStr := reSub escapedMark (groupText · 1) text

/-- `next(g for g in m.groups() if g)`. -/
def firstGroup (m : Match) : PyStr := ((m.groups.reduceOption).find? fun g ↦ !g.isEmpty).getD []

/-- `_plain`. -/
def plain (text : PyStr) : PyStr :=
  let text := reSub inlineLink (groupText · 1) (clean text)
  let text := reSub emphasis (groupText · 1) (reSub strong firstGroup text)
  strip (unescape (reSub inlineCode (groupText · 1) text))

/-! ## Numbers -/

/-- `_NUMBER`. -/
def NUMBER : Pattern :=
  re {} (py "^([-+−]?(?:\\d\x7b1,3\x7d(?:,\\d\x7b3\x7d)+|\\d+)(?:\\.\\d+)?)\\s*(%|[^\\d\\s].\x7b0,15\x7d?)?$") (by decide)

/-- `float(s)` of digits with or without a sign and a fraction. -/
def signedFloat (s : PyStr) : Option Double :=
  match s with
  | [] => none
  | c :: rest =>
    if c = 45 then (floatOf rest).map Double.neg
    else if c = 43 then floatOf rest
    else floatOf s

/-- `_numeric`: the number and the unit of a cell that holds one number.  What `_NUMBER` matches,
`float` reads. -/
def numeric (cell : PyStr) : Option (Double × PyStr) := do
  let found ← reMatch NUMBER (plain cell)
  let value ← signedFloat (replace (py "−") (py "-") (replace (py ",") [] (groupText found 1)))
  return (value, strip (groupText found 2))

/-! ## Lines -/

/-- `_FENCE`. -/
def FENCE : Pattern := re {} (py "^\\s*(```|~~~)") (by decide)

/-- `_HEADING`. -/
def HEADING : Pattern := re {} (py "^\\s\x7b0,3\x7d(#\x7b1,6\x7d)\\s+(.*?)\\s*#*\\s*$") (by decide)

/-- `_RULE_LINE`. -/
def RULE_LINE : Pattern :=
  re {} (py "^\\s\x7b0,3\x7d(?:(?:\\*\\s*)\x7b3,\x7d|(?:-\\s*)\x7b3,\x7d|(?:_\\s*)\x7b3,\x7d|[—–])\\s*$") (by decide)

/-- `_QUOTE`. -/
def QUOTE : Pattern := re {} (py "^\\s\x7b0,3\x7d>\\s?(.*)$") (by decide)

/-- `_ITEM`. -/
def ITEM : Pattern := re {} (py "^(\\s*)([-*+•]|\\d\x7b1,3\x7d[.)])\\s+(.*)$") (by decide)

/-- `_TABLE_SEP`. -/
def TABLE_SEP : Pattern :=
  re {} (py "^\\s*\\|?\\s*:?-\x7b2,\x7d:?\\s*(\\|\\s*:?-\x7b2,\x7d:?\\s*)*\\|?\\s*$") (by decide)

/-- `_IMAGE_LINE`. -/
def IMAGE_LINE : Pattern :=
  re { multiline := true }
    (py "^\\s*!\\[([^\\]]*)\\]\\(/api/v1/files/([0-9a-fA-F-]\x7b36\x7d)/content\\)\\s*$") (by decide)

def barePipe : Pattern := re {} (py "(?<!\\\\)\\|") (by decide)

def endsWith (t s : PyStr) : Bool := t.isSuffixOf s

/-- `line.lstrip().startswith("|")`. -/
def opensRow (line : PyStr) : Bool := startsWith (py "|") (lstrip line)

/-- `_looks_structural`. -/
def looksStructural (line : PyStr) : Bool :=
  (reMatch HEADING line).isSome || (reMatch QUOTE line).isSome || (reMatch FENCE line).isSome || opensRow line

/-- `_cells`. -/
def cellsOf (line : PyStr) : List PyStr :=
  let row := strip line
  let row := if startsWith (py "|") row then row.drop 1 else row
  let row := if endsWith (py "|") row && !endsWith (py "\\|") row then row.dropLast else row
  (reSplit barePipe row).map fun c ↦ strip (replace (py "\\|") (py "|") c)

/-! ## Blocks -/

inductive Block
  | heading (level : ℕ) (text : PyStr)
  | para (text : PyStr)
  | items (items : List PyStr)
  | table (header : List PyStr) (rows : List (List PyStr))
  | code (text : PyStr)
  | image (alt fileId : PyStr)
  deriving DecidableEq, Repr

/-- `flush()`. -/
def flush (prose : List PyStr) : List Block :=
  if prose.isEmpty then [] else [.para (join (py " ") (prose.map strip))]

/-- The items of a list and the lines behind it; the last item is first. -/
def takeItems : List PyStr → List PyStr → List PyStr × List PyStr
  | items, [] => (items.reverse, [])
  | items, line :: rest =>
    match reMatch ITEM line with
    | some found => takeItems (groupText found 3 :: items) rest
    | none => match items with
      | [] => ([], line :: rest)
      | last :: others =>
        if !(strip line).isEmpty && (startsWith (py "  ") line || !looksStructural line) then
          takeItems ((last ++ py " " ++ strip line) :: others) rest
        else (items.reverse, line :: rest)

/-- The loop of `_blocks`, with fuel for each line: the prose not yet flushed, and the lines left. -/
def blocksFrom : ℕ → List PyStr → List PyStr → List Block
  | 0, prose, _ | _ + 1, prose, [] => flush prose
  | fuel + 1, prose, line :: rest =>
    if (strip line).isEmpty then flush prose ++ blocksFrom fuel [] rest
    else if (reMatch FENCE line).isSome then
      let block := rest.takeWhile fun l ↦ (reMatch FENCE l).isNone
      flush prose ++ .code (join [10] block) :: blocksFrom fuel [] (rest.drop (block.length + 1))
    else match reMatch IMAGE_LINE line with
    | some found => flush prose ++ .image (groupText found 1) (groupText found 2) :: blocksFrom fuel [] rest
    | none =>
      if opensRow line && rest.head?.any fun next ↦ (reMatch TABLE_SEP next).isSome then
        let rows := rest.tail.takeWhile opensRow
        flush prose ++ .table (cellsOf line) (rows.map cellsOf) ::
          blocksFrom fuel [] (rest.tail.drop rows.length)
      else match reMatch HEADING line with
      | some found =>
        flush prose ++ .heading (groupText found 1).length (groupText found 2) :: blocksFrom fuel [] rest
      | none =>
        if (reMatch RULE_LINE line).isSome then flush prose ++ blocksFrom fuel [] rest
        else if (reMatch QUOTE line).isSome then
          let quoted := ((line :: rest).map (reMatch QUOTE)).takeWhile (·.isSome)
          let words := (quoted.reduceOption.map fun found ↦ strip (groupText found 1)).filter (!·.isEmpty)
          flush prose ++ .para (join (py " ") words) :: blocksFrom fuel [] ((line :: rest).drop quoted.length)
        else if (reMatch ITEM line).isSome then
          let taken := takeItems [] (line :: rest)
          flush prose ++ .items taken.1 :: blocksFrom fuel [] taken.2
        else blocksFrom fuel (prose ++ [line]) rest

/-- `_blocks`. -/
def blocks (text : PyStr) : List Block :=
  let lines := splitNewline (replace (py "\t") (py "    ") (replace (py "\r\n") (py "\n") text))
  blocksFrom lines.length [] lines

end

end FourCE.Workbook
