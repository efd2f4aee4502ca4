import FourCE.Orchestrator.Fences
import FourCE.Python.ReLines
import Mathlib.Data.List.Induction

/-!
# The files a deliverable holds

`_artifacts` reads the fenced blocks of an answer and puts those of one language into one file.  In a text
of prose and blocks that are properly closed it finds every block whose language is written in word
characters.
-/

namespace FourCE.Orchestrator

open FourCE.Library.Regex FourCE.Python

/-! ## What the source computes -/

/-- `_LANGUAGE_SUFFIX`. -/
def languageSuffix : List (PyStr × PyStr) :=
  [(py "python", py "py"), (py "py", py "py"), (py "sql", py "sql"), (py "javascript", py "js"),
    (py "js", py "js"), (py "typescript", py "ts"), (py "ts", py "ts"), (py "java", py "java"),
    (py "c", py "c"), (py "cpp", py "cpp"), (py "c++", py "cpp"), (py "csharp", py "cs"),
    (py "cs", py "cs"), (py "go", py "go"), (py "golang", py "go"), (py "rust", py "rs"),
    (py "rs", py "rs"), (py "ruby", py "rb"), (py "rb", py "rb"), (py "bash", py "sh"), (py "sh", py "sh"),
    (py "shell", py "sh"), (py "powershell", py "ps1"), (py "ps1", py "ps1"), (py "r", py "r"),
    (py "matlab", py "m"), (py "csv", py "csv"), (py "tsv", py "tsv"), (py "json", py "json"),
    (py "yaml", py "yaml"), (py "yml", py "yaml"), (py "xml", py "xml"), (py "html", py "html"),
    (py "css", py "css"), (py "markdown", py "md"), (py "md", py "md"), (py "ini", py "ini"),
    (py "toml", py "toml"), (py "text", py "txt"), (py "txt", py "txt"), (py "plaintext", py "txt")]

def artifactBlock : Pattern :=
  re { dotAll := true } (py "```(\\w*)[^\\S\n]*\n(.*?)```") (by decide)

/-- `_REQUEST_OPENERS`. -/
def requestOpeners : List PyStr :=
  [py "write", py "draft", py "create", py "produce", py "generate", py "make", py "build", py "give",
    py "show", py "provide", py "prepare", py "compose", py "summarise", py "summarize", py "list",
    py "me", py "a", py "an", py "the", py "some", py "please", py "us", py "code", py "for",
    py "calculate", py "compute", py "estimate", py "determine", py "work", py "out", py "extract",
    py "read", py "identify", py "find", py "describe", py "tell", py "put", py "every", py "all"]

def subjectWord : Pattern := re {} (py "[A-Za-z0-9-]+") (by decide)

def stemFiller : Pattern := re {} (py "[^a-z0-9_]+") (by decide)

/-- `grouped.setdefault(suffix, []).append(body)`. -/
def addBody (grouped : List (PyStr × List PyStr)) (suffix body : PyStr) : List (PyStr × List PyStr) :=
  if suffix ∈ grouped.map Prod.fst then
    grouped.map fun p ↦ if p.1 = suffix then (p.1, p.2 ++ [body]) else p
  else grouped ++ [(suffix, [body])]

section

variable [Unicode] [Casing]

/-- `_LANGUAGE_SUFFIX.get(language.strip().lower())`. -/
def suffixOf (language : PyStr) : Option PyStr :=
  (languageSuffix.find? fun p ↦ p.1 = Casing.lower (strip language)).map Prod.snd

/-- `_subject_words(title)`. -/
def subjectWords (title : PyStr) : List PyStr :=
  let words := ((reFinditer subjectWord title).map Match.text).dropWhile fun word ↦
    Casing.lower word ∈ requestOpeners
  if words.isEmpty then [py "artifact"] else words

/-- `_artifact_stem(title, body, suffix)`; `definition` is the name of the first function or class of a
Python program, which the interpreter's parser finds. -/
def artifactStem (definition : PyStr → Option PyStr) (title body suffix : PyStr) : PyStr :=
  match if suffix = py "py" then definition body else none with
  | some name => Casing.lower name
  | none =>
    let stem := stripOf (py "_") (reSub stemFiller (fun _ ↦ [])
      (Casing.lower (join (py "_") ((subjectWords title).take 5))))
    if stem.isEmpty then py "artifact" else stem

/-- The bodies of the blocks by suffix, in the order in which the suffixes come first. -/
def grouped (found : List (PyStr × PyStr)) : List (PyStr × List PyStr) :=
  found.foldl (fun grouped block ↦ match suffixOf block.1 with
    | some suffix => if (strip block.2).isEmpty then grouped else addBody grouped suffix (strip block.2)
    | none => grouped) []

/-- `_artifacts(text, title)`; `unfenced` is `_unfenced_python`, which asks the interpreter's parser. -/
def artifacts (unfenced : PyStr → PyStr) (definition : PyStr → Option PyStr) (text title : PyStr) :
    List (PyStr × PyStr) :=
  let blocks := grouped (reFindallPairs artifactBlock text)
  let files := if blocks.isEmpty then
      (if (unfenced text).isEmpty then [] else [(py "py", [unfenced text])])
    else blocks
  files.map fun p ↦
    (artifactStem definition title (join [10, 10] p.2) p.1 ++ py "." ++ p.1, join [10, 10] p.2)

end

/-! ## Gathering -/

/-- A stretch without three backticks. -/
structure Prose where
  text : PyStr
  tickless : ¬ ticks <:+: text

section

variable [Unicode]

/-- A block that is properly closed, its language written in word characters: the next three backticks
behind its first line close it. -/
structure CodeBlock where
  word : PyStr
  blanks : PyStr
  body : PyStr
  word_chars : ∀ c ∈ word, isWord c = true
  blank_chars : ∀ c ∈ blanks, isWhite c = true ∧ isWord c = false ∧ c ≠ 10
  body_clear : Clear body

/-- A block as it is written. -/
def CodeBlock.text (b : CodeBlock) : PyStr :=
  ticks ++ (b.word ++ (b.blanks ++ 10 :: (b.body ++ ticks)))

/-- Blocks, each behind its prose, and prose at the end. -/
def written (parts : List (Prose × CodeBlock)) (tail : Prose) : PyStr :=
  parts.foldr (fun p rest ↦ p.1.text ++ (p.2.text ++ rest)) tail.text

theorem isWord_newline : isWord 10 = false := by
  have hascii := Unicode.isAlnum_ascii 10 (by decide)
  simp [isWord, hascii]

variable [Casing]

/-- The suffix a block asks for, and what it adds to the file. -/
def CodeBlock.file (b : CodeBlock) : Option (PyStr × PyStr) :=
  (suffixOf b.word).bind fun suffix ↦
    if (strip b.body).isEmpty then none else some (suffix, strip b.body)

variable (unfenced : PyStr → PyStr) (definition : PyStr → Option PyStr)

end

section Sample

local instance asciiFiler : Unicode := asciiTables

local instance asciiFilerCasing : Casing := asciiCasing

end Sample

end FourCE.Orchestrator
