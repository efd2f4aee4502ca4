import FourCE.Python.Json
import FourCE.Python.Re

/-!
# String methods

The methods of `str` the orchestrator uses, and the functions of `re` beside `re.search` and
`re.finditer`.
-/

namespace FourCE.Python

/-! ## `str` -/

/-- The interpreter's `str.lower` and `str.upper`, known here on ASCII. -/
class Casing where
  lower : PyStr → PyStr
  upper : PyStr → PyStr
  lower_ascii : ∀ s, (∀ c ∈ s, c.val < 128) →
    lower s = s.map fun c ↦ if 65 ≤ c.val ∧ c.val ≤ 90 then foldCase c else c
  upper_ascii : ∀ s, (∀ c ∈ s, c.val < 128) → upper s = s.map upperAscii

/-- The casing of an interpreter that knows ASCII alone. -/
def asciiCasing : Casing where
  lower s := s.map fun c ↦ if 65 ≤ c.val ∧ c.val ≤ 90 then foldCase c else c
  upper s := s.map upperAscii
  lower_ascii _ _ := rfl
  upper_ascii _ _ := rfl

/-- `sep.join(parts)`. -/
def join (sep : PyStr) : List PyStr → PyStr
  | [] => []
  | [s] => s
  | s :: t :: rest => s ++ sep ++ join sep (t :: rest)

/-- `s.lstrip()`. -/
def lstrip (s : PyStr) : PyStr := s.dropWhile isWhite

/-- `s.rstrip()`. -/
def rstrip (s : PyStr) : PyStr := (s.reverse.dropWhile isWhite).reverse

/-- `s.rstrip(chars)`. -/
def rstripOf (chars s : PyStr) : PyStr := (s.reverse.dropWhile (· ∈ chars)).reverse

/-- `s.strip(chars)`. -/
def stripOf (chars s : PyStr) : PyStr := rstripOf chars (s.dropWhile (· ∈ chars))

/-- `s.startswith(p)`. -/
def startsWith (p s : PyStr) : Bool := p.isPrefixOf s

/-- `needle in s`. -/
def contains (needle : PyStr) : PyStr → Bool
  | [] => needle.isEmpty
  | c :: s => needle.isPrefixOf (c :: s) || contains needle s

/-- `s.partition(sep)`: what stands before the first `sep` and what behind it, if there is one. -/
def partition (sep : PyStr) : PyStr → Option (PyStr × PyStr)
  | [] => if sep.isEmpty then some ([], []) else none
  | c :: s =>
    if sep.isPrefixOf (c :: s) then some ([], (c :: s).drop sep.length)
    else (partition sep s).map fun p ↦ (c :: p.1, p.2)

/-- `s.replace(old, new)`, with `old` not empty. -/
def replaceLoop (old new : PyStr) : ℕ → PyStr → PyStr
  | 0, s => s
  | fuel + 1, s => match partition old s with
    | none => s
    | some (before, behind) => before ++ new ++ replaceLoop old new fuel behind

def replace (old new s : PyStr) : PyStr := replaceLoop old new s.length s

/-- `s.split("\n")`. -/
def splitNewline : PyStr → List PyStr
  | [] => [[]]
  | c :: s =>
    if c = 10 then [] :: splitNewline s
    else match splitNewline s with
      | [] => [[c]]
      | line :: rest => (c :: line) :: rest

/-- A character that ends a line, as `str.splitlines` has it. -/
def isLineEnd (c : CodePoint) : Bool :=
  10 ≤ c.val && c.val ≤ 13 || 28 ≤ c.val && c.val ≤ 30 || c.val = 0x85 || c.val = 0x2028 ||
    c.val = 0x2029

/-- `s.splitlines()` from within a line whose beginning, reversed, is `line`. -/
def splitLinesFrom (line : PyStr) : PyStr → List PyStr
  | [] => if line.isEmpty then [] else [line.reverse]
  | 13 :: 10 :: s => line.reverse :: splitLinesFrom [] s
  | c :: s => if isLineEnd c then line.reverse :: splitLinesFrom [] s else splitLinesFrom (c :: line) s

/-- `s.splitlines()`. -/
def splitLines (s : PyStr) : List PyStr := splitLinesFrom [] s

/-- `s.split()`: the words between white space, from within a word. -/
def wordsFrom (word : PyStr) : PyStr → List PyStr
  | [] => if word.isEmpty then [] else [word.reverse]
  | c :: s =>
    if isWhite c then (if word.isEmpty then wordsFrom [] s else word.reverse :: wordsFrom [] s)
    else wordsFrom (c :: word) s

def words (s : PyStr) : List PyStr := wordsFrom [] s

/-- A comma behind every third digit, of digits from the right. -/
def groupThrees : ℕ → PyStr → PyStr
  | 0, s => s
  | fuel + 1, s =>
    if s.length ≤ 3 then s else s.take 3 ++ py "," ++ groupThrees fuel (s.drop 3)

/-- `f"{n:,}"`. -/
def natGrouped (n : ℕ) : PyStr := (groupThrees (natText n).length (natText n).reverse).reverse

/-! ## `re` -/

section Re

variable [Unicode]

/-- `re.match(pattern, text)`. -/
def reMatch (p : Pattern) (text : PyStr) : Option Match :=
  (Library.Regex.matchAt sre p false [] text).map fun m ↦ ⟨m, groupCount p⟩

/-- `re.fullmatch(pattern, text)` finds a match, where no pattern stops short of one. -/
def reFullmatch (p : Pattern) (text : PyStr) : Option Match :=
  ((Library.Regex.run sre p ⟨[], text, []⟩).find? fun s ↦ s.after.isEmpty).map fun s ↦
    ⟨⟨[], text, s⟩, groupCount p⟩

/-- The text of a group that took part in a match. -/
def groupText (m : Match) (n : ℕ) : PyStr := (m.group n).getD []

/-- A text cut at matches of it: what stands before each of them from position `k` on, with the
match, and what is left behind the last. -/
def cutAt (text : PyStr) : ℕ → List Match → List (PyStr × Match) × PyStr
  | k, [] => ([], text.drop k)
  | k, m :: ms => (((text.take m.start).drop k, m) :: (cutAt text m.finish ms).1, (cutAt text m.finish ms).2)

/-- `pattern.sub(repl, text)`. -/
def reSub (p : Pattern) (repl : Match → PyStr) (text : PyStr) : PyStr :=
  let cut := cutAt text 0 (reFinditer p text)
  cut.1.flatMap (fun piece ↦ piece.1 ++ repl piece.2) ++ cut.2

/-- `pattern.sub(repl, text, count=1)`. -/
def reSubOnce (p : Pattern) (repl : Match → PyStr) (text : PyStr) : PyStr :=
  let cut := cutAt text 0 ((reFinditer p text).take 1)
  cut.1.flatMap (fun piece ↦ piece.1 ++ repl piece.2) ++ cut.2

/-- `re.split(pattern, text)` with the pattern in one group: the text between two matches, and
each match behind it. -/
def reSplitKeeping (p : Pattern) (text : PyStr) : List (PyStr × PyStr) × PyStr :=
  let cut := cutAt text 0 (reFinditer p text)
  (cut.1.map fun piece ↦ (piece.1, piece.2.text), cut.2)

/-- `re.split(pattern, text)` of a pattern without groups. -/
def reSplit (p : Pattern) (text : PyStr) : List PyStr :=
  let cut := cutAt text 0 (reFinditer p text)
  cut.1.map Prod.fst ++ [cut.2]

/-- `re.findall(pattern, text)` of a pattern with one group. -/
def reFindall (p : Pattern) (text : PyStr) : List PyStr :=
  (reFinditer p text).map fun m ↦ (m.group 1).getD []

end Re

/-! ## Replacing a character -/

theorem partition_single (c : CodePoint) (s : PyStr) :
    partition [c] s = none ∧ c ∉ s ∨
      ∃ before behind, partition [c] s = some (before, behind) ∧ s = before ++ c :: behind ∧ c ∉ before := by
  induction s with
  | nil => exact Or.inl ⟨rfl, List.not_mem_nil⟩
  | cons x s ih =>
    by_cases hx : x = c
    · subst hx
      exact Or.inr ⟨[], s, by simp [partition], rfl, List.not_mem_nil⟩
    · have hno : ¬ [c].isPrefixOf (x :: s) = true := by simp [Ne.symm hx]
      rw [partition, if_neg hno]
      rcases ih with ⟨hnone, hmem⟩ | ⟨before, behind, hsome, rfl, hmem⟩
      · exact Or.inl ⟨by rw [hnone]; rfl, by simp [Ne.symm hx, hmem]⟩
      · exact Or.inr ⟨x :: before, behind, by rw [hsome]; rfl, rfl, by simp [Ne.symm hx, hmem]⟩

theorem flatMap_ite_of_notMem {c : CodePoint} {new s : PyStr} (h : c ∉ s) :
    s.flatMap (fun x ↦ if x = c then new else [x]) = s := by
  induction s with
  | nil => rfl
  | cons x s ih =>
    rw [List.mem_cons, not_or] at h
    rw [List.flatMap_cons, if_neg (Ne.symm h.1), ih h.2]
    rfl

theorem replaceLoop_single (c : CodePoint) (new : PyStr) {fuel : ℕ} {s : PyStr} (h : s.length ≤ fuel) :
    replaceLoop [c] new fuel s = s.flatMap fun x ↦ if x = c then new else [x] := by
  induction fuel generalizing s with
  | zero =>
    rw [List.eq_nil_of_length_eq_zero (l := s) (by omega)]
    rfl
  | succ fuel ih =>
    rw [replaceLoop]
    rcases partition_single c s with ⟨hnone, hmem⟩ | ⟨before, behind, hsome, rfl, hmem⟩
    · rw [hnone, flatMap_ite_of_notMem hmem]
    · rw [List.length_append, List.length_cons] at h
      rw [hsome, List.flatMap_append, flatMap_ite_of_notMem hmem, List.flatMap_cons, if_pos rfl]
      simp only
      rw [ih (by omega), List.append_assoc]

/-- `s.replace(c, new)` of a single character. -/
theorem replace_single (c : CodePoint) (new s : PyStr) :
    replace [c] new s = s.flatMap fun x ↦ if x = c then new else [x] :=
  replaceLoop_single c new le_rfl

/-! ## Stripped texts -/

theorem dropWhile_eq_self_of_head {α : Type} {p : α → Bool} {s : List α}
    (h : ∀ c ∈ s.head?, p c = false) : s.dropWhile p = s := by
  cases s with
  | nil => rfl
  | cons c s => rw [List.dropWhile_cons_of_neg (by simp [h c rfl])]

theorem head?_dropWhile_isWhite (s : PyStr) : ∀ c ∈ (s.dropWhile isWhite).head?, isWhite c = false := by
  intro c hc
  have hhead := List.head?_dropWhile_not isWhite s
  rw [Option.mem_def.mp hc] at hhead
  simpa using hhead

/-- A text with no white space at either end. -/
structure Stripped (s : PyStr) : Prop where
  front : ∀ c ∈ s.head?, isWhite c = false
  back : ∀ c ∈ s.getLast?, isWhite c = false

theorem Stripped.strip_eq {s : PyStr} (h : Stripped s) : strip s = s := by
  have hback : ∀ c ∈ s.reverse.head?, isWhite c = false := by
    rw [List.head?_reverse]
    exact h.back
  rw [strip, dropWhile_eq_self_of_head h.front, dropWhile_eq_self_of_head hback, List.reverse_reverse]

theorem stripped_strip (s : PyStr) : Stripped (strip s) := by
  constructor
  · -- The front of what is left is the front of the text stripped on the left.
    intro c hc
    have hbegin : strip s <+: s.dropWhile isWhite := by
      rw [strip]
      have hsuffix := List.dropWhile_suffix (l := (s.dropWhile isWhite).reverse) isWhite
      rw [← List.reverse_prefix] at hsuffix
      simpa using hsuffix
    obtain ⟨rest, hrest⟩ := hbegin
    apply head?_dropWhile_isWhite s
    rw [← hrest]
    cases hs : strip s with
    | nil => rw [hs] at hc; cases hc
    | cons d t => rw [hs] at hc; exact hc
  · intro c hc
    rw [strip, List.getLast?_reverse] at hc
    exact head?_dropWhile_isWhite _ c hc

theorem Stripped.append {s t : PyStr} (hs : Stripped s) (ht : Stripped t) (hs' : s ≠ [])
    (ht' : t ≠ []) (mid : PyStr) : Stripped (s ++ mid ++ t) := by
  constructor
  · intro c hc
    rw [List.append_assoc, List.head?_append_of_ne_nil _ hs'] at hc
    exact hs.front c hc
  · intro c hc
    rw [List.getLast?_append_of_ne_nil _ ht'] at hc
    exact ht.back c hc

end FourCE.Python
