import FourCE.Library.Regex
import FourCE.Python.Unicode

/-!
# Python's regular expressions

`re` on `str`: patterns are compiled from their source text, and mean what `sre` makes of them.
The part of the syntax covered is what the repository's patterns use.
-/

namespace FourCE.Python

open FourCE.Library.Regex

/-! ## Classes and tests -/

/-- A member of a character class. -/
inductive Item
  | one (c : CodePoint)
  | range (low high : CodePoint)
  | digit (is : Bool)
  | space (is : Bool)
  | word (is : Bool)
  deriving DecidableEq, Repr

/-- `[…]` or `[^…]`; a single character is a class of its own. -/
structure CharClass where
  negated : Bool
  items : List Item
  ignoreCase : Bool
  deriving DecidableEq, Repr

/-- Tests of a position: `\b`, `^` and `$` with and without `re.MULTILINE`, and lookbehind and
lookahead at a sequence of classes. -/
inductive Anchor
  | wordBoundary
  | textStart
  | textEnd
  | lineStart
  | lineEnd
  | behind (is : Bool) (cs : List CharClass)
  | ahead (is : Bool) (cs : List CharClass)
  deriving DecidableEq, Repr

abbrev Pattern := Re CharClass Anchor

section Meaning

variable [Unicode]

def Item.accepts (ignoreCase : Bool) (x : CodePoint) : Item → Bool
  | .one c => if ignoreCase then foldCase x = foldCase c else x = c
  | .range low high =>
    if ignoreCase then
      [x, foldCase x, upperAscii (foldCase x)].any fun y ↦ low ≤ y && y ≤ high
    else low ≤ x && x ≤ high
  | .digit is => (Unicode.decimal x).isSome == is
  | .space is => isWhite x == is
  | .word is => isWord x == is

def CharClass.accepts (c : CharClass) (x : CodePoint) : Bool :=
  c.items.any (Item.accepts c.ignoreCase x) != c.negated

/-- The text on one side of a position, read away from it, begins with characters of these classes. -/
def endsIn : List CharClass → List CodePoint → Bool
  | [], _ => true
  | _ :: _, [] => false
  | c :: cs, x :: before => c.accepts x && endsIn cs before

def wordAt (text : List CodePoint) : Bool := (text.head?.map isWord).getD false

def Anchor.holds (before after : List CodePoint) : Anchor → Bool
  | .wordBoundary => wordAt before != wordAt after
  | .textStart => before.isEmpty
  | .textEnd => after.isEmpty || after == [10]
  | .lineStart => before.isEmpty || before.head? == some 10
  | .lineEnd => after.isEmpty || after.head? == some 10
  | .behind is cs => endsIn cs.reverse before == is
  | .ahead is cs => endsIn cs after == is

/-- What `sre` makes of a pattern. -/
def sre : Meaning CharClass Anchor CodePoint :=
  ⟨fun c x ↦ c.accepts x, fun a before after ↦ a.holds before after⟩

end Meaning

/-! ## Compiling -/

/-- `re.IGNORECASE`, `re.MULTILINE` and `re.DOTALL`. -/
structure Flags where
  ignoreCase : Bool := false
  multiline : Bool := false
  dotAll : Bool := false
  deriving DecidableEq, Repr

def Flags.single (f : Flags) (i : Item) : CharClass := ⟨false, [i], f.ignoreCase⟩

/-- The class behind a backslash, if it is one. -/
def escapeItem (c : CodePoint) : Item :=
  if c = 100 then .digit true else if c = 68 then .digit false
  else if c = 115 then .space true else if c = 83 then .space false
  else if c = 119 then .word true else if c = 87 then .word false
  else if c = 110 then .one 10 else if c = 116 then .one 9 else if c = 114 then .one 13
  else .one c

/-- The members of a class up to its closing bracket. -/
def parseItems : ℕ → PyStr → Option (List Item × PyStr)
  | 0, _ | _ + 1, [] => none
  | fuel + 1, c :: r =>
    if c = 93 then some ([], r)
    else if c = 92 then match r with
      | [] => none
      | e :: r => (parseItems fuel r).map fun p ↦ (escapeItem e :: p.1, p.2)
    else match r with
      | 45 :: high :: r' =>
        if high = 93 then (parseItems fuel r).map fun p ↦ (.one c :: p.1, p.2)
        else (parseItems fuel r').map fun p ↦ (.range c high :: p.1, p.2)
      | _ => (parseItems fuel r).map fun p ↦ (.one c :: p.1, p.2)

/-- `[…]` after its opening bracket; a bracket in the first place is a member. -/
def parseClass (f : Flags) (s : PyStr) : Option (CharClass × PyStr) :=
  let body := match s with
    | 94 :: r => r
    | r => r
  let negated := s.head? == some 94
  match body with
  | 93 :: r => (parseItems (r.length + 1) r).map fun p ↦ (⟨negated, .one 93 :: p.1, f.ignoreCase⟩, p.2)
  | r => (parseItems (r.length + 1) r).map fun p ↦ (⟨negated, p.1, f.ignoreCase⟩, p.2)

def asciiNat (s : PyStr) : Option (ℕ × PyStr) :=
  match s.takeWhile fun c ↦ 48 ≤ c.val && c.val ≤ 57 with
  | [] => none
  | ds => some (ds.foldl (fun n c ↦ 10 * n + (c.val - 48)) 0,
      s.dropWhile fun c ↦ 48 ≤ c.val && c.val ≤ 57)

/-- The counts of a quantifier. -/
def parseCounts (s : PyStr) : Option ((ℕ × Option ℕ) × PyStr) :=
  match s with
  | 42 :: r => some ((0, none), r)
  | 43 :: r => some ((1, none), r)
  | 63 :: r => some ((0, some 1), r)
  | 123 :: r =>
    match asciiNat r with
    | none => none
    | some (m, 125 :: r) => some ((m, some m), r)
    | some (m, 44 :: 125 :: r) => some ((m, none), r)
    | some (m, 44 :: r) => match asciiNat r with
      | some (n, 125 :: r) => some ((m, some n), r)
      | _ => none
    | _ => none
  | _ => none

/-- An atom with the quantifier after it, if there is one. -/
def quantify (atom : Pattern) (s : PyStr) : Pattern × PyStr :=
  match parseCounts s with
  | none => (atom, s)
  | some ((m, n), 63 :: r) => (.rep false m n atom, r)
  | some ((m, n), r) => (.rep true m n atom, r)

/-- A sequence of classes, as lookbehind takes it. -/
def classesOf : Pattern → Option (List CharClass)
  | .eps => some []
  | .char c => some [c]
  | .seq r s => do return (← classesOf r) ++ (← classesOf s)
  | _ => none

mutual
/-- Alternatives up to a closing parenthesis or the end; `n` groups are open or closed already. -/
def parseAlt (f : Flags) : ℕ → ℕ → PyStr → Option (Pattern × ℕ × PyStr)
  | 0, _, _ => none
  | fuel + 1, n, s => match parseSeq f fuel n s with
    | some (r, n, 124 :: rest) => (parseAlt f fuel n rest).map fun p ↦ (.alt r p.1, p.2)
    | other => other
def parseSeq (f : Flags) : ℕ → ℕ → PyStr → Option (Pattern × ℕ × PyStr)
  | 0, _, _ => none
  | _ + 1, n, [] => some (.eps, n, [])
  | fuel + 1, n, c :: r =>
    if c = 124 ∨ c = 41 then some (.eps, n, c :: r)
    else match parseAtom f fuel n c r with
      | none => none
      | some (atom, n, rest) =>
        let q := quantify atom rest
        (parseSeq f fuel n q.2).map fun p ↦ (.seq q.1 p.1, p.2)
def parseAtom (f : Flags) : ℕ → ℕ → CodePoint → PyStr → Option (Pattern × ℕ × PyStr)
  | 0, _, _, _ => none
  | fuel + 1, n, c, r =>
    if c = 40 then match r with
      | 63 :: 58 :: r => match parseAlt f fuel n r with
        | some (body, n, 41 :: rest) => some (body, n, rest)
        | _ => none
      | 63 :: 61 :: r => match parseAlt f fuel n r with
        | some (body, n, 41 :: rest) => (classesOf body).map fun cs ↦ (.test (.ahead true cs), n, rest)
        | _ => none
      | 63 :: 33 :: r => match parseAlt f fuel n r with
        | some (body, n, 41 :: rest) => (classesOf body).map fun cs ↦ (.test (.ahead false cs), n, rest)
        | _ => none
      | 63 :: 60 :: sign :: r => match parseAlt f fuel n r with
        | some (body, n, 41 :: rest) =>
          if sign = 33 ∨ sign = 61 then
            (classesOf body).map fun cs ↦ (.test (.behind (sign = 61) cs), n, rest)
          else none
        | _ => none
      | r => match parseAlt f fuel (n + 1) r with
        | some (body, m, 41 :: rest) => some (.group (n + 1) body, m, rest)
        | _ => none
    else if c = 91 then (parseClass f r).map fun p ↦ (.char p.1, n, p.2)
    else if c = 92 then match r with
      | [] => none
      | e :: r =>
        if e = 98 then some (.test .wordBoundary, n, r)
        else some (.char (f.single (escapeItem e)), n, r)
    else if c = 46 then
      some (.char (if f.dotAll then ⟨true, [], false⟩ else ⟨true, [.one 10], false⟩), n, r)
    else if c = 94 then some (.test (if f.multiline then .lineStart else .textStart), n, r)
    else if c = 36 then some (.test (if f.multiline then .lineEnd else .textEnd), n, r)
    else some (.char (f.single (.one c)), n, r)
end

/-- `re.compile`. -/
def compile (f : Flags) (source : PyStr) : Option Pattern :=
  match parseAlt f (4 * source.length + 4) 0 source with
  | some (r, _, []) => some r
  | _ => none

/-- A pattern given by its source text, which compiles. -/
@[irreducible]
def re (f : Flags) (source : PyStr) (h : (compile f source).isSome = true) : Pattern :=
  (compile f source).get h

/-! ## Matching -/

/-- A match object: what was found, and how many groups its pattern has. -/
structure Match where
  found : Found CodePoint
  count : ℕ

/-- `match.group(n)` for a group; `none` is Python's `None`. -/
def Match.group (m : Match) (n : ℕ) : Option PyStr := m.found.group n

/-- `match.groups()`. -/
def Match.groups (m : Match) : List (Option PyStr) :=
  (List.range m.count).map fun k ↦ m.group (k + 1)

/-- `match.group(0)`. -/
def Match.text (m : Match) : PyStr := m.found.text

/-- `match.start()`. -/
def Match.start (m : Match) : ℕ := m.found.start

/-- `match.end()`. -/
def Match.finish (m : Match) : ℕ := m.found.finish

/-- `match.span()`. -/
def Match.span (m : Match) : ℕ × ℕ := (m.found.start, m.found.finish)

def groupCount : Pattern → ℕ
  | .eps | .char _ | .test _ => 0
  | .seq r s | .alt r s => groupCount r + groupCount s
  | .rep _ _ _ r => groupCount r
  | .group _ r => groupCount r + 1

section Match

variable [Unicode]

/-- `re.search(pattern, text)`. -/
def reSearch (p : Pattern) (text : PyStr) : Option Match :=
  (search sre p text).map fun m ↦ ⟨m, groupCount p⟩

/-- `re.finditer(pattern, text)`. -/
def reFinditer (p : Pattern) (text : PyStr) : List Match :=
  (finditer sre p text).map fun m ↦ ⟨m, groupCount p⟩

end Match

end FourCE.Python
