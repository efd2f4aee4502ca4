import Mathlib.Data.List.Basic

/-!
# Backtracking regular expressions

A matcher in the manner of a backtracking engine, over any alphabet: a run lists every way an
expression can match from a position, in the order the engine tries them, so the first of them is
the match.  A position is the text before it, reversed, and the text after it.  Character classes
and position tests are parameters.

Two rules say what a match cannot see.  A change of the text far to the left is invisible to an
expression whose tests cannot see it; text put behind the right end only adds matches that run
into it.
-/

namespace FourCE.Library.Regex

/-- Regular expressions over character classes `C` and position tests `A`.  A repetition says
whether it is greedy, and its least and greatest count. -/
inductive Re (C A : Type)
  | eps
  | char (c : C)
  | test (a : A)
  | seq (r s : Re C A)
  | alt (r s : Re C A)
  | rep (greedy : Bool) (least : ℕ) (most : Option ℕ) (r : Re C A)
  | group (n : ℕ) (r : Re C A)
  deriving DecidableEq, Repr

/-- What classes and tests mean: a test sees the text before it, reversed, and the text after. -/
structure Meaning (C A α : Type) where
  accepts : C → α → Bool
  holds : A → List α → List α → Bool

/-- A position in the text with the groups captured so far, the latest first. -/
structure State (α : Type) where
  before : List α
  after : List α
  groups : List (ℕ × List α)
  deriving DecidableEq, Repr

section Run

variable {C A α : Type} (M : Meaning C A α)

/-- The text between a state and a later one. -/
def State.upTo (s t : State α) : List α := s.after.take (s.after.length - t.after.length)

/-- The ways to go on after one more iteration: past the least count it must consume something. -/
def again (step next : State α → List (State α)) (least : ℕ) (most : Option ℕ) (s : State α) :
    List (State α) :=
  if most = some 0 then []
  else (step s).flatMap fun t ↦
    if 0 < least ∨ t.after.length < s.after.length then next t else []

/-- Repetition of `step`, with fuel for every iteration there can be. -/
def repeats (step : State α → List (State α)) (greedy : Bool) :
    ℕ → ℕ → Option ℕ → State α → List (State α)
  | 0, _, _, _ => []
  | fuel + 1, least, most, s =>
    let more := again step (repeats step greedy fuel (least - 1) (most.map (· - 1))) least most s
    if 0 < least then more else if greedy then more ++ [s] else s :: more

/-- Every way to match from a state, in the order of preference. -/
def run : Re C A → State α → List (State α)
  | .eps, s => [s]
  | .char c, s => match s.after with
    | [] => []
    | x :: rest => if M.accepts c x then [⟨x :: s.before, rest, s.groups⟩] else []
  | .test a, s => if M.holds a s.before s.after then [s] else []
  | .seq r t, s => (run r s).flatMap (run t)
  | .alt r t, s => run r s ++ run t s
  | .rep greedy least most r, s =>
    repeats (run r) greedy (least + s.after.length + 1) least most s
  | .group n r, s => (run r s).map fun t ↦ { t with groups := (n, s.upTo t) :: t.groups }

end Run

/-! ## Searching -/

/-- A match: where it began, and the state it ended in. -/
structure Found (α : Type) where
  before : List α
  text : List α
  stop : State α
  deriving DecidableEq, Repr

/-- `match.start()`. -/
def Found.start {α : Type} (m : Found α) : ℕ := m.before.length

/-- `match.end()`. -/
def Found.finish {α : Type} (m : Found α) : ℕ := m.stop.before.length

/-- `match.group(n)`; `none` for a group that took no part. -/
def Found.group {α : Type} (m : Found α) (n : ℕ) : Option (List α) :=
  (m.stop.groups.find? fun g ↦ g.1 = n).map Prod.snd

section Search

variable {C A α : Type} (M : Meaning C A α) (r : Re C A)

/-- The match at a position; `must` rules out an empty one. -/
def matchAt (must : Bool) (before after : List α) : Option (Found α) :=
  ((run M r ⟨before, after, []⟩).filter fun t ↦ !must || t.after.length < after.length).head?.map
    fun t ↦ ⟨before, after.take (after.length - t.after.length), t⟩

/-- Matches from a position on, from left to right, none overlapping the one before: after an
empty match the next one at its place must not be empty. -/
def scan : ℕ → Bool → List α → List α → List (Found α)
  | 0, _, _, _ => []
  | fuel + 1, must, before, after =>
    match matchAt M r must before after with
    | some m => m :: scan fuel (m.stop.after.length = after.length) m.stop.before m.stop.after
    | none => match after with
      | [] => []
      | x :: rest => scan fuel false (x :: before) rest

/-- `re.finditer`. -/
def finditer (text : List α) : List (Found α) := scan M r (2 * text.length + 2) false [] text

/-- `re.search`: the leftmost match. -/
def searchFrom : List α → List α → Option (Found α)
  | before, [] => matchAt M r false before []
  | before, x :: rest => match matchAt M r false before (x :: rest) with
    | some m => some m
    | none => searchFrom (x :: before) rest

def search (text : List α) : Option (Found α) := searchFrom M r [] text

end Search

end FourCE.Library.Regex
