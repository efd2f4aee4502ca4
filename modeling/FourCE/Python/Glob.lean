import FourCE.Python.Text
import Mathlib.Data.List.Infix

/-!
# File name patterns

The patterns of `pathlib.Path.glob` within one folder: `*`, `?` and `[...]` are wildcards, as
`fnmatch` has them, and upper and lower case differ.
-/

namespace FourCE.Python

/-- A piece of a pattern; a set is given by ranges of characters. -/
inductive GlobItem
  | star
  | one
  | lit (c : CodePoint)
  | set (negated : Bool) (ranges : List (CodePoint × CodePoint))
  deriving DecidableEq, Repr

/-- The ranges between the brackets of a set; a `-` at either end stands for itself. -/
def setRanges : PyStr → List (CodePoint × CodePoint)
  | a :: 45 :: b :: rest => (a, b) :: setRanges rest
  | a :: rest => (a, a) :: setRanges rest
  | [] => []

/-- What follows an opening bracket: whether the set is negated, what is in it and what is behind
it; `none` when nothing closes it.  A `]` at the beginning of a set is in it. -/
def bracket (s : PyStr) : Option (Bool × PyStr × PyStr) :=
  let negated := s.head? = some 33
  let body := if negated then s.tail else s
  let first := if body.head? = some 93 then [93] else []
  let more := body.drop first.length
  match more.dropWhile (· ≠ 93) with
  | [] => none
  | _ :: rest => some (negated, first ++ more.takeWhile (· ≠ 93), rest)

def globItemsLoop : ℕ → PyStr → List GlobItem
  | 0, _ => []
  | _, [] => []
  | fuel + 1, c :: s =>
    if c = 42 then .star :: globItemsLoop fuel s
    else if c = 63 then .one :: globItemsLoop fuel s
    else if c = 91 then
      match bracket s with
      | some (negated, inside, rest) => .set negated (setRanges inside) :: globItemsLoop fuel rest
      | none => .lit c :: globItemsLoop fuel s
    else .lit c :: globItemsLoop fuel s

def globItems (pattern : PyStr) : List GlobItem := globItemsLoop pattern.length pattern

def GlobItem.accepts : GlobItem → CodePoint → Bool
  | .star, _ => false
  | .one, _ => true
  | .lit d, c => c = d
  | .set negated ranges, c => (ranges.any fun r ↦ r.1 ≤ c && c ≤ r.2) != negated

def globMatch : List GlobItem → PyStr → Bool
  | [], s => s.isEmpty
  | .star :: p, s => s.tails.any (globMatch p)
  | item :: p, s => match s with
    | [] => false
    | c :: s => item.accepts c && globMatch p s

/-- Whether a name matches a pattern. -/
def fnmatch (name pattern : PyStr) : Bool := globMatch (globItems pattern) name

/-! ## Patterns that match themselves -/

theorem globMatch_item {item : GlobItem} (hitem : item ≠ .star) (p : List GlobItem) (c : CodePoint)
    (s : PyStr) : globMatch (item :: p) (c :: s) = (item.accepts c && globMatch p s) := by
  cases item <;> first | rfl | exact absurd rfl hitem

theorem globMatch_append {p q : List GlobItem} {s t : PyStr} (hs : globMatch p s = true)
    (ht : globMatch q t = true) : globMatch (p ++ q) (s ++ t) = true := by
  induction p generalizing s with
  | nil =>
    rw [List.isEmpty_iff.mp hs]
    exact ht
  | cons item p ih =>
    by_cases hitem : item = .star
    · subst hitem
      obtain ⟨tail, htail, hmatch⟩ := List.any_eq_true.mp hs
      refine List.any_eq_true.mpr ⟨tail ++ t, ?_, ih hmatch⟩
      rw [List.mem_tails] at htail ⊢
      obtain ⟨front, rfl⟩ := htail
      exact ⟨front, by rw [List.append_assoc]⟩
    · cases s with
      | nil => cases item <;> first | cases hs | exact absurd rfl hitem
      | cons c s =>
        rw [globMatch_item hitem, Bool.and_eq_true] at hs
        rw [List.cons_append, List.cons_append, globMatch_item hitem, hs.1, ih hs.2]
        rfl

theorem globMatch_star (s : PyStr) : globMatch [.star] s = true :=
  List.any_eq_true.mpr ⟨[], (List.mem_tails _ _).mpr List.nil_suffix, rfl⟩

/-- A character of a pattern without sets. -/
def plainItem (c : CodePoint) : GlobItem :=
  if c = 42 then .star else if c = 63 then .one else .lit c

theorem globItemsLoop_plain {s : PyStr} (hs : 91 ∉ s) {fuel : ℕ} (hfuel : s.length ≤ fuel) :
    globItemsLoop fuel s = s.map plainItem := by
  induction s generalizing fuel with
  | nil => cases fuel <;> rfl
  | cons c s ih =>
    obtain ⟨fuel, rfl⟩ := Nat.exists_eq_add_one_of_ne_zero (Nat.ne_of_gt (Nat.lt_of_lt_of_le (Nat.succ_pos _) hfuel))
    have hrest := ih (fun h ↦ hs (List.mem_cons_of_mem c h)) (Nat.le_of_succ_le_succ hfuel)
    have hc : c ≠ 91 := fun h ↦ hs (h ▸ List.mem_cons_self)
    rw [globItemsLoop, List.map_cons, plainItem, hrest, if_neg hc]
    split_ifs <;> rfl

theorem globItems_plain {s : PyStr} (hs : 91 ∉ s) : globItems s = s.map plainItem :=
  globItemsLoop_plain hs le_rfl

theorem globMatch_plain (s : PyStr) : globMatch (s.map plainItem) s = true := by
  induction s with
  | nil => rfl
  | cons c s ih =>
    have hc : globMatch [plainItem c] [c] = true := by
      rw [plainItem]
      split_ifs with hstar hone
      · exact globMatch_star _
      · rfl
      · simp [globMatch, GlobItem.accepts]
    exact globMatch_append hc ih

/-- A star takes in any text between what stands before it and behind it, when no set is in
either. -/
theorem fnmatch_star {a b : PyStr} (ha : 91 ∉ a) (hb : 91 ∉ b) (s : PyStr) :
    fnmatch (a ++ s ++ b) (a ++ 42 :: b) = true := by
  have hsets : 91 ∉ a ++ 42 :: b := by
    intro h
    rcases List.mem_append.mp h with h | h
    · exact ha h
    · rcases List.mem_cons.mp h with h | h
      · exact absurd h (by decide)
      · exact hb h
  rw [fnmatch, globItems_plain hsets, List.map_append, List.map_cons, List.append_assoc]
  exact globMatch_append (globMatch_plain a) (globMatch_append (globMatch_star s) (globMatch_plain b))

end FourCE.Python
