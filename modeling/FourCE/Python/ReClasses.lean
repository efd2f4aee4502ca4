import FourCE.Library.RegexFirst
import FourCE.Python.Text

/-!
# Single characters, white space and digits

What the commonest classes of the patterns accept, and what a run over them reads.
-/

namespace FourCE.Python

open FourCE.Library.Regex

def anything : CharClass := ⟨false, [.space true, .space false], false⟩

/-- The class of one character. -/
def one (c : CodePoint) : CharClass := ⟨false, [.one c], false⟩

def whiteClass : CharClass := ⟨false, [.space true], false⟩

def digitClass : CharClass := ⟨false, [.digit true], false⟩

/-- `\s*`. -/
def blanks : Pattern := .rep true 0 none (.char whiteClass)

/-- `\d+`. -/
def someDigits : Pattern := .rep true 1 none (.char digitClass)

/-- White space. -/
def White (s : PyStr) : Prop := ∀ c ∈ s, isWhite c = true

theorem White.append {s t : PyStr} (hs : White s) (ht : White t) : White (s ++ t) := fun c hc ↦
  (List.mem_append.mp hc).elim (hs c) (ht c)

/-- The characters of a text that are not white space. -/
def visible (s : PyStr) : PyStr := s.filter fun c ↦ !isWhite c

theorem visible_append (a b : PyStr) : visible (a ++ b) = visible a ++ visible b := List.filter_append _ _

theorem visible_eq_nil {s : PyStr} (h : ∀ c ∈ s, isWhite c = true) : visible s = [] := by
  rw [visible, List.filter_eq_nil_iff]
  intro c hc
  simp [h c hc]

theorem white_of_mem_takeWhile {s : PyStr} {c : CodePoint} (h : c ∈ s.takeWhile isWhite) :
    isWhite c = true := List.all_eq_true.mp List.all_takeWhile c h

theorem visible_rstrip (s : PyStr) : visible (rstrip s) = visible s := by
  have hs : s = rstrip s ++ (s.reverse.takeWhile isWhite).reverse := by
    rw [rstrip, ← List.reverse_append, List.takeWhile_append_dropWhile, List.reverse_reverse]
  conv_rhs => rw [hs, visible_append]
  rw [visible_eq_nil fun c hc ↦ white_of_mem_takeWhile (List.mem_reverse.mp hc), List.append_nil]

theorem visible_strip (s : PyStr) : visible (strip s) = visible s := by
  change visible (rstrip (s.dropWhile isWhite)) = visible s
  rw [visible_rstrip]
  conv_rhs => rw [← List.takeWhile_append_dropWhile (p := isWhite) (l := s), visible_append]
  rw [visible_eq_nil fun c hc ↦ white_of_mem_takeWhile hc, List.nil_append]

variable [Unicode]

def isDigit (c : CodePoint) : Bool := (Unicode.decimal c).isSome

/-- Digits, at least one. -/
structure IsDigits (s : PyStr) : Prop where
  ne_nil : s ≠ []
  all : ∀ c ∈ s, isDigit c = true

theorem one_accepts (x y : CodePoint) : sre.accepts (one x) y = true ↔ y = x := by
  simp [sre, one, CharClass.accepts, Item.accepts]

theorem anything_accepts (x : CodePoint) : sre.accepts anything x = true := by
  simp [sre, anything, CharClass.accepts, Item.accepts]

theorem whiteClass_accepts (x : CodePoint) : sre.accepts whiteClass x = isWhite x := by
  simp [sre, whiteClass, CharClass.accepts, Item.accepts]

theorem digitClass_accepts (x : CodePoint) : sre.accepts digitClass x = isDigit x := by
  simp [sre, digitClass, CharClass.accepts, Item.accepts, isDigit]

theorem mem_run_blanks {s t : State CodePoint} :
    t ∈ run sre blanks s ↔ ∃ u rest, s.after = u ++ rest ∧ White u ∧ t = s.past u rest := by
  rw [blanks, mem_run_rep_char]
  constructor
  · rintro ⟨u, rest, hafter, hu, -, -, ht⟩
    exact ⟨u, rest, hafter, fun c hc ↦ (whiteClass_accepts c).symm.trans (hu c hc), ht⟩
  · rintro ⟨u, rest, hafter, hu, ht⟩
    exact ⟨u, rest, hafter, fun c hc ↦ (whiteClass_accepts c).trans (hu c hc), Nat.zero_le _, nofun, ht⟩

theorem mem_run_someDigits {s t : State CodePoint} :
    t ∈ run sre someDigits s ↔ ∃ d rest, s.after = d ++ rest ∧ IsDigits d ∧ t = s.past d rest := by
  rw [someDigits, mem_run_rep_char]
  constructor
  · rintro ⟨d, rest, hafter, hd, hone, -, ht⟩
    exact ⟨d, rest, hafter, ⟨List.length_pos_iff.mp hone, fun c hc ↦
      (digitClass_accepts c).symm.trans (hd c hc)⟩, ht⟩
  · rintro ⟨d, rest, hafter, hd, ht⟩
    exact ⟨d, rest, hafter, fun c hc ↦ (digitClass_accepts c).trans (hd.all c hc),
      List.length_pos_iff.mpr hd.ne_nil, nofun, ht⟩

theorem mem_run_one {c : CodePoint} {q : Pattern} {s t : State CodePoint} :
    t ∈ run sre (.seq (.char (one c)) q) s ↔ ∃ rest, s.after = c :: rest ∧ t ∈ run sre q (s.past [c] rest) := by
  rw [mem_run_seq]
  constructor
  · rintro ⟨u, hu, ht⟩
    obtain ⟨x, rest, hafter, hx, rfl⟩ := mem_run_char.mp hu
    obtain rfl := (one_accepts c x).mp hx
    exact ⟨rest, hafter, ht⟩
  · rintro ⟨rest, hafter, ht⟩
    exact ⟨_, mem_run_char.mpr ⟨c, rest, hafter, (one_accepts c c).mpr rfl, rfl⟩, ht⟩

/-! ## Digits -/

theorem isDigit_ascii {c : CodePoint} (h : c.val < 128) : isDigit c = true ↔ 48 ≤ c.val ∧ c.val ≤ 57 := by
  rw [isDigit, Unicode.decimal_ascii c h]
  split_ifs with hc <;> simp [hc]

theorem decimal_digitChar (d : Fin 10) : Unicode.decimal (digitChar d) = some d := by
  have hd := d.isLt
  have hval : (digitChar d).val = 48 + d.val := rfl
  rw [Unicode.decimal_ascii _ (by omega), if_pos (by omega), hval, Nat.add_sub_cancel_left]
  simp

theorem isDigit_digitChar (d : Fin 10) : isDigit (digitChar d) = true := by
  rw [isDigit, decimal_digitChar]
  rfl

end FourCE.Python
