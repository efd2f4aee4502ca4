import FourCE.Library.RegexCongr
import FourCE.Python.Text

/-!
# Matching in ASCII

What a pattern finds in a text of ASCII characters does not depend on the interpreter's character
tables.
-/

namespace FourCE.Python

open FourCE.Library.Regex

def IsAscii (c : CodePoint) : Prop := c.val < 128

/-- `s.isascii()`. -/
def isAscii (s : PyStr) : Bool := s.all fun c ↦ c.val < 128

theorem isAscii_iff (s : PyStr) : isAscii s = true ↔ ∀ c ∈ s, IsAscii c := by
  simp [isAscii, IsAscii]

theorem isWord_ascii (u v : Unicode) {c : CodePoint} (hc : IsAscii c) : @isWord u c = @isWord v c := by
  unfold isWord
  rw [u.isAlnum_ascii c hc, v.isAlnum_ascii c hc]

theorem accepts_ascii (u v : Unicode) (c : CharClass) {x : CodePoint} (hx : IsAscii x) :
    @CharClass.accepts u c x = @CharClass.accepts v c x := by
  have hitem : ∀ item : Item, @Item.accepts u c.ignoreCase x item = @Item.accepts v c.ignoreCase x item := by
    intro item
    cases item with
    | one d => rfl
    | range low high => rfl
    | digit is =>
      unfold Item.accepts
      rw [u.decimal_ascii x hx, v.decimal_ascii x hx]
    | space is => rfl
    | word is =>
      unfold Item.accepts
      rw [isWord_ascii u v hx]
  unfold CharClass.accepts
  exact congrArg (· != c.negated) (List.any_congr rfl fun item ↦ hitem item)

theorem endsIn_ascii (u v : Unicode) (cs : List CharClass) {before : PyStr}
    (hbefore : ∀ x ∈ before, IsAscii x) : @endsIn u cs before = @endsIn v cs before := by
  induction cs generalizing before with
  | nil => rfl
  | cons c cs ih =>
    cases before with
    | nil => rfl
    | cons x before =>
      unfold endsIn
      rw [accepts_ascii u v c (hbefore x List.mem_cons_self),
        ih fun y hy ↦ hbefore y (List.mem_cons_of_mem x hy)]

theorem wordAt_ascii (u v : Unicode) {text : PyStr} (htext : ∀ x ∈ text, IsAscii x) :
    @wordAt u text = @wordAt v text := by
  cases text with
  | nil => rfl
  | cons x text =>
    exact congrArg (fun b ↦ (some b).getD false) (isWord_ascii u v (htext x List.mem_cons_self))

/-- Two interpreters agree on ASCII. -/
theorem agreeOn_ascii (u v : Unicode) : AgreeOn (@sre u) (@sre v) IsAscii := by
  constructor
  · intro c x hx
    exact accepts_ascii u v c hx
  · intro a before after hbefore hafter
    cases a with
    | wordBoundary =>
      change (@wordAt u before != @wordAt u after) = (@wordAt v before != @wordAt v after)
      rw [wordAt_ascii u v hbefore, wordAt_ascii u v hafter]
    | textStart | textEnd | lineStart | lineEnd => rfl
    | behind is cs =>
      change (@endsIn u cs.reverse before == is) = (@endsIn v cs.reverse before == is)
      rw [endsIn_ascii u v _ hbefore]
    | ahead is cs =>
      change (@endsIn u cs after == is) = (@endsIn v cs after == is)
      rw [endsIn_ascii u v _ hafter]

theorem reMatch_ascii (u : Unicode) (p : Pattern) {text : PyStr} (htext : isAscii text = true) :
    @reMatch u p text = @reMatch asciiTables p text := by
  unfold reMatch
  rw [matchAt_congr (agreeOn_ascii u asciiTables) p false (fun _ hx ↦ absurd hx List.not_mem_nil)
      ((isAscii_iff text).mp htext)]

theorem reSearch_ascii (u : Unicode) (p : Pattern) {text : PyStr} (htext : isAscii text = true) :
    @reSearch u p text = @reSearch asciiTables p text := by
  unfold reSearch
  rw [search_congr (agreeOn_ascii u asciiTables) p ((isAscii_iff text).mp htext)]

end FourCE.Python
