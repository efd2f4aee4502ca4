import FourCE.Library.RegexScan

/-!
# Characters no expression crosses

A character that no class of an expression accepts stands between two texts that are matched apart:
no match runs over it, so a scan of the whole is the scans of the parts.
-/

namespace FourCE.Library.Regex

variable {C A α : Type} {M : Meaning C A α}

/-- The state stands in front of the character and the text behind it. -/
def Ahead (x : α) (w : List α) (s : State α) : Prop := ∃ u, s.after = u ++ x :: w

theorem Ahead.within {x : α} {w : List α} {s : State α} (h : Ahead x w s) :
    within (x :: w) s = true := by
  obtain ⟨u, hu⟩ := h
  simp [Regex.within, hu]

end FourCE.Library.Regex
