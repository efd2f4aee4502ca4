import FourCE.Library.RegexBarrier
import FourCE.Python.ReAscii
import FourCE.Python.ReLocality
import FourCE.Python.Text

/-!
# Patterns of one line

A pattern that accepts no newline, and looks neither for the start nor for the end of its text, finds
in a text what it finds in its lines.
-/

namespace FourCE.Python

open FourCE.Library.Regex

variable [Unicode]

/-- `re.findall(pattern, text)` of a pattern with two groups. -/
def reFindallPairs (p : Pattern) (text : PyStr) : List (PyStr × PyStr) :=
  (reFinditer p text).map fun m ↦ (groupText m 1, groupText m 2)

end FourCE.Python
