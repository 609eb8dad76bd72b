/-!
# Source positions
-/

namespace DeferredInit

/-- **A stretch of source text** on one line.  Line 0 stands for a position nobody knows. -/
structure Span where
  /-- Line, counted from 1. -/
  line : Nat := 0
  /-- Column at which the stretch starts. -/
  column : Nat := 0
  /-- How long the stretch is. -/
  length : Nat := 0
deriving DecidableEq, Repr, Inhabited

namespace Span

/-- The position of what no source text stands for. -/
def unknown : Span := ⟨0, 0, 0⟩

/-- Whether the position is one in a source text. -/
def isKnown (s : Span) : Bool := s.line != 0

/-- Where the stretch starts. -/
def text (s : Span) : String := toString s.line ++ ":" ++ toString s.column

/-- Where the stretch starts, and its length. -/
def debugText (s : Span) : String := s.text ++ "+" ++ toString s.length

end Span

end DeferredInit
