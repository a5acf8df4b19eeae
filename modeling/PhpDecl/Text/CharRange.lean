/-!
# Ranges of characters

The properties of Unicode are tabulated as ranges of code points. A table is searched from its
start; it is small enough for that.
-/

namespace PhpDecl.Text

/-- The code points from one to another, both included. -/
structure CharRange where
  first : Nat
  last : Nat
  deriving DecidableEq, Repr

/-- Whether a character lies in the range. -/
def CharRange.contains (range : CharRange) (c : Char) : Bool :=
  range.first ≤ c.toNat && c.toNat ≤ range.last

/-- Whether a character lies in one of the ranges. -/
def inRanges (ranges : List CharRange) (c : Char) : Bool := ranges.any (·.contains c)

end PhpDecl.Text
