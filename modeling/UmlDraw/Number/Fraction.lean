/-
# Fractions

Places in a drawing that no double can disturb are exact fractions.  Here are the larger and the
smaller of two of them, and the sum of a list.
-/

namespace UmlDraw
namespace Fraction

/-- The larger of two fractions. -/
def larger (a b : Rat) : Rat :=
  if a ≤ b then b else a

/-- The smaller of two fractions. -/
def smaller (a b : Rat) : Rat :=
  if a ≤ b then a else b

/-- The sum of a list of fractions. -/
def total (qs : List Rat) : Rat :=
  qs.foldl (· + ·) 0

end Fraction
end UmlDraw
