/-
# Boxes

Where a shape lies: its corner, its width and its height.
-/
import UmlDraw.Data.Keyed
import UmlDraw.Number.Fraction

namespace UmlDraw

/-- The place of a shape. -/
structure Box where
  /-- The left side. -/
  x : Rat
  /-- The upper side. -/
  y : Rat
  width : Rat
  height : Rat
deriving DecidableEq, Repr

namespace Box

/-- The right side. -/
def right (b : Box) : Rat :=
  b.x + b.width

/-- The lower side. -/
def bottom (b : Box) : Rat :=
  b.y + b.height

/-- The middle between the left and the right side. -/
def centerX (b : Box) : Rat :=
  b.x + b.width / 2

/-- The middle between the upper and the lower side. -/
def centerY (b : Box) : Rat :=
  b.y + b.height / 2

/-- The greatest number of a list, or a given one for the empty list. -/
def greatest (default : Rat) : List Rat → Rat
  | [] => default
  | n :: ns => ns.foldl Fraction.larger n

/-- The right side of the box that reaches farthest, or a given number if there is none. -/
def rightmost (default : Rat) (boxes : Keyed Box) : Rat :=
  greatest default (boxes.values.map right)

/-- The lower side of the box that reaches farthest down, or a given number if there is none. -/
def lowest (default : Rat) (boxes : Keyed Box) : Rat :=
  greatest default (boxes.values.map bottom)

end Box
end UmlDraw
