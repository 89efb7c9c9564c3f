/-
# The layout of a class diagram

Entities outside of packages fill a grid of four columns.  Packages stand below, one under the
other, each with a grid of its own and the packages inside below it.
-/
import UmlDraw.Class.Rows
import UmlDraw.Layout.Box
import UmlDraw.Layout.Grouping

namespace UmlDraw
namespace Class

/-- Where entities and the frames of packages lie; frames go by the path of the package. -/
structure Layout where
  entities : Keyed Box := Keyed.empty
  frames : Keyed Box := Keyed.empty

namespace Layout

/-- The number of columns of a grid. -/
def columns : Nat := 4

/-- The room between columns. -/
def columnGap : Rat := 60

/-- The room between rows. -/
def rowGap : Rat := 80

/-- The room inside the frame of a package. -/
def padding : Rat := 30

/-- The height of the head of a package. -/
def packageHeader : Rat := 30

/-- The place of the next entity of a grid. -/
structure Cursor where
  /-- The number of entities in the row so far. -/
  column : Nat
  x : Rat
  y : Rat
  /-- The height of the row so far. -/
  rowHeight : Rat

/-- The cursor behind an entity of the given size, in a grid with the given left side. -/
def Cursor.next (x0 : Rat) (c : Cursor) (s : Size) : Cursor :=
  let rowHeight := Fraction.larger c.rowHeight s.height
  if columns ≤ c.column + 1 then ⟨0, x0, c.y + rowHeight + rowGap, 0⟩
  else ⟨c.column + 1, c.x + s.width + columnGap, c.y, rowHeight⟩

/-- Places entities in a grid from the cursor on; entities without a size are left out.  The second
result is the lower side of the grid. -/
def grid (sizes : Keyed Size) (x0 : Rat) (c : Cursor) (places : Keyed Box) :
    List String → Keyed Box × Rat
  | [] => (places, c.y + c.rowHeight)
  | code :: rest =>
    match sizes.get? code with
    | none => grid sizes x0 c places rest
    | some s =>
      grid sizes x0 (c.next x0 s) (places.insert code ⟨c.x, c.y, s.width, s.height⟩) rest

/-- Places a list of entities in a grid with the given corner. -/
def placeGrid (groups : List (List String)) (sizes : Keyed Size) (x0 y0 : Rat) (l : Layout)
    (codes : List String) : Layout × Rat :=
  let (places, bottom) := grid sizes x0 ⟨0, x0, y0, 0⟩ l.entities (gather groups codes)
  ({ l with entities := places }, bottom)

/-- The right side of a frame that holds the given entities, at least the given one. -/
def rightOf (l : Layout) (least : Rat) (codes : List String) : Rat :=
  codes.foldl (fun right code =>
    match l.entities.get? code with
    | some b => Fraction.larger right (b.right + padding)
    | none => right) least

mutual

/-- Places a package with its contents; the results are the layout, and the right and the lower
side of the frame. -/
def placePackage (groups : List (List String)) (sizes : Keyed Size) (x0 y0 : Rat) (l : Layout) :
    Folder PackageHead → Layout × Rat × Rat
  | .node head path members inner =>
    let x := x0 + padding
    let y := y0 + packageHeader
    let right := x0 + (max 160 (textWidth head.name) : Nat) + 2 * padding
    let codes := members.filter sizes.contains
    let (l, y) := if codes.isEmpty then (l, y) else placeGrid groups sizes x y l codes
    let (l, right, y) := placePackages groups sizes x y (l.rightOf right codes) l inner
    let bottom := y + padding
    ({ l with frames := l.frames.insert path ⟨x0, y0, right - x0, bottom - y0⟩ }, right, bottom)

/-- Places the packages in a package, one under the other; the results are the layout, the right
side of the outer frame and the lower side of the last inner one. -/
def placePackages (groups : List (List String)) (sizes : Keyed Size) (x y right : Rat)
    (l : Layout) : List (Folder PackageHead) → Layout × Rat × Rat
  | [] => (l, right, y)
  | p :: rest =>
    let (l, innerRight, bottom) := placePackage groups sizes x (y + padding) l p
    placePackages groups sizes x bottom (Fraction.larger right (innerRight + padding)) l rest

end

/-- Places the packages at the top, one under the other; the second result is the place below. -/
def placeTop (groups : List (List String)) (sizes : Keyed Size) (x y : Rat) (l : Layout) :
    List (Folder PackageHead) → Layout × Rat
  | [] => (l, y)
  | p :: rest =>
    let (l, _, bottom) := placePackage groups sizes x y l p
    placeTop groups sizes x (bottom + rowGap) l rest

end Layout

namespace Diagram

/-- The entities that are drawn. -/
def drawn (d : Diagram) : List Entity :=
  (d.entities.entries.filter fun (code, _) => !d.removed.contains code).map Prod.snd

/-- The sizes of the entities that are drawn. -/
def sizes (d : Diagram) : Keyed Size :=
  Keyed.ofList (d.drawn.map fun e => (e.code, d.size e))

/-- The layout with the given corner, and the place below it. -/
def layout (d : Diagram) (x y : Rat) : Layout × Rat :=
  let packaged := Folder.allMembers d.packages
  let roots := (d.drawn.map Entity.code).filter fun code => !packaged.contains code
  let (l, y) :=
    if roots.isEmpty then ({}, y)
    else
      let (l, bottom) := Layout.placeGrid d.groups d.sizes x y {} roots
      (l, bottom + Layout.rowGap)
  Layout.placeTop d.groups d.sizes x y l d.packages

end Diagram
end Class
end UmlDraw
