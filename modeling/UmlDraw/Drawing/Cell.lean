/-
# Cells

A drawing is a list of cells.  A cell is a shape (a *vertex*) or a connector (an *edge*), has an
id, a label, a style and a place, and lies in a parent cell.  A connector either joins two shapes
or runs freely between two points.  A number of a place that has no value makes the cell a faulty
one, and a drawing with a faulty cell has no extent.
-/
import UmlDraw.Drawing.Escape
import UmlDraw.Drawing.Style
import UmlDraw.Number.Checked

namespace UmlDraw

/-- A point of a drawing. -/
structure Point where
  /-- Distance from the left. -/
  x : Number
  /-- Distance from the top. -/
  y : Number

/-- Where a cell lies.  A shape has a corner, a width and a height.  A connector may have end
points of its own and further points on its way. -/
structure Geometry where
  /-- Left side. -/
  x : Number := 0
  /-- Upper side. -/
  y : Number := 0
  /-- Width. -/
  width : Number := 0
  /-- Height. -/
  height : Number := 0
  /-- The place is relative to the parent. -/
  relative : Bool := false
  /-- Where a free connector starts. -/
  sourcePoint : Option Point := none
  /-- Where a free connector ends. -/
  targetPoint : Option Point := none
  /-- Further points on the way of a connector. -/
  points : List Point := []

/-- One cell of a drawing. -/
structure Cell where
  /-- The id, unique in a drawing. -/
  id : String
  /-- The label. -/
  value : String := ""
  /-- The written style. -/
  style : String := ""
  /-- The cell is a shape. -/
  vertex : Bool := false
  /-- The cell is a connector. -/
  edge : Bool := false
  /-- The id of the cell around it. -/
  parent : String := "1"
  /-- The id of the shape where a connector starts. -/
  source : Option String := none
  /-- The id of the shape where a connector ends. -/
  target : Option String := none
  /-- The place. -/
  geometry : Option Geometry := none

/-- Why a drawing cannot be built. -/
inductive DrawingError where
  /-- A cell has no id. -/
  | cellWithoutId
  /-- The group around a drawing has no id. -/
  | groupWithoutId
deriving DecidableEq

/-- The wording of an error. -/
def DrawingError.message : DrawingError → String
  | cellWithoutId => "Cell id is required"
  | groupWithoutId => "UserObject id is required"

/-- One attribute of an element. -/
def attr (name value : String) : String :=
  name ++ "=\"" ++ escape value ++ "\""

/-- One attribute whose value is a number. -/
def numberAttr (name : String) (value : Number) : String :=
  name ++ "=\"" ++ value.text ++ "\""

namespace Geometry

/-- The points of a connector that have places of their own. -/
def ownPoints (g : Geometry) : List Point :=
  g.sourcePoint.toList ++ g.targetPoint.toList ++ g.points

/-- The numbers that are written for a place. -/
def numbers (g : Geometry) (isEdge : Bool) : List Number :=
  if isEdge then g.ownPoints.flatMap fun p => [p.x, p.y] else [g.x, g.y, g.width, g.height]

/-- The element of a point; `role` says what the point is for. -/
def pointElement (p : Point) (role : String) : String :=
  "<mxPoint " ++ numberAttr "x" p.x ++ " " ++ numberAttr "y" p.y ++ role ++ "/>"

/-- The parts inside the place of a connector. -/
def edgeParts (g : Geometry) : List String :=
  (g.sourcePoint.map fun p => "    " ++ pointElement p " as=\"sourcePoint\"").toList ++
  (g.targetPoint.map fun p => "    " ++ pointElement p " as=\"targetPoint\"").toList ++
  (if g.points.isEmpty then []
   else
    ["    <Array as=\"points\">\n" ++
      Text.join "\n" (g.points.map fun p => "      " ++ pointElement p "") ++
      "\n    </Array>"])

/-- The element of a place. -/
def render (g : Geometry) (isEdge : Bool) : String :=
  if isEdge then
    match g.edgeParts with
    | [] => "  <mxGeometry relative=\"1\" as=\"geometry\"/>"
    | parts =>
      "  <mxGeometry relative=\"1\" as=\"geometry\">\n" ++ Text.join "\n" parts ++
        "\n  </mxGeometry>"
  else
    let sides := [numberAttr "x" g.x, numberAttr "y" g.y,
      numberAttr "width" g.width, numberAttr "height" g.height]
    let sides := if g.relative then sides ++ ["relative=\"1\""] else sides
    "  <mxGeometry " ++ Text.join " " sides ++ " as=\"geometry\"/>"

end Geometry

namespace Cell

/-- An attribute that is written only if its value is not empty. -/
def filled (name value : String) : List String :=
  if value.isEmpty then [] else [attr name value]

/-- The attributes of a cell, in order. -/
def attributes (c : Cell) : List String :=
  [attr "id" c.id] ++ filled "value" c.value ++ filled "style" c.style ++
  (if c.vertex then ["vertex=\"1\""] else []) ++ (if c.edge then ["edge=\"1\""] else []) ++
  filled "parent" c.parent ++ filled "source" (c.source.getD "") ++
  filled "target" (c.target.getD "")

/-- The element of a cell. -/
def render (c : Cell) : String :=
  match c.geometry with
  | none => "<mxCell " ++ Text.join " " c.attributes ++ "/>"
  | some g =>
    "<mxCell " ++ Text.join " " c.attributes ++ ">\n" ++ g.render c.edge ++ "\n</mxCell>"

/-- The numbers that are written in a cell. -/
def numbers (c : Cell) : List Number :=
  (c.geometry.map fun g => g.numbers c.edge).getD []

/-- Why a cell has no place, if it has none. -/
def fault? (c : Cell) : Option NumberError :=
  c.numbers.findSome? Number.fault?

/-- Why the element of a cell cannot be written, if it cannot. -/
def textFault? (c : Cell) : Option NumberError :=
  c.numbers.findSome? Number.textFault?

/-- The element of a cell, if it can be written. -/
def write (c : Cell) : Except NumberError String :=
  Fault.check c.textFault? c.render

/-- The cell, if it has an id. -/
def checked (c : Cell) : Except DrawingError Cell :=
  if c.id.isEmpty then .error .cellWithoutId else .ok c

/-- A shape with the given corner, width and height. -/
def shape (id value style parent : String) (x y width height : Number) : Cell where
  id := id
  value := value
  style := style
  vertex := true
  parent := parent
  geometry := some { x := x, y := y, width := width, height := height }

/-- A connector between two shapes. -/
def connector (id value style parent source target : String) (points : List Point) : Cell where
  id := id
  value := value
  style := style
  edge := true
  parent := parent
  source := some source
  target := some target
  geometry := some { relative := true, points := points }

/-- A connector between two points. -/
def freeConnector (id value style parent : String) (start stop : Point) (points : List Point) :
    Cell where
  id := id
  value := value
  style := style
  edge := true
  parent := parent
  geometry := some
    { relative := true, sourcePoint := some start, targetPoint := some stop, points := points }

/-- The cell enlarges an extent to the right and downwards. -/
def extend (parent : String) (box : Number × Number) (c : Cell) : Number × Number :=
  match c.geometry with
  | none => box
  | some g =>
    if c.parent != parent then box
    else if c.vertex then (Number.max box.1 (g.x + g.width), Number.max box.2 (g.y + g.height))
    else
      g.ownPoints.foldl (fun b p => (Number.max b.1 p.x, Number.max b.2 p.y)) box

/-- How far the cells directly in a parent reach to the right and downwards, at least 1. -/
def extent (cells : List Cell) (parent : String) : Number × Number :=
  let (width, height) := cells.foldl (extend parent) (.real 0.0, .real 0.0)
  (Number.max width (.real 1.0), Number.max height (.real 1.0))

/-- The elements of a list of cells. -/
def renderAll (cells : List Cell) : String :=
  Text.join "\n" (cells.map render)

/-- The elements of a list of cells, if they can be written. -/
def writeAll (cells : List Cell) : Except NumberError String :=
  Fault.check (cells.findSome? textFault?) (renderAll cells)

/-- How far the cells directly in a parent reach, if their places can be added. -/
def checkedExtent (cells : List Cell) (parent : String) : Except NumberError (Number × Number) :=
  let (width, height) := extent cells parent
  Fault.check (width.fault?.or height.fault?) (width, height)

end Cell
end UmlDraw
