/-
# Canvases

A canvas collects the cells of a drawing in the order in which they are drawn and gives them
numbered ids.  A `Sketch` is a piece of drawing: it adds cells to a canvas and returns a result,
most often the id of a cell that later connectors refer to.

A mark is a piece of a drawing that no other piece refers to: a shape, or a line through points.  A
drawing made of marks alone is a list of them.
-/
import UmlDraw.Drawing.Cell
import UmlDraw.Drawing.Document

namespace UmlDraw

/-- The cells drawn so far. -/
structure Canvas where
  /-- The id of the cell around the drawing. -/
  parent : String
  /-- The cells, in drawing order. -/
  cells : List Cell := []

namespace Canvas

/-- The id of the next cell. -/
def nextId (k : Canvas) : String :=
  Document.numberedId "puml" (k.cells.length + 1)

/-- Draws the cell that is made from an id. -/
def put (k : Canvas) (make : String → Cell) : Canvas :=
  { k with cells := k.cells ++ [make k.nextId] }

end Canvas

/-- A piece of drawing. -/
abbrev Sketch := StateM Canvas

namespace Sketch

/-- The cells that a piece of drawing adds to an empty canvas. -/
def cells {α : Type} (s : Sketch α) (parent : String) : List Cell :=
  (s.run { parent := parent }).2.cells

/-- Draws the cell that is made from an id and the id of the cell around the drawing; returns the
id. -/
def put (make : String → String → Cell) : Sketch String :=
  fun k => (k.nextId, k.put fun id => make id k.parent)

/-- Draws a shape and returns its id. -/
def shape (value : String) (style : Style) (x y width height : Number) : Sketch String :=
  put fun id parent => Cell.shape id value style.render parent x y width height

/-- Draws a shape inside another one. -/
def part (owner value : String) (style : Style) (x y width height : Number) : Sketch Unit := do
  let _ ← put fun id _ => Cell.shape id value style.render owner x y width height

/-- Draws a connector between two shapes and returns its id. -/
def connect (value : String) (style : Style) (source target : String) : Sketch String :=
  put fun id parent => Cell.connector id value style.render parent source target []

/-- Draws a line between two points, through further points on its way. -/
def line (value : String) (style : Style) (start stop : Point) (points : List Point) :
    Sketch Unit := do
  let _ ← put fun id parent => Cell.freeConnector id value style.render parent start stop points

end Sketch

/-- A piece of a drawing. -/
inductive Mark where
  | shape (value : String) (style : Style) (x y width height : Number)
  /-- A line from its start through further points to its end. -/
  | line (value : String) (style : Style) (start : Point) (between : List Point) (stop : Point)

namespace Mark

/-- The line through some points, if there are at least two. -/
def polyline (style : Style) (points : List Point) : List Mark :=
  match points with
  | start :: p :: rest => [line "" style start (p :: rest).dropLast ((p :: rest).getLastD p)]
  | _ => []

/-- Draws a mark. -/
def draw : Mark → Sketch Unit
  | shape value style x y width height => do
    let _ ← Sketch.shape value style x y width height
  | line value style start between stop => Sketch.line value style start stop between

/-- Draws marks in order. -/
def drawAll : List Mark → Sketch Unit
  | [] => pure ()
  | m :: rest => do
    m.draw
    drawAll rest

end Mark
end UmlDraw
