/-
# Drawing use case and component diagrams

Containers are drawn first, each before what it holds, then elements, notes and links.  An element
with the code of a container is not drawn beside it.
-/
import UmlDraw.Description.Layout
import UmlDraw.Description.Style
import UmlDraw.Relation.Drawing

namespace UmlDraw
namespace Description

/-- A label with the stereotypes above the name. -/
def labelOf (name : String) (stereotypes : List String) : String :=
  Text.join "<br>" (stereotypes.map (fun s => "<<" ++ s ++ ">>") ++ [Label.html name])

namespace Diagram

/-- Draws containers; the result is the table of their cells, where the first container with a code
counts. -/
def drawContainers (places : Keyed Box) (cells : Keyed String) :
    List (Folder ContainerHead) → Sketch (Keyed String)
  | [] => pure cells
  | c :: rest => do
    match places.get? c.path with
    | some b =>
      let id ← Sketch.boxed (labelOf c.head.name c.head.stereotypes) (containerStyle c.head) b
      let cells := if cells.contains c.head.code then cells else cells.insert c.head.code id
      drawContainers places cells rest
    | none => drawContainers places cells rest

/-- Draws the elements that have a place and whose code has no cell; the result is the table of
cells with theirs. -/
def drawElements (places : Keyed Box) (cells : Keyed String) :
    List Element → Sketch (Keyed String)
  | [] => pure cells
  | e :: rest => do
    match if cells.contains e.code then none else places.get? e.code with
    | some b =>
      let id ← Sketch.boxed (labelOf e.display e.stereotypes) (elementStyle e) b
      drawElements places (cells.insert e.code id) rest
    | none => drawElements places cells rest

/-- The title, unless it is empty. -/
def shownTitle (d : Diagram) : Option String :=
  d.title.filter fun t => !t.isEmpty

/-- The left side of the layout; notes on the left of elements need room. -/
def originX (d : Diagram) : Rat :=
  if Relation.hasNoteAt .left d.notes then 200 else 40

/-- The upper side of the layout; a title and notes above elements need room. -/
def originY (d : Diagram) : Rat :=
  40 + (if d.shownTitle.isSome then 30 else 0) + (if Relation.hasNoteAt .top d.notes then 60 else 0)

/-- Draws a diagram of a dialect. -/
def sketch (d : Diagram) (dialect : Dialect) : Sketch Unit := do
  let layout := d.layout dialect d.originX d.originY
  match d.shownTitle with
  | some t =>
    let width := Fraction.larger (Box.rightmost 120 layout.shapes - 40) 120
    let _ ← Sketch.boxed t titleStyle ⟨40, 20, width, 30⟩
  | none => pure ()
  let cells ← drawContainers layout.containers Keyed.empty (Folder.walkAll d.containers)
  let cells ← drawElements layout.shapes cells d.elements.values
  let bottom := Box.lowest 40 layout.shapes + 40
  let cells ← Relation.drawNotes layout.shapes d.links (40, bottom) cells d.notes
  Relation.drawLinks cells d.links

/-- The cells that draw a diagram of a dialect in the given parent. -/
def draw (d : Diagram) (dialect : Dialect) (parent : String) : List Cell :=
  (d.sketch dialect).cells parent

end Diagram
end Description
end UmlDraw
