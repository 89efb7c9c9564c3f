/-
# Drawing a class diagram

Frames of packages are drawn first, then entities with their rows, notes, connectors to what
entities extend and implement, and links.  A link is drawn only if both its ends are.
-/
import UmlDraw.Class.Layout
import UmlDraw.Relation.Drawing

namespace UmlDraw
namespace Class
namespace Diagram

/-- Draws the frames of packages, each before the frames inside. -/
def drawFrames (frames : Keyed Box) : List (Folder PackageHead) → Sketch Unit
  | [] => pure ()
  | p :: rest => do
    match frames.get? p.path with
    | some b =>
      let _ ← Sketch.boxed p.head.name (packageStyle p.head.color) b
    | none => pure ()
    drawFrames frames rest

/-- Draws the rows of an entity from a given height on. -/
def drawRows (owner : String) (width : Rat) (y : Nat) : List Row → Sketch Unit
  | [] => pure ()
  | r :: rest => do
    match r.second with
    | none => Sketch.part owner r.text r.style 0 (.int y) (.ratio width) (.int r.height)
    | some second =>
      Sketch.part owner r.text r.style 0 (.int y) (.ratio (width / 2)) (.int r.height)
      Sketch.part owner second r.style (.ratio (width / 2)) (.int y) (.ratio (width / 2))
        (.int r.height)
    drawRows owner width (y + r.height) rest

/-- Draws an entity and returns its id. -/
def drawEntity (d : Diagram) (e : Entity) (b : Box) : Sketch String := do
  if e.kind.isSmall then
    Sketch.boxed (if e.kind = .diamond then "" else e.display) (smallStyle e) b
  else
    let header := (d.size e).header
    let id ← Sketch.boxed (Text.join "<br>" e.header) (entityStyle e header) b
    drawRows id b.width header (d.rows e)
    pure id

/-- Draws the entities that have a place; the result is the table of their cells. -/
def drawEntities (d : Diagram) (places : Keyed Box) (cells : Keyed String) :
    List Entity → Sketch (Keyed String)
  | [] => pure cells
  | e :: rest => do
    match places.get? e.code with
    | some b =>
      let id ← d.drawEntity e b
      drawEntities d places (cells.insert e.code id) rest
    | none => drawEntities d places cells rest

/-- Draws connectors from a cell to the cells of the given codes, as far as they are drawn. -/
def drawUpward (cells : Keyed String) (id : String) (dashed : Bool) : List String → Sketch Unit
  | [] => pure ()
  | code :: rest => do
    match cells.get? code with
    | some target =>
      let _ ← Sketch.connect "" (inheritanceStyle dashed) id target
    | none => pure ()
    drawUpward cells id dashed rest

/-- Draws what entities extend and implement. -/
def drawInheritance (cells : Keyed String) : List Entity → Sketch Unit
  | [] => pure ()
  | e :: rest => do
    match cells.get? e.code with
    | some id =>
      drawUpward cells id false e.parents
      drawUpward cells id true e.interfaces
    | none => pure ()
    drawInheritance cells rest

/-- The title, unless it is empty. -/
def shownTitle (d : Diagram) : Option String :=
  d.title.filter fun t => !t.isEmpty

/-- The left side of the layout; notes on the left of entities need room. -/
def originX (d : Diagram) : Rat :=
  if Relation.hasNoteAt .left d.notes then 200 else 40

/-- The upper side of the layout; a title and notes above entities need room. -/
def originY (d : Diagram) : Rat :=
  40 + (if d.shownTitle.isSome then 30 else 0) + (if Relation.hasNoteAt .top d.notes then 60 else 0)

/-- Draws a class diagram. -/
def sketch (d : Diagram) : Sketch Unit := do
  let (layout, bottom) := d.layout d.originX d.originY
  match d.shownTitle with
  | some t =>
    let width := Fraction.larger (Box.rightmost 160 layout.entities - 40) 160
    let _ ← Sketch.boxed t titleStyle ⟨40, 20, width, 30⟩
  | none => pure ()
  drawFrames layout.frames (Folder.walkAll d.packages)
  let cells ← drawEntities d layout.entities Keyed.empty d.drawn
  let cells ← Relation.drawNotes layout.entities d.links (40, bottom) cells d.notes
  drawInheritance cells d.drawn
  Relation.drawLinks cells d.links

/-- The cells that draw a class diagram in the given parent. -/
def draw (d : Diagram) (parent : String) : List Cell :=
  d.sketch.cells parent

end Diagram
end Class
end UmlDraw
