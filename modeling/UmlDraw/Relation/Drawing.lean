/-
# Drawing notes and links

The shapes that several dialects share: notes with a folded corner, the dotted connectors that tie
them to what they speak of, links, and the small labels at the ends of links.  A table of cells says
which cell draws a code.
-/
import UmlDraw.Drawing.Canvas
import UmlDraw.Drawing.Color
import UmlDraw.Layout.Box
import UmlDraw.Relation.Link
import UmlDraw.Relation.Note
import UmlDraw.Source.Label

namespace UmlDraw

namespace Sketch

/-- Draws a shape in a box and returns its id. -/
def boxed (value : String) (style : Style) (b : Box) : Sketch String :=
  shape value style (.ratio b.x) (.ratio b.y) (.ratio b.width) (.ratio b.height)

end Sketch

namespace Relation

/-- The style of a note. -/
def noteStyle (color : Option String) : Style :=
  Style.of [("shape", "note"), ("whiteSpace", "wrap"), ("html", 1), ("size", 14),
    ("align", "left"), ("spacingLeft", 4), ("fillColor", Color.getD color "#FFF2CC"),
    ("strokeColor", "#D6B656"), ("fontSize", 12)]

/-- The style of a connector between a note and what it speaks of. -/
def noteConnectorStyle : Style :=
  Style.of [("html", 1), ("dashed", 1), ("dashPattern", "1 1"), ("endArrow", "none"),
    ("startArrow", "none")]

/-- The style of a label at an end of a connector. -/
def endLabelStyle : Style :=
  Style.of [("edgeLabel", .bare), ("html", 1), ("align", "center"), ("verticalAlign", "middle"),
    ("resizable", 0), ("points", "[]")]

/-- The style of a qualifier at an end of a connector. -/
def qualifierStyle : Style :=
  Style.of [("edgeLabel", .bare), ("html", 1), ("align", "center"), ("verticalAlign", "middle"),
    ("resizable", 0), ("fillColor", "#ffffff"), ("strokeColor", "#000000")]

/-- A label that rides on a connector; its position runs from -1 at the source to 1 at the
target. -/
def endLabel (id edgeId text : String) (position : Number) (style : Style) : Cell where
  id := id
  value := Label.html text
  style := style.render
  vertex := true
  parent := edgeId
  geometry := some
    { x := position, y := 0, width := .int (max 20 (Label.longest (Label.lines text) * 7 + 8)),
      height := 16, relative := true }

/-- Draws a label that rides on a connector, if it has a text. -/
def drawEndLabel (edgeId : String) (text : Option String) (position : Rat) (style : Style) :
    Sketch Unit := do
  match text.filter fun t => !t.isEmpty with
  | some t =>
    let _ ← Sketch.put fun id _ => endLabel id edgeId t (.ratio position) style
  | none => pure ()

/-- Draws a link between the cells of its ends, if both are drawn. -/
def drawLink (cells : Keyed String) (l : Link) : Sketch Unit := do
  match cells.get? l.source.code, cells.get? l.target.code with
  | some source, some target =>
    let id ← Sketch.connect (Label.html (l.label.getD ""))
      (style l.source.mark l.target.mark l.line l.color) source target
    drawEndLabel id l.source.label (-4/5) endLabelStyle
    drawEndLabel id l.target.label (4/5) endLabelStyle
    drawEndLabel id l.source.qualifier (-19/20) qualifierStyle
    drawEndLabel id l.target.qualifier (19/20) qualifierStyle
  | _, _ => pure ()

/-- Draws links in order. -/
def drawLinks (cells : Keyed String) : List Link → Sketch Unit
  | [] => pure ()
  | l :: rest => do
    drawLink cells l
    drawLinks cells rest

/-- The width of a note. -/
def noteWidth : Rat := 140

/-- The room between a note and what it speaks of. -/
def noteGap : Rat := 20

/-- The height of a note. -/
def noteHeight (text : String) : Rat :=
  (max 40 ((Label.lines text).length * 16 + 16) : Nat)

/-- The code of the shape that a note speaks of, unless it is empty. -/
def noteShape (n : Note) : Option String :=
  n.target.shape?.filter fun code => !code.isEmpty

/-- Some note stands on the given side of a shape. -/
def hasNoteAt (side : Side) (notes : List Note) : Bool :=
  notes.any fun n => n.side == side && (noteShape n).isSome

/-- Where a note stands that speaks of a shape or a link which has a place; other notes stand in a
row of their own. -/
def notePlace (places : Keyed Box) (links : List Link) (n : Note) : Option (Rat × Rat) :=
  let height := noteHeight n.text
  match noteShape n with
  | some code => do
    let b ← places.get? code
    match n.side with
    | .left => some (b.x - noteWidth - noteGap, b.y)
    | .top => some (b.x, b.y - height - noteGap)
    | .bottom => some (b.x, b.bottom + noteGap)
    | _ => some (b.right + noteGap, b.y)
  | none => do
    let index ← n.target.link?
    let l ← links[index]?
    let a ← places.get? l.source.code
    let b ← places.get? l.target.code
    some ((a.centerX + b.centerX) / 2 + noteGap,
      Fraction.larger ((a.centerY + b.centerY) / 2 - height / 2) 0)

/-- Draws notes in order.  `free` is the place of the next note of the row.  The result is the table
of cells with the codes of the free notes. -/
def drawNotes (places : Keyed Box) (links : List Link) (free : Rat × Rat) (cells : Keyed String) :
    List Note → Sketch (Keyed String)
  | [] => pure cells
  | n :: rest => do
    let place := notePlace places links n
    let (x, y) := place.getD free
    let free := if place.isSome then free else (free.1 + noteWidth + noteGap, free.2)
    let id ← Sketch.boxed (Label.html n.text) (noteStyle n.color)
      ⟨x, y, noteWidth, noteHeight n.text⟩
    let cells :=
      match n.target.free? with
      | some code => cells.insert code id
      | none => cells
    match (noteShape n).bind cells.get? with
    | some target =>
      let _ ← Sketch.connect "" noteConnectorStyle id target
    | none => pure ()
    drawNotes places links free cells rest

end Relation
end UmlDraw
