/-
# Drawing state diagrams

Composite states are drawn first, each before those in it, then the other elements, notes and
transitions.  An element that stands in two regions is drawn twice at the same place.
-/
import UmlDraw.Relation.Drawing
import UmlDraw.State.Layout
import UmlDraw.State.Style

namespace UmlDraw
namespace State

/-- The margin around the drawing. -/
def margin : Rat := 40

/-- Draws the lines between the regions of a composite state. -/
def drawSeparators (b : Box) : List Rat → Sketch Unit
  | [] => pure ()
  | y :: rest => do
    Sketch.line "" separatorStyle ⟨.ratio (b.x + 5), .ratio y⟩ ⟨.ratio (b.right - 5), .ratio y⟩ []
    drawSeparators b rest

/-- Draws the composite states of a list; the result is the table of cells with theirs. -/
def drawComposites (cells : Keyed String) : List Placed → Sketch (Keyed String)
  | [] => pure cells
  | p :: rest => do
    if p.element.isComposite then
      let id ← Sketch.boxed p.element.label (compositeStyle p.element) p.box
      drawSeparators p.box p.separators
      drawComposites (cells.insert p.element.code id) rest
    else drawComposites cells rest

/-- Draws a state. -/
def drawState (e : Element) (b : Box) : Sketch String := do
  if e.descriptions.isEmpty then Sketch.boxed e.label (plainStyle e) b
  else
    let id ← Sketch.boxed e.label (describedStyle e) b
    Sketch.part id (Text.join "<br>" e.descriptions) descriptionStyle 0 (.int headerHeight)
      (.ratio b.width) (.ratio (b.height - headerHeight))
    pure id

/-- Draws an element without elements in it. -/
def drawLeaf (e : Element) (b : Box) : Sketch String := do
  match e.kind with
  | .initial => Sketch.boxed "" dotStyle b
  | .final =>
    let id ← Sketch.boxed "" ringStyle b
    let _ ← Sketch.boxed "" dotStyle ⟨b.x + 6, b.y + 6, 16, 16⟩
    pure id
  | .choice => Sketch.boxed "" choiceStyle b
  | .bar | .synchroBar => Sketch.boxed "" barStyle b
  | .history => Sketch.boxed "H" historyStyle b
  | .deepHistory => Sketch.boxed "H*" historyStyle b
  | .state => drawState e b

/-- Draws the elements of a list that are not composite; the result is the table of cells with
theirs. -/
def drawLeaves (cells : Keyed String) : List Placed → Sketch (Keyed String)
  | [] => pure cells
  | p :: rest => do
    if p.element.isComposite then drawLeaves cells rest
    else
      let id ← drawLeaf p.element p.box
      drawLeaves (cells.insert p.element.code id) rest

/-- The height of a note. -/
def noteHeight (text : String) : Rat :=
  (max 40 ((Text.split '\n' text).length * 16 + 16) : Nat)

/-- Where a note stands that speaks of an element or a transition which has a place; other notes
stand in a column of their own. -/
def notePlace (places : Keyed Box) (transitions : List Transition) (n : Note) :
    Option (Rat × Rat) :=
  match (Relation.noteShape n).bind places.get? with
  | some b =>
    match n.side with
    | .left => some (b.x - 160, b.y)
    | .top => some (b.x, b.y - noteHeight n.text - Axis.gapY)
    | .bottom => some (b.x, b.bottom + Axis.gapY)
    | _ => some (b.right + Axis.gapX, b.y)
  | none => do
    let index ← n.target.link?
    let t ← transitions[index]?
    let a ← places.get? t.source
    let b ← places.get? t.target
    some ((a.x + b.x) / 2 + Axis.gapX, (a.y + b.y) / 2)

/-- Draws notes in order.  `free` is the place of the next note of the column. -/
def drawNotes (places : Keyed Box) (transitions : List Transition) (cells : Keyed String)
    (free : Rat × Rat) : List Note → Sketch Unit
  | [] => pure ()
  | n :: rest => do
    let height := noteHeight n.text
    let place := notePlace places transitions n
    let (x, y) := place.getD free
    let free := if place.isSome then free else (free.1, free.2 + height + Axis.gapY)
    let id ← Sketch.boxed (Label.html n.text) (Relation.noteStyle n.color)
      ⟨x, y, Relation.noteWidth, height⟩
    match (Relation.noteShape n).bind cells.get? with
    | some target =>
      let _ ← Sketch.connect "" Relation.noteConnectorStyle id target
    | none => pure ()
    drawNotes places transitions cells free rest

/-- Draws the transitions whose ends are drawn. -/
def drawTransitions (cells : Keyed String) : List Transition → Sketch Unit
  | [] => pure ()
  | t :: rest => do
    match cells.get? t.source, cells.get? t.target with
    | some source, some target =>
      let _ ← Sketch.connect (Label.html (t.label.getD "")) (transitionStyle t) source target
    | _, _ => pure ()
    drawTransitions cells rest

namespace Diagram

/-- Draws the title, if there is one; the result is the upper side of what is below. -/
def drawTitle (d : Diagram) : Sketch Rat := do
  match d.title.filter fun t => !t.isEmpty with
  | some t =>
    let _ ← Sketch.boxed t titleStyle ⟨margin, 0, (max 300 (t.length * 9) : Nat), 30⟩
    pure (margin + 30)
  | none => pure margin

/-- Draws a diagram. -/
def sketch (d : Diagram) : Sketch Unit := do
  let top ← d.drawTitle
  let layout := d.layout margin top
  let cells ← drawComposites Keyed.empty layout.shapes
  let cells ← drawLeaves cells layout.shapes
  drawNotes layout.boxes d.transitions cells (margin + layout.width + Axis.gapX, margin) d.notes
  drawTransitions cells d.transitions

/-- The cells that draw a diagram in the given parent. -/
def draw (d : Diagram) (parent : String) : List Cell :=
  d.sketch.cells parent

end Diagram
end State
end UmlDraw
