/-
# The layout of state diagrams

The elements of a composite state, and those at the top, stand in layers along the transitions
between them, where a transition counts for the elements that hold its ends.  Layers run from top to
bottom or from left to right, and each is centered.  Regions lie below each other.

The layout is made in two steps.  `measure` gives every element its size, from the inside out, and
`place` turns the places inside composite states into places on the page.
-/
import UmlDraw.Layout.Box
import UmlDraw.Layout.Layering
import UmlDraw.State.Basic

namespace UmlDraw
namespace State

/-- How elements lie to each other. -/
structure Arrangement where
  width : Rat := 0
  height : Rat := 0
  /-- The corner of each element. -/
  corners : Keyed (Rat × Rat) := Keyed.empty
  /-- The places of the lines between regions, from above. -/
  separators : List Rat := []

/-- An element with its size, and the elements in it. -/
inductive Part where
  | node (element : Element) (width height : Rat) (inside : Arrangement) (parts : List Part)

namespace Part

/-- The code of the element. -/
def code : Part → String
  | node e _ _ _ _ => e.code

/-- The width. -/
def width : Part → Rat
  | node _ w _ _ _ => w

/-- The height. -/
def height : Part → Rat
  | node _ _ h _ _ => h

end Part

/-- The width of a text with room around it. -/
def textWidth (text : String) : Nat :=
  text.length * 7 + 30

/-- The height of the part of a state above its descriptions. -/
def headerHeight : Nat := 26

namespace Element

/-- The width and height of a state without elements in it. -/
def stateSize (e : Element) : Nat × Nat :=
  let width :=
    (e.stereotypes.map fun s => textWidth s + 28).foldl max (max 120 (textWidth e.display))
  match e.descriptions with
  | [] => (width, 40)
  | texts =>
    ((texts.map textWidth).foldl max width, headerHeight + texts.length * 18 + 8)

/-- The width and height of an element without elements in it. -/
def leafSize (e : Element) : Nat × Nat :=
  match e.kind with
  | .state => e.stateSize
  | .initial => (24, 24)
  | .final => (28, 28)
  | .choice => (30, 30)
  | .bar | .synchroBar => (60, 5)
  | .history | .deepHistory => (28, 28)

end Element

namespace Diagram

/-- The first of some elements that is a given element or holds it.  The first argument bounds the
number of steps outwards. -/
def holderWithin (d : Diagram) (members : List String) : Nat → String → Option String
  | 0, _ => none
  | n + 1, code =>
    if members.contains code then some code
    else ((d.elements.get? code).bind Element.parent).bind (holderWithin d members n)

/-- The first of some elements that is a given element or holds it; a path outwards without a
repetition is no longer than the table of elements. -/
def holder (d : Diagram) (members : List String) (code : String) : Option String :=
  d.holderWithin members (d.elements.entries.length + 1) code

/-- The links that the transitions make between some elements; elements with an empty code have
none. -/
def linksAmong (d : Diagram) (members : List String) : List (String × String) :=
  d.transitions.filterMap fun t => do
    let source ← d.holder members t.source
    let target ← d.holder members t.target
    if source.isEmpty || target.isEmpty then none else some (source, target)

end Diagram

/-- The gaps and sizes of a layout along its layers and across them. -/
structure Axis where
  /-- The layers run from left to right; else from top to bottom. -/
  leftToRight : Bool

namespace Axis

/-- The gap between neighbours beside each other. -/
def gapX : Rat := 60

/-- The gap between neighbours below each other. -/
def gapY : Rat := 40

/-- The gap between layers. -/
def gapAlong (a : Axis) : Rat :=
  if a.leftToRight then gapX else gapY

/-- The gap between elements of a layer. -/
def gapAcross (a : Axis) : Rat :=
  if a.leftToRight then gapY else gapX

/-- The size of an element along the layers. -/
def along (a : Axis) (p : Part) : Rat :=
  if a.leftToRight then p.width else p.height

/-- The size of an element across the layers. -/
def across (a : Axis) (p : Part) : Rat :=
  if a.leftToRight then p.height else p.width

/-- The horizontal and the vertical one of two measures, given the one along the layers and the one
across them. -/
def turn (a : Axis) (along across : Rat) : Rat × Rat :=
  if a.leftToRight then (along, across) else (across, along)

/-- The size of a layer along the layers. -/
def depth (a : Axis) (layer : List Part) : Rat :=
  Box.greatest 0 (layer.map a.along)

/-- The size of a layer across the layers. -/
def breadth (a : Axis) (layer : List Part) : Rat :=
  Fraction.total (layer.map a.across) + a.gapAcross * ((layer.length : Rat) - 1)

/-- Places the elements of a layer, each in the middle of it.  The layer starts at `start`, and the
next element at `next` across it. -/
def placeLayer (a : Axis) (start depth : Rat) (next : Rat) (corners : Keyed (Rat × Rat)) :
    List Part → Keyed (Rat × Rat)
  | [] => corners
  | p :: rest =>
    placeLayer a start depth (next + a.across p + a.gapAcross)
      (corners.insert p.code (a.turn (start + (depth - a.along p) / 2) next)) rest

/-- Places layers one after the other, each in the middle of the given breadth; the second result is
the place behind the last gap. -/
def placeLayers (a : Axis) (breadth : Rat) (start : Rat) (corners : Keyed (Rat × Rat)) :
    List (List Part) → Keyed (Rat × Rat) × Rat
  | [] => (corners, start)
  | layer :: rest =>
    placeLayers a breadth (start + a.depth layer + a.gapAlong)
      (a.placeLayer start (a.depth layer) ((breadth - a.breadth layer) / 2) corners layer) rest

/-- Arranges elements in layers along some links. -/
def arrange (a : Axis) (links : List (String × String)) (parts : List Part) : Arrangement :=
  if parts.isEmpty then {}
  else
    let table := Keyed.ofList (parts.map fun p => (p.code, p))
    let layers := (Layering.layers (parts.map Part.code) links).map fun layer =>
      layer.filterMap table.get?
    let breadth := Box.greatest 0 (layers.map a.breadth)
    let (corners, stop) := a.placeLayers breadth 0 Keyed.empty layers
    let (width, height) := a.turn (stop - a.gapAlong) breadth
    { width := width, height := height, corners := corners }

end Axis

namespace Arrangement

/-- The room on either side of a line between regions. -/
def separatorGap : Rat := 10

/-- A further region below what is there. -/
def below (a inner : Arrangement) : Arrangement :=
  let y := a.height + separatorGap * 2
  { width := Fraction.larger a.width inner.width
    height := y + inner.height
    corners := inner.corners.entries.foldl (fun t (code, (dx, dy)) => t.insert code (dx, dy + y))
      a.corners
    separators := a.separators ++ [a.height + separatorGap] }

/-- Moves some elements together into the middle of the width. -/
def center (a : Arrangement) (parts : List Part) : Arrangement :=
  let rightOf (p : Part) : Rat := ((a.corners.get? p.code).getD (0, 0)).1 + p.width
  let shift := (a.width - Box.greatest 0 (parts.map rightOf)) / 2
  { a with
    corners := parts.foldl (fun t p => t.modify p.code fun (dx, dy) => (dx + shift, dy)) a.corners }

/-- Regions below each other, each in the middle of the widest one. -/
def stack : List (List Part × Arrangement) → Arrangement
  | [] => {}
  | (parts, first) :: rest =>
    let all := rest.foldl (fun a (_, inner) => a.below inner) first
    (parts :: rest.map Prod.fst).foldl center all

end Arrangement

/-- The room inside the border of a composite state. -/
def padding : Rat := 20

/-- The height of the part of a composite state above its elements. -/
def compositeHeader : Rat := 30

namespace Diagram

/-- Arranges elements along the transitions between them. -/
def arrange (d : Diagram) (parts : List Part) : Arrangement :=
  Axis.arrange ⟨d.leftToRight⟩ (d.linksAmong (parts.map Part.code)) parts

/-- A composite state around what is in it. -/
def enclose (e : Element) (inside : Arrangement) (parts : List Part) : Part :=
  .node e (Fraction.larger (textWidth e.display) (inside.width + padding * 2))
    (compositeHeader + inside.height + padding * 2) inside parts

/-- The sizes of elements.  The first argument bounds the depth of composite states. -/
def measure (d : Diagram) : Nat → List String → List Part
  | 0, _ => []
  | n + 1, codes =>
    (codes.filterMap d.elements.get?).map fun e =>
      if e.isComposite then
        match e.contents with
        | .direct members _ =>
          let parts := measure d n members
          enclose e (d.arrange parts) parts
        | .concurrent first middle last =>
          let regions := (first :: middle ++ [last]).map fun region =>
            measure d n region.members
          enclose e (Arrangement.stack (regions.map fun parts => (parts, d.arrange parts)))
            regions.flatten
      else
        let (w, h) := e.leafSize
        .node e w h {} []

end Diagram

/-- An element with its place on the page. -/
structure Placed where
  element : Element
  box : Box
  /-- The places of the lines between its regions. -/
  separators : List Rat

namespace Part

mutual

/-- The places of an element and of those in it, if the arrangement around it has the given
corner. -/
def place (around : Arrangement) (x y : Rat) : Part → List Placed
  | node e w h inside parts =>
    let (dx, dy) := (around.corners.get? e.code).getD (0, 0)
    let box : Box := ⟨x + dx, y + dy, w, h⟩
    let top := box.y + compositeHeader + padding
    ⟨e, box, inside.separators.map (top + ·)⟩ ::
      placeAll inside (box.x + (w - inside.width) / 2) top parts

/-- The places of elements and of those in them, if the arrangement has the given corner. -/
def placeAll (around : Arrangement) (x y : Rat) : List Part → List Placed
  | [] => []
  | p :: rest => place around x y p ++ placeAll around x y rest

end

end Part

/-- Where everything lies. -/
structure Layout where
  /-- The elements, each before those in it. -/
  shapes : List Placed
  /-- The width of all elements together. -/
  width : Rat

namespace Layout

/-- The places by the codes of the elements. -/
def boxes (l : Layout) : Keyed Box :=
  Keyed.ofList (l.shapes.map fun p => (p.element.code, p.box))

end Layout

/-- The layout with the given corner. -/
def Diagram.layout (d : Diagram) (x y : Rat) : Layout :=
  let parts := d.measure (d.elements.entries.length + 1) d.roots
  let all := d.arrange parts
  { shapes := Part.placeAll all x y parts, width := all.width }

end State
end UmlDraw
