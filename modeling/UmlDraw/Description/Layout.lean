/-
# The layout of use case and component diagrams

Elements stand in layers along their links.  A layer is a row or, if the diagram runs from left to
right, a column; a long layer is cut into several.  A container holds its elements in layers of
their own, and the containers in it behind them.  Ports stand on the border of their container.
-/
import UmlDraw.Description.Basic
import UmlDraw.Layout.Box
import UmlDraw.Layout.Layering
import UmlDraw.Source.Label

namespace UmlDraw
namespace Description

/-- The width of a text. -/
def textWidth (text : String) : Nat :=
  Label.longest (Label.lines text) * 8

namespace Element

/-- The width and height of an element. -/
def size (dialect : Dialect) (e : Element) : Nat × Nat :=
  let lines := (Label.lines e.display).length + e.stereotypes.length
  let width := textWidth e.display + 40
  let usual := (max 120 width, max 60 (lines * 18 + 24))
  if e.kind.isActor then (40, 80)
  else
    match dialect with
    | .useCases => if e.kind.isUseCase then (max 140 width, max 60 (lines * 18 + 28)) else usual
    | .components =>
      if e.kind = .interface then (20, 20)
      else if e.kind.isPort then (12, 12)
      else if e.kind = .label then (max 80 (textWidth e.display), 20)
      else usual

/-- The element stands in a layer; a port in a container stands on its border instead. -/
def isLayered (e : Element) : Bool :=
  !(e.kind.isPort && (e.containerPath.filter fun p => !p.isEmpty).isSome)

end Element

/-- Where elements and containers lie; `containers` goes by the path, and `shapes` by the code of an
element or of a container that no element shares. -/
structure Layout where
  shapes : Keyed Box := Keyed.empty
  containers : Keyed Box := Keyed.empty

/-- What the layout of a diagram depends on. -/
structure Plan where
  /-- The elements with their widths and heights. -/
  sizes : Keyed (Nat × Nat)
  /-- The elements that stand in layers. -/
  layered : List String
  links : List (String × String)
  groups : List (List String)
  leftToRight : Bool

namespace Plan

/-- The room between layers and between neighbours in a row. -/
def gap : Rat := 80

/-- The room between neighbours in a column, and between containers in a container. -/
def smallGap : Rat := 40

/-- The room inside the border of a container. -/
def padding : Rat := 30

/-- The greatest number of elements of a layer. -/
def maxPerLayer : Nat := 5

/-- Parts of a list of at most the given length.  The first argument bounds their number. -/
def chunks (size : Nat) : Nat → List String → List (List String)
  | 0, _ => []
  | _ + 1, [] => []
  | n + 1, codes => codes.take size :: chunks size n (codes.drop size)

/-- The size of an element. -/
def sizeOf (p : Plan) (code : String) : Nat × Nat :=
  (p.sizes.get? code).getD (0, 0)

/-- The layers of some elements. -/
def layers (p : Plan) (codes : List String) : List (List String) :=
  let codes := (gather p.groups codes).filter p.layered.contains
  (Layering.layers codes p.links).flatMap fun layer => chunks maxPerLayer layer.length layer

/-- Places the elements of a column, each in the middle of it; the second result is the place below
the last one. -/
def placeColumn (p : Plan) (x width : Rat) (y : Rat) (shapes : Keyed Box) :
    List String → Keyed Box × Rat
  | [] => (shapes, y)
  | code :: rest =>
    let (w, h) := p.sizeOf code
    placeColumn p x width (y + h + smallGap)
      (shapes.insert code ⟨x + (width - w) / 2, y, w, h⟩) rest

/-- Places the elements of a row, each in the middle of it; the second result is the place behind
the last one. -/
def placeRow (p : Plan) (y height : Rat) (x : Rat) (shapes : Keyed Box) :
    List String → Keyed Box × Rat
  | [] => (shapes, x)
  | code :: rest =>
    let (w, h) := p.sizeOf code
    placeRow p y height (x + w + gap)
      (shapes.insert code ⟨x, y + (height - h) / 2, w, h⟩) rest

/-- Places layers as columns, one behind the other; the results are the places, the right side of
the last column and the lower side of the longest one. -/
def placeColumns (p : Plan) (x y right bottom : Rat) (shapes : Keyed Box) :
    List (List String) → Keyed Box × Rat × Rat
  | [] => (shapes, right, bottom)
  | layer :: rest =>
    let width : Rat := ((layer.map fun c => (p.sizeOf c).1).foldl max 0 : Nat)
    let (shapes, below) := p.placeColumn x width y shapes layer
    placeColumns p (x + width + gap) y (x + width) (Fraction.larger bottom (below - smallGap))
      shapes rest

/-- Places layers as rows, one under the other; the results are the places, the right side of the
longest row and the lower side of the last one. -/
def placeRows (p : Plan) (x y right bottom : Rat) (shapes : Keyed Box) :
    List (List String) → Keyed Box × Rat × Rat
  | [] => (shapes, right, bottom)
  | layer :: rest =>
    let height : Rat := ((layer.map fun c => (p.sizeOf c).2).foldl max 0 : Nat)
    let (shapes, behind) := p.placeRow y height x shapes layer
    placeRows p x (y + height + gap) (Fraction.larger right (behind - gap)) (y + height) shapes rest

/-- Places elements in layers from a corner on; the results are the places, the right and the lower
side. -/
def arrange (p : Plan) (x y : Rat) (shapes : Keyed Box) (codes : List String) :
    Keyed Box × Rat × Rat :=
  if p.leftToRight then p.placeColumns x y x y shapes (p.layers codes)
  else p.placeRows x y x y shapes (p.layers codes)

/-- Places elements in layers, if there are any; the results are the layout, the right and the lower
side. -/
def arrangeIn (p : Plan) (x y : Rat) (l : Layout) (right bottom : Rat) (codes : List String) :
    Layout × Rat × Rat :=
  if codes.isEmpty then (l, right, bottom)
  else
    let (shapes, r, b) := p.arrange x y l.shapes codes
    ({ l with shapes := shapes }, Fraction.larger right r, Fraction.larger bottom b)

mutual

/-- Places a container with its contents; the results are the layout, and the right and the lower
side of the container. -/
def placeContainer (p : Plan) (x0 y0 : Rat) (l : Layout) :
    Folder ContainerHead → Layout × Rat × Rat
  | .node head path members inner =>
    let x := x0 + padding
    let y : Rat := y0 + padding + (14 * head.stereotypes.length : Nat)
    let right := x0 + (max 120 (textWidth head.name + 60) : Nat)
    let (l, right, bottom) := p.arrangeIn x y l right y members
    let (l, right, bottom) :=
      placeContainers p x (if y < bottom then bottom + padding else y) right bottom l inner
    let box : Box := ⟨x0, y0, right + padding - x0, bottom + padding - y0⟩
    let shapes := if l.shapes.contains head.code then l.shapes else l.shapes.insert head.code box
    (⟨shapes, l.containers.insert path box⟩, box.right, box.bottom)

/-- Places the containers in a container, one behind or below the other; the results are the layout,
the right and the lower side so far. -/
def placeContainers (p : Plan) (x y right bottom : Rat) (l : Layout) :
    List (Folder ContainerHead) → Layout × Rat × Rat
  | [] => (l, right, bottom)
  | c :: rest =>
    let (l, r, b) := placeContainer p x y l c
    placeContainers p (if p.leftToRight then r + smallGap else x)
      (if p.leftToRight then y else b + smallGap) (Fraction.larger right r)
      (Fraction.larger bottom b) l rest

end

/-- Places the containers at the top, one behind or below the other. -/
def placeTop (p : Plan) (x y : Rat) (l : Layout) : List (Folder ContainerHead) → Layout
  | [] => l
  | c :: rest =>
    let (l, r, b) := p.placeContainer x y l c
    placeTop p (if p.leftToRight then r + gap else x) (if p.leftToRight then y else b + gap) l rest

end Plan

/-- The place of a port on the border of its container; it is the given one of the ports of its
kind there. -/
def portPlace (kind : ElementKind) (container : Box) (number : Nat) : Box :=
  let offset : Rat := 30 * number
  let y := Fraction.smaller (container.y + offset) (container.bottom - 12)
  match kind with
  | .portIn => ⟨container.x - 6, y, 12, 12⟩
  | .portOut => ⟨container.right - 6, y, 12, 12⟩
  | _ => ⟨Fraction.smaller (container.x + offset) (container.right - 12), container.y - 6, 12, 12⟩

/-- Places the ports of containers; the first list holds the elements before the second. -/
def placePorts (before : List Element) (l : Layout) : List Element → Layout
  | [] => l
  | e :: rest =>
    match if e.kind.isPort then e.containerPath.bind l.containers.get? else none with
    | none => placePorts (e :: before) l rest
    | some container =>
      let number :=
        before.countP (fun o => o.kind == e.kind && o.containerPath == e.containerPath) + 1
      placePorts (e :: before)
        { l with shapes := l.shapes.insert e.code (portPlace e.kind container number) } rest

namespace Diagram

/-- What the layout depends on. -/
def plan (d : Diagram) (dialect : Dialect) : Plan where
  sizes := d.elements.map fun _ e => e.size dialect
  layered := (d.elements.values.filter Element.isLayered).map Element.code
  links := d.links.map fun l => (l.source.code, l.target.code)
  groups := d.groups
  leftToRight := d.leftToRight

/-- The layout with the given corner. -/
def layout (d : Diagram) (dialect : Dialect) (x y : Rat) : Layout :=
  let p := d.plan dialect
  let contained := Folder.allMembers d.containers
  let roots := d.elements.keys.filter fun code => !contained.contains code
  let l : Layout :=
    if roots.isEmpty then p.placeTop x y {} d.containers
    else
      let (shapes, right, bottom) := p.arrange x y Keyed.empty roots
      p.placeTop (if p.leftToRight then right + Plan.gap else x)
        (if p.leftToRight then y else bottom + Plan.gap) { shapes := shapes } d.containers
  placePorts [] l d.elements.values

end Diagram
end Description
end UmlDraw
