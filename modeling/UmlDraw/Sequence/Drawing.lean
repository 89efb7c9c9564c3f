/-
# Drawing a sequence diagram

The elements are drawn one after the other on a sheet.  A fragment draws its elements first and
its frame around them afterwards, but the frame is put behind the frames of the fragments inside.
In the end the activations that are still open are closed, and headers, lifelines and boxes are
drawn.
-/
import UmlDraw.Sequence.Sheet

namespace UmlDraw
namespace Sequence

/-- The codes that an element names, if it holds no elements of its own. -/
def plainCodes : Element → List String
  | .message m => m.source :: m.target :: m.multicast
  | .border m => [m.participant]
  | .life e => [e.participant]
  | .note n => n.participants
  | .reference r => r.participants
  | _ => []

mutual

/-- The codes that an element names. -/
def codesOf : Element → List String
  | .fragment ⟨_, _, _, sections⟩ => codesOfSections sections
  | e => plainCodes e

/-- The codes that the elements of sections name. -/
def codesOfSections : List (Section Element) → List String
  | [] => []
  | ⟨_, elements⟩ :: rest => codesOfAll elements ++ codesOfSections rest

/-- The codes that elements name. -/
def codesOfAll : List Element → List String
  | [] => []
  | e :: rest => codesOf e ++ codesOfAll rest

end

namespace Sheet

/-- A condition in brackets. -/
def bracketed (condition : String) : String :=
  if condition.isEmpty then "" else "[" ++ condition ++ "]"

/-- Draws an element that holds no elements of its own. -/
def plain (s : Sheet) : Element → Sheet
  | .message m => s.message m
  | .border m => s.border m
  | .life e => s.life e
  | .fragment _ => s
  | .note n => s.note n
  | .divider label => s.divider label
  | .delay label => s.delay label
  | .space size => (s.advance (.int (size.getD 20))).forget
  | .reference r => s.reference r
  | .autoNumber a => s.renumber a

/-- The left and right side of the frame of a fragment. -/
def frameSides (s : Sheet) (depth : Nat) (label : String) (codes : List String) :
    Number × Number :=
  let (left, right) := s.span codes (.int (max 10 (30 - 8 * (depth : Int))))
  (left, Number.max right (left + 60 + .int (textWidth label)))

/-- Draws the frame of a fragment behind the frames that were drawn since `place`: the frame, its
tab, and a line between neighbouring sections. -/
def frame (s : Sheet) (f : Fragment Element) (place : Nat) (top bottom : Number)
    (sides : Number × Number) (lines : List (Number × String)) : Sheet :=
  let (left, right) := sides
  let isGroup := f.kind == "group"
  let kind := if isGroup && !f.label.isEmpty then f.label else f.kind
  let condition :=
    if isGroup then "" else bracketed ((f.sections.head?.map Section.condition).getD f.label)
  let inner := { s with layers := { s.layers with frames := [] } }
  let inner := inner.shape .frames condition (frameStyle f.color) left top (right - left)
    (bottom - top)
  let inner := inner.shape .frames kind tabStyle left top (.int (max 60 (textWidth kind))) 20
  let inner := lines.foldl (fun t (y, condition) =>
    t.line .frames (bracketed condition) sectionStyle ⟨left, y⟩ ⟨right, y⟩ []) inner
  let frames := s.layers.frames.take place ++ inner.layers.frames ++ s.layers.frames.drop place
  { inner with layers := { inner.layers with frames := frames } }

mutual

/-- Draws an element; `depth` is the number of fragments around it. -/
def draw (depth : Nat) (s : Sheet) : Element → Sheet
  | .fragment ⟨kind, label, color, sections⟩ =>
    let place := s.layers.frames.length
    let top := s.cursor
    let (s, lines) := drawSections (depth + 1) ((s.advance 30).forget) true sections
    let s := s.advance 10
    let bottom := s.cursor
    let s := s.advance 10
    let codes := (codesOfSections sections).filter fun c => !c.isEmpty
    s.frame ⟨kind, label, color, sections⟩ place top bottom (s.frameSides depth label codes) lines
  | e => s.plain e

/-- Draws the elements of sections; the second result holds the heights and conditions of the
lines between them. -/
def drawSections (depth : Nat) (s : Sheet) (isFirst : Bool) :
    List (Section Element) → Sheet × List (Number × String)
  | [] => (s, [])
  | ⟨condition, elements⟩ :: rest =>
    let line := if isFirst then [] else [(s.cursor, condition)]
    let s := if isFirst then s else s.advance 20
    let (s, lines) := drawSections depth (drawAll depth s elements) false rest
    (s, line ++ lines)

/-- Draws elements one after the other. -/
def drawAll (depth : Nat) (s : Sheet) : List Element → Sheet
  | [] => s
  | e :: rest => drawAll depth (draw depth s e) rest

end

/-- Draws the header and the lifeline of a participant; the second result is how far down it
reaches. -/
def finishColumn (hideFootbox : Bool) (endY : Number) (s : Sheet) (c : Column) : Sheet × Number :=
  let p := c.participant
  let bottom := c.endY.getD endY
  let s := s.shape .shapes (headerLabel p) (headerStyle p) c.left c.headerY c.width c.height
  let s := s.line .lifelines "" lifelineStyle ⟨c.center, c.lifelineTop⟩ ⟨c.center, bottom⟩ []
  if c.endY.isSome || hideFootbox then (s, endY)
  else
    (s.shape .shapes (headerLabel p) (headerStyle p) c.left bottom c.width c.height,
      bottom + .int c.height + .int (if c.labelBelow then 20 else 0))

/-- Draws a box around headers; one without participants is not drawn. -/
def box (footer : Number) (s : Sheet) (b : Box) : Sheet :=
  if b.participants.isEmpty then s
  else
    let (left, right) := s.span b.participants 10
    let top : Number := .int (s.headerTop - 20)
    s.shape .boxes b.title (boxStyle b.color) left top (right - left) (footer - top + 10)

/-- Closes the open activations and draws headers, lifelines and boxes. -/
def finish (s : Sheet) (d : Diagram) : Sheet :=
  let endY := s.cursor + 10
  let s := s.columns.foldl (fun s c => s.deactivateAll c.participant.code endY) s
  let (s, footer) := s.columns.foldl (fun (s, footer) c =>
    let (s, y) := s.finishColumn d.hideFootbox endY c
    (s, Number.max footer y)) (s, endY)
  d.boxes.foldl (box footer) s

/-- The title of a diagram, if it has one that is not empty. -/
def titleOf (d : Diagram) : Option String :=
  d.title.filter fun t => !t.isEmpty

/-- The empty sheet of a diagram: columns, and the title. -/
def start (d : Diagram) (parent : String) : Sheet :=
  let top : Int := 20 + (if (titleOf d).isSome then 30 else 0) + (if d.boxes.isEmpty then 0 else 20)
  let participants := d.columns
  let codes := participants.map Participant.code
  let needs := (messagesOfAll d.elements).filterMap (Need.of? codes)
  let columns := placeColumns needs top 0 none participants
  let (left, right) := borders needs columns
  let header :=
    match columns.map Column.fullHeight with
    | [] => 40
    | h :: hs => hs.foldl max h
  let s : Sheet :=
    { parent := parent, columns := columns, headerTop := top, leftEdge := left, rightEdge := right
      bars := codes.map fun c => (c, []), cursor := .int (top + header + 30) }
  match titleOf d with
  | some t => s.shape .shapes t titleStyle left (.real 10.0) (Number.max 300 (right - left)) 30
  | none => s

end Sheet

namespace Diagram

/-- The finished sheet of a diagram. -/
def sheet (d : Diagram) (parent : String) : Sheet :=
  (Sheet.drawAll 0 (Sheet.start d parent) d.elements).finish d

/-- The cells that draw a sequence diagram in the given parent, unless the places of some of them
cannot be computed. -/
def draw (d : Diagram) (parent : String) : Except NumberError (List Cell) :=
  let s := d.sheet parent
  Fault.check s.fault s.layers.all

end Diagram

end Sequence
end UmlDraw
