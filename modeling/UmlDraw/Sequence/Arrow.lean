/-
# Arrows of messages

An arrow is written as an end mark, a left dressing, dashes, a right dressing and an end mark, of
which only the dashes are needed; a modifier in brackets may stand among the dashes.  The end
marks are `o` and `x`, the dressings `<`, `<<`, `>`, `>>` and one or two slashes or backslashes.

`Arrow.read` takes an arrow apart, `Arrow.reversed` looks at it from its other end, and
`Arrow.style` is its style in a drawing.
-/
import UmlDraw.Relation.Basic
import UmlDraw.Text.Scan

namespace UmlDraw
namespace Sequence

/-- The head at an end of an arrow. -/
inductive Head where
  | none
  | normal
  | async
  | cross
deriving DecidableEq, Repr

/-- The name of a head. -/
def Head.name : Head → String
  | none => "none"
  | normal => "normal"
  | async => "async"
  | cross => "cross"

/-- Which part of a head is drawn. -/
inductive HeadPart where
  | full
  | top
  | bottom
deriving DecidableEq, Repr

/-- The name of a part of a head. -/
def HeadPart.name : HeadPart → String
  | full => "full"
  | top => "top"
  | bottom => "bottom"

/-- An arrow from a start to an end. -/
structure Arrow where
  /-- The head at the start. -/
  startHead : Head := .none
  /-- The head at the end. -/
  endHead : Head := .normal
  /-- How the line is drawn. -/
  body : LineStyle := .solid
  /-- Which part of the heads is drawn. -/
  part : HeadPart := .full
  /-- A circle at the start. -/
  startCircle : Bool := false
  /-- A circle at the end. -/
  endCircle : Bool := false
  /-- The color, as it is written. -/
  color : Option String := Option.none
  /-- The number of dashes. -/
  length : Nat := 1
deriving DecidableEq

namespace Arrow

/-- The arrow points at its start only. -/
def isReverse (a : Arrow) : Bool :=
  a.startHead != .none && a.endHead == .none

/-- The arrow points at both ends. -/
def isBidirectional (a : Arrow) : Bool :=
  a.startHead != .none && a.endHead != .none

/-- The same arrow, looked at from its other end. -/
def reversed (a : Arrow) : Arrow :=
  { a with
    startHead := a.endHead, endHead := a.startHead,
    startCircle := a.endCircle, endCircle := a.startCircle }

/-- The dressings that stand left of the dashes, in the order in which they are tried. -/
def leftDressings : List (List Char) :=
  [['<', '<'], ['/', '/'], ['\\', '\\'], ['<'], ['/'], ['\\']]

/-- The dressings that stand right of the dashes, in the order in which they are tried. -/
def rightDressings : List (List Char) :=
  [['>', '>'], ['/', '/'], ['\\', '\\'], ['>'], ['/'], ['\\']]

/-- The first dressing that a text starts with, if any, and the rest of the text. -/
def takeDressing (dressings : List (List Char)) (s : List Char) : List Char × List Char :=
  match dressings.find? fun d => (Chars.after? d s).isSome with
  | some d => (d, s.drop d.length)
  | Option.none => ([], s)

/-- An end mark at the start of a text, if any, and the rest of the text. -/
def takeMark (s : List Char) : Option Char × List Char :=
  match s with
  | 'o' :: rest => (some 'o', rest)
  | 'x' :: rest => (some 'x', rest)
  | s => (Option.none, s)

/-- The parts of an arrow without modifiers. -/
structure Parts where
  /-- The end mark at the start. -/
  startMark : Option Char
  /-- The dressing at the start. -/
  left : List Char
  /-- What stands between the dressings. -/
  body : List Char
  /-- The dressing at the end. -/
  right : List Char
  /-- The end mark at the end. -/
  endMark : Option Char

/-- Takes an arrow without modifiers apart: first the end marks, then the dressings. -/
def parts (s : List Char) : Parts :=
  let (startMark, s) := takeMark s
  let (endMark, reversed) := takeMark s.reverse
  let (left, s) := takeDressing leftDressings reversed.reverse
  let (right, reversed) := takeDressing (rightDressings.map List.reverse) s.reverse
  ⟨startMark, left, reversed.reverse, right.reverse, endMark⟩

/-- The head that a dressing stands for. -/
def headOf (dressing : List Char) : Head :=
  if dressing.isEmpty then .none
  else if dressing == ['<', '<'] || dressing == ['>', '>'] then .async
  else .normal

/-- The part of a head that a dressing stands for: seen along the line, a backslash at the end and
a slash at the start draw the upper part. -/
def partOf (dressing : List Char) (atEnd : Bool) : HeadPart :=
  if dressing.contains '\\' then (if atEnd then .top else .bottom)
  else if dressing.contains '/' then (if atEnd then .bottom else .top)
  else .full

/-- The head at an end with the given mark and dressing. -/
def endHeadOf (mark : Option Char) (dressing : List Char) : Head :=
  if mark == some 'x' then .cross else headOf dressing

/-- A modifier within an arrow. -/
def modifier : Scan String := do
  let _ ← Scan.char '['
  let inner ← Scan.many (· != ']')
  let _ ← Scan.char ']'
  pure inner

/-- The arrow with the given parts and modifier items.  An arrow with neither heads nor dressings
points at its end. -/
def ofParts (p : Parts) (items : List ModifierItem) : Arrow :=
  let startHead := endHeadOf p.startMark p.left
  let endHead := endHeadOf p.endMark p.right
  let bare := p.left.isEmpty && p.right.isEmpty && startHead == .none && endHead == .none
  let length := p.body.count '-'
  { startHead := startHead
    endHead := if bare then .normal else endHead
    body := (ModifierItem.line? items).getD (if 2 ≤ length then .dotted else .solid)
    part :=
      if !p.right.isEmpty then partOf p.right true
      else if !p.left.isEmpty then partOf p.left false
      else .full
    startCircle := p.startMark == some 'o'
    endCircle := p.endMark == some 'o'
    color := ModifierItem.color? items
    length := length }

/-- The arrow that a text stands for; a text without dashes stands for the plain arrow. -/
def read (text : String) : Arrow :=
  if text.toList.contains '-' then
    let s := Chars.trim text.toList
    ofParts (parts (modifier.erase s)) ((modifier.occurrences s).flatMap ModifierItem.read)
  else {}

/-- The shape of a head in a drawing, and whether it is filled. -/
def headShape (h : Head) (circle : Bool) : String × Bool :=
  if circle then ("oval", false)
  else
    match h with
    | .normal => ("block", true)
    | .async => ("open", false)
    | .cross => ("cross", false)
    | .none => ("none", false)

/-- The entries of a drawing style for the line of an arrow. -/
def bodyEntries : LineStyle → List (String × StyleValue)
  | .dotted | .dashed => [("dashed", 1)]
  | .bold => [("strokeWidth", 2)]
  | .hidden => [("opacity", 0), ("textOpacity", 0)]
  | .solid => []

/-- The entries of a drawing style for the color of an arrow. -/
def colorEntries (a : Arrow) : List (String × StyleValue) :=
  match Color.normalize? a.color with
  | some c => [("strokeColor", c), ("fontColor", c)]
  | Option.none => []

/-- The entries of a drawing style for the label of a message to oneself. -/
def selfEntries (toSelf : Bool) : List (String × StyleValue) :=
  if toSelf then [("align", "left"), ("spacingLeft", 4)] else []

/-- The entries of a drawing style for the heads of an arrow. -/
def headEntries (a : Arrow) : List (String × StyleValue) :=
  let (stop, stopFilled) := headShape a.endHead a.endCircle
  let (start, startFilled) := headShape a.startHead a.startCircle
  [("html", 1), ("verticalAlign", "bottom"), ("rounded", 0), ("endArrow", stop),
    ("endFill", .flag stopFilled), ("startArrow", start), ("startFill", .flag startFilled)]

/-- The style of a message with this arrow. -/
def style (a : Arrow) (toSelf : Bool) : Style :=
  Style.of (a.headEntries ++ bodyEntries a.body ++ a.colorEntries ++ selfEntries toSelf)

end Arrow
end Sequence
end UmlDraw
