/-
# Columns of a sequence diagram

Every participant has a column.  Neighbouring columns stand far enough apart for the labels of the
messages between them and for the messages of the left one to itself.
-/
import UmlDraw.Sequence.Shapes

namespace UmlDraw
namespace Sequence

/-- The column of a participant. -/
structure Column where
  /-- The participant. -/
  participant : Participant
  /-- The middle of the column, where the lifeline runs. -/
  center : Number
  /-- The width of the header. -/
  width : Int
  /-- The height of the header. -/
  height : Int
  /-- The label stands below the header. -/
  labelBelow : Bool
  /-- The upper side of the header. -/
  headerY : Number
  /-- Where the lifeline ends, if it ends early. -/
  endY : Option Number := none

namespace Column

/-- The height of the header with a label below it. -/
def fullHeight (c : Column) : Int :=
  c.height + (if c.labelBelow then 20 else 0)

/-- The upper end of the lifeline. -/
def lifelineTop (c : Column) : Number :=
  c.headerY + c.height + .int (if c.labelBelow then 20 else 0)

/-- The left side of the header. -/
def left (c : Column) : Number :=
  c.center - Number.half c.width

/-- The right side of the header. -/
def right (c : Column) : Number :=
  c.center + Number.half c.width

end Column

mutual

/-- The messages of an element, in order. -/
def messagesOf : Element → List Message
  | .message m => [m]
  | .fragment ⟨_, _, _, sections⟩ => messagesOfSections sections
  | _ => []

/-- The messages of sections, in order. -/
def messagesOfSections : List (Section Element) → List Message
  | [] => []
  | ⟨_, elements⟩ :: rest => messagesOfAll elements ++ messagesOfSections rest

/-- The messages of elements, in order. -/
def messagesOfAll : List Element → List Message
  | [] => []
  | e :: rest => messagesOf e ++ messagesOfAll rest

end

/-- The room that a message asks for: the place of a column, whether it is for messages of that
column to itself, and a width. -/
structure Need where
  /-- The place of the column; the room is to its right. -/
  column : Nat
  /-- The message goes back to its own column. -/
  toSelf : Bool
  /-- The width. -/
  width : Int

/-- The room that a message asks for, if it joins a column with itself or with its neighbour. -/
def Need.of? (codes : List String) (m : Message) : Option Need :=
  if m.isReturn || !codes.contains m.source || !codes.contains m.target then none
  else
    let a := codes.idxOf m.source
    let b := codes.idxOf m.target
    let width := if m.label.isEmpty then 0 else textWidth m.label
    if a == b then some ⟨a, true, width + 30⟩
    else if a == b + 1 || b == a + 1 then some ⟨min a b, false, width⟩
    else none

/-- The greatest width asked for at a column. -/
def room (needs : List Need) (column : Nat) (toSelf : Bool) : Int :=
  needs.foldl (fun w n => if n.column == column && n.toSelf == toSelf then max w n.width else w) 0

/-- The width and height of the header of a participant, and whether its label stands below. -/
def headerSize (p : Participant) : Int × Int × Bool :=
  (p.kind.fixedSize?).getD (max 120 (textWidth p.displayName), 40, false)

/-- The column of a participant behind the given column, or the first one. -/
def placeColumn (needs : List Need) (top : Int) (index : Nat) (before : Option Column)
    (p : Participant) : Column :=
  let (w, h, below) := headerSize p
  let center :=
    match before with
    | none => .int 40 + Number.half (.int (max w (if below then textWidth p.displayName else w)))
    | some prev =>
      let spacing := Number.half prev.width + .int 40 + Number.half w
      let spacing := Number.max spacing (room needs (index - 1) false)
      prev.center + Number.max spacing (room needs (index - 1) true)
  { participant := p, center := center, width := w, height := h, labelBelow := below,
    headerY := top }

/-- The columns of participants, from left to right. -/
def placeColumns (needs : List Need) (top : Int) :
    Nat → Option Column → List Participant → List Column
  | _, _, [] => []
  | index, before, p :: rest =>
    let c := placeColumn needs top index before p
    c :: placeColumns needs top (index + 1) (some c) rest

/-- Where columns begin and end, with room for messages at the borders. -/
def borders (needs : List Need) (columns : List Column) : Number × Number :=
  match columns with
  | [] => (Number.max 40 0, 160)
  | first :: rest =>
    let reach (i : Nat) (c : Column) : Number :=
      c.center + Number.max (Number.half c.width) (room needs i true)
    let rights := columns.mapIdx reach
    (Number.max (Number.minimum first.left (rest.map Column.left) - .real 30.0) 0,
      Number.maximum (reach 0 first) (rights.drop 1) + .real 30.0)

end Sequence
end UmlDraw
