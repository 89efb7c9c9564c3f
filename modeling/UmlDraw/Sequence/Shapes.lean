/-
# Shapes and texts of sequence diagrams

Sizes and styles of what is drawn, the room that labels need, and the form of message numbers.
-/
import UmlDraw.Relation.Drawing
import UmlDraw.Sequence.Basic

namespace UmlDraw
namespace Sequence

/-- The width of a text with several lines, with some room around it. -/
def textWidth (s : String) : Int :=
  Label.longest (Label.lines s) * 7 + 20

/-- The height of a text with several lines. -/
def textHeight (s : String) : Int :=
  (Label.lines s).length * 16

namespace ParticipantKind

/-- The fixed width and height of a header, if its shape has one, and whether its label stands
below it. -/
def fixedSize? : ParticipantKind → Option (Int × Int × Bool)
  | actor => some (40, 50, true)
  | boundary => some (50, 50, true)
  | control => some (50, 50, true)
  | entity => some (50, 50, true)
  | database => some (40, 60, true)
  | queue => some (60, 40, false)
  | _ => none

/-- The entries of the style of a header for its shape. -/
def shapeEntries : ParticipantKind → List (String × StyleValue)
  | actor => [("shape", "umlActor"), ("verticalLabelPosition", "bottom"), ("verticalAlign", "top")]
  | boundary =>
    [("shape", "umlBoundary"), ("verticalLabelPosition", "bottom"), ("verticalAlign", "top")]
  | control =>
    [("ellipse", .bare), ("shape", "umlControl"), ("verticalLabelPosition", "bottom"),
      ("verticalAlign", "top")]
  | entity =>
    [("ellipse", .bare), ("shape", "umlEntity"), ("verticalLabelPosition", "bottom"),
      ("verticalAlign", "top")]
  | database =>
    [("shape", "cylinder3"), ("size", 8), ("verticalLabelPosition", "bottom"),
      ("verticalAlign", "top")]
  | queue => [("shape", "cylinder3"), ("direction", "south"), ("size", 8), ("whiteSpace", "wrap")]
  | collections => [("shape", "mxgraph.basic.layered_rect"), ("dx", 6), ("whiteSpace", "wrap")]
  | participant | other _ => [("rounded", 1), ("whiteSpace", "wrap")]

end ParticipantKind

/-- The style of the header of a participant. -/
def headerStyle (p : Participant) : Style :=
  (Style.of p.kind.shapeEntries).update
    [("html", 1), ("fillColor", Color.getD p.color "#dae8fc"), ("strokeColor", "#6c8ebf")]

/-- The label of the header of a participant. -/
def headerLabel (p : Participant) : String :=
  match p.stereotype with
  | some s => if s.isEmpty then p.displayName else "«" ++ s ++ "»<br>" ++ p.displayName
  | none => p.displayName

/-- The style of a lifeline. -/
def lifelineStyle : Style :=
  Style.of [("html", 1), ("dashed", 1), ("dashPattern", "4 4"), ("strokeColor", "#999999"),
    ("endArrow", "none"), ("startArrow", "none")]

/-- The style of an activation bar. -/
def barStyle (color : Option String) : Style :=
  Style.of [("html", 1), ("fillColor", Color.getD color "#f5f5f5"), ("strokeColor", "#666666")]

/-- The style of a note of the given shape. -/
def noteStyle (shape : String) (color : Option String) : Style :=
  let s := Relation.noteStyle color
  if shape == "hnote" then
    s.update [("shape", "hexagon"), ("perimeter", "hexagonPerimeter2"),
      ("size", .number (.real 0.1))]
  else if shape == "rnote" then s.update [("shape", "rectangle")]
  else s

/-- The style of a divider. -/
def dividerStyle : Style :=
  Style.of [("html", 1), ("fillColor", "#eeeeee"), ("strokeColor", "#666666"),
    ("align", "center"), ("verticalAlign", "middle"), ("fontStyle", 1)]

/-- The style of the label of a delay. -/
def delayStyle : Style :=
  Style.of [("text", .bare), ("html", 1), ("align", "center"), ("verticalAlign", "middle"),
    ("fontStyle", 2), ("fillColor", "none"), ("strokeColor", "none")]

/-- The style of the frame of a fragment. -/
def frameStyle (color : Option String) : Style :=
  Style.of [("html", 1), ("fillColor", Color.getD color "none"), ("strokeColor", "#000000"),
    ("verticalAlign", "top"), ("align", "left"), ("spacingLeft", 66), ("fontStyle", 1)]

/-- The style of the tab of a fragment. -/
def tabStyle : Style :=
  Style.of [("shape", "card"), ("direction", "west"), ("size", 6), ("html", 1),
    ("fillColor", "#e6e6e6"), ("strokeColor", "#000000"), ("fontStyle", 1), ("align", "left"),
    ("spacingLeft", 4)]

/-- The style of the line between two sections of a fragment. -/
def sectionStyle : Style :=
  Style.of [("html", 1), ("dashed", 1), ("dashPattern", "6 4"), ("endArrow", "none"),
    ("startArrow", "none"), ("strokeColor", "#000000"), ("align", "left"),
    ("verticalAlign", "top"), ("labelPosition", "right")]

/-- The style of a reference. -/
def referenceStyle (color : Option String) : Style :=
  Style.of [("html", 1), ("whiteSpace", "wrap"), ("fillColor", Color.getD color "#f5f5f5"),
    ("strokeColor", "#000000")]

/-- The entries of the style of a box for its color. -/
def boxColorEntries (color : Option String) : List (String × StyleValue) :=
  match Color.normalize? color with
  | some c => [("fillColor", c), ("fillOpacity", 20)]
  | none => []

/-- The style of a box around headers. -/
def boxStyle (color : Option String) : Style :=
  (Style.of [("html", 1), ("dashed", 1), ("verticalAlign", "top"), ("fontStyle", 1),
    ("strokeColor", "#666666"), ("fillColor", "none")]).update (boxColorEntries color)

/-- The style of the mark at the end of a destroyed lifeline. -/
def destroyStyle : Style :=
  Style.of [("shape", "mxgraph.basic.x"), ("fillColor", "#FF0000"), ("strokeColor", "#FF0000"),
    ("html", 1)]

/-- The style of the title. -/
def titleStyle : Style :=
  Style.of [("text", .bare), ("html", 1), ("align", "center"), ("verticalAlign", "middle"),
    ("fontStyle", 1), ("fontSize", 16), ("fillColor", "none"), ("strokeColor", "none")]

/-- The first run of zeros or of number signs in a format: what stands before it, the run, and
what stands behind it. -/
def numberRun? : List Char → Option (List Char × List Char × List Char)
  | [] => none
  | c :: s =>
    if c == '0' || c == '#' then
      some ([], c :: s.takeWhile (· == c), s.dropWhile (· == c))
    else (numberRun? s).map fun (before, run, behind) => (c :: before, run, behind)

/-- An integer with zeros between its sign and its digits, up to a width. -/
def padded (n : Int) (width : Nat) : List Char :=
  let ds := Decimal.digits n.natAbs
  let room := if n < 0 then width - 1 else width
  Decimal.signed (n < 0) (List.replicate (room - ds.length) '0' ++ ds)

/-- The text of a message number.  In a format the first run of zeros, which gives the width, or of
number signs stands for the number; without one the number stands at the end. -/
def numberText (n : Int) (format : Option String) : String :=
  let plain := Decimal.integer n
  match format with
  | none => String.ofList plain
  | some f =>
    if f.isEmpty then String.ofList plain
    else
      match numberRun? f.toList with
      | none => String.ofList (f.toList ++ plain)
      | some (before, run, behind) =>
        let number := if run.head? == some '0' then padded n run.length else plain
        String.ofList (before ++ number ++ behind)

end Sequence
end UmlDraw
