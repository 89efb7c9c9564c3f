/-
# Relations between shapes

The vocabulary of links: how a line is drawn, what stands at its ends, which way it runs, and what
a modifier in brackets changes.
-/
import UmlDraw.Drawing.Color
import UmlDraw.Drawing.Style

namespace UmlDraw

/-- How a line is drawn. -/
inductive LineStyle where
  | solid
  | dashed
  | bold
  | dotted
  | hidden
deriving DecidableEq, Repr

namespace LineStyle

/-- The name of a line style. -/
def name : LineStyle → String
  | solid => "solid"
  | dashed => "dashed"
  | bold => "bold"
  | dotted => "dotted"
  | hidden => "hidden"

/-- All line styles. -/
def all : List LineStyle := [solid, dashed, bold, dotted, hidden]

/-- The line style with a name. -/
def ofName? (s : String) : Option LineStyle :=
  all.find? fun l => l.name == s

/-- The style of a line that is written with the given characters: a point makes it dashed, an
equality sign bold, a tilde dotted. -/
def ofBody (body : String) : LineStyle :=
  let s := body.toList
  if s.contains '.' then dashed
  else if s.contains '=' then bold
  else if s.contains '~' then dotted
  else solid

/-- The entries of a drawing style. -/
def entries : LineStyle → List (String × StyleValue)
  | solid => []
  | dashed => [("dashed", 1)]
  | dotted => [("dashed", 1), ("dashPattern", "1 2")]
  | bold => [("strokeWidth", 2)]
  | hidden => [("strokeColor", "none")]

end LineStyle

/-- What stands at an end of a link. -/
inductive EndMark where
  | none
  | extension
  | composition
  | aggregation
  | arrow
  | arrowTriangle
  | notNavigable
  | crowfoot
  | circleCrowfoot
  | doubleLine
  | circleLine
  | lineCrowfoot
  | circle
  | circleFill
  | circleConnect
  | parenthesis
  | square
  | plus
  | halfArrowUp
  | halfArrowDown
deriving DecidableEq, Repr

namespace EndMark

/-- The name of an end mark. -/
def name : EndMark → String
  | none => "none"
  | extension => "extends"
  | composition => "composition"
  | aggregation => "aggregation"
  | arrow => "arrow"
  | arrowTriangle => "arrow_triangle"
  | notNavigable => "not_navigable"
  | crowfoot => "crowfoot"
  | circleCrowfoot => "circle_crowfoot"
  | doubleLine => "double_line"
  | circleLine => "circle_line"
  | lineCrowfoot => "line_crowfoot"
  | circle => "circle"
  | circleFill => "circle_fill"
  | circleConnect => "circle_connect"
  | parenthesis => "parenthesis"
  | square => "square"
  | plus => "plus"
  | halfArrowUp => "half_arrow_up"
  | halfArrowDown => "half_arrow_down"

/-- The spellings at the left end of a link, in the order in which they are tried. -/
def leftSpellings : List (String × EndMark) := [
  ("<|", extension), ("<<", arrowTriangle), ("\x7do", circleCrowfoot), ("\x7d|", lineCrowfoot),
  ("\x7d", crowfoot), ("|o", circleLine), ("||", doubleLine), ("0)", circleConnect),
  ("0", circle), ("@", circleFill), (")", parenthesis), ("<", arrow), ("*", composition),
  ("o", aggregation), ("x", notNavigable), ("#", square), ("+", plus), ("^", extension)]

/-- The spellings at the right end of a link, in the order in which they are tried. -/
def rightSpellings : List (String × EndMark) := [
  ("|>", extension), (">>", arrowTriangle), ("o\x7b", circleCrowfoot), ("|\x7b", lineCrowfoot),
  ("\x7b", crowfoot), ("o|", circleLine), ("||", doubleLine), ("(0", circleConnect),
  ("0", circle), ("@", circleFill), ("(", parenthesis), (">", arrow), ("*", composition),
  ("o", aggregation), ("x", notNavigable), ("#", square), ("+", plus), ("^", extension),
  ("//", halfArrowDown), ("\\\\", halfArrowUp)]

/-- All end marks. -/
def all : List EndMark := [none, extension, composition, aggregation, arrow, arrowTriangle,
  notNavigable, crowfoot, circleCrowfoot, doubleLine, circleLine, lineCrowfoot, circle,
  circleFill, circleConnect, parenthesis, square, plus, halfArrowUp, halfArrowDown]

/-- The end mark with a name. -/
def ofName? (s : String) : Option EndMark :=
  all.find? fun m => m.name == s

/-- The shape that draws an end mark, and whether it is filled. -/
def shape? : EndMark → Option (String × Bool)
  | none => Option.none
  | extension => some ("block", false)
  | composition => some ("diamond", true)
  | aggregation => some ("diamond", false)
  | arrow => some ("open", true)
  | arrowTriangle => some ("block", true)
  | notNavigable => some ("cross", true)
  | crowfoot => some ("ERmany", false)
  | circleCrowfoot => some ("ERmandOne", false)
  | doubleLine => some ("ERmandOne", false)
  | circleLine => some ("ERzeroToOne", false)
  | lineCrowfoot => some ("ERoneToMany", false)
  | circle => some ("oval", false)
  | circleFill => some ("oval", true)
  | circleConnect => some ("oval", false)
  | parenthesis => some ("halfCircle", false)
  | square => some ("box", true)
  | plus => some ("cross", false)
  | halfArrowUp => some ("openThin", false)
  | halfArrowDown => some ("openThin", false)

/-- The entries of a drawing style for a mark at the end of a link. -/
def endEntries (m : EndMark) : List (String × StyleValue) :=
  match m.shape? with
  | Option.none => []
  | some (shape, filled) => [("endArrow", shape), ("endFill", .flag filled)]

/-- The entries of a drawing style for a mark at the start of a link. -/
def startEntries (m : EndMark) : List (String × StyleValue) :=
  match m.shape? with
  | Option.none => []
  | some (shape, filled) => [("startArrow", shape), ("startFill", .flag filled)]

end EndMark

namespace Relation

/-- The entries of the style of every connector of a link. -/
def plainEntries : List (String × StyleValue) :=
  [("html", 1), ("rounded", 0), ("endArrow", "none"), ("endFill", 0), ("startArrow", "none"),
    ("startFill", 0)]

/-- The style of the connector of a link. -/
def style (left right : EndMark) (line : LineStyle) (color : Option String) : Style :=
  Style.of (plainEntries ++ line.entries ++ right.endEntries ++ left.startEntries ++
    Color.entry "strokeColor" color)

end Relation

/-- One item of a modifier in brackets. -/
inductive ModifierItem where
  /-- A color, as it is written. -/
  | color (text : String)
  /-- A way to draw the line. -/
  | line (style : LineStyle)
deriving DecidableEq

namespace ModifierItem

/-- The item written by one part of a modifier; parts without a meaning give none. -/
def ofPart? (part : List Char) : Option ModifierItem :=
  let s := Chars.trim part
  let word := String.ofList (Chars.small s)
  if s.head? == some '#' then some (color (String.ofList s))
  else if word == "dashed" then some (line .dashed)
  else if word == "dotted" then some (line .dotted)
  else if word == "bold" || Chars.startsWithWord "thickness".toList s then some (line .bold)
  else if word == "hidden" then some (line .hidden)
  else none

/-- The items of a modifier, with or without its brackets. -/
def read (text : String) : List ModifierItem :=
  let isBracket (c : Char) : Bool := c == '[' || c == ']'
  let inner := Chars.dropAround isBracket text.toList
  (Chars.splitWhen (fun c => c == ',' || c == ';') inner).filterMap ofPart?

/-- The last color among some items. -/
def color? (items : List ModifierItem) : Option String :=
  items.foldl (fun found item =>
    match item with
    | color c => some c
    | line _ => found) none

/-- The last line style among some items. -/
def line? (items : List ModifierItem) : Option LineStyle :=
  items.foldl (fun found item =>
    match item with
    | line l => some l
    | color _ => found) none

end ModifierItem

/-- The way a link runs. -/
inductive Direction where
  | left
  | right
  | up
  | down
deriving DecidableEq, Repr

namespace Direction

/-- The name of a direction. -/
def name : Direction → String
  | left => "left"
  | right => "right"
  | up => "up"
  | down => "down"

/-- The words for directions, in small letters. -/
def words : List (String × Direction) := [
  ("l", left), ("le", left), ("left", left), ("r", right), ("ri", right), ("right", right),
  ("u", up), ("up", up), ("d", down), ("do", down), ("down", down)]

/-- The direction that a word in any case stands for. -/
def ofWord? (s : String) : Option Direction :=
  words.lookup (Text.small s)

end Direction

/-- Where a note stands. -/
inductive Side where
  | left
  | right
  | top
  | bottom
  /-- On top of what the note is about. -/
  | covering
  /-- A side written with unusual letters, in small letters. -/
  | other (spelling : String)
deriving DecidableEq, Repr

namespace Side

/-- The name of a side. -/
def name : Side → String
  | left => "left"
  | right => "right"
  | top => "top"
  | bottom => "bottom"
  | covering => "over"
  | other s => s

/-- The side that a word in small letters stands for. -/
def ofWord (s : String) : Side :=
  match [left, right, top, bottom, covering].find? fun side => side.name == s with
  | some side => side
  | none => other s

end Side

end UmlDraw
