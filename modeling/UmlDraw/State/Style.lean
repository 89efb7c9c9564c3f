/-
# The looks of states and transitions

The styles of the shapes of a state diagram, and the labels of states.
-/
import UmlDraw.State.Basic

namespace UmlDraw
namespace State

namespace BorderStyle

/-- The entries of a drawing style. -/
def entries : BorderStyle → List (String × StyleValue)
  | dashed => [("dashed", 1)]
  | dotted => [("dashed", 1), ("dashPattern", "1 4")]
  | bold => [("strokeWidth", 2)]
  | other _ => []

end BorderStyle

/-- The entries for the colors and the border of an element. -/
def borderEntries (e : Element) : List (String × StyleValue) :=
  Color.entry "fillColor" e.color ++ Color.entry "strokeColor" e.border.color ++
    (e.border.style.map BorderStyle.entries).getD []

/-- The style of a state without descriptions. -/
def plainStyle (e : Element) : Style :=
  (Style.of [("rounded", 1), ("whiteSpace", "wrap"), ("html", 1), ("arcSize", 20)]).update
    (borderEntries e)

/-- The style of a state with descriptions. -/
def describedStyle (e : Element) : Style :=
  (Style.of [("shape", "swimlane"), ("rounded", 1), ("html", 1), ("fontStyle", 1),
    ("align", "center"), ("startSize", 26), ("arcSize", 10), ("swimlaneLine", 1)]).update
    (borderEntries e)

/-- The style of a composite state. -/
def compositeStyle (e : Element) : Style :=
  (Style.of [("rounded", 1), ("whiteSpace", "wrap"), ("html", 1), ("container", 1),
    ("collapsible", 0), ("verticalAlign", "top"), ("fontStyle", 1), ("arcSize", 10),
    ("fillColor", .text (Color.getD e.color "none"))]).update
    (Color.entry "strokeColor" e.border.color)

/-- The style of an ellipse. -/
def ellipseStyle (fill : String) (more : List (String × StyleValue)) : Style :=
  ((Style.of [("ellipse", .bare), ("fillColor", .text fill), ("strokeColor", "#000000")]).update
    more).update [("html", 1)]

/-- The style of the initial mark, and of the dot in the final one. -/
def dotStyle : Style :=
  ellipseStyle "#000000" []

/-- The style of the ring of the final mark. -/
def ringStyle : Style :=
  ellipseStyle "none" [("strokeWidth", 2)]

/-- The style of the mark for a history. -/
def historyStyle : Style :=
  ellipseStyle "none" [("fontStyle", 1), ("fontSize", 14)]

/-- The style of a choice. -/
def choiceStyle : Style :=
  Style.of [("rhombus", .bare), ("fillColor", "#FFFDE7"), ("strokeColor", "#000000"), ("html", 1)]

/-- The style of a bar. -/
def barStyle : Style :=
  Style.of [("fillColor", "#000000"), ("strokeColor", "#000000"), ("rounded", 1), ("arcSize", 50),
    ("html", 1)]

/-- The style of the descriptions of a state. -/
def descriptionStyle : Style :=
  Style.of [("html", 1), ("align", "left"), ("verticalAlign", "top"), ("overflow", "hidden"),
    ("whiteSpace", "wrap"), ("fillColor", "none"), ("strokeColor", "none"), ("spacingLeft", 4)]

/-- The style of the line between two regions. -/
def separatorStyle : Style :=
  Style.of [("html", 1), ("dashed", 1), ("endArrow", "none"), ("endFill", 0),
    ("strokeColor", "#999999")]

/-- The style of the title. -/
def titleStyle : Style :=
  Style.of [("text", .bare), ("html", 1), ("align", "center"), ("verticalAlign", "middle"),
    ("fontStyle", 1), ("fontSize", 16), ("fillColor", "none"), ("strokeColor", "none")]

/-- The entries of a drawing style for the line of a transition. -/
def lineEntries : LineStyle → List (String × StyleValue)
  | .solid => []
  | .dashed => [("dashed", 1)]
  | .dotted => [("dashed", 1), ("dashPattern", "1 4")]
  | .bold => [("strokeWidth", 2)]
  | .hidden => [("opacity", 0)]

/-- The entries of a drawing style for the marks at the ends of a transition. -/
def endEntries (t : Transition) : List (String × StyleValue) :=
  let cross : List (String × StyleValue) :=
    [("startArrow", "cross"), ("startFill", 0), ("startSize", 10)]
  let circle : List (String × StyleValue) := [("endArrow", "oval"), ("endFill", 0), ("endSize", 8)]
  (if t.crossStart then cross else []) ++ if t.circleEnd then circle else []

/-- The style of a transition. -/
def transitionStyle (t : Transition) : Style :=
  (Style.of [("html", 1), ("endArrow", "block"), ("endFill", 1)]).update
    ((t.stroke.line.map lineEntries).getD [] ++ Color.entry "strokeColor" t.stroke.color ++
      endEntries t)

namespace Element

/-- The label of a state: the stereotypes above the name. -/
def label (e : Element) : String :=
  if e.stereotypes.isEmpty then e.display
  else Text.join " " (e.stereotypes.map fun s => "«" ++ s ++ "»") ++ "<br>" ++ e.display

end Element
end State
end UmlDraw
