/-
# The styles of an activity diagram
-/
import UmlDraw.Drawing.Color
import UmlDraw.Drawing.Style

namespace UmlDraw
namespace Activity

/-- The style of an action. -/
def actionStyle (color : Option String) : Style :=
  (Style.of [("rounded", 1), ("whiteSpace", "wrap"), ("html", 1), ("align", "center"),
    ("verticalAlign", "middle")]).update (Color.entry "fillColor" color)

/-- The style of a circle with an inside and a border. -/
def circleStyle (fill stroke : String) (width : List (String × StyleValue)) : Style :=
  (Style.of [("shape", "ellipse"), ("fillColor", fill), ("strokeColor", stroke)]).update
    (width ++ [("html", 1), ("resizable", 0)])

/-- The style of an initial node, and of the inner circle of a final one. -/
def startStyle : Style := circleStyle "#000000" "#000000" []

/-- The style of the outer circle of a final node. -/
def finalStyle : Style := circleStyle "none" "#000000" [("strokeWidth", 2)]

/-- The style of the place where the flow ends without a final node. -/
def killStyle : Style := circleStyle "#FF0000" "#FF0000" []

/-- The style of a place where branches meet. -/
def mergeStyle : Style :=
  Style.of [("shape", "rhombus"), ("fillColor", "#FFFDE7"), ("strokeColor", "#000000"),
    ("html", 1)]

/-- The style of the bars of a fork. -/
def barStyle : Style :=
  Style.of [("rounded", 1), ("fillColor", "#444444"), ("strokeColor", "#444444"), ("html", 1),
    ("arcSize", 50)]

/-- The style of the title. -/
def titleStyle : Style :=
  Style.of [("text", .bare), ("html", 1), ("fontSize", 14), ("fontStyle", 1), ("align", "left"),
    ("verticalAlign", "middle"), ("strokeColor", "none"), ("fillColor", "none")]

/-- The style of a decision. -/
def diamondStyle (color : Option String) : Style :=
  Style.of [("shape", "rhombus"), ("whiteSpace", "wrap"), ("html", 1),
    ("fillColor", Color.getD color "#FFFDE7"), ("strokeColor", "#000000")]

/-- The style of a partition. -/
def partitionStyle (color : Option String) : Style :=
  Style.of [("rounded", 0), ("whiteSpace", "wrap"), ("html", 1), ("verticalAlign", "top"),
    ("fontStyle", 1), ("fillColor", Color.getD color "none"), ("strokeColor", "#666666")]

/-- The style of a note. -/
def noteStyle (color : Option String) : Style :=
  Style.of [("shape", "note"), ("whiteSpace", "wrap"), ("html", 1), ("size", 14),
    ("verticalAlign", "top"), ("align", "left"), ("spacingLeft", 4),
    ("fillColor", Color.getD color "#FFF2CC"), ("strokeColor", "#D6B656")]

/-- The style of a lane. -/
def laneStyle (color : Option String) : Style :=
  Style.of [("shape", "swimlane"), ("startSize", 30), ("html", 1), ("collapsible", 0),
    ("fontStyle", 1), ("fillColor", Color.getD color "none"), ("swimlaneLine", 1)]

/-- The style of a connector. -/
def flowStyle (color : Option String) (dashed : Bool) : Style :=
  (Style.of [("html", 1), ("rounded", 0), ("endArrow", "block"), ("endFill", 1)]).update
    (Color.entry "strokeColor" color ++ (if dashed then [("dashed", 1)] else []))

/-- The style of a connector back to the start of a loop. -/
def loopBackStyle : Style :=
  Style.of [("html", 1), ("rounded", 1), ("endArrow", "block"), ("endFill", 1),
    ("edgeStyle", "orthogonalEdgeStyle"), ("curved", 1),
    ("exitX", 0), ("exitY", "0.5"), ("exitDx", 0), ("exitDy", 0),
    ("entryX", 0), ("entryY", "0.5"), ("entryDx", 0), ("entryDy", 0)]

end Activity
end UmlDraw
