/-
# The looks of timing diagrams
-/
import UmlDraw.Drawing.Color
import UmlDraw.Timing.Basic

namespace UmlDraw
namespace Timing

/-- The style of the title. -/
def titleStyle : Style :=
  Style.of [("text", .bare), ("html", 1), ("align", "center"), ("verticalAlign", "middle"),
    ("fontStyle", 1), ("fontSize", 16), ("fillColor", "none"), ("strokeColor", "none")]

/-- The style of the label of a lane. -/
def playerStyle : Style :=
  Style.of [("text", .bare), ("html", 1), ("align", "right"), ("verticalAlign", "middle"),
    ("spacingRight", 8), ("fontStyle", 1), ("fontSize", 12), ("whiteSpace", "wrap"),
    ("fillColor", "none"), ("strokeColor", "none")]

/-- The style of a lane. -/
def laneStyle : Style :=
  Style.of [("html", 1), ("fillColor", "#FAFAFA"), ("strokeColor", "#E0E0E0"), ("opacity", 50)]

/-- The style of the label of a state. -/
def stateStyle : Style :=
  Style.of [("text", .bare), ("html", 1), ("align", "left"), ("verticalAlign", "bottom"),
    ("fontSize", 10), ("fillColor", "none"), ("strokeColor", "none")]

/-- The style of the time axis and its ticks. -/
def axisStyle : Style :=
  Style.of [("html", 1), ("endArrow", "none"), ("startArrow", "none"), ("strokeColor", "#666666")]

/-- The style of a time on the axis. -/
def timeStyle : Style :=
  Style.of [("text", .bare), ("html", 1), ("align", "center"), ("verticalAlign", "top"),
    ("fontSize", 9), ("fontColor", "#666666"), ("fillColor", "none"), ("strokeColor", "none")]

/-- The style of a constraint. -/
def constraintStyle : Style :=
  Style.of [("html", 1), ("startArrow", "block"), ("endArrow", "block"), ("startFill", 1),
    ("endFill", 1), ("strokeColor", "#D32F2F"), ("fontColor", "#D32F2F"), ("fontSize", 10),
    ("labelBackgroundColor", "#FFFFFF")]

/-- The style of a message. -/
def messageStyle : Style :=
  Style.of [("html", 1), ("endArrow", "block"), ("endFill", 1), ("strokeColor", "#1565C0"),
    ("fontSize", 10), ("labelBackgroundColor", "#FFFFFF")]

/-- The style of a waveform. -/
def waveStyle (color : Option String) : Style :=
  Style.of [("html", 1), ("endArrow", "none"), ("startArrow", "none"),
    ("strokeWidth", .number (.ratio (3 / 2))), ("strokeColor", .text (Color.getD color "#000000")),
    ("rounded", 0)]

/-- The entries for the shape of a bar. -/
def barEntries : PlayerKind → List (String × StyleValue)
  | .rectangle => [("fillColor", "#FFF3E0"), ("strokeColor", "#F57C00")]
  | _ =>
    [("shape", "hexagon"), ("perimeter", "hexagonPerimeter2"), ("size", 6), ("fixedSize", 1),
      ("fillColor", "#E1F5FE"), ("strokeColor", "#0288D1")]

/-- The style of a bar. -/
def barStyle (p : Player) (color : Option String) : Style :=
  ((Style.of (barEntries p.kind)).update [("html", 1), ("whiteSpace", "wrap"), ("fontSize", 10)])
    |>.update (Color.entry "fillColor" (color.or p.color))

/-- The style of a highlight. -/
def highlightStyle (color : Option String) : Style :=
  Style.of [("html", 1), ("fillColor", .text (Color.getD color "#FFD700")), ("strokeColor", "none"),
    ("opacity", 30), ("verticalLabelPosition", "bottom"), ("verticalAlign", "top"),
    ("fontSize", 10)]

end Timing
end UmlDraw
