/-
# The styles of a class diagram
-/
import UmlDraw.Class.Basic
import UmlDraw.Drawing.Color
import UmlDraw.Drawing.Style

namespace UmlDraw
namespace Class

/-- The font of the header of an entity. -/
def headerFont : EntityKind → Nat
  | .interface => 2
  | .abstract => 3
  | .object => 5
  | _ => 1

/-- The style of an entity with a header of the given height. -/
def entityStyle (e : Entity) (header : Nat) : Style :=
  (Style.of [("swimlane", .bare), ("fontStyle", .number (.int (headerFont e.kind))),
    ("align", "center"), ("verticalAlign", "top"), ("childLayout", "stackLayout"),
    ("horizontal", 1), ("startSize", .number (.int header)), ("horizontalStack", 0),
    ("resizeParent", 1), ("resizeParentMax", 0), ("resizeLast", 0), ("collapsible", 1),
    ("marginBottom", 0), ("whiteSpace", "wrap"), ("html", 1)]).update
    (Color.entry "fillColor" e.color ++ Color.entry "strokeColor" e.lineColor)

/-- The style of a row. -/
def rowStyle (font indent : Nat) (bordered : Bool) : Style :=
  Style.of [("text", .bare), ("strokeColor", .text (if bordered then "inherit" else "none")),
    ("fillColor", "none"), ("align", "left"), ("verticalAlign", "top"),
    ("spacingLeft", .number (.int (4 + indent))), ("spacingRight", 4), ("overflow", "hidden"),
    ("rotatable", 0), ("points", "[[0,0.5],[1,0.5]]"), ("portConstraint", "eastwest"),
    ("whiteSpace", "wrap"), ("html", 1), ("fontStyle", .number (.int font))]

/-- The entries that tell separators apart. -/
def separatorEntries : SeparatorStyle → List (String × StyleValue)
  | .solid => []
  | .dotted => [("dashed", 1), ("dashPattern", "1 2")]
  | .double => [("strokeWidth", 3)]
  | .thick => [("strokeWidth", 2)]

/-- The style of a separator. -/
def separatorStyle (s : SeparatorStyle) : Style :=
  (Style.of [("line", .bare), ("strokeWidth", 1), ("fillColor", "none"), ("align", "left"),
    ("verticalAlign", "middle"), ("spacingTop", .number (.int (-1))), ("spacingLeft", 3),
    ("spacingRight", 3), ("rotatable", 0), ("labelPosition", "right"), ("points", "[]"),
    ("portConstraint", "eastwest"), ("strokeColor", "inherit")]).update (separatorEntries s)

/-- The style of the frame of a package. -/
def packageStyle (color : Option String) : Style :=
  Style.of [("shape", "folder"), ("fontStyle", 1), ("tabWidth", 80), ("tabHeight", 20),
    ("tabPosition", "left"), ("html", 1), ("whiteSpace", "wrap"), ("verticalAlign", "top"),
    ("align", "left"), ("spacingLeft", 6), ("fillColor", Color.getD color "none"),
    ("strokeColor", "#666666"), ("fontSize", 12)]

/-- The entries for a small shape. -/
def smallEntries : EntityKind → List (String × StyleValue)
  | .diamond => [("rhombus", .bare), ("html", 1), ("fillColor", "#ffffff")]
  | .circle => [("ellipse", .bare), ("html", 1), ("aspect", "fixed")]
  | .lollipop =>
    [("ellipse", .bare), ("html", 1), ("aspect", "fixed"), ("fillColor", "none"),
      ("verticalLabelPosition", "bottom"), ("verticalAlign", "top")]
  | _ => []

/-- The style of a small shape. -/
def smallStyle (e : Entity) : Style :=
  (Style.of (smallEntries e.kind)).update (Color.entry "fillColor" e.color)

/-- The style of a connector from an entity to one that it extends or implements. -/
def inheritanceStyle (dashed : Bool) : Style :=
  (Style.of [("html", 1), ("rounded", 0), ("endArrow", "block"), ("endFill", 0),
    ("startArrow", "none"), ("startFill", 0)]).update (if dashed then [("dashed", 1)] else [])

/-- The style of the title. -/
def titleStyle : Style :=
  Style.of [("text", .bare), ("html", 1), ("align", "center"), ("verticalAlign", "middle"),
    ("fontStyle", 1), ("fontSize", 16)]

end Class
end UmlDraw
