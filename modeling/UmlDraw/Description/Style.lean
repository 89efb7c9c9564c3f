/-
# The styles of use case and component diagrams
-/
import UmlDraw.Description.Basic
import UmlDraw.Drawing.Color
import UmlDraw.Drawing.Style

namespace UmlDraw
namespace Description

/-- The entries for a shape whose label stands below it. -/
def labelBelow : List (String × StyleValue) :=
  [("verticalLabelPosition", "bottom"), ("verticalAlign", "top")]

/-- The entries for a folder. -/
def folderEntries : List (String × StyleValue) :=
  [("shape", "folder"), ("tabWidth", 80), ("tabHeight", 20), ("tabPosition", "left")]

/-- The entries for an actor. -/
def actorEntries : List (String × StyleValue) :=
  [("shape", "umlActor"), ("verticalLabelPosition", "bottom"), ("verticalAlign", "top"),
    ("outlineConnect", 0)]

/-- The entries for a port with its label on the given side. -/
def portEntries (labelPosition align : String) : List (String × StyleValue) :=
  [("rounded", 0), ("fillColor", "#000000"), ("labelPosition", labelPosition), ("align", align),
    ("verticalLabelPosition", "top"), ("verticalAlign", "bottom")]

/-- The entries for the shape of a kind. -/
def shapeEntries : ElementKind → List (String × StyleValue)
  | .actor => actorEntries
  | .businessActor => actorEntries
  | .useCase => [("ellipse", .bare)]
  | .businessUseCase => [("ellipse", .bare), ("strokeWidth", 2)]
  | .component => [("shape", "component"), ("align", "left"), ("spacingLeft", 36)]
  | .node => [("shape", "cube"), ("size", 10), ("flipH", 1)]
  | .cloud => [("shape", "cloud")]
  | .database => [("shape", "cylinder3"), ("size", 15)]
  | .storage => [("rounded", 1), ("arcSize", 40)]
  | .artifact => [("shape", "note"), ("size", 12)]
  | .folder => folderEntries
  | .package => folderEntries
  | .file => [("shape", "note"), ("size", 15)]
  | .frame => [("shape", "mxgraph.sysml.package"), ("labelX", 90)]
  | .rectangle => [("rounded", 0)]
  | .agent => [("rounded", 0)]
  | .interface => ("ellipse", .bare) :: ("aspect", .text "fixed") :: labelBelow
  | .person => [("rounded", 1), ("arcSize", 50)]
  | .boundary => ("shape", .text "umlBoundary") :: labelBelow
  | .control => ("shape", .text "umlControl") :: labelBelow
  | .entity => ("shape", .text "umlEntity") :: labelBelow
  | .hexagon => [("shape", "hexagon"), ("perimeter", "hexagonPerimeter2"), ("size", "0.25")]
  | .card => [("shape", "card"), ("size", 18)]
  | .queue => [("shape", "cylinder3"), ("direction", "south"), ("size", 12)]
  | .stack => [("shape", "process")]
  | .label => [("text", .bare), ("strokeColor", "none"), ("fillColor", "none")]
  | .collections => [("rounded", 0), ("shadow", 1)]
  | .port => portEntries "right" "left"
  | .portIn => portEntries "left" "right"
  | .portOut => portEntries "right" "left"

/-- The style of an element. -/
def elementStyle (e : Element) : Style :=
  (Style.of [("html", 1), ("whiteSpace", "wrap"), ("align", "center"),
    ("verticalAlign", "middle")]).update
    (shapeEntries e.kind ++ Color.entry "fillColor" e.color ++
      Color.entry "strokeColor" e.lineColor)

/-- The entries that a shape of a kind has as a container: the label stays at the top. -/
def containerEntries (kind : ElementKind) : List (String × StyleValue) :=
  (shapeEntries kind).filter fun (key, _) => key != "align" && key != "spacingLeft"

/-- The entries for the label of a frame. -/
def frameEntries : List (String × StyleValue) :=
  [("align", "left"), ("spacingLeft", 8)]

/-- The style of a container. -/
def containerStyle (c : ContainerHead) : Style :=
  (Style.of [("html", 1), ("whiteSpace", "wrap"), ("verticalAlign", "top"), ("fontStyle", 1),
    ("fillColor", "none"), ("strokeColor", "#666666"), ("fontSize", 12), ("container", 1),
    ("collapsible", 0)]).update
    (containerEntries c.kind ++ (if c.kind = .frame then frameEntries else []) ++
      Color.entry "fillColor" c.color)

/-- The style of the title. -/
def titleStyle : Style :=
  Style.of [("text", .bare), ("html", 1), ("align", "center"), ("verticalAlign", "middle"),
    ("fontStyle", 1), ("fontSize", 16)]

end Description
end UmlDraw
