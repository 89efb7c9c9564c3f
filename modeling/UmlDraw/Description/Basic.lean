/-
# Use case and component diagrams

Two dialects describe boxes of a fixed vocabulary that stand in containers and are joined by links.
They share one model and differ in the words that declare an element, and in the kind that a mere
name stands for.
-/
import UmlDraw.Data.Keyed
import UmlDraw.Layout.Grouping
import UmlDraw.Relation.Link
import UmlDraw.Relation.Note

namespace UmlDraw
namespace Description

/-- The kinds of elements and containers. -/
inductive ElementKind where
  | actor
  | businessActor
  | useCase
  | businessUseCase
  | package
  | rectangle
  | frame
  | cloud
  | node
  | folder
  | database
  | component
  | boundary
  | control
  | entity
  | card
  | file
  | agent
  | storage
  | queue
  | stack
  | hexagon
  | person
  | label
  | collections
  | interface
  | artifact
  | port
  | portIn
  | portOut
deriving DecidableEq, Repr

namespace ElementKind

/-- The name of a kind. -/
def name : ElementKind → String
  | actor => "actor"
  | businessActor => "actor_business"
  | useCase => "usecase"
  | businessUseCase => "usecase_business"
  | package => "package"
  | rectangle => "rectangle"
  | frame => "frame"
  | cloud => "cloud"
  | node => "node"
  | folder => "folder"
  | database => "database"
  | component => "component"
  | boundary => "boundary"
  | control => "control"
  | entity => "entity_desc"
  | card => "card"
  | file => "file"
  | agent => "agent"
  | storage => "storage"
  | queue => "queue"
  | stack => "stack"
  | hexagon => "hexagon"
  | person => "person"
  | label => "label"
  | collections => "collections"
  | interface => "interface"
  | artifact => "artifact"
  | port => "port"
  | portIn => "portin"
  | portOut => "portout"

/-- A stick figure. -/
def isActor : ElementKind → Bool
  | actor => true
  | businessActor => true
  | _ => false

/-- An ellipse with the name of a use case. -/
def isUseCase : ElementKind → Bool
  | useCase => true
  | businessUseCase => true
  | _ => false

/-- A port, which stands on the border of its container. -/
def isPort : ElementKind → Bool
  | port => true
  | portIn => true
  | portOut => true
  | _ => false

/-- The words that open a container. -/
def containerWords : List (List String × ElementKind) := [
  (["package"], package), (["rectangle"], rectangle), (["frame"], frame), (["cloud"], cloud),
  (["node"], node), (["folder"], folder), (["database"], database), (["component"], component),
  (["card"], card), (["file"], file), (["hexagon"], hexagon), (["storage"], storage),
  (["queue"], queue), (["stack"], stack), (["agent"], agent), (["artifact"], artifact)]

end ElementKind

/-- The dialects. -/
inductive Dialect where
  | useCases
  | components
deriving DecidableEq, Repr

namespace Dialect

/-- The kind that a mere name stands for. -/
def defaultKind : Dialect → ElementKind
  | useCases => .actor
  | components => .component

/-- The words that declare an element. -/
def words : Dialect → List (List String × ElementKind)
  | useCases =>
    [(["actor/"], .businessActor), (["actor"], .actor), (["usecase/"], .businessUseCase),
      (["usecase"], .useCase), (["person"], .person)]
  | components =>
    [(["person"], .person), (["artifact"], .artifact), (["actor/"], .businessActor),
      (["actor"], .actor), (["folder"], .folder), (["card"], .card), (["file"], .file),
      (["package"], .package), (["rectangle"], .rectangle), (["hexagon"], .hexagon),
      (["label"], .label), (["node"], .node), (["frame"], .frame), (["cloud"], .cloud),
      (["database"], .database), (["queue"], .queue), (["stack"], .stack),
      (["storage"], .storage), (["agent"], .agent), (["usecase/"], .businessUseCase),
      (["usecase"], .useCase), (["component"], .component), (["boundary"], .boundary),
      (["control"], .control), (["entity"], .entity), (["interface"], .interface),
      (["circle"], .interface), (["collections"], .collections), (["port"], .port),
      (["portin"], .portIn), (["portout"], .portOut)]

end Dialect

/-- An element. -/
structure Element where
  code : String
  /-- The label. -/
  display : String
  kind : ElementKind
  /-- The color of the inside. -/
  color : Option String := none
  /-- The color of the border. -/
  lineColor : Option String := none
  stereotypes : List String := []
  /-- The path of the container around it. -/
  containerPath : Option String := none
deriving DecidableEq, Repr

namespace Element

/-- An element whose label is its code if no label is given. -/
def named (code display : String) (kind : ElementKind) : Element where
  code := code
  display := if display.isEmpty then code else display
  kind := kind

end Element

/-- What is known of a container but its place and contents. -/
structure ContainerHead where
  code : String
  name : String
  kind : ElementKind
  color : Option String
  stereotypes : List String
deriving DecidableEq, Repr

/-- A use case or component diagram. -/
structure Diagram where
  title : Option String := none
  /-- The elements, by code, in order of first mention. -/
  elements : Keyed Element := Keyed.empty
  links : List Link := []
  /-- The containers at the top. -/
  containers : List (Folder ContainerHead) := []
  notes : List Note := []
  /-- The layers run from left to right; else from top to bottom. -/
  leftToRight : Bool := false
  /-- The groups of elements that stand together. -/
  groups : List (List String) := []

end Description
end UmlDraw
