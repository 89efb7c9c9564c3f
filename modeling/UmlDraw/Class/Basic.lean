/-
# Class diagrams

Classes, objects, maps and documents are all *entities*: boxes with a header and rows below it.  A
few kinds of entities are small shapes without rows.  Links join entities, packages hold them, and
notes speak of them.
-/
import UmlDraw.Class.Document
import UmlDraw.Class.Member
import UmlDraw.Data.Keyed
import UmlDraw.Layout.Grouping
import UmlDraw.Relation.Link
import UmlDraw.Relation.Note

namespace UmlDraw
namespace Class

/-- The kinds of entities. -/
inductive EntityKind where
  | ordinary
  | abstract
  | interface
  | annotated
  | enumeration
  | entity
  | protocol
  | struct
  | exception
  | metaclass
  | stereotype
  | dataclass
  | record
  | object
  | map
  | json
  | circle
  | diamond
  | lollipop
deriving DecidableEq, Repr

namespace EntityKind

/-- The name of a kind. -/
def name : EntityKind → String
  | ordinary => "class"
  | abstract => "abstract_class"
  | interface => "interface"
  | annotated => "annotation"
  | enumeration => "enum"
  | entity => "entity"
  | protocol => "protocol"
  | struct => "struct"
  | exception => "exception"
  | metaclass => "metaclass"
  | stereotype => "stereotype_type"
  | dataclass => "dataclass"
  | record => "record"
  | object => "object"
  | map => "map"
  | json => "json"
  | circle => "circle"
  | diamond => "diamond"
  | lollipop => "lollipop_full"

/-- The words that declare an entity, in the order in which they are tried. -/
def keywords : List (List String × EntityKind) := [
  (["abstract", "class"], abstract), (["static", "class"], ordinary), (["stereotype"], stereotype),
  (["annotation"], annotated), (["dataclass"], dataclass), (["exception"], exception),
  (["interface"], interface), (["metaclass"], metaclass), (["abstract"], abstract),
  (["protocol"], protocol), (["diamond"], diamond), (["circle"], circle), (["entity"], entity),
  (["object"], object), (["record"], record), (["struct"], struct), (["class"], ordinary),
  (["enum"], enumeration), (["json"], json), (["map"], map)]

/-- The entity is a small shape without rows. -/
def isSmall : EntityKind → Bool
  | circle => true
  | diamond => true
  | lollipop => true
  | _ => false

/-- The word above the name in the header. -/
def banner? : EntityKind → Option String
  | interface => some "interface"
  | enumeration => some "enumeration"
  | annotated => some "annotation"
  | entity => some "entity"
  | protocol => some "protocol"
  | struct => some "struct"
  | exception => some "exception"
  | metaclass => some "metaclass"
  | stereotype => some "stereotype"
  | dataclass => some "dataclass"
  | record => some "record"
  | _ => none

end EntityKind

/-- How a line between members is drawn. -/
inductive SeparatorStyle where
  | solid
  | dotted
  | double
  | thick
deriving DecidableEq, Repr

namespace SeparatorStyle

/-- The name of a style. -/
def name : SeparatorStyle → String
  | solid => "solid"
  | dotted => "dotted"
  | double => "double"
  | thick => "thick"

/-- The spellings of separators. -/
def spellings : List (String × SeparatorStyle) :=
  [("--", solid), ("..", dotted), ("==", double), ("__", thick)]

end SeparatorStyle

/-- One line of a class body. -/
inductive BodyLine where
  | member (m : Member)
  | separator (label : String) (style : SeparatorStyle)
deriving DecidableEq, Repr

/-- One row of a map. -/
inductive MapEntry where
  /-- A key with a value. -/
  | value (key value : String)
  /-- A key with a link to an entity. -/
  | link (key target : String)
deriving DecidableEq, Repr

/-- An entity. -/
structure Entity where
  /-- The code. -/
  code : String
  /-- The name in the header. -/
  display : String
  kind : EntityKind := .ordinary
  /-- The parameters of a generic class. -/
  generics : Option String := none
  stereotypes : List String := []
  /-- The color of the inside. -/
  color : Option String := none
  /-- The color of the border. -/
  lineColor : Option String := none
  /-- The codes of the classes it extends. -/
  parents : List String := []
  /-- The codes of the interfaces it implements. -/
  interfaces : List String := []
  /-- The lines of the body. -/
  members : List BodyLine := []
  /-- The path of the package around it. -/
  packagePath : Option String := none
  /-- The rows of a map. -/
  entries : List MapEntry := []
  /-- The body of a document. -/
  document : Option Document := none

/-- What is known of a package but its place and contents. -/
structure PackageHead where
  name : String
  color : Option String
deriving DecidableEq, Repr

/-- What members may be hidden; for each kind also only where there are none of it. -/
inductive Hidden where
  | members
  | methods
  | fields
  | emptyMembers
  | emptyMethods
  | emptyFields
deriving DecidableEq, Repr

namespace Hidden

/-- The name of what is hidden. -/
def name : Hidden → String
  | members => "members"
  | methods => "methods"
  | fields => "fields"
  | emptyMembers => "empty members"
  | emptyMethods => "empty methods"
  | emptyFields => "empty fields"

/-- What a word hides. -/
def ofWord? (word : String) : Option Hidden :=
  if word == "members" then some members
  else if word == "methods" then some methods
  else if word == "fields" || word == "attributes" then some fields
  else none

/-- Only where there are none. -/
def whereEmpty : Hidden → Hidden
  | members => emptyMembers
  | methods => emptyMethods
  | fields => emptyFields
  | h => h

end Hidden

/-- A class diagram. -/
structure Diagram where
  title : Option String := none
  /-- The entities, by code, in order of first mention. -/
  entities : Keyed Entity := Keyed.empty
  links : List Link := []
  /-- The packages at the top. -/
  packages : List (Folder PackageHead) := []
  notes : List Note := []
  /-- The groups of entities that stand together. -/
  groups : List (List String) := []
  /-- What is hidden of an entity or, with a star as key, of all entities. -/
  hidden : Keyed (List Hidden) := Keyed.empty
  /-- The codes of entities that are not drawn. -/
  removed : List String := []

end Class
end UmlDraw
