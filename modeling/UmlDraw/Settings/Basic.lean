/-
# Settings

What the command line takes from the settings file.  Entries that are missing or of the wrong type
keep their usual values, and a broken file counts as an empty one.
-/
import UmlDraw.Drawing.Document
import UmlDraw.Settings.Toml
import UmlDraw.Text.Capitals

namespace UmlDraw

/-- The settings. -/
structure Settings where
  /-- The name of the page of a document. -/
  diagramName : String := "PlantUML Import"
  /-- Drawings are whole documents. -/
  inDocument : Bool := true
  /-- Drawings lie in groups that carry their texts. -/
  inGroup : Bool := true
  /-- The beginning of the ids of groups. -/
  groupStem : String := "puml-grp"
  /-- What is appended to the names of files without a suffix. -/
  extension : String := ".drawio"
  /-- The least important messages that are logged. -/
  logLevel : String := "WARNING"
deriving DecidableEq, Repr

namespace Settings

/-- The id of a group. -/
def groupId (s : Settings) : String :=
  Document.numberedId s.groupStem 1

/-- A text of a table, or its usual value. -/
def textOf (table : Json) (key usual : String) : String :=
  match table.field? key with
  | some (.string s) => s
  | _ => usual

/-- A truth value of a table, or its usual value. -/
def truthOf (table : Json) (key : String) (usual : Bool) : Bool :=
  match table.field? key with
  | some (.bool b) => b
  | _ => usual

/-- The table with a name; the empty one if there is none. -/
def tableOf (data : Json) (name : String) : Json :=
  match data.field? name with
  | some (.object entries) => .object entries
  | _ => .object []

/-- The settings of structured data.  The level of messages counts in capitals. -/
def ofJson (data : Json) : Settings :=
  let usual : Settings := {}
  let output := tableOf data "output"
  let logging := tableOf data "logging"
  { diagramName := textOf output "diagram_name" usual.diagramName
    inDocument := truthOf output "wrap_in_document" usual.inDocument
    inGroup := truthOf output "wrap_in_group" usual.inGroup
    groupStem := textOf output "group_id_prefix" usual.groupStem
    extension := textOf output "extension" usual.extension
    logLevel := Capitals.ofString (textOf logging "level" usual.logLevel) }

/-- The settings of a file, if there is one. -/
def read (file : Option String) : Settings :=
  match file.bind Toml.Document.read? with
  | some d => ofJson d.toJson
  | none => {}

/-- The settings as they are written to a file. -/
def render (s : Settings) : String :=
  "[output]\n" ++
  "diagram_name = " ++ Toml.quote s.diagramName ++ "\n" ++
  "wrap_in_document = " ++ Toml.truth s.inDocument ++ "\n" ++
  "wrap_in_group = " ++ Toml.truth s.inGroup ++ "\n" ++
  "group_id_prefix = " ++ Toml.quote s.groupStem ++ "\n" ++
  "extension = " ++ Toml.quote s.extension ++ "\n" ++
  "\n" ++
  "[logging]\n" ++
  "level = " ++ Toml.quote s.logLevel ++ "\n"

end Settings
end UmlDraw
