/-
# Running commands

A command reads the files that it names, and ends with a text for a file or for the standard output,
or with an error.  Where files come from is left open.
-/
import UmlDraw.CommandLine.Command
import UmlDraw.Conversion.Basic
import UmlDraw.Settings.Basic

namespace UmlDraw
namespace CommandLine

/-- Where texts come from. -/
structure Files (m : Type → Type) where
  /-- The contents of a file. -/
  read : String → m String
  /-- The standard input. -/
  input : m String

/-- How a command ends. -/
inductive Outcome where
  /-- A text for a file, or for the standard output if no file is named. -/
  | written (text : String) (file : Option String)
  | failed (e : ConversionError)
deriving DecidableEq

namespace Outcome

/-- The text with a line break at its end. -/
def closeLine (s : String) : String :=
  if s.toList.getLast? = some '\n' then s else s ++ "\n"

/-- What goes to the standard output. -/
def stdout : Outcome → String
  | written text none => closeLine text
  | _ => ""

/-- The file that is written, with its contents. -/
def file? : Outcome → Option (String × String)
  | written text (some path) => some (path, text)
  | _ => none

/-- What is said about a failure, if it is one that the program speaks of. -/
def complaint? : Outcome → Option String
  | written _ _ => none
  | failed e => e.message?.map fun s => "puml2drawio: " ++ s ++ "\n"

end Outcome

/-- The name of the file at the end of a path: the last part that is neither empty nor a single
point. -/
def fileName (path : String) : List Char :=
  let parts := (Chars.split '/' path.toList).filter fun part => !part.isEmpty && part != ['.']
  parts.getLast?.getD []

/-- The file of a path has a suffix: a point that is neither the first nor the last character of its
name. -/
def hasSuffix (path : String) : Bool :=
  let name := fileName path
  (((name.drop 1).reverse.drop 1).contains '.') && name.getLast? != some '.'

/-- The path of an output file, if one is named; a path without a suffix gets one. -/
def outputPath (extension : String) (output : Option String) : Option String :=
  (output.filter fun path => !path.isEmpty).map fun path =>
    if hasSuffix path then path else path ++ extension

namespace Command

variable {m : Type → Type} [Monad m]

/-- The text of a file with single line feeds between its lines; a hyphen stands for the standard
input. -/
def textOf (files : Files m) (path : String) : m String :=
  if path = "-" then files.input
  else do
    let s ← files.read path
    pure (String.ofList (Source.unifyBreaks s.toList))

/-- The outcome of a conversion. -/
def outcomeOf (settings : Settings) (output : Option String)
    (result : Except ConversionError Conversion) : Outcome :=
  match result with
  | .ok c => .written c.xml (outputPath settings.extension output)
  | .error e => .failed e

/-- Runs a command. -/
def run (files : Files m) (settings : Settings) (registry : Registry) : Command → m Outcome
  | convert input output inDocument inGroup groupId => do
    let source ← textOf files input
    let given := groupId.filter fun id => !id.isEmpty
    pure (outcomeOf settings output (registry.convert source
      { inDocument := settings.inDocument && inDocument
        inGroup := settings.inGroup && inGroup
        groupId := given.or (some settings.groupId)
        name := settings.diagramName }))
  | regenerate drawing source output => do
    let text ←
      match source.filter fun path => !path.isEmpty with
      | some path => some <$> textOf files path
      | none => pure none
    let xml ← textOf files drawing
    pure (outcomeOf settings output
      (registry.regenerate xml text { name := settings.diagramName }))
  | extract drawing => do
    let xml ← textOf files drawing
    pure (match Document.source? xml with
      | some text => .written text none
      | none => .failed (.sourceNotFound drawing))
  | types => pure (.written (Text.join "\n" registry.keys) none)

end Command
end CommandLine
end UmlDraw
