/-
# Commands

The commands that a command line may give: convert a diagram text, draw a drawing again, show the
text that a drawing carries, or list the dialects.
-/
import UmlDraw.CommandLine.Arguments

namespace UmlDraw
namespace CommandLine

/-- A command. -/
inductive Command where
  /-- Converts a text. -/
  | convert (input : String) (output : Option String) (inDocument inGroup : Bool)
      (groupId : Option String)
  /-- Draws a drawing again, from the text of a file if one is named. -/
  | regenerate (drawing : String) (source output : Option String)
  /-- Shows the text that a drawing carries. -/
  | extract (drawing : String)
  /-- Lists the dialects. -/
  | types
deriving DecidableEq, Repr

namespace Command

/-- Asks for help. -/
def helpOption : OptionSpec := ⟨["-h", "--help"], false, true⟩

/-- Asks for more messages. -/
def verboseOption : OptionSpec := ⟨["-v", "--verbose"], false, false⟩

/-- The file to write to. -/
def outputOption : OptionSpec := ⟨["-o", "--output"], true, false⟩

/-- Leaves out the document. -/
def noDocumentOption : OptionSpec := ⟨["--no-document"], false, false⟩

/-- Leaves out the group. -/
def noGroupOption : OptionSpec := ⟨["--no-group"], false, false⟩

/-- The id of the group. -/
def groupIdOption : OptionSpec := ⟨["--group-id"], true, false⟩

/-- The file with a new text. -/
def sourceOption : OptionSpec := ⟨["--source"], true, false⟩

/-- Reads the arguments of a command that has an operand. -/
def withOperand (specs : List OptionSpec) (args : List String) :
    Except Refusal (Given × String) := do
  let g ← Given.read (helpOption :: specs) true args
  match g.hasRest, g.operand with
  | false, some s => pure (g, s)
  | _, _ => .error .malformed

/-- The command with a name and arguments. -/
def ofName (name : String) (args : List String) : Except Refusal Command :=
  if name = "convert" then do
    let (g, input) ←
      withOperand [outputOption, noDocumentOption, noGroupOption, groupIdOption] args
    pure (.convert input (g.value? outputOption) (!g.has noDocumentOption) (!g.has noGroupOption)
      (g.value? groupIdOption))
  else if name = "regenerate" then do
    let (g, drawing) ← withOperand [sourceOption, outputOption] args
    pure (.regenerate drawing (g.value? sourceOption) (g.value? outputOption))
  else if name = "extract" then do
    let (_, drawing) ← withOperand [] args
    pure (.extract drawing)
  else if name = "types" then do
    let g ← Given.read [helpOption] false args
    if g.hasRest then .error .malformed else pure .types
  else .error .malformed

/-- The options before the name of the command. -/
def generalOptions : List OptionSpec := [helpOption, verboseOption]

/-- Reads what stands before the name of the command, and then the command.  `isOdd` says that there
was something before that nothing takes. -/
def readFrom (isOdd : Bool) : List Argument → List String → Except Refusal Command
  | .operand _ :: _, name :: args => do
    let command ← ofName name args
    if isOdd then .error .malformed else pure command
  | .unknown :: rest, _ :: args => readFrom true rest args
  | .option spec isLong value :: rest, _ :: args =>
    match Given.takeOption generalOptions spec isLong value with
    | .error e => .error e
    | .ok (found, _) =>
      if found.any fun (s, _) => s.isHelp then .error .help else readFrom isOdd rest args
  | _, _ => .error .malformed

/-- The command of a command line. -/
def read (args : List String) : Except Refusal Command := do
  let arguments ← Argument.classifyAll generalOptions args
  readFrom false arguments args

end Command
end CommandLine
end UmlDraw
