/-
# The program

Reads the settings, runs the command of the command line, and writes what comes out of it.
-/
import UmlDraw.CommandLine.Run

namespace UmlDraw
namespace Program

open CommandLine

/-- What is said about the use of the program. -/
def usage : String :=
  "usage: puml2drawio [-h] [-v] command ...\n\n" ++
  "  convert [-o FILE] [--no-document] [--no-group] [--group-id ID] input\n" ++
  "  regenerate [--source FILE] [-o FILE] drawing\n" ++
  "  extract drawing\n" ++
  "  types\n"

/-- The directory of the settings. -/
def settingsDirectory : IO String := do
  let base ←
    match ← IO.getEnv "XDG_CONFIG_HOME" with
    | some path => pure (some path)
    | none => pure ((← IO.getEnv "HOME").map fun home => home ++ "/.config")
  pure (base.getD "." ++ "/puml2drawio")

/-- The contents of a file, if it can be read. -/
def readFile? (path : String) : IO (Option String) := do
  try
    let s ← IO.FS.readFile path
    pure (some s)
  catch _ => pure none

/-- Reads the settings; without a file, the usual ones are written if that is possible. -/
def loadSettings : IO Settings := do
  let directory ← settingsDirectory
  let path := directory ++ "/settings.toml"
  let text ← readFile? path
  let settings := Settings.read text
  if text.isNone then
    try
      IO.FS.createDirAll directory
      IO.FS.writeFile path settings.render
    catch _ => pure ()
  pure settings

/-- The files of the machine. -/
def files : Files IO where
  read := fun path => IO.FS.readFile path
  input := do (← IO.getStdin).readToEnd

/-- Writes what a command ends with; the result is the exit status. -/
def finish (o : Outcome) : IO UInt32 := do
  IO.print o.stdout
  match o.file? with
  | some (path, text) => IO.FS.writeFile path text
  | none => pure ()
  match o, o.complaint? with
  | .written _ _, _ => pure 0
  | .failed _, some s =>
    IO.eprint s
    pure 1
  | .failed _, none => throw (IO.userError "the diagram cannot be drawn")

/-- Runs the program with the given arguments. -/
def run (args : List String) : IO UInt32 := do
  match Command.read args with
  | .error .help =>
    IO.print usage
    pure 0
  | .error .malformed =>
    IO.eprint usage
    pure 2
  | .ok command =>
    let settings ← loadSettings
    let outcome ← command.run files settings Registry.standard
    finish outcome

end Program
end UmlDraw

/-- Runs the program. -/
def main (args : List String) : IO UInt32 :=
  UmlDraw.Program.run args
