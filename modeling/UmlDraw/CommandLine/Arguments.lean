/-
# The arguments of a command line

A command line names a command and gives it options and at most one operand.  An option has long
names, which may be cut short where they stay unique, and short names of one letter, which may be
written together.  Its value stands behind an equality sign, or directly behind the letter, or in
the next argument.  Two hyphens end the options.
-/
import UmlDraw.Text.Chars

namespace UmlDraw
namespace CommandLine

/-- An option. -/
structure OptionSpec where
  /-- The names, with their hyphens. -/
  names : List String
  /-- The option has a value. -/
  takesValue : Bool
  /-- The option asks for help. -/
  isHelp : Bool := false
deriving DecidableEq, Repr

/-- What an argument is. -/
inductive Argument where
  | operand (s : String)
  /-- Two hyphens. -/
  | separator
  /-- An option under a long or a short name, with the value that is written behind it. -/
  | option (spec : OptionSpec) (isLong : Bool) (value : Option (List Char))
  /-- What looks like an option but is none. -/
  | unknown
deriving DecidableEq, Repr

/-- Why a command line does not lead to a command. -/
inductive Refusal where
  | help
  | malformed
deriving DecidableEq, Repr

namespace Argument

/-- The option with a name. -/
def find? (specs : List OptionSpec) (name : List Char) : Option OptionSpec :=
  specs.find? fun spec => spec.names.contains (String.ofList name)

/-- A name with two hyphens. -/
def isLong (name : List Char) : Bool :=
  (Chars.after? ['-', '-'] name).isSome

/-- The text before and the text behind the first equality sign; a text without one has nothing
behind it. -/
def splitValue (s : List Char) : List Char × Option (List Char) :=
  match Chars.cut? ['='] s with
  | some (name, value) => (name, some value)
  | none => (s, none)

/-- The options that a name cut short may stand for. -/
def candidates (specs : List OptionSpec) (s : List Char) : List Argument :=
  if isLong s then
    let (name, value) := splitValue s
    specs.flatMap fun spec =>
      (spec.names.filter fun n => (Chars.after? name n.toList).isSome).map fun _ =>
        .option spec true value
  else
    let letter := s.take 2
    let value := s.drop 2
    specs.flatMap fun spec =>
      (spec.names.filter fun n => n.toList == letter).map fun _ =>
        .option spec false (some value)

/-- An option whose whole name is written. -/
def wholeName? (specs : List OptionSpec) (s : List Char) : Option Argument :=
  let (name, value) := splitValue s
  ((find? specs s).map fun spec => .option spec (isLong s) none).or
    ((find? specs name).bind fun spec => value.map fun v => .option spec (isLong name) (some v))

/-- A negative number. -/
def isNegativeNumber : List Char → Bool
  | '-' :: s =>
    match Chars.split '.' s with
    | [whole] => !whole.isEmpty && whole.all Letter.isDigit
    | [whole, places] => whole.all Letter.isDigit && !places.isEmpty && places.all Letter.isDigit
    | _ => false
  | _ => false

/-- What an argument is, given the options; a name that may stand for several options is
malformed. -/
def classify (specs : List OptionSpec) (arg : String) : Except Refusal Argument :=
  match arg.toList with
  | '-' :: c :: rest =>
    let s := '-' :: c :: rest
    match wholeName? specs s with
    | some a => .ok a
    | none =>
      match candidates specs s with
      | [a] => .ok a
      | _ :: _ :: _ => .error .malformed
      | [] =>
        .ok (if isNegativeNumber s || s.contains ' ' then .operand arg else .unknown)
  | _ => .ok (.operand arg)

/-- What arguments are; behind two hyphens all are operands. -/
def classifyAll (specs : List OptionSpec) : List String → Except Refusal (List Argument)
  | [] => pure []
  | arg :: rest =>
    if arg = "--" then pure (.separator :: rest.map .operand)
    else do
      let a ← classify specs arg
      let more ← classifyAll specs rest
      pure (a :: more)

end Argument

/-- What the arguments of a command say. -/
structure Given where
  /-- The options with their values, the last one first. -/
  options : List (OptionSpec × String) := []
  operand : Option String := none
  /-- Something is left that nothing takes. -/
  hasRest : Bool := false
deriving DecidableEq, Repr

namespace Given

/-- Takes the flags that are written together behind a hyphen.  If the last one has a value that
does not follow, the result names it. -/
def takeLetters (specs : List OptionSpec) (found : List (OptionSpec × String)) :
    List Char → Except Refusal (List (OptionSpec × String) × Option OptionSpec)
  | [] => .ok (found, none)
  | c :: rest =>
    match Argument.find? specs ['-', c] with
    | none => .error .malformed
    | some spec =>
      if spec.takesValue then
        if rest.isEmpty then .ok (found, some spec)
        else .ok ((spec, String.ofList rest) :: found, none)
      else takeLetters specs ((spec, "") :: found) rest

/-- The options that an argument gives, and the option that still waits for its value. -/
def takeOption (specs : List OptionSpec) (spec : OptionSpec) (isLong : Bool) :
    Option (List Char) → Except Refusal (List (OptionSpec × String) × Option OptionSpec)
  | none => .ok (if spec.takesValue then ([], some spec) else ([(spec, "")], none))
  | some value =>
    if spec.takesValue then .ok ([(spec, String.ofList value)], none)
    else if isLong || value.isEmpty then .error .malformed
    else takeLetters specs [(spec, "")] value

/-- Takes arguments one after the other.  Two hyphens are taken together with the operand beside
them, if the command has one.  A missing value counts before a wish for help in the same
argument. -/
def take (specs : List OptionSpec) (hasOperand : Bool) (g : Given) :
    List Argument → Except Refusal Given
  | [] => .ok g
  | .operand s :: .separator :: rest =>
    if hasOperand && g.operand.isNone then
      take specs hasOperand { g with operand := some s } rest
    else take specs hasOperand { g with hasRest := true } rest
  | .operand s :: rest =>
    if hasOperand && g.operand.isNone then
      take specs hasOperand { g with operand := some s } rest
    else take specs hasOperand { g with hasRest := true } rest
  | .separator :: rest =>
    take specs hasOperand
      { g with hasRest := g.hasRest || !hasOperand || g.operand.isSome || rest.isEmpty } rest
  | .unknown :: rest => take specs hasOperand { g with hasRest := true } rest
  | .option spec isLong value :: rest =>
    match takeOption specs spec isLong value with
    | .error e => .error e
    | .ok (found, waiting) =>
      let asksHelp := found.any fun (s, _) => s.isHelp
      let g := { g with options := found ++ g.options }
      match waiting, rest with
      | none, rest => if asksHelp then .error .help else take specs hasOperand g rest
      | some spec, .operand s :: rest =>
        if asksHelp then .error .help
        else take specs hasOperand { g with options := (spec, s) :: g.options } rest
      | some _, _ => .error .malformed

/-- Reads the arguments of a command. -/
def read (specs : List OptionSpec) (hasOperand : Bool) (args : List String) :
    Except Refusal Given := do
  let arguments ← Argument.classifyAll specs args
  take specs hasOperand {} arguments

/-- The value of an option that is given. -/
def value? (g : Given) (spec : OptionSpec) : Option String :=
  g.options.lookup spec

/-- The option is given. -/
def has (g : Given) (spec : OptionSpec) : Bool :=
  (g.value? spec).isSome

end Given
end CommandLine
end UmlDraw
