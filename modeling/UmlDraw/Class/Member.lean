/-
# Members

A member of a class is a field or a method.  `Member.read` takes a line of a class body apart, and
`Member.label` puts it together again as it is drawn.
-/
import UmlDraw.Source.Token

namespace UmlDraw
namespace Class

/-- Who may use a member. -/
inductive Visibility where
  | everyone
  | owner
  | heirs
  | package
deriving DecidableEq, Repr

namespace Visibility

/-- The name of a visibility. -/
def name : Visibility → String
  | everyone => "public"
  | owner => "private"
  | heirs => "protected"
  | package => "package"

/-- The sign of a visibility. -/
def sign : Visibility → Char
  | everyone => '+'
  | owner => '-'
  | heirs => '#'
  | package => '~'

/-- All visibilities. -/
def all : List Visibility := [everyone, owner, heirs, package]

/-- The visibility with a sign. -/
def ofSign? (c : Char) : Option Visibility :=
  all.find? fun v => v.sign == c

end Visibility

/-- A member. -/
structure Member where
  /-- The line as it is written. -/
  raw : String
  /-- The name. -/
  name : String
  /-- The type of a field, or what a method returns. -/
  result : Option String
  /-- Who may use the member, if the line says so. -/
  visibility : Option Visibility
  /-- The member belongs to the class and not to its objects. -/
  isStatic : Bool
  /-- The member is left to the heirs. -/
  isAbstract : Bool
  /-- What stands between the parentheses of a method; a field has none. -/
  parameters : Option String
deriving DecidableEq, Repr

namespace Member

/-- The member is a method. -/
def isMethod (m : Member) : Bool :=
  m.parameters.isSome

/-- A classifier in braces; the result is its word in small letters. -/
def classifier : Scan String := do
  let _ ← Scan.char '\x7b'
  let word ← Scan.oneOf ["static", "classifier", "abstract", "field", "method"]
  let _ ← Scan.char '\x7d'
  Scan.blanks
  pure word

/-- A classifier that says what a member is. -/
def isKindWord (word : String) : Bool :=
  word != "static" && word != "classifier" && word != "abstract"

/-- The sign of a visibility and the text behind it, unless the sign is all there is. -/
def takeVisibility (s : List Char) : Option Visibility × List Char :=
  match s with
  | c :: rest =>
    if rest.isEmpty then (none, s)
    else
      match Visibility.ofSign? c with
      | some v => (some v, Chars.trimLeft rest)
      | none => (none, s)
  | [] => (none, [])

/-- The parts of a method: name, parameters and result. -/
def method : Scan (String × String × Option String) := do
  let name ← Scan.few1 Scan.inLine
  let _ ← Scan.char '('
  let parameters ← Scan.many (· != ')')
  let _ ← Scan.char ')'
  Scan.blanks
  let result ← Scan.optional do
    let _ ← Scan.char ':'
    Scan.blanks
    Scan.many1 Scan.inLine
  pure (Text.trim name, Text.trim parameters, result.map Text.trim)

/-- The parts of a field with a type: name and type. -/
def field : Scan (String × String) := do
  let name ← Scan.few1 Scan.inLine
  Scan.blanks
  let _ ← Scan.char ':'
  Scan.blanks
  let type ← Scan.many1 Scan.inLine
  pure (Text.trim name, Text.trim type)

/-- The member that a line of a body writes. -/
def read (line : String) : Member :=
  let words := classifier.occurrences line.toList
  let kind := (words.filter isKindWord).getLast?
  let (visibility, s) := takeVisibility (Chars.trim (classifier.erase line.toList))
  let text := String.ofList s
  let isMethod :=
    match kind with
    | some word => word == "method"
    | none => s.contains '('
  let (name, parameters, result) :=
    if isMethod then
      match method.whole s with
      | some (name, parameters, result) => (name, some parameters, result)
      | none => (text, some "", none)
    else
      match field.whole s with
      | some (name, type) => (name, none, some type)
      | none => (Text.trim text, none, none)
  { raw := line, name := name, result := result, visibility := visibility
    isStatic := words.contains "static" || words.contains "classifier"
    isAbstract := words.contains "abstract", parameters := parameters }

/-- The member as it is drawn. -/
def label (m : Member) : String :=
  let sign :=
    match m.visibility with
    | some v => String.ofList [v.sign, ' ']
    | none => ""
  let parameters :=
    match m.parameters with
    | some p => "(" ++ p ++ ")"
    | none => ""
  let result :=
    match m.result.filter fun r => !r.isEmpty with
    | some r => " : " ++ r
    | none => ""
  sign ++ m.name ++ parameters ++ result

end Member
end Class
end UmlDraw
