/-
# Decorations

What may follow the name in a declaration: stereotypes, a color for the border and a color for the
inside.
-/
import UmlDraw.Source.Token

namespace UmlDraw

/-- The decorations of a declaration. -/
structure Decoration where
  /-- The stereotypes, in order. -/
  stereotypes : List String
  /-- The color of the border. -/
  lineColor : Option String
  /-- The color of the inside. -/
  color : Option String
deriving DecidableEq, Repr

namespace Decoration

/-- A stereotype; the result is the text in it. -/
def stereotype : Scan String := do
  Scan.text "<<"
  Scan.blanks
  let s ← Scan.few1 (· != '>')
  Scan.blanks
  Scan.text ">>"
  pure s

/-- A stereotype as it is written. -/
def writtenStereotype : Scan String :=
  Scan.captured do
    Scan.text "<<"
    Scan.skip1 (· != '>')
    Scan.text ">>"

/-- A color for the border: two number signs, a way to draw it in brackets, and a word. -/
def borderColor : Scan String := do
  Scan.text "##"
  let _ ← Scan.optional do
    let _ ← Scan.char '['
    Scan.skip1 Letter.isWord
    Scan.char ']'
  let s ← Scan.many1 Letter.isWord
  pure ("#" ++ s)

/-- The first color that no number sign precedes: the text before it, the color and the rest.  The
first argument says whether a number sign precedes the text. -/
def findColor : Bool → List Char → Option (List Char × String × List Char)
  | _, [] => none
  | behindSign, c :: s =>
    match if behindSign then none else Token.color.start (c :: s) with
    | some (color, rest) => some ([], color, rest)
    | none => (findColor (c == '#') s).map fun (before, found) => (c :: before, found)

/-- Takes the decorations off a text; a color for the border only where one is allowed.  The second
result is what is left of the text. -/
def take (withLine : Bool) (s : List Char) : Decoration × List Char :=
  let stereotypes := stereotype.occurrences s
  let s := stereotype.erase s
  let (line, s) :=
    match if withLine then borderColor.search s else none with
    | some (before, line, rest) => (some line, before ++ rest)
    | none => (none, s)
  let (color, s) :=
    match findColor false s with
    | some (before, color, rest) => (some color, before ++ rest)
    | none => (none, s)
  (⟨stereotypes, line, color⟩, Chars.trim s)

end Decoration
end UmlDraw
