/-
# Declared names

The forms in which a declaration names what it declares.  Each gives a code and a label; where only
one text is written, `Name.lone` decides what it stands for.
-/
import UmlDraw.Source.Token

namespace UmlDraw

/-- A declared name. -/
structure Name where
  /-- The code. -/
  code : String
  /-- The label. -/
  display : String
deriving DecidableEq, Repr

namespace Name

/-- A label in quotation marks and a code. -/
def quotedAsCode : Scan Name := do
  let display ← Token.quoted
  Token.asWord
  let code ← Token.code
  pure ⟨code, display⟩

/-- A code and a label in quotation marks. -/
def codeAsQuoted : Scan Name := do
  let code ← Token.code
  Token.asWord
  let display ← Token.quoted
  pure ⟨code, display⟩

/-- A label without quotation marks and a code. -/
def plainAsCode : Scan Name := do
  let display ← Token.code
  Token.asWord
  let code ← Token.code
  pure ⟨code, display⟩

/-- A text in quotation marks, which is label and code. -/
def quotedAlone : Scan Name := do
  let s ← Token.quoted
  pure ⟨s, s⟩

/-- A code, which is its own label. -/
def codeAlone : Scan Name := do
  let s ← Token.code
  pure ⟨s, s⟩

/-- The first form that begins a text, with what is left of the text. -/
def split (forms : List (Scan Name)) (s : List Char) : Option (Name × List Char) :=
  ((Scan.anyOf forms).start (Chars.trim s)).map fun (name, rest) => (name, Chars.trim rest)

end Name
end UmlDraw
