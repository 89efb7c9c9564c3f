/-
# Small parts of lines

The parts that lines of several dialects are made of: colors, names, texts in quotation marks,
labels in parentheses, and the lines that all dialects share.
-/
import UmlDraw.Source.Label
import UmlDraw.Text.Scan

namespace UmlDraw
namespace Token

/-- A color: a number sign and a word. -/
def plainColor : Scan String :=
  Scan.captured do
    let _ ← Scan.char '#'
    Scan.many1 Letter.isWord

/-- A color: a number sign and one or two words. -/
def color : Scan String :=
  Scan.captured do
    let _ ← plainColor
    let _ ← Scan.optional do
      let _ ← Scan.satisfy fun c => c == '-' || c == '\\' || c == '|' || c == '/'
      Scan.many1 Letter.isWord
    pure ()

/-- A text in quotation marks that is not empty. -/
def quoted : Scan String := do
  let _ ← Scan.char '"'
  let s ← Scan.many1 (· != '"')
  let _ ← Scan.char '"'
  pure s

/-- A text in quotation marks, which may be empty. -/
def anyQuoted : Scan String := do
  let _ ← Scan.char '"'
  let s ← Scan.many (· != '"')
  let _ ← Scan.char '"'
  pure s

/-- A label in parentheses that is not empty, as short as possible. -/
def inParentheses : Scan String := do
  let _ ← Scan.char '('
  let s ← Scan.few1 Scan.inLine
  let _ ← Scan.char ')'
  pure s

/-- A code. -/
def code : Scan String :=
  Scan.many1 Label.isCode

/-- The keyword `as` between blanks. -/
def asWord : Scan Unit := do
  Scan.blanks1
  Scan.keyword "as"
  Scan.blanks1

/-- Blanks up to the end of the line. -/
def lineEnd : Scan Unit := do
  Scan.blanks
  Scan.atEnd

/-- The rest of a line. -/
def rest : Scan String := do
  let s ← Scan.many Scan.inLine
  Scan.atEnd
  pure s

/-- The rest of a line, which is not empty. -/
def rest1 : Scan String := do
  let s ← Scan.many1 Scan.inLine
  Scan.atEnd
  pure s

/-- A label behind a colon at the end of a line, if there is one. -/
def labelAtEnd : Scan (Option String) := do
  let label ← Scan.optional do
    Scan.blanks
    let _ ← Scan.char ':'
    Scan.blanks
    Scan.many1 Scan.inLine
  Scan.atEnd
  pure (label.map Text.trim)

/-- Several keywords one after the other, with the given scan between neighbours. -/
def keywords (between : Scan Unit) : List String → Scan Unit
  | [] => pure ()
  | [w] => Scan.keyword w
  | w :: ws => do
    Scan.keyword w
    between
    keywords between ws

/-- Keywords with blanks between them. -/
def phrase (words : List String) : Scan Unit :=
  keywords Scan.blanks1 words

/-- Keywords with optional blanks between them. -/
def joined (words : List String) : Scan Unit :=
  keywords Scan.blanks words

/-- The title in a line that gives one. -/
def title : Scan String := do
  Scan.keyword "title"
  Scan.blanks1
  let s ← rest1
  pure (Text.trim s)

/-- The line that ends a note. -/
def endNote : Scan Unit := do
  joined ["end", "note"]
  lineEnd

end Token
end UmlDraw
