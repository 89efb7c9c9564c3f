/-
# The lines of use case and component diagrams

Every line that means something is read as one of the line forms below, the first one that fits.
Component diagrams know some forms more.  An element may be named by its code, by a text in
quotation marks, or by a text in the brackets of its kind.
-/
import UmlDraw.Description.Basic
import UmlDraw.Source.Decoration
import UmlDraw.Source.Keyword
import UmlDraw.Source.Name

namespace UmlDraw
namespace Description

/-- A declaration that goes on over several lines. -/
inductive OpenLabel where
  /-- The label stands in brackets. -/
  | brackets (e : Element)
  /-- The label stands in quotation marks, and the code follows it. -/
  | quotes (kind : ElementKind)

/-- The forms of lines. -/
inductive Line where
  | title (text : String)
  | direction (leftToRight : Bool)
  | together
  | container (head : ContainerHead)
  | blockEnd
  /-- Shows or hides something; nothing follows from it. -/
  | display
  /-- A declaration whose label goes on, with the lines so far. -/
  | labelStart (l : OpenLabel) (lines : List (List Char))
  | declare (e : Element)
  | note (n : NoteLine)
  | link (l : Link)
  /-- A declaration that cannot be read. -/
  | faulty (k : UnknownKeyword)

/-- What a name in a link stands for. -/
structure Reference where
  code : String
  /-- The label of an element that is made for the name. -/
  display : String
  /-- The kind of an element that is made for the name. -/
  kind : ElementKind
deriving DecidableEq, Repr

namespace Line

open Token

/-- A text between two marks, without the marks.  It does not contain the closing mark. -/
def enclosed (left right : Char) : Scan String := do
  let _ ← Scan.char left
  let s ← Scan.many1 (· != right)
  let _ ← Scan.char right
  pure s

/-- The name of a component: a text in brackets that holds no brackets. -/
def bracketed : Scan String := do
  let _ ← Scan.char '['
  let s ← Scan.many1 fun c => c != '[' && c != ']'
  let _ ← Scan.char ']'
  pure s

/-- A name with the mark of a business kind behind it, if there is one. -/
def business (p : Scan String) : Scan (String × Bool) := do
  let s ← p
  let mark ← Scan.present (Scan.char '/')
  pure (s, mark)

/-- A plain name. -/
def plain : Scan String :=
  Scan.captured do
    let _ ← Scan.satisfy Letter.isWord
    Scan.many Label.isCode

/-- The sign of an interface. -/
def interfaceSign : Scan Unit := do
  Scan.text "()"
  Scan.blanks

/-- A name in a link or a note, as it is written. -/
def shape : Scan String :=
  Scan.anyOf [
    Scan.captured quoted, Scan.captured bracketed, Scan.captured (business (enclosed ':' ':')),
    Scan.captured (do interfaceSign; Scan.either quoted plain),
    Scan.captured (business (enclosed '(' ')')), plain]

/-- A label without the blanks around it. -/
def label (s : String) : String :=
  Text.trim s

/-- A label without the blanks and the quotation marks around it. -/
def unquoted (s : String) : String :=
  String.ofList (Chars.dropAround (· == '"') (Chars.trim s.toList))

/-- The reference to an element by its label. -/
def byLabel (display : String) (kind : ElementKind) : Reference :=
  ⟨Label.code display, display, kind⟩

/-- The kind of an actor. -/
def actorKind (isBusiness : Bool) : ElementKind :=
  if isBusiness then .businessActor else .actor

/-- The kind of a use case. -/
def useCaseKind (isBusiness : Bool) : ElementKind :=
  if isBusiness then .businessUseCase else .useCase

/-- The forms of references with marks of their own. -/
def markedReference (dialect : Dialect) : Scan Reference :=
  Scan.anyOf [
    do
      let s ← bracketed
      pure (byLabel (unquoted s) .component),
    do
      interfaceSign
      Scan.either
        (do
          let s ← quoted
          pure (byLabel s .interface))
        (do
          let s ← plain
          pure ⟨s, s, .interface⟩),
    do
      let (s, isBusiness) ← business (enclosed ':' ':')
      pure (byLabel (label s) (actorKind isBusiness)),
    do
      let (s, isBusiness) ← business (enclosed '(' ')')
      pure (byLabel (label s) (useCaseKind isBusiness)),
    do
      let s ← quoted
      pure (byLabel s dialect.defaultKind)]

/-- What a written name stands for. -/
def reference (dialect : Dialect) (written : String) : Reference :=
  let s := Chars.trim written.toList
  ((markedReference dialect).whole s).getD
    ⟨String.ofList s, String.ofList s, dialect.defaultKind⟩

/-- A label between two marks and an optional code. -/
def markedName (left right : Char) : Scan Name := do
  let s ← enclosed left right
  let code ← Scan.optional do
    asWord
    code
  let display := unquoted s
  pure ⟨code.getD (Label.code display), display⟩

/-- A label in quotation marks, which gives the code too. -/
def quotedName : Scan Name := do
  let s ← quoted
  pure ⟨Label.code s, s⟩

/-- The forms of a declared name. -/
def nameForms : List (Scan Name) := [
  Name.quotedAsCode, Name.codeAsQuoted, markedName '[' ']', markedName '(' ')',
  markedName ':' ':', Name.plainAsCode, quotedName, Name.codeAlone]

def readTitle : Scan Line := do
  let s ← Token.title
  pure (title s)

def readDirection : Scan Line := do
  let b ← Scan.either
    (do
      phrase ["left", "to", "right", "direction"]
      pure true)
    (do
      phrase ["top", "to", "bottom", "direction"]
      pure false)
  lineEnd
  pure (direction b)

def readTogether : Scan Line := do
  Scan.keyword "together"
  Scan.blanks
  let _ ← Scan.char '\x7b'
  lineEnd
  pure together

def readBlockEnd : Scan Line := do
  let _ ← Scan.char '\x7d'
  lineEnd
  pure blockEnd

def readDisplay : Scan Line := do
  let _ ← Scan.oneOf ["hide", "show", "remove"]
  Scan.blanks1
  let _ ← rest1
  pure display

/-- The line for what a keyword stands for. -/
def settle (line : ElementKind → Line) : Except UnknownKeyword ElementKind → Line
  | .ok kind => line kind
  | .error k => faulty k

/-- The word that opens a container, and what stands between it and the brace. -/
def containerHead : Scan (Except UnknownKeyword ElementKind × String) := do
  let kind ← Keyword.scan ElementKind.containerWords
  Scan.blanks1
  let s ← Scan.few1 Scan.inLine
  Scan.blanks
  let _ ← Scan.char '\x7b'
  lineEnd
  pure (kind, s)

/-- A line that opens a container. -/
def container? (s : List Char) : Option Line := do
  let (kind, text) ← containerHead.whole s
  let (name, rest) ← Name.split nameForms text.toList
  let (d, _) := Decoration.take false rest
  some (settle
    (fun kind => container ⟨name.code, name.display, kind, d.color, d.stereotypes⟩) kind)

/-- The word of a declaration, and what stands behind it. -/
def declarationHead (dialect : Dialect) :
    Scan (Except UnknownKeyword ElementKind × String) := do
  let kind ← Keyword.scan dialect.words
  Scan.blanks1
  let s ← rest1
  pure (kind, s)

/-- A description in brackets, which may be empty. -/
def description : Scan String := do
  let _ ← Scan.char '['
  let s ← Scan.many (· != ']')
  let _ ← Scan.char ']'
  pure s

/-- The declaration that a kind, a name and the text behind them write. -/
def declarationOf (name : Name) (rest : List Char) (kind : ElementKind) : Line :=
  let (d, rest) := Decoration.take true rest
  let e := Element.named name.code name.display kind
  let described := (description.start rest).map fun (s, _) => label s
  declare
    { e with
      display := (described.filter fun s => !s.isEmpty).getD e.display
      color := d.color, lineColor := d.lineColor, stereotypes := d.stereotypes }

/-- A line that declares an element with a word. -/
def declaration? (dialect : Dialect) (s : List Char) : Option Line := do
  let (kind, text) ← (declarationHead dialect).whole s
  let (name, rest) ← Name.split nameForms text.toList
  some (settle (declarationOf name rest) kind)

/-- The stereotypes of a written one. -/
def stereotypesOf (written : Option String) : List String :=
  (written.map fun s => Decoration.stereotype.occurrences s.toList).getD []

/-- The end of a short declaration: an optional stereotype and an optional color. -/
def shortEnd (c : Scan String) : Scan (List String × Option String) := do
  Scan.blanks
  let stereotype ← Scan.optional Decoration.writtenStereotype
  Scan.blanks
  let c ← Scan.optional c
  lineEnd
  pure (stereotypesOf stereotype, c)

/-- A short declaration of an element with a code, a label and a kind. -/
def shortOf (name : Name) (kind : ElementKind) (more : List String × Option String) : Line :=
  declare { Element.named name.code name.display kind with stereotypes := more.1, color := more.2 }

/-- A short declaration of an actor or a use case. -/
def readShort (left right : Char) (kindOf : Bool → ElementKind) : Scan Line := do
  let (s, isBusiness) ← business (enclosed left right)
  Scan.blanks
  let other ← Scan.optional do
    Scan.keyword "as"
    Scan.blanks1
    code
  let more ← shortEnd color
  pure (shortOf ⟨other.getD (Label.code (label s)), label s⟩ (kindOf isBusiness) more)

/-- A short declaration of a component. -/
def readShortComponent : Scan Line := do
  let s ← bracketed
  let other ← Scan.optional do
    asWord
    code
  let more ← shortEnd plainColor
  pure (shortOf ⟨other.getD (Label.code (unquoted s)), unquoted s⟩ .component more)

/-- A short declaration of an interface. -/
def readShortInterface : Scan Line := do
  interfaceSign
  let name ← Scan.either
    (do
      let display ← quoted
      let other ← Scan.optional do
        asWord
        code
      pure ⟨other.getD (Label.code display), display⟩)
    (do
      let display ← code
      let other ← Scan.optional do
        asWord
        code
      pure ⟨other.getD display, display⟩)
  let more ← shortEnd plainColor
  pure (shortOf name .interface more)

/-- A declaration whose label goes on behind an opening bracket. -/
def readBracketStart (dialect : Dialect) : Scan Line := do
  let kind ← Keyword.scan dialect.words
  Scan.blanks1
  let s ← code
  Scan.blanks
  let stereotype ← Scan.optional Decoration.writtenStereotype
  Scan.blanks
  let c ← Scan.optional plainColor
  Scan.blanks
  let _ ← Scan.char '['
  Scan.blanks
  let first ← rest
  Scan.require (!first.toList.contains ']')
  let lines := if Chars.isBlankText first.toList then [] else [first.toList]
  pure (settle
    (fun kind => labelStart
      (.brackets
        { Element.named s s kind with stereotypes := stereotypesOf stereotype, color := c })
      lines)
    kind)

/-- A declaration whose label goes on behind a quotation mark. -/
def readQuoteStart (dialect : Dialect) : Scan Line := do
  let kind ← Keyword.scan dialect.words
  Scan.blanks1
  let _ ← Scan.char '"'
  let first ← Scan.many (· != '"')
  Scan.atEnd
  pure (settle (fun kind => labelStart (.quotes kind) [first.toList]) kind)

def readNote : Scan Line := do
  let n ← NoteLine.scan shape color
  pure (note n)

/-- The line of a link: one character, repeated. -/
def linkBody : Scan Unit :=
  Scan.anyOf (['-', '.', '=', '~'].map fun c => Scan.skip1 (· == c))

def readLink : Scan Line := do
  let l ← Link.scan shape linkBody false
  pure (link l)

/-- The forms of lines with labels that go on, which only component diagrams have. -/
def labelStarts : Dialect → List (Scan Line)
  | .useCases => []
  | .components => [readBracketStart .components, readQuoteStart .components]

/-- The short declarations. -/
def shorts : Dialect → List (Scan Line)
  | .useCases => [readShort ':' ':' actorKind, readShort '(' ')' useCaseKind]
  | .components =>
    [readShort ':' ':' actorKind, readShort '(' ')' useCaseKind, readShortComponent,
      readShortInterface]

/-- The meaning of a line, if it has one. -/
def read? (dialect : Dialect) (s : List Char) : Option Line :=
  let whole (forms : List (Scan Line)) : Option Line := (Scan.anyOf forms).whole s
  (whole [readTitle, readDirection, readTogether]).or <|
    (container? s).or <|
    (whole ([readBlockEnd, readDisplay] ++ labelStarts dialect)).or <|
    (declaration? dialect s).or (whole ([readNote, readLink] ++ shorts dialect))

/-- The line that ends a label in brackets; the result is the last part of the label. -/
def bracketsEnd : Scan String := do
  let s ← Scan.few Scan.inLine
  let _ ← Scan.char ']'
  lineEnd
  pure s

/-- The line that ends a label in quotation marks: the last part of the label, the code, the
stereotypes and the color. -/
def quotesEnd : Scan (String × Option String × List String × Option String) := do
  let s ← Scan.few Scan.inLine
  let _ ← Scan.char '"'
  let code ← Scan.optional do
    asWord
    code
  let (stereotypes, c) ← shortEnd plainColor
  pure (s, code, stereotypes, c)

end Line
end Description
end UmlDraw
