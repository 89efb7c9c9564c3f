/-
# The lines of a class diagram

Every line that means something is read as one of the line forms below, the first one that fits.
The lines of bodies have forms of their own.
-/
import UmlDraw.Class.Basic
import UmlDraw.Source.Decoration
import UmlDraw.Source.Keyword
import UmlDraw.Source.Name

namespace UmlDraw
namespace Class

/-- The forms of lines. -/
inductive Line where
  | title (text : String)
  /-- Shows or hides some members of an entity. -/
  | display (isHide : Bool) (key : String) (what : Hidden)
  /-- Shows or hides what is not drawn anyway. -/
  | nothing
  | remove (code : String)
  | together
  | package (head : PackageHead)
  | blockEnd
  | note (n : NoteLine)
  /-- A declaration; the body may follow in the next lines. -/
  | declare (e : Entity) (hasBody : Bool)
  | link (l : Link)
  /-- A member of an entity, written outside of a body. -/
  | member (code : String) (m : Member)
  /-- A declaration that cannot be read. -/
  | faulty (k : UnknownKeyword)

namespace Line

open Token

/-- The name of an entity in a link, as it is written. -/
def shape : Scan String :=
  Scan.either (Scan.captured quoted)
    (Scan.captured do
      let _ ← Scan.satisfy Letter.isWord
      Scan.many Label.isCode)

def readTitle : Scan Line := do
  let s ← Token.title
  pure (title s)

/-- What a line about hidden members says: words with what is hidden at the end, an optional word
`empty` before it, and an optional key in front. -/
def displayOf (isHide : Bool) (text : String) : Line :=
  let words := Chars.words text.toList
  match (words.map fun w => String.ofList (Chars.small w)).reverse with
  | [] => nothing
  | last :: before =>
    match Hidden.ofWord? last with
    | none => nothing
    | some what =>
      let isEmpty := before.head? == some "empty"
      let hasKey := if isEmpty then 1 < before.length else !before.isEmpty
      let key := if hasKey then String.ofList (words.headD []) else "*"
      display isHide key (if isEmpty then what.whereEmpty else what)

def readDisplay : Scan Line := do
  let word ← Scan.oneOf ["hide", "show"]
  Scan.blanks1
  let s ← rest1
  pure (displayOf (word == "hide") s)

def readRemove : Scan Line := do
  Scan.keyword "remove"
  Scan.blanks1
  let s ← rest1
  pure (remove (Label.unquote (Text.trim s)))

def readTogether : Scan Line := do
  Scan.keyword "together"
  Scan.blanks
  let _ ← Scan.char '\x7b'
  lineEnd
  pure together

def readPackage : Scan Line := do
  let _ ← Scan.oneOf ["package", "namespace"]
  Scan.blanks1
  let isNameChar (c : Char) : Bool :=
    !Letter.isBlank c && c != '\x7b' && c != '#' && c != '<'
  let name ← Scan.either quoted (Scan.many1 isNameChar)
  let _ ← Scan.optional do
    asWord
    code
  Scan.blanks
  let _ ← Scan.optional Decoration.writtenStereotype
  Scan.blanks
  let c ← Scan.optional plainColor
  Scan.blanks
  let _ ← Scan.optional (Scan.char '\x7b')
  lineEnd
  pure (package ⟨name, c⟩)

def readBlockEnd : Scan Line := do
  let _ ← Scan.char '\x7d'
  lineEnd
  pure blockEnd

def readDiamond : Scan Line := do
  Scan.text "<>"
  Scan.blanks1
  let s ← code
  lineEnd
  pure (declare { code := s, display := s, kind := .diamond } false)

def readLollipop : Scan Line := do
  Scan.text "()"
  Scan.blanks1
  let name ← Scan.anyOf [Name.quotedAsCode, Name.quotedAlone, Name.codeAlone]
  lineEnd
  pure (declare { code := name.code, display := name.display, kind := .lollipop } false)

def readNote : Scan Line := do
  let n ← NoteLine.scan shape plainColor
  pure (note n)

/-- A keyword that declares an entity, and the rest of the line. -/
def declarationHead : Scan (Except UnknownKeyword EntityKind × String) := do
  let kind ← Keyword.scan EntityKind.keywords
  Scan.blanks1
  let s ← rest
  pure (kind, s)

/-- The forms of a declared name. -/
def nameForms : List (Scan Name) :=
  [Name.quotedAsCode, Name.codeAsQuoted, Name.plainAsCode, Name.quotedAlone, Name.codeAlone]

/-- Generic parameters. -/
def generics : Scan String := do
  let _ ← Scan.char '<'
  Scan.ahead fun s => s.head? != some '<'
  let s ← Scan.many1 (· != '>')
  let _ ← Scan.char '>'
  pure (Text.trim s)

/-- The place where a list of parents ends. -/
def parentsEnd : Scan Unit := do
  Scan.blanks
  Scan.anyOf [Scan.text "<<", Scan.text "#", Scan.text "\x7b", Scan.atEnd]

/-- The place where a list of parents ends that interfaces may follow. -/
def extendsEnd : Scan Unit :=
  Scan.either
    (do
      Scan.blanks1
      Scan.keyword "implements"
      Scan.wordEnd)
    parentsEnd

/-- The codes of a written list of parents. -/
def codesOf (s : String) : List String :=
  (((Chars.split ',' s.toList).map Chars.trim).filter fun part => !part.isEmpty).map fun part =>
    Label.unquote (String.ofList part)

/-- A list of parents behind a keyword. -/
def parents (word : String) (stop : Scan Unit) : Scan (List String) := do
  Scan.keyword word
  Scan.blanks1
  let s ← Scan.few1 Scan.inLine
  Scan.ahead stop.begins
  pure (codesOf s)

/-- Takes what a scan reads off the front of a text, if it reads something. -/
def takeFront {α : Type} (p : Scan α) (default : α) (s : List Char) : α × List Char :=
  match p.start s with
  | some (a, rest) => (a, Chars.trim rest)
  | none => (default, s)

/-- The members of a body in braces within the line. -/
def inlineMembers (s : List Char) : List BodyLine :=
  match s, s.reverse with
  | '\x7b' :: inner, '\x7d' :: _ =>
    (((Chars.split ';' inner.dropLast).map Chars.trim).filter fun part => !part.isEmpty).map
      fun part => .member (Member.read (String.ofList part))
  | _, _ => []

/-- The document that follows the name of a `json` entity in the same line; a line that ends with
an opening brace starts a body instead, unless all its braces are closed. -/
def inlineDocument? (s : List Char) : Option Document :=
  let opensBody := s.isEmpty || s.getLast? == some '\x7b'
  let isClosed := s.head? == some '\x7b' && s.count '\x7b' == s.count '\x7d'
  if !opensBody || isClosed then some (Document.read s) else none

/-- The declaration that a kind, a name and the text behind them write. -/
def declarationOf (kind : EntityKind) (name : Name) (s : List Char) : Line :=
  let e : Entity := { code := name.code, display := name.display, kind := kind }
  match if kind = .json then inlineDocument? s else none with
  | some d => declare { e with document := some d } false
  | none =>
    let (generic, s) := takeFront (some <$> generics) none s
    let (extended, s) := takeFront (parents "extends" extendsEnd) [] s
    let (implemented, s) := takeFront (parents "implements" parentsEnd) [] s
    let (d, s) := Decoration.take true s
    let hasBody := s.getLast? == some '\x7b'
    declare
      { e with
        generics := generic, parents := extended, interfaces := implemented
        stereotypes := d.stereotypes, lineColor := d.lineColor, color := d.color
        members := if hasBody then [] else inlineMembers s }
      hasBody

/-- A declaration of an entity. -/
def declaration? (s : List Char) : Option Line := do
  let (kind, text) ← declarationHead.whole s
  let (name, s) ← Name.split nameForms text.toList
  some (match kind with
    | .ok kind => declarationOf kind name s
    | .error k => faulty k)

/-- The line of a link. -/
def linkBody : Scan Unit :=
  Scan.skip1 fun c => c == '-' || c == '.' || c == '='

def readLink : Scan Line := do
  let l ← Link.scan shape linkBody true
  pure (link l)

def readMember : Scan Line := do
  let s ← code
  Scan.blanks
  let _ ← Scan.char ':'
  Scan.blanks
  let text ← rest1
  pure (member s (Member.read (Text.trim text)))

/-- The forms of lines that are tried before a declaration. -/
def firstForms : List (Scan Line) := [
  readTitle, readDisplay, readRemove, readTogether, readPackage, readBlockEnd, readDiamond,
  readLollipop, readNote]

/-- The meaning of a line, if it has one. -/
def read? (s : List Char) : Option Line :=
  ((Scan.anyOf firstForms).whole s).or <|
    (declaration? s).or ((Scan.either readLink readMember).whole s)

/-- The line ends a body. -/
def endsBody (s : List Char) : Bool :=
  readBlockEnd.reads s

/-- A separator in a class body. -/
def separator : Scan BodyLine := do
  let mark : Scan String := Scan.anyOf (SeparatorStyle.spellings.map fun (s, _) => Scan.literal s)
  let written ← mark
  Scan.blanks
  let label ← Scan.few Scan.inLine
  Scan.blanks
  let _ ← Scan.optional mark
  pure (.separator label ((SeparatorStyle.spellings.lookup written).getD .solid))

/-- A line of a class body. -/
def bodyLine (s : List Char) : BodyLine :=
  (separator.whole s).getD (.member (Member.read (String.ofList s)))

/-- A row of a map with a link to an entity. -/
def mapLink : Scan MapEntry := do
  let key ← Scan.few1 Scan.inLine
  Scan.blanks
  let _ ← Scan.char '*'
  Scan.skip1 (· == '-')
  let _ ← Scan.char '>'
  Scan.blanks
  let target ← code
  lineEnd
  pure (.link (Text.trim key) target)

/-- A row of a map with a value. -/
def mapValue : Scan MapEntry := do
  let key ← Scan.few1 Scan.inLine
  Scan.blanks
  Scan.text "=>"
  Scan.blanks
  let value ← rest
  pure (.value (Text.trim key) (Text.trim value))

/-- A row of a map. -/
def mapEntry? (s : List Char) : Option MapEntry :=
  (Scan.either mapLink mapValue).whole s

end Line
end Class
end UmlDraw
