/-
# The lines of a state diagram

Every line that means something is read as one of the line forms below, the first one that fits.
The ends of a transition are read as *mentions*: they may name a state, or stand for a mark of the
composite state in which the line is written.
-/
import UmlDraw.Source.Decoration
import UmlDraw.Source.Name
import UmlDraw.State.Basic

namespace UmlDraw
namespace State

/-- What an end of a transition speaks of. -/
inductive EndPoint where
  /-- The initial element at the start of a transition, and the final one at its end. -/
  | terminal
  /-- The history of the place where the line is written. -/
  | history (deep : Bool)
  /-- The history of a state. -/
  | historyOf (owner : String) (deep : Bool)
  /-- A bar with a name. -/
  | bar (code : String)
  /-- A state. -/
  | state (code : String)
deriving DecidableEq, Repr

/-- An end of a transition, with what is written about the element there. -/
structure Mention where
  point : EndPoint
  stereotype : Option String
  color : Option String
deriving DecidableEq, Repr

/-- What a line says about a transition but its ends. -/
structure TransitionHead where
  stroke : Stroke
  direction : Option Direction
  crossStart : Bool
  circleEnd : Bool
  /-- The number of dashes. -/
  length : Nat
  label : Option String
deriving DecidableEq, Repr

/-- A declaration of a state. -/
structure Declaration where
  name : Name
  stereotype : Option String
  color : Option String
  border : Border
deriving DecidableEq, Repr

/-- The forms of lines. -/
inductive Line where
  | title (text : String)
  | direction (leftToRight : Bool)
  | hideEmpty
  /-- Shows or hides what is drawn anyway. -/
  | nothing
  /-- Opens a composite state. -/
  | composite (d : Declaration)
  | blockEnd
  | separator (s : Separator)
  | declare (d : Declaration) (description : Option String)
  | note (n : NoteLine)
  | transition (source target : Mention) (head : TransitionHead)
  /-- Says something about a state. -/
  | describe (name : Name) (text : String)

namespace Line

open Token

def readHideEmpty : Scan Line := do
  phrase ["hide", "empty", "description"]
  Scan.atEnd
  pure hideEmpty

def readNothing : Scan Line := do
  let _ ← Scan.oneOf ["hide", "show"]
  let _ ← Scan.satisfy Letter.isBlank
  Scan.skip fun _ => true
  pure nothing

def readTitle : Scan Line := do
  let s ← Token.title
  pure (title s)

def readDirection : Scan Line :=
  Scan.either
    (do
      phrase ["left", "to", "right", "direction"]
      pure (direction true))
    (do
      phrase ["top", "to", "bottom", "direction"]
      pure (direction false))

/-- A text in quotation marks, which stands for the code that its characters make. -/
def quotedName : Scan Name := do
  let s ← quoted
  pure ⟨Label.code s, s⟩

/-- The name in a declaration. -/
def name : Scan Name :=
  Scan.anyOf [Name.quotedAsCode, Name.codeAsQuoted, quotedName, Name.codeAlone]

/-- Something that blanks may precede, or nothing. -/
def trailing {α : Type} (p : Scan α) : Scan (Option α) :=
  Scan.optional do
    Scan.blanks
    p

/-- A stereotype, without its brackets. -/
def stereotype : Scan String :=
  ElementKind.stereotypeText <$> Decoration.writtenStereotype

/-- A border. -/
def border : Scan Border :=
  Border.read <$> Scan.captured do
    Scan.text "##"
    let _ ← Scan.optional do
      let _ ← Scan.char '['
      let _ ← Scan.oneOf ["dotted", "dashed", "bold"]
      Scan.char ']'
    Scan.many Letter.isWord

/-- A keyword, and the name and decorations of a state behind it. -/
def declaration (word : String) (bordered : Bool) : Scan Declaration := do
  Scan.keyword word
  Scan.blanks1
  let n ← name
  let s ← trailing stereotype
  let c ← trailing plainColor
  let b ← trailing do
    Scan.require bordered
    border
  pure ⟨n, s, c, b.getD {}⟩

/-- A text does not end in a word. -/
def endsOutsideWord (s : String) : Bool :=
  match s.toList.getLast? with
  | none => true
  | some c => !Letter.isWord c

/-- The start of the contents of a composite state: a brace, or the word `begin` outside of another
word. -/
def readComposite : Scan Line := do
  let (d, before) ← Scan.withText do
    let d ← declaration "state" true
    Scan.blanks
    pure d
  Scan.either (Scan.text "\x7b")
    (do
      Scan.require (endsOutsideWord before)
      Scan.keyword "begin")
  lineEnd
  pure (composite d)

def readBlockEnd : Scan Line := do
  Scan.either
    (do
      Scan.keyword "end"
      let _ ← Scan.optional (Scan.satisfy Letter.isBlank)
      Scan.keyword "state")
    (Scan.text "\x7d")
  pure blockEnd

/-- A frame is a composite state; its stereotype does not count. -/
def readFrame : Scan Line := do
  let d ← declaration "frame" false
  Scan.blanks
  let _ ← Scan.char '\x7b'
  lineEnd
  pure (composite { d with stereotype := none })

/-- At least two of a character. -/
def twoOrMore (c : Char) : Scan Unit := do
  let _ ← Scan.char c
  Scan.skip1 (· == c)

def readSeparator : Scan Line :=
  Scan.either
    (do
      twoOrMore '-'
      pure (separator .dashes))
    (do
      twoOrMore '|'
      pure (separator .bars))

def readDeclare : Scan Line := do
  let d ← declaration "state" true
  let text ← Scan.optional do
    Scan.blanks
    let _ ← Scan.char ':'
    Scan.blanks
    rest
  Scan.atEnd
  pure (declare d ((text.filter fun s => !s.isEmpty).map Text.trim))

/-- The state that a note speaks of. -/
def noteTarget : Scan String :=
  Scan.either code (Label.code <$> quoted)

/-- The text of a note behind a colon, which is not empty. -/
def noteText (head : Scan Note) : Scan NoteLine := do
  let n ← head
  Scan.blanks
  let _ ← Scan.char ':'
  Scan.blanks
  let s ← rest1
  pure (.complete { n with text := Text.trim s })

/-- A free note. -/
def freeNote : Scan NoteLine := do
  Scan.keyword "note"
  Scan.blanks1
  let s ← quoted
  asWord
  let name ← code
  let c ← trailing plainColor
  pure (.complete { text := s, target := .free name, color := c })

def readNote : Scan Line :=
  let beside := NoteLine.beside noteTarget plainColor
  let onLink := NoteLine.onLink plainColor
  note <$> Scan.anyOf [
    noteText beside, freeNote, noteText onLink, NoteLine.withoutText onLink,
    NoteLine.withoutText beside]

/-- A character of the code of a state in a transition. -/
def isStateChar (c : Char) : Bool :=
  Label.isCode c || c == ':'

/-- The mark for a history; the result says whether it is a deep one. -/
def historyMark : Scan Bool := do
  Scan.text "[H"
  let deep ← Scan.present (Scan.char '*')
  let _ ← Scan.char ']'
  pure deep

/-- At least two equality signs. -/
def barSide : Scan Unit :=
  twoOrMore '='

/-- What an end of a transition speaks of. -/
def endPoint : Scan EndPoint :=
  Scan.anyOf [
    (do
      let owner ← Scan.many1 isStateChar
      let deep ← historyMark
      pure (.historyOf owner deep)),
    (do
      Scan.text "[*]"
      pure .terminal),
    EndPoint.history <$> historyMark,
    (do
      barSide
      let code ← Scan.many1 isStateChar
      barSide
      pure (.bar code)),
    EndPoint.state <$> Scan.many1 isStateChar]

/-- An end of a transition. -/
def mention : Scan Mention := do
  let point ← endPoint
  let s ← trailing stereotype
  let c ← trailing plainColor
  pure ⟨point, s, c⟩

/-- One part of the description of a line. -/
def strokePart : Scan Unit :=
  Scan.anyOf [
    (do
      let _ ← plainColor
      pure ()),
    (do
      let _ ← Scan.oneOf ["dotted", "dashed", "plain", "bold", "hidden", "norank"]
      pure ()),
    (do
      Scan.text "thickness="
      Scan.skip1 Letter.isDigit)]

/-- The description of a line in brackets. -/
def stroke : Scan Stroke := do
  let _ ← Scan.char '['
  let s ← Scan.captured do
    strokePart
    Scan.repeated do
      let _ ← Scan.char ','
      strokePart
  let _ ← Scan.char ']'
  pure (Stroke.read s)

/-- The words for directions inside a line, in the order in which they are tried. -/
def directionWords : List String :=
  ["left", "right", "up", "down", "le", "l", "ri", "r", "up", "u", "do", "d"]

/-- The dashes of a line with what stands between them: the description before and the one behind
the direction, the direction, and the number of dashes. -/
def shaft (before behind : Scan String) :
    Scan (Stroke × Option Direction × Stroke × Nat) := do
  let dashes1 ← before
  let stroke1 ← Scan.optional stroke
  let word ← Scan.optional (Scan.oneOf directionWords)
  let stroke2 ← Scan.optional stroke
  let dashes2 ← behind
  pure (stroke1.getD {}, word.bind Direction.ofWord?, stroke2.getD {},
    dashes1.length + dashes2.length)

/-- Dashes. -/
def isDash (c : Char) : Bool :=
  c == '-'

/-- A circle at the end of a line, with a blank behind it. -/
def circle : Scan Bool :=
  Scan.present do
    let _ ← Scan.char 'o'
    Scan.ahead fun s => s.head?.any Letter.isBlank

/-- A cross at the start of a line. -/
def cross : Scan Bool :=
  Scan.present (Scan.char 'x')

/-- A transition that ends at the right. -/
def readForward : Scan Line := do
  let source ← mention
  Scan.blanks
  let x ← cross
  let (stroke1, turn, stroke2, length) ← shaft (Scan.many1 isDash) (Scan.many isDash)
  let _ ← Scan.char '>'
  Scan.blanks
  let o ← circle
  Scan.blanks
  let target ← mention
  let label ← labelAtEnd
  pure (transition source target ⟨stroke1.or stroke2, turn, x, o, length, label⟩)

/-- A transition that ends at the left. -/
def readBackward : Scan Line := do
  let target ← mention
  Scan.blanks
  let o ← circle
  Scan.blanks
  let _ ← Scan.char '<'
  let (stroke1, turn, stroke2, length) ← shaft (Scan.many isDash) (Scan.many1 isDash)
  let x ← cross
  Scan.blanks
  let source ← mention
  let label ← labelAtEnd
  pure (transition source target ⟨stroke2.or stroke1, turn, x, o, length, label⟩)

def readDescribe : Scan Line := do
  let name ← Scan.either Name.codeAlone quotedName
  Scan.blanks
  let _ ← Scan.char ':'
  Scan.blanks
  let text ← rest
  pure (describe name (Text.trim text))

/-- The beginning of a line that says nothing about a state. -/
def undescribed : Scan Unit := do
  let _ ← Scan.oneOf ["state", "note"]
  Scan.blanks1

/-- The forms of lines in the order in which they are tried; separators count only inside of a
composite state. -/
def forms (isInside : Bool) : List (Scan Line) := [
  readHideEmpty, readNothing, readTitle, readDirection, readComposite, readBlockEnd, readFrame,
  (do Scan.require isInside; readSeparator),
  readDeclare, readNote, readForward, readBackward]

/-- The meaning of a line, if it has one. -/
def read? (isInside : Bool) (s : List Char) : Option Line :=
  ((Scan.anyOf (forms isInside)).whole s).or <|
    if undescribed.begins s then none else readDescribe.whole s

end Line
end State
end UmlDraw
