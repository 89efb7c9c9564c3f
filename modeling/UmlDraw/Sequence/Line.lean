/-
# The lines of a sequence diagram

Every line that means something is read as one of the line forms below, the first one that fits.
-/
import UmlDraw.Number.Reading
import UmlDraw.Sequence.Basic
import UmlDraw.Source.Label
import UmlDraw.Source.Token

namespace UmlDraw
namespace Sequence

/-- What a declaration of a participant says. -/
structure Declaration where
  /-- The code. -/
  code : String
  /-- The label. -/
  displayName : String
  /-- What the header looks like. -/
  kind : ParticipantKind
  /-- The participant is created by a message. -/
  isCreated : Bool
  /-- The stereotype, if one is given. -/
  stereotype : Option String
  /-- The color, if one is given. -/
  color : Option String
  /-- The explicit place, if one is given. -/
  order : Option Int

/-- A note that may go on over several lines. -/
structure NoteHead where
  /-- The participants; none for a note across all lifelines. -/
  participants : List String
  /-- Where the note stands. -/
  position : Side
  /-- The word for its shape. -/
  shape : String
  /-- Its color, as it is written. -/
  color : Option String
  /-- The note spans all lifelines. -/
  isAcross : Bool

/-- What a line of a message says. -/
structure MessageLine where
  /-- The operand on the left. -/
  left : String
  /-- The operand on the right. -/
  right : String
  /-- The arrow as it is written. -/
  arrow : Arrow
  /-- The message stands in the row of the message before. -/
  isParallel : Bool
  /-- Further targets. -/
  multicast : List String
  /-- A shortcut for an activation. -/
  activation : Option String
  /-- A color at the end. -/
  color : Option String
  /-- The label. -/
  label : String

/-- What a line of a message from or to the border says. -/
structure BorderLine where
  /-- The participant. -/
  participant : String
  /-- The border is on the left. -/
  isLeft : Bool
  /-- The arrow as it is written. -/
  arrow : Arrow
  /-- The message stands in the row of the message before. -/
  isParallel : Bool
  /-- A shortcut for an activation. -/
  activation : Option String
  /-- A color at the end. -/
  color : Option String
  /-- The label. -/
  label : String

/-- The forms of lines. -/
inductive Line where
  | title (text : String)
  | autoNumber (a : AutoNumber)
  | boxStart (title : String) (color : Option String)
  | boxEnd
  | declare (d : Declaration)
  | create (code : String)
  | divider (label : String)
  | delay (label : String)
  | space (size : Option Nat)
  | life (kind : LifeKind) (code : String) (color : Option String)
  | reply (label : String)
  | note (head : NoteHead) (text : String)
  | noteStart (head : NoteHead)
  | arrowNote (position : Side) (color : Option String) (text : String)
  | arrowNoteStart (position : Side) (color : Option String)
  | reference (participants : List String) (color : Option String) (text : String)
  | referenceStart (participants : List String) (color : Option String)
  | fragmentStart (kind : String) (color : Option String) (label : String)
  | fragmentElse (condition : String)
  | fragmentEnd
  | border (m : BorderLine)
  | message (m : MessageLine)
  /-- A line with a number that cannot be read. -/
  | faulty (e : NumberError)

namespace Line

open Token (color quoted rest)

/-- A character of a plain participant name. -/
def isNameChar (c : Char) : Bool :=
  Letter.isWord c || c == '.' || c == '@'

/-- A participant: a name in quotation marks or a plain name. -/
def participant : Scan String :=
  Scan.either quoted (Scan.many1 isNameChar)

/-- A participant as it is written, with its quotation marks. -/
def writtenParticipant : Scan String :=
  Scan.captured participant

/-- A list of participants as it is written. -/
def writtenParticipants : Scan String :=
  Scan.captured do
    let _ ← participant
    Scan.repeated do
      Scan.blanks
      let _ ← Scan.char ','
      Scan.blanks
      participant

/-- A part of a written list of participants. -/
def listPart : Scan String :=
  Scan.either (Scan.captured quoted)
    (Scan.many1 fun c => c != ',' && !Letter.isBlank c)

/-- The participants of a written list. -/
def participantsOf (written : String) : List String :=
  (listPart.occurrences written.toList).map fun part =>
    String.ofList (Chars.dropAround (· == '"') (Chars.trim part.toList))

/-- An end mark of an arrow before the dashes. -/
def startMark : Scan Unit := do
  let _ ← Scan.satisfy fun c => c == 'o' || c == 'x'
  Scan.ahead fun
    | [] => false
    | c :: _ => c == '-' || c == '<' || c == '>' || c == '/' || c == '\\'

/-- An end mark of an arrow behind the dashes: no name goes on there. -/
def endMark : Scan Unit := do
  let _ ← Scan.satisfy fun c => c == 'o' || c == 'x'
  Scan.ahead fun
    | [] => true
    | c :: _ => !isNameChar c

/-- An arrow. -/
def arrow : Scan String :=
  Scan.captured do
    let _ ← Scan.optional startMark
    let _ ← Scan.optional (Scan.anyOf (["<<", "<", "//", "/", "\\\\", "\\"].map Scan.text))
    Scan.skip1 (· == '-')
    let _ ← Scan.optional Arrow.modifier
    Scan.skip (· == '-')
    let _ ← Scan.optional (Scan.anyOf ([">>", ">", "//", "/", "\\\\", "\\"].map Scan.text))
    let _ ← Scan.optional endMark
    pure ()

/-- A shortcut for an activation. -/
def activation : Scan String :=
  Scan.anyOf (["--++", "++--", "++", "--", "**", "!!"].map Scan.literal)

/-- A label behind a colon, if there is one, up to the end of the line. -/
def labelAtEnd : Scan (Option String) := do
  Scan.blanks
  let label ← Scan.optional do
    let _ ← Scan.char ':'
    Scan.blanks
    Scan.many Scan.inLine
  Scan.atEnd
  pure label

/-- Digits of any script. -/
def digits : Scan String :=
  Scan.many1 Letter.isDigit

/-- Digits after an optional minus sign. -/
def signedDigits : Scan String :=
  Scan.captured do
    let _ ← Scan.optional (Scan.char '-')
    digits

/-- The integer that a text of digits stands for. -/
def integer (s : String) : Except NumberError Int :=
  Numeral.checkedInteger s.toList

/-- The line that something read stands for. -/
def settle {α : Type} (line : α → Line) : Except NumberError α → Line
  | .ok a => line a
  | .error e => faulty e

def readTitle : Scan Line := do
  let s ← Token.title
  pure (title s)

/-- The integer that digits stand for, 1 where there are none. -/
def integerOrOne : Option String → Except NumberError Int
  | some s => integer s
  | none => .ok 1

/-- Numbering goes on. -/
def readResume : Scan (Except NumberError AutoNumber) := do
  Scan.keyword "resume"
  Scan.blanks
  let step ← Scan.optional digits
  Scan.blanks
  let form ← Scan.optional Token.anyQuoted
  Scan.blanks
  pure ((integerOrOne step).map fun step =>
    { start := none, step := step, format := form, resume := true })

/-- Numbering starts. -/
def readNumbering : Scan (Except NumberError AutoNumber) := do
  let start ← Scan.optional signedDigits
  Scan.blanks
  let step ← Scan.optional digits
  Scan.blanks
  let form ← Scan.optional Token.anyQuoted
  Scan.blanks
  pure do
    let start ← integerOrOne start
    let step ← integerOrOne step
    pure { start := some start, step := step, format := form }

/-- The directive that a text behind the keyword stands for; a text without a meaning starts the
numbering anew. -/
def numberingOf (s : String) : Except NumberError AutoNumber :=
  if Text.small s == "stop" then .ok { start := none, stop := true }
  else
    match readResume.whole s.toList with
    | some a => a
    | none => (readNumbering.whole s.toList).getD (.ok {})

def readAutoNumber : Scan Line := do
  Scan.keyword "autonumber"
  Scan.wordEnd
  Scan.blanks
  let s ← rest
  pure (settle autoNumber (numberingOf (Text.trim s)))

/-- The title of a box without quotation marks. -/
def plainBoxTitle : Scan String := do
  Scan.blanks1
  Scan.captured do
    let _ ← Scan.satisfy fun c => c != '#' && c != '"' && !Letter.isBlank c
    Scan.few fun c => c != '#' && c != '"'

def readBoxStart : Scan Line := do
  Scan.keyword "box"
  let title ← Scan.optional (Scan.either (do Scan.blanks1; Token.anyQuoted) plainBoxTitle)
  Scan.blanks
  let c ← Scan.optional color
  Scan.blanks
  pure (boxStart (Text.trim (title.getD "")) c)

def readBoxEnd : Scan Line := do
  Scan.keyword "end"
  Scan.blanks
  Scan.keyword "box"
  Scan.blanks
  pure boxEnd

/-- The other name of a participant, with whether it is in quotation marks. -/
def readAlias : Scan (Bool × String) := do
  Scan.blanks1
  Scan.keyword "as"
  Scan.blanks1
  Scan.either ((true, ·) <$> quoted) ((false, ·) <$> Scan.many1 isNameChar)

/-- A stereotype. -/
def stereotype : Scan String := do
  Scan.text "<<"
  Scan.blanks
  let s ← Scan.few1 Scan.inLine
  Scan.blanks
  Scan.text ">>"
  pure s

/-- An explicit place. -/
def order : Scan String := do
  Scan.keyword "order"
  Scan.blanks1
  signedDigits

/-- The code and the label from a name and another one: the name in quotation marks is the
label. -/
def codeAndLabel (name : String) : Option (Bool × String) → String × String
  | none => (name, name)
  | some (true, label) => (name, label)
  | some (false, code) => (code, name)

def readDeclare : Scan Line := do
  let created ← Scan.optional do
    Scan.keyword "create"
    Scan.blanks1
  let kind ← Scan.oneOf (ParticipantKind.all.map ParticipantKind.name)
  Scan.blanks1
  let name ← participant
  let other ← Scan.optional readAlias
  Scan.blanks
  let stereo ← Scan.optional stereotype
  Scan.blanks
  let before ← Scan.optional order
  Scan.blanks
  let c ← Scan.optional color
  Scan.blanks
  let behind ← Scan.optional order
  Scan.blanks
  let (code, label) := codeAndLabel name other
  let place : Except NumberError (Option Int) := (before.or behind).mapM integer
  pure (settle
    (fun place => declare
      { code := code, displayName := label, kind := ParticipantKind.ofWord kind,
        isCreated := created.isSome, stereotype := stereo, color := c, order := place })
    place)

def readCreate : Scan Line := do
  Scan.keyword "create"
  Scan.blanks1
  let code ← participant
  Scan.blanks
  pure (create code)

def readDivider : Scan Line := do
  Scan.text "=="
  Scan.blanks
  let label ← Scan.few Scan.inLine
  Scan.blanks
  Scan.text "=="
  pure (divider label)

def readDelay : Scan Line := do
  Scan.text "..."
  let label ← Scan.optional do
    Scan.blanks
    let label ← Scan.few Scan.inLine
    Scan.blanks
    Scan.text "..."
    pure label
  pure (delay (label.getD ""))

def readSpace : Scan Line := do
  Scan.text "||"
  let size ← Scan.optional digits
  let _ ← Scan.char '|'
  let _ ← Scan.optional (Scan.char '|')
  let height : Except NumberError (Option Int) := size.mapM integer
  pure (settle (fun height => space (height.map Int.toNat)) height)

def readLife : Scan Line := do
  let kind ← Scan.oneOf ["activate", "deactivate", "destroy"]
  Scan.blanks1
  let code ← participant
  Scan.blanks
  let c ← Scan.optional color
  Scan.blanks
  pure (life (LifeKind.ofWord kind) code c)

def readReply : Scan Line := do
  Scan.keyword "return"
  Scan.wordEnd
  Scan.blanks
  let s ← rest
  pure (reply (Text.trim s))

/-- The words for shapes of notes. -/
def noteShapes : List String := ["note", "hnote", "rnote"]

def readNoteAcross : Scan Line := do
  let shape ← Scan.oneOf noteShapes
  Scan.blanks1
  Scan.keyword "across"
  Scan.blanks
  let c ← Scan.optional color
  let text ← labelAtEnd
  let head : NoteHead := ⟨[], .covering, shape, c, true⟩
  pure (match text with
    | none => noteStart head
    | some t => note head t)

/-- The start of a note beside or over participants. -/
def noteHead : Scan NoteHead := do
  let shape ← Scan.oneOf noteShapes
  Scan.blanks1
  let side ← Scan.oneOf ["left", "right", "over"]
  let _ ← Scan.optional do
    Scan.blanks1
    Scan.keyword "of"
  Scan.blanks1
  let parts ← writtenParticipants
  Scan.blanks
  let c ← Scan.optional color
  Scan.blanks
  pure ⟨participantsOf parts, Side.ofWord side, shape, c, false⟩

/-- A colon, blanks and the rest of a line. -/
def textAtEnd : Scan String := do
  let _ ← Scan.char ':'
  Scan.blanks
  rest

def readNote : Scan Line := do
  let head ← noteHead
  let text ← textAtEnd
  pure (note head text)

def readNoteStart : Scan Line := do
  let head ← noteHead
  pure (noteStart head)

/-- The start of a note at a message. -/
def arrowNoteHead : Scan (Side × Option String) := do
  Scan.keyword "note"
  Scan.blanks1
  let side ← Scan.oneOf ["left", "right", "top", "bottom"]
  Scan.blanks
  let c ← Scan.optional color
  Scan.blanks
  pure (Side.ofWord side, c)

def readArrowNote : Scan Line := do
  let (side, c) ← arrowNoteHead
  let text ← textAtEnd
  pure (arrowNote side c text)

def readArrowNoteStart : Scan Line := do
  let (side, c) ← arrowNoteHead
  pure (arrowNoteStart side c)

/-- The start of a reference. -/
def referenceHead : Scan (List String × Option String) := do
  Scan.keyword "ref"
  Scan.blanks
  let c ← Scan.optional color
  Scan.blanks1
  Scan.keyword "over"
  Scan.blanks1
  let parts ← writtenParticipants
  Scan.blanks
  pure (participantsOf parts, c)

def readReference : Scan Line := do
  let (parts, c) ← referenceHead
  let text ← textAtEnd
  pure (reference parts c text)

def readReferenceStart : Scan Line := do
  let (parts, c) ← referenceHead
  pure (referenceStart parts c)

def readFragmentStart : Scan Line := do
  let kind ← Scan.oneOf ["alt", "loop", "opt", "par2", "par", "break", "critical", "group"]
  Scan.wordEnd
  Scan.blanks
  let c ← Scan.optional color
  Scan.blanks
  let label ← rest
  pure (fragmentStart (if kind == "par2" then "par" else kind) c (Text.trim label))

def readFragmentElse : Scan Line := do
  let _ ← Scan.oneOf ["else", "also"]
  Scan.wordEnd
  Scan.blanks
  let _ ← Scan.optional color
  Scan.blanks
  let condition ← rest
  pure (fragmentElse (Text.trim condition))

def readFragmentEnd : Scan Line := do
  Scan.keyword "end"
  Scan.blanks
  pure fragmentEnd

/-- The mark of a parallel message. -/
def parallelMark : Scan Unit := do
  let _ ← Scan.char '&'
  Scan.blanks

/-- What may stand behind the operands of a message: a shortcut for an activation, a color and a
label. -/
def messageEnd : Scan (Option String × Option String × String) := do
  Scan.blanks
  let act ← Scan.optional activation
  Scan.blanks
  let c ← Scan.optional color
  let label ← labelAtEnd
  pure (act, c, Text.trim (label.getD ""))

def readBorderLeft : Scan Line := do
  let parallel ← Scan.optional parallelMark
  let _ ← Scan.satisfy fun c => c == '[' || c == '?'
  Scan.blanks
  let a ← arrow
  Scan.blanks
  let code ← participant
  let (act, c, label) ← messageEnd
  pure (border ⟨code, true, Arrow.read a, parallel.isSome, act, c, label⟩)

def readBorderRight : Scan Line := do
  let parallel ← Scan.optional parallelMark
  let code ← participant
  Scan.blanks
  let a ← arrow
  Scan.blanks
  let _ ← Scan.satisfy fun c => c == ']' || c == '?'
  let (act, c, label) ← messageEnd
  pure (border ⟨code, false, Arrow.read a, parallel.isSome, act, c, label⟩)

/-- Further targets of a message as they are written. -/
def writtenTargets : Scan String :=
  Scan.captured <| Scan.repeated do
    Scan.blanks
    let _ ← Scan.char '&'
    Scan.blanks
    participant

def readMessage : Scan Line := do
  let parallel ← Scan.optional parallelMark
  let left ← participant
  Scan.blanks
  let a ← arrow
  Scan.blanks
  let right ← participant
  let further ← writtenTargets
  let (act, c, label) ← messageEnd
  let targets := String.ofList (further.toList.map fun c => if c == '&' then ',' else c)
  pure (message
    ⟨left, right, Arrow.read a, parallel.isSome, participantsOf targets, act, c, label⟩)

/-- The line forms in the order in which they are tried. -/
def forms : List (Scan Line) := [
  readTitle, readAutoNumber, readBoxStart, readBoxEnd, readDeclare, readCreate, readDivider,
  readDelay, readSpace, readLife, readReply, readNoteAcross, readNote, readNoteStart,
  readArrowNote, readArrowNoteStart, readReference, readReferenceStart, readFragmentStart,
  readFragmentElse, readFragmentEnd, readBorderLeft, readBorderRight, readMessage]

/-- The form of a line, if it has a meaning. -/
def read? (s : List Char) : Option Line :=
  forms.findSome? fun form => form.whole s

/-- The line that hides the lower headers. -/
def hidesFootbox : Scan Unit := do
  Scan.keyword "hide"
  Scan.blanks1
  Scan.keyword "footbox"
  Scan.blanks

/-- The beginning of a line about the display, which has no meaning here. -/
def isDisplay : Scan Unit :=
  Scan.anyOf [
    do Scan.keyword "hide"; Scan.wordEnd,
    do Scan.keyword "show"; Scan.wordEnd,
    do Scan.keyword "newpage"; Scan.wordEnd,
    do Scan.keyword "ignore"; Scan.blanks1; Scan.keyword "newpage"; Scan.wordEnd]

/-- The line that ends a note or a reference over several lines. -/
def endsBlock : Scan Unit := do
  Scan.keyword "end"
  Scan.blanks
  let _ ← Scan.oneOf ["note", "hnote", "rnote", "ref"]
  Scan.blanks

end Line
end Sequence
end UmlDraw
