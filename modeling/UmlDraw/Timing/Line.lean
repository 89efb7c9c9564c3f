/-
# The lines of a timing diagram

Every line that means something is read as one of the line forms below, the first one that fits.
Instants are written as times, as times behind the last instant, or by a name.
-/
import UmlDraw.Number.Reading
import UmlDraw.Source.Token
import UmlDraw.Timing.Basic

namespace UmlDraw
namespace Timing

/-- An instant as it is written. -/
inductive TimeToken where
  | absolute (n : Number)
  /-- A time behind the last instant. -/
  | relative (n : Number)
  | named (code : String)

/-- What a line says about a change of state but when and of whom. -/
structure ChangeHead where
  state : String
  color : Option String
  comment : Option String

/-- The forms of lines. -/
inductive Line where
  | title (text : String)
  | compact
  | hideAxis
  | player (p : Player)
  /-- A label for a state of a player. -/
  | hasLabel (player state label : String)
  /-- Some states of a player. -/
  | hasStates (player : String) (states : List String)
  | note (n : PlayerNote)
  /-- A note whose text follows. -/
  | noteStart (n : PlayerNote)
  | highlight (start stop : TimeToken) (color : Option String) (caption : String)
  | constraint (player : Option String) (start stop : TimeToken) (label : String)
  | message (source : String) (sourceTime : TimeToken) (target : String) (targetTime : TimeToken)
      (label : String)
  /-- Goes to an instant and may give it a name. -/
  | atTime (time : TimeToken) (name : Option String)
  /-- Goes to a player. -/
  | atPlayer (code : String)
  /-- A change of a player at the last instant. -/
  | playerIs (code : String) (change : ChangeHead)
  /-- A change of the current player at an instant. -/
  | timeIs (time : TimeToken) (change : ChangeHead)

namespace Line

open Token

/-- A number: an optional sign, digits and places.  No line form goes on with a digit behind a
number, so runs of digits are read as a whole. -/
def number : Scan Number := do
  let s ← Scan.captured do
    let _ ← Scan.optional (Scan.char '-')
    let _ ← Scan.run1 Letter.isDigit
    let _ ← Scan.optional do
      let _ ← Scan.char '.'
      Scan.run1 Letter.isDigit
    pure ()
  pure (Number.clean ((Numeral.decimal? s.toList).getD Double.nan))

/-- An instant. -/
def time : Scan TimeToken :=
  Scan.anyOf [
    (do
      let _ ← Scan.char '+'
      let n ← number
      pure (.relative n)),
    TimeToken.absolute <$> number,
    (do
      let _ ← Scan.char ':'
      let s ← code
      pure (.named s))]

/-- A text that has a label in front of a code, or is the code alone; the results are the code and
the label. -/
def labelled : Scan (String × String) := do
  let label ← Scan.optional do
    let s ← quoted
    asWord
    pure s
  let s ← code
  pure (s, label.getD s)

/-- The word `compact` with blanks behind it, if it is there. -/
def compactWord : Scan Bool :=
  Scan.present do
    Scan.keyword "compact"
    Scan.blanks1

def readTitle : Scan Line := do
  let s ← Token.title
  pure (title s)

def readCompact : Scan Line := do
  phrase ["mode", "compact"]
  lineEnd
  pure compact

def readHideAxis : Scan Line := do
  let _ ← Scan.oneOf ["hide", "manual"]
  Scan.blanks1
  Scan.keyword "time"
  let _ ← Scan.optional (Scan.satisfy fun c => c == '-' || Letter.isBlank c)
  Scan.keyword "axis"
  lineEnd
  pure hideAxis

/-- A stereotype, without its brackets; brackets may stand in it. -/
def stereotype : Scan String := do
  Scan.text "<<"
  Scan.blanks
  let s ← Scan.few1 Scan.inLine
  Scan.blanks
  Scan.text ">>"
  pure s

def readPlayer : Scan Line := do
  let isCompact ← compactWord
  let word ← Scan.oneOf ["robust", "concise", "rectangle"]
  Scan.blanks1
  let (code, display) ← labelled
  Scan.blanks
  let s ← Scan.optional stereotype
  Scan.blanks
  let c ← Scan.optional plainColor
  lineEnd
  pure (player
    { code := code, display := display, kind := .ofWord word, compact := isCompact, color := c
      stereotype := s })

/-- A number behind a word, which blanks precede. -/
def setting (word : String) : Scan (Option Number) :=
  Scan.optional do
    Scan.blanks1
    Scan.keyword word
    Scan.blanks1
    number

/-- A clock is high for half of its period unless it is said how long. -/
def readClock : Scan Line := do
  let isCompact ← compactWord
  Scan.keyword "clock"
  Scan.blanks1
  let (code, display) ← labelled
  Scan.blanks1
  phrase ["with", "period"]
  Scan.blanks1
  let period ← number
  let pulse ← setting "pulse"
  let offset ← setting "offset"
  lineEnd
  pure (player
    { code := code, display := display, compact := isCompact
      kind := .clock ⟨period, pulse.getD (Number.half period), offset.getD 0⟩ })

def readBinary : Scan Line := do
  let isCompact ← compactWord
  Scan.keyword "binary"
  Scan.blanks1
  let (code, display) ← labelled
  Scan.blanks
  let c ← Scan.optional plainColor
  lineEnd
  pure (player
    { code := code, display := display, kind := .binary, compact := isCompact, color := c })

def readAnalog : Scan Line := do
  let isCompact ← compactWord
  Scan.keyword "analog"
  Scan.blanks1
  let label ← Scan.optional do
    let s ← quoted
    Scan.blanks1
    pure s
  let range ← Scan.optional do
    let _ ← Scan.oneOf ["between", "from"]
    Scan.blanks1
    let low ← number
    Scan.blanks1
    let _ ← Scan.oneOf ["and", "to"]
    Scan.blanks1
    let high ← number
    Scan.blanks1
    pure (low, high)
  let _ ← Scan.optional do
    Scan.keyword "as"
    Scan.blanks1
  let code ← Token.code
  lineEnd
  pure (player
    { code := code, display := label.getD code, kind := .analog range, compact := isCompact })

/-- The states of a list: texts in quotation marks, and what stands between commas. -/
def stateList (s : List Char) : List String :=
  ((Scan.either (Scan.captured anyQuoted) (Scan.many1 (· != ','))).occurrences s).filterMap
    fun part =>
      let state := Label.unquote (Text.trim part)
      if state.isEmpty then none else some state

/-- A label for a state: the label and the code of the state. -/
def stateLabel : Scan (String × String) := do
  let label ← quoted
  asWord
  let state ← code
  pure (label, state)

def readHas : Scan Line := do
  let player ← code
  Scan.blanks1
  Scan.keyword "has"
  Scan.blanks1
  let s ← rest1
  let s := Chars.trim s.toList
  match stateLabel.whole s with
  | some (label, state) => pure (hasLabel player state label)
  | none => pure (hasStates player (stateList s))

/-- The beginning of a note. -/
def noteHead : Scan PlayerNote := do
  Scan.keyword "note"
  Scan.blanks1
  let word ← Scan.oneOf ["top", "bottom"]
  Scan.blanks1
  Scan.keyword "of"
  Scan.blanks1
  let player ← code
  Scan.blanks
  let c ← Scan.optional plainColor
  Scan.blanks
  pure ⟨word == "top", player, "", c⟩

def readNote : Scan Line := do
  let n ← noteHead
  let _ ← Scan.char ':'
  Scan.blanks
  let s ← rest
  pure (note { n with text := Text.trim s })

def readNoteStart : Scan Line := do
  let n ← noteHead
  Scan.atEnd
  pure (noteStart n)

/-- A label behind a colon at the end of a line. -/
def label : Scan String := do
  Scan.blanks
  let s ← Scan.optional do
    let _ ← Scan.char ':'
    Scan.blanks
    rest
  Scan.atEnd
  pure (Text.trim (s.getD ""))

/-- A color, and further properties that do not count. -/
def highlightColor : Scan String := do
  let c ← plainColor
  let _ ← Scan.repeated do
    let _ ← Scan.char ';'
    Scan.skip1 fun c => Letter.isWord c || c == '-'
    let _ ← Scan.char ':'
    let _ ← Scan.optional (Scan.char '#')
    Scan.many1 Letter.isWord
  pure c

/-- A sign before an instant, which need not be there. -/
def sign : Scan Unit := do
  let _ ← Scan.optional (Scan.char '@')
  pure ()

def readHighlight : Scan Line := do
  Scan.keyword "highlight"
  Scan.blanks1
  sign
  let start ← time
  Scan.blanks1
  Scan.keyword "to"
  Scan.blanks1
  sign
  let stop ← time
  Scan.blanks
  let c ← Scan.optional highlightColor
  let caption ← label
  pure (highlight start stop c caption)

def readConstraint : Scan Line := do
  let player ← Scan.optional code
  let _ ← Scan.char '@'
  let start ← time
  Scan.blanks
  Scan.text "<->"
  Scan.blanks
  let _ ← Scan.char '@'
  let stop ← time
  let s ← label
  pure (constraint player start stop s)

def readMessage : Scan Line := do
  let source ← code
  let _ ← Scan.char '@'
  let sourceTime ← time
  Scan.blanks
  Scan.skip1 (· == '-')
  let _ ← Scan.char '>'
  Scan.blanks
  let target ← code
  let _ ← Scan.char '@'
  let targetTime ← time
  let s ← label
  pure (message source sourceTime target targetTime s)

def readAt : Scan Line := do
  let _ ← Scan.char '@'
  let target ← Scan.few1 fun c => !Letter.isBlank c
  let name ← Scan.optional do
    asWord
    let _ ← Scan.char ':'
    code
  lineEnd
  match time.whole target.toList with
  | some t => pure (atTime t name)
  | none => pure (atPlayer target)

/-- A character of a state that is written without quotation marks or braces. -/
def isStateChar (c : Char) : Bool :=
  !Letter.isBlank c && c != '#' && c != ':'

/-- A state in a line that changes it. -/
def state : Scan String :=
  Scan.anyOf [
    anyQuoted,
    Scan.captured (do
      let _ ← Scan.char '\x7b'
      Scan.skip (· != '\x7d')
      Scan.char '\x7d'),
    Scan.many1 isStateChar]

/-- The word `is` and what follows it. -/
def changeHead : Scan ChangeHead := do
  Scan.blanks1
  Scan.keyword "is"
  Scan.blanks1
  let s ← state
  Scan.blanks
  let c ← Scan.optional plainColor
  Scan.blanks
  let comment ← Scan.optional do
    let _ ← Scan.char ':'
    Scan.blanks
    rest
  Scan.atEnd
  pure ⟨s, c, comment.filter fun s => !s.isEmpty⟩

/-- A code that is a number names no player here. -/
def readPlayerIs : Scan Line := do
  let player ← code
  let head ← changeHead
  Scan.require (!time.reads player.toList)
  pure (playerIs player head)

def readTimeIs : Scan Line := do
  let t ← time
  let head ← changeHead
  pure (timeIs t head)

/-- The forms of lines in the order in which they are tried. -/
def forms : List (Scan Line) := [
  readTitle, readCompact, readHideAxis, readPlayer, readClock, readBinary, readAnalog, readHas,
  readNote, readNoteStart, readHighlight, readConstraint, readMessage, readAt, readPlayerIs,
  readTimeIs]

/-- The meaning of a line, if it has one. -/
def read? (s : List Char) : Option Line :=
  (Scan.anyOf forms).whole s

end Line
end Timing
end UmlDraw
