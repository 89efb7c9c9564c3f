/-
# The lines of an activity diagram

Every line that means something is read as one of the line forms below, the first one that fits.
The bare `end` comes after all lines that end a block, and connectors come last.
-/
import UmlDraw.Activity.Basic
import UmlDraw.Source.Token

namespace UmlDraw
namespace Activity

/-- The start of an action or a note that goes on over several lines. -/
inductive OpenText where
  /-- A note. -/
  | note (isLeft : Bool) (color : Option String) (floating : Bool)
  /-- An action, with the first line of its label. -/
  | action (color : Option String) (first : String)

/-- The forms of lines. -/
inductive Line where
  | title (text : String)
  | lane (lane : Lane)
  | step (s : Step)
  | text (t : OpenText)
  | choice (c : Choice)
  | elseIf (elseLabel : Option String) (condition : String) (label : Option String)
  | otherwise (label : Option String)
  | endChoice
  | whileLoop (l : Loop)
  | endWhile (exitLabel : Option String)
  | repeatLoop (l : Loop)
  | repeatWhile (condition : String) (againLabel exitLabel : Option String)
  | switch (condition : String) (color : Option String)
  | case (label : String)
  | endSwitch
  | fork (isSplit : Bool)
  | forkAgain (isSplit : Bool)
  | endFork (isSplit : Bool)
  | partition (name : String) (color : Option String)
  | closePartition
  | arrow (a : Arrow)

namespace Line

open Token

/-- The end of a line after an optional semicolon. -/
def semicolonEnd : Scan Unit := do
  Scan.blanks
  let _ ← Scan.optional (Scan.char ';')
  lineEnd

/-- A label in parentheses, if there is one, and the end of the line. -/
def labelAtEnd : Scan (Option String) := do
  Scan.blanks
  let label ← Scan.optional inParentheses
  semicolonEnd
  pure label

/-- A color before a colon, if there is one. -/
def colorBefore : Scan (Option String) := do
  let c ← Scan.optional do
    let c ← color
    Scan.blanks
    let _ ← Scan.char ':'
    pure c
  Scan.blanks
  pure c

/-- The word before the label of a positive answer. -/
def isWord : Scan Unit :=
  Scan.anyOf [Scan.keyword "is", do Scan.keyword "equal"; let _ ← Scan.optional (Scan.keyword "s")]

/-- A word that stands alone. -/
def alone (words : List String) : Scan Unit := do
  joined words
  lineEnd

/-- A word that stands alone but for a semicolon. -/
def aloneSemicolon (words : List String) : Scan Unit := do
  phrase words
  semicolonEnd

def readTitle : Scan Line := do
  let s ← Token.title
  pure (title s)

def readLane : Scan Line := do
  let _ ← Scan.char '|'
  let c ← Scan.optional do
    let c ← color
    let _ ← Scan.char '|'
    pure c
  let name ← Scan.many1 (· != '|')
  let _ ← Scan.char '|'
  let label ← Scan.optional (Scan.many1 Scan.inLine)
  lineEnd
  pure (lane ⟨Text.trim name, c, label.map Text.trim⟩)

/-- A step that is written with a word of its own. -/
def readStep (word : String) (s : Step) : Scan Line := do
  alone [word]
  pure (step s)

/-- The end of a block that is written with words of its own. -/
def readClose (words : List String) (line : Line) : Scan Line := do
  alone words
  pure line

def readElseIf : Scan Line := do
  let elseLabel ← Scan.optional do
    let s ← inParentheses
    Scan.blanks
    pure s
  joined ["else", "if"]
  Scan.blanks
  let condition ← inParentheses
  Scan.blanks
  Scan.keyword "then"
  let label ← labelAtEnd
  pure (elseIf elseLabel condition label)

def readOtherwise : Scan Line := do
  Scan.keyword "else"
  let label ← labelAtEnd
  pure (otherwise label)

def readEndWhile : Scan Line := do
  Scan.either (joined ["end", "while"]) (joined ["while", "end"])
  let label ← labelAtEnd
  pure (endWhile label)

/-- The labels of both answers, or of one of them, behind the condition of a loop. -/
def answers : Scan (Option String × Option String) :=
  Scan.either
    (do
      isWord
      Scan.blanks
      let again ← inParentheses
      Scan.blanks
      let out ← Scan.optional do
        Scan.keyword "not"
        Scan.blanks
        inParentheses
      Scan.blanks
      pure (some again, out))
    (do
      Scan.keyword "not"
      Scan.blanks
      let out ← inParentheses
      Scan.blanks
      pure (none, some out))

/-- The label of the connector back to the start of a loop. -/
def backLabel : Scan Unit := do
  Scan.either (Scan.text "->") do
    Scan.text "-["
    Scan.skip1 (· != ']')
    Scan.text "]->"
  Scan.blanks
  Scan.skipFew1 Scan.inLine

def readRepeatWhile : Scan Line := do
  joined ["repeat", "while"]
  Scan.blanks
  let test ← Scan.optional do
    let condition ← inParentheses
    Scan.blanks
    let labels ← Scan.optional answers
    pure (condition, labels.getD (none, none))
  let _ ← Scan.optional backLabel
  semicolonEnd
  let (condition, again, out) := test.getD ("", none, none)
  pure (repeatWhile condition again out)

def readEndFork : Scan Line := do
  Scan.either (joined ["end", "fork"]) (joined ["fork", "end"])
  Scan.blanks
  let _ ← Scan.optional do
    let _ ← Scan.char '\x7b'
    Scan.skip (· != '\x7d')
    Scan.char '\x7d'
  lineEnd
  pure (endFork false)

def readEndSplit : Scan Line := do
  Scan.either (joined ["end", "split"]) (joined ["split", "end"])
  lineEnd
  pure (endFork true)

def readClosePartition : Scan Line := do
  let _ ← Scan.char '\x7d'
  lineEnd
  pure closePartition

def readChoice : Scan Line := do
  let c ← colorBefore
  Scan.keyword "if"
  Scan.blanks
  let condition ← inParentheses
  Scan.blanks
  Scan.keyword "then"
  let label ← labelAtEnd
  pure (choice { condition := condition, thenLabel := label, color := c })

/-- A decision with the label of its first branch before the word `then`. -/
def readChoiceIs : Scan Line := do
  let c ← colorBefore
  Scan.keyword "if"
  Scan.blanks
  let condition ← inParentheses
  Scan.blanks
  isWord
  Scan.blanks
  let label ← inParentheses
  Scan.blanks
  Scan.keyword "then"
  semicolonEnd
  pure (choice { condition := condition, thenLabel := some label, color := c })

def readWhile : Scan Line := do
  let c ← colorBefore
  Scan.keyword "while"
  Scan.blanks
  let condition ← inParentheses
  Scan.blanks
  let label ← Scan.optional do
    isWord
    Scan.blanks
    inParentheses
  semicolonEnd
  pure (whileLoop { test := .before, condition := condition, againLabel := label, color := c })

def readRepeat : Scan Line := do
  let c ← colorBefore
  Scan.keyword "repeat"
  Scan.blanks
  let label ← Scan.optional do
    let _ ← Scan.char ':'
    let s ← Scan.few1 Scan.inLine
    let _ ← Scan.char ';'
    pure s
  lineEnd
  pure (repeatLoop { test := .after label, color := c })

def readSwitch : Scan Line := do
  let c ← colorBefore
  Scan.keyword "switch"
  Scan.blanks
  let condition ← inParentheses
  lineEnd
  pure (switch condition c)

def readCase : Scan Line := do
  Scan.keyword "case"
  Scan.blanks
  let label ← inParentheses
  lineEnd
  pure (case label)

/-- A line about a fork or a split. -/
def readFork (words : List String) (line : Line) : Scan Line := do
  aloneSemicolon words
  pure line

def readPartition : Scan Line := do
  let _ ← Scan.oneOf ["partition", "package", "rectangle", "card", "group"]
  Scan.blanks1
  let before ← Scan.optional do
    let c ← color
    Scan.blanks1
    pure c
  let name ← Scan.either quoted (Scan.many1 fun c => !Letter.isBlank c)
  Scan.blanks
  let behind ← Scan.optional do
    let c ← color
    Scan.blanks
    pure c
  let _ ← Scan.optional (Scan.char '\x7b')
  lineEnd
  pure (partition name (before.or behind))

/-- The words before the text of a note: whether it is floating, whether it stands on the left,
and its color. -/
def noteHead : Scan (Bool × Bool × Option String) := do
  let floating ← Scan.present do
    Scan.keyword "floating"
    Scan.blanks1
  Scan.keyword "note"
  Scan.blanks1
  let side ← Scan.oneOf ["left", "right"]
  Scan.blanks
  let c ← Scan.optional do
    let c ← color
    Scan.blanks
    pure c
  pure (floating, side == "left", c)

def readNote : Scan Line := do
  let (floating, isLeft, c) ← noteHead
  let _ ← Scan.char ':'
  Scan.blanks
  let s ← rest1
  pure (step (.note ⟨isLeft, Text.replaceAll "\\n" "\n" s, c, floating⟩))

def readNoteStart : Scan Line := do
  let (floating, isLeft, c) ← noteHead
  Scan.atEnd
  pure (text (.note isLeft c floating))

/-- A label up to a semicolon at the end of the line. -/
def labelToSemicolon : Scan String := do
  let s ← Scan.many1 fun _ => true
  let _ ← Scan.char ';'
  Scan.atEnd
  pure s

def readBackward : Scan Line := do
  Scan.keyword "backward"
  Scan.blanks
  let _ ← Scan.char ':'
  let s ← labelToSemicolon
  pure (step (.action s none))

/-- A color before the colon of an action. -/
def actionColor : Scan (Option String) := do
  let c ← Scan.optional do
    let c ← color
    Scan.blanks
    pure c
  let _ ← Scan.char ':'
  pure c

def readAction : Scan Line := do
  let c ← actionColor
  let s ← labelToSemicolon
  pure (step (.action s c))

/-- The line does not end with a semicolon. -/
def isUnfinished (s : String) : Bool :=
  s.toList.getLast? != some ';'

def readActionStart : Scan Line := do
  let c ← actionColor
  let s ← rest
  Scan.require (isUnfinished s)
  pure (text (.action c s))

/-- A word that changes a connector.  These words are written in small letters. -/
def styleWord : Scan Unit :=
  Scan.anyOf [
    do let _ ← plainColor,
    Scan.text "dotted", Scan.text "dashed", Scan.text "plain", Scan.text "bold",
    Scan.text "hidden", Scan.text "norank", Scan.text "single",
    do Scan.text "thickness="; Scan.skip1 Letter.isDigit]

/-- Words that change a connector. -/
def styleWords : Scan String :=
  Scan.captured do
    styleWord
    let _ ← Scan.repeated do
      let _ ← Scan.satisfy fun c => c == ',' || c == ';'
      styleWord
    pure ()

/-- The words between the brackets of a connector that make it dashed. -/
def dashedWord : Scan Unit :=
  Scan.either (Scan.keyword "dashed") (Scan.keyword "dotted")

/-- The connector with the given style words and label. -/
def arrowOf (style : Option String) (label : Option String) : Arrow :=
  match style with
  | none => ⟨label.map Text.trim, none, false⟩
  | some s =>
    ⟨label.map Text.trim, (plainColor.search s.toList).map fun found => found.2.1,
      dashedWord.occurs s.toList⟩

def readArrow : Scan Line := do
  let style ← Scan.either
    (do Scan.text "->"; pure none)
    (do
      Scan.text "-["
      let s ← styleWords
      Scan.text "]->"
      pure (some s))
  Scan.blanks
  let label ← Scan.optional <| Scan.either
    (do
      let s ← Scan.few1 Scan.inLine
      Scan.blanks
      let _ ← Scan.char ';'
      pure s)
    (Scan.many1 Scan.inLine)
  lineEnd
  pure (arrow (arrowOf style label))

/-- The forms of lines, in the order in which they are tried. -/
def forms : List (Scan Line) := [
  readTitle, readLane,
  readStep "start" .start, readStep "stop" .stop,
  readStep "kill" .kill, readStep "detach" .kill, readStep "break" .leave,
  readClose ["end", "if"] endChoice, readElseIf, readOtherwise, readEndWhile, readRepeatWhile,
  readClose ["end", "switch"] endSwitch, readEndFork, readEndSplit, readClosePartition,
  readStep "end" .finish,
  readChoice, readChoiceIs, readWhile, readRepeat, readSwitch, readCase,
  readFork ["fork", "again"] (forkAgain false), readFork ["fork"] (fork false),
  readFork ["split", "again"] (forkAgain true), readFork ["split"] (fork true),
  readPartition, readNote, readNoteStart, readBackward, readAction, readActionStart, readArrow]

/-- The meaning of a line, if it has one. -/
def read? (s : List Char) : Option Line :=
  (Scan.anyOf forms).whole s

/-- A line that changes what is shown; it means nothing here. -/
def isDisplay : Scan Unit := do
  Scan.either (Scan.keyword "hide") (Scan.keyword "show")
  let _ ← Scan.satisfy Letter.isBlank
  pure ()

end Line
end Activity
end UmlDraw
