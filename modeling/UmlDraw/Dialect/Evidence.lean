/-
# What speaks for a dialect

A diagram text need not say in which dialect it is written.  Each dialect has signs of its own:
words at the start of lines, and arrows and brackets within them.  A dialect is recognised when the
text has enough of its signs.
-/
import UmlDraw.Source.Line
import UmlDraw.Source.Token

namespace UmlDraw
namespace Evidence

/-- The lines of a text in which signs are looked for. -/
def lines (text : String) : List (List Char) :=
  ((Source.lines text).map SourceLine.text).filter fun s => !s.isEmpty

/-- One of several words with blanks behind it. -/
def wordThenBlanks (words : List String) : Scan Unit := do
  let _ ← Scan.oneOf words
  Scan.blanks1

/-- One of several words, where it ends. -/
def wholeWord (words : List String) : Scan Unit := do
  let _ ← Scan.oneOf words
  Scan.wordEnd

/-- One of several texts. -/
def anyText (texts : List String) : Scan Unit :=
  Scan.anyOf (texts.map Scan.text)

/-- The reading does not end inside a word. -/
def outsideWord (before : String) : Scan Unit :=
  Scan.require (match before.toList.getLast? with
    | none => true
    | some c => !Letter.isWord c)

/-! ### Class diagrams -/

/-- A declaration of an entity. -/
def entityKeyword : Scan Unit :=
  Scan.either
    (do
      Token.phrase ["abstract", "class"]
      Scan.blanks1)
    (wordThenBlanks ["abstract", "class", "interface", "enum", "annotation", "entity", "struct",
      "record", "object", "map", "json"])

/-- A link between classes. -/
def classLink : Scan Unit :=
  Scan.either (anyText ["<|--", "--|>", "*--", "--*", "o--", "<|..", ".|>"])
    (do
      Scan.text "--o"
      Scan.wordEnd)

/-- Two declarations, or a declaration and a link, speak for a class diagram. -/
def classes (text : String) : Bool :=
  let ls := lines text
  let declarations := ls.countP entityKeyword.begins
  2 ≤ declarations || (1 ≤ declarations && ls.any classLink.occurs)

/-! ### Use case diagrams -/

/-- A word, an optional slash and blanks. -/
def slashWord (word : String) : Scan Unit := do
  Scan.keyword word
  let _ ← Scan.optional (Scan.char '/')
  Scan.blanks1

/-- An actor between colons. -/
def colonActor : Scan Unit := do
  let _ ← Scan.char ':'
  Scan.skip1 (· != ':')
  let _ ← Scan.char ':'
  pure ()

/-- The part of an arrow after which a shape in brackets may stand. -/
def arrowEnd (isLine : Char → Bool) : Scan Unit := do
  let _ ← Scan.satisfy isLine
  let _ ← Scan.optional (Scan.char '>')
  Scan.blanks

/-- A scan succeeds at the start of a line, or behind an arrow. -/
def behindArrow (isLine : Char → Bool) (p : Scan Unit) (s : List Char) : Bool :=
  p.begins s || (arrowEnd isLine >>= fun _ => p).occurs s

/-- A use case in parentheses. -/
def bracedUseCase : Scan Unit := do
  let _ ← Scan.char '('
  Scan.skip1 fun c => c != '(' && c != ')' && c != '*'
  let _ ← Scan.char ')'
  pure ()

/-- The characters of an arrow before a use case. -/
def isUseCaseLine (c : Char) : Bool :=
  c == '-' || c == '.' || c == '='

/-- Two use cases, or a use case and an actor or a second kind of sign, speak for a use case
diagram. -/
def useCases (text : String) : Bool :=
  let ls := lines text
  let declared := ls.countP (slashWord "usecase").begins
  let hasActor := ls.any fun s => (slashWord "actor").begins s || colonActor.begins s
  let hasBraced := ls.any (behindArrow isUseCaseLine bracedUseCase)
  2 ≤ declared || (1 ≤ declared && (hasActor || hasBraced)) || (hasBraced && hasActor)

/-! ### Component diagrams -/

/-- A word that only component diagrams have. -/
def strongKeyword : Scan Unit :=
  wordThenBlanks ["component", "node", "cloud", "artifact", "folder", "frame", "storage", "card",
    "agent", "stack", "hexagon", "file", "port", "portin", "portout"]

/-- A word that other diagrams have too. -/
def weakKeyword : Scan Unit :=
  wordThenBlanks ["database", "queue", "interface", "rectangle", "package", "collections"]

/-- A component in brackets. -/
def bracketComponent : Scan Unit := do
  let _ ← Scan.char '['
  Scan.ahead fun s => s.head? != some '#'
  Scan.skip1 fun c => c != '[' && c != ']' && c != '*'
  let _ ← Scan.char ']'
  Scan.ahead fun s => (Chars.trimLeft s).head? != some '-'

/-- The characters of an arrow before a component. -/
def isComponentLine (c : Char) : Bool :=
  isUseCaseLine c || c == '~'

/-- An interface written as an empty pair of parentheses and a name. -/
def bareInterface : Scan Unit := do
  Scan.text "()"
  Scan.blanks
  let _ ← Scan.satisfy fun c => !Letter.isBlank c
  pure ()

/-- A word of sequence diagrams. -/
def sequenceWord : Scan Unit :=
  wholeWord ["participant", "activate", "deactivate", "autonumber", "alt", "loop", "opt", "par"]

/-- A strong sign speaks for a component diagram, and so do two weak ones if none speaks for a
sequence diagram. -/
def components (text : String) : Bool :=
  let ls := lines text
  let isStrong (s : List Char) : Bool :=
    strongKeyword.begins s || behindArrow isComponentLine bracketComponent s ||
      bareInterface.begins s
  ls.any isStrong || (2 ≤ ls.countP weakKeyword.begins && !ls.any sequenceWord.begins)

/-! ### Timing diagrams -/

/-- The word before the kind of a player. -/
def compactWord : Scan Unit := do
  let _ ← Scan.optional (wordThenBlanks ["compact"])
  pure ()

/-- A declaration of a player. -/
def player : Scan Unit := do
  compactWord
  wordThenBlanks ["robust", "concise", "binary", "analog"]

/-- A declaration of a clock. -/
def clock : Scan Unit := do
  compactWord
  wordThenBlanks ["clock"]
  let before ← Scan.few Scan.inLine
  outsideWord before
  Token.phrase ["with", "period"]
  Scan.wordEnd

/-- A highlighted span of time. -/
def highlight : Scan Unit := do
  wordThenBlanks ["highlight"]
  Scan.skip1 fun c => !Letter.isBlank c
  Scan.blanks1
  wordThenBlanks ["to"]

/-- An instant. -/
def instant : Scan Unit := do
  let _ ← Scan.char '@'
  let _ ← Scan.optional (Scan.char '+')
  let _ ← Scan.satisfy Letter.isDigit
  pure ()

/-- A player or a clock, or two of the other signs, speak for a timing diagram. -/
def timing (text : String) : Bool :=
  let ls := lines text
  ls.any (fun s => player.begins s || clock.begins s) ||
    2 ≤ ls.countP fun s => highlight.begins s || instant.begins s

/-! ### State diagrams -/

/-- A stereotype that makes a state a mark. -/
def markStereotype : Scan Unit := do
  Scan.text "<<"
  Scan.blanks
  Scan.either
    (do
      Scan.keyword "history"
      let _ ← Scan.optional (Scan.char '*')
      pure ())
    (do
      let _ ← Scan.oneOf ["choice", "fork", "join"]
      pure ())
  Scan.blanks
  Scan.text ">>"

/-- The weight of a line for a state diagram, arrows aside. -/
def stateWeight (s : List Char) : Nat :=
  (if (Scan.text "[*]").occurs s then 3 else 0) +
  (if (wordThenBlanks ["state"]).begins s then 2 else 0) +
  (if markStereotype.occurs s then 2 else 0) +
  (if (Token.phrase ["hide", "empty", "description"]).begins s then 2 else 0)

/-- Signs of weight three speak for a state diagram; all arrows together have weight one. -/
def states (text : String) : Bool :=
  let ls := lines text
  let arrows := if ls.any (Scan.text "-->").occurs then 1 else 0
  3 ≤ (ls.map stateWeight).foldl (· + ·) arrows

/-! ### Activity diagrams -/

/-- A line that is one of several words. -/
def loneWord (words : List String) : Scan Unit := do
  let _ ← Scan.oneOf words
  Scan.atEnd

/-- A word and an opening parenthesis. -/
def wordThenParenthesis (word : String) : Scan Unit := do
  Scan.keyword word
  Scan.blanks
  let _ ← Scan.char '('
  pure ()

/-- The start of a condition with its answer. -/
def condition : Scan Unit := do
  wordThenParenthesis "if"
  Scan.skip Scan.inLine
  let _ ← Scan.char ')'
  Scan.blanks
  wholeWord ["then"]

/-- A swimlane between bars. -/
def swimlane : Scan Unit := do
  let _ ← Scan.char '|'
  let _ ← Scan.optional do
    let _ ← Token.plainColor
    Scan.char '|'
  Scan.skip1 (· != '|')
  let _ ← Scan.char '|'
  pure ()

/-- An action, or the first line of one. -/
def action : Scan Unit := do
  let _ ← Scan.char ':'
  Scan.either
    (do
      Scan.skip Scan.inLine
      let _ ← Scan.char ';'
      Scan.atEnd)
    (do
      Scan.skip (· != ':')
      Scan.atEnd)

/-- The signs of an activity diagram at the start of a line. -/
def activitySign : Scan Unit :=
  Scan.anyOf [
    action, loneWord ["start", "stop", "kill", "detach"], condition, wordThenParenthesis "while",
    wholeWord ["repeat"], wordThenParenthesis "switch", loneWord ["fork", "split"],
    wordThenBlanks ["partition"], swimlane]

/-- One sign speaks for an activity diagram. -/
def activity (text : String) : Bool :=
  (lines text).any activitySign.begins

/-! ### Sequence diagrams -/

/-- The arrow of a message behind the last character of its sender. -/
def arrow : Scan Unit := do
  let _ ← Scan.satisfy fun c => Letter.isWord c || ['.', '@', '"', ']', '['].contains c
  Scan.blanks
  let _ ← Scan.optional (Scan.satisfy fun c => c == '<' || c == 'o' || c == 'x')
  Scan.skip1 (· == '-')
  let _ ← Scan.satisfy fun c => ['>', '|', '<', ']', '\x7d', '[', '\x7b', '\\', '/'].contains c
  pure ()

/-- A word of sequence diagrams at the start of a line. -/
def sequenceKeyword : Scan Unit :=
  wholeWord ["participant", "actor", "boundary", "control", "activate", "deactivate", "destroy",
    "alt", "loop", "opt", "return", "autonumber"]

/-- One sign speaks for a sequence diagram. -/
def sequence (text : String) : Bool :=
  (lines text).any fun s => arrow.occurs s || sequenceKeyword.begins s

end Evidence
end UmlDraw
