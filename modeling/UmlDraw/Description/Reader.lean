/-
# Reading use case and component diagrams

`Reader` is the machine that reads a diagram line by line.  Elements are made when they are named
first; a later declaration adds what was not known.  An element belongs to the container in which it
was placed first.  A keyword that stands for nothing is kept as the fault of the reader.
-/
import UmlDraw.Data.Fault
import UmlDraw.Description.Line
import UmlDraw.Number.Decimal
import UmlDraw.Source.Line

namespace UmlDraw
namespace Description

/-- What goes on over several lines, with its lines so far. -/
inductive OpenBody where
  | note (n : Note) (lines : List (List Char))
  | label (l : OpenLabel) (lines : List (List Char))

/-- The state between two lines. -/
structure Reader where
  dialect : Dialect
  title : Option String := none
  /-- The elements so far. -/
  elements : Keyed Element := Keyed.empty
  /-- The links so far. -/
  links : List Link := []
  /-- The notes so far. -/
  notes : List Note := []
  leftToRight : Bool := false
  /-- The containers and groups so far. -/
  nesting : Nesting ContainerHead := {}
  /-- The codes of free notes so far. -/
  noteCodes : List String := []
  /-- What goes on over several lines. -/
  body : Option OpenBody := none
  /-- Why the text cannot be read, if it cannot. -/
  fault : Option UnknownKeyword := none

namespace Reader

/-- Puts an element into the innermost container, unless it is in one, and into the innermost
group. -/
def place (r : Reader) (code : String) : Reader :=
  let isPlaced := ((r.elements.get? code).bind Element.containerPath).isSome
  let r :=
    match if isPlaced then none else r.nesting.path? with
    | some path =>
      { r with
        elements := r.elements.modify code fun e => { e with containerPath := some path }
        nesting := r.nesting.enterFolder code }
    | none => r
  { r with nesting := r.nesting.enterTogether (Nesting.addOnce code) }

/-- An element with what a later declaration of it adds. -/
def merge (dialect : Dialect) (e more : Element) : Element :=
  { e with
    kind := if e.kind = dialect.defaultKind then more.kind else e.kind
    display := if e.display = e.code then more.display else e.display
    stereotypes := more.stereotypes.foldl (fun all s => Nesting.addOnce s all) e.stereotypes
    color := more.color.or e.color
    lineColor := more.lineColor.or e.lineColor }

/-- Declares an element. -/
def declare (r : Reader) (e : Element) : Reader :=
  let elements :=
    if r.elements.contains e.code then r.elements.modify e.code fun old => merge r.dialect old e
    else r.elements.insert e.code e
  { r with elements := elements }.place e.code

/-- The code belongs to a container. -/
def isContainer (r : Reader) (code : String) : Bool :=
  r.nesting.heads.any fun h => h.code == code

/-- Makes the element that a name stands for, unless its code is known. -/
def mention (r : Reader) (ref : Reference) : Reader :=
  if r.noteCodes.contains ref.code || r.elements.contains ref.code || r.isContainer ref.code then r
  else
    { r with
      elements := r.elements.insert ref.code (Element.named ref.code ref.display ref.kind) }.place
      ref.code

/-- The note of a line, with the element it speaks of by its code and with the last link. -/
def settle (r : Reader) (n : Note) : Note :=
  match n.target with
  | .shape written => { n with target := .shape (Line.reference r.dialect written).code }
  | .link _ =>
    { n with target := .link (if r.links.isEmpty then none else some (r.links.length - 1)) }
  | .free _ => n

/-- Remembers the code of a free note. -/
def rememberNote (r : Reader) (n : Note) : Reader :=
  match n.target with
  | .free code => { r with noteCodes := Nesting.addOnce code r.noteCodes }
  | _ => r

/-- Handles a link. -/
def addLink (r : Reader) (l : Link) : Reader :=
  let source := Line.reference r.dialect l.source.code
  let target := Line.reference r.dialect l.target.code
  let r := (r.mention source).mention target
  { r with links := r.links ++ [l.rename source.code target.code] }

/-- Handles a line with a meaning. -/
def apply (r : Reader) : Line → Reader
  | .title s => { r with title := some s }
  | .direction b => { r with leftToRight := b }
  | .together => { r with nesting := r.nesting.openTogether }
  | .container head => { r with nesting := r.nesting.openFolder head head.code }
  | .blockEnd => { r with nesting := r.nesting.close }
  | .display => r
  | .labelStart l lines => { r with body := some (.label l lines) }
  | .declare e => r.declare e
  | .note (.complete n) =>
    let r' := r.rememberNote n
    { r' with notes := r'.notes ++ [r.settle n] }
  | .note (.start n) => { r.rememberNote n with body := some (.note (r.settle n) []) }
  | .link l => r.addLink l
  | .faulty k => { r with fault := r.fault.or (some k) }

/-- The lines that are not blank, as one text. -/
def joined (lines : List (List Char)) : String :=
  String.ofList (Chars.join ['\n'] (lines.filter fun l => !Chars.isBlankText l))

/-- The lines with the last part of a label, unless that is blank. -/
def withLast (lines : List (List Char)) (last : String) : List (List Char) :=
  let last := Chars.trim last.toList
  if last.isEmpty then lines else lines ++ [last]

/-- The first text of a list that is not empty. -/
def firstFilled (texts : List String) : String :=
  (texts.find? fun s => !s.isEmpty).getD ""

/-- The element that a label becomes at a line, if the line ends the label.  The number of elements
so far gives the code if nothing else does. -/
def endLabel (count : Nat) (lines : List (List Char)) (s : List Char) :
    OpenLabel → Option Element
  | .brackets e => do
    let last ← Line.bracketsEnd.whole s
    some { e with display := firstFilled [joined (withLast lines last), e.code] }
  | .quotes kind => do
    let (last, code, stereotypes, color) ← Line.quotesEnd.whole s
    let lines := withLast lines last
    let first := (lines.find? fun l => !Chars.isBlankText l).getD []
    let code := firstFilled
      [code.getD "", Label.code (String.ofList first),
        "elem" ++ String.ofList (Decimal.digits (count + 1))]
    some
      { code := code, display := firstFilled [joined lines, code], kind := kind, color := color
        stereotypes := stereotypes }

/-- Handles a line. -/
def step (r : Reader) (line : SourceLine) : Reader :=
  match r.body with
  | some (.note n lines) =>
    if Token.endNote.reads line.text then
      { r with notes := r.notes ++ [{ n with text := Label.dedent lines }], body := none }
    else { r with body := some (.note n (lines ++ [line.raw])) }
  | some (.label l lines) =>
    match endLabel r.elements.entries.length lines line.text l with
    | some e => { r with body := none }.declare e
    | none => { r with body := some (.label l (lines ++ [line.text])) }
  | none =>
    if line.text.isEmpty then r
    else
      match Line.read? r.dialect line.text with
      | some l => r.apply l
      | none => r

/-- The diagram that was read. -/
def finish (r : Reader) : Diagram :=
  { title := r.title, elements := r.elements, links := r.links
    containers := r.nesting.allFolders, notes := r.notes, leftToRight := r.leftToRight
    groups := r.nesting.groups }

end Reader

/-- The diagram of a text in a dialect, unless a keyword in it stands for nothing. -/
def Diagram.read (dialect : Dialect) (text : String) : Except UnknownKeyword Diagram :=
  let r : Reader := (Source.lines text).foldl Reader.step { dialect := dialect }
  Fault.check r.fault r.finish

end Description
end UmlDraw
