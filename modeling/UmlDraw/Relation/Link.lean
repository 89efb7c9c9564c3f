/-
# Links

A link joins two shapes.  Each end has a mark, a label and a qualifier; what stands at an end is
kept together with the shape there, so that a link can be turned around.
-/
import UmlDraw.Relation.Basic
import UmlDraw.Source.Token

namespace UmlDraw

/-- One end of a link. -/
structure LinkEnd where
  /-- The code of the shape. -/
  code : String
  /-- The mark. -/
  mark : EndMark
  /-- The label. -/
  label : Option String
  /-- The qualifier. -/
  qualifier : Option String
deriving DecidableEq, Repr

/-- A link. -/
structure Link where
  source : LinkEnd
  target : LinkEnd
  /-- How the line is drawn. -/
  line : LineStyle
  /-- The label in the middle. -/
  label : Option String
  /-- The way it runs. -/
  direction : Option Direction
  color : Option String
deriving DecidableEq, Repr

/-- The opposite direction. -/
def Direction.opposite : Direction → Direction
  | left => right
  | right => left
  | up => down
  | down => up

namespace Link

/-- The link in the other direction. -/
def reversed (l : Link) : Link :=
  { l with
    source := l.target, target := l.source, direction := l.direction.map Direction.opposite }

/-- The link, turned around if only its source has a mark. -/
def oriented (l : Link) : Link :=
  if l.source.mark ≠ .none ∧ l.target.mark = .none then l.reversed else l

/-- The link with other codes at its ends. -/
def rename (l : Link) (source target : String) : Link :=
  { l with source := { l.source with code := source }, target := { l.target with code := target } }

/-- A mark at the end of a line, as it is written. -/
def writtenMark (spellings : List (String × EndMark)) : Scan String :=
  Scan.captured (Scan.anyOf (spellings.map fun (s, _) => Scan.keyword s))

/-- The mark that a spelling stands for. -/
def markOf (spellings : List (String × EndMark)) (written : Option String) : EndMark :=
  (written.bind fun s => spellings.lookup s).getD .none

/-- A modifier with its brackets. -/
def modifier : Scan String :=
  Scan.captured do
    let _ ← Scan.char '['
    Scan.skip (· != ']')
    Scan.char ']'

/-- A qualifier in brackets. -/
def qualifier : Scan String := do
  let _ ← Scan.char '['
  let s ← Scan.many1 (· != ']')
  let _ ← Scan.char ']'
  pure s

/-- The words for directions inside a line, in the order in which they are tried. -/
def directionWords : List String :=
  ["left", "right", "up", "down", "le", "ri", "do", "l", "r", "u", "d"]

/-- A direction with a modifier and the part of the line behind it. -/
def turn (body : Scan Unit) : Scan (String × Option String × String) := do
  let word ← Scan.oneOf directionWords
  let m ← Scan.optional modifier
  let b ← Scan.captured body
  pure (word, m, b)

/-- A line that writes a link: names of shapes as `shape` reads them, a line as `body` reads it,
and qualifiers only if they are allowed.  The codes of the link are the names as they are
written. -/
def scan (shape : Scan String) (body : Scan Unit) (qualified : Bool) : Scan Link := do
  let left ← shape
  let leftLabel ← Scan.optional do
    Scan.blanks1
    Token.quoted
  let leftQualifier ← Scan.optional do
    Scan.require qualified
    Scan.blanks
    qualifier
  Scan.blanks
  let leftMark ← Scan.optional (writtenMark EndMark.leftSpellings)
  let body1 ← Scan.captured body
  let modifier1 ← Scan.optional modifier
  let turned ← Scan.optional (turn body)
  let rightMark ← Scan.optional (writtenMark EndMark.rightSpellings)
  Scan.blanks
  let rightLabel ← Scan.optional do
    let s ← Token.quoted
    Scan.blanks
    pure s
  let rightQualifier ← Scan.optional do
    Scan.require qualified
    let s ← qualifier
    Scan.blanks
    pure s
  let right ← shape
  let label ← Token.labelAtEnd
  let (direction, modifier2, body2) :=
    match turned with
    | some (word, m, b) => (Direction.ofWord? word, m.getD "", b)
    | none => (none, "", "")
  let items := ModifierItem.read (modifier1.getD "" ++ modifier2)
  pure
    { source := ⟨left, markOf EndMark.leftSpellings leftMark, leftLabel, leftQualifier⟩
      target := ⟨right, markOf EndMark.rightSpellings rightMark, rightLabel, rightQualifier⟩
      line := (ModifierItem.line? items).getD (LineStyle.ofBody (body1 ++ body2))
      label := label
      direction := direction
      color := ModifierItem.color? items }

end Link
end UmlDraw
