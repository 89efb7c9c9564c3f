/-
# Notes

A note stands beside a shape, on a link, or free with a code of its own.  Its text follows a colon
in the same line or goes on over several lines.
-/
import UmlDraw.Relation.Basic
import UmlDraw.Source.Token

namespace UmlDraw

/-- What a note speaks of. -/
inductive NoteTarget where
  /-- A shape. -/
  | shape (code : String)
  /-- A link, by its place in the list of links; none if there is no link yet. -/
  | link (index : Option Nat)
  /-- Nothing; links may name the note by its code. -/
  | free (code : String)
deriving DecidableEq, Repr

/-- A note. -/
structure Note where
  side : Side := .right
  text : String := ""
  target : NoteTarget
  color : Option String
deriving DecidableEq, Repr

/-- A line that writes a note: with its text, or with the text in the lines that follow. -/
inductive NoteLine where
  | complete (n : Note)
  | start (n : Note)

namespace NoteTarget

/-- The code of the shape that a note speaks of. -/
def shape? : NoteTarget → Option String
  | shape code => some code
  | _ => none

/-- The code of a free note. -/
def free? : NoteTarget → Option String
  | free code => some code
  | _ => none

/-- The place of the link that a note speaks of. -/
def link? : NoteTarget → Option Nat
  | link index => index
  | _ => none

/-- The note speaks of a link. -/
def isLink : NoteTarget → Bool
  | link _ => true
  | _ => false

end NoteTarget

namespace NoteLine

/-- The word for the side of a note. -/
def side : Scan Side := do
  let word ← Scan.oneOf ["left", "right", "top", "bottom"]
  pure (Side.ofWord word)

/-- The words of a note beside a shape; the shape is named as `shape` reads it. -/
def beside (shape color : Scan String) : Scan Note := do
  Scan.keyword "note"
  Scan.blanks1
  let s ← side
  Scan.blanks1
  Scan.keyword "of"
  Scan.blanks1
  let code ← shape
  Scan.blanks
  let c ← Scan.optional color
  pure { side := s, target := .shape code, color := c }

/-- The words of a note on the last link. -/
def onLink (color : Scan String) : Scan Note := do
  Scan.keyword "note"
  Scan.blanks1
  let s ← Scan.optional do
    let s ← side
    Scan.blanks1
    pure s
  Token.phrase ["on", "link"]
  Scan.blanks
  let c ← Scan.optional color
  pure { side := s.getD .right, target := .link none, color := c }

/-- The text behind a colon. -/
def withText (head : Scan Note) : Scan NoteLine := do
  let n ← head
  Scan.blanks
  let _ ← Scan.char ':'
  Scan.blanks
  let s ← Token.rest
  pure (complete { n with text := Text.trim s })

/-- The text follows in the next lines. -/
def withoutText (head : Scan Note) : Scan NoteLine := do
  let n ← head
  Token.lineEnd
  pure (start n)

/-- A free note with its text in quotation marks. -/
def freeNote (color : Scan String) : Scan NoteLine := do
  Scan.keyword "note"
  Scan.blanks1
  let s ← Token.anyQuoted
  Token.asWord
  let code ← Scan.many1 Letter.isWord
  Scan.blanks
  let c ← Scan.optional color
  Token.lineEnd
  pure (complete { text := s, target := .free code, color := c })

/-- A free note whose text follows in the next lines. -/
def freeNoteStart (color : Scan String) : Scan NoteLine := do
  Scan.keyword "note"
  Token.asWord
  let code ← Scan.many1 Letter.isWord
  Scan.blanks
  let c ← Scan.optional color
  Token.lineEnd
  pure (start { target := .free code, color := c })

/-- A line that writes a note. -/
def scan (shape color : Scan String) : Scan NoteLine :=
  Scan.anyOf [
    withText (beside shape color), withoutText (beside shape color),
    freeNote color, freeNoteStart color,
    withText (onLink color), withoutText (onLink color)]

end NoteLine
end UmlDraw
