/-
# The lines of a diagram text

A diagram text is read line by line.  Before a dialect sees a line, comments, start and end marks,
settings and style blocks are removed.  `SourceReader` is the machine that does it: it remembers
whether a block comment, a style block or a settings block is open.  Blank lines are kept, since
they count inside notes.
-/
import UmlDraw.Pattern.Matching
import UmlDraw.Pattern.Reader
import UmlDraw.Text.Scan

namespace UmlDraw

/-- A line of a diagram text. -/
structure SourceLine where
  /-- The line without the blanks around it. -/
  text : List Char
  /-- The line without the blanks at its end. -/
  raw : List Char
deriving DecidableEq

/-- What is open between two lines. -/
structure SourceReader where
  /-- A block comment is open. -/
  inComment : Bool := false
  /-- The number of braces open in a settings block; not zero while in the block. -/
  depth : Int := 0
  /-- A style block is open. -/
  inStyle : Bool := false
deriving DecidableEq

namespace SourceReader

/-- The mark at the start of a block comment. -/
def commentStart : List Char := ['/', '\'']

/-- The mark at the end of a block comment. -/
def commentEnd : List Char := ['\'', '/']

/-- A block comment within one line. -/
def inlineComment : Scan Unit := do
  Scan.chars commentStart
  Scan.skipFew Scan.inLine
  Scan.chars commentEnd

/-- The start of a settings block. -/
def settingsStart : Scan Unit := do
  Scan.keyword "skinparam"
  Scan.wordEnd
  Scan.skip (· != '\x7b')
  let _ ← Scan.char '\x7b'
  Scan.blanks

/-- The start of a style block. -/
def styleStart : Scan Unit := do
  Scan.keyword "<style>"
  Scan.blanks

/-- The end of a style block. -/
def styleEnd : Scan Unit := do
  Scan.keyword "</style>"
  Scan.blanks

/-- The beginning of a line that no dialect sees. -/
def skipped : Scan Unit :=
  Scan.anyOf [
    Scan.keyword "@start", Scan.keyword "@end",
    do Scan.keyword "skinparam"; Scan.wordEnd,
    do Scan.keyword "scale"; Scan.wordEnd,
    Scan.text "!",
    do Scan.keyword "allowmixing"; Scan.wordEnd,
    do Scan.keyword "allow_mixing"; Scan.wordEnd]

/-- Handles an open block comment: the part of the line after its end, if it ends here. -/
def closeComment (r : SourceReader) (line : SourceLine) : SourceReader × Option SourceLine :=
  if r.inComment then
    match Chars.cut? commentEnd line.text with
    | none => (r, none)
    | some (_, rest) =>
      let text := Chars.trim rest
      ({ r with inComment := false }, if text.isEmpty then none else some ⟨text, text⟩)
  else (r, some line)

/-- Removes the comments that start in a line. -/
def removeComments (r : SourceReader) (line : SourceLine) : SourceReader × Option SourceLine :=
  if Chars.contains commentStart line.text then
    let text := Chars.trim (inlineComment.erase line.text)
    match Chars.cut? commentStart text with
    | some (before, _) =>
      let text := Chars.trim before
      ({ r with inComment := true }, if text.isEmpty then none else some ⟨text, text⟩)
    | none => (r, if text.isEmpty then none else some ⟨text, text⟩)
  else (r, some line)

/-- Handles settings and style blocks, and the lines that are skipped. -/
def filter (r : SourceReader) (line : SourceLine) : SourceReader × Option SourceLine :=
  if r.inStyle then
    (if styleEnd.reads line.text then { r with inStyle := false } else r, none)
  else if styleStart.reads line.text then ({ r with inStyle := true }, none)
  else if r.depth != 0 then
    let opened : Int := line.text.count '\x7b'
    let closed : Int := line.text.count '\x7d'
    ({ r with depth := r.depth + (opened - closed) }, none)
  else if settingsStart.reads line.text then ({ r with depth := 1 }, none)
  else if line.text.head? == some '\'' || skipped.begins line.text then (r, none)
  else (r, some line)

/-- Reads one line; the result is the line as a dialect sees it, if it sees it. -/
def step (r : SourceReader) (raw : List Char) : SourceReader × Option SourceLine :=
  let raw := Chars.trimRight raw
  match r.closeComment ⟨Chars.trim raw, raw⟩ with
  | (r, none) => (r, none)
  | (r, some line) =>
    match r.removeComments line with
    | (r, none) => (r, none)
    | (r, some line) => r.filter line

/-- Reads lines from a given state. -/
def run : SourceReader → List (List Char) → List SourceLine
  | _, [] => []
  | r, raw :: rest =>
    match r.step raw with
    | (r, none) => run r rest
    | (r, some line) => line :: run r rest

end SourceReader

namespace Source

/-- A text with all line breaks written as line feeds. -/
def unifyBreaks : List Char → List Char
  | [] => []
  | '\r' :: '\n' :: s => '\n' :: unifyBreaks s
  | c :: s => (if c = '\r' then '\n' else c) :: unifyBreaks s

/-- The lines of a text that the dialects see. -/
def lines (text : String) : List SourceLine :=
  SourceReader.run {} (Chars.split '\n' (unifyBreaks text.toList))

/-- The pattern of a start mark: `@start` and a name, in any case and behind blank lines and blanks,
where a word begins or ends.  The name may itself be written as a pattern. -/
def startMark (name : String) : Except Pattern.Error Pattern :=
  Pattern.read { ignoresCase := true, byLine := true } ("^\\s*@start" ++ name ++ "\\b").toList

/-- The text has a start mark for one of the names.  A name behind the first one that fits is not
looked at. -/
def hasStartMark (text : String) : List String → Except Pattern.Error Bool
  | [] => .ok false
  | name :: names => do
    let mark ← startMark name
    if mark.occurs text.toList then pure true else hasStartMark text names

end Source
end UmlDraw
